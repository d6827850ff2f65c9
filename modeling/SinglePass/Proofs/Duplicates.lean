import SinglePass.Proofs.RegistrationOrder

/-!
# Duplicate overloads

Registering a builtin adds its overloads one by one, and stops at the first whose parameters are taken.  They may be
taken by an overload that was held before, or by one that the builtin itself has added a moment ago.  As long as no
parameters are taken, an overload is added behind the others (`Registry.addOverloads_append`), so that a registration
that fails leaves behind the overloads before the duplicate and nothing else.

A failed registration does no harm to what all registries have in common: names are keys, and under a name no
parameters occur twice (`Registry.Consistent`).
-/

namespace SinglePass

/-! ### The first duplicate -/

/-- The parameters of an overload are held, or those of an overload that comes before it. -/
def Overload.Taken (held before : List Overload) (o : Overload) : Prop :=
  o.params ∈ held.map Overload.params ∨ o.params ∈ before.map Overload.params

/-- No overload has parameters that are taken when its turn comes. -/
def Overload.Free (held os : List Overload) : Prop :=
  ∀ before o after, os = before ++ o :: after → ¬Taken held before o

namespace Overload

variable {held os : List Overload} {o : Overload}

theorem free_nil (held : List Overload) : Free held [] := by
  intro before o after h
  simp at h

theorem free_concat_iff : Free held (os ++ [o]) ↔ Free held os ∧ ¬Taken held os o := by
  constructor
  · intro h
    refine ⟨?_, h os o [] rfl⟩
    rintro before p after rfl
    exact h before p (after ++ [o]) (by simp)
  · rintro ⟨hfree, ho⟩ before p after heq
    rcases List.eq_nil_or_concat after with rfl | ⟨after, q, rfl⟩
    · obtain ⟨rfl, hsingle⟩ := List.append_inj' heq rfl
      rwa [← List.singleton_inj.1 hsingle]
    · have hassoc : before ++ p :: (after ++ [q]) = (before ++ p :: after) ++ [q] := by simp
      rw [List.concat_eq_append, hassoc] at heq
      exact hfree before p after (List.append_inj' heq rfl).1

/-- Either nothing is taken, or there is a first overload whose parameters are. -/
theorem free_or_taken (held os : List Overload) :
    Free held os ∨ ∃ before o after, os = before ++ o :: after ∧ Free held before ∧ Taken held before o := by
  induction os using List.reverseRecOn with
  | nil => exact .inl (free_nil held)
  | append_singleton os p ih =>
    rcases ih with hfree | ⟨before, o, after, rfl, hfree, ho⟩
    · by_cases hp : Taken held os p
      · exact .inr ⟨os, p, [], rfl, hfree, hp⟩
      · exact .inl (free_concat_iff.2 ⟨hfree, hp⟩)
    · exact .inr ⟨before, o, after ++ [p], by simp, hfree, ho⟩

end Overload

/-! ### Registrations -/

namespace Registry

open Overload

variable {held os before after : List Overload} {o : Overload} {r : Registry} {b : Builtin}

theorem any_params_iff :
    ((held ++ before).any fun h => decide (h.params = o.params)) = true ↔ Taken held before o := by
  simp [Taken]

/-- Overloads whose parameters are free are added in their order. -/
theorem addOverloads_append (h : Free held os) (more : List Overload) :
    addOverloads held (os ++ more) = addOverloads (held ++ os) more := by
  induction os using List.reverseRecOn generalizing more with
  | nil => simp
  | append_singleton os p ih =>
    obtain ⟨hfree, hp⟩ := free_concat_iff.1 h
    rw [List.append_assoc, ih hfree, List.singleton_append, addOverloads, if_neg (any_params_iff.not.2 hp),
      List.append_assoc]

theorem addOverloads_of_free (h : Free held os) : addOverloads held os = (held ++ os, none) := by
  have happend := addOverloads_append h []
  rwa [List.append_nil] at happend

theorem addOverloads_of_taken (hbefore : Free held before) (ho : Taken held before o) :
    addOverloads held (before ++ o :: after) = (held ++ before, some o) := by
  rw [addOverloads_append hbefore, addOverloads, if_pos (any_params_iff.2 ho)]

theorem overloads_register (r : Registry) (b : Builtin) :
    (r.register b).1.overloads b.name = (addOverloads (r.overloads b.name) b.overloads).1 :=
  overloads_of_find? ((find?_register r b b.name).trans (if_pos rfl))

/-- If nothing is taken, all overloads are added. -/
theorem register_of_free (h : Free (r.overloads b.name) b.overloads) :
    (r.register b).2 = none ∧ (r.register b).1.overloads b.name = r.overloads b.name ++ b.overloads := by
  rw [overloads_register, register, addOverloads_of_free h]
  exact ⟨rfl, rfl⟩

/-- The first overload whose parameters are taken is the error, and those before it are added. -/
theorem register_of_taken (heq : b.overloads = before ++ o :: after) (hbefore : Free (r.overloads b.name) before)
    (ho : Taken (r.overloads b.name) before o) :
    (r.register b).2 = some (.duplicate b.name o.params) ∧
      (r.register b).1.overloads b.name = r.overloads b.name ++ before := by
  rw [overloads_register, register, heq, addOverloads_of_taken hbefore ho]
  exact ⟨rfl, rfl⟩

/-! ### Names and parameters -/

/-- Names are keys: what is found under a name is the one builtin of this name.  The overloads of a builtin differ in
their parameters. -/
structure Consistent (r : Registry) : Prop where
  nodup_names : (r.builtins.map Builtin.name).Nodup
  find?_eq_some_iff : ∀ name c, r.find? name = some c ↔ c ∈ r.builtins ∧ c.name = name
  nodup_params : ∀ c ∈ r.builtins, (c.overloads.map Overload.params).Nodup

/-- What stands under a key is found there if the key occurs once. -/
theorem lookup_of_mem {es : List (String × Builtin)} (h : (es.map Prod.fst).Nodup) {p : String × Builtin}
    (hp : p ∈ es) : es.lookup p.1 = some p.2 := by
  induction es with
  | nil => cases hp
  | cons e es ih =>
    rw [List.map_cons, List.nodup_cons] at h
    rcases List.mem_cons.1 hp with rfl | hp
    · rw [List.lookup_cons, beq_self_eq_true]
    · have hne : p.1 ≠ e.1 := fun heq => h.1 (heq ▸ List.mem_map_of_mem hp)
      rw [List.lookup_cons, beq_eq_false_iff_ne.2 hne]
      exact ih h.2 hp

theorem consistent_of_nodup (hnames : (r.builtins.map Builtin.name).Nodup)
    (hparams : ∀ c ∈ r.builtins, (c.overloads.map Overload.params).Nodup) : r.Consistent := by
  refine ⟨hnames, fun name c => ⟨fun h => ?_, ?_⟩, hparams⟩
  · exact ⟨mem_of_find? h, name_of_find? h⟩
  · rintro ⟨hc, rfl⟩
    obtain ⟨p, hp, rfl⟩ := List.mem_map.1 hc
    rw [map_name_builtins] at hnames
    rw [r.name_eq_key p hp]
    exact lookup_of_mem hnames hp

theorem nodup_addOverloads (h : (held.map Overload.params).Nodup) (os : List Overload) :
    ((addOverloads held os).1.map Overload.params).Nodup := by
  induction os generalizing held with
  | nil => exact h
  | cons o os ih =>
    unfold addOverloads
    split
    · exact h
    · rename_i hfree
      refine ih ?_
      have hnew : o.params ∉ held.map Overload.params := by
        intro hmem
        obtain ⟨p, hp, hparams⟩ := List.mem_map.1 hmem
        exact hfree (List.any_eq_true.2 ⟨p, hp, decide_eq_true hparams⟩)
      rw [List.map_append, List.map_singleton, ← List.concat_eq_append, List.nodup_concat]
      exact ⟨hnew, h⟩

theorem Consistent.nodup_overloads (h : r.Consistent) (name : String) :
    ((r.overloads name).map Overload.params).Nodup := by
  cases hfind : r.find? name with
  | none =>
    rw [overloads, hfind]
    exact List.nodup_nil
  | some c =>
    rw [overloads_of_find? hfind]
    exact h.nodup_params c (mem_of_find? hfind)

theorem Consistent.register (h : r.Consistent) (b : Builtin) : (r.register b).1.Consistent := by
  refine consistent_of_nodup (nodup_names_register h.nodup_names b) ?_
  intro c hc
  rcases mem_builtins_register hc with hos | hc
  · rw [hos]
    exact nodup_addOverloads (h.nodup_overloads b.name) b.overloads
  · exact h.nodup_params c hc

theorem Consistent.extendBy (h : r.Consistent) (bs : List Builtin) : (r.extendBy bs).Consistent := by
  induction bs generalizing r with
  | nil => exact h
  | cons b bs ih => exact ih (h.register b)

theorem consistent_empty : Registry.empty.Consistent :=
  consistent_of_nodup List.nodup_nil fun _ hc => nomatch hc

end Registry

/-- What a registration does to a registry that registrations have led to, failed ones included.  Before and after it,
names are keys and no parameters occur twice under a name.  It succeeds if and only if no overload of the builtin has
parameters that are held under the name or that come before it.  Then all overloads are added behind those that are
held; otherwise those before the first duplicate are, and the error names the parameters of the duplicate.  In any case
the name is known afterwards, and under the other names nothing has changed. -/
theorem register_reached {r : Registry} {history : List Builtin} (hr : r = Registry.empty.extendBy history)
    (b : Builtin) :
    r.Consistent ∧ (r.register b).1.Consistent ∧
    ((r.register b).2 = none ↔
      ∀ before o after, b.overloads = before ++ o :: after → ¬Overload.Taken (r.overloads b.name) before o) ∧
    ((r.register b).2 = none → (r.register b).1.overloads b.name = r.overloads b.name ++ b.overloads) ∧
    (∀ e, (r.register b).2 = some e → ∃ before o after, b.overloads = before ++ o :: after ∧
      Overload.Taken (r.overloads b.name) before o ∧
      (∀ before' p after', before = before' ++ p :: after' → ¬Overload.Taken (r.overloads b.name) before' p) ∧
      e = .duplicate b.name o.params ∧ (r.register b).1.overloads b.name = r.overloads b.name ++ before) ∧
    (r.register b).1.contains b.name = true ∧
    ∀ name, name ≠ b.name → (r.register b).1.find? name = r.find? name := by
  have hconsistent : r.Consistent := hr ▸ Registry.consistent_empty.extendBy history
  have hknown : (r.register b).1.contains b.name = true := by
    rw [Registry.contains, Registry.find?_register, if_pos rfl]
    rfl
  have hother : ∀ name, name ≠ b.name → (r.register b).1.find? name = r.find? name := by
    intro name hname
    rw [Registry.find?_register, if_neg hname.symm]
  refine ⟨hconsistent, hconsistent.register b, ?_⟩
  rcases Overload.free_or_taken (r.overloads b.name) b.overloads with hfree | ⟨before, o, after, heq, hbefore, ho⟩
  · obtain ⟨hnone, hadded⟩ := Registry.register_of_free hfree
    refine ⟨⟨fun _ => hfree, fun _ => hnone⟩, fun _ => hadded, ?_, hknown, hother⟩
    intro e he
    rw [hnone] at he
    cases he
  · obtain ⟨herror, hadded⟩ := Registry.register_of_taken heq hbefore ho
    refine ⟨⟨?_, fun hfree => absurd ho (hfree before o after heq)⟩, ?_, ?_, hknown, hother⟩
    · intro hnone
      rw [herror] at hnone
      cases hnone
    · intro hnone
      rw [herror] at hnone
      cases hnone
    · intro e he
      rw [herror] at he
      cases he
      exact ⟨before, o, after, heq, ho, hbefore, rfl, hadded⟩

private def answer (n : Int64) (params : List Kind) : Overload := ⟨params, fun _ => .ok (.int n)⟩

/-- The second registration of `f` fails and adds one overload only; `g` has none. -/
private def failedBefore : Registry :=
  Registry.empty.extendBy
    [⟨"f", [answer 1 [.int]]⟩, ⟨"g", []⟩, ⟨"f", [answer 2 [.str], answer 3 [.int], answer 4 [.bool]]⟩]

private def repeating : Builtin := ⟨"f", [answer 5 [.bool], answer 6 [], answer 7 [.bool], answer 8 [.array]]⟩

/-- A builtin that repeats its own parameters fails, and adds what comes before the repetition. -/
theorem register_reached_repeating : failedBefore.Consistent ∧
    (failedBefore.register repeating).2 = some (.duplicate "f" [.bool]) ∧
    (∃ before o after, repeating.overloads = before ++ o :: after ∧ o.params = [.bool] ∧
      Overload.Taken (failedBefore.overloads "f") before o ∧
      (failedBefore.register repeating).1.overloads "f" = failedBefore.overloads "f" ++ before) ∧
    ((failedBefore.register repeating).1.overloads "f").map Overload.params = [[.int], [.str], [.bool], []] ∧
    (failedBefore.register repeating).1.find? "g" = some ⟨"g", []⟩ := by
  obtain ⟨hconsistent, -, -, -, herror, -, hother⟩ := register_reached (r := failedBefore) rfl repeating
  have hduplicate : (failedBefore.register repeating).2 = some (.duplicate "f" [.bool]) := rfl
  obtain ⟨before, o, after, heq, ho, -, he, hadded⟩ := herror _ hduplicate
  injection he with _ hparams
  exact ⟨hconsistent, hduplicate, ⟨before, o, after, heq, hparams.symm, ho, hadded⟩, rfl, hother "g" (by decide)⟩

end SinglePass
