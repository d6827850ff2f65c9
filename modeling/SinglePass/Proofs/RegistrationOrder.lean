import SinglePass.Proofs.Extending

/-!
# The order of registrations

Builtins are registered into an empty registry one after another.  All registrations succeed if and only if no name is
given the same parameters twice (`signatures`), and then the registry knows the names of the builtins, each with all
overloads that they declare under it (`Registry.Comprises`).

The order in which the overloads of a name come then makes no difference.  A call is decided by the overload for its
kinds, which is the only one, or by the least and the greatest arity (`Resolution`), and none of this depends on the
order (`Resolution.perm`).
-/

namespace SinglePass

/-! ### What a list of builtins declares -/

/-- The overloads that are declared under a name. -/
def declared (bs : List Builtin) (name : String) : List Overload :=
  (bs.filter fun b => b.name == name).flatMap Builtin.overloads

/-- The names and parameters of all overloads that are declared. -/
def signatures (bs : List Builtin) : List (String × List Kind) :=
  bs.flatMap fun b => b.overloads.map fun o => (b.name, o.params)

theorem declared_concat (bs : List Builtin) (b : Builtin) (name : String) :
    declared (bs ++ [b]) name = declared bs name ++ if b.name = name then b.overloads else [] := by
  unfold declared
  by_cases h : b.name = name <;> simp [h]

theorem signatures_concat (bs : List Builtin) (b : Builtin) :
    signatures (bs ++ [b]) = signatures bs ++ b.overloads.map fun o => (b.name, o.params) := by
  simp [signatures]

/-- The signatures under a name are those of the overloads that are declared under it. -/
theorem filter_signatures (bs : List Builtin) (name : String) :
    (signatures bs).filter (fun s => s.1 == name) = (declared bs name).map fun o => (name, o.params) := by
  induction bs with
  | nil => rfl
  | cons b bs ih =>
    have hcons : signatures (b :: bs) = (b.overloads.map fun o => (b.name, o.params)) ++ signatures bs := rfl
    rw [hcons, List.filter_append, ih]
    by_cases h : b.name = name
    · subst h
      simp [declared, List.filter_map, Function.comp_def]
    · simp [declared, List.filter_map, Function.comp_def, h]

theorem mem_signatures_iff {bs : List Builtin} {name : String} {params : List Kind} :
    (name, params) ∈ signatures bs ↔ params ∈ (declared bs name).map Overload.params := by
  have hfilter : (name, params) ∈ signatures bs ↔ (name, params) ∈ (signatures bs).filter fun s => s.1 == name := by
    simp
  rw [hfilter, filter_signatures]
  simp

theorem nodup_declared {bs : List Builtin} (h : (signatures bs).Nodup) (name : String) :
    ((declared bs name).map Overload.params).Nodup := by
  have hfilter := h.filter fun s => s.1 == name
  rw [filter_signatures] at hfilter
  have hmap : (declared bs name).map Overload.params =
      ((declared bs name).map fun o => (name, o.params)).map Prod.snd := by
    simp
  rw [hmap]
  refine hfilter.map_on ?_
  intro s hs t ht hst
  obtain ⟨o, -, rfl⟩ := List.mem_map.1 hs
  obtain ⟨p, -, rfl⟩ := List.mem_map.1 ht
  exact Prod.ext rfl hst

/-- One more builtin declares nothing twice if its own parameters are distinct and none of them is taken. -/
theorem nodup_signatures_concat {bs : List Builtin} {b : Builtin} : (signatures (bs ++ [b])).Nodup ↔
    (signatures bs).Nodup ∧ (b.overloads.map Overload.params).Nodup ∧
      ∀ o ∈ b.overloads, o.params ∉ (declared bs b.name).map Overload.params := by
  have hown : (b.overloads.map fun o => (b.name, o.params)).Nodup ↔ (b.overloads.map Overload.params).Nodup := by
    have hmap : (b.overloads.map fun o => (b.name, o.params)) =
        (b.overloads.map Overload.params).map (Prod.mk b.name) := by
      simp
    rw [hmap, List.nodup_map_iff (Prod.mk_right_injective b.name)]
  rw [signatures_concat, List.nodup_append, hown]
  refine and_congr_right fun _ => and_congr_right fun _ => ?_
  constructor
  · intro h o ho hmem
    exact h _ (mem_signatures_iff.2 hmem) _ (List.mem_map.2 ⟨o, ho, rfl⟩) rfl
  · rintro h s hs _ ht rfl
    obtain ⟨o, ho, rfl⟩ := List.mem_map.1 ht
    exact h o ho (mem_signatures_iff.1 hs)

theorem nodup_signatures_of_append {bs cs : List Builtin} (h : (signatures (bs ++ cs)).Nodup) :
    (signatures bs).Nodup := by
  have happend : signatures (bs ++ cs) = signatures bs ++ signatures cs := List.flatMap_append
  rw [happend] at h
  exact h.of_append_left

/-! ### What a registry comprises -/

namespace Registry

/-- All overloads are added if and only if their parameters are distinct and none of them is taken. -/
theorem addOverloads_eq_none_iff {held more : List Overload} : (addOverloads held more).2 = none ↔
    (more.map Overload.params).Nodup ∧ ∀ o ∈ more, o.params ∉ held.map Overload.params := by
  induction more generalizing held with
  | nil => simp [addOverloads]
  | cons o more ih =>
    have htaken : (held.any fun h => decide (h.params = o.params)) = true ↔ o.params ∈ held.map Overload.params := by
      simp [List.any_eq_true]
    unfold addOverloads
    by_cases h : o.params ∈ held.map Overload.params
    · rw [if_pos (htaken.2 h)]
      simp only [reduceCtorEq, false_iff, not_and, not_forall, not_not]
      intro _
      exact ⟨o, List.mem_cons_self, h⟩
    · rw [if_neg (htaken.not.2 h), ih]
      simp only [List.map_cons, List.nodup_cons, List.map_append, List.map_nil, List.mem_append, List.mem_singleton,
        List.forall_mem_cons, not_or]
      constructor
      · rintro ⟨hnodup, hmore⟩
        refine ⟨⟨?_, hnodup⟩, h, fun p hp => (hmore p hp).1⟩
        intro hmem
        obtain ⟨p, hp, hparams⟩ := List.mem_map.1 hmem
        exact (hmore p hp).2 hparams
      · rintro ⟨⟨hnew, hnodup⟩, -, hmore⟩
        refine ⟨hnodup, fun p hp => ⟨hmore p hp, ?_⟩⟩
        intro hparams
        exact hnew (List.mem_map.2 ⟨p, hp, hparams⟩)

theorem addOverloads_of_eq_none {held more : List Overload} (h : (addOverloads held more).2 = none) :
    (addOverloads held more).1 = held ++ more := by
  induction more generalizing held with
  | nil => simp [addOverloads]
  | cons o more ih =>
    unfold addOverloads at h ⊢
    split at h
    · cases h
    · rename_i hfree
      rw [if_neg hfree, ih h, List.append_assoc, List.singleton_append]

theorem keys_put (name : String) (os : List Overload) (es : List (String × Builtin)) :
    (put name os es).map Prod.fst =
      if name ∈ es.map Prod.fst then es.map Prod.fst else es.map Prod.fst ++ [name] := by
  induction es with
  | nil => simp [put]
  | cons e es ih =>
    obtain ⟨key, c⟩ := e
    unfold put
    by_cases hkey : key = name
    · simp [hkey]
    · rw [if_neg hkey, List.map_cons, ih]
      have hne : name ≠ key := Ne.symm hkey
      by_cases hmem : name ∈ es.map Prod.fst <;> simp [hmem, hne]

theorem nodup_names_register {r : Registry} (h : (r.builtins.map Builtin.name).Nodup) (b : Builtin) :
    ((r.register b).1.builtins.map Builtin.name).Nodup := by
  rw [map_name_builtins] at h ⊢
  show ((put b.name _ r.entries).map Prod.fst).Nodup
  rw [keys_put]
  split
  · exact h
  · rename_i hnew
    rw [← List.concat_eq_append, List.nodup_concat]
    exact ⟨hnew, h⟩

theorem mem_names_iff {r : Registry} {name : String} :
    name ∈ r.builtins.map Builtin.name ↔ ∃ b, r.find? name = some b := by
  rw [map_name_builtins, ← Option.isSome_iff_exists, find?, List.lookup_isSome_iff]
  simp

/-- The registry knows the names of these builtins, each with what they declare under it, and no others. -/
structure Comprises (r : Registry) (bs : List Builtin) : Prop where
  nodup_names : (r.builtins.map Builtin.name).Nodup
  find?_known : ∀ b ∈ bs, r.find? b.name = some ⟨b.name, declared bs b.name⟩
  find?_unknown : ∀ name, (∀ b ∈ bs, b.name ≠ name) → r.find? name = none

namespace Comprises

variable {r : Registry} {bs : List Builtin} {b : Builtin}

theorem empty : Registry.empty.Comprises [] where
  nodup_names := List.nodup_nil
  find?_known := fun _ hb => nomatch hb
  find?_unknown := fun _ _ => rfl

theorem overloads_eq (h : r.Comprises bs) (name : String) : r.overloads name = declared bs name := by
  by_cases hname : ∃ b ∈ bs, b.name = name
  · obtain ⟨b, hb, rfl⟩ := hname
    exact overloads_of_find? (h.find?_known b hb)
  · have hne : ∀ b ∈ bs, b.name ≠ name := fun b hb heq => hname ⟨b, hb, heq⟩
    have hnone : bs.filter (fun b => b.name == name) = [] := by
      rw [List.filter_eq_nil_iff]
      intro b hb
      simpa using hne b hb
    rw [overloads, h.find?_unknown name hne, declared, hnone]
    rfl

theorem register_eq_none_iff (h : r.Comprises bs) (hbs : (signatures bs).Nodup) :
    (r.register b).2 = none ↔ (signatures (bs ++ [b])).Nodup := by
  have herror : (r.register b).2 = none ↔ (addOverloads (r.overloads b.name) b.overloads).2 = none :=
    Option.map_eq_none_iff
  rw [herror, h.overloads_eq, addOverloads_eq_none_iff, nodup_signatures_concat]
  exact ⟨fun hfree => ⟨hbs, hfree⟩, fun hfree => hfree.2⟩

theorem register (h : r.Comprises bs) (hnone : (r.register b).2 = none) : (r.register b).1.Comprises (bs ++ [b]) := by
  have hadded : (addOverloads (r.overloads b.name) b.overloads).1 = declared (bs ++ [b]) b.name := by
    rw [addOverloads_of_eq_none (Option.map_eq_none_iff.1 hnone), h.overloads_eq, declared_concat, if_pos rfl]
  refine ⟨?_, ?_, ?_⟩
  · exact nodup_names_register h.nodup_names b
  · intro c hc
    rw [find?_register]
    by_cases hname : b.name = c.name
    · rw [if_pos hname, hadded, hname]
    · rw [if_neg hname]
      rcases List.mem_append.1 hc with hc | hc
      · rw [h.find?_known c hc, declared_concat, if_neg hname, List.append_nil]
      · rw [List.mem_singleton.1 hc] at hname
        exact absurd rfl hname
  · intro name hne
    have hb : b.name ≠ name := hne b (by simp)
    rw [find?_register, if_neg hb]
    exact h.find?_unknown name fun c hc => hne c (by simp [hc])

/-- More registrations succeed if and only if nothing is declared twice, and then the registry comprises them too. -/
theorem registerEach (h : r.Comprises bs) (hbs : (signatures bs).Nodup) (cs : List Builtin) :
    ((r.registerEach cs).2 = none ↔ (signatures (bs ++ cs)).Nodup) ∧
      ((signatures (bs ++ cs)).Nodup → (r.registerEach cs).1.Comprises (bs ++ cs)) := by
  induction cs generalizing r bs with
  | nil =>
    rw [List.append_nil]
    exact ⟨⟨fun _ => hbs, fun _ => rfl⟩, fun _ => h⟩
  | cons c cs ih =>
    have hassoc : bs ++ c :: cs = bs ++ [c] ++ cs := by simp
    have hiff := h.register_eq_none_iff (b := c) hbs
    unfold Registry.registerEach
    split
    · rename_i r' hr
      have hnone : (r.register c).2 = none := by rw [hr]
      have hnext : r'.Comprises (bs ++ [c]) := by
        have hcomprises := h.register hnone
        rwa [hr] at hcomprises
      rw [hassoc]
      exact ih hnext (hiff.1 hnone)
    · rename_i r' e hr
      have hsome : (r.register c).2 ≠ none := by rw [hr]; simp
      have hdup : ¬(signatures (bs ++ c :: cs)).Nodup := by
        intro hnodup
        rw [hassoc] at hnodup
        exact hsome (hiff.2 (nodup_signatures_of_append hnodup))
      exact ⟨by simp [hdup], fun hnodup => absurd hnodup hdup⟩

end Comprises

end Registry

/-! ### Calls, whatever the order of the overloads -/

/-- What a call of a name with these arguments comes to, if the name is known. -/
def Registry.resolve? (r : Registry) (name : String) (args : List Value) : Option (Except Error Overload) :=
  (r.find? name).map fun b => b.resolve args

/-- What a call has to come to, given the overloads of its name in any order: the one overload for the kinds of the
arguments.  If there is none, then too few or too many arguments are reported if every overload takes more or fewer of
them, with the arity that comes closest, and otherwise the kinds are reported. -/
inductive Resolution (name : String) (os : List Overload) (args : List Value) : Except Error Overload → Prop
  | found {o : Overload} : os.filter (·.accepts (args.map Value.kind)) = [o] → Resolution name os args (.ok o)
  | tooFew {least : Nat} : (∀ o ∈ os, o.params ≠ args.map Value.kind) → (∃ o ∈ os, o.arity = least) →
      (∀ o ∈ os, least ≤ o.arity) → args.length < least →
      Resolution name os args (.error (.tooFew name least args.length))
  | tooMany {greatest : Nat} : (∀ o ∈ os, o.params ≠ args.map Value.kind) → (∃ o ∈ os, o.arity = greatest) →
      (∀ o ∈ os, o.arity ≤ greatest) → greatest < args.length →
      Resolution name os args (.error (.tooMany name greatest args.length))
  | noOverload : (∀ o ∈ os, o.params ≠ args.map Value.kind) →
      (os = [] ∨ (∃ o ∈ os, o.arity ≤ args.length) ∧ ∃ o ∈ os, args.length ≤ o.arity) →
      Resolution name os args (.error (.noOverload name (args.map Value.kind)))

namespace Resolution

variable {name : String} {os os' : List Overload} {args : List Value}

theorem perm (hp : os.Perm os') {result : Except Error Overload} (h : Resolution name os args result) :
    Resolution name os' args result := by
  have hall : ∀ {P : Overload → Prop}, (∀ o ∈ os, P o) → ∀ o ∈ os', P o := fun h o ho => h o (hp.mem_iff.2 ho)
  have hex : ∀ {P : Overload → Prop}, (∃ o ∈ os, P o) → ∃ o ∈ os', P o := by
    rintro P ⟨o, ho, hP⟩
    exact ⟨o, hp.mem_iff.1 ho, hP⟩
  cases h with
  | @found o hfilter =>
    refine .found (List.perm_singleton.1 ?_)
    rw [← hfilter]
    exact (hp.filter _).symm
  | tooFew hnone hleast hle hlt => exact .tooFew (hall hnone) (hex hleast) (hall hle) hlt
  | tooMany hnone hgreatest hle hlt => exact .tooMany (hall hnone) (hex hgreatest) (hall hle) hlt
  | noOverload hnone hgap =>
    refine .noOverload (hall hnone) ?_
    rcases hgap with rfl | ⟨hbelow, habove⟩
    · exact .inl (List.nil_perm.1 hp)
    · exact .inr ⟨hex hbelow, hex habove⟩

end Resolution

namespace Builtin

variable {b : Builtin} {args : List Value}

theorem exists_arityBounds (h : b.overloads ≠ []) : ∃ least greatest, b.arityBounds = some (least, greatest) := by
  obtain ⟨o, os, hos⟩ := List.exists_cons_of_ne_nil h
  cases hbounds : b.arityBounds with
  | none => simp [arityBounds, hos] at hbounds
  | some bounds => exact ⟨bounds.1, bounds.2, rfl⟩

theorem find?_of_no_overload (h : ∀ o ∈ b.overloads, o.params ≠ args.map Value.kind) :
    b.overloads.find? (·.accepts (args.map Value.kind)) = none := by
  rw [List.find?_eq_none]
  intro o ho
  simpa [Overload.accepts] using h o ho

/-- Without an overload for the kinds the arities decide. -/
theorem resolve_of_arityBounds (h : ∀ o ∈ b.overloads, o.params ≠ args.map Value.kind) {least greatest : Nat}
    (hbounds : b.arityBounds = some (least, greatest)) : b.resolve args =
      if args.length < least then .error (.tooFew b.name least args.length)
      else if greatest < args.length then .error (.tooMany b.name greatest args.length)
      else .error (.noOverload b.name (args.map Value.kind)) := by
  rw [resolve_eq, find?_of_no_overload h, Option.elim_none, arityError?_of_arityBounds hbounds]
  split
  · rfl
  · split <;> rfl

theorem resolve_of_no_overloads (h : b.overloads = []) :
    b.resolve args = .error (.noOverload b.name (args.map Value.kind)) := by
  simp [resolve_eq, arityError?, arityBounds, h]

/-- The call of a builtin comes to what is described. -/
theorem resolve_eq_of_resolution {result : Except Error Overload} (h : Resolution b.name b.overloads args result) :
    b.resolve args = result := by
  cases h with
  | found hfilter =>
    rw [resolve_eq_ok_iff, ← List.head?_filter, hfilter]
    rfl
  | @tooFew least hnone hleast hle hlt =>
    obtain ⟨o, ho, hoarity⟩ := hleast
    obtain ⟨least', greatest, hbounds⟩ := exists_arityBounds (List.ne_nil_of_mem ho)
    obtain ⟨⟨⟨p, hp, hparity⟩, hle'⟩, -⟩ := arityBounds_eq_some_iff.1 hbounds
    have heq : least' = least := by
      have h₁ := hle p hp
      have h₂ := hle' o ho
      omega
    rw [resolve_of_arityBounds hnone hbounds, heq, if_pos hlt]
  | @tooMany greatest hnone hgreatest hle hlt =>
    obtain ⟨o, ho, hoarity⟩ := hgreatest
    obtain ⟨least, greatest', hbounds⟩ := exists_arityBounds (List.ne_nil_of_mem ho)
    obtain ⟨⟨-, hleast⟩, ⟨p, hp, hparity⟩, hle'⟩ := arityBounds_eq_some_iff.1 hbounds
    have heq : greatest' = greatest := by
      have h₁ := hle p hp
      have h₂ := hle' o ho
      omega
    have hnotFew : ¬args.length < least := by
      have h₁ := hleast o ho
      omega
    rw [resolve_of_arityBounds hnone hbounds, heq, if_neg hnotFew, if_pos hlt]
  | noOverload hnone hgap =>
    rcases hgap with hnil | ⟨⟨o, ho, hbelow⟩, p, hp, habove⟩
    · exact resolve_of_no_overloads hnil
    · obtain ⟨least, greatest, hbounds⟩ := exists_arityBounds (List.ne_nil_of_mem ho)
      obtain ⟨⟨-, hleast⟩, -, hgreatest⟩ := arityBounds_eq_some_iff.1 hbounds
      have h₁ := hleast o ho
      have h₂ := hgreatest p hp
      rw [resolve_of_arityBounds hnone hbounds, if_neg (by omega), if_neg (by omega)]

/-- An overload is the only one for its kinds. -/
theorem filter_accepts_eq {os : List Overload} (h : (os.map Overload.params).Nodup) {o : Overload} (ho : o ∈ os) :
    os.filter (·.accepts o.params) = [o] := by
  obtain ⟨before, after, rfl⟩ := List.append_of_mem ho
  rw [List.map_append, List.map_cons, List.nodup_middle, List.nodup_cons, List.mem_append, not_or] at h
  obtain ⟨⟨hbefore, hafter⟩, -⟩ := h
  have hnone : ∀ {ps : List Overload}, o.params ∉ ps.map Overload.params → ps.filter (·.accepts o.params) = [] := by
    intro ps hps
    rw [List.filter_eq_nil_iff]
    intro p hp haccepts
    exact hps (List.mem_map.2 ⟨p, hp, of_decide_eq_true haccepts⟩)
  have hself : o.accepts o.params = true := decide_eq_true rfl
  rw [List.filter_append, List.filter_cons, if_pos hself, hnone hbefore, hnone hafter, List.nil_append]

/-- If the parameters of its overloads are distinct, a builtin has something that its call comes to. -/
theorem resolution_resolve (h : (b.overloads.map Overload.params).Nodup) (args : List Value) :
    Resolution b.name b.overloads args (b.resolve args) := by
  by_cases hfound : ∃ o ∈ b.overloads, o.params = args.map Value.kind
  · obtain ⟨o, ho, hparams⟩ := hfound
    have hfilter := filter_accepts_eq h ho
    rw [hparams] at hfilter
    have hresolution : Resolution b.name b.overloads args (.ok o) := .found hfilter
    rwa [resolve_eq_of_resolution hresolution]
  have hnone : ∀ o ∈ b.overloads, o.params ≠ args.map Value.kind := fun o ho heq => hfound ⟨o, ho, heq⟩
  by_cases hnil : b.overloads = []
  · rw [resolve_of_no_overloads hnil]
    exact .noOverload hnone (.inl hnil)
  obtain ⟨least, greatest, hbounds⟩ := exists_arityBounds hnil
  obtain ⟨⟨hleast, hle⟩, hgreatest, hge⟩ := arityBounds_eq_some_iff.1 hbounds
  rw [resolve_of_arityBounds hnone hbounds]
  by_cases hfew : args.length < least
  · rw [if_pos hfew]
    exact .tooFew hnone hleast hle hfew
  by_cases hmany : greatest < args.length
  · rw [if_neg hfew, if_pos hmany]
    exact .tooMany hnone hgreatest hge hmany
  · rw [if_neg hfew, if_neg hmany]
    obtain ⟨o, ho, hoarity⟩ := hleast
    obtain ⟨p, hp, hparity⟩ := hgreatest
    exact .noOverload hnone (.inr ⟨⟨o, ho, by omega⟩, p, hp, by omega⟩)

end Builtin

/-! ### Any order -/

theorem declared_perm {bs bs' : List Builtin} (h : bs'.Perm bs) (name : String) :
    (declared bs' name).Perm (declared bs name) := (h.filter _).flatMap_right _

theorem signatures_perm {bs bs' : List Builtin} (h : bs'.Perm bs) : (signatures bs').Perm (signatures bs) :=
  h.flatMap_right _

namespace Registry

/-- The names in their order depend only on which names there are. -/
theorem names_congr {r r' : Registry} (hr : (r.builtins.map Builtin.name).Nodup)
    (hr' : (r'.builtins.map Builtin.name).Nodup)
    (h : ∀ name, name ∈ r'.builtins.map Builtin.name ↔ name ∈ r.builtins.map Builtin.name) : r'.names = r.names := by
  have hsorted : ∀ q : Registry, q.names.Pairwise (· ≤ ·) := by
    intro q
    have hle : q.names.Pairwise fun a b => decide (a ≤ b) = true :=
      List.pairwise_mergeSort (fun a b c hab hbc => by simp at *; exact hab.trans hbc)
        (fun a b => by simpa using String.le_total a b) _
    exact hle.imp fun hab => of_decide_eq_true hab
  refine List.Perm.eq_of_pairwise (fun a b _ _ hab hba => String.le_antisymm hab hba) (hsorted r') (hsorted r) ?_
  have hperm : (r'.builtins.map Builtin.name).Perm (r.builtins.map Builtin.name) :=
    (List.perm_ext_iff_of_nodup hr' hr).2 h
  rw [map_name_builtins, map_name_builtins] at hperm
  exact (List.mergeSort_perm _ _).trans (hperm.trans (List.mergeSort_perm _ _).symm)

namespace Comprises

variable {r r' : Registry} {bs bs' : List Builtin}

theorem mem_names_iff (h : r.Comprises bs) {name : String} :
    name ∈ r.builtins.map Builtin.name ↔ ∃ b ∈ bs, b.name = name := by
  rw [Registry.mem_names_iff]
  constructor
  · rintro ⟨c, hc⟩
    by_contra hno
    rw [h.find?_unknown name fun b hb hname => hno ⟨b, hb, hname⟩] at hc
    cases hc
  · rintro ⟨b, hb, rfl⟩
    exact ⟨_, h.find?_known b hb⟩

theorem names_perm (h : r.Comprises bs) (h' : r'.Comprises bs') (hp : bs'.Perm bs) : r'.names = r.names := by
  refine names_congr h.nodup_names h'.nodup_names fun name => ?_
  rw [h.mem_names_iff, h'.mem_names_iff]
  simp only [hp.mem_iff]

theorem resolve?_known (h : r.Comprises bs) (hbs : (signatures bs).Nodup) {b : Builtin} (hb : b ∈ bs)
    (args : List Value) :
    ∃ result, r.resolve? b.name args = some result ∧ Resolution b.name (declared bs b.name) args result := by
  refine ⟨Builtin.resolve ⟨b.name, declared bs b.name⟩ args, ?_, ?_⟩
  · rw [resolve?, h.find?_known b hb]
    rfl
  · exact Builtin.resolution_resolve (b := ⟨b.name, declared bs b.name⟩) (nodup_declared hbs b.name) args

theorem resolve?_unknown (h : r.Comprises bs) {name : String} (hname : ∀ b ∈ bs, b.name ≠ name) (args : List Value) :
    r.resolve? name args = none := by
  rw [resolve?, h.find?_unknown name hname]
  rfl

theorem resolve?_perm (h : r.Comprises bs) (h' : r'.Comprises bs') (hbs : (signatures bs).Nodup) (hp : bs'.Perm bs)
    (name : String) (args : List Value) : r'.resolve? name args = r.resolve? name args := by
  by_cases hname : ∃ b ∈ bs, b.name = name
  · obtain ⟨b, hb, rfl⟩ := hname
    have hb' : b ∈ bs' := hp.mem_iff.2 hb
    obtain ⟨result, hresult, hresolution⟩ := h.resolve?_known hbs hb args
    have hcall : Builtin.resolve ⟨b.name, declared bs' b.name⟩ args = result :=
      Builtin.resolve_eq_of_resolution (hresolution.perm (declared_perm hp b.name).symm)
    rw [hresult, resolve?, h'.find?_known b hb', Option.map_some, hcall]
  · have hne : ∀ b ∈ bs, b.name ≠ name := fun b hb heq => hname ⟨b, hb, heq⟩
    have hne' : ∀ b ∈ bs', b.name ≠ name := fun b hb => hne b (hp.mem_iff.1 hb)
    rw [h.resolve?_unknown hne, h'.resolve?_unknown hne']

end Comprises

end Registry

/-- The order of registrations does not matter.  Builtins are registered into an empty registry without an error if and
only if no name is given the same parameters twice.  Then they can be registered in any other order too, and the
registry knows the same names and resolves every call in the same way: to the one overload for the kinds of the
arguments, or to an error that depends on the arities and kinds only. -/
theorem registerEach_order (bs : List Builtin) :
    ((Registry.empty.registerEach bs).2 = none ↔ (signatures bs).Nodup) ∧
    ((signatures bs).Nodup → ∀ bs', bs'.Perm bs →
      (Registry.empty.registerEach bs').2 = none ∧
      (Registry.empty.registerEach bs').1.names = (Registry.empty.registerEach bs).1.names ∧
      ∀ name args,
        (Registry.empty.registerEach bs').1.resolve? name args = (Registry.empty.registerEach bs).1.resolve? name args ∧
        ((∃ b ∈ bs, b.name = name) → ∃ result, (Registry.empty.registerEach bs).1.resolve? name args = some result ∧
          Resolution name (declared bs name) args result) ∧
        ((∀ b ∈ bs, b.name ≠ name) → (Registry.empty.registerEach bs).1.resolve? name args = none)) := by
  have hempty : (signatures []).Nodup := List.nodup_nil
  obtain ⟨hiff, hcomprises⟩ := Registry.Comprises.empty.registerEach hempty bs
  rw [List.nil_append] at hiff hcomprises
  refine ⟨hiff, fun hbs bs' hp => ?_⟩
  have hbs' : (signatures bs').Nodup := (signatures_perm hp).nodup_iff.2 hbs
  obtain ⟨hiff', hcomprises'⟩ := Registry.Comprises.empty.registerEach hempty bs'
  rw [List.nil_append] at hiff' hcomprises'
  have h := hcomprises hbs
  have h' := hcomprises' hbs'
  refine ⟨hiff'.2 hbs', h.names_perm h' hp, fun name args => ⟨h.resolve?_perm h' hbs hp name args, ?_, ?_⟩⟩
  · rintro ⟨b, hb, rfl⟩
    exact h.resolve?_known hbs hb args
  · exact fun hne => h.resolve?_unknown hne args

private def scattered : List Builtin :=
  [⟨"f", [⟨[.bool, .bool, .int], fun _ => .ok (.int 3)⟩]⟩, ⟨"g", []⟩,
    ⟨"f", [⟨[.bool], fun _ => .ok (.int 1)⟩, ⟨[.str], fun _ => .ok (.int 2)⟩]⟩]

/-- The overloads of `f` come in two parts, with a gap between their arities, and `g` has none. -/
theorem registerEach_scattered : (signatures scattered).Nodup ∧ scattered.reverse.Perm scattered ∧
    (Registry.empty.registerEach scattered.reverse).2 = none ∧
    (Registry.empty.registerEach scattered.reverse).1.names = (Registry.empty.registerEach scattered).1.names ∧
    (Registry.empty.registerEach scattered.reverse).1.resolve? "f" [] = some (.error (.tooFew "f" 1 0)) ∧
    (Registry.empty.registerEach scattered.reverse).1.resolve? "f" [.bool true, .bool true] =
      some (.error (.noOverload "f" [.bool, .bool])) ∧
    (Registry.empty.registerEach scattered.reverse).1.resolve? "g" [] = some (.error (.noOverload "g" [])) := by
  have hnodup : (signatures scattered).Nodup := by decide
  have hperm : scattered.reverse.Perm scattered := List.reverse_perm scattered
  obtain ⟨hnone, hnames, hresolve⟩ := (registerEach_order scattered).2 hnodup scattered.reverse hperm
  refine ⟨hnodup, hperm, hnone, hnames, ?_, ?_, ?_⟩
  · exact (hresolve "f" []).1.trans rfl
  · exact (hresolve "f" [.bool true, .bool true]).1.trans rfl
  · exact (hresolve "g" []).1.trans rfl

end SinglePass
