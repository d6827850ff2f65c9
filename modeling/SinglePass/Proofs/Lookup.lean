import Mathlib
import SinglePass.Registry

/-!
# Finding builtins and overloads

A registry finds a builtin under its own name (`Registry.name_of_find?`), and a call takes the first overload for the
kinds of its arguments (`Builtin.resolve_eq_ok_iff`).  If there is none, the number of arguments is compared with the
least and the greatest arity, but only if no overload has just this arity.  That makes no difference: an arity that
occurs is neither too small nor too large (`Builtin.resolve_eq`).
-/

namespace SinglePass

namespace Builtin

variable {b : Builtin} {args : List Value}

theorem arityBounds_eq_some_iff {least greatest : Nat} : b.arityBounds = some (least, greatest) ↔
    ((∃ o ∈ b.overloads, o.arity = least) ∧ ∀ o ∈ b.overloads, least ≤ o.arity) ∧
      (∃ o ∈ b.overloads, o.arity = greatest) ∧ ∀ o ∈ b.overloads, o.arity ≤ greatest := by
  have hmin : (b.overloads.map Overload.arity).min? = some least ↔
      (∃ o ∈ b.overloads, o.arity = least) ∧ ∀ o ∈ b.overloads, least ≤ o.arity := by
    rw [List.min?_eq_some_iff, List.mem_map, List.forall_mem_map]
  have hmax : (b.overloads.map Overload.arity).max? = some greatest ↔
      (∃ o ∈ b.overloads, o.arity = greatest) ∧ ∀ o ∈ b.overloads, o.arity ≤ greatest := by
    rw [List.max?_eq_some_iff, List.mem_map, List.forall_mem_map]
  rw [← hmin, ← hmax]
  unfold arityBounds
  constructor
  · intro h
    simp only at h
    split at h
    · rename_i hleast hgreatest
      cases h
      exact ⟨hleast, hgreatest⟩
    · cases h
  · rintro ⟨hleast, hgreatest⟩
    simp only
    split
    · rename_i hleast' hgreatest'
      cases hleast'.symm.trans hleast
      cases hgreatest'.symm.trans hgreatest
      rfl
    · rename_i hno
      exact (hno _ _ hleast hgreatest).elim

theorem arityError?_of_arityBounds {least greatest : Nat} (h : b.arityBounds = some (least, greatest)) (got : Nat) :
    b.arityError? got =
      if got < least then some (.tooFew b.name least got)
      else if greatest < got then some (.tooMany b.name greatest got)
      else none := by
  rw [arityError?, h]

theorem category_of_arityError? {got : Nat} {e : Error} (h : b.arityError? got = some e) : e.category = .arity := by
  cases hbounds : b.arityBounds with
  | none =>
    rw [arityError?, hbounds] at h
    cases h
  | some bounds =>
    rw [@arityError?_of_arityBounds b bounds.1 bounds.2 hbounds] at h
    split at h
    · cases h
      rfl
    · split at h
      · cases h
        rfl
      · cases h

/-- A number of arguments that some overload takes is not to blame. -/
theorem arityError?_arity {o : Overload} (ho : o ∈ b.overloads) : b.arityError? o.arity = none := by
  cases hbounds : b.arityBounds with
  | none => rw [arityError?, hbounds]
  | some bounds =>
    obtain ⟨⟨-, hleast⟩, -, hgreatest⟩ := arityBounds_eq_some_iff.1 hbounds
    have hmin := hleast o ho
    have hmax := hgreatest o ho
    rw [arityError?_of_arityBounds hbounds, if_neg (by omega), if_neg (by omega)]

/-- It makes no difference that the number of arguments is not looked at if some overload takes as many. -/
theorem resolve_eq (b : Builtin) (args : List Value) :
    b.resolve args = (b.overloads.find? (·.accepts (args.map Value.kind))).elim
      (.error ((b.arityError? args.length).getD (.noOverload b.name (args.map Value.kind)))) .ok := by
  have hguard : (if b.overloads.any (·.arity == args.length) then none else b.arityError? args.length) =
      b.arityError? args.length := by
    split
    · rename_i hany
      obtain ⟨o, ho, harity⟩ := List.any_eq_true.1 hany
      rw [← beq_iff_eq.1 harity, arityError?_arity ho]
    · rfl
  unfold resolve
  simp only [hguard]
  cases b.overloads.find? (·.accepts (args.map Value.kind)) <;> rfl

/-- A call that resolves takes the first overload for its kinds. -/
theorem resolve_eq_ok_iff {o : Overload} :
    b.resolve args = .ok o ↔ b.overloads.find? (·.accepts (args.map Value.kind)) = some o := by
  rw [resolve_eq]
  cases b.overloads.find? (·.accepts (args.map Value.kind)) <;> simp

theorem mem_of_resolve {o : Overload} (h : b.resolve args = .ok o) : o ∈ b.overloads :=
  List.mem_of_find?_eq_some (resolve_eq_ok_iff.1 h)

/-- A call that does not resolve has a wrong number of arguments, or none of its overloads takes their kinds. -/
theorem resolve_eq_error {e : Error} (h : b.resolve args = .error e) :
    b.arityError? args.length = some e ∨ e = .noOverload b.name (args.map Value.kind) := by
  rw [resolve_eq] at h
  cases hfind : b.overloads.find? (·.accepts (args.map Value.kind)) with
  | some o =>
    rw [hfind] at h
    cases h
  | none =>
    rw [hfind, Option.elim_none, Except.error.injEq] at h
    subst h
    cases b.arityError? args.length with
    | none => exact .inr rfl
    | some e => exact .inl rfl

theorem category_of_resolve {e : Error} (h : b.resolve args = .error e) : e.category = .type ∨ e.category = .arity := by
  rcases resolve_eq_error h with h | rfl
  · exact .inr (category_of_arityError? h)
  · exact .inl rfl

end Builtin

namespace Registry

variable {r : Registry} {name : String} {b : Builtin}

/-- The keys of a registry are the names of its builtins. -/
theorem map_name_builtins (r : Registry) : r.builtins.map Builtin.name = r.entries.map Prod.fst := by
  rw [builtins, List.map_map]
  exact List.map_congr_left fun p hp => r.name_eq_key p hp

theorem mem_entries_of_find? (h : r.find? name = some b) : (name, b) ∈ r.entries := by
  obtain ⟨before, after, hsplit, -⟩ := List.lookup_eq_some_iff.1 h
  rw [hsplit]
  simp

theorem mem_of_find? (h : r.find? name = some b) : b ∈ r.builtins :=
  List.mem_map.2 ⟨(name, b), mem_entries_of_find? h, rfl⟩

/-- A builtin is held under its own name. -/
theorem name_of_find? (h : r.find? name = some b) : b.name = name := r.name_eq_key _ (mem_entries_of_find? h)

theorem overloads_of_find? (h : r.find? name = some b) : r.overloads name = b.overloads := by
  unfold overloads
  rw [h]
  rfl

end Registry

end SinglePass
