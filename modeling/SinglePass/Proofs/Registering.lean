import SinglePass.Builtin.Standard
import SinglePass.Proofs.Failure

/-!
# What is registered

A registry holds the overloads that were registered and no others, so what is true of all implementations that are
registered is true of all that are called (`Registry.forall_overload_registerEach`).  The answers of the standard
builtins are listed once (`Standard.answers_of_run`).  They fail in two ways only: they reject their arguments, or an
integer does not fit (`Standard.error_of_run`).
-/

namespace SinglePass

namespace Registry

variable {P : Overload → Prop}

theorem mem_addOverloads {held more : List Overload} {o : Overload} (h : o ∈ (addOverloads held more).1) :
    o ∈ held ∨ o ∈ more := by
  induction more generalizing held with
  | nil => exact .inl h
  | cons p more ih =>
    unfold addOverloads at h
    split at h
    · exact .inl h
    · rcases ih h with h | h
      · rcases List.mem_append.1 h with h | h
        · exact .inl h
        · exact .inr (List.mem_cons.2 (.inl (List.mem_singleton.1 h)))
      · exact .inr (List.mem_cons_of_mem p h)

theorem mem_put {name : String} {os : List Overload} {es : List (String × Builtin)} {p : String × Builtin}
    (h : p ∈ put name os es) : p.2.overloads = os ∨ p ∈ es := by
  induction es with
  | nil =>
    rw [List.mem_singleton.1 h]
    exact .inl rfl
  | cons e es ih =>
    unfold put at h
    split at h
    · rcases List.mem_cons.1 h with rfl | h
      · exact .inl rfl
      · exact .inr (List.mem_cons_of_mem e h)
    · rcases List.mem_cons.1 h with rfl | h
      · exact .inr List.mem_cons_self
      · rcases ih h with h | h
        · exact .inl h
        · exact .inr (List.mem_cons_of_mem e h)

/-- The builtins after a registration are those from before, apart from the one that has the added overloads. -/
theorem mem_builtins_register {r : Registry} {b c : Builtin} (h : c ∈ (r.register b).1.builtins) :
    c.overloads = (addOverloads (r.overloads b.name) b.overloads).1 ∨ c ∈ r.builtins := by
  obtain ⟨p, hp, rfl⟩ := List.mem_map.1 h
  rcases mem_put hp with hos | hp
  · exact .inl hos
  · exact .inr (List.mem_map_of_mem hp)

theorem forall_overloads {r : Registry} (hr : ∀ b ∈ r.builtins, ∀ o ∈ b.overloads, P o) (name : String) :
    ∀ o ∈ r.overloads name, P o := by
  intro o ho
  unfold overloads at ho
  cases hf : r.find? name with
  | none => simp [hf] at ho
  | some b =>
    rw [hf] at ho
    exact hr b (mem_of_find? hf) o ho

theorem forall_overload_register {r : Registry} {b : Builtin} (hr : ∀ c ∈ r.builtins, ∀ o ∈ c.overloads, P o)
    (hb : ∀ o ∈ b.overloads, P o) : ∀ c ∈ (r.register b).1.builtins, ∀ o ∈ c.overloads, P o := by
  intro c hc o ho
  rcases mem_builtins_register hc with hos | hc
  · rw [hos] at ho
    rcases mem_addOverloads ho with ho | ho
    · exact forall_overloads hr b.name o ho
    · exact hb o ho
  · exact hr c hc o ho

/-- What holds of the overloads of a registry and of those that are registered holds of all overloads afterwards,
whether or not the registration fails on the way. -/
theorem forall_overload_registerEach {r : Registry} {bs : List Builtin}
    (hr : ∀ c ∈ r.builtins, ∀ o ∈ c.overloads, P o) (hbs : ∀ b ∈ bs, ∀ o ∈ b.overloads, P o) :
    ∀ c ∈ (r.registerEach bs).1.builtins, ∀ o ∈ c.overloads, P o := by
  induction bs generalizing r with
  | nil => exact hr
  | cons b bs ih =>
    have hone := forall_overload_register hr (hbs b List.mem_cons_self)
    unfold registerEach
    split
    · rename_i r' heq
      rw [heq] at hone
      exact ih hone fun c hc => hbs c (List.mem_cons_of_mem b hc)
    · rename_i r' e heq
      rw [heq] at hone
      exact hone

end Registry

/-- What a call of a name with these arguments gives, if the name is known. -/
def Registry.call? (r : Registry) (name : String) (args : List Value) : Option (Except Error Value) :=
  (r.find? name).map fun b => b.call args

/-! ### The standard builtins -/

namespace Standard

/-- What a standard implementation can answer. -/
inductive Answers (args : List Value) : Except Error Value → Prop
  | reject (name : String) : Answers args (reject name args)
  | overflow (name : String) : Answers args (.error (.overflow name))
  | badCast (kind : Kind) (s : String) : Answers args (.error (.badCast kind s))
  | int (n : Int64) : Answers args (.ok (.int n))
  | float (x : Binary64) : Answers args (.ok (.float x))
  | bool (b : Bool) : Answers args (.ok (.bool b))
  | join {a b : String} : args = [.str a, .str b] → Answers args (.ok (.str (a ++ b)))
  | spellInt (n : Int64) : Answers args (.ok (.str (String.ofList (Decimal.ofInt n.toInt))))
  | spellFloat (x : Binary64) : Answers args (.ok (.str (String.ofList x.plain)))

theorem answers_fitting (args : List Value) (name : String) (n : Int) : Answers args (fitting name n) := by
  unfold fitting
  split
  · exact .int _
  · exact .overflow name

theorem answers_arithmetic (args : List Value) :
    Answers args (addInts args) ∧ Answers args (addFloats args) ∧ Answers args (subInts args) ∧
      Answers args (subFloats args) := by
  refine ⟨?_, ?_, ?_, ?_⟩
  · unfold addInts
    split
    · exact answers_fitting _ _ _
    · exact .reject _
  · unfold addFloats
    split
    · exact .float _
    · exact .reject _
  · unfold subInts
    split
    · exact answers_fitting _ _ _
    · exact .reject _
  · unfold subFloats
    split
    · exact .float _
    · exact .reject _

theorem answers_strings (args : List Value) : Answers args (join args) ∧ Answers args (count args) := by
  refine ⟨?_, ?_⟩
  · unfold join
    split
    · exact .join rfl
    · exact .reject _
  · unfold count
    split
    · exact answers_fitting _ _ _
    · exact answers_fitting _ _ _
    · exact .reject _

theorem answers_same (args : List Value) : Answers args (same args) := by
  unfold same
  split
  · exact .bool _
  · exact .bool false

theorem answers_casts (args : List Value) :
    Answers args (parseInt args) ∧ Answers args (parseFloat args) ∧ Answers args (spell args) := by
  refine ⟨?_, ?_, ?_⟩
  · unfold parseInt
    split
    · split
      · exact .int _
      · exact .badCast _ _
    · exact .reject _
  · unfold parseFloat
    split
    · split
      · exact .float _
      · exact .badCast _ _
    · exact .reject _
  · unfold spell
    split
    · exact .spellInt _
    · exact .spellFloat _
    · exact .reject _

/-- The implementations of the standard builtins. -/
def implementations : List (List Value → Except Error Value) :=
  [addInts, addFloats, subInts, subFloats, join, count, same, parseInt, parseFloat, spell]

theorem run_mem_implementations : ∀ b ∈ registry.builtins, ∀ o ∈ b.overloads, o.run ∈ implementations := by
  refine Registry.forall_overload_registerEach (P := fun o => o.run ∈ implementations) (fun c hc => nomatch hc) ?_
  simp [all, arithmetic, strings, compare, casts, Kind.all, implementations]

/-- Whatever a standard builtin runs gives one of the listed answers. -/
theorem answers_of_run : ∀ b ∈ registry.builtins, ∀ o ∈ b.overloads, ∀ args, Answers args (o.run args) := by
  intro b hb o ho args
  have hall : ∀ f ∈ implementations, Answers args (f args) := by
    simp only [implementations, List.forall_mem_cons, List.not_mem_nil, false_implies, implies_true, and_true]
    obtain ⟨hints, hfloats, hsubInts, hsubFloats⟩ := answers_arithmetic args
    obtain ⟨hjoin, hcount⟩ := answers_strings args
    exact ⟨hints, hfloats, hsubInts, hsubFloats, hjoin, hcount, answers_same args, answers_casts args⟩
  exact hall o.run (run_mem_implementations b hb o ho)

/-- The ways in which a standard implementation fails. -/
def Fails (e : Error) : Prop := e.category = .type ∨ ∃ name, e = .overflow name

/-- A standard implementation rejects its arguments or finds that an integer does not fit. -/
theorem error_of_run : ∀ b ∈ registry.builtins, ∀ o ∈ b.overloads, ∀ args e, o.run args = .error e → Fails e := by
  intro b hb o ho args e h
  have hanswers := answers_of_run b hb o ho args
  rw [h] at hanswers
  cases hanswers with
  | reject => exact .inl rfl
  | overflow name => exact .inr ⟨name, rfl⟩
  | badCast => exact .inl rfl

theorem avoids {P : Error → Prop} (hP : ∀ e, P e → ¬Fails e) : registry.Avoids P :=
  fun b hb o ho args e h he => hP e he (error_of_run b hb o ho args e h)

theorem avoids_parse : registry.Avoids (·.category = .parse) := by
  refine avoids fun e he hf => ?_
  rcases hf with hc | ⟨name, rfl⟩
  · rw [he] at hc
    cases hc
  · cases he

end Standard

end SinglePass
