import SinglePass.Proofs.Scoping
import SinglePass.Proofs.Spelling

/-!
# Trees of the language

A tree belongs to the language if its forms are complete and its other callees registered (`Expr.Valid`); it can be
read with some room for parentheses and brackets and with some names bound (`Expr.Accepted`).  An open frame together
with trees for the arguments that it holds is a tree in the making (`Frame.Holds`), and when the frame has a value it
has become one that can be read (`Frame.Holds.tree_accepted`).
-/

namespace SinglePass

/-! ### Trees of the language -/

mutual

/-- The greatest number of brackets around a place in a datum. -/
def Datum.nesting : Datum → Nat
  | .literal _ => 0
  | .array items => Datum.nestingAll items + 1

def Datum.nestingAll : List Datum → Nat
  | [] => 0
  | d :: rest => max d.nesting (Datum.nestingAll rest)

end

mutual

/-- The greatest number of parentheses and brackets around a place in a tree. -/
def Expr.nesting : Expr → Nat
  | .datum d => d.nesting
  | .name _ => 0
  | .form _ args => Expr.nestingAll args + 1
  | .binding _ args => Expr.nestingAll args + 1

def Expr.nestingAll : List Expr → Nat
  | [] => 0
  | e :: rest => max e.nesting (Expr.nestingAll rest)

end

theorem Datum.nestingAll_le_iff {ds : List Datum} {n : Nat} : nestingAll ds ≤ n ↔ ∀ d ∈ ds, d.nesting ≤ n := by
  induction ds with
  | nil => simp [nestingAll]
  | cons d ds ih => simp [nestingAll, ih]

theorem Expr.nestingAll_le_iff {es : List Expr} {n : Nat} : nestingAll es ≤ n ↔ ∀ e ∈ es, e.nesting ≤ n := by
  induction es with
  | nil => simp [nestingAll]
  | cons e es ih => simp [nestingAll, ih]

/-- Literals are literal tokens. -/
inductive Datum.Valid : Datum → Prop
  | literal {t : Token} : t.kind.isLiteral → Valid (.literal t)
  | array {items : List Datum} : (∀ d ∈ items, Valid d) → Valid (.array items)

/-- The forms have all their arguments, and every other callee is registered. -/
inductive Expr.Valid (registry : Registry) : Expr → Prop
  | datum {d : Datum} : d.Valid → Valid registry (.datum d)
  | name (s : String) : Valid registry (.name s)
  | conditional {condition yes no : Expr} : Valid registry condition → Valid registry yes → Valid registry no →
      Valid registry (.form "if" [condition, yes, no])
  | definition (bound : String) {value body : Expr} : Valid registry value → Valid registry body →
      Valid registry (.binding bound [value, body])
  | call {callee : String} {args : List Expr} : Form.ofName? callee = none → registry.contains callee →
      (∀ a ∈ args, Valid registry a) → Valid registry (.form callee args)

/-- Every name in the tree is one of the given names or stands behind the value of a definition of that name. -/
inductive Expr.NamesBound : List String → Expr → Prop
  | datum (names : List String) (d : Datum) : NamesBound names (.datum d)
  | name {names : List String} {s : String} : s ∈ names → NamesBound names (.name s)
  | form {names : List String} {callee : String} {args : List Expr} : (∀ a ∈ args, NamesBound names a) →
      NamesBound names (.form callee args)
  | binding {names : List String} {bound : String} {args : List Expr} : (∀ a ∈ args.head?, NamesBound names a) →
      (∀ a ∈ args.tail, NamesBound (bound :: names) a) → NamesBound names (.binding bound args)

/-- A tree that can be read with room for so many parentheses and brackets and with these names bound. -/
structure Expr.Accepted (registry : Registry) (room : Nat) (names : List String) (e : Expr) : Prop where
  valid : e.Valid registry
  nesting_le : e.nesting ≤ room
  bound : e.NamesBound names

theorem Expr.Valid.grammatical {registry : Registry} {e : Expr} (h : e.Valid registry) : e.Grammatical := by
  induction h with
  | datum => exact .datum _
  | name s => exact .name s
  | conditional _ _ _ hc hy hn => exact .form (by simp) (by simp [hc, hy, hn])
  | definition bound _ _ hv hb => exact .binding bound (by simp [hv, hb])
  | call hf _ _ ih =>
    refine .form (fun hdef => ?_) ih
    subst hdef
    simp [Form.ofName?, Form.name] at hf

theorem Expr.lexemesAll_append (es es' : List Expr) : lexemesAll (es ++ es') = lexemesAll es ++ lexemesAll es' := by
  induction es with
  | nil => rfl
  | cons e es ih => simp [lexemesAll, ih]

theorem Datum.lexemesAll_append (ds ds' : List Datum) : lexemesAll (ds ++ ds') = lexemesAll ds ++ lexemesAll ds' := by
  induction ds with
  | nil => rfl
  | cons d ds ih => simp [lexemesAll, ih]

def Scope.names (s : Scope) : List String := s.bindings.map Prod.fst

theorem Scope.mem_names_of_lookup {s : Scope} {name : String} {v : Value} (h : s.lookup name = some v) :
    name ∈ s.names := by
  obtain ⟨l, r, hs, -⟩ := List.lookup_eq_some_iff.1 h
  simp [names, hs]

/-! ### The tree of a frame -/

namespace Frame

/-- The tree that a frame becomes when it closes with these arguments. -/
def tree (f : Frame) (args : List Expr) : Expr :=
  match f.binder with
  | some bound => .binding bound args
  | none => .form f.callee.name args

/-- What was read of a frame with these arguments. -/
def lexemes (f : Frame) (args : List Expr) : List Lexeme :=
  .openParen :: .name f.callee.name :: (f.binder.toList.map .name ++ Expr.lexemesAll args)

/-- The trees are arguments for the values that a frame holds, which has room for its own parenthesis.  The first of
them was read in the scope of the frame and the others in the scope that is active now. -/
structure Holds (registry : Registry) (room : Nat) (f : Frame) (args : List Expr) : Prop where
  resolved : Machine.resolve registry f.callee.name = .ok f.callee
  length_eq : args.length = f.args.length
  room_pos : 0 < room
  first : ∀ a ∈ args.head?, a.Accepted registry (room - 1) f.outerScope.names
  others : ∀ a ∈ args.tail, a.Accepted registry (room - 1) f.activeScope.names

theorem lexemes_tree {f : Frame} (hf : f.WellFormed) (args : List Expr) :
    (f.tree args).lexemes = f.lexemes args ++ [.closeParen] := by
  unfold tree lexemes
  cases hb : f.binder with
  | none => simp [Expr.lexemes]
  | some bound =>
    have hc := callee_of_form? (hf.form_of_binder (by simp [hb]))
    simp [Expr.lexemes, hc, Callee.name, Form.name]

theorem lexemes_push (f : Frame) (v : Value) (args : List Expr) (e : Expr) :
    (f.push v).lexemes (args ++ [e]) = f.lexemes args ++ e.lexemes := by
  simp [lexemes, push, Expr.lexemesAll_append, Expr.lexemesAll]

theorem activeScope_push {f : Frame} (h : f.args ≠ []) (v : Value) : (f.push v).activeScope = f.activeScope := by
  obtain ⟨a, as, ha⟩ := List.exists_cons_of_ne_nil h
  have hb : (f.push v).binding? = f.binding? := by
    rcases hc : f.callee with (_ | _) | _ <;> cases hn : f.binder <;> simp [binding?, push, ha, hc, hn]
  unfold activeScope
  rw [hb]
  rfl

theorem Holds.push {registry : Registry} {room : Nat} {f : Frame} {args : List Expr} (h : f.Holds registry room args)
    {e : Expr} (he : e.Accepted registry (room - 1) f.activeScope.names) (v : Value) :
    (f.push v).Holds registry room (args ++ [e]) where
  resolved := h.resolved
  length_eq := by simp [Frame.push, h.length_eq]
  room_pos := h.room_pos
  first := by
    have hlen := h.length_eq
    cases args with
    | nil =>
      -- the first argument is read before anything is bound
      have hargs : f.args = [] := List.eq_nil_of_length_eq_zero hlen.symm
      rw [activeScope_of_args_nil hargs] at he
      simpa [Frame.push] using he
    | cons a args => simpa [Frame.push] using h.first
  others := by
    have hlen := h.length_eq
    cases args with
    | nil => simp
    | cons a args =>
      have hargs : f.args ≠ [] := by
        intro hnil
        simp [hnil] at hlen
      rw [activeScope_push hargs, List.cons_append, List.tail_cons]
      exact List.forall_mem_append.2 ⟨h.others, by simpa using he⟩

private theorem forall_mem_of_head_tail {α : Type} {P : α → Prop} {l : List α} (hh : ∀ a ∈ l.head?, P a)
    (ht : ∀ a ∈ l.tail, P a) : ∀ a ∈ l, P a := by
  cases l with
  | nil => simp
  | cons b l =>
    intro a ha
    rcases List.mem_cons.1 ha with rfl | ha
    · exact hh a rfl
    · exact ht a ha

/-- The arguments of a frame other than the binding form were all read in the same scope. -/
theorem Holds.accepted {registry : Registry} {room : Nat} {f : Frame} {args : List Expr}
    (h : f.Holds registry room args) (hc : f.callee.form? ≠ some .binding) :
    ∀ a ∈ args, a.Accepted registry (room - 1) f.outerScope.names := by
  have hothers := h.others
  rw [activeScope_of_not_binding hc] at hothers
  exact forall_mem_of_head_tail h.first hothers

theorem Holds.nesting_le {registry : Registry} {room : Nat} {f : Frame} {args : List Expr}
    (h : f.Holds registry room args) : (f.tree args).nesting ≤ room := by
  have hall : ∀ a ∈ args, a.nesting ≤ room - 1 :=
    forall_mem_of_head_tail (fun a ha => (h.first a ha).nesting_le) (fun a ha => (h.others a ha).nesting_le)
  have hargs : Expr.nestingAll args ≤ room - 1 := Expr.nestingAll_le_iff.2 hall
  have hpos := h.room_pos
  unfold tree
  cases f.binder <;> simp only [Expr.nesting] <;> omega

theorem eq_three_of_requireArity {form : Form} {n : Nat} {u : Unit} (h : form.requireArity n = .ok u) : n = 3 := by
  by_contra hn
  rcases Nat.lt_or_gt_of_ne hn with hlt | hgt
  · simp [Form.requireArity, Form.arity, hlt] at h
  · simp [Form.requireArity, Form.arity, hgt, show ¬ n < 3 by omega] at h

theorem argCount_of_result {f : Frame} {form : Form} {v : Value} (hc : f.callee = .form form)
    (h : f.result = .ok v) : f.argCount = 3 := by
  unfold result at h
  rw [hc] at h
  simp only [bind_eq_ok_iff] at h
  obtain ⟨u, hu, -⟩ := h
  exact eq_three_of_requireArity hu

theorem Holds.accepted_form {registry : Registry} {room : Nat} {f : Frame} {args : List Expr}
    (h : f.Holds registry room args) (hf : f.WellFormed) (hc : f.callee.form? ≠ some .binding)
    (hvalid : (Expr.form f.callee.name args).Valid registry) :
    (f.tree args).Accepted registry room f.outerScope.names := by
  have hn := h.nesting_le
  unfold tree at hn ⊢
  rw [hf.binder_eq_none hc] at hn ⊢
  exact ⟨hvalid, hn, .form fun a ha => (h.accepted hc a ha).bound⟩

theorem Holds.accepted_definition {registry : Registry} {room : Nat} {f : Frame} {args : List Expr}
    (h : f.Holds registry room args) (hf : f.WellFormed) (hc : f.callee.form? = some .binding)
    (hcount : f.argCount = 3) : (f.tree args).Accepted registry room f.outerScope.names := by
  have hn := h.nesting_le
  have hargs : f.args ≠ [] := by
    intro hnil
    simp only [argCount, hnil, List.length_nil] at hcount
    split at hcount <;> omega
  obtain ⟨bound, hb⟩ := Option.isSome_iff_exists.1 (hf.binder_of_args hc hargs)
  obtain ⟨value, body, rfl⟩ : ∃ value body, args = [value, body] := by
    rw [← List.length_eq_two, h.length_eq]
    simp only [argCount, hb, Option.isSome_some, if_true] at hcount
    omega
  have hscope : f.activeScope.names = bound :: f.outerScope.names := by
    obtain ⟨v, vs, hv⟩ := List.exists_cons_of_ne_nil hargs
    simp [activeScope, binding?, callee_of_form? hc, hb, hv, Scope.push, Scope.names]
  have hvalue := h.first value rfl
  have hbody := h.others body (by simp)
  rw [hscope] at hbody
  unfold tree at hn ⊢
  rw [hb] at hn ⊢
  exact ⟨.definition bound hvalue.valid hbody.valid, hn, .binding (by simpa using hvalue.bound)
    (by simpa using hbody.bound)⟩

/-- A frame has a value only if it has become a tree of the language. -/
theorem Holds.tree_accepted {registry : Registry} {room : Nat} {f : Frame} {args : List Expr}
    (h : f.Holds registry room args) (hf : f.WellFormed) {v : Value} (hv : f.result = .ok v) :
    (f.tree args).Accepted registry room f.outerScope.names := by
  cases hcal : f.callee with
  | builtin b =>
    have hc : f.callee.form? ≠ some .binding := by simp [hcal, Callee.form?]
    rcases Machine.resolve_eq_ok h.resolved with ⟨form, -, hform⟩ | ⟨b, hno, hfind, -⟩
    · rw [hcal] at hform
      cases hform
    · exact h.accepted_form hf hc (.call hno (by simp [Registry.contains, hfind])
        fun a ha => (h.accepted hc a ha).valid)
  | form form =>
    have hcount := argCount_of_result hcal hv
    cases form with
    | conditional =>
      have hc : f.callee.form? ≠ some .binding := by simp [hcal, Callee.form?]
      obtain ⟨condition, yes, no, rfl⟩ : ∃ condition yes no, args = [condition, yes, no] := by
        rw [← List.length_eq_three, h.length_eq]
        simpa [argCount, hf.binder_eq_none hc] using hcount
      have hall := h.accepted hc
      refine h.accepted_form hf hc ?_
      rw [hcal]
      exact .conditional (hall condition (by simp)).valid (hall yes (by simp)).valid (hall no (by simp)).valid
    | binding => exact h.accepted_definition hf (by simp [hcal, Callee.form?]) hcount

end Frame

end SinglePass
