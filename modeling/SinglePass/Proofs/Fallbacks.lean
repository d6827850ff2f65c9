import SinglePass.Machine.Strict
import SinglePass.Proofs.DepthLimit
import SinglePass.Proofs.Extending
import SinglePass.Proofs.Scoping

/-!
# Cases that never arise

The machine never takes one of its fallbacks: the strict machine, which stops there, gives the same result on all tokens
(`Strict.runTokens_eq`).  What rules the fallbacks out is said about every machine that is reached (`Machine.Guarded`):
where a name is taken there is a frame, a frame that binds now has its name, a form that passes the check of its
arguments has exactly those that it needs, and an array literal has an open list.

An overload is run only on arguments of its own kinds.  The implementations of the standard builtins reject nothing of
these kinds (`Standard.acceptsOwn`), so an error about overloads comes from the builtin that was called and never
from an implementation that it shares with another one.
-/

namespace SinglePass

/-! ### Frames -/

/-- The form has the arguments that it needs: a conditional three values, a definition a name and two values. -/
inductive Form.Supplied : Form → Option String → List Value → Prop
  | conditional (condition yes no : Value) : Supplied .conditional none [condition, yes, no]
  | binding (name : String) (v body : Value) : Supplied .binding (some name) [v, body]

/-- A form that has its arguments does not complain about their number. -/
theorem Form.Supplied.apply_ne_tooFew {form : Form} {binder : Option String} {args : List Value}
    (h : form.Supplied binder args) (name : String) (expected got : Nat) :
    form.apply args ≠ .error (.tooFew name expected got) := by
  cases h with
  | conditional condition yes no =>
    simp only [Form.apply]
    cases condition.bool? <;> simp
  | binding name v body => simp [Form.apply]

namespace Frame

variable {f : Frame}

/-- A form that passes the check of its arguments has those that it needs. -/
theorem WellFormed.supplied (hf : f.WellFormed) {form : Form} (hc : f.callee = .form form)
    (h : form.requireArity f.argCount = .ok ()) : form.Supplied f.binder f.args := by
  have hcount := eq_three_of_requireArity h
  cases form with
  | conditional =>
    have hb := hf.binder_eq_none (by simp [hc, Callee.form?])
    obtain ⟨condition, yes, no, hargs⟩ : ∃ condition yes no, f.args = [condition, yes, no] := by
      rw [← List.length_eq_three]
      simpa [argCount, hb] using hcount
    rw [hb, hargs]
    exact .conditional condition yes no
  | binding =>
    have hargs : f.args ≠ [] := by
      intro hnil
      rw [argCount, hnil] at hcount
      split at hcount <;> simp at hcount
    obtain ⟨name, hb⟩ := Option.isSome_iff_exists.1 (hf.binder_of_args (by simp [hc, Callee.form?]) hargs)
    obtain ⟨v, body, hargs⟩ : ∃ v body, f.args = [v, body] := by
      rw [← List.length_eq_two]
      simpa [argCount, hb] using hcount
    rw [hb, hargs]
    exact .binding name v body

end Frame

/-! ### Machines that are reached -/

namespace Machine

/-- The machine is in no state in which it would fall back on something. -/
structure Guarded (m : Machine) : Prop where
  /-- Where a name is taken, there is a frame that waits for it. -/
  frame_of_awaitsName : m.awaitsName = true → ∃ f rest, m.frames = f :: rest ∧ f.awaitsName = true
  /-- A frame that binds with a value has a name for it, and the value is its argument. -/
  binder_of_bindsNow : ∀ f ∈ m.frames, ∀ v, (f.push v).bindsNow = true →
    ∃ name, f.binder = some name ∧ (f.push v).args = [v]
  /-- A form that passes the check of its arguments has those that it needs. -/
  supplied : ∀ f ∈ m.frames, ∀ form, f.callee = .form form → form.requireArity f.argCount = .ok () →
    form.Supplied f.binder f.args
  /-- An array literal that is being read has an open list. -/
  stack_ne_nil : ∀ stack, m.mode = .array stack → stack ≠ []

variable {registry : Registry} {limit : Nat} {m : Machine}

theorem guarded_of_run {ts : List Token} (h : (run registry limit .start ts).result = .ok m) : m.Guarded where
  frame_of_awaitsName := by
    intro ha
    cases hf : m.frames with
    | nil => simp [awaitsName, hf] at ha
    | cons f rest => exact ⟨f, rest, rfl, by simpa [awaitsName, hf] using ha⟩
  binder_of_bindsNow := by
    intro f hf v hnow
    obtain ⟨-, hargs, name, hb⟩ := ((scoped_of_run h).nested.wellFormed f hf).binder_of_bindsNow hnow
    exact ⟨name, hb, by simp [Frame.push, hargs]⟩
  supplied := fun f hf form hc harity => ((scoped_of_run h).nested.wellFormed f hf).supplied hc harity
  stack_ne_nil := (balanced_of_run h).stack_ne_nil

end Machine

/-! ### The strict machine -/

namespace Builtin

theorem params_of_resolve {b : Builtin} {args : List Value} {o : Overload} (h : b.resolve args = .ok o) :
    o.params = args.map Value.kind := by
  rw [resolve_eq_ok_iff] at h
  simpa [Overload.accepts] using List.find?_some h

end Builtin

namespace Strict

@[simp]
theorem ofResult_ok {α : Type} (a : α) : ofResult (.ok a) = .ok a := rfl

theorem ofResult_bind {α β : Type} (r : Except Error α) (f : α → Except Error β) :
    ofResult (r >>= f) = ofResult r >>= fun a => ofResult (f a) := by
  cases r <;> rfl

theorem bind_congr_ofResult {α β : Type} {r : Except Error α} {f g : α → Except Stop β}
    (h : ∀ a, r = .ok a → f a = g a) : (ofResult r >>= f) = ofResult r >>= g := by
  cases r with
  | error e => rfl
  | ok a => exact h a rfl

variable {registry : Registry} {limit : Nat} {m : Machine} {t : Token}

theorem deliver_eq (h : ∀ f ∈ m.frames, ∀ v, (f.push v).bindsNow = true →
    ∃ name, f.binder = some name ∧ (f.push v).args = [v]) (v : Value) :
    deliver m v = ofResult (m.deliver v).result := by
  rw [Machine.result_deliver, ofResult_ok]
  cases hf : m.frames with
  | nil =>
    rw [deliver, Machine.receive_of_no_frames hf, hf]
    rfl
  | cons f rest =>
    rw [deliver, Machine.receive_of_frame hf, hf]
    cases hnow : (f.push v).bindsNow with
    | false => simp [Machine.scopeAfter, hnow, pure, Except.pure]
    | true =>
      have hbinder : (f.push v).binder = f.binder := rfl
      obtain ⟨name, hname, hargs⟩ := h f (by simp [hf]) v hnow
      simp [Machine.scopeAfter, hnow, hbinder, hname, hargs, pure, Except.pure]

theorem takeName_eq (h : ∃ f rest, m.frames = f :: rest ∧ f.awaitsName = true) :
    takeName m t = ofResult (m.takeName t) := by
  obtain ⟨f, rest, hf, -⟩ := h
  unfold takeName Machine.takeName
  split
  · rw [hf]
    rfl
  · rfl

theorem applyForm_eq {form : Form} {binder : Option String} {args : List Value} (h : form.Supplied binder args) :
    applyForm form binder args = ofResult (form.apply args) := by
  cases h with
  | conditional condition yes no =>
    simp only [applyForm, Form.apply]
    cases condition.bool? <;> rfl
  | binding name v body => rfl

theorem call_eq (b : Builtin) (args : List Value) : call b args = ofResult (b.call args) := by
  rw [call, Builtin.call, ofResult_bind]
  refine bind_congr_ofResult fun o ho => ?_
  rw [if_pos (Builtin.params_of_resolve ho)]

theorem result_eq {f : Frame} (h : ∀ form, f.callee = .form form → form.requireArity f.argCount = .ok () →
    form.Supplied f.binder f.args) : result f = ofResult f.result := by
  unfold result Frame.result
  cases hc : f.callee with
  | builtin b => exact call_eq b f.args
  | form form =>
    simp only [ofResult_bind]
    exact bind_congr_ofResult fun _ harity => applyForm_eq (h form hc harity)

theorem literal_eq {r : Except Error Value} (h : t.literal? = some r) : literal t = ofResult r := by
  rw [literal, h]

theorem arrayStep_eq {opened : Nat} {stack : List (List Value)} (h : stack ≠ []) :
    arrayStep opened limit stack t = ofResult (ArrayLiteral.step opened limit stack t) := by
  obtain ⟨items, outer, rfl⟩ := List.exists_cons_of_ne_nil h
  rw [arrayStep]
  split
  · rename_i hlit
    obtain ⟨r, hr⟩ := Option.isSome_iff_exists.1 (Machine.literal?_isSome_iff.2 hlit)
    rw [literal_eq hr, Machine.arrayStep_literal hr, ofResult_bind]
    rfl
  · rfl

theorem leave_eq (h : m.Guarded) : leave m = ofResult m.leave.result := by
  cases hf : m.frames with
  | nil =>
    rw [leave, Machine.leave, hf]
    rfl
  | cons f rest =>
    rw [leave, Machine.leave, hf]
    simp only [Traced.result_bind, Traced.result_emit, ok_bind, Traced.result_lift, ofResult_bind]
    rw [result_eq (h.supplied f (by simp [hf]))]
    refine bind_congr_ofResult fun v _ => deliver_eq ?_ v
    exact fun g hg => h.binder_of_bindsNow g (by simp [hf, show g ∈ rest from hg])

theorem readItem_eq (h : m.Guarded) {stack : List (List Value)} (hm : m.mode = .array stack) :
    readItem limit m stack t = ofResult (m.readItem limit stack t).result := by
  rw [readItem, Machine.readItem, Traced.result_bind, Traced.result_lift, ofResult_bind,
    arrayStep_eq (h.stack_ne_nil stack hm)]
  refine bind_congr_ofResult fun progress _ => ?_
  cases progress with
  | unfinished stack => rfl
  | finished v => exact deliver_eq (m := { m with mode := .operand }) h.binder_of_bindsNow v

theorem readOperand_eq (h : m.Guarded) (hw : t.kind ≠ .whitespace) :
    readOperand limit m t = ofResult (m.readOperand limit t).result := by
  by_cases hlit : t.kind.isLiteral
  · obtain ⟨r, hr⟩ := Option.isSome_iff_exists.1 (Machine.literal?_isSome_iff.2 hlit)
    have hliteral : (literal t >>= deliver m) = ofResult (Traced.lift r >>= m.deliver).result := by
      rw [literal_eq hr, Traced.result_bind, Traced.result_lift, ofResult_bind]
      exact bind_congr_ofResult fun v _ => deliver_eq h.binder_of_bindsNow v
    unfold readOperand Machine.readOperand
    cases hk : t.kind <;> simp [hk, Token.Kind.isLiteral] at hlit ⊢ <;> simp only [hr] <;> exact hliteral
  · unfold readOperand Machine.readOperand
    cases hk : t.kind <;> simp only [hk, Token.Kind.isLiteral, not_true_eq_false, ne_eq] at hlit hw
    case openParen | openBracket =>
      simp only [Traced.result_bind, Traced.result_lift, ofResult_bind]
      rfl
    case closeParen => exact leave_eq h
    case closeBracket => rfl
    case identifier =>
      cases m.scope.lookup t.text with
      | none => rfl
      | some v => exact deliver_eq h.binder_of_bindsNow v

/-- A machine that is guarded takes a token as the strict machine does. -/
theorem step_eq (h : m.Guarded) (t : Token) :
    step registry limit m t = ofResult (m.step registry limit t).result := by
  unfold step Machine.step
  by_cases hb : t.isBlank = true
  · rw [if_pos hb, if_pos hb]
    rfl
  · rw [if_neg hb, if_neg hb]
    cases hm : m.mode with
    | callee => rfl
    | array stack => exact readItem_eq h hm
    | operand =>
      simp only
      split
      · rename_i ha
        exact takeName_eq (h.frame_of_awaitsName ha.2)
      · refine readOperand_eq h fun hw => hb ?_
        simp [Token.isBlank, hw]

theorem run_eq (registry : Registry) (limit : Nat) (ts : List Token) :
    run registry limit .start ts = ofResult (Machine.run registry limit .start ts).result := by
  induction ts using List.reverseRecOn with
  | nil => rfl
  | append_singleton ts t ih =>
    have hrun : run registry limit .start (ts ++ [t]) =
        run registry limit .start ts >>= fun m => run registry limit m [t] := List.foldlM_append
    rw [hrun, ih, Machine.result_run_append, ofResult_bind]
    refine bind_congr_ofResult fun m hm => ?_
    show (step registry limit m t >>= pure) = ofResult (Machine.run registry limit m [t]).result
    rw [bind_pure, step_eq (Machine.guarded_of_run hm), Machine.result_run_cons]
    cases (m.step registry limit t).result <;> rfl

/-- No evaluation takes a fallback. -/
theorem runTokens_eq (i : Interpreter) (ts : List Token) : runTokens i ts = ofResult (i.runTokens ts) := by
  rw [runTokens, run_eq, i.runTokens_eq, ofResult_bind]

end Strict

/-! ### Calls -/

namespace Machine

variable {registry : Registry} {limit : Nat} {m : Machine} {t : Token} {c : Call}

/-- The calls of a run are those that are made at its tokens, in the machines that are reached there. -/
theorem mem_calls_iff {ts : List Token} : c ∈ calls registry limit m ts ↔ ∃ us t vs m', ts = us ++ t :: vs ∧
    (run registry limit m us).result = .ok m' ∧ m'.call? t = some c := by
  induction ts generalizing m with
  | nil => simp [calls]
  | cons t ts ih =>
    rw [calls, List.mem_append, Option.mem_toList]
    constructor
    · rintro (hc | hc)
      · exact ⟨[], t, ts, m, rfl, rfl, hc⟩
      · cases hs : (step registry limit m t).result with
        | error e => simp [hs] at hc
        | ok m₁ =>
          simp only [hs] at hc
          obtain ⟨us, u, vs, m', rfl, hrun, hcall⟩ := ih.1 hc
          exact ⟨t :: us, u, vs, m', rfl, by rw [result_run_cons, hs, ok_bind, hrun], hcall⟩
    · rintro ⟨us, u, vs, m', heq, hrun, hcall⟩
      cases us with
      | nil =>
        cases heq
        cases hrun
        exact .inl hcall
      | cons u' us =>
        cases heq
        rw [result_run_cons, bind_eq_ok_iff] at hrun
        obtain ⟨m₁, hs, hrun⟩ := hrun
        right
        simp only [hs]
        exact ih.2 ⟨us, u, vs, m', rfl, hrun, hcall⟩

/-- A call is made by the innermost frame at a closing parenthesis. -/
theorem call?_eq_some (h : m.call? t = some c) : ∃ f rest b, m.mode = .operand ∧ t.kind = .closeParen ∧
    m.frames = f :: rest ∧ f.callee = .builtin b ∧ c = ⟨b.name, f.args, b.resolve f.args⟩ := by
  unfold call? at h
  split at h
  · rename_i hm hk
    cases hf : m.frames with
    | nil => simp [hf] at h
    | cons f rest =>
      simp only [hf, List.head?_cons, Option.bind_some, Frame.call?] at h
      cases hc : f.callee with
      | form form => simp [hc] at h
      | builtin b =>
        simp only [hc, Option.some.injEq] at h
        exact ⟨f, rest, b, hm, hk, rfl, hc, h.symm⟩
  · cases h

/-- A call is one of a builtin that is registered. -/
theorem exists_builtin_of_mem_calls {ts : List Token} (h : c ∈ calls registry limit .start ts) :
    ∃ b ∈ registry.builtins, c.name = b.name ∧ c.resolution = b.resolve c.args := by
  obtain ⟨us, t, vs, m, -, hrun, hcall⟩ := mem_calls_iff.1 h
  obtain ⟨f, rest, b, hm, -, hf, hc, rfl⟩ := call?_eq_some hcall
  have hresolved := resolved_of_run hrun hm hf
  rw [hc] at hresolved
  exact ⟨b, mem_of_resolve hresolved, rfl, rfl⟩

end Machine

/-! ### The standard implementations -/

namespace Standard

/-- The overload rejects no arguments of its own kinds. -/
def AcceptsOwn (o : Overload) : Prop :=
  ∀ args, args.map Value.kind = o.params → ∀ name got, o.run args ≠ .error (.noOverload name got)

theorem fitting_ne_noOverload (operation : String) (n : Int) (name : String) (got : List Kind) :
    fitting operation n ≠ .error (.noOverload name got) := by
  unfold fitting
  split <;> simp

theorem acceptsOwn_one {k : Kind} {run : List Value → Except Error Value}
    (h : ∀ v : Value, v.kind = k → ∀ name got, run [v] ≠ .error (.noOverload name got)) : AcceptsOwn ⟨[k], run⟩ := by
  intro args hargs
  obtain ⟨v, rfl, hv⟩ := List.map_eq_singleton_iff.1 hargs
  exact h v hv

theorem acceptsOwn_two {k l : Kind} {run : List Value → Except Error Value}
    (h : ∀ a b : Value, a.kind = k → b.kind = l → ∀ name got, run [a, b] ≠ .error (.noOverload name got)) :
    AcceptsOwn ⟨[k, l], run⟩ := by
  intro args hargs
  obtain ⟨a, rest, rfl, ha, hrest⟩ := List.map_eq_cons_iff.1 hargs
  obtain ⟨b, rfl, hb⟩ := List.map_eq_singleton_iff.1 hrest
  exact h a b ha hb

theorem acceptsOwn_arithmetic : ∀ b ∈ arithmetic, ∀ o ∈ b.overloads, AcceptsOwn o := by
  simp only [arithmetic, List.forall_mem_cons, List.not_mem_nil, false_implies, implies_true, and_true]
  refine ⟨⟨acceptsOwn_two ?_, acceptsOwn_two ?_⟩, acceptsOwn_two ?_, acceptsOwn_two ?_⟩ <;> intro a b ha hb name got <;>
    cases a <;> cases ha <;> cases b <;> cases hb
  · exact fitting_ne_noOverload _ _ _ _
  · simp [addFloats]
  · exact fitting_ne_noOverload _ _ _ _
  · simp [subFloats]

theorem acceptsOwn_strings : ∀ b ∈ strings, ∀ o ∈ b.overloads, AcceptsOwn o := by
  have hjoin : AcceptsOwn ⟨[.str, .str], join⟩ := by
    refine acceptsOwn_two fun a b ha hb name got => ?_
    cases a <;> cases ha
    cases b <;> cases hb
    simp [join]
  simp only [strings, List.forall_mem_cons, List.not_mem_nil, false_implies, implies_true, and_true]
  refine ⟨hjoin, hjoin, acceptsOwn_one ?_, acceptsOwn_one ?_⟩ <;> intro v hv name got <;> cases v <;> cases hv
  · exact fitting_ne_noOverload _ _ _ _
  · exact fitting_ne_noOverload _ _ _ _

theorem acceptsOwn_compare : ∀ b ∈ compare, ∀ o ∈ b.overloads, AcceptsOwn o := by
  simp only [compare, List.forall_mem_cons, List.not_mem_nil, false_implies, implies_true, and_true,
    List.forall_mem_map]
  intro k _
  exact acceptsOwn_two fun a b _ _ name got => by simp [same]

theorem acceptsOwn_casts : ∀ b ∈ casts, ∀ o ∈ b.overloads, AcceptsOwn o := by
  simp only [casts, List.forall_mem_cons, List.not_mem_nil, false_implies, implies_true, and_true]
  refine ⟨acceptsOwn_one ?_, acceptsOwn_one ?_, acceptsOwn_one ?_, acceptsOwn_one ?_⟩ <;> intro v hv name got <;>
    cases v <;> cases hv
  · rw [parseInt]
    split <;> simp
  · rw [parseFloat]
    split <;> simp
  · simp [spell]
  · simp [spell]

/-- No standard implementation rejects arguments of the kinds for which it is registered. -/
theorem acceptsOwn : ∀ b ∈ registry.builtins, ∀ o ∈ b.overloads, AcceptsOwn o := by
  refine Registry.forall_overload_registerEach (fun c hc => nomatch hc) ?_
  simp only [all, List.mem_append]
  rintro b (((hb | hb) | hb) | hb)
  · exact acceptsOwn_arithmetic b hb
  · exact acceptsOwn_strings b hb
  · exact acceptsOwn_compare b hb
  · exact acceptsOwn_casts b hb

end Standard

/-! ### Errors about overloads -/

theorem Builtin.eq_of_resolve_noOverload {b : Builtin} {args : List Value} {name : String} {got : List Kind}
    (h : b.resolve args = .error (.noOverload name got)) : b.name = name ∧ args.map Value.kind = got := by
  rcases resolve_eq_error h with h | h
  · cases category_of_arityError? h
  · cases h
    exact ⟨rfl, rfl⟩

/-- A frame of a standard callee that finds no overload calls a builtin that has none. -/
theorem Frame.resolve_of_noOverload {f : Frame} {name : String} {got : List Kind}
    (hf : Machine.resolve Standard.registry f.callee.name = .ok f.callee)
    (h : f.result = .error (.noOverload name got)) :
    ∃ b, f.callee = .builtin b ∧ b.resolve f.args = .error (.noOverload name got) := by
  unfold result at h
  cases hc : f.callee with
  | builtin b =>
    rw [hc] at h hf
    simp only [Builtin.call, bind_eq_error_iff] at h
    rcases h with h | ⟨o, ho, h⟩
    · exact ⟨b, rfl, h⟩
    · have haccepts := Standard.acceptsOwn b (Machine.mem_of_resolve hf) o (Builtin.mem_of_resolve ho)
      exact absurd h (haccepts f.args (Builtin.params_of_resolve ho).symm name got)
  | form form =>
    rw [hc] at h
    simp only [bind_eq_error_iff] at h
    rcases h with h | ⟨-, -, h⟩
    · cases Form.category_of_requireArity h
    · unfold Form.apply at h
      split at h
      · split at h <;> cases h
      · cases h
      · cases h

/-- Errors of types come from frames that close. -/
theorem Machine.frame_of_fails {registry : Registry} {limit : Nat} {m : Machine} {t : Token} {e : Error}
    (h : Fails registry limit m t e) (he : e.category = .type) : ∃ f rest, m.mode = .operand ∧
      t.kind = .closeParen ∧ m.frames = f :: rest ∧ f.result = .error e := by
  cases h with
  | result hm hk hf hv => exact ⟨_, _, hm, hk, hf, hv⟩
  | item _ _ hs =>
    rcases arrayStep_eq_error hs with ⟨-, -, rfl⟩ | ⟨-, rfl⟩ | ⟨-, rfl⟩ | ⟨-, rfl⟩ | ⟨-, rfl⟩ <;> cases he
  | literal _ _ hl =>
    rw [literal?_eq_error hl] at he
    cases he
  | noCallee | unknownCallee | noBinder | tooDeep | strayBracket | unbound | unbalanced => cases he

/-- If an evaluation with the standard builtins finds no overload, one of its calls has none. -/
theorem exists_call_of_noOverload {i : Interpreter} (hi : i.registry = Standard.registry) {ts : List Token}
    {name : String} {got : List Kind} (h : i.runTokens ts = .error (.noOverload name got)) :
    ∃ c ∈ Machine.calls i.registry i.config.limit.toNat .start ts, c.name = name ∧ c.args.map Value.kind = got ∧
      c.resolution = .error (.noOverload name got) := by
  rw [i.runTokens_eq, bind_eq_error_iff] at h
  rcases h with h | ⟨m, -, h⟩
  · obtain ⟨us, t, vs, m, rfl, hrun, hfails⟩ := Machine.fails_of_run h
    obtain ⟨f, rest, hm, hk, hf, hresult⟩ := Machine.frame_of_fails hfails rfl
    have hresolved := Machine.resolved_of_run hrun hm hf
    rw [hi] at hresolved
    obtain ⟨b, hc, hb⟩ := Frame.resolve_of_noOverload hresolved hresult
    obtain ⟨hname, hgot⟩ := Builtin.eq_of_resolve_noOverload hb
    refine ⟨⟨b.name, f.args, b.resolve f.args⟩, Machine.mem_calls_iff.2 ⟨us, t, vs, m, rfl, hrun, ?_⟩, hname, hgot, hb⟩
    rw [Machine.call?_of_close hm hk hf, Frame.call?, hc]
  · rcases Machine.error_of_outcome h with he | ⟨-, he⟩ | he | ⟨_, he⟩ <;> cases he

/-- No fallback is ever taken, whatever is registered and whatever the tokens are: the strict machine gives the same
results.  In every machine that is reached on the way, a name is taken only if a frame waits for it, a frame that binds
a value has a name for it, a form whose arguments were counted has exactly those that it needs, and an array literal has
an open list; and a token that is read as a literal denotes a value or has an error.  An overload is run only on
arguments of its kinds.  So no implementation of a standard builtin rejects its arguments, and an error about overloads
is one of the builtin that was called. -/
theorem runTokens_strict (i : Interpreter) (ts : List Token) :
    Strict.runTokens i ts = Strict.ofResult (i.runTokens ts) ∧
    (∀ us m, us <+: ts → (Machine.run i.registry i.config.limit.toNat .start us).result = .ok m →
      m.Guarded ∧ ∀ f ∈ m.frames, ∀ form, f.callee = .form form → form.requireArity f.argCount = .ok () →
        ∀ name expected got, form.apply f.args ≠ .error (.tooFew name expected got)) ∧
    (∀ t ∈ ts, t.kind.isLiteral → ∃ r, t.literal? = some r) ∧
    (∀ c ∈ Machine.calls i.registry i.config.limit.toNat .start ts, ∀ o, c.resolution = .ok o →
      o.params = c.args.map Value.kind) ∧
    (i.registry = Standard.registry →
      (∀ c ∈ Machine.calls i.registry i.config.limit.toNat .start ts, ∀ o, c.resolution = .ok o →
        ∀ name got, o.run c.args ≠ .error (.noOverload name got)) ∧
      ∀ name got, i.runTokens ts = .error (.noOverload name got) →
        ∃ c ∈ Machine.calls i.registry i.config.limit.toNat .start ts, c.name = name ∧
          c.args.map Value.kind = got ∧ c.resolution = .error (.noOverload name got)) := by
  have hparams : ∀ c ∈ Machine.calls i.registry i.config.limit.toNat .start ts, ∀ o, c.resolution = .ok o →
      o.params = c.args.map Value.kind := by
    intro c hc o ho
    obtain ⟨b, -, -, hb⟩ := Machine.exists_builtin_of_mem_calls hc
    exact Builtin.params_of_resolve (hb ▸ ho)
  refine ⟨Strict.runTokens_eq i ts, ?_, ?_, hparams, fun hi => ⟨?_, fun name got h => exists_call_of_noOverload hi h⟩⟩
  · intro us m _ hrun
    have hguarded := Machine.guarded_of_run hrun
    exact ⟨hguarded, fun f hf form hc harity => (hguarded.supplied f hf form hc harity).apply_ne_tooFew⟩
  · exact fun t _ hlit => Option.isSome_iff_exists.1 (Machine.literal?_isSome_iff.2 hlit)
  · intro c hc o ho
    obtain ⟨b, hmem, -, hb⟩ := Machine.exists_builtin_of_mem_calls hc
    rw [hi] at hmem
    exact Standard.acceptsOwn b hmem o (Builtin.mem_of_resolve (hb ▸ ho)) c.args (hparams c hc o ho).symm

/-- The tokens of `(def x [[]] (if true (plus "a" x) 0))`. -/
private def misapplied : List Token :=
  [⟨.openParen, "(", 0⟩, ⟨.identifier, "def", 1⟩, ⟨.identifier, "x", 5⟩, ⟨.openBracket, "[", 7⟩, ⟨.openBracket, "[", 8⟩,
    ⟨.closeBracket, "]", 9⟩, ⟨.closeBracket, "]", 10⟩, ⟨.openParen, "(", 12⟩, ⟨.identifier, "if", 13⟩,
    ⟨.bool, "true", 16⟩, ⟨.openParen, "(", 21⟩, ⟨.identifier, "plus", 22⟩, ⟨.string, "\"a\"", 27⟩,
    ⟨.identifier, "x", 31⟩, ⟨.closeParen, ")", 32⟩, ⟨.int, "0", 34⟩, ⟨.closeParen, ")", 35⟩, ⟨.closeParen, ")", 36⟩]

/-- A definition has got as far as its array, whose two lists are open, and later `plus` is called on a string and the
array.  The error is about `plus`, though the strings are joined by an implementation that calls itself `concat`. -/
theorem runTokens_strict_misapplied :
    Interpreter.runTokens {} misapplied = .error (.noOverload "plus" [.str, .array]) ∧
    Strict.runTokens {} misapplied = .error (.error (.noOverload "plus" [.str, .array])) ∧
    (∃ m, (Machine.run Standard.registry 512 .start (misapplied.take 5)).result = .ok m ∧ m.mode = .array [[], []] ∧
      m.Guarded) ∧
    (∃ c ∈ Machine.calls Standard.registry 512 .start misapplied, c.name = "plus" ∧
      c.args.map Value.kind = [.str, .array] ∧ c.resolution = .error (.noOverload "plus" [.str, .array])) ∧
    Standard.join [.str "a", .array [.array []]] = .error (.noOverload "concat" [.str, .array]) := by
  have herror : Interpreter.runTokens {} misapplied = .error (.noOverload "plus" [.str, .array]) := rfl
  obtain ⟨hstrict, hreached, -, -, hstandard⟩ := runTokens_strict {} misapplied
  refine ⟨herror, ?_, ⟨_, rfl, rfl, (hreached _ _ (List.take_prefix 5 _) rfl).1⟩, (hstandard rfl).2 _ _ herror, rfl⟩
  rw [hstrict, herror]
  rfl

end SinglePass
