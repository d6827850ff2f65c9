import SinglePass.Proofs.Run

/-!
# How a run fails

`Fails registry limit m t e` lists the ways in which the machine `m` fails at the token `t`, as `Step` lists the ways in
which it takes one, and the list is complete (`step_eq_error_iff`).  A run that fails does so at one token, and has
reached a machine before it (`fails_of_run`).

Errors of parsing are reported by the machine itself and never by a frame that closes, provided that no builtin reports
them (`Frame.category_of_result`).
-/

namespace SinglePass

namespace Machine

/-- The ways in which a machine fails at a token. -/
inductive Fails (registry : Registry) (limit : Nat) (m : Machine) (t : Token) : Error → Prop
  | noCallee : m.mode = .callee → t.kind ≠ .whitespace → t.kind ≠ .identifier →
      Fails registry limit m t (.noCallee t.offset)
  | unknownCallee : m.mode = .callee → t.kind = .identifier →
      resolve registry t.text = .error (.unknownCallee t.text) → Fails registry limit m t (.unknownCallee t.text)
  | item {stack : List (List Value)} {e : Error} : m.mode = .array stack → t.kind ≠ .whitespace →
      ArrayLiteral.step m.frames.length limit stack t = .error e → Fails registry limit m t e
  | noBinder : m.mode = .operand → m.awaitsName = true → t.kind ≠ .whitespace → t.kind ≠ .closeParen →
      t.kind ≠ .identifier → Fails registry limit m t (.noBinder t.offset)
  | tooDeep : m.mode = .operand → m.awaitsName = false → t.kind = .openParen ∨ t.kind = .openBracket →
      limit ≤ m.frames.length → Fails registry limit m t (.tooDeep limit)
  | strayBracket : m.mode = .operand → m.awaitsName = false → t.kind = .closeBracket →
      Fails registry limit m t (.strayBracket t.offset)
  | unbound : m.mode = .operand → m.awaitsName = false → t.kind = .identifier → m.scope.lookup t.text = none →
      Fails registry limit m t (.unbound t.text)
  | literal {e : Error} : m.mode = .operand → m.awaitsName = false → t.literal? = some (.error e) →
      Fails registry limit m t e
  | unbalanced : m.mode = .operand → t.kind = .closeParen → m.frames = [] →
      Fails registry limit m t (.unbalanced (-1))
  | result {f : Frame} {rest : List Frame} {e : Error} : m.mode = .operand → t.kind = .closeParen →
      m.frames = f :: rest → f.result = .error e → Fails registry limit m t e

theorem resolve_eq_error {registry : Registry} {name : String} {e : Error} (h : resolve registry name = .error e) :
    e = .unknownCallee name := by
  unfold resolve at h
  split at h
  · cases h
  · split at h
    · cases h
    · cases h
      rfl

theorem requireRoom_eq_error {opened limit : Nat} {e : Error} (h : requireRoom opened limit = .error e) :
    e = .tooDeep limit ∧ limit ≤ opened := by
  unfold requireRoom at h
  split at h
  · rename_i hl
    cases h
    exact ⟨rfl, hl⟩
  · cases h

private theorem fails_of_readOperand {registry : Registry} {limit : Nat} {m : Machine} {t : Token} {e : Error}
    (hm : m.mode = .operand) (ha : t.kind ≠ .closeParen → m.awaitsName = false) (hw : t.kind ≠ .whitespace)
    (h : (step registry limit m t).result = .error e) : Fails registry limit m t e := by
  by_cases hlit : t.kind.isLiteral
  · obtain ⟨r, hr⟩ := Option.isSome_iff_exists.1 (literal?_isSome_iff.2 hlit)
    have hna := ha (fun hc => by simp [hc, Token.Kind.isLiteral] at hlit)
    rw [result_step_literal hm hna hr] at h
    cases r with
    | ok v => cases h
    | error e' =>
      cases h
      exact .literal hm hna hr
  cases hk : t.kind <;> simp only [hk, Token.Kind.isLiteral, not_true_eq_false, ne_eq, reduceCtorEq,
    not_false_eq_true, forall_const] at ha hw hlit
  case openParen =>
    rw [result_step_openParen hm ha hk, bind_eq_error_iff] at h
    rcases h with h | ⟨_, _, h⟩
    · obtain ⟨rfl, hl⟩ := requireRoom_eq_error h
      exact .tooDeep hm ha (.inl hk) hl
    · cases h
  case openBracket =>
    rw [result_step_openBracket hm ha hk, bind_eq_error_iff] at h
    rcases h with h | ⟨_, _, h⟩
    · obtain ⟨rfl, hl⟩ := requireRoom_eq_error h
      exact .tooDeep hm ha (.inr hk) hl
    · cases h
  case closeParen =>
    cases hf : m.frames with
    | nil =>
      rw [result_step_operand hm (by simp [hk]) (.inl hk)] at h
      simp only [readOperand, hk, leave, hf] at h
      cases h
      exact .unbalanced hm hk hf
    | cons f rest =>
      rw [result_step_close hm hk hf, bind_eq_error_iff] at h
      rcases h with h | ⟨_, _, h⟩
      · exact .result hm hk hf h
      · cases h
  case closeBracket =>
    rw [result_step_operand hm (by simp [hk]) (.inr ha)] at h
    simp only [readOperand, hk] at h
    cases h
    exact .strayBracket hm ha hk
  case identifier =>
    rw [result_step_name hm ha hk] at h
    cases hv : m.scope.lookup t.text with
    | some v => rw [hv] at h; cases h
    | none =>
      rw [hv] at h
      cases h
      exact .unbound hm ha hk hv

theorem fails_of_step {registry : Registry} {limit : Nat} {m : Machine} {t : Token} {e : Error}
    (h : (step registry limit m t).result = .error e) : Fails registry limit m t e := by
  by_cases hw : t.kind = .whitespace
  · rw [result_step_blank hw] at h
    cases h
  cases hm : m.mode with
  | callee =>
    by_cases hk : t.kind = .identifier
    · rw [result_step_callee hm hk, bind_eq_error_iff] at h
      rcases h with h | ⟨_, _, h⟩
      · obtain rfl := resolve_eq_error h
        exact .unknownCallee hm hk h
      · cases h
    · simp only [step, Token.isBlank, beq_iff_eq, hw, ↓reduceIte, hm, enter, hk] at h
      cases h
      exact .noCallee hm hw hk
  | array stack =>
    rw [result_step_array hm hw, bind_eq_error_iff] at h
    rcases h with h | ⟨progress, _, h⟩
    · exact .item hm hw h
    · cases progress <;> cases h
  | operand =>
    by_cases ha : t.kind ≠ .closeParen ∧ m.awaitsName = true
    · simp only [step, Token.isBlank, beq_iff_eq, hw, ↓reduceIte, hm, ha, ne_eq, not_false_eq_true, and_self,
        takeName, Traced.result_lift] at h
      split at h
      · split at h <;> cases h
      · rename_i hk
        cases h
        exact .noBinder hm ha.2 hw ha.1 hk
    · refine fails_of_readOperand hm (fun hc => ?_) hw h
      simpa [hc] using ha

/-- A machine fails at a token in one of the listed ways, or takes it. -/
theorem step_eq_error_iff {registry : Registry} {limit : Nat} {m : Machine} {t : Token} {e : Error} :
    (step registry limit m t).result = .error e ↔ Fails registry limit m t e := by
  constructor
  · exact fails_of_step
  · intro h
    cases h with
    | noCallee hm hw hk => simp [step, Token.isBlank, hw, hm, enter, hk]
    | unknownCallee hm hk hr => rw [result_step_callee hm hk, hr]; rfl
    | item hm hw hs => rw [result_step_array hm hw, hs]; rfl
    | noBinder hm ha hw hc hk => simp [step, Token.isBlank, hw, hm, ha, hc, takeName, hk]
    | tooDeep hm ha hk hl =>
      rcases hk with hk | hk
      · rw [result_step_openParen hm ha hk, requireRoom, if_pos hl]; rfl
      · rw [result_step_openBracket hm ha hk, requireRoom, if_pos hl]; rfl
    | strayBracket hm ha hk =>
      rw [result_step_operand hm (by simp [hk]) (.inr ha)]
      simp only [readOperand, hk, Traced.result_fail]
    | unbound hm ha hk hv => rw [result_step_name hm ha hk, hv]
    | literal hm ha hl => rw [result_step_literal hm ha hl]; rfl
    | unbalanced hm hk hf =>
      rw [result_step_operand hm (by simp [hk]) (.inl hk)]
      simp only [readOperand, hk, leave, hf, Traced.result_fail]
    | result hm hk hf hv => rw [result_step_close hm hk hf, hv]; rfl

/-- A run that fails does so at one token, and has reached a machine before it. -/
theorem fails_of_run {registry : Registry} {limit : Nat} {ts : List Token} {e : Error} {m : Machine}
    (h : (run registry limit m ts).result = .error e) :
    ∃ us t vs m', ts = us ++ t :: vs ∧ (run registry limit m us).result = .ok m' ∧ Fails registry limit m' t e := by
  induction ts generalizing m with
  | nil => cases h
  | cons t ts ih =>
    rw [result_run_cons, bind_eq_error_iff] at h
    rcases h with h | ⟨m₁, h₁, h⟩
    · exact ⟨[], t, ts, m, rfl, rfl, fails_of_step h⟩
    · obtain ⟨us, u, vs, m', rfl, hrun, hfails⟩ := ih h
      refine ⟨t :: us, u, vs, m', rfl, ?_, hfails⟩
      rw [result_run_cons, h₁]
      exact hrun

/-- The errors of a machine at the end of the input. -/
theorem error_of_outcome {m : Machine} {e : Error} (h : m.outcome = .error e) :
    e = .openArray ∨ (0 < m.depth ∧ e = .unbalanced m.depth) ∨ e = .noExpression ∨
      ∃ count, e = .manyExpressions count := by
  unfold outcome at h
  split at h
  · cases h
    exact .inl rfl
  · split at h
    · rename_i hd
      cases h
      exact .inr (.inl ⟨Nat.pos_of_ne_zero hd, rfl⟩)
    · split at h
      · cases h
        exact .inr (.inr (.inl rfl))
      · cases h
      · cases h
        exact .inr (.inr (.inr ⟨_, rfl⟩))

end Machine

/-! ### Errors of frames and literals -/

/-- No implementation fails with such an error. -/
def Registry.Avoids (r : Registry) (P : Error → Prop) : Prop :=
  ∀ b ∈ r.builtins, ∀ o ∈ b.overloads, ∀ args e, o.run args = .error e → ¬P e

theorem Form.category_of_apply {f : Form} {args : List Value} {e : Error} (h : f.apply args = .error e) :
    e.category = .type ∨ e.category = .arity := by
  unfold Form.apply at h
  split at h
  · split at h
    · cases h
    · cases h
      exact .inl rfl
  · cases h
  · cases h
    exact .inr rfl

theorem Form.category_of_requireArity {f : Form} {n : Nat} {e : Error} (h : f.requireArity n = .error e) :
    e.category = .arity := by
  unfold Form.requireArity at h
  split at h
  · cases h
    rfl
  · split at h
    · cases h
      rfl
    · cases h

/-- A frame that fails has arguments of a wrong number or kind, or its callee is a builtin whose implementation
fails. -/
theorem Frame.error_of_result {f : Frame} {e : Error} (h : f.result = .error e) :
    (e.category = .type ∨ e.category = .arity) ∨
      ∃ b o, f.callee = .builtin b ∧ o ∈ b.overloads ∧ o.run f.args = .error e := by
  unfold Frame.result at h
  cases hcal : f.callee with
  | builtin b =>
    rw [hcal] at h
    simp only [Builtin.call, bind_eq_error_iff] at h
    rcases h with h | ⟨o, ho, h⟩
    · exact .inl (Builtin.category_of_resolve h)
    · exact .inr ⟨b, o, rfl, Builtin.mem_of_resolve ho, h⟩
  | form form =>
    rw [hcal] at h
    simp only [bind_eq_error_iff] at h
    left
    rcases h with h | ⟨-, -, h⟩
    · exact .inr (Form.category_of_requireArity h)
    · exact Form.category_of_apply h

/-- A builtin that is called by its name is registered. -/
theorem Machine.mem_of_resolve {registry : Registry} {name : String} {b : Builtin}
    (h : resolve registry name = .ok (.builtin b)) : b ∈ registry.builtins := by
  rcases resolve_eq_ok h with ⟨form, -, hform⟩ | ⟨b', -, hfind, hb'⟩
  · cases hform
  · cases hb'
    exact Registry.mem_of_find? hfind

/-- What no implementation reports, no frame does, unless it is about the number or the kinds of the arguments. -/
theorem Frame.not_of_result {registry : Registry} {P : Error → Prop} (hreg : registry.Avoids P)
    (hP : ∀ e, P e → e.category ≠ .type ∧ e.category ≠ .arity) {f : Frame} {e : Error}
    (hf : Machine.resolve registry f.callee.name = .ok f.callee) (h : f.result = .error e) : ¬P e := by
  rcases Frame.error_of_result h with (hc | hc) | ⟨b, o, hcal, ho, hrun⟩
  · exact fun he => (hP e he).1 hc
  · exact fun he => (hP e he).2 hc
  · rw [hcal] at hf
    exact hreg b (Machine.mem_of_resolve hf) o ho f.args e hrun

/-- The value of a frame never fails with an error of parsing. -/
theorem Frame.category_of_result {registry : Registry} (hreg : registry.Avoids (·.category = .parse)) {f : Frame}
    {e : Error} (hf : Machine.resolve registry f.callee.name = .ok f.callee) (h : f.result = .error e) :
    e.category ≠ .parse :=
  Frame.not_of_result hreg (fun e he => by simp [he]) hf h

namespace Machine

theorem literal?_eq_error {t : Token} {e : Error} (h : t.literal? = some (.error e)) :
    e = .badNumber t.offset t.text := by
  unfold Token.literal? at h
  split at h <;> simp only [Option.some.injEq, reduceCtorEq] at h
  · split at h <;> cases h
    rfl
  · split at h <;> cases h
    rfl

/-- A literal token that fails inside an array literal has no value. -/
theorem literal?_of_arrayStep {opened limit : Nat} {stack : List (List Value)} {t : Token} {e : Error}
    (hlit : t.kind.isLiteral) (h : ArrayLiteral.step opened limit stack t = .error e) :
    t.literal? = some (.error e) := by
  obtain ⟨r, hr⟩ := Option.isSome_iff_exists.1 (literal?_isSome_iff.2 hlit)
  cases stack with
  | nil => cases hk : t.kind <;> simp [hk, Token.Kind.isLiteral, ArrayLiteral.step] at hlit h
  | cons items stack =>
    rw [arrayStep_literal hr, bind_eq_error_iff] at h
    rcases h with h | ⟨v, -, h⟩
    · rw [hr, h]
    · cases h

/-- The ways in which a token fails inside an array literal. -/
theorem arrayStep_eq_error {opened limit : Nat} {stack : List (List Value)} {t : Token} {e : Error}
    (h : ArrayLiteral.step opened limit stack t = .error e) :
    (t.kind = .openBracket ∧ limit ≤ opened + stack.length ∧ e = .tooDeep limit) ∨
      (t.kind = .openParen ∧ e = .callInArray) ∨ (t.kind = .closeParen ∧ e = .openArray) ∨
      (t.kind = .identifier ∧ e = .nameInArray t.offset) ∨ (t.kind.isLiteral ∧ e = .badNumber t.offset t.text) := by
  by_cases hlit : t.kind.isLiteral
  · right; right; right; right
    exact ⟨hlit, literal?_eq_error (literal?_of_arrayStep hlit h)⟩
  · cases hk : t.kind <;> simp only [hk, Token.Kind.isLiteral, not_true_eq_false] at hlit <;>
      simp only [ArrayLiteral.step, hk] at h
    case openBracket =>
      rw [bind_eq_error_iff] at h
      rcases h with h | ⟨u, -, h⟩
      · obtain ⟨he, hl⟩ := requireRoom_eq_error h
        exact .inl ⟨rfl, hl, he⟩
      · cases h
    case closeBracket => split at h <;> cases h
    case whitespace => cases h
    case openParen | closeParen | identifier =>
      cases h
      simp

end Machine

end SinglePass
