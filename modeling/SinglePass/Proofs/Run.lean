import Mathlib
import SinglePass.Expr
import SinglePass.Interpreter
import SinglePass.Proofs.Lookup

/-!
# Runs of the machine

What one token can do, and how runs are put together.  `Step registry limit m t m'` lists the ways in which the
machine `m` takes the token `t` and becomes `m'`, with everything that was checked on the way; `step_eq_ok_iff` says
that the list is complete.  An invariant is proved for a step and holds of every reached machine by `reached_induction`.

A run over a concatenation is a run over the first part and then over the second (`result_run_append`), and tokens
without a lexeme do not count (`result_run_cons_lexeme`, `result_run_of_no_lexemes`).
-/

namespace SinglePass

instance : LawfulMonad Traced :=
  .mk' Traced
    (by
      intro α x
      rcases x with ⟨events, e | a⟩ <;> simp [Functor.map])
    (by
      intro α β a f
      simp [bind, pure])
    (by
      intro α β γ x f g
      rcases x with ⟨events, e | a⟩
      · simp [bind]
      · simp only [bind]
        rcases f a with ⟨events', e | b⟩ <;> simp)

/-! ### Computations that may fail -/

@[simp]
theorem ok_bind {α β : Type} (a : α) (f : α → Except Error β) : (Except.ok a >>= f) = f a := rfl

@[simp]
theorem error_bind {α β : Type} (e : Error) (f : α → Except Error β) : (Except.error e >>= f) = .error e := rfl

theorem bind_eq_ok_iff {α β : Type} {x : Except Error α} {f : α → Except Error β} {b : β} :
    (x >>= f) = .ok b ↔ ∃ a, x = .ok a ∧ f a = .ok b := by
  cases x <;> simp

theorem bind_eq_error_iff {α β : Type} {x : Except Error α} {f : α → Except Error β} {e : Error} :
    (x >>= f) = .error e ↔ x = .error e ∨ ∃ a, x = .ok a ∧ f a = .error e := by
  cases x <;> simp

namespace Machine

/-! ### Receiving a value -/

/-- The scope after a frame has received a value. -/
def scopeAfter (f : Frame) (scope : Scope) (v : Value) : Scope :=
  match (f.push v).bindsNow, f.binder with
  | true, some name => scope.push name v
  | _, _ => scope

/-- The machine with one more value in its innermost frame, or among its results. -/
def receive (m : Machine) (v : Value) : Machine :=
  match m.frames with
  | [] => { m with values := m.values ++ [v] }
  | f :: rest => { m with frames := f.push v :: rest, scope := scopeAfter f m.scope v }

@[simp]
theorem result_deliver (m : Machine) (v : Value) : (m.deliver v).result = .ok (m.receive v) := by
  rcases m with ⟨values, _ | ⟨f, rest⟩, scope, mode⟩
  · rfl
  · have hb : (f.push v).binder = f.binder := rfl
    simp only [deliver, receive, scopeAfter, hb]
    cases (f.push v).bindsNow <;> cases f.binder <;> rfl

@[simp]
theorem mode_receive (m : Machine) (v : Value) : (m.receive v).mode = m.mode := by
  unfold receive; split <;> rfl

theorem receive_of_no_frames {m : Machine} (h : m.frames = []) (v : Value) :
    m.receive v = { m with values := m.values ++ [v] } := by
  unfold receive; rw [h]

theorem receive_of_frame {m : Machine} {f : Frame} {rest : List Frame} (h : m.frames = f :: rest) (v : Value) :
    m.receive v = { m with frames := f.push v :: rest, scope := scopeAfter f m.scope v } := by
  unfold receive; rw [h]

/-! ### One token -/

theorem depth_of_operand {m : Machine} (h : m.mode = .operand) : m.depth = m.frames.length := by
  unfold depth; rw [h]

theorem depth_of_array {m : Machine} {stack : List (List Value)} (h : m.mode = .array stack) :
    m.depth = m.frames.length := by
  unfold depth; rw [h]

theorem requireRoom_of_lt {opened limit : Nat} (h : opened < limit) : requireRoom opened limit = .ok () := by
  rw [requireRoom, if_neg (by omega)]

theorem lt_of_requireRoom {opened limit : Nat} {u : Unit} (h : requireRoom opened limit = .ok u) : opened < limit := by
  unfold requireRoom at h
  split at h
  · cases h
  · omega

/-- The ways in which a machine takes a token. -/
inductive Step (registry : Registry) (limit : Nat) (m : Machine) (t : Token) : Machine → Prop
  | blank : t.kind = .whitespace → Step registry limit m t m
  | enter {callee : Callee} : m.mode = .callee → t.kind = .identifier → resolve registry t.text = .ok callee →
      Step registry limit m t { m with frames := .new callee m.scope :: m.frames, mode := .operand }
  | item {stack stack' : List (List Value)} : m.mode = .array stack → t.kind ≠ .whitespace →
      ArrayLiteral.step m.frames.length limit stack t = .ok (.unfinished stack') →
      Step registry limit m t { m with mode := .array stack' }
  | closeArray {stack : List (List Value)} {v : Value} : m.mode = .array stack → t.kind ≠ .whitespace →
      ArrayLiteral.step m.frames.length limit stack t = .ok (.finished v) →
      Step registry limit m t ({ m with mode := .operand }.receive v)
  | takeName {f : Frame} {rest : List Frame} : m.mode = .operand → m.frames = f :: rest → f.awaitsName = true →
      t.kind = .identifier → Step registry limit m t { m with frames := { f with binder := some t.text } :: rest }
  | openParen : m.mode = .operand → m.awaitsName = false → t.kind = .openParen → m.frames.length < limit →
      Step registry limit m t { m with mode := .callee }
  | openBracket : m.mode = .operand → m.awaitsName = false → t.kind = .openBracket → m.frames.length < limit →
      Step registry limit m t { m with mode := .array [[]] }
  | name {v : Value} : m.mode = .operand → m.awaitsName = false → t.kind = .identifier →
      m.scope.lookup t.text = some v → Step registry limit m t (m.receive v)
  | literal {v : Value} : m.mode = .operand → m.awaitsName = false → t.literal? = some (.ok v) →
      Step registry limit m t (m.receive v)
  | close {f : Frame} {rest : List Frame} {v : Value} : m.mode = .operand → t.kind = .closeParen →
      m.frames = f :: rest → f.result = .ok v →
      Step registry limit m t ({ m with frames := rest, scope := f.outerScope }.receive v)

private theorem step_of_enter {registry : Registry} {limit : Nat} {m m' : Machine} {t : Token}
    (hm : m.mode = .callee) (h : (m.enter registry t).result = .ok m') : Step registry limit m t m' := by
  unfold enter at h
  split at h
  · rename_i hk
    rw [Traced.result_bind, bind_eq_ok_iff] at h
    obtain ⟨callee, hr, h⟩ := h
    cases h
    exact .enter hm hk hr
  · cases h

private theorem step_of_readItem {registry : Registry} {limit : Nat} {m m' : Machine} {t : Token}
    {stack : List (List Value)} (hm : m.mode = .array stack) (ht : t.kind ≠ .whitespace)
    (h : (m.readItem limit stack t).result = .ok m') : Step registry limit m t m' := by
  unfold readItem at h
  rw [depth_of_array hm, Traced.result_bind, bind_eq_ok_iff] at h
  obtain ⟨progress, hs, h⟩ := h
  cases progress with
  | unfinished stack' =>
    cases h
    exact .item hm ht hs
  | finished v =>
    rw [result_deliver] at h
    cases h
    exact .closeArray hm ht hs

private theorem step_of_takeName {registry : Registry} {limit : Nat} {m m' : Machine} {t : Token}
    (hm : m.mode = .operand) (ha : m.awaitsName = true) (h : m.takeName t = .ok m') : Step registry limit m t m' := by
  unfold takeName at h
  split at h
  · rename_i hk
    split at h
    · rename_i f rest hf
      cases h
      refine .takeName hm hf ?_ hk
      simpa [awaitsName, hf] using ha
    · rename_i hf
      simp [awaitsName, hf] at ha
  · cases h

private theorem step_of_leave {registry : Registry} {limit : Nat} {m m' : Machine} {t : Token}
    (hm : m.mode = .operand) (ht : t.kind = .closeParen) (h : m.leave.result = .ok m') :
    Step registry limit m t m' := by
  unfold leave at h
  split at h
  · cases h
  · rename_i f rest hf
    rw [Traced.result_bind, Traced.result_emit, ok_bind, Traced.result_bind, bind_eq_ok_iff] at h
    obtain ⟨v, hv, h⟩ := h
    rw [result_deliver] at h
    cases h
    exact .close hm ht hf hv

/-- The literal tokens are those that denote a value or fail to. -/
theorem literal?_isSome_iff {t : Token} : t.literal?.isSome ↔ t.kind.isLiteral := by
  unfold Token.literal? Token.Kind.isLiteral
  cases t.kind <;> simp

/-- A literal token becomes an item of the innermost open list. -/
theorem arrayStep_literal {t : Token} {r : Except Error Value} (hr : t.literal? = some r) (opened limit : Nat)
    (items : List Value) (stack : List (List Value)) :
    ArrayLiteral.step opened limit (items :: stack) t = r >>= fun v => .ok (.unfinished ((items ++ [v]) :: stack)) := by
  have ht : t.kind.isLiteral := literal?_isSome_iff.1 (by simp [hr])
  unfold ArrayLiteral.step
  cases hk : t.kind <;> simp [hk, Token.Kind.isLiteral] at ht ⊢ <;> simp only [hr] <;> cases r <;> rfl

private theorem step_of_literal {registry : Registry} {limit : Nat} {m m' : Machine} {t : Token}
    (hm : m.mode = .operand) (ha : m.awaitsName = false) (ht : t.kind.isLiteral)
    (h : (match t.literal? with
      | some r => do m.deliver (← Traced.lift r)
      | none => return m : Traced Machine).result = .ok m') : Step registry limit m t m' := by
  obtain ⟨r, hr⟩ := Option.isSome_iff_exists.1 (literal?_isSome_iff.2 ht)
  rw [hr] at h
  simp only [Traced.result_bind, Traced.result_lift, result_deliver, bind_eq_ok_iff] at h
  obtain ⟨v, rfl, h⟩ := h
  cases h
  exact .literal hm ha hr

private theorem step_of_readOperand {registry : Registry} {limit : Nat} {m m' : Machine} {t : Token}
    (hm : m.mode = .operand) (ha : t.kind ≠ .closeParen → m.awaitsName = false)
    (h : (m.readOperand limit t).result = .ok m') : Step registry limit m t m' := by
  unfold readOperand at h
  rw [depth_of_operand hm] at h
  cases hk : t.kind <;> simp only [hk] at h ha
  case openParen =>
    rw [Traced.result_bind, bind_eq_ok_iff] at h
    obtain ⟨u, hl, h⟩ := h
    cases h
    exact .openParen hm (ha (by simp)) hk (lt_of_requireRoom hl)
  case openBracket =>
    rw [Traced.result_bind, bind_eq_ok_iff] at h
    obtain ⟨u, hl, h⟩ := h
    cases h
    exact .openBracket hm (ha (by simp)) hk (lt_of_requireRoom hl)
  case closeParen => exact step_of_leave hm hk h
  case closeBracket => cases h
  case identifier =>
    cases hv : m.scope.lookup t.text with
    | none => rw [hv] at h; cases h
    | some v =>
      rw [hv] at h
      simp only [result_deliver] at h
      cases h
      exact .name hm (ha (by simp)) hk hv
  case whitespace =>
    cases h
    exact .blank hk
  all_goals exact step_of_literal hm (ha (by simp)) (by rw [hk]; rfl) h

section

variable {registry : Registry} {limit : Nat} {m : Machine} {t : Token}

theorem result_step_blank (ht : t.kind = .whitespace) : (step registry limit m t).result = .ok m := by
  simp [step, Token.isBlank, ht]

theorem result_step_callee (hm : m.mode = .callee) (ht : t.kind = .identifier) :
    (step registry limit m t).result =
      resolve registry t.text >>= fun callee =>
        .ok { m with frames := .new callee m.scope :: m.frames, mode := .operand } := by
  have hb : t.isBlank = false := by simp [Token.isBlank, ht]
  simp only [step, hb, Bool.false_eq_true, ↓reduceIte, hm, enter, ht, Traced.result_bind, Traced.result_lift,
    Traced.result_emit, Traced.result_pure, ok_bind]

theorem result_step_array {stack : List (List Value)} (hm : m.mode = .array stack) (ht : t.kind ≠ .whitespace) :
    (step registry limit m t).result =
      ArrayLiteral.step m.frames.length limit stack t >>= fun
        | .unfinished stack' => .ok { m with mode := .array stack' }
        | .finished v => .ok ({ m with mode := .operand }.receive v) := by
  simp only [step, Token.isBlank, beq_iff_eq, ht, ↓reduceIte, hm, readItem, depth_of_array hm, Traced.result_bind,
    Traced.result_lift]
  congr 1
  funext progress
  cases progress <;> simp

theorem result_step_takeName {f : Frame} {rest : List Frame} (hm : m.mode = .operand) (hf : m.frames = f :: rest)
    (ha : f.awaitsName = true) (ht : t.kind = .identifier) :
    (step registry limit m t).result = .ok { m with frames := { f with binder := some t.text } :: rest } := by
  simp [step, Token.isBlank, ht, hm, awaitsName, hf, ha, takeName]

theorem result_step_operand (hm : m.mode = .operand) (ht : t.kind ≠ .whitespace)
    (ha : t.kind = .closeParen ∨ m.awaitsName = false) :
    (step registry limit m t).result = (m.readOperand limit t).result := by
  rcases ha with ha | ha <;> simp [step, Token.isBlank, ht, hm, ha]

theorem result_step_openParen (hm : m.mode = .operand) (ha : m.awaitsName = false) (ht : t.kind = .openParen) :
    (step registry limit m t).result =
      requireRoom m.frames.length limit >>= fun _ => .ok { m with mode := .callee } := by
  rw [result_step_operand hm (by simp [ht]) (.inr ha)]
  simp only [readOperand, ht, depth_of_operand hm, Traced.result_bind, Traced.result_lift, Traced.result_pure]

theorem result_step_openBracket (hm : m.mode = .operand) (ha : m.awaitsName = false) (ht : t.kind = .openBracket) :
    (step registry limit m t).result =
      requireRoom m.frames.length limit >>= fun _ => .ok { m with mode := .array [[]] } := by
  rw [result_step_operand hm (by simp [ht]) (.inr ha)]
  simp only [readOperand, ht, depth_of_operand hm, Traced.result_bind, Traced.result_lift, Traced.result_pure]

theorem result_step_name (hm : m.mode = .operand) (ha : m.awaitsName = false) (ht : t.kind = .identifier) :
    (step registry limit m t).result =
      match m.scope.lookup t.text with
      | some v => .ok (m.receive v)
      | none => .error (.unbound t.text) := by
  rw [result_step_operand hm (by simp [ht]) (.inr ha)]
  simp only [readOperand, ht]
  cases m.scope.lookup t.text <;> simp

theorem result_step_literal {r : Except Error Value} (hm : m.mode = .operand) (ha : m.awaitsName = false)
    (hr : t.literal? = some r) : (step registry limit m t).result = r >>= fun v => .ok (m.receive v) := by
  have ht : t.kind.isLiteral := literal?_isSome_iff.1 (by simp [hr])
  have hw : t.kind ≠ .whitespace := fun h => by simp [h, Token.Kind.isLiteral] at ht
  rw [result_step_operand hm hw (.inr ha)]
  unfold readOperand
  cases hk : t.kind <;> simp [hk, Token.Kind.isLiteral] at ht ⊢ <;> simp [hr]

theorem result_step_close {f : Frame} {rest : List Frame} (hm : m.mode = .operand) (ht : t.kind = .closeParen)
    (hf : m.frames = f :: rest) :
    (step registry limit m t).result =
      f.result >>= fun v => .ok ({ m with frames := rest, scope := f.outerScope }.receive v) := by
  rw [result_step_operand hm (by simp [ht]) (.inl ht)]
  simp [readOperand, ht, leave, hf]

end

/-- A machine takes a token in one of the listed ways, or fails. -/
theorem step_eq_ok_iff {registry : Registry} {limit : Nat} {m m' : Machine} {t : Token} :
    (step registry limit m t).result = .ok m' ↔ Step registry limit m t m' := by
  constructor
  · intro h
    by_cases ht : t.kind = .whitespace
    · rw [result_step_blank ht] at h
      cases h
      exact .blank ht
    · simp only [step, Token.isBlank, beq_iff_eq, ht, ↓reduceIte] at h
      cases hm : m.mode with
      | callee => rw [hm] at h; exact step_of_enter hm h
      | array stack => rw [hm] at h; exact step_of_readItem hm ht h
      | operand =>
        rw [hm] at h
        by_cases ha : t.kind ≠ .closeParen ∧ m.awaitsName = true
        · simp only [ha, ne_eq, not_false_eq_true, and_self, ↓reduceIte] at h
          exact step_of_takeName hm ha.2 h
        · simp only [ha, ↓reduceIte] at h
          refine step_of_readOperand hm ?_ h
          intro hc
          simpa [hc] using ha
  · intro h
    cases h with
    | blank ht => exact result_step_blank ht
    | enter hm ht hr => rw [result_step_callee hm ht, hr]; rfl
    | item hm ht hs => rw [result_step_array hm ht, hs]; rfl
    | closeArray hm ht hs => rw [result_step_array hm ht, hs]; rfl
    | takeName hm hf ha ht => exact result_step_takeName hm hf ha ht
    | openParen hm ha ht hl => rw [result_step_openParen hm ha ht, requireRoom_of_lt hl]; rfl
    | openBracket hm ha ht hl => rw [result_step_openBracket hm ha ht, requireRoom_of_lt hl]; rfl
    | name hm ha ht hv => rw [result_step_name hm ha ht, hv]
    | literal hm ha hv => rw [result_step_literal hm ha hv]; rfl
    | close hm ht hf hv => rw [result_step_close hm ht hf, hv]; rfl

theorem resolve_eq_ok {registry : Registry} {name : String} {callee : Callee}
    (h : resolve registry name = .ok callee) :
    (∃ f, Form.ofName? name = some f ∧ callee = .form f) ∨
      ∃ b, Form.ofName? name = none ∧ registry.find? name = some b ∧ callee = .builtin b := by
  unfold resolve at h
  split at h
  · rename_i f hf
    cases h
    exact .inl ⟨f, hf, rfl⟩
  · rename_i hf
    split at h
    · rename_i b hb
      cases h
      exact .inr ⟨b, hf, hb, rfl⟩
    · cases h

theorem name_of_ofName? {name : String} {f : Form} (h : Form.ofName? name = some f) : f.name = name := by
  unfold Form.ofName? at h
  split at h
  · rename_i hn
    cases h
    exact hn.symm
  · split at h
    · rename_i hn
      cases h
      exact hn.symm
    · cases h

/-- A callee is called by its own name. -/
theorem name_of_resolve {registry : Registry} {name : String} {callee : Callee}
    (h : resolve registry name = .ok callee) : callee.name = name := by
  rcases resolve_eq_ok h with ⟨f, hf, rfl⟩ | ⟨b, -, hb, rfl⟩
  · exact name_of_ofName? hf
  · exact Registry.name_of_find? hb

/-! ### Many tokens -/

section

variable {registry : Registry} {limit : Nat}

@[simp]
theorem result_run_nil (m : Machine) : (run registry limit m []).result = .ok m := rfl

theorem result_run_cons (m : Machine) (t : Token) (ts : List Token) :
    (run registry limit m (t :: ts)).result =
      (step registry limit m t).result >>= fun m' => (run registry limit m' ts).result := by
  simp only [run, List.foldlM_cons, Traced.result_bind]

theorem result_run_append (m : Machine) (ts us : List Token) :
    (run registry limit m (ts ++ us)).result =
      (run registry limit m ts).result >>= fun m' => (run registry limit m' us).result := by
  simp only [run, List.foldlM_append, Traced.result_bind]

/-- What holds at the start and is kept by every step holds of every machine that is reached. -/
theorem reached_induction {P : List Token → Machine → Prop} (start : P [] .start)
    (next : ∀ ts m t m', P ts m → Step registry limit m t m' → P (ts ++ [t]) m') {ts : List Token} {m : Machine}
    (h : (run registry limit .start ts).result = .ok m) : P ts m := by
  induction ts using List.reverseRecOn generalizing m with
  | nil =>
    cases h
    exact start
  | append_singleton ts t ih =>
    rw [result_run_append, bind_eq_ok_iff] at h
    obtain ⟨m₁, h₁, h⟩ := h
    rw [result_run_cons, bind_eq_ok_iff] at h
    obtain ⟨m₂, h₂, h⟩ := h
    cases h
    exact next ts m₁ t m (ih h₁) (step_eq_ok_iff.1 h₂)

theorem result_run_concat {m m' m'' : Machine} {ts : List Token} {t : Token}
    (h : (run registry limit m ts).result = .ok m') (hs : Step registry limit m' t m'') :
    (run registry limit m (ts ++ [t])).result = .ok m'' := by
  rw [result_run_append, h, ok_bind, result_run_cons, step_eq_ok_iff.2 hs]
  rfl

/-- An induction over runs in which a step may use that the machine before it was reached. -/
theorem reached_induction_of_run {P : List Token → Machine → Prop} (start : P [] .start)
    (next : ∀ ts m t m', (run registry limit .start ts).result = .ok m → P ts m → Step registry limit m t m' →
      P (ts ++ [t]) m')
    {ts : List Token} {m : Machine} (h : (run registry limit .start ts).result = .ok m) : P ts m := by
  refine (reached_induction (P := fun ts m => (run registry limit .start ts).result = .ok m ∧ P ts m) ⟨rfl, start⟩
    ?_ h).2
  rintro ts m t m' ⟨hrun, hm⟩ hs
  exact ⟨result_run_concat hrun hs, next ts m t m' hrun hm hs⟩

/-! ### Lexemes -/

theorem lexeme?_eq_none_iff {t : Token} : t.lexeme? = none ↔ t.kind = .whitespace := by
  unfold Token.lexeme?
  cases t.kind <;> simp

/-- What a token is whose lexeme is given. -/
def Shows (t : Token) : Lexeme → Prop
  | .literal u => t.kind.isLiteral ∧ t = u
  | .name s => t.kind = .identifier ∧ t.text = s
  | .openParen => t.kind = .openParen
  | .closeParen => t.kind = .closeParen
  | .openBracket => t.kind = .openBracket
  | .closeBracket => t.kind = .closeBracket

theorem lexeme?_eq_some_iff {t : Token} {x : Lexeme} : t.lexeme? = some x ↔ Shows t x := by
  unfold Token.lexeme?
  cases hk : t.kind <;> cases x <;> simp [Shows, hk, Token.Kind.isLiteral]

theorem result_run_of_no_lexemes {ts : List Token} (h : ts.filterMap Token.lexeme? = []) (m : Machine) :
    (run registry limit m ts).result = .ok m := by
  induction ts with
  | nil => rfl
  | cons t ts ih =>
    rw [List.filterMap_eq_nil_iff] at h
    rw [result_run_cons, result_step_blank (lexeme?_eq_none_iff.1 (h t (by simp))), ok_bind]
    exact ih (List.filterMap_eq_nil_iff.2 fun u hu => h u (by simp [hu]))

variable (registry limit)

/-- The first lexeme of a token list is that of a token, and the machine goes on behind it. -/
theorem result_run_cons_lexeme {ts : List Token} {x : Lexeme} {ls : List Lexeme}
    (h : ts.filterMap Token.lexeme? = x :: ls) : ∃ t us, Shows t x ∧ us.filterMap Token.lexeme? = ls ∧
      ∀ m, (run registry limit m ts).result =
        (step registry limit m t).result >>= fun m' => (run registry limit m' us).result := by
  obtain ⟨blanks, t, us, rfl, hb, ht, hus⟩ := List.filterMap_eq_cons_iff.1 h
  refine ⟨t, us, lexeme?_eq_some_iff.1 ht, hus, fun m => ?_⟩
  rw [result_run_append, result_run_of_no_lexemes (List.filterMap_eq_nil_iff.2 hb), ok_bind, result_run_cons]

/-- A run over the tokens of two lists of lexemes is a run over those of the first and then of the second. -/
theorem result_run_append_lexemes {ts : List Token} {ls ls' : List Lexeme}
    (h : ts.filterMap Token.lexeme? = ls ++ ls') : ∃ us us', us.filterMap Token.lexeme? = ls ∧
      us'.filterMap Token.lexeme? = ls' ∧
      ∀ m, (run registry limit m ts).result =
        (run registry limit m us).result >>= fun m' => (run registry limit m' us').result := by
  obtain ⟨us, us', rfl, hus, hus'⟩ := List.filterMap_eq_append_iff.1 h
  exact ⟨us, us', hus, hus', fun m => result_run_append m us us'⟩

/-- A run over the tokens of one lexeme is a step. -/
theorem result_run_lexeme {ts : List Token} {x : Lexeme} (h : ts.filterMap Token.lexeme? = [x]) : ∃ t, Shows t x ∧
    ∀ m, (run registry limit m ts).result = (step registry limit m t).result := by
  obtain ⟨t, us, ht, hus, hrun⟩ := result_run_cons_lexeme registry limit h
  refine ⟨t, ht, fun m => ?_⟩
  rw [hrun m]
  cases (step registry limit m t).result with
  | error e => rfl
  | ok m' => exact result_run_of_no_lexemes hus m'

end

end Machine

theorem Interpreter.runTokens_eq (i : Interpreter) (ts : List Token) :
    i.runTokens ts = (Machine.run i.registry i.config.limit.toNat .start ts).result >>= Machine.outcome := by
  simp only [runTokens, traceTokens, Traced.result_bind, Traced.result_lift, Traced.result_emit, Traced.result_pure,
    ok_bind]
  cases (Machine.run i.registry i.config.limit.toNat .start ts).result with
  | error e => rfl
  | ok m => cases hm : m.outcome <;> simp [hm]

theorem Interpreter.evaluate_eq_bind (i : Interpreter) (source : String) :
    i.evaluate source = i.tokenize source >>= i.runTokens := by
  unfold evaluate trace
  rw [Traced.result_bind, Traced.result_lift]
  refine bind_congr fun ts => ?_
  rw [Traced.result_bind, Traced.result_emit, ok_bind]
  rfl

theorem Interpreter.evaluate_eq (i : Interpreter) {source : String} {ts : List Token}
    (h : i.tokenize source = .ok ts) : i.evaluate source = i.runTokens ts := by
  rw [i.evaluate_eq_bind, h, ok_bind]

end SinglePass
