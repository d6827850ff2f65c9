import SinglePass.Expr.Eval
import SinglePass.Proofs.Scoping
import SinglePass.Proofs.Spelling

/-!
# The machine evaluates trees

A run over tokens that spell a tree has the effect of receiving the value of the tree, and fails where the evaluation
of the tree fails and with the same error (`readsTree`).  This holds in every context: the machine may have
any open frames and any scope, as long as it is at a place where a tree can stand.

The proof follows the tree.  Arguments are read into a frame one after another, and as long as the frame is `Settled`,
that is, does not bind a name any more, they are all read in the same scope (`result_run_args`).  The binding form is
settled as soon as it has its value, so its value is read in the scope around it and the rest in the new one.
-/

namespace SinglePass

namespace Machine

variable {registry : Registry} {limit : Nat}

/-! ### Data -/

theorem literal?_eq_eval {t : Token} (h : t.kind.isLiteral) (opened : Nat) :
    t.literal? = some ((Datum.literal t).eval limit opened) := by
  obtain ⟨r, hr⟩ := Option.isSome_iff_exists.1 (literal?_isSome_iff.2 h)
  rw [hr, Datum.eval, hr]; rfl

/-- A run over a datum inside an array literal appends its value to the innermost open list. -/
def ReadsItem (registry : Registry) (limit : Nat) (d : Datum) : Prop :=
  ∀ (ts : List Token) (m : Machine) (items : List Value) (stack : List (List Value)),
    ts.filterMap Token.lexeme? = d.lexemes → m.mode = .array (items :: stack) →
    (run registry limit m ts).result =
      d.eval limit (m.frames.length + (stack.length + 1)) >>= fun v =>
        .ok { m with mode := .array ((items ++ [v]) :: stack) }

theorem result_run_items {ds : List Datum} (hd : ∀ d ∈ ds, ReadsItem registry limit d) {ts : List Token} {m : Machine}
    {items : List Value} {stack : List (List Value)} (h : ts.filterMap Token.lexeme? = Datum.lexemesAll ds)
    (hm : m.mode = .array (items :: stack)) :
    (run registry limit m ts).result =
      Datum.evalAll limit (m.frames.length + (stack.length + 1)) ds >>= fun vs =>
        .ok { m with mode := .array ((items ++ vs) :: stack) } := by
  induction ds generalizing ts m items with
  | nil =>
    rw [result_run_of_no_lexemes h, Datum.evalAll, ok_bind, List.append_nil, ← hm]
  | cons d ds ih =>
    rw [Datum.lexemesAll] at h
    obtain ⟨us, us', hus, hus', hrun⟩ := result_run_append_lexemes registry limit h
    rw [hrun m, hd d (by simp) us m items stack hus hm, Datum.evalAll, bind_assoc, bind_assoc]
    refine bind_congr fun v => ?_
    rw [ok_bind, ih (fun d hd' => hd d (by simp [hd'])) hus' rfl, bind_assoc]
    refine bind_congr fun vs => ?_
    simp

theorem readsItem (d : Datum) : ReadsItem registry limit d := by
  induction d using Datum.induction with
  | literal t =>
    intro ts m items stack h hm
    obtain ⟨u, ⟨hlit, rfl⟩, hrun⟩ := result_run_lexeme registry limit h
    have hw : u.kind ≠ .whitespace := fun hk => by simp [hk, Token.Kind.isLiteral] at hlit
    rw [hrun m, result_step_array hm hw, arrayStep_literal (literal?_eq_eval hlit _), bind_assoc]
    rfl
  | array inner ih =>
    intro ts m items stack h hm
    rw [Datum.lexemes] at h
    obtain ⟨t, us, ht, hus, hrun⟩ := result_run_cons_lexeme registry limit h
    obtain ⟨us, us', hus, hus', hrun'⟩ := result_run_append_lexemes registry limit hus
    obtain ⟨t', ht', hrun''⟩ := result_run_lexeme registry limit hus'
    have hk : t.kind = .openBracket := ht
    have hk' : t'.kind = .closeBracket := ht'
    have hopen : ArrayLiteral.step m.frames.length limit (items :: stack) t =
        requireRoom (m.frames.length + (stack.length + 1)) limit >>= fun _ =>
          .ok (.unfinished ([] :: items :: stack)) := by
      simp only [ArrayLiteral.step, hk, List.length_cons]; rfl
    rw [hrun m, result_step_array hm (by simp [hk]), hopen, Datum.eval, bind_assoc, bind_assoc, bind_assoc]
    refine bind_congr fun _ => ?_
    rw [ok_bind, ok_bind, hrun', result_run_items ih hus rfl, bind_assoc, bind_assoc]
    refine bind_congr fun vs => ?_
    rw [ok_bind, hrun'', result_step_array rfl (by simp [hk'])]
    simp [ArrayLiteral.step, hk', pure, Except.pure]

/-- A run over a datum where a tree can stand receives its value. -/
theorem result_run_datum {d : Datum} {ts : List Token} {m : Machine} (h : ts.filterMap Token.lexeme? = d.lexemes)
    (hm : m.mode = .operand) (ha : m.awaitsName = false) :
    (run registry limit m ts).result = d.eval limit m.frames.length >>= fun v => .ok (m.receive v) := by
  cases d with
  | literal t =>
    obtain ⟨u, ⟨hlit, rfl⟩, hrun⟩ := result_run_lexeme registry limit h
    rw [hrun m, result_step_literal hm ha (literal?_eq_eval hlit _)]
  | array items =>
    rw [Datum.lexemes] at h
    obtain ⟨t, us, ht, hus, hrun⟩ := result_run_cons_lexeme registry limit h
    obtain ⟨us, us', hus, hus', hrun'⟩ := result_run_append_lexemes registry limit hus
    obtain ⟨t', ht', hrun''⟩ := result_run_lexeme registry limit hus'
    have hk' : t'.kind = .closeBracket := ht'
    rw [hrun m, result_step_openBracket hm ha ht, Datum.eval, bind_assoc, bind_assoc]
    refine bind_congr fun _ => ?_
    rw [ok_bind, hrun', result_run_items (fun d _ => readsItem d) hus rfl, bind_assoc, bind_assoc]
    refine bind_congr fun vs => ?_
    rw [ok_bind, hrun'', result_step_array rfl (by simp [hk'])]
    simp [ArrayLiteral.step, hk', pure, Except.pure, ← hm]

/-! ### Frames and their arguments -/

/-- The frame will not bind a name any more. -/
def Settled (f : Frame) : Prop := ∀ n, f.bindAt = some n → n ≤ f.argCount

theorem argCount_push (f : Frame) (v : Value) : (f.push v).argCount = f.argCount + 1 := by
  show (f.args ++ [v]).length + (if f.binder.isSome then 1 else 0) = _
  rw [List.length_append, List.length_singleton, Frame.argCount, Nat.add_right_comm]

theorem Settled.push {f : Frame} (h : Settled f) (v : Value) : Settled (f.push v) := by
  intro n hn
  have := h n hn
  rw [argCount_push]
  omega

theorem Settled.scopeAfter_eq {f : Frame} (h : Settled f) (scope : Scope) (v : Value) :
    scopeAfter f scope v = scope := by
  have hnow : (f.push v).bindsNow = false := by
    simp only [Frame.bindsNow, decide_eq_false_iff_not]
    intro hn
    have := h _ hn
    rw [argCount_push] at this
    omega
  simp [scopeAfter, hnow]

/-- A run over a tree receives its value, in every context. -/
def ReadsTree (registry : Registry) (limit : Nat) (e : Expr) : Prop :=
  ∀ (ts : List Token) (m : Machine), ts.filterMap Token.lexeme? = e.lexemes → m.mode = .operand →
    m.awaitsName = false →
    (run registry limit m ts).result =
      e.eval registry limit m.scope m.frames.length >>= fun v => .ok (m.receive v)

/-- The arguments of a settled frame are all evaluated in the same scope. -/
theorem result_run_args {es : List Expr} (he : ∀ e ∈ es, ReadsTree registry limit e) {ts : List Token} {m : Machine}
    {f : Frame} {rest : List Frame} (h : ts.filterMap Token.lexeme? = Expr.lexemesAll es) (hm : m.mode = .operand)
    (ha : m.awaitsName = false) (hf : m.frames = f :: rest) (hs : Settled f) :
    (run registry limit m ts).result =
      Expr.evalAll registry limit m.scope (rest.length + 1) es >>= fun vs =>
        .ok { m with frames := { f with args := f.args ++ vs } :: rest } := by
  induction es generalizing ts m f with
  | nil =>
    rw [result_run_of_no_lexemes h, Expr.evalAll, ok_bind, List.append_nil, ← hf]
  | cons e es ih =>
    rw [Expr.lexemesAll] at h
    obtain ⟨us, us', hus, hus', hrun⟩ := result_run_append_lexemes registry limit h
    rw [hrun m, he e (by simp) us m hus hm ha, Expr.evalAll, bind_assoc, bind_assoc, hf, List.length_cons]
    refine bind_congr fun v => ?_
    have hrec : m.receive v = { m with frames := f.push v :: rest } := by
      rw [receive_of_frame hf, hs.scopeAfter_eq]
    have ha' : (m.receive v).awaitsName = false := awaitsName_receive m v
    rw [hrec] at ha'
    rw [ok_bind, hrec, ih (m := { m with frames := f.push v :: rest }) (fun e he' => he e (by simp [he'])) hus' hm ha'
      rfl (hs.push v), bind_assoc]
    refine bind_congr fun vs => ?_
    simp [Frame.push]

theorem requireArity_of_ne {n : Nat} (form : Form) (h : n ≠ 3) : form.requireArity n = .error (form.arityError n) := by
  unfold Form.requireArity Form.arityError Form.arity
  by_cases hn : n < 3
  · simp [hn]
  · simp [hn, show 3 < n by omega]

private theorem conditional_eq_applyTo (vs : List Value) :
    (Form.conditional.requireArity vs.length >>= fun _ => Form.conditional.apply vs) =
      (Callee.form .conditional).applyTo vs := by
  by_cases h : vs.length = 3
  · obtain ⟨condition, yes, no, rfl⟩ := List.length_eq_three.1 h
    cases condition <;> rfl
  · rw [requireArity_of_ne _ h]
    rcases vs with _ | ⟨a, _ | ⟨b, _ | ⟨c, _ | ⟨d, vs⟩⟩⟩⟩
    case cons.cons.cons.nil => exact absurd rfl h
    all_goals simp [Callee.applyTo]

/-- The value of a frame without a name to bind is that of its callee. -/
theorem result_eq_applyTo {f : Frame} (hb : f.binder = none) (hc : f.callee.form? = some .binding → f.args = []) :
    f.result = f.callee.applyTo f.args := by
  unfold Frame.result
  cases hcal : f.callee with
  | builtin b => rfl
  | form form =>
    cases form with
    | conditional =>
      have hn : f.argCount = f.args.length := by simp [Frame.argCount, hb]
      rw [hn]
      exact conditional_eq_applyTo f.args
    | binding =>
      have hargs := hc (by rw [hcal]; rfl)
      have hn : f.argCount = 0 := by simp [Frame.argCount, hb, hargs]
      simp [hn, hargs, requireArity_of_ne, Callee.applyTo]

/-! ### Forms -/

theorem resolve_form (registry : Registry) (form : Form) : resolve registry form.name = .ok (.form form) := by
  cases form <;> rfl

theorem resolve_def : resolve registry "def" = .ok (.form .binding) := resolve_form registry .binding

/-- Only `def` calls the binding form. -/
theorem eq_def_of_resolve {name : String} {callee : Callee} (h : resolve registry name = .ok callee)
    (hc : callee.form? = some .binding) : name = "def" := by
  rcases resolve_eq_ok h with ⟨f, hf, rfl⟩ | ⟨b, -, -, rfl⟩
  · cases hc
    exact (name_of_ofName? hf).symm
  · cases hc

theorem settled_new {callee : Callee} (hc : callee.form? ≠ some .binding) (scope : Scope) :
    Settled (.new callee scope) ∧ (Frame.new callee scope).awaitsName = false := by
  rcases callee with (_ | _) | b
  · exact ⟨fun n hn => (nomatch hn), rfl⟩
  · exact absurd rfl hc
  · exact ⟨fun n hn => (nomatch hn), rfl⟩

variable (registry limit)

/-- An opening parenthesis and a callee open a frame. -/
theorem result_run_opening {ts : List Token} {callee : String} {ls : List Lexeme}
    (h : ts.filterMap Token.lexeme? = .openParen :: .name callee :: ls) : ∃ us, us.filterMap Token.lexeme? = ls ∧
      ∀ m : Machine, m.mode = .operand → m.awaitsName = false →
        (run registry limit m ts).result =
          requireRoom m.frames.length limit >>= fun _ => resolve registry callee >>= fun c =>
            (run registry limit { m with frames := .new c m.scope :: m.frames, mode := .operand } us).result := by
  obtain ⟨t, us, ht, hus, hrun⟩ := result_run_cons_lexeme registry limit h
  obtain ⟨t', us', ⟨hk', rfl⟩, hus', hrun'⟩ := result_run_cons_lexeme registry limit hus
  refine ⟨us', hus', fun m hm ha => ?_⟩
  rw [hrun m, result_step_openParen hm ha ht, bind_assoc]
  refine bind_congr fun _ => ?_
  rw [ok_bind, hrun', result_step_callee rfl hk', bind_assoc]
  rfl

/-- A closing parenthesis hands the value of the innermost frame outward. -/
theorem result_run_closing {ts : List Token} (h : ts.filterMap Token.lexeme? = [.closeParen]) {m : Machine} {f : Frame}
    {rest : List Frame} (hm : m.mode = .operand) (hf : m.frames = f :: rest) :
    (run registry limit m ts).result =
      f.result >>= fun v => .ok ({ m with frames := rest, scope := f.outerScope }.receive v) := by
  obtain ⟨t, ht, hrun⟩ := result_run_lexeme registry limit h
  rw [hrun m, result_step_close hm ht hf]

variable {registry limit}

theorem readsTree_form {callee : String} {args : List Expr} (hdef : callee = "def" → args = [])
    (hargs : ∀ a ∈ args, ReadsTree registry limit a) : ReadsTree registry limit (.form callee args) := by
  intro ts m h hm ha
  rw [Expr.lexemes, List.cons_append, List.cons_append] at h
  obtain ⟨us, hus, hopen⟩ := result_run_opening registry limit h
  obtain ⟨us, us', hus, hus', hrun⟩ := result_run_append_lexemes registry limit hus
  rw [hopen m hm ha, Expr.eval, bind_assoc]
  refine bind_congr fun _ => ?_
  cases hr : resolve registry callee with
  | error e => rfl
  | ok c =>
    rw [ok_bind, ok_bind, hrun]
    have hnil : c.form? = some .binding → args = [] := fun hc => hdef (eq_def_of_resolve hr hc)
    have hread : (run registry limit { m with frames := .new c m.scope :: m.frames, mode := .operand } us).result =
        Expr.evalAll registry limit m.scope (m.frames.length + 1) args >>= fun vs =>
          .ok { m with frames := { Frame.new c m.scope with args := vs } :: m.frames, mode := .operand } := by
      by_cases hc : c.form? = some .binding
      · rw [hnil hc] at hus ⊢
        exact result_run_of_no_lexemes hus _
      · obtain ⟨hs, ha'⟩ := settled_new hc m.scope
        exact result_run_args hargs hus rfl ha' rfl hs
    rw [hread]
    cases hvs : Expr.evalAll registry limit m.scope (m.frames.length + 1) args with
    | error e => rfl
    | ok vs =>
      have hc : c.form? = some .binding → vs = [] := by
        intro hc
        rw [hnil hc] at hvs
        cases hvs
        rfl
      rw [ok_bind, ok_bind, result_run_closing registry limit hus' rfl rfl, result_eq_applyTo rfl hc]
      refine bind_congr fun v => ?_
      rw [← hm]
      rfl

/-- The name of a binding form is bound with the first value that its frame receives. -/
theorem receive_value {m : Machine} {bound : String} {rest : List Frame} {scope : Scope} (v : Value)
    (hf : m.frames = { Frame.new (.form .binding) scope with binder := some bound } :: rest) :
    m.receive v = { m with
      frames := { Frame.new (.form .binding) scope with binder := some bound, args := [v] } :: rest
      scope := m.scope.push bound v } := by
  rw [receive_of_frame hf]
  rfl

/-- The value of a frame that has a name to bind is that of its second argument. -/
theorem result_of_binding {f : Frame} {bound : String} (hc : f.callee = .form .binding) (hb : f.binder = some bound)
    (v : Value) (vs : List Value) :
    { f with args := v :: vs }.result = match vs with
      | [body] => .ok body
      | _ => .error (Form.arityError .binding (vs.length + 2)) := by
  obtain ⟨callee, args, binder, outerScope, bindAt⟩ := f
  obtain rfl : callee = .form .binding := hc
  obtain rfl : binder = some bound := hb
  show (Form.binding.requireArity (vs.length + 2) >>= fun _ => Form.binding.apply (v :: vs)) = _
  rcases vs with _ | ⟨body, _ | ⟨a, vs⟩⟩
  · rfl
  · rfl
  · rw [requireArity_of_ne _ (by simp)]
    rfl

theorem readsTree_binding {bound : String} {args : List Expr} (hargs : ∀ a ∈ args, ReadsTree registry limit a) :
    ReadsTree registry limit (.binding bound args) := by
  intro ts m h hm ha
  rw [Expr.lexemes, List.cons_append, List.cons_append, List.cons_append] at h
  obtain ⟨us, hus, hopen⟩ := result_run_opening registry limit h
  obtain ⟨t, us, ⟨hk, rfl⟩, hus, hrun⟩ := result_run_cons_lexeme registry limit hus
  rw [hopen m hm ha, resolve_def]
  cases args with
  | nil =>
    rw [Expr.eval, bind_assoc]
    refine bind_congr fun _ => ?_
    rw [ok_bind, hrun, result_step_takeName rfl rfl rfl hk, ok_bind, result_run_closing registry limit hus rfl rfl]
    rfl
  | cons value rest =>
    rw [Expr.lexemesAll, List.append_assoc] at hus
    obtain ⟨us₁, us₂, hus₁, hus₂, hrun₁⟩ := result_run_append_lexemes registry limit hus
    obtain ⟨us₂, us₃, hus₂, hus₃, hrun₂⟩ := result_run_append_lexemes registry limit hus₂
    rw [Expr.eval, bind_assoc]
    refine bind_congr fun _ => ?_
    rw [ok_bind, hrun, result_step_takeName rfl rfl rfl hk, ok_bind, hrun₁,
      hargs value (by simp) us₁ _ hus₁ rfl rfl, bind_assoc, bind_assoc]
    refine bind_congr fun v => ?_
    -- the value is bound as soon as the frame has received it
    rw [ok_bind, receive_value v rfl, hrun₂,
      result_run_args (fun a ha => hargs a (by simp [ha])) hus₂ rfl rfl rfl (fun n hn => by cases hn; exact le_refl 2),
      bind_assoc, bind_assoc]
    refine bind_congr fun vs => ?_
    rw [ok_bind, result_run_closing registry limit hus₃ rfl rfl]
    refine (congrArg (· >>= _) (result_of_binding rfl rfl v vs)).trans (bind_congr fun body => ?_)
    rw [← hm]
    rfl

/-- A run over tokens that spell a tree has the effect of receiving its value, wherever a tree can stand. -/
theorem readsTree {e : Expr} (he : e.Grammatical) : ReadsTree registry limit e := by
  induction he with
  | datum d => exact fun ts m h hm ha => result_run_datum h hm ha
  | name s =>
    intro ts m h hm ha
    obtain ⟨t, ⟨hk, rfl⟩, hrun⟩ := result_run_lexeme registry limit h
    rw [hrun m, result_step_name hm ha hk, Expr.eval]
    cases m.scope.lookup t.text <;> rfl
  | form hdef _ ih => exact readsTree_form hdef ih
  | binding bound _ ih => exact readsTree_binding ih

/-- Outside all frames the values of trees become the results, in order. -/
theorem result_run_trees {es : List Expr} (he : ∀ e ∈ es, e.Grammatical) {ts : List Token} {m : Machine}
    (h : ts.filterMap Token.lexeme? = Expr.lexemesAll es) (hm : m.mode = .operand) (hf : m.frames = []) :
    (run registry limit m ts).result =
      Expr.evalAll registry limit m.scope 0 es >>= fun vs => .ok { m with values := m.values ++ vs } := by
  induction es generalizing ts m with
  | nil => rw [result_run_of_no_lexemes h, Expr.evalAll, ok_bind, List.append_nil]
  | cons e es ih =>
    rw [Expr.lexemesAll] at h
    obtain ⟨us, us', hus, hus', hrun⟩ := result_run_append_lexemes registry limit h
    have ha : m.awaitsName = false := by simp [awaitsName, hf]
    rw [hrun m, readsTree (he e (by simp)) us m hus hm ha, Expr.evalAll, bind_assoc, bind_assoc, hf, List.length_nil]
    refine bind_congr fun v => ?_
    rw [ok_bind, receive_of_no_frames hf, ih (m := { m with values := m.values ++ [v] })
      (fun e he' => he e (by simp [he'])) hus' hm hf, bind_assoc]
    refine bind_congr fun vs => ?_
    simp [hf]

theorem outcome_of_values (vs : List Value) : { start with values := vs }.outcome = match vs with
    | [] => .error .noExpression
    | [v] => .ok v
    | vs => .error (.manyExpressions vs.length) := rfl

end Machine

theorem runTokens_of_trees (i : Interpreter) {ts : List Token} {es : List Expr} (he : ∀ e ∈ es, e.Grammatical)
    (h : ts.filterMap Token.lexeme? = Expr.lexemesAll es) :
    i.runTokens ts = Expr.evalAll i.registry i.config.limit.toNat .empty 0 es >>= fun
      | [] => .error .noExpression
      | [v] => .ok v
      | vs => .error (.manyExpressions vs.length) := by
  rw [i.runTokens_eq, Machine.result_run_trees he h rfl rfl, bind_assoc]
  exact bind_congr fun vs => Machine.outcome_of_values vs

theorem runTokens_of_tree (i : Interpreter) {ts : List Token} {e : Expr} (he : e.Grammatical) (h : Spells ts e) :
    i.runTokens ts = e.eval i.registry i.config.limit.toNat .empty 0 := by
  have hall : ts.filterMap Token.lexeme? = Expr.lexemesAll [e] := by
    rw [Expr.lexemesAll, Expr.lexemesAll, List.append_nil]
    exact h
  rw [runTokens_of_trees i (by simpa using he) hall, Expr.evalAll]
  cases e.eval i.registry i.config.limit.toNat .empty 0 <;> rfl

/-- The machine computes what the evaluation of trees computes, value or error: for tokens that spell one tree, for
tokens that spell any number of trees, and for tokens that spell a tree in the middle of others, whatever frames are
open and whatever is bound there. -/
theorem runTokens_eq_eval (i : Interpreter) (ts : List Token) :
    (∀ e : Expr, e.Grammatical → Spells ts e →
      i.runTokens ts = e.eval i.registry i.config.limit.toNat .empty 0) ∧
    (∀ es : List Expr, (∀ e ∈ es, e.Grammatical) → ts.filterMap Token.lexeme? = Expr.lexemesAll es →
      i.runTokens ts = Expr.evalAll i.registry i.config.limit.toNat .empty 0 es >>= fun
        | [] => .error .noExpression
        | [v] => .ok v
        | vs => .error (.manyExpressions vs.length)) ∧
    ∀ (e : Expr) (m : Machine), e.Grammatical → Spells ts e → m.mode = .operand → m.awaitsName = false →
      (Machine.run i.registry i.config.limit.toNat m ts).result =
        e.eval i.registry i.config.limit.toNat m.scope m.depth >>= fun v => (m.deliver v).result := by
  refine ⟨fun e he h => runTokens_of_tree i he h, fun es he h => runTokens_of_trees i he h, fun e m he h hm ha => ?_⟩
  rw [Machine.readsTree he ts m h hm ha, Machine.depth_of_operand hm]
  exact bind_congr fun v => (Machine.result_deliver m v).symm

/-- The tokens of `(def x true (if x x (no)))`. -/
private def unknownCall : List Token :=
  [⟨.openParen, "(", 0⟩, ⟨.identifier, "def", 1⟩, ⟨.whitespace, " ", 4⟩, ⟨.identifier, "x", 5⟩, ⟨.bool, "true", 7⟩,
    ⟨.openParen, "(", 12⟩, ⟨.identifier, "if", 13⟩, ⟨.identifier, "x", 16⟩, ⟨.whitespace, " ", 17⟩,
    ⟨.identifier, "x", 18⟩, ⟨.openParen, "(", 20⟩, ⟨.identifier, "no", 21⟩, ⟨.closeParen, ")", 23⟩,
    ⟨.closeParen, ")", 24⟩, ⟨.closeParen, ")", 25⟩]

private def unknownCallTree : Expr :=
  .binding "x" [.datum (.literal ⟨.bool, "true", 7⟩), .form "if" [.name "x", .name "x", .form "no" []]]

/-- The tokens of `(def x "ab" (length x))`, with a name for the use of the variable. -/
private def knownCall (used : String) : List Token :=
  [⟨.openParen, "(", 0⟩, ⟨.identifier, "def", 1⟩, ⟨.identifier, "x", 5⟩, ⟨.string, "\"ab\"", 7⟩, ⟨.openParen, "(", 12⟩,
    ⟨.identifier, "length", 13⟩, ⟨.whitespace, " ", 19⟩, ⟨.identifier, used, 20⟩, ⟨.closeParen, ")", 21⟩,
    ⟨.closeParen, ")", 22⟩]

private def knownCallTree (used : String) : Expr :=
  .binding "x" [.datum (.literal ⟨.string, "\"ab\"", 7⟩), .form "length" [.name used]]

/-- With room for three parentheses the branch that is not taken fails, with room for two it is not even reached.  A
registered builtin is called with the value of the variable, and not at all if the variable is unbound. -/
theorem runTokens_unknownCall : unknownCallTree.Grammatical ∧ Spells unknownCall unknownCallTree ∧
    (∀ limit, Interpreter.runTokens { registry := .empty, config := ⟨limit⟩ } unknownCall =
      unknownCallTree.eval .empty limit.toNat .empty 0) ∧
    unknownCallTree.eval .empty 3 .empty 0 = .error (.unknownCallee "no") ∧
    unknownCallTree.eval .empty 2 .empty 0 = .error (.tooDeep 2) ∧
    (∀ used ∈ ["x", "y"], Interpreter.runTokens {} (knownCall used) =
      (knownCallTree used).eval Standard.registry 512 .empty 0) ∧
    (knownCallTree "x").eval Standard.registry 512 .empty 0 = .ok (.int 2) ∧
    (knownCallTree "y").eval Standard.registry 512 .empty 0 = .error (.unbound "y") := by
  have hg : unknownCallTree.Grammatical := by
    refine .binding "x" ?_
    simp only [List.mem_cons, List.not_mem_nil, or_false, forall_eq_or_imp, forall_eq]
    refine ⟨.datum _, .form (by decide) ?_⟩
    simp only [List.mem_cons, List.not_mem_nil, or_false, forall_eq_or_imp, forall_eq]
    exact ⟨.name "x", .name "x", .form (fun _ => rfl) (by simp)⟩
  have hs : Spells unknownCall unknownCallTree := by decide
  have hg' : ∀ used, (knownCallTree used).Grammatical := by
    intro used
    refine .binding "x" ?_
    simp only [List.mem_cons, List.not_mem_nil, or_false, forall_eq_or_imp, forall_eq]
    exact ⟨.datum _, .form (by simp) (by simpa using .name used)⟩
  have hs' : ∀ used ∈ ["x", "y"], Spells (knownCall used) (knownCallTree used) := by decide
  exact ⟨hg, hs, fun limit => (runTokens_eq_eval { registry := .empty, config := ⟨limit⟩ } unknownCall).1 _ hg hs,
    rfl, rfl, fun used hused => (runTokens_eq_eval {} (knownCall used)).1 _ (hg' used) (hs' used hused), rfl, rfl⟩

end SinglePass
