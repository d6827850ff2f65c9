import SinglePass.Proofs.DepthLimit
import SinglePass.Proofs.TreeEvaluation

/-!
# Inlining of definitions

A definition that binds a name to a datum has the same outcome as its body with the datum in the place of every free
reference to the name, value or error, unless one of the two runs exceeds its limit (`Machine.Exceeds`).

Where there is room, the evaluation of a tree does not depend on the depth and the limit, and on the scope only through
the values of the names (`Expr.Grammatical.eval_congr`).  The body of the definition and the inlined body are evaluated
in scopes that differ in one name only (`Scope.Differ`), and where the body refers to that name, the other one has a
datum for the value.  An inner definition of the same name is the place where the two scopes become alike: its value is
still read in scopes that differ, but its body refers to the inner definition in both.
-/

namespace SinglePass

/-! ### Inlined trees -/

mutual

/-- The tree with a datum in the place of every free reference to a name.  Callees and names to be bound are no
references, and behind the value of a definition of that name all references are to this definition. -/
def Expr.inline (x : String) (d : Datum) : Expr → Expr
  | .datum d' => .datum d'
  | .name s => if s = x then .datum d else .name s
  | .form callee args => .form callee (Expr.inlineAll x d args)
  | .binding bound [] => .binding bound []
  | .binding bound (value :: rest) =>
    .binding bound (value.inline x d :: if bound = x then rest else Expr.inlineAll x d rest)

def Expr.inlineAll (x : String) (d : Datum) : List Expr → List Expr
  | [] => []
  | e :: rest => e.inline x d :: Expr.inlineAll x d rest

end

namespace Expr

theorem inlineAll_eq_map (x : String) (d : Datum) (es : List Expr) : inlineAll x d es = es.map (inline x d) := by
  induction es with
  | nil => rfl
  | cons e es ih => rw [inlineAll, ih, List.map_cons]

theorem Grammatical.inline {e : Expr} (he : e.Grammatical) (x : String) (d : Datum) :
    (e.inline x d).Grammatical := by
  induction he with
  | datum d' => exact .datum d'
  | name s =>
    rw [Expr.inline]
    split
    · exact .datum d
    · exact .name s
  | @form callee args hdef _ ih =>
    rw [Expr.inline, inlineAll_eq_map]
    refine .form (fun hc => by rw [hdef hc, List.map_nil]) ?_
    simpa using ih
  | @binding bound args hargs ih =>
    cases args with
    | nil => exact .binding bound (by simp)
    | cons value rest =>
      rw [Expr.inline]
      refine .binding bound (List.forall_mem_cons.2 ⟨ih value (by simp), ?_⟩)
      split
      · exact fun a ha => hargs a (by simp [ha])
      · rw [inlineAll_eq_map]
        simpa using fun a ha => ih a (List.mem_cons_of_mem value ha)

end Expr

/-! ### Data where there is room -/

namespace Datum

theorem evalAll_congr {ds : List Datum} {limit depth limit' depth' : Nat}
    (h : ∀ d ∈ ds, d.eval limit depth = d.eval limit' depth') :
    evalAll limit depth ds = evalAll limit' depth' ds := by
  induction ds with
  | nil => rfl
  | cons d ds ih => rw [evalAll, evalAll, h d (by simp), ih fun d hd => h d (by simp [hd])]

theorem eval_of_room (d : Datum) : ∀ {limit depth limit' depth' : Nat}, depth + d.nesting ≤ limit →
    depth' + d.nesting ≤ limit' → d.eval limit depth = d.eval limit' depth' := by
  induction d using Datum.induction with
  | literal t => intros; rfl
  | array items ih =>
    intro limit depth limit' depth' h h'
    rw [nesting] at h h'
    have hitems : ∀ d ∈ items, d.nesting ≤ limit - (depth + 1) := nestingAll_le_iff.1 (by omega)
    have hitems' : ∀ d ∈ items, d.nesting ≤ limit' - (depth' + 1) := nestingAll_le_iff.1 (by omega)
    rw [eval, eval, Machine.requireRoom_of_lt (by omega), Machine.requireRoom_of_lt (by omega), ok_bind, ok_bind]
    have hall : evalAll limit (depth + 1) items = evalAll limit' (depth' + 1) items := by
      refine evalAll_congr fun d hd => ih d hd ?_ ?_
      · have := hitems d hd
        omega
      · have := hitems' d hd
        omega
    rw [hall]

theorem eval_of_evalAll {ds : List Datum} {limit depth : Nat} {vs : List Value}
    (h : evalAll limit depth ds = .ok vs) : ∀ d ∈ ds, ∃ v, d.eval limit depth = .ok v := by
  induction ds generalizing vs with
  | nil => simp
  | cons d ds ih =>
    simp only [evalAll, bind_eq_ok_iff] at h
    obtain ⟨v, hv, vs', hvs, -⟩ := h
    exact List.forall_mem_cons.2 ⟨⟨v, hv⟩, ih hvs⟩

/-- A datum that has a value has room for its brackets. -/
theorem nesting_le_of_eval (d : Datum) : ∀ {limit depth : Nat} {v : Value}, depth ≤ limit →
    d.eval limit depth = .ok v → depth + d.nesting ≤ limit := by
  induction d using Datum.induction with
  | literal t =>
    intro limit depth v hle _
    exact hle
  | array items ih =>
    intro limit depth v _ h
    simp only [eval, bind_eq_ok_iff] at h
    obtain ⟨u, hu, vs, hvs, -⟩ := h
    have hlt := Machine.lt_of_requireRoom hu
    have hitems : nestingAll items ≤ limit - (depth + 1) := by
      refine nestingAll_le_iff.2 fun d hd => ?_
      obtain ⟨w, hw⟩ := eval_of_evalAll hvs d hd
      have := ih d hd hlt hw
      omega
    rw [nesting]
    omega

/-- A datum that has a value anywhere has it wherever there is room. -/
theorem eval_eq_ok {d : Datum} {room limit depth : Nat} {v : Value} (hv : d.eval room 0 = .ok v)
    (h : depth + d.nesting ≤ limit) : d.eval limit depth = .ok v := by
  rw [← hv]
  exact d.eval_of_room h (d.nesting_le_of_eval (Nat.zero_le room) hv)

end Datum

/-! ### Scopes that differ in one name -/

namespace Scope

theorem lookup_push (s : Scope) (bound name : String) (v : Value) :
    (s.push bound v).lookup name = if name = bound then some v else s.lookup name := by
  show ((bound, v) :: s.bindings).lookup name = _
  rw [List.lookup_cons]
  by_cases h : name = bound
  · simp [h]
  · rw [beq_false_of_ne h, if_neg h]
    rfl

/-- All names but one have the same values in both scopes, and this one has a given value in the first. -/
structure Differ (x : String) (v : Value) (s s' : Scope) : Prop where
  lookup_eq : s.lookup x = some v
  others : ∀ name, name ≠ x → s.lookup name = s'.lookup name

theorem Differ.push {x : String} {v : Value} {s s' : Scope} (h : Differ x v s s') {bound : String} (hb : bound ≠ x)
    (w : Value) : Differ x v (s.push bound w) (s'.push bound w) where
  lookup_eq := by rw [lookup_push, if_neg hb.symm, h.lookup_eq]
  others := fun name hn => by rw [lookup_push, lookup_push, h.others name hn]

/-- A new binding of the name makes the scopes alike. -/
theorem Differ.shadow {x : String} {v : Value} {s s' : Scope} (h : Differ x v s s') (w : Value) (name : String) :
    (s.push x w).lookup name = (s'.push x w).lookup name := by
  rw [lookup_push, lookup_push]
  split
  · rfl
  · rename_i hn
    exact h.others name hn

end Scope

/-! ### Evaluation where there is room -/

namespace Expr

variable {registry : Registry} {limit depth limit' depth' : Nat} {s s' : Scope}

theorem evalAll_map {g : Expr → Expr} {es : List Expr}
    (h : ∀ e ∈ es, e.eval registry limit s depth = (g e).eval registry limit' s' depth') :
    evalAll registry limit s depth es = evalAll registry limit' s' depth' (es.map g) := by
  induction es with
  | nil => rfl
  | cons e es ih => rw [List.map_cons, evalAll, evalAll, h e (by simp), ih fun e he => h e (by simp [he])]

theorem evalAll_congr {es : List Expr}
    (h : ∀ e ∈ es, e.eval registry limit s depth = e.eval registry limit' s' depth') :
    evalAll registry limit s depth es = evalAll registry limit' s' depth' es := by
  have hid := evalAll_map (g := id) h
  rwa [List.map_id] at hid

/-- Two forms with the same callee have the same outcome if their arguments have. -/
theorem eval_form_congr {callee : String} {args args' : List Expr} (h : depth < limit) (h' : depth' < limit')
    (hargs : evalAll registry limit s (depth + 1) args = evalAll registry limit' s' (depth' + 1) args') :
    (form callee args).eval registry limit s depth = (form callee args').eval registry limit' s' depth' := by
  rw [eval, eval, Machine.requireRoom_of_lt h, Machine.requireRoom_of_lt h', hargs]

/-- Two definitions of the same name have the same outcome if their values have, and their bodies with each value. -/
theorem eval_binding_congr {bound : String} {value value' : Expr} {rest rest' : List Expr} (h : depth < limit)
    (h' : depth' < limit')
    (hvalue : value.eval registry limit s (depth + 1) = value'.eval registry limit' s' (depth' + 1))
    (hrest : ∀ v, evalAll registry limit (s.push bound v) (depth + 1) rest =
      evalAll registry limit' (s'.push bound v) (depth' + 1) rest') :
    (binding bound (value :: rest)).eval registry limit s depth =
      (binding bound (value' :: rest')).eval registry limit' s' depth' := by
  rw [eval, eval, Machine.requireRoom_of_lt h, Machine.requireRoom_of_lt h', hvalue]
  simp only [hrest]

theorem eval_binding_nil {bound : String} (h : depth < limit) (h' : depth' < limit') :
    (binding bound []).eval registry limit s depth = (binding bound []).eval registry limit' s' depth' := by
  rw [eval, eval, Machine.requireRoom_of_lt h, Machine.requireRoom_of_lt h']

/-- Arguments have the room that is left inside the parenthesis around them. -/
theorem room_of_nestingAll {es : List Expr} (h : depth + (nestingAll es + 1) ≤ limit) :
    depth < limit ∧ ∀ e ∈ es, depth + 1 + e.nesting ≤ limit := by
  refine ⟨by omega, fun e he => ?_⟩
  have hall : ∀ e ∈ es, e.nesting ≤ limit - (depth + 1) := nestingAll_le_iff.1 (by omega)
  have := hall e he
  omega

/-- Where there is room, only the values of names count. -/
theorem Grammatical.eval_congr {e : Expr} (he : e.Grammatical) :
    ∀ {limit depth limit' depth' : Nat} {s s' : Scope}, (∀ name, s.lookup name = s'.lookup name) →
      depth + e.nesting ≤ limit → depth' + e.nesting ≤ limit' →
      e.eval registry limit s depth = e.eval registry limit' s' depth' := by
  induction he with
  | datum d =>
    intro limit depth limit' depth' s s' _ h h'
    rw [eval, eval]
    exact d.eval_of_room h h'
  | name x =>
    intro limit depth limit' depth' s s' hs _ _
    rw [eval, eval, hs x]
  | form _ _ ih =>
    intro limit depth limit' depth' s s' hs h h'
    obtain ⟨hlt, hargs⟩ := room_of_nestingAll h
    obtain ⟨hlt', hargs'⟩ := room_of_nestingAll h'
    exact eval_form_congr hlt hlt' (evalAll_congr fun a ha => ih a ha hs (hargs a ha) (hargs' a ha))
  | @binding bound args _ ih =>
    intro limit depth limit' depth' s s' hs h h'
    obtain ⟨hlt, hargs⟩ := room_of_nestingAll h
    obtain ⟨hlt', hargs'⟩ := room_of_nestingAll h'
    cases args with
    | nil => exact eval_binding_nil hlt hlt'
    | cons value rest =>
      refine eval_binding_congr hlt hlt' (ih value (by simp) hs (hargs value (by simp)) (hargs' value (by simp))) ?_
      refine fun v => evalAll_congr fun a ha => ?_
      have hmem : a ∈ value :: rest := List.mem_cons_of_mem value ha
      refine ih a hmem (fun name => ?_) (hargs a hmem) (hargs' a hmem)
      rw [Scope.lookup_push, Scope.lookup_push, hs name]

/-- A tree has the same outcome as the inlined tree, where the name has the value of the datum in the first scope and
no other name is different in the second one. -/
theorem Grammatical.eval_inline {e : Expr} (he : e.Grammatical) {x : String} {d : Datum} {room : Nat} {v : Value}
    (hv : d.eval room 0 = .ok v) :
    ∀ {limit depth limit' depth' : Nat} {s s' : Scope}, Scope.Differ x v s s' → depth + e.nesting ≤ limit →
      depth' + (e.inline x d).nesting ≤ limit' →
      e.eval registry limit s depth = (e.inline x d).eval registry limit' s' depth' := by
  induction he with
  | datum d' =>
    intro limit depth limit' depth' s s' _ h h'
    rw [Expr.inline, eval, eval]
    exact d'.eval_of_room h h'
  | name y =>
    intro limit depth limit' depth' s s' hs _ h'
    rw [Expr.inline] at h' ⊢
    by_cases hy : y = x
    · rw [if_pos hy] at h' ⊢
      rw [eval, eval, hy, hs.lookup_eq]
      exact (Datum.eval_eq_ok hv h').symm
    · rw [if_neg hy, eval, eval, hs.others y hy]
  | @form callee args _ _ ih =>
    intro limit depth limit' depth' s s' hs h h'
    rw [Expr.inline, inlineAll_eq_map] at h' ⊢
    obtain ⟨hlt, hargs⟩ := room_of_nestingAll h
    obtain ⟨hlt', hargs'⟩ := room_of_nestingAll h'
    refine eval_form_congr hlt hlt' (evalAll_map fun a ha => ?_)
    exact ih a ha hs (hargs a ha) (hargs' _ (List.mem_map_of_mem ha))
  | @binding bound args hargs ih =>
    intro limit depth limit' depth' s s' hs h h'
    obtain ⟨hlt, hroom⟩ := room_of_nestingAll h
    cases args with
    | nil =>
      rw [Expr.inline] at h' ⊢
      obtain ⟨hlt', -⟩ := room_of_nestingAll h'
      exact eval_binding_nil hlt hlt'
    | cons value rest =>
      rw [Expr.inline] at h' ⊢
      obtain ⟨hlt', hroom'⟩ := room_of_nestingAll h'
      have hvalue := ih value (by simp) hs (hroom value (by simp)) (hroom' _ (by simp))
      refine eval_binding_congr hlt hlt' hvalue fun w => ?_
      by_cases hb : bound = x
      · rw [if_pos hb] at hroom' ⊢
        rw [hb]
        refine evalAll_congr fun a ha => ?_
        have hmem : a ∈ value :: rest := List.mem_cons_of_mem value ha
        exact (hargs a hmem).eval_congr (hs.shadow w) (hroom a hmem) (hroom' a (by simp [ha]))
      · rw [if_neg hb, inlineAll_eq_map] at hroom' ⊢
        refine evalAll_map fun a ha => ?_
        have hmem : a ∈ value :: rest := List.mem_cons_of_mem value ha
        exact ih a hmem (hs.push hb w) (hroom a hmem) (hroom' _ (List.mem_cons_of_mem _ (List.mem_map_of_mem ha)))

end Expr

/-! ### Runs within the limit -/

namespace Machine

variable {registry : Registry} {limit unreachable : Nat} {m : Machine} {t : Token} {ts : List Token}

/-- The run comes to a parenthesis or bracket for which the limit has no room. -/
def Exceeds (registry : Registry) (limit : Nat) (ts : List Token) : Prop :=
  ∃ us t vs m, ts = us ++ t :: vs ∧ t.kind.isOpening ∧ (run registry limit .start us).result = .ok m ∧
    (step registry limit m t).result = .error (.tooDeep limit)

theorem Exceeds.result_run (h : Exceeds registry limit ts) :
    (run registry limit .start ts).result = .error (.tooDeep limit) := by
  obtain ⟨us, t, vs, m, rfl, -, hrun, hstep⟩ := h
  rw [result_run_append, hrun, ok_bind, result_run_cons, hstep, error_bind]

/-- The limit counts only where something is opened. -/
theorem Fails.of_not_opening {e : Error} (ht : t.kind.isOpening = false) (h : Fails registry limit m t e) :
    Fails registry unreachable m t e := by
  cases h with
  | noCallee hm hw hk => exact .noCallee hm hw hk
  | unknownCallee hm hk hr => exact .unknownCallee hm hk hr
  | @item stack _ hm hw hs =>
    refine .item hm hw ?_
    rw [← hs]
    unfold ArrayLiteral.step
    cases hk : t.kind <;> first | rfl | simp [hk, Token.Kind.isOpening] at ht
  | noBinder hm ha hw hc hk => exact .noBinder hm ha hw hc hk
  | tooDeep _ _ hk _ =>
    rw [(Token.Kind.isOpening_of_eq hk).1] at ht
    cases ht
  | strayBracket hm ha hk => exact .strayBracket hm ha hk
  | unbound hm ha hk hv => exact .unbound hm ha hk hv
  | literal hm ha hl => exact .literal hm ha hl
  | unbalanced hm hk hf => exact .unbalanced hm hk hf
  | result hm hk hf hv => exact .result hm hk hf hv

/-- A run that does not exceed its limit is the run without one. -/
theorem result_run_of_not_exceeds (h : ¬ Exceeds registry limit ts) (hu : ts.length ≤ unreachable) :
    (run registry limit .start ts).result = (run registry unreachable .start ts).result := by
  have hroom : ∀ us : List Token, us.length ≤ ts.length → Machine.start.nesting + us.length ≤ unreachable := by
    intro us hus
    have : Machine.start.nesting = 0 := rfl
    omega
  rcases result_run_eq_or registry (.start limit) (hroom ts le_rfl) with hdeep | heq
  · -- the error is reported by a builtin, and so it is in the other run
    obtain ⟨us, t, vs, m, rfl, hrun, hfails⟩ := fails_of_run hdeep
    have ht : t.kind.isOpening = false := by
      by_contra hopen
      exact h ⟨us, t, vs, m, rfl, by simpa using hopen, hrun, step_eq_error_iff.2 hfails⟩
    have hrun' : (run registry unreachable .start us).result = .ok m := by
      rcases result_run_eq_or registry (.start limit) (hroom us (by simp)) with hd | hd
      · rw [hrun] at hd
        cases hd
      · rw [← hd, hrun]
    rw [hdeep, result_run_append, hrun', ok_bind, result_run_cons, step_eq_error_iff.2 (hfails.of_not_opening ht),
      error_bind]
  · exact heq

theorem evaluate_eq_eval {e : Expr} (he : e.Grammatical) (h : Spells ts e) :
    evaluate registry limit ts = e.eval registry limit .empty 0 := by
  rw [evaluate, readsTree he ts .start h rfl rfl, bind_assoc]
  show e.eval registry limit .empty 0 >>= _ = _
  cases e.eval registry limit .empty 0 <;> rfl

end Machine

/-- A run that gives a value stays within its limit. -/
theorem Interpreter.not_exceeds_of_runTokens {i : Interpreter} {ts : List Token} {v : Value}
    (h : i.runTokens ts = .ok v) : ¬ Machine.Exceeds i.registry i.config.limit.toNat ts := by
  intro hexceeds
  rw [i.runTokens_eq, hexceeds.result_run] at h
  cases h

/-- The value of a definition whose value is a datum is that of its body, evaluated where the name is bound. -/
theorem Expr.eval_definition {registry : Registry} {limit depth : Nat} {s : Scope} {x : String} {d : Datum} {v : Value}
    {body : Expr} (h : depth < limit) (hv : d.eval limit (depth + 1) = .ok v) :
    (binding x [.datum d, body]).eval registry limit s depth =
      body.eval registry limit (s.push x v) (depth + 1) := by
  rw [eval, Machine.requireRoom_of_lt h, ok_bind, eval, hv, ok_bind, evalAll, evalAll]
  cases body.eval registry limit (s.push x v) (depth + 1) <;> rfl

/-- A definition can be inlined.  A definition of a name by a datum that has a value, and its body with the datum in the
place of every free reference to the name, have the same value or the same error, under any limit that neither of the
two runs exceeds. -/
theorem runTokens_inline (i : Interpreter) (x : String) (d : Datum) (body : Expr) (ts us : List Token) (room : Nat)
    (v : Value) (hv : d.eval room 0 = .ok v) (hbody : body.Grammatical)
    (hts : Spells ts (.binding x [.datum d, body])) (hus : Spells us (body.inline x d))
    (hlimit : ¬ Machine.Exceeds i.registry i.config.limit.toNat ts)
    (hlimit' : ¬ Machine.Exceeds i.registry i.config.limit.toNat us) : i.runTokens ts = i.runTokens us := by
  -- without a limit the trees decide
  let unreachable := ts.length + us.length + (body.nesting + d.nesting + (body.inline x d).nesting) + 1
  have hlen : ts.length ≤ unreachable := by omega
  have hlen' : us.length ≤ unreachable := by omega
  have hdef : (Expr.binding x [.datum d, body]).Grammatical := .binding x (by simp [hbody, Expr.Grammatical.datum])
  have hd : d.eval unreachable 1 = .ok v := Datum.eval_eq_ok hv (by omega)
  have hscopes : Scope.Differ x v (Scope.empty.push x v) .empty := by
    refine ⟨by rw [Scope.lookup_push, if_pos rfl], fun name hn => ?_⟩
    rw [Scope.lookup_push, if_neg hn]
  calc i.runTokens ts
    _ = Machine.evaluate i.registry unreachable ts := by
      rw [i.runTokens_eq, Machine.result_run_of_not_exceeds hlimit hlen]
      rfl
    _ = (Expr.binding x [.datum d, body]).eval i.registry unreachable .empty 0 := Machine.evaluate_eq_eval hdef hts
    _ = body.eval i.registry unreachable (Scope.empty.push x v) 1 := Expr.eval_definition (by omega) hd
    _ = (body.inline x d).eval i.registry unreachable .empty 0 := hbody.eval_inline hv hscopes (by omega) (by omega)
    _ = Machine.evaluate i.registry unreachable us := (Machine.evaluate_eq_eval (hbody.inline x d) hus).symm
    _ = i.runTokens us := by
      rw [i.runTokens_eq, Machine.result_run_of_not_exceeds hlimit' hlen']
      rfl

/-- The tokens of `[true false]`. -/
private def twoItems : List Token :=
  [⟨.openBracket, "[", 7⟩, ⟨.bool, "true", 8⟩, ⟨.whitespace, " ", 12⟩, ⟨.bool, "false", 13⟩, ⟨.closeBracket, "]", 18⟩]

private def twoItemsDatum : Datum := .array [.literal ⟨.bool, "true", 8⟩, .literal ⟨.bool, "false", 13⟩]

/-- The tokens of `(plus (length x) (def x (length x) x))`, with others for the first two uses of `x`. -/
private def twoLengths (use : List Token) : List Token :=
  [⟨.openParen, "(", 20⟩, ⟨.identifier, "plus", 21⟩, ⟨.openParen, "(", 26⟩, ⟨.identifier, "length", 27⟩] ++ use ++
    [⟨.closeParen, ")", 35⟩, ⟨.openParen, "(", 37⟩, ⟨.identifier, "def", 38⟩, ⟨.identifier, "x", 42⟩,
      ⟨.openParen, "(", 44⟩, ⟨.identifier, "length", 45⟩] ++ use ++
    [⟨.closeParen, ")", 53⟩, ⟨.identifier, "x", 55⟩, ⟨.closeParen, ")", 56⟩, ⟨.closeParen, ")", 57⟩]

private def twoLengthsTree : Expr :=
  .form "plus" [.form "length" [.name "x"], .binding "x" [.form "length" [.name "x"], .name "x"]]

/-- The tokens of the definition of `x` as the two items, with the sum of the two lengths as its body. -/
private def definedLengths : List Token :=
  [⟨.openParen, "(", 0⟩, ⟨.identifier, "def", 1⟩, ⟨.identifier, "x", 5⟩] ++ twoItems ++
    twoLengths [⟨.identifier, "x", 34⟩] ++ [⟨.closeParen, ")", 58⟩]

private theorem twoLengthsTree_grammatical : twoLengthsTree.Grammatical := by
  have hlength : (Expr.form "length" [.name "x"]).Grammatical := .form (by decide) (by simpa using .name "x")
  have hinner : (Expr.binding "x" [.form "length" [.name "x"], .name "x"]).Grammatical :=
    .binding "x" (by simpa using ⟨hlength, .name "x"⟩)
  exact .form (by decide) (by simpa using ⟨hlength, hinner⟩)

/-- The value of the inner definition refers to the outer one, and its body does not.  A limit of four is just enough
for both. -/
theorem runTokens_twoLengths : twoItemsDatum.eval 1 0 = .ok (.array [.bool true, .bool false]) ∧
    Spells definedLengths (.binding "x" [.datum twoItemsDatum, twoLengthsTree]) ∧
    Spells (twoLengths twoItems) (twoLengthsTree.inline "x" twoItemsDatum) ∧
    Interpreter.runTokens { config := ⟨4⟩ } definedLengths =
      Interpreter.runTokens { config := ⟨4⟩ } (twoLengths twoItems) ∧
    Interpreter.runTokens { config := ⟨4⟩ } (twoLengths twoItems) = .ok (.int 4) := by
  have hv : twoItemsDatum.eval 1 0 = .ok (.array [.bool true, .bool false]) := rfl
  have hdef : Spells definedLengths (.binding "x" [.datum twoItemsDatum, twoLengthsTree]) := by decide
  have hinline : Spells (twoLengths twoItems) (twoLengthsTree.inline "x" twoItemsDatum) := by decide
  have hone : Interpreter.runTokens { config := ⟨4⟩ } definedLengths = .ok (.int 4) := rfl
  have htwo : Interpreter.runTokens { config := ⟨4⟩ } (twoLengths twoItems) = .ok (.int 4) := rfl
  refine ⟨hv, hdef, hinline, ?_, htwo⟩
  exact runTokens_inline { config := ⟨4⟩ } "x" twoItemsDatum twoLengthsTree definedLengths (twoLengths twoItems) 1 _ hv
    twoLengthsTree_grammatical hdef hinline (Interpreter.not_exceeds_of_runTokens hone)
    (Interpreter.not_exceeds_of_runTokens htwo)

end SinglePass
