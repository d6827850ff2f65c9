import SinglePass.Proofs.Acceptance
import SinglePass.Proofs.Registering

/-!
# Renaming of variables

A name behind an opening parenthesis is a callee, and every other name is a variable: it is bound by a definition or
looked up in the scope.  The variables of a token list can be renamed by any injective function, even to names of
builtins and forms, and nothing changes but the name in the report that a variable is unbound.

The machine that reads the renamed tokens is at every point the renamed machine: its scopes and binders have the new
names, and all else is the same (`Machine.Step.rename`, `Machine.Fails.rename`).  To know which names were renamed it is
enough to know that a machine expects a callee if and only if the token before was an opening parenthesis
(`Machine.mode_of_step`).
-/

namespace SinglePass

/-! ### Renamed tokens, scopes and machines -/

namespace Token

/-- The token with its name changed, unless it is a callee. -/
def renameUnless (isCallee : Bool) (r : String → String) (t : Token) : Token :=
  if t.kind = .identifier ∧ isCallee = false then { t with text := r t.text } else t

/-- Renames the variables among tokens, where the flag says that the token in front of them, blanks aside, is an
opening parenthesis. -/
def renameFrom (r : String → String) : Bool → List Token → List Token
  | _, [] => []
  | afterParen, t :: ts =>
    if t.isBlank then t :: renameFrom r afterParen ts
    else t.renameUnless afterParen r :: renameFrom r (t.kind == .openParen) ts

/-- Renames all names that do not directly follow an opening parenthesis. -/
def renameVariables (r : String → String) (ts : List Token) : List Token := renameFrom r false ts

variable {isCallee : Bool} {r : String → String} {t : Token}

@[simp]
theorem kind_renameUnless : (t.renameUnless isCallee r).kind = t.kind := by
  unfold renameUnless; split <;> rfl

@[simp]
theorem offset_renameUnless : (t.renameUnless isCallee r).offset = t.offset := by
  unfold renameUnless; split <;> rfl

theorem renameUnless_of_ne (h : t.kind ≠ .identifier) : t.renameUnless isCallee r = t := by
  rw [renameUnless, if_neg (fun hk => h hk.1)]

theorem renameUnless_callee : t.renameUnless true r = t := by
  rw [renameUnless, if_neg (by simp)]

theorem text_renameUnless (h : t.kind = .identifier) : (t.renameUnless false r).text = r t.text := by
  rw [renameUnless, if_pos ⟨h, rfl⟩]

theorem literal?_renameUnless : (t.renameUnless isCallee r).literal? = t.literal? := by
  by_cases h : t.kind = .identifier
  · simp [literal?, h]
  · rw [renameUnless_of_ne h]

end Token

/-- Inside an array literal names are errors, whatever they are. -/
theorem ArrayLiteral.step_renameUnless (opened limit : Nat) (stack : List (List Value)) (isCallee : Bool)
    (r : String → String) (t : Token) :
    step opened limit stack (t.renameUnless isCallee r) = step opened limit stack t := by
  by_cases h : t.kind = .identifier
  · simp [step, h]
  · rw [Token.renameUnless_of_ne h]

namespace Scope

def rename (r : String → String) (s : Scope) : Scope := ⟨s.bindings.map fun b => (r b.1, b.2)⟩

/-- Distinct names stay distinct, so that nothing is shadowed that was visible, and the other way round. -/
theorem lookup_rename {r : String → String} (hr : Function.Injective r) (s : Scope) (name : String) :
    (s.rename r).lookup (r name) = s.lookup name := by
  obtain ⟨bindings⟩ := s
  show (bindings.map fun b => (r b.1, b.2)).lookup (r name) = bindings.lookup name
  induction bindings with
  | nil => rfl
  | cons b bindings ih =>
    have heq : (r name == r b.1) = (name == b.1) := by
      rw [Bool.eq_iff_iff, beq_iff_eq, beq_iff_eq, hr.eq_iff]
    rw [List.map_cons, List.lookup_cons, List.lookup_cons, heq, ih]

theorem push_rename (r : String → String) (s : Scope) (name : String) (v : Value) :
    (s.push name v).rename r = (s.rename r).push (r name) v := rfl

end Scope

namespace Frame

def rename (r : String → String) (f : Frame) : Frame :=
  { f with binder := f.binder.map r, outerScope := f.outerScope.rename r }

variable (r : String → String) (f : Frame)

theorem push_rename (v : Value) : (f.push v).rename r = (f.rename r).push v := rfl

theorem argCount_rename : (f.rename r).argCount = f.argCount := by
  simp [argCount, rename]

theorem awaitsName_rename : (f.rename r).awaitsName = f.awaitsName := by
  simp [awaitsName, rename]

theorem result_rename : (f.rename r).result = f.result := by
  unfold result
  rw [argCount_rename]
  rfl

theorem scopeAfter_rename (scope : Scope) (v : Value) :
    Machine.scopeAfter (f.rename r) (scope.rename r) v = (Machine.scopeAfter f scope v).rename r := by
  have hnow : ((f.rename r).push v).bindsNow = (f.push v).bindsNow := by
    rw [← push_rename]
    simp only [bindsNow, argCount_rename]
    rfl
  unfold Machine.scopeAfter
  rw [hnow]
  cases hb : f.binder with
  | none =>
    have hb' : (f.rename r).binder = none := by simp [rename, hb]
    rw [hb']
    cases (f.push v).bindsNow <;> rfl
  | some name =>
    have hb' : (f.rename r).binder = some (r name) := by simp [rename, hb]
    rw [hb']
    cases (f.push v).bindsNow <;> rfl

end Frame

/-- The error with the name of an unbound variable changed. -/
def Error.rename (r : String → String) : Error → Error
  | .unbound name => .unbound (r name)
  | e => e

theorem Error.rename_of_ne {e : Error} (r : String → String) (h : ∀ name, e ≠ .unbound name) : e.rename r = e := by
  cases e with
  | unbound name => exact absurd rfl (h name)
  | _ => rfl

namespace Machine

def rename (r : String → String) (m : Machine) : Machine :=
  { m with frames := m.frames.map (Frame.rename r), scope := m.scope.rename r }

variable {r : String → String} {m m' : Machine} {registry : Registry} {limit : Nat} {t : Token} {isCallee : Bool}

theorem awaitsName_rename : (m.rename r).awaitsName = m.awaitsName := by
  unfold awaitsName rename
  cases m.frames with
  | nil => rfl
  | cons f rest => simp [Frame.awaitsName_rename]

theorem length_frames_rename : (m.rename r).frames.length = m.frames.length := List.length_map _

theorem frames_rename {f : Frame} {rest : List Frame} (h : m.frames = f :: rest) :
    (m.rename r).frames = f.rename r :: rest.map (Frame.rename r) := by
  simp only [rename, h, List.map_cons]

theorem receive_rename (v : Value) : (m.receive v).rename r = (m.rename r).receive v := by
  cases hf : m.frames with
  | nil =>
    have hf' : (m.rename r).frames = [] := by simp [rename, hf]
    rw [receive_of_no_frames hf, receive_of_no_frames hf']
    rfl
  | cons f rest =>
    rw [receive_of_frame hf, receive_of_frame (frames_rename hf)]
    have hscope := Frame.scopeAfter_rename r f m.scope v
    simp only [rename] at hscope ⊢
    rw [hscope]
    rfl

/-! ### One token -/

/-- A callee is expected after an opening parenthesis and nowhere else. -/
theorem mode_of_step (hw : t.kind ≠ .whitespace) (h : Step registry limit m t m') :
    m'.mode = .callee ↔ t.kind = .openParen := by
  have hitem : ∀ {stack : List (List Value)} {progress : ArrayLiteral.Progress},
      ArrayLiteral.step m.frames.length limit stack t = .ok progress → t.kind ≠ .openParen := by
    intro stack progress hs hk
    simp [ArrayLiteral.step, hk] at hs
  cases h with
  | blank hk => exact absurd hk hw
  | enter _ hk _ => simp [hk]
  | item _ _ hs => simp [hitem hs]
  | closeArray _ _ hs => simp [hitem hs]
  | takeName hm _ _ hk => simp [hm, hk]
  | openParen _ _ hk _ => simp [hk]
  | openBracket _ _ hk _ => simp [hk]
  | name hm _ hk _ => simp [hm, hk]
  | literal hm _ hl =>
    have hk : t.kind ≠ .openParen := by
      intro hk
      simp [Token.literal?, hk] at hl
    simp [hm, hk]
  | close hm hk _ _ => simp [hm, hk]

/-- A flag that is set if and only if a callee is expected. -/
private theorem isCallee_eq_false (hc : isCallee = true ↔ m.mode = .callee) (hm : m.mode ≠ .callee) :
    isCallee = false := by
  rw [← Bool.not_eq_true, hc]
  exact hm

/-- The renamed machine takes the renamed token. -/
theorem Step.rename (hr : Function.Injective r) (hc : isCallee = true ↔ m.mode = .callee)
    (h : Step registry limit m t m') :
    Step registry limit (m.rename r) (t.renameUnless isCallee r) (m'.rename r) := by
  have hvariable : m.mode = .operand → isCallee = false := fun hm => isCallee_eq_false hc (by simp [hm])
  cases h with
  | blank hk => exact .blank (by simpa using hk)
  | enter hm hk hres =>
    obtain rfl := hc.2 hm
    rw [Token.renameUnless_callee]
    exact .enter (m := m.rename r) hm hk hres
  | item hm hw hs =>
    refine .item (m := m.rename r) hm (by simpa using hw) ?_
    rw [ArrayLiteral.step_renameUnless, length_frames_rename]
    exact hs
  | @closeArray stack v hm hw hs =>
    rw [receive_rename]
    refine .closeArray (m := m.rename r) hm (by simpa using hw) ?_
    rw [ArrayLiteral.step_renameUnless, length_frames_rename]
    exact hs
  | @takeName f rest hm hf ha hk =>
    obtain rfl := hvariable hm
    have hstep : Step registry limit (m.rename r) (t.renameUnless false r) _ :=
      .takeName hm (frames_rename hf) ((f.awaitsName_rename r).trans ha) (by simpa using hk)
    rw [Token.text_renameUnless hk] at hstep
    exact hstep
  | openParen hm ha hk hl =>
    exact .openParen (m := m.rename r) hm (awaitsName_rename.trans ha) (by simpa using hk)
      (by rwa [length_frames_rename])
  | openBracket hm ha hk hl =>
    exact .openBracket (m := m.rename r) hm (awaitsName_rename.trans ha) (by simpa using hk)
      (by rwa [length_frames_rename])
  | name hm ha hk hv =>
    obtain rfl := hvariable hm
    rw [receive_rename]
    refine .name (m := m.rename r) hm (awaitsName_rename.trans ha) (by simpa using hk) ?_
    rw [Token.text_renameUnless hk]
    exact (m.scope.lookup_rename hr t.text).trans hv
  | literal hm ha hl =>
    rw [receive_rename]
    exact .literal (m := m.rename r) hm (awaitsName_rename.trans ha) (Token.literal?_renameUnless.trans hl)
  | @close f rest v hm hk hf hv =>
    rw [receive_rename]
    exact .close (m := m.rename r) hm (by simpa using hk) (frames_rename hf) ((f.result_rename r).trans hv)

/-- The renamed machine fails at the renamed token, provided that no frame reports an unbound variable. -/
theorem Fails.rename (hr : Function.Injective r) (hc : isCallee = true ↔ m.mode = .callee) {e : Error}
    (hframe : ∀ f rest name, m.mode = .operand → m.frames = f :: rest → f.result ≠ .error (.unbound name))
    (h : Fails registry limit m t e) :
    Fails registry limit (m.rename r) (t.renameUnless isCallee r) (e.rename r) := by
  have hvariable : m.mode = .operand → isCallee = false := fun hm => isCallee_eq_false hc (by simp [hm])
  cases h with
  | noCallee hm hw hk =>
    rw [Token.renameUnless_of_ne hk]
    exact .noCallee (m := m.rename r) hm hw hk
  | unknownCallee hm hk hres =>
    obtain rfl := hc.2 hm
    rw [Token.renameUnless_callee]
    exact .unknownCallee (m := m.rename r) hm hk hres
  | @item stack _ hm hw hs =>
    have he : ∀ name, e ≠ .unbound name := by
      rintro name rfl
      rcases arrayStep_eq_error hs with ⟨-, -, he⟩ | ⟨-, he⟩ | ⟨-, he⟩ | ⟨-, he⟩ | ⟨-, he⟩ <;> cases he
    rw [Error.rename_of_ne r he]
    refine .item (m := m.rename r) hm (by simpa using hw) ?_
    rw [ArrayLiteral.step_renameUnless, length_frames_rename]
    exact hs
  | noBinder hm ha hw hcl hk =>
    rw [Token.renameUnless_of_ne hk]
    exact .noBinder (m := m.rename r) hm (awaitsName_rename.trans ha) hw hcl hk
  | tooDeep hm ha hk hl =>
    exact .tooDeep (m := m.rename r) hm (awaitsName_rename.trans ha) (by simpa using hk)
      (by rwa [length_frames_rename])
  | strayBracket hm ha hk =>
    rw [Token.renameUnless_of_ne (by simp [hk])]
    exact .strayBracket (m := m.rename r) hm (awaitsName_rename.trans ha) hk
  | unbound hm ha hk hv =>
    obtain rfl := hvariable hm
    have hfails : Fails registry limit (m.rename r) (t.renameUnless false r)
        (.unbound (t.renameUnless false r).text) := by
      refine .unbound hm (awaitsName_rename.trans ha) (by simpa using hk) ?_
      rw [Token.text_renameUnless hk]
      exact (m.scope.lookup_rename hr t.text).trans hv
    rw [Token.text_renameUnless hk] at hfails
    exact hfails
  | literal hm ha hl =>
    obtain rfl := literal?_eq_error hl
    exact .literal (m := m.rename r) hm (awaitsName_rename.trans ha) (Token.literal?_renameUnless.trans hl)
  | unbalanced hm hk hf =>
    exact .unbalanced (m := m.rename r) hm (by simpa using hk) (by simp [Machine.rename, hf])
  | @result f rest _ hm hk hf hv =>
    have he : ∀ name, e ≠ .unbound name := by
      rintro name rfl
      exact hframe f rest name hm hf hv
    rw [Error.rename_of_ne r he]
    exact .result (m := m.rename r) hm (by simpa using hk) (frames_rename hf) ((f.result_rename r).trans hv)

end Machine

/-! ### Whole runs -/

/-- A variable was found unbound. -/
def Error.IsUnbound (e : Error) : Prop := ∃ name, e = .unbound name

theorem Error.IsUnbound.category {e : Error} (h : e.IsUnbound) : e.category = .eval := by
  obtain ⟨name, rfl⟩ := h
  rfl

theorem Standard.avoids_unbound : Standard.registry.Avoids Error.IsUnbound := by
  refine avoids fun e he hf => ?_
  rcases hf with hc | ⟨name, hn⟩
  · rw [he.category] at hc
    cases hc
  · obtain ⟨name', rfl⟩ := he
    cases hn

namespace Machine

variable {r : String → String} {m : Machine} {registry : Registry} {limit : Nat}

theorem result_ne_unbound (hreg : registry.Avoids Error.IsUnbound) {us : List Token}
    (hrun : (run registry limit .start us).result = .ok m) {f : Frame} {rest : List Frame} {name : String}
    (hm : m.mode = .operand) (hf : m.frames = f :: rest) : f.result ≠ .error (.unbound name) := by
  intro h
  exact Frame.not_of_result hreg (fun e he => by simp [he.category]) (resolved_of_run hrun hm hf) h ⟨name, rfl⟩

/-- From every machine that is reached, the run over the renamed tokens is the renamed run. -/
theorem result_run_rename (hreg : registry.Avoids Error.IsUnbound) (hr : Function.Injective r) {us ts : List Token}
    (hrun : (run registry limit .start us).result = .ok m) {afterParen : Bool}
    (hc : afterParen = true ↔ m.mode = .callee) :
    (run registry limit (m.rename r) (Token.renameFrom r afterParen ts)).result =
      ((run registry limit m ts).result.map (Machine.rename r)).mapError (Error.rename r) := by
  induction ts generalizing us m afterParen with
  | nil => rfl
  | cons t ts ih =>
    unfold Token.renameFrom
    by_cases hw : t.kind = .whitespace
    · rw [if_pos (by simp [Token.isBlank, hw]), result_run_cons, result_run_cons, result_step_blank hw,
        result_step_blank hw, ok_bind, ok_bind]
      exact ih (result_run_concat hrun (.blank hw)) hc
    rw [if_neg (by simp [Token.isBlank, hw]), result_run_cons, result_run_cons]
    cases hstep : (step registry limit m t).result with
    | error e =>
      have hfails := (step_eq_error_iff.1 hstep).rename hr hc fun f rest name => result_ne_unbound hreg hrun
      rw [step_eq_error_iff.2 hfails]
      rfl
    | ok m' =>
      have hs := step_eq_ok_iff.1 hstep
      rw [step_eq_ok_iff.2 (hs.rename hr hc), ok_bind, ok_bind]
      refine ih (result_run_concat hrun hs) ?_
      rw [beq_iff_eq, mode_of_step hw hs]

theorem outcome_rename : (m.rename r).outcome = m.outcome.mapError (Error.rename r) := by
  have houtcome : (m.rename r).outcome = m.outcome := by
    simp only [outcome, depth, length_frames_rename]
    rfl
  rw [houtcome]
  rcases m.outcome_cases with ⟨-, -, ho⟩ | ho | ⟨depth, ho⟩
  · rw [ho]
    split <;> rfl
  · rw [ho]
    rfl
  · rw [ho]
    rfl

end Machine

/-- Variables can be renamed.  Renaming all names that are not callees by an injective function, to names of builtins
and forms or from such names as well, changes nothing but the name of the variable that is reported as unbound. -/
theorem runTokens_renameVariables (config : Config) (r : String → String) (hr : Function.Injective r)
    (ts : List Token) :
    Interpreter.runTokens { config := config } (Token.renameVariables r ts) =
      (Interpreter.runTokens { config := config } ts).mapError (Error.rename r) := by
  have hstart : (Machine.run Standard.registry config.limit.toNat .start []).result = .ok .start := rfl
  have hrun : (Machine.run Standard.registry config.limit.toNat .start (Token.renameVariables r ts)).result =
      ((Machine.run Standard.registry config.limit.toNat .start ts).result.map (Machine.rename r)).mapError
        (Error.rename r) :=
    Machine.result_run_rename Standard.avoids_unbound hr hstart (by simp [Machine.start])
  rw [Interpreter.runTokens_eq, Interpreter.runTokens_eq, hrun]
  cases (Machine.run Standard.registry config.limit.toNat .start ts).result with
  | error e => rfl
  | ok m => exact Machine.outcome_rename

/-- The tokens of `(def x "a" (length x))`, with names for the variable and its use. -/
private def lengthOf (bound used : String) : List Token :=
  [⟨.openParen, "(", 0⟩, ⟨.identifier, "def", 1⟩, ⟨.identifier, bound, 5⟩, ⟨.string, "\"a\"", 7⟩, ⟨.openParen, "(", 11⟩,
    ⟨.whitespace, " ", 12⟩, ⟨.identifier, "length", 13⟩, ⟨.identifier, used, 20⟩, ⟨.closeParen, ")", 21⟩,
    ⟨.closeParen, ")", 22⟩]

/-- The variable takes the name of the builtin that is called with it, which then is the name of an unbound one. -/
theorem runTokens_swap_length : Function.Injective (Equiv.swap "x" "length") ∧
    Token.renameVariables (Equiv.swap "x" "length") (lengthOf "x" "x") = lengthOf "length" "length" ∧
    Interpreter.runTokens {} (lengthOf "length" "length") = .ok (.int 1) ∧
    Token.renameVariables (Equiv.swap "x" "length") (lengthOf "y" "x") = lengthOf "y" "length" ∧
    Interpreter.runTokens {} (lengthOf "y" "length") = .error (.unbound "length") := by
  have hinjective := (Equiv.swap "x" "length").injective
  have hbound : Token.renameVariables (Equiv.swap "x" "length") (lengthOf "x" "x") = lengthOf "length" "length" := by
    decide
  have hunbound : Token.renameVariables (Equiv.swap "x" "length") (lengthOf "y" "x") = lengthOf "y" "length" := by
    decide
  refine ⟨hinjective, hbound, ?_, hunbound, ?_⟩
  · rw [← hbound]
    exact (runTokens_renameVariables {} _ hinjective (lengthOf "x" "x")).trans rfl
  · rw [← hunbound]
    exact (runTokens_renameVariables {} _ hinjective (lengthOf "y" "x")).trans rfl

end SinglePass
