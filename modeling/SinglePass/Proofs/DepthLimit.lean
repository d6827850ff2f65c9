import SinglePass.Proofs.Acceptance
import SinglePass.Proofs.Registering

/-!
# The depth limit

Parentheses and brackets share one limit, which is checked where a parenthesis is opened, where an array literal begins
and where a bracket is opened inside of one.  The number of open parentheses and brackets is the same at all three
places: it is the number of those opened by the tokens read so far, less those closed (`Balanced`).

Two machines with different limits therefore take the same steps for as long as both limits have room
(`result_run_eq_or`), so that a run under a limit either fails because of it, at a token that the run without a limit
takes, or does not differ from that run at all.
-/

namespace SinglePass

/-! ### Opening and closing tokens -/

namespace Token

def Kind.isOpening : Kind → Bool
  | .openParen | .openBracket => true
  | _ => false

def Kind.isClosing : Kind → Bool
  | .closeParen | .closeBracket => true
  | _ => false

/-- The number of parentheses and brackets that tokens open. -/
def openings (ts : List Token) : Nat := ts.countP fun t => t.kind.isOpening

/-- The number of parentheses and brackets that tokens close. -/
def closings (ts : List Token) : Nat := ts.countP fun t => t.kind.isClosing

theorem openings_concat (ts : List Token) (t : Token) :
    openings (ts ++ [t]) = openings ts + if t.kind.isOpening then 1 else 0 := by
  simp [openings, List.countP_append, List.countP_singleton]

theorem closings_concat (ts : List Token) (t : Token) :
    closings (ts ++ [t]) = closings ts + if t.kind.isClosing then 1 else 0 := by
  simp [closings, List.countP_append, List.countP_singleton]

theorem Kind.isOpening_of_eq {kind : Kind} (h : kind = .openParen ∨ kind = .openBracket) :
    kind.isOpening ∧ kind.isClosing = false := by
  rcases h with rfl | rfl <;> exact ⟨rfl, rfl⟩

theorem Kind.isOpening_of_isLiteral {kind : Kind} (h : kind.isLiteral) :
    kind.isOpening = false ∧ kind.isClosing = false := by
  cases kind <;> simp [isLiteral, isOpening, isClosing] at h ⊢

end Token

namespace Machine

/-! ### Nesting -/

/-- The number of open parentheses and brackets. -/
def nesting (m : Machine) : Nat :=
  match m.mode with
  | .array stack => m.depth + stack.length
  | _ => m.depth

theorem nesting_of_operand {m : Machine} (h : m.mode = .operand) : m.nesting = m.frames.length := by
  simp [nesting, h, depth]

theorem nesting_of_callee {m : Machine} (h : m.mode = .callee) : m.nesting = m.frames.length + 1 := by
  simp [nesting, h, depth]

theorem nesting_of_array {m : Machine} {stack : List (List Value)} (h : m.mode = .array stack) :
    m.nesting = m.frames.length + stack.length := by
  simp [nesting, h, depth]

theorem length_frames_receive (m : Machine) (v : Value) : (m.receive v).frames.length = m.frames.length := by
  cases hf : m.frames with
  | nil => rw [receive_of_no_frames hf]; simp [hf]
  | cons f rest => rw [receive_of_frame hf]; simp

/-- The machine has read these tokens under a limit. -/
structure Balanced (limit : Nat) (ts : List Token) (m : Machine) : Prop where
  openings_eq : Token.openings ts = Token.closings ts + m.nesting
  nesting_le : m.nesting ≤ limit
  /-- An array literal that is being read has an open bracket. -/
  stack_ne_nil : ∀ stack, m.mode = .array stack → stack ≠ []

namespace Balanced

variable {registry : Registry} {limit : Nat} {ts : List Token} {m m' : Machine} {t : Token}

theorem start (limit : Nat) : Balanced limit [] .start where
  openings_eq := rfl
  nesting_le := Nat.zero_le limit
  stack_ne_nil := fun _ h => nomatch h

theorem concat (h : Balanced limit ts m) (hroom : t.kind.isOpening → m.nesting < limit)
    (hn : m'.nesting + (if t.kind.isClosing then 1 else 0) = m.nesting + if t.kind.isOpening then 1 else 0)
    (hs : ∀ stack, m'.mode = .array stack → stack ≠ []) : Balanced limit (ts ++ [t]) m' := by
  have heq := h.openings_eq
  have hle := h.nesting_le
  refine ⟨?_, ?_, hs⟩
  · rw [Token.openings_concat, Token.closings_concat]
    omega
  · by_cases ho : t.kind.isOpening = true
    · have hlt := hroom ho
      rw [if_pos ho] at hn
      omega
    · rw [if_neg ho] at hn
      omega

/-- A value that is received opens and closes nothing by itself. -/
theorem concat_receive (h : Balanced limit ts m) (ho : t.kind.isOpening = false) (hm : m'.mode = .operand)
    (hn : m'.frames.length + (if t.kind.isClosing then 1 else 0) = m.nesting) (v : Value) :
    Balanced limit (ts ++ [t]) (m'.receive v) := by
  have hmode : (m'.receive v).mode = .operand := by rw [mode_receive, hm]
  refine h.concat (by simp [ho]) ?_ ?_
  · rw [nesting_of_operand hmode, length_frames_receive, hn, ho]
    rfl
  · intro stack hstack
    rw [hmode] at hstack
    cases hstack

/-- A bracket inside an array literal opens a list or closes one. -/
theorem concat_item {stack stack' : List (List Value)} (h : Balanced limit ts m) (hm : m.mode = .array stack)
    (hw : t.kind ≠ .whitespace) (hstep : ArrayLiteral.step m.frames.length limit stack t = .ok (.unfinished stack')) :
    Balanced limit (ts ++ [t]) { m with mode := .array stack' } := by
  have hne := h.stack_ne_nil stack hm
  have hpos := List.length_pos_of_ne_nil hne
  have hn := nesting_of_array hm
  have hn' : { m with mode := .array stack' }.nesting = m.frames.length + stack'.length := nesting_of_array rfl
  have hne' : 0 < stack'.length → ∀ s, Mode.array stack' = .array s → s ≠ [] := by
    intro hlen s hs
    cases hs
    exact List.ne_nil_of_length_pos hlen
  rcases arrayStep_unfinished hw hne hstep with ⟨hk, hroom, hlen⟩ | ⟨hk, hlen', hlen⟩ | ⟨hk, hlen⟩
  · refine h.concat (fun _ => by omega) ?_ (hne' (by omega))
    simp only [hk, Token.Kind.isOpening, Token.Kind.isClosing, Bool.false_eq_true, ↓reduceIte]
    omega
  · refine h.concat (by simp [hk, Token.Kind.isOpening]) ?_ (hne' hlen')
    simp only [hk, Token.Kind.isOpening, Token.Kind.isClosing, Bool.false_eq_true, ↓reduceIte]
    omega
  · obtain ⟨ho, hc⟩ := Token.Kind.isOpening_of_isLiteral hk
    refine h.concat (by simp [ho]) ?_ (hne' (by omega))
    rw [ho, hc, hn, hn', hlen]

theorem step (h : Balanced limit ts m) (hs : Step registry limit m t m') : Balanced limit (ts ++ [t]) m' := by
  cases hs with
  | blank hk =>
    exact h.concat (by simp [hk, Token.Kind.isOpening]) (by simp [hk, Token.Kind.isOpening, Token.Kind.isClosing])
      h.stack_ne_nil
  | enter hm hk _ =>
    refine h.concat (by simp [hk, Token.Kind.isOpening]) ?_ (fun _ hs => nomatch hs)
    rw [nesting_of_callee hm, nesting_of_operand rfl]
    simp [hk, Token.Kind.isOpening, Token.Kind.isClosing]
  | item hm hw hstep => exact h.concat_item hm hw hstep
  | @closeArray stack v hm _ hstep =>
    obtain ⟨hk, hlen⟩ := arrayStep_finished (h.stack_ne_nil stack hm) hstep
    refine h.concat_receive (by simp [hk, Token.Kind.isOpening]) rfl ?_ v
    rw [nesting_of_array hm, hlen]
    simp [hk, Token.Kind.isClosing]
  | @takeName f rest hm hf _ hk =>
    refine h.concat (by simp [hk, Token.Kind.isOpening]) ?_ ?_
    · rw [nesting_of_operand hm, nesting_of_operand (by exact hm), hf]
      simp [hk, Token.Kind.isOpening, Token.Kind.isClosing]
    · intro stack hstack
      exact h.stack_ne_nil stack hstack
  | openParen hm _ hk hl =>
    have hn := nesting_of_operand hm
    refine h.concat (fun _ => by omega) ?_ (fun _ hs => nomatch hs)
    rw [hn, nesting_of_callee rfl]
    simp [hk, Token.Kind.isOpening, Token.Kind.isClosing]
  | openBracket hm _ hk hl =>
    have hn := nesting_of_operand hm
    refine h.concat (fun _ => by omega) ?_ ?_
    · rw [hn, nesting_of_array rfl]
      simp [hk, Token.Kind.isOpening, Token.Kind.isClosing]
    · intro stack hstack
      cases hstack
      simp
  | @name v hm _ hk _ =>
    exact h.concat_receive (by simp [hk, Token.Kind.isOpening]) hm
      (by simp [hk, Token.Kind.isClosing, nesting_of_operand hm]) v
  | @literal v hm _ hv =>
    have hlit := literal?_isSome_iff.1 (Option.isSome_of_eq_some hv)
    obtain ⟨ho, hc⟩ := Token.Kind.isOpening_of_isLiteral hlit
    exact h.concat_receive ho hm (by simp [hc, nesting_of_operand hm]) v
  | @close f rest v hm hk hf _ =>
    refine h.concat_receive (by simp [hk, Token.Kind.isOpening]) (by exact hm) ?_ v
    rw [nesting_of_operand hm, hf]
    simp [hk, Token.Kind.isClosing]

end Balanced

section

variable {registry : Registry} {limit unreachable : Nat} {m : Machine} {t : Token}

theorem balanced_of_run {ts : List Token} (h : (run registry limit .start ts).result = .ok m) : Balanced limit ts m :=
  reached_induction (P := Balanced limit) (.start limit) (fun _ _ _ _ hm hs => hm.step hs) h

/-! ### Two limits -/

theorem requireRoom_eq_or (limit : Nat) {opened : Nat} (h : opened < unreachable) :
    requireRoom opened limit = .error (.tooDeep limit) ∨ requireRoom opened limit = requireRoom opened unreachable := by
  by_cases hl : limit ≤ opened
  · left
    rw [requireRoom, if_pos hl]
  · right
    rw [requireRoom_of_lt h, requireRoom_of_lt (by omega)]

theorem arrayStep_eq_or (limit : Nat) {opened : Nat} {stack : List (List Value)} (t : Token)
    (h : opened + stack.length < unreachable) :
    ArrayLiteral.step opened limit stack t = .error (.tooDeep limit) ∨
      ArrayLiteral.step opened limit stack t = ArrayLiteral.step opened unreachable stack t := by
  by_cases hk : t.kind = .openBracket
  · simp only [ArrayLiteral.step, hk]
    rcases requireRoom_eq_or limit h with hr | hr
    · left
      rw [hr]
      rfl
    · right
      rw [hr]
  · right
    unfold ArrayLiteral.step
    cases hkind : t.kind <;> first | exact absurd hkind hk | rfl

/-- Where one limit has room, a step under another one either fails because of it or is the same. -/
theorem result_step_eq_or (limit : Nat) (t : Token) (h : m.nesting < unreachable) :
    (step registry limit m t).result = .error (.tooDeep limit) ∨
      (step registry limit m t).result = (step registry unreachable m t).result := by
  by_cases hw : t.kind = .whitespace
  · right
    rw [result_step_blank hw, result_step_blank hw]
  cases hm : m.mode with
  | callee =>
    right
    simp only [step, hm]
  | array stack =>
    rw [nesting_of_array hm] at h
    rw [result_step_array hm hw, result_step_array hm hw]
    rcases arrayStep_eq_or limit t h with hs | hs
    · left
      rw [hs]
      rfl
    · right
      rw [hs]
  | operand =>
    rw [nesting_of_operand hm] at h
    by_cases ha : t.kind ≠ .closeParen ∧ m.awaitsName = true
    · right
      simp only [step, hm, ha, ne_eq, not_false_eq_true, and_self, ↓reduceIte]
    · have hna : t.kind = .closeParen ∨ m.awaitsName = false := by
        by_cases hc : t.kind = .closeParen
        · exact .inl hc
        · right
          simpa [hc] using ha
      rw [result_step_operand hm hw hna, result_step_operand hm hw hna]
      simp only [readOperand, depth_of_operand hm]
      rcases requireRoom_eq_or limit h with hr | hr
      · rw [hr]
        cases t.kind with
        | openParen | openBracket => exact .inl rfl
        | closeParen | closeBracket | identifier | whitespace | string | int | float | bool => exact .inr rfl
      · right
        rw [hr]

/-- Where one limit has room for all tokens, a run under another one either fails because of it or is the same. -/
theorem result_run_eq_or (registry : Registry) {us ts : List Token} (hm : Balanced limit us m)
    (h : m.nesting + ts.length ≤ unreachable) :
    (run registry limit m ts).result = .error (.tooDeep limit) ∨
      (run registry limit m ts).result = (run registry unreachable m ts).result := by
  induction ts generalizing us m with
  | nil => exact .inr rfl
  | cons t ts ih =>
    rw [List.length_cons] at h
    rw [result_run_cons, result_run_cons]
    have hroom : m.nesting < unreachable := by omega
    rcases result_step_eq_or limit t hroom with hs | hs
    · left
      rw [hs]
      rfl
    · rw [← hs]
      cases hstep : (step registry limit m t).result with
      | error e => exact .inr rfl
      | ok m' =>
        have hm' : Balanced limit (us ++ [t]) m' := hm.step (step_eq_ok_iff.1 hstep)
        have hgrow : m'.nesting ≤ m.nesting + 1 := by
          have hold := hm.openings_eq
          have hnew := hm'.openings_eq
          rw [Token.openings_concat, Token.closings_concat] at hnew
          have hone : (if t.kind.isOpening then 1 else 0) ≤ 1 := by split <;> omega
          omega
        exact ih hm' (by omega)

/-! ### Where a limit is exceeded -/

end

end Machine

/-- The nesting was found too deep for some limit. -/
def Error.IsTooDeep (e : Error) : Prop := ∃ limit, e = .tooDeep limit

theorem Error.IsTooDeep.category {e : Error} (h : e.IsTooDeep) : e.category = .eval := by
  obtain ⟨limit, rfl⟩ := h
  rfl

theorem Standard.avoids_tooDeep : Standard.registry.Avoids Error.IsTooDeep := by
  refine avoids fun e he hf => ?_
  rcases hf with hc | ⟨name, hn⟩
  · rw [he.category] at hc
    cases hc
  · obtain ⟨limit, rfl⟩ := he
    cases hn

namespace Machine

section

variable {registry : Registry} {limit unreachable : Nat} {m : Machine} {t : Token}

theorem arrayStep_eq_tooDeep {opened deep : Nat} {stack : List (List Value)}
    (h : ArrayLiteral.step opened limit stack t = .error (.tooDeep deep)) :
    t.kind = .openBracket ∧ limit ≤ opened + stack.length := by
  rcases arrayStep_eq_error h with ⟨hk, hl, -⟩ | ⟨-, he⟩ | ⟨-, he⟩ | ⟨-, he⟩ | ⟨-, he⟩
  · exact ⟨hk, hl⟩
  all_goals cases he

/-- A reached machine exceeds its limit only at a token that opens something, and that token is taken wherever there is
room for it. -/
theorem opens_of_tooDeep {ts : List Token} {deep : Nat} (hreg : registry.Avoids Error.IsTooDeep)
    (hrun : (run registry limit .start ts).result = .ok m) (h : Fails registry limit m t (.tooDeep deep)) :
    t.kind.isOpening ∧ t.kind.isClosing = false ∧ limit ≤ m.nesting ∧
      ∀ unreachable, m.nesting < unreachable → ∃ m', Step registry unreachable m t m' := by
  -- `cases` needs a variable in the place of the error
  generalize he : Error.tooDeep deep = e at h
  cases h with
  | @item stack _ hm hw hs =>
    subst he
    obtain ⟨hk, hl⟩ := arrayStep_eq_tooDeep hs
    obtain ⟨hopens, hcloses⟩ := Token.Kind.isOpening_of_eq (.inr hk)
    have hn := nesting_of_array hm
    refine ⟨hopens, hcloses, by omega, fun unreachable hu => ?_⟩
    have hstep : ArrayLiteral.step m.frames.length unreachable stack t = .ok (.unfinished ([] :: stack)) := by
      simp only [ArrayLiteral.step, hk]
      rw [requireRoom_of_lt (by omega)]
      rfl
    exact ⟨_, .item hm hw hstep⟩
  | tooDeep hm ha hk hl =>
    obtain ⟨hopens, hcloses⟩ := Token.Kind.isOpening_of_eq hk
    have hn := nesting_of_operand hm
    refine ⟨hopens, hcloses, by omega, fun unreachable hu => ?_⟩
    rcases hk with hk | hk
    · exact ⟨_, .openParen hm ha hk (by omega)⟩
    · exact ⟨_, .openBracket hm ha hk (by omega)⟩
  | literal _ _ hl =>
    rw [literal?_eq_error hl] at he
    cases he
  | @result f rest _ hm _ hf hv =>
    subst he
    exact absurd ⟨deep, rfl⟩
      (Frame.not_of_result hreg (fun e he => by simp [he.category]) (resolved_of_run hrun hm hf) hv)
  | noCallee | unknownCallee | noBinder | strayBracket | unbound | unbalanced => cases he

/-- A run exceeds its limit if and only if some beginning of the tokens, all of which an unlimited run takes, leaves
more parentheses and brackets open than the limit allows. -/
theorem result_run_eq_tooDeep_iff {ts : List Token} (hreg : registry.Avoids Error.IsTooDeep)
    (hu : ts.length ≤ unreachable) :
    (run registry limit .start ts).result = .error (.tooDeep limit) ↔
      ∃ p, p <+: ts ∧ limit + Token.closings p < Token.openings p ∧
        ∃ m, (run registry unreachable .start p).result = .ok m := by
  constructor
  · intro h
    obtain ⟨us, t, vs, m, rfl, hrun, hfails⟩ := fails_of_run h
    obtain ⟨ho, hc, hl, htake⟩ := opens_of_tooDeep hreg hrun hfails
    have hbal := balanced_of_run hrun
    have heq := hbal.openings_eq
    rw [List.length_append, List.length_cons] at hu
    -- the unlimited run is in the same state before the token
    have hrun' : (run registry unreachable .start us).result = .ok m := by
      have hstart : Machine.start.nesting + us.length ≤ unreachable := by
        have : Machine.start.nesting = 0 := rfl
        omega
      rcases result_run_eq_or registry (.start limit) hstart with hd | hd
      · rw [hrun] at hd
        cases hd
      · rw [← hd, hrun]
    have hroom : m.nesting < unreachable := by
      have hcount : Token.openings us ≤ us.length := List.countP_le_length
      omega
    obtain ⟨m', hstep⟩ := htake unreachable hroom
    refine ⟨us ++ [t], ?_, ?_, m', ?_⟩
    · exact ⟨vs, by simp⟩
    · rw [Token.openings_concat, Token.closings_concat, if_pos ho, if_neg (by simp [hc])]
      omega
    · rw [result_run_append, hrun', ok_bind, result_run_cons, step_eq_ok_iff.2 hstep]
      rfl
  · rintro ⟨p, ⟨rest, rfl⟩, hlt, m, hrun⟩
    rw [List.length_append] at hu
    have hstart : Machine.start.nesting + p.length ≤ unreachable := by
      have : Machine.start.nesting = 0 := rfl
      omega
    rcases result_run_eq_or registry (.start limit) hstart with hd | hd
    · rw [result_run_append, hd]
      rfl
    · -- under the limit nothing is nested so deep
      rw [hrun] at hd
      have hbal := balanced_of_run hd
      have heq := hbal.openings_eq
      have hle := hbal.nesting_le
      omega

theorem result_run_nonBlank (registry : Registry) (limit : Nat) (m : Machine) (ts : List Token) :
    (run registry limit m (Token.nonBlank ts)).result = (run registry limit m ts).result := by
  induction ts generalizing m with
  | nil => rfl
  | cons t ts ih =>
    by_cases hk : t.kind = .whitespace
    · have hb : Token.nonBlank (t :: ts) = Token.nonBlank ts := by simp [Token.nonBlank, Token.isBlank, hk]
      rw [hb, ih, result_run_cons, result_step_blank hk, ok_bind]
    · have hb : Token.nonBlank (t :: ts) = t :: Token.nonBlank ts := by simp [Token.nonBlank, Token.isBlank, hk]
      rw [hb, result_run_cons, result_run_cons]
      exact bind_congr fun m' => ih m'

theorem outcome_ne_tooDeep (m : Machine) (deep : Nat) : m.outcome ≠ .error (.tooDeep deep) := by
  intro h
  rcases error_of_outcome h with he | ⟨_, he⟩ | he | ⟨_, he⟩ <;> cases he

end

/-- The outcome of a run under a limit of any size. -/
def evaluate (registry : Registry) (limit : Nat) (ts : List Token) : Except Error Value :=
  (run registry limit .start ts).result >>= outcome

end Machine

theorem Interpreter.runTokens_eq_evaluate (i : Interpreter) (ts : List Token) :
    i.runTokens ts = Machine.evaluate i.registry i.config.limit.toNat ts := i.runTokens_eq ts

/-- The limit is exact and has no other effect.  An evaluation fails because of its limit if and only if some beginning
of the tokens leaves more parentheses and brackets open than the limit allows, and without a limit all tokens of that
beginning would have been taken.  In every other case the result is that of the evaluation without a limit, where a
limit of at least the number of tokens is as good as none. -/
theorem runTokens_limit (i : Interpreter) (ts : List Token) (unreachable : Nat)
    (hreg : i.registry.Avoids Error.IsTooDeep) (hu : (Token.nonBlank ts).length ≤ unreachable) :
    (i.runTokens ts = .error (.tooDeep i.config.limit.toNat) ↔
      ∃ p, p <+: Token.nonBlank ts ∧ i.config.limit.toNat + Token.closings p < Token.openings p ∧
        ∃ m, (Machine.run i.registry unreachable .start p).result = .ok m) ∧
    (i.runTokens ts ≠ .error (.tooDeep i.config.limit.toNat) →
      i.runTokens ts = Machine.evaluate i.registry unreachable ts) := by
  have hbal := Machine.Balanced.start i.config.limit.toNat
  have hroom : Machine.start.nesting + (Token.nonBlank ts).length ≤ unreachable := by
    have : Machine.start.nesting = 0 := rfl
    omega
  have hruns := Machine.result_run_eq_or i.registry hbal hroom
  rw [Machine.result_run_nonBlank, Machine.result_run_nonBlank] at hruns
  have hiff : i.runTokens ts = .error (.tooDeep i.config.limit.toNat) ↔
      (Machine.run i.registry i.config.limit.toNat .start ts).result = .error (.tooDeep i.config.limit.toNat) := by
    rw [i.runTokens_eq, bind_eq_error_iff]
    constructor
    · rintro (h | ⟨m, -, h⟩)
      · exact h
      · exact absurd h (m.outcome_ne_tooDeep _)
    · exact .inl
  constructor
  · rw [hiff, ← Machine.result_run_nonBlank]
    exact Machine.result_run_eq_tooDeep_iff hreg hu
  · intro hne
    rw [Ne, hiff] at hne
    rw [i.runTokens_eq_evaluate, Machine.evaluate, Machine.evaluate, hruns.resolve_left hne]

/-- The tokens of `(length [[true]])`. -/
private def lengthOfNested : List Token :=
  [⟨.openParen, "(", 0⟩, ⟨.identifier, "length", 1⟩, ⟨.whitespace, " ", 7⟩, ⟨.openBracket, "[", 8⟩,
    ⟨.openBracket, "[", 9⟩, ⟨.bool, "true", 10⟩, ⟨.closeBracket, "]", 14⟩, ⟨.closeBracket, "]", 15⟩,
    ⟨.closeParen, ")", 16⟩]

/-- The parenthesis and the two brackets are one too many for a limit of two, and a limit of three is as good as
none. -/
theorem runTokens_lengthOfNested : (Token.nonBlank lengthOfNested).length ≤ 8 ∧
    Interpreter.runTokens { config := ⟨2⟩ } lengthOfNested = .error (.tooDeep 2) ∧
    Interpreter.runTokens { config := ⟨3⟩ } lengthOfNested = Machine.evaluate Standard.registry 8 lengthOfNested ∧
    Machine.evaluate Standard.registry 8 lengthOfNested = .ok (.int 1) := by
  have hu : (Token.nonBlank lengthOfNested).length ≤ 8 := by decide
  have htwo := runTokens_limit { config := ⟨2⟩ } lengthOfNested 8 Standard.avoids_tooDeep hu
  have hthree := runTokens_limit { config := ⟨3⟩ } lengthOfNested 8 Standard.avoids_tooDeep hu
  refine ⟨hu, htwo.1.2 ?_, hthree.2 ?_, rfl⟩
  · exact ⟨(Token.nonBlank lengthOfNested).take 4, List.take_prefix _ _, by decide, _, rfl⟩
  · intro h
    cases h

end SinglePass
