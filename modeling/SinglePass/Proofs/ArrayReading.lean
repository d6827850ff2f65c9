import SinglePass.ArrayLiteral.Nested
import SinglePass.Proofs.Acceptance

/-!
# Two ways to read an array literal

One reader of array literals keeps a stack of the lists that are still open; the other has one call for each bracket
level.  They make the same of every token list, and stop at the same token (`readFrom_eq_readLevel`).  What the calls
around the innermost one have still to do is what the stack holds below its top: a finished array is added to the list
on top of the rest of the stack, or is the whole if nothing is left (`resume`).  The bracket level is the height of the
stack, so both readers ask for the same room.

The tokens that are read before an array is finished are those through the bracket that closes it
(`closedBy_of_readFrom`), because the height of the stack is the number of brackets that are open.  The machine reads
one token at a time and has no rest of the tokens in its hands, but comes to the same (`Machine.evaluate_array`).
-/

namespace SinglePass

namespace ArrayLiteral

/-! ### Readings one after the other -/

namespace Reading

variable {ts : List Token} {t : Token} {r : Reading ts}

theorem after_andThen (next : Value → (rest : List Token) → Reading rest) :
    (r.after t).andThen (fun v rest _ => next v rest) = (r.andThen fun v rest _ => next v rest).after t := by
  rcases r with ⟨_ | v, rest, hsuffix⟩ <;> rfl

theorem andThen_assoc (first : Value → (rest : List Token) → rest <:+ ts → Reading rest)
    (next : Value → (rest : List Token) → Reading rest) :
    (r.andThen first).andThen (fun v rest _ => next v rest) =
      r.andThen fun v rest h => (first v rest h).andThen fun v rest _ => next v rest := by
  rcases r with ⟨_ | v, rest, hsuffix⟩
  · rfl
  · rcases hfirst : first v rest hsuffix with ⟨_ | w, rest', hsuffix'⟩ <;> simp [andThen, hfirst]

end Reading

/-! ### The stack and the calls -/

/-- What becomes of a finished array, given the lists around it. -/
def resume (opened limit : Nat) : List (List Value) → Value → (rest : List Token) → Reading rest
  | [], v, rest => .now (.ok v) rest
  | items :: outer, v, rest => readFrom opened limit ((items ++ [v]) :: outer) rest

section

variable (opened limit : Nat) {t : Token}

/-- A literal token is an item of the innermost list, or an error. -/
theorem readFrom_literal {r : Except Error Value} (hr : t.literal? = some r) (items : List Value)
    (outer : List (List Value)) (ts : List Token) :
    readFrom opened limit (items :: outer) (t :: ts) = .after t (match r with
      | .ok v => readFrom opened limit ((items ++ [v]) :: outer) ts
      | .error e => .now (.error e) ts) := by
  rw [readFrom, Machine.arrayStep_literal hr]
  cases r <;> rfl

theorem readLevel_literal {r : Except Error Value} (hr : t.literal? = some r) (level : Nat) (items : List Value)
    (ts : List Token) :
    readLevel opened limit level items (t :: ts) = .after t (match r with
      | .ok v => readLevel opened limit level (items ++ [v]) ts
      | .error e => .now (.error e) ts) := by
  have hlit : t.kind.isLiteral := Machine.literal?_isSome_iff.1 (by simp [hr])
  rw [readLevel]
  congr 1
  cases hk : t.kind <;> simp only [hk, Token.Kind.isLiteral, Bool.false_eq_true] at hlit
  all_goals
    simp only [hr]
    cases r <;> rfl

theorem readFrom_closeBracket (ht : t.kind = .closeBracket) (items : List Value) (outer : List (List Value))
    (ts : List Token) :
    readFrom opened limit (items :: outer) (t :: ts) = .after t (resume opened limit outer (.array items) ts) := by
  simp only [readFrom, step, ht]
  cases outer <;> rfl

/-- With a stack, the innermost list is read as by a call for its level, and then the lists around it. -/
theorem readFrom_eq_readLevel (items : List Value) (outer : List (List Value)) (ts : List Token) :
    readFrom opened limit (items :: outer) ts =
      (readLevel opened limit (outer.length + 1) items ts).andThen
        fun v rest _ => resume opened limit outer v rest := by
  -- a nested list is read from the tokens behind its bracket, and the list around it from what is left of them
  induction hlen : ts.length using Nat.strong_induction_on generalizing items outer ts with
  | _ n ih =>
    subst hlen
    cases ts with
    | nil =>
      rw [readLevel]
      rfl
    | cons t ts =>
      have hts : ts.length < (t :: ts).length := Nat.lt_succ_self _
      by_cases hlit : t.kind.isLiteral
      · obtain ⟨r, hr⟩ := Option.isSome_iff_exists.1 (Machine.literal?_isSome_iff.2 hlit)
        rw [readFrom_literal opened limit hr, readLevel_literal opened limit hr, Reading.after_andThen]
        congr 1
        cases r with
        | error e => rfl
        | ok v => exact ih _ hts (items ++ [v]) outer ts rfl
      · rw [readLevel, Reading.after_andThen]
        cases hk : t.kind <;> simp only [hk, Token.Kind.isLiteral, not_true_eq_false] at hlit
        case openBracket =>
          simp only [readFrom, step, hk, List.length_cons]
          congr 1
          cases hroom : requireRoom (opened + (outer.length + 1)) limit with
          | error e => rfl
          | ok u =>
            refine (ih _ hts [] (items :: outer) ts rfl).trans ?_
            rw [Reading.andThen_assoc]
            congr 1
            funext v rest hrest
            exact ih _ (Nat.lt_succ_of_le hrest.length_le) (items ++ [v]) outer rest rfl
        case closeBracket => exact readFrom_closeBracket opened limit hk items outer ts
        case whitespace =>
          simp only [readFrom, step, hk]
          rw [ih _ hts items outer ts rfl]
        all_goals
          simp only [readFrom, step, hk]
          rfl

theorem readFrom_start (ts : List Token) : readFrom opened limit [[]] ts = readLevel opened limit 1 [] ts := by
  rw [readFrom_eq_readLevel]
  show (readLevel opened limit 1 [] ts).andThen _ = _
  rcases readLevel opened limit 1 [] ts with ⟨_ | v, rest, hsuffix⟩ <;> rfl

end

end ArrayLiteral

/-! ### The bracket that closes an array -/

/-- The opening brackets less the closing ones. -/
def Token.bracketSurplus (ts : List Token) : Int :=
  ts.countP (fun t => t.kind == .openBracket) - ts.countP fun t => t.kind == .closeBracket

theorem Token.bracketSurplus_cons (t : Token) (ts : List Token) :
    bracketSurplus (t :: ts) = bracketSurplus [t] + bracketSurplus ts := by
  simp only [bracketSurplus, List.countP_cons, List.countP_nil]
  omega

theorem Token.bracketSurplus_singleton (t : Token) :
    bracketSurplus [t] = if t.kind = .openBracket then 1 else if t.kind = .closeBracket then -1 else 0 := by
  simp only [bracketSurplus, List.countP_singleton, beq_iff_eq]
  split_ifs <;> simp_all

namespace ArrayLiteral

/-- The token closes the bracket that stands before the tokens `inside`: it is the first bracket among them and behind
them that closes more than was opened in between. -/
structure ClosedBy (inside : List Token) (close : Token) : Prop where
  kind_eq : close.kind = .closeBracket
  surplus_eq : Token.bracketSurplus inside = 0
  surplus_nonneg : ∀ p, p <+: inside → 0 ≤ Token.bracketSurplus p

variable {opened limit : Nat} {stack stack' : List (List Value)} {t : Token} {ts : List Token} {v : Value}

/-- The height of the stack follows the brackets. -/
theorem length_of_step (hs : stack ≠ []) (h : step opened limit stack t = .ok (.unfinished stack')) :
    stack' ≠ [] ∧ (stack'.length : Int) = stack.length + Token.bracketSurplus [t] := by
  have hpos : 0 < stack.length := List.length_pos_iff.2 hs
  rw [Token.bracketSurplus_singleton, ← List.length_pos_iff]
  by_cases hw : t.kind = .whitespace
  · have hstack : stack = stack' := by simpa [step, hw] using h
    simp [hw, ← hstack, hpos]
  · rcases Machine.arrayStep_unfinished hw hs h with ⟨hk, -, hlen⟩ | ⟨hk, hpos', hlen⟩ | ⟨hk, hlen⟩
    · simp [hk, hlen]
    · simp [hk, hpos', hlen]
    · have hopen : t.kind ≠ .openBracket := fun heq => by simp [heq, Token.Kind.isLiteral] at hk
      have hclose : t.kind ≠ .closeBracket := fun heq => by simp [heq, Token.Kind.isLiteral] at hk
      simp [hopen, hclose, hlen, hpos]

/-- An array is finished by the bracket behind which no list of the stack is open. -/
theorem closedBy_of_readFrom (hs : stack ≠ []) (h : (readFrom opened limit stack ts).result = .ok v) :
    ∃ inside close, ts = inside ++ close :: (readFrom opened limit stack ts).rest ∧ close.kind = .closeBracket ∧
      Token.bracketSurplus inside + stack.length = 1 ∧
      ∀ p, p <+: inside → 1 ≤ Token.bracketSurplus p + stack.length := by
  induction ts generalizing stack with
  | nil => cases h
  | cons t ts ih =>
    have hpos : 0 < stack.length := List.length_pos_iff.2 hs
    have hnil : 1 ≤ Token.bracketSurplus [] + stack.length := by
      simp only [Token.bracketSurplus, List.countP_nil]
      omega
    cases hstep : step opened limit stack t with
    | error e => simp [readFrom, hstep, Reading.after, Reading.now] at h
    | ok progress =>
      cases progress with
      | finished w =>
        obtain ⟨hk, hlen⟩ := Machine.arrayStep_finished hs hstep
        refine ⟨[], t, ?_, hk, ?_, ?_⟩
        · simp [readFrom, hstep, Reading.after, Reading.now]
        · simp [Token.bracketSurplus, hlen]
        · intro p hp
          rwa [List.prefix_nil.1 hp]
      | unfinished stack' =>
        obtain ⟨hs', hlen⟩ := length_of_step hs hstep
        have hread : readFrom opened limit stack (t :: ts) = (readFrom opened limit stack' ts).after t := by
          simp only [readFrom, hstep]
        rw [hread] at h ⊢
        obtain ⟨inside, close, hts, hk, hsurplus, hprefix⟩ := ih hs' h
        refine ⟨t :: inside, close, ?_, hk, ?_, ?_⟩
        · exact congrArg (List.cons t) hts
        · rw [Token.bracketSurplus_cons]
          omega
        · intro p hp
          rcases List.prefix_cons_iff.1 hp with rfl | ⟨q, rfl, hq⟩
          · exact hnil
          · have hq := hprefix q hq
            rw [Token.bracketSurplus_cons]
            omega

theorem closedBy_of_read (h : (read opened limit ts).result = .ok v) :
    ∃ inside close, ts = inside ++ close :: (read opened limit ts).rest ∧ ClosedBy inside close := by
  have hread : read opened limit ts = readFrom opened limit [[]] ts := by
    unfold read at h ⊢
    split at h
    · rfl
    · cases h
  rw [hread] at h ⊢
  obtain ⟨inside, close, hts, hk, hsurplus, hprefix⟩ := closedBy_of_readFrom (by simp) h
  refine ⟨inside, close, hts, hk, ?_, ?_⟩
  · simpa using hsurplus
  · intro p hp
    simpa using hprefix p hp

end ArrayLiteral

/-! ### The machine -/

namespace Machine

variable (registry : Registry) (limit : Nat) {m : Machine}

/-- From inside an array literal on, the machine comes to what the reader comes to, and goes on with its rest. -/
theorem evaluate_array {stack : List (List Value)} (hm : m.mode = .array stack) (ts : List Token) :
    ((run registry limit m ts).result >>= outcome) =
      (ArrayLiteral.readFrom m.frames.length limit stack ts).result >>= fun v =>
        (run registry limit ({ m with mode := .operand }.receive v)
          (ArrayLiteral.readFrom m.frames.length limit stack ts).rest).result >>= outcome := by
  induction ts generalizing m stack with
  | nil => simp [outcome, hm, ArrayLiteral.readFrom, ArrayLiteral.Reading.now]
  | cons t ts ih =>
    rw [result_run_cons]
    by_cases hw : t.kind = .whitespace
    · have hstep : ArrayLiteral.step m.frames.length limit stack t = .ok (.unfinished stack) := by
        simp [ArrayLiteral.step, hw]
      rw [result_step_blank hw, ok_bind, ih hm, ArrayLiteral.readFrom, hstep]
      rfl
    · rw [result_step_array hm hw, ArrayLiteral.readFrom]
      cases hstep : ArrayLiteral.step m.frames.length limit stack t with
      | error e => rfl
      | ok progress =>
        cases progress with
        | finished v => rfl
        | unfinished stack' => exact ih (m := { m with mode := .array stack' }) rfl

theorem evaluate_openBracket (hm : m.mode = .operand) (ha : m.awaitsName = false) {t : Token}
    (ht : t.kind = .openBracket) (ts : List Token) :
    ((run registry limit m (t :: ts)).result >>= outcome) =
      (ArrayLiteral.read m.depth limit ts).result >>= fun v =>
        (run registry limit (m.receive v) (ArrayLiteral.read m.depth limit ts).rest).result >>= outcome := by
  rw [result_run_cons, result_step_openBracket hm ha ht, depth_of_operand hm, ArrayLiteral.read]
  cases hroom : requireRoom m.frames.length limit with
  | error e => rfl
  | ok u =>
    have hmode : { m with mode := .operand } = m := by rw [← hm]
    refine (evaluate_array registry limit (m := { m with mode := .array [[]] }) rfl ts).trans ?_
    simp only [hmode]

end Machine

namespace ArrayLiteral

/-- The reader with a stack and the recursive reader make the same of every token list: they return the same array or
error and leave the same tokens.  An array is read exactly through the bracket that closes it.  A machine that meets the
opening bracket of an array literal ends as if the literal had been read recursively, and the tokens that are left after
it. -/
theorem read_eq_readNested (opened limit : Nat) (ts : List Token) :
    read opened limit ts = readNested opened limit ts ∧
    (∀ v, (read opened limit ts).result = .ok v →
      ∃ inside close, ts = inside ++ close :: (read opened limit ts).rest ∧ ClosedBy inside close) ∧
    ∀ (registry : Registry) (m : Machine) (t : Token), m.mode = .operand → m.awaitsName = false → m.depth = opened →
      t.kind = .openBracket →
      ((Machine.run registry limit m (t :: ts)).result >>= Machine.outcome) =
        (readNested opened limit ts).result >>= fun v =>
          (Machine.run registry limit (m.receive v) (readNested opened limit ts).rest).result >>= Machine.outcome := by
  have heq : read opened limit ts = readNested opened limit ts := by
    cases hroom : requireRoom opened limit with
    | error e => simp only [read, readNested, hroom]
    | ok _ => simp only [read, readNested, hroom, readFrom_start]
  refine ⟨heq, fun v hv => closedBy_of_read hv, ?_⟩
  rintro registry m t hm ha rfl ht
  rw [← heq]
  exact Machine.evaluate_openBracket registry limit hm ha ht ts

/-- The tokens of `true [] ] false`, behind an opening bracket. -/
private def twoLevels : List Token :=
  [⟨.bool, "true", 1⟩, ⟨.openBracket, "[", 6⟩, ⟨.closeBracket, "]", 7⟩, ⟨.closeBracket, "]", 9⟩, ⟨.bool, "false", 11⟩]

/-- With room for two brackets the array is read and the last token is left, which is one expression too many. -/
theorem readNested_twoLevels : (read 0 2 twoLevels).result = .ok (.array [.bool true, .array []]) ∧
    (readNested 0 2 twoLevels).rest = [⟨.bool, "false", 11⟩] ∧
    (∃ inside close, twoLevels = inside ++ close :: (read 0 2 twoLevels).rest ∧ ClosedBy inside close) ∧
    ((Machine.run .empty 2 .start (⟨.openBracket, "[", 0⟩ :: twoLevels)).result >>= Machine.outcome) =
      .error (.manyExpressions 2) := by
  obtain ⟨heq, hclosed, hmachine⟩ := read_eq_readNested 0 2 twoLevels
  have hresult : (read 0 2 twoLevels).result = .ok (.array [.bool true, .array []]) := rfl
  refine ⟨hresult, heq ▸ rfl, hclosed _ hresult, ?_⟩
  rw [hmachine .empty .start ⟨.openBracket, "[", 0⟩ rfl rfl rfl rfl, ← heq]
  rfl

end ArrayLiteral

end SinglePass
