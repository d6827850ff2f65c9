import SinglePass.Proofs.ReadingBack
import SinglePass.Proofs.Tiling

/-!
# Exact arithmetic

Sums and differences of natural numbers, written as a source and evaluated, have their exact value or fail at the first
part that does not fit into 64 bits.  The parts of a calculation are its numerals and its operations, from left to right
and every operation behind its operands (`Calculation.parts`).  A numeral fails if it is too large, and an operation if
its exact result is too large or too small, even if the operations around it would bring it back.

The source is read as a tree with the numerals at the bytes where they stand (`Calculation.reads`), and the tree is
evaluated part by part (`Calculation.eval_tree`).  As long as no part has failed, the computed values are exact,
because the last part of a calculation has the value of the calculation (`Calculation.fits_of_firstFailure?`).
-/

namespace SinglePass

open Lexer

/-! ### Calculations -/

/-- A natural number as it is written, with leading zeros or without. -/
structure Numeral where
  digits : List Char
  ne_nil : digits ≠ []
  isDigit : ∀ c ∈ digits, c.isDigit = true

namespace Numeral

def text (n : Numeral) : String := String.ofList n.digits

def value (n : Numeral) : Nat := Decimal.digitsValue n.digits

def ofNat (n : Nat) : Numeral :=
  ⟨Decimal.digits n, Decimal.digits_ne_nil n, fun _ h => Decimal.isDigit_of_mem_digits h⟩

end Numeral

inductive Operation where
  | plus
  | minus
deriving DecidableEq, Repr

namespace Operation

/-- The builtin that performs the operation. -/
def name : Operation → String
  | plus => "plus"
  | minus => "minus"

/-- The exact result. -/
def result : Operation → Int → Int → Int
  | plus, a, b => a + b
  | minus, a, b => a - b

end Operation

/-- Sums and differences of natural numbers. -/
inductive Calculation where
  | numeral (n : Numeral)
  | node (op : Operation) (left right : Calculation)

namespace Calculation

/-- The exact value. -/
def value : Calculation → Int
  | numeral n => n.value
  | node op left right => op.result left.value right.value

/-- The greatest number of parentheses around a place. -/
def nesting : Calculation → Nat
  | numeral _ => 0
  | node _ left right => max left.nesting right.nesting + 1

def text : Calculation → String
  | numeral n => n.text
  | node op left right => "(" ++ op.name ++ " " ++ left.text ++ " " ++ right.text ++ ")"

/-- The byte of the first operand of an operation whose parenthesis is at the byte `offset`. -/
def leftOffset (offset : Nat) (op : Operation) : Nat :=
  offset + "(".utf8ByteSize + op.name.utf8ByteSize + " ".utf8ByteSize

/-- The byte of the second operand. -/
def rightOffset (offset : Nat) (op : Operation) (left : Calculation) : Nat :=
  leftOffset offset op + left.text.utf8ByteSize + " ".utf8ByteSize

/-- A numeral with the byte where it stands, or an operation with its exact result. -/
inductive Part where
  | numeral (offset : Nat) (n : Numeral)
  | node (op : Operation) (result : Int)

/-- The error of a part that does not fit into 64 bits. -/
def Part.failure? : Part → Option Error
  | numeral offset n => if n.value ≤ 2 ^ 63 - 1 then none else some (.badNumber offset n.text)
  | node op result => if -2 ^ 63 ≤ result ∧ result ≤ 2 ^ 63 - 1 then none else some (.overflow op.name)

/-- The parts of a calculation that is written at the byte `offset`, in the order in which they are evaluated. -/
def parts (offset : Nat) : Calculation → List Part
  | numeral n => [.numeral offset n]
  | node op left right => left.parts (leftOffset offset op) ++ right.parts (rightOffset offset op left) ++
      [.node op (op.result left.value right.value)]

/-- The error of the first part that fails. -/
def firstFailure? (offset : Nat) (c : Calculation) : Option Error := (c.parts offset).findSome? Part.failure?

/-- The tree of a calculation that is written at the byte `offset`. -/
def tree (offset : Nat) : Calculation → Expr
  | numeral n => .datum (.literal ⟨.int, n.text, offset⟩)
  | node op left right => .form op.name [left.tree (leftOffset offset op), right.tree (rightOffset offset op left)]

end Calculation

/-! ### Reading -/

/-- From a place on, the characters in front of `rest` are read as tokens with these lexemes. -/
def Lexer.Reads (offset : Nat) (before : Option Char) (u rest : List Char) (ls : List Lexeme) : Prop :=
  ∃ ts, Lexes offset before u rest ts ∧ ts.filterMap Token.lexeme? = ls

namespace Lexer.Reads

variable {offset : Nat} {before : Option Char} {u v rest : List Char} {ls ls' : List Lexeme}

theorem append (hu : Reads offset before u (v ++ rest) ls)
    (hv : Reads (offset + byteSize u) (u.getLast?.or before) v rest ls') :
    Reads offset before (u ++ v) rest (ls ++ ls') := by
  obtain ⟨ts, hts, rfl⟩ := hu
  obtain ⟨ts', hts', rfl⟩ := hv
  exact ⟨ts ++ ts', hts.append hts', List.filterMap_append⟩

theorem space (h : ∀ c ∈ rest.head?, Text.isBlank c = false) :
    Reads offset before Blanks.space.text.toList rest [] :=
  ⟨_, Blanks.lexes h, Blanks.lexemes_tokens _ _⟩

theorem openParen : Reads offset before "(".toList rest [.openParen] :=
  ⟨_, WellFormed.lexes .openParen nofun nofun, rfl⟩

theorem closeParen : Reads offset before ")".toList rest [.closeParen] :=
  ⟨_, WellFormed.lexes .closeParen nofun nofun, rfl⟩

end Lexer.Reads

theorem Numeral.wellFormed (n : Numeral) : WellFormed .int n.text.toList := by
  rw [text, String.toList_ofList]
  exact .int n.ne_nil n.isDigit

theorem Numeral.text_ne_empty (n : Numeral) : n.text ≠ "" := by
  simpa [text] using n.ne_nil

theorem Operation.wellFormed (op : Operation) : WellFormed .identifier op.name.toList := by
  cases op with
  | plus => exact .identifier (by simp [name]) (by simp [name]; decide) (by simp [name, words])
  | minus => exact .identifier (by simp [name]) (by simp [name]; decide) (by simp [name, words])

namespace Calculation

variable (offset : Nat) (op : Operation) (left right c : Calculation)

theorem toList_text_node :
    (node op left right).text.toList = "(".toList ++ (op.name.toList ++ (Blanks.space.text.toList ++
      (left.text.toList ++ (Blanks.space.text.toList ++ (right.text.toList ++ ")".toList))))) := by
  simp only [text, Blanks.space, String.toList_append, List.append_assoc]

theorem lexemes_tree_node :
    ((node op left right).tree offset).lexemes = [Lexeme.openParen] ++ ([Lexeme.name op.name] ++ ([] ++
      ((left.tree (leftOffset offset op)).lexemes ++ ([] ++
        ((right.tree (rightOffset offset op left)).lexemes ++ [Lexeme.closeParen]))))) := by
  simp [tree, Expr.lexemes, Expr.lexemesAll]

theorem leftOffset_eq :
    leftOffset offset op =
      offset + byteSize "(".toList + byteSize op.name.toList + byteSize Blanks.space.text.toList := by
  simp only [leftOffset, Blanks.space, byteSize_toList]

theorem rightOffset_eq :
    rightOffset offset op left =
      leftOffset offset op + byteSize left.text.toList + byteSize Blanks.space.text.toList := by
  simp only [rightOffset, Blanks.space, byteSize_toList]

theorem isBlank_head (rest : List Char) : ∀ d ∈ (c.text.toList ++ rest).head?, Text.isBlank d = false := by
  cases c with
  | numeral n => exact n.wellFormed.isBlank_head
  | node op left right =>
    have hopen : WellFormed .openParen "(".toList := .openParen
    rw [toList_text_node, List.append_assoc]
    exact hopen.isBlank_head

/-- Wherever the text of a calculation can stand by itself, it is read as its tree. -/
theorem reads {before : Option Char} {rest : List Char} (hbefore : before.any Text.isWordChar = false)
    (hafter : EndsWord rest) : Reads offset before c.text.toList rest (c.tree offset).lexemes := by
  induction c generalizing offset before rest with
  | numeral n =>
    exact ⟨[⟨.int, n.text, offset⟩], n.wellFormed.lexes (fun _ => hbefore) fun _ => hafter, rfl⟩
  | node op left right ihl ihr =>
    have hspace : ∀ {v}, EndsWord (Blanks.space.text.toList ++ v) := Blanks.endsWord Blanks.space_ne_empty
    have hname : ∀ {o v}, EndsWord v → Reads o ("(".toList.getLast?.or before) op.name.toList v [.name op.name] :=
      fun h => ⟨_, op.wellFormed.lexes (fun _ => (WellFormed.openParen.marks rfl before []).2) fun _ => h, rfl⟩
    have hclosed : EndsWord (")".toList ++ rest) := (WellFormed.closeParen.marks rfl none rest).1
    rw [toList_text_node, lexemes_tree_node, rightOffset_eq, leftOffset_eq]
    refine Reads.openParen.append ((hname ?_).append ((Reads.space ?_).append ((ihl _ ?_ ?_).append
      ((Reads.space ?_).append ((ihr _ ?_ hclosed).append .closeParen)))))
    · rw [List.append_assoc]
      exact hspace
    · rw [List.append_assoc]
      exact left.isBlank_head _
    · exact Blanks.isWordChar_getLast? Blanks.space_ne_empty
    · rw [List.append_assoc]
      exact hspace
    · rw [List.append_assoc]
      exact right.isBlank_head _
    · exact Blanks.isWordChar_getLast? Blanks.space_ne_empty

theorem grammatical_tree : (c.tree offset).Grammatical := by
  induction c generalizing offset with
  | numeral n => exact .datum _
  | node op left right ihl ihr =>
    refine .form ?_ ?_
    · cases op <;> simp [Operation.name]
    · simpa using ⟨ihl _, ihr _⟩

/-- Numerals stand where the parts of a calculation say. -/
theorem sliceOf_of_mem_parts {o : Nat} {n : Numeral} (h : Part.numeral o n ∈ c.parts offset) :
    (Token.mk .int n.text o).SliceOf offset c.text.toList := by
  induction c generalizing offset with
  | numeral m =>
    obtain ⟨rfl, rfl⟩ : o = offset ∧ n = m := by simpa [parts] using h
    exact ⟨n.text_ne_empty, [], [], by simp [text], rfl⟩
  | node op left right ihl ihr =>
    rw [parts, List.mem_append, List.mem_append] at h
    rw [toList_text_node]
    obtain (hleft | hright) | hnode := h
    · have hslice := ihl _ hleft
      rw [leftOffset_eq, Nat.add_assoc, Nat.add_assoc, ← byteSize_append, ← byteSize_append] at hslice
      simpa only [List.append_assoc] using hslice.within
    · have hslice := ihr _ hright
      rw [rightOffset_eq, leftOffset_eq, Nat.add_assoc, Nat.add_assoc, Nat.add_assoc, Nat.add_assoc, ← byteSize_append,
        ← byteSize_append, ← byteSize_append, ← byteSize_append] at hslice
      simpa only [List.append_assoc] using hslice.within
    · simp at hnode

end Calculation

/-! ### Evaluation -/

/-- The error, or without one the number. -/
def settle (failure? : Option Error) (n : Int) : Except Error Value :=
  match failure? with
  | some e => .error e
  | none => .ok (.int (Int64.ofInt n))

theorem int64?_eq_ite (n : Int) :
    int64? n = if -2 ^ 63 ≤ n ∧ n ≤ 2 ^ 63 - 1 then some (Int64.ofInt n) else none := rfl

theorem Numeral.literal?_eq (n : Numeral) (offset : Nat) :
    (Token.mk .int n.text offset).literal? = some (settle (Calculation.Part.numeral offset n).failure? n.value) := by
  have hread : readInt? n.text = int64? n.value := by
    rw [readInt?, text, String.toList_ofList, Decimal.integer?_of_isDigit n.ne_nil n.isDigit]
    rfl
  simp only [Token.literal?, hread, int64?_eq_ite, Calculation.Part.failure?]
  by_cases h : n.value ≤ 2 ^ 63 - 1
  · rw [if_pos h, if_pos (by omega)]
    rfl
  · rw [if_neg h, if_neg (by omega)]
    rfl

theorem Standard.fitting_eq (op : Operation) (n : Int) :
    fitting op.name n = settle (Calculation.Part.node op n).failure? n := by
  simp only [fitting, int64?_eq_ite, Calculation.Part.failure?]
  by_cases h : -2 ^ 63 ≤ n ∧ n ≤ 2 ^ 63 - 1
  · rw [if_pos h, if_pos h]
    rfl
  · rw [if_neg h, if_neg h]
    rfl

/-- An operation is a builtin that computes exactly what fits. -/
theorem Operation.resolve_name (op : Operation) :
    ∃ b, Machine.resolve Standard.registry op.name = .ok (.builtin b) ∧
      ∀ x y, b.call [.int x, .int y] = Standard.fitting op.name (op.result x.toInt y.toInt) := by
  cases op with
  | plus => exact ⟨_, rfl, fun _ _ => rfl⟩
  | minus => exact ⟨_, rfl, fun _ _ => rfl⟩

namespace Calculation

variable (offset : Nat) (op : Operation) (left right c : Calculation)

theorem firstFailure?_numeral (n : Numeral) :
    (numeral n).firstFailure? offset = (Part.numeral offset n).failure? := by
  simp [firstFailure?, parts]

theorem firstFailure?_node : (node op left right).firstFailure? offset =
    (left.firstFailure? (leftOffset offset op)).or ((right.firstFailure? (rightOffset offset op left)).or
      (Part.node op (node op left right).value).failure?) := by
  simp [firstFailure?, parts, value, List.findSome?_append]

/-- The last part of a calculation has its value. -/
theorem fits_of_firstFailure? {c : Calculation} {offset : Nat} (h : c.firstFailure? offset = none) :
    -2 ^ 63 ≤ c.value ∧ c.value ≤ 2 ^ 63 - 1 := by
  cases c with
  | numeral n =>
    have hn : n.value ≤ 2 ^ 63 - 1 := by simpa [firstFailure?_numeral, Part.failure?] using h
    rw [value]
    omega
  | node op left right =>
    rw [firstFailure?_node, Option.or_eq_none_iff, Option.or_eq_none_iff] at h
    simpa [Part.failure?] using h.2.2

theorem toInt_of_firstFailure? {c : Calculation} {offset : Nat} (h : c.firstFailure? offset = none) :
    (Int64.ofInt c.value).toInt = c.value := by
  have hfits := fits_of_firstFailure? h
  exact Int64.toInt_ofInt_of_le (by omega) (by omega)

/-- Within the depth limit, a calculation is evaluated to its exact value, or to the error of its first failure. -/
theorem eval_tree {limit depth : Nat} (scope : Scope) (h : depth + c.nesting ≤ limit) :
    (c.tree offset).eval Standard.registry limit scope depth = settle (c.firstFailure? offset) c.value := by
  induction c generalizing offset depth with
  | numeral n =>
    rw [tree, Expr.eval, Datum.eval, n.literal?_eq, firstFailure?_numeral]
    rfl
  | node op left right ihl ihr =>
    obtain ⟨b, hresolve, hcall⟩ := op.resolve_name
    rw [nesting] at h
    have hl : depth + 1 + left.nesting ≤ limit := by omega
    have hr : depth + 1 + right.nesting ≤ limit := by omega
    rw [tree, Expr.eval, Machine.requireRoom_of_lt (by omega), hresolve, ok_bind, ok_bind, Expr.evalAll, Expr.evalAll,
      Expr.evalAll, ihl _ hl, ihr _ hr, firstFailure?_node]
    cases hleft : left.firstFailure? (leftOffset offset op) with
    | some e => rfl
    | none =>
      cases hright : right.firstFailure? (rightOffset offset op left) with
      | some e => rfl
      | none =>
        have hvalue : b.call [.int (Int64.ofInt left.value), .int (Int64.ofInt right.value)] =
            settle (Part.node op (op.result left.value right.value)).failure? (op.result left.value right.value) := by
          rw [hcall, toInt_of_firstFailure? hleft, toInt_of_firstFailure? hright, Standard.fitting_eq]
        exact hvalue

theorem evaluate_text {config : Config} (h : c.nesting ≤ config.limit.toNat) :
    Interpreter.evaluate { config := config } c.text = settle (c.firstFailure? 0) c.value := by
  have hreads : Reads 0 none c.text.toList [] (c.tree 0).lexemes := c.reads 0 rfl .nil
  obtain ⟨ts, hlexes, hspells⟩ := hreads
  have htokens : Interpreter.tokenize { config := config } c.text = .ok ts := hlexes.tokenize_eq
  rw [Interpreter.evaluate_eq _ htokens, runTokens_of_tree _ (c.grammatical_tree 0) hspells]
  exact c.eval_tree 0 .empty (by rwa [Nat.zero_add])

end Calculation

/-- Sums and differences are exact from their text to their value.  The parts of a calculation have to fit one by one,
from left to right and operands first: the first that does not is the error, a numeral with the byte where it stands and
an operation with its name, and if all do the result is the exact value. -/
theorem evaluate_calculation (config : Config) (c : Calculation) (h : c.nesting ≤ config.limit.toNat) :
    (∀ o n, .numeral o n ∈ c.parts 0 → (Token.mk .int n.text o).SliceOf 0 c.text.toList) ∧
      (∀ e, c.firstFailure? 0 = some e → Interpreter.evaluate { config := config } c.text = .error e) ∧
      (c.firstFailure? 0 = none →
        ∃ n : Int64, n.toInt = c.value ∧ Interpreter.evaluate { config := config } c.text = .ok (.int n)) := by
  refine ⟨fun o n hn => c.sliceOf_of_mem_parts 0 hn, ?_, ?_⟩
  · intro e he
    rw [c.evaluate_text h, he]
    rfl
  · intro hnone
    refine ⟨Int64.ofInt c.value, Calculation.toInt_of_firstFailure? hnone, ?_⟩
    rw [c.evaluate_text h, hnone]
    rfl

private def number (n : Nat) : Calculation := .numeral (.ofNat n)

private def cancelling : Calculation := .node .minus (.node .plus (number 9223372036854775807) (number 1)) (number 1)

private def smallest : Calculation := .node .minus (.node .minus (number 0) (number 9223372036854775807)) (number 1)

private def tooLarge : Calculation := .node .plus (number 1) (.node .plus (number 9223372036854775808) (number 2))

/-- The first sum is too large, although the whole has a value that fits; the least integer is reached; and a numeral
that is too large is found before the sum around it. -/
theorem evaluate_calculation_at_bounds :
    cancelling.text = "(minus (plus 9223372036854775807 1) 1)" ∧ cancelling.value = 9223372036854775807 ∧
      Interpreter.evaluate { config := ⟨2⟩ } cancelling.text = .error (.overflow "plus") ∧
    smallest.text = "(minus (minus 0 9223372036854775807) 1)" ∧
      (∃ n : Int64, n.toInt = -9223372036854775808 ∧
        Interpreter.evaluate { config := ⟨2⟩ } smallest.text = .ok (.int n)) ∧
    tooLarge.text = "(plus 1 (plus 9223372036854775808 2))" ∧
      Interpreter.evaluate { config := ⟨2⟩ } tooLarge.text = .error (.badNumber 14 "9223372036854775808") := by
  refine ⟨by decide +kernel, by decide +kernel, ?_, by decide +kernel, ?_, by decide +kernel, ?_⟩
  · exact (evaluate_calculation ⟨2⟩ cancelling (by decide)).2.1 _ (by decide +kernel)
  · exact (evaluate_calculation ⟨2⟩ smallest (by decide)).2.2 (by decide +kernel)
  · exact (evaluate_calculation ⟨2⟩ tooLarge (by decide)).2.1 _ (by decide +kernel)

end SinglePass
