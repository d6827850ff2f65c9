import SinglePass.Lexer

/-!
# The standard lexer in one pass

The tokens of the standard rules, read from left to right without a table: the first character decides the kind of
a token, and the token is as long as its kind allows.  `OnePass.tokenize` is the reference for the rule table
`Rule.standard`.
-/

namespace SinglePass.Lexer.OnePass

/-- A string from its opening quote through the next quote. -/
def stringLength (rest : List Char) : Option Nat :=
  let body := rest.takeWhile (· ≠ '"')
  if body.length < rest.length then some (body.length + 2) else none

/-- A number that starts with a digit: a float if a point follows the digits. -/
def number (cs : List Char) : Token.Kind × Nat :=
  let whole := (cs.takeWhile Char.isDigit).length
  match cs.dropWhile Char.isDigit with
  | '.' :: rest => (.float, whole + 1 + (rest.takeWhile Char.isDigit).length)
  | _ => (.int, whole)

/-- A run of letters: a boolean if it is a boolean word and no word character touches it. -/
def word (before : Option Char) (cs : List Char) : Token.Kind × Nat :=
  let letters := cs.takeWhile Pattern.isLetter
  let after := (cs.dropWhile Pattern.isLetter).head?
  if (letters = "true".toList ∨ letters = "false".toList) ∧ ¬before.any Text.isWordChar
      ∧ ¬after.any Text.isWordChar then
    (.bool, letters.length)
  else (.identifier, letters.length)

/-- The kind and the number of characters of the token that starts here. -/
def next? (before : Option Char) : List Char → Option (Token.Kind × Nat)
  | [] => none
  | c :: rest =>
    if c = '"' then (stringLength rest).map fun n => (.string, n)
    else if c.isDigit then some (number (c :: rest))
    else if c = '.' then
      let digits := (rest.takeWhile Char.isDigit).length
      if digits = 0 then none else some (.float, digits + 1)
    else if Pattern.isLetter c then some (word before (c :: rest))
    else if c = '(' then some (.openParen, 1)
    else if c = ')' then some (.closeParen, 1)
    else if c = '[' then some (.openBracket, 1)
    else if c = ']' then some (.closeBracket, 1)
    else if Text.isBlank c then some (.whitespace, ((c :: rest).takeWhile Text.isBlank).length)
    else none

/-- The tokens from a place on, given its byte and the character before it. -/
def tokensFrom (offset : Nat) (before : Option Char) : List Char → Except Error (List Token)
  | [] => .ok []
  | c :: cs =>
    match next? before (c :: cs) with
    | none | some (_, 0) => .error (.uncovered offset c)
    | some (kind, n + 1) => do
      let found := c :: cs.take n
      let rest ← tokensFrom (offset + byteSize found) found.getLast? (cs.drop n)
      return ⟨kind, String.ofList found, offset⟩ :: rest
termination_by cs => cs.length
decreasing_by exact Nat.lt_succ_of_le (List.length_drop ▸ Nat.sub_le _ _)

def tokenize (source : String) : Except Error (List Token) := tokensFrom 0 none source.toList

end SinglePass.Lexer.OnePass
