/-!
# Decimal numerals

Decimal digits and the numbers they denote: signed integers such as `-12` and `+7`, and signed decimals such as
`1.5`, `.5`, `1.` and `2e-3`.  A `Decimal` is an unsigned decimal number, `coefficient * 10 ^ exponent`.
-/

namespace SinglePass

structure Decimal where
  coefficient : Nat
  exponent : Int
deriving DecidableEq, Repr

namespace Decimal

/-- The digits of a natural number, without leading zeros. -/
def digits (n : Nat) : List Char := Nat.toDigits 10 n

/-- The number that a list of decimal digits denotes. -/
def digitsValue (ds : List Char) : Nat := ds.foldl (fun n d => 10 * n + (d.toNat - '0'.toNat)) 0

def ofInt : Int → List Char
  | .ofNat n => digits n
  | .negSucc n => '-' :: digits (n + 1)

/-- An optional sign, and what follows it; the flag is set by a minus sign. -/
def splitSign : List Char → Bool × List Char
  | '-' :: cs => (true, cs)
  | '+' :: cs => (false, cs)
  | cs => (false, cs)

/-- One or more digits and nothing else. -/
def natural? (cs : List Char) : Option Nat :=
  if cs ≠ [] ∧ cs.all Char.isDigit then some (digitsValue cs) else none

/-- An optional sign and one or more digits. -/
def integer? (cs : List Char) : Option Int :=
  let (negative, ds) := splitSign cs
  (natural? ds).map fun n => if negative then -(n : Int) else n

/-- The part of a decimal after its digits: nothing, or an exponent. -/
def exponent? : List Char → Option Int
  | [] => some 0
  | c :: cs => if c = 'e' ∨ c = 'E' then integer? cs else none

/-- Digits with a point before, among or after them, and an optional exponent. -/
def unsigned? (cs : List Char) : Option Decimal :=
  let whole := cs.takeWhile Char.isDigit
  match cs.dropWhile Char.isDigit with
  | '.' :: rest =>
    let fraction := rest.takeWhile Char.isDigit
    if whole = [] ∧ fraction = [] then none
    else (exponent? (rest.dropWhile Char.isDigit)).map fun e =>
      ⟨digitsValue (whole ++ fraction), e - fraction.length⟩
  | rest =>
    if whole = [] then none else (exponent? rest).map fun e => ⟨digitsValue whole, e⟩

/-- An optional sign, then an unsigned decimal; the flag is set by a minus sign. -/
def signed? (cs : List Char) : Option (Bool × Decimal) :=
  let (negative, rest) := splitSign cs
  (unsigned? rest).map fun d => (negative, d)

end Decimal

end SinglePass
