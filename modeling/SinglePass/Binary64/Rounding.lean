import SinglePass.Binary64

/-!
# Rounding to the nearest double

`nearest num den` is the magnitude of the double nearest to `num / den`, a tie going to the even significand.
All arithmetic is on natural numbers.  The quotient is measured in units of `2 ^ (-1074)`, its leading bits give
the scale, and packing adds the rounded significand to the scale, so a carry moves into the next scale by itself
and a quotient too large for any double comes out at `infinite` or above.
-/

namespace SinglePass

/-- `num / den` to the nearest integer, a tie going to the even neighbour. -/
def roundDiv (num den : Nat) : Nat :=
  let quotient := num / den
  let rest := num % den
  if 2 * rest < den then quotient
  else if den < 2 * rest then quotient + 1
  else quotient + quotient % 2

namespace Binary64

def nearest (num den : Nat) : Nat :=
  let units := num * Nat.pow 2 1074
  let scale := Nat.log2 (units / den) - 52
  scale * leadingBit + roundDiv units (den * Nat.pow 2 scale)

/-- The magnitude nearest to `coefficient * 10 ^ exponent`.  Numbers that are certainly beyond the largest double
or below half the smallest are decided without the power of ten. -/
def nearestDecimal (coefficient : Nat) (exponent : Int) : Nat :=
  if coefficient = 0 then 0
  else if 400 < exponent then infinite
  else if coefficient.log2 + 1100 < 3 * (-exponent).toNat then 0
  else nearest (coefficient * Nat.pow 10 exponent.toNat) (Nat.pow 10 (-exponent).toNat)

/-- The finite double nearest to a decimal, or nothing if the decimal is too large. -/
def ofDecimal? (negative : Bool) (coefficient : Nat) (exponent : Int) : Option Binary64 :=
  let magnitude := nearestDecimal coefficient exponent
  if magnitude < infinite then some (ofMagnitude negative magnitude) else none

/-- A natural number as a double. -/
def ofNat (n : Nat) : Binary64 := ofMagnitude false (min infinite (nearest n 1))

end Binary64

end SinglePass
