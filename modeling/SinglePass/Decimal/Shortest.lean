import SinglePass.Binary64.Rounding
import SinglePass.Decimal

/-!
# The fewest digits that read back

Every finite double has an exact decimal expansion.  `shortest` cuts the expansion to as few digits as still round
to the double: for one digit, two digits, and so on up to seventeen, it tries the two neighbours of the expansion
with that many digits, and takes the nearer one if both read back.  If the expansion lies exactly halfway between
them, the caller's `Tie` decides.
-/

namespace SinglePass

/-- What to do with a number exactly halfway between its neighbours. -/
inductive Tie where
  | up
  | toEven
deriving DecidableEq, Repr

namespace Tie

def roundsUp : Tie → Nat → Bool
  | up, _ => true
  | toEven, low => low % 2 == 1

end Tie

namespace Decimal

/-- The exact expansion of the absolute value of a finite double. -/
def expansion (x : Binary64) : Decimal :=
  ⟨x.ratio.1 * Nat.pow 5 (1074 - x.scale), -((1074 - x.scale : Nat) : Int)⟩

/-- The decimal rounds to `x`, signs aside. -/
def readsBack (x : Binary64) (d : Decimal) : Bool :=
  Binary64.nearestDecimal d.coefficient d.exponent == x.magnitude

/-- The same number without trailing zeros in the coefficient; zero has the exponent zero. -/
def trim (d : Decimal) : Decimal :=
  if h : d.coefficient = 0 then ⟨0, 0⟩
  else if d.coefficient % 10 = 0 then trim ⟨d.coefficient / 10, d.exponent + 1⟩
  else d
termination_by d.coefficient
decreasing_by exact Nat.div_lt_self (Nat.pos_of_ne_zero h) (by decide)

/-- Drops the last `count` digits of `d`, going to a neighbour that reads back as `x`. -/
def cut? (tie : Tie) (x : Binary64) (d : Decimal) (count : Nat) : Option Decimal :=
  let unit := Nat.pow 10 count
  let low := d.coefficient / unit
  let rest := d.coefficient % unit
  let below : Decimal := ⟨low, d.exponent + count⟩
  let above : Decimal := ⟨low + 1, d.exponent + count⟩
  match readsBack x below, readsBack x above with
  | true, true =>
    if 2 * rest < unit then some below
    else if unit < 2 * rest then some above
    else some (if tie.roundsUp low then above else below)
  | true, false => some below
  | false, true => some above
  | false, false => none

/-- The fewest digits that round to the absolute value of `x`. -/
def shortest (tie : Tie) (x : Binary64) : Decimal :=
  let d := expansion x
  let count := (digits d.coefficient).length
  let found := (List.range (min 17 count)).findSome? fun n => cut? tie x d (count - (n + 1))
  trim (found.getD d)

end Decimal

end SinglePass
