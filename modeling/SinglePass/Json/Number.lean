import SinglePass.Decimal.Layout
import SinglePass.Json

/-!
# Numbers in JSON

Integers are written in decimal.  A double is written with the fewest digits that read back: with a point and no
exponent while its first digit stands between the fifth place after the point and the sixteenth before it, and with
an exponent otherwise.

To read a double, the leading digits that fit into 64 bits are taken as an integer, which is rounded and then
multiplied or divided by a rounded power of ten.
-/

namespace SinglePass.Json.Number

/-! ### Writing -/

def ofInt (n : Int) : Number := ⟨decide (n < 0), Decimal.digits n.natAbs, [], none⟩

/-- One digit before the point, and an exponent. -/
def scientific (negative : Bool) (d : Decimal) : Number :=
  let ds := Decimal.digits d.coefficient
  let exponent := d.exponent + (ds.length - 1 : Nat)
  ⟨negative, ds.take 1, ds.drop 1, some (decide (exponent < 0), Decimal.digits exponent.natAbs)⟩

/-- At least one digit on each side of the point. -/
def positional (negative : Bool) (d : Decimal) : Number :=
  match d.split with
  | (whole, []) => ⟨negative, whole, ['0'], none⟩
  | (whole, fraction) => ⟨negative, whole, fraction, none⟩

/-- A double that is not finite cannot be written. -/
def ofBinary64? (x : Binary64) : Option Number :=
  if !x.isFinite then none
  else
    let d := Decimal.shortest .toEven x
    let leading := d.exponent + ((Decimal.digits d.coefficient).length - 1 : Nat)
    some (if -5 ≤ leading ∧ leading ≤ 15 then positional x.negative d else scientific x.negative d)

def render (n : Number) : List Char :=
  (if n.negative then ['-'] else []) ++ n.whole
    ++ (if n.fraction = [] then [] else '.' :: n.fraction)
    ++ (match n.exponent with
      | none => []
      | some (negative, ds) => 'e' :: (if negative then '-' else '+') :: ds)

/-! ### Reading -/

/-- The integer that the number denotes, if it has neither a fraction nor an exponent.  Minus zero is not an
integer. -/
def int? (n : Number) : Option Int :=
  let value := Decimal.digitsValue n.whole
  if n.fraction ≠ [] ∨ n.exponent.isSome ∨ (n.negative ∧ value = 0) then none
  else some (if n.negative then -(value : Int) else value)

/-- Appends digits to a number while it fits into 64 bits, and returns the digits that are left. -/
def absorb (value : Nat) : List Char → Nat × List Char
  | [] => (value, [])
  | d :: ds =>
    let next := 10 * value + Decimal.digitsValue [d]
    if next < UInt64.size then absorb next ds else (value, d :: ds)

/-- The leading digits and the power of ten to scale them with. -/
def parts (n : Number) : Nat × Int :=
  let (value, beyond) := absorb 0 n.whole
  let (value, ignored) := absorb value n.fraction
  let scale : Int := beyond.length - ((n.fraction.length : Int) - ignored.length)
  match n.exponent with
  | none => (value, scale)
  | some (true, ds) => (value, scale - Decimal.digitsValue ds)
  | some (false, ds) => (value, scale + Decimal.digitsValue ds)

/-- The double nearest to a power of ten. -/
def powerOfTen (k : Nat) : Binary64 := .ofMagnitude false (Binary64.nearestDecimal 1 k)

/-- Divides by a power of ten, in steps that a double can hold. -/
def divide (x : Binary64) (k : Nat) : Binary64 :=
  if k ≤ 308 then x.div (powerOfTen k)
  else if x.isZero then x
  else divide (x.div (powerOfTen 308)) (k - 308)
termination_by k

def scaled? (x : Binary64) : Int → Option Binary64
  | .ofNat k =>
    if k ≤ 308 then
      let y := x.mul (powerOfTen k)
      if y.isFinite then some y else none
    else if x.isZero then some x
    else none
  | .negSucc k => some (divide x (k + 1))

/-- The double that the number denotes, which has to be finite. -/
def binary64? (n : Number) : Option Binary64 :=
  let (value, scale) := n.parts
  (scaled? (.ofNat value) scale).map fun x => .ofMagnitude n.negative x.magnitude

end SinglePass.Json.Number
