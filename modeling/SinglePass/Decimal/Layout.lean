import SinglePass.Decimal.Shortest

/-!
# Digits laid out as text

The digits of a decimal before and after its point, and the two ways in which the language writes a double:
`withPoint` is the form of displayed values, and `plain` the form of the conversion to a string.
-/

namespace SinglePass

namespace Decimal

/-- The digits before and after the point; there is always one before it. -/
def split (d : Decimal) : List Char × List Char :=
  let ds := digits d.coefficient
  match d.exponent with
  | .ofNat k => (ds ++ List.replicate k '0', [])
  | .negSucc k =>
    let whole := ds.length - (k + 1)
    if k + 1 < ds.length then (ds.take whole, ds.drop whole)
    else (['0'], List.replicate (k + 1 - ds.length) '0' ++ ds)

/-- A point only where digits follow it. -/
def plain (d : Decimal) : List Char :=
  match d.split with
  | (whole, []) => whole
  | (whole, fraction) => whole ++ '.' :: fraction

/-- A point always, and at least one digit after it. -/
def pointed (d : Decimal) : List Char :=
  match d.split with
  | (whole, []) => whole ++ ['.', '0']
  | (whole, fraction) => whole ++ '.' :: fraction

end Decimal

namespace Binary64

private def signed (x : Binary64) (cs : List Char) : List Char := if x.negative then '-' :: cs else cs

/-- The text of a number that is not finite. -/
def specialText (x : Binary64) : List Char :=
  if x.isNaN then "NaN".toList else x.signed "inf".toList

/-- Always a point: integral numbers in full with `.0`, all others with the fewest digits that read back. -/
def withPoint (x : Binary64) : List Char :=
  if !x.isFinite then x.specialText
  else if x.isIntegral then
    x.signed (Decimal.digits (x.ratio.1 / x.ratio.2) ++ ['.', '0'])
  else x.signed (Decimal.shortest .up x).pointed

/-- The fewest digits that read back, filled up with zeros, and a point only where digits follow it. -/
def plain (x : Binary64) : List Char :=
  if !x.isFinite then x.specialText else x.signed (Decimal.shortest .up x).plain

end Binary64

end SinglePass
