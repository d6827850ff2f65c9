/-!
# Double-precision numbers

A `Binary64` is the 64-bit pattern of an IEEE 754 double: a sign bit above a 63-bit magnitude.  The magnitudes
are ordered as the numbers are, so a finite number is one whose magnitude lies below that of infinity, and a
magnitude above it is a NaN.  A finite number is `significand * 2 ^ scale` units of `2 ^ (-1074)`.
-/

namespace SinglePass

structure Binary64 where
  bits : UInt64
deriving DecidableEq, Repr

namespace Binary64

/-- The weight of the sign bit, `2 ^ 63`. -/
def signBit : Nat := 0x8000000000000000

/-- The weight of the leading bit of a normal significand, `2 ^ 52`. -/
def leadingBit : Nat := 0x10000000000000

/-- The magnitude of infinity, which is the first one that is not finite. -/
def infinite : Nat := 0x7FF0000000000000

def ofMagnitude (negative : Bool) (magnitude : Nat) : Binary64 :=
  ⟨UInt64.ofNat (if negative then signBit + magnitude else magnitude)⟩

def negative (x : Binary64) : Bool := decide (signBit ≤ x.bits.toNat)

def magnitude (x : Binary64) : Nat := x.bits.toNat % signBit

def isFinite (x : Binary64) : Bool := decide (x.magnitude < infinite)

def isNaN (x : Binary64) : Bool := decide (infinite < x.magnitude)

def isZero (x : Binary64) : Bool := decide (x.magnitude = 0)

/-- Numeric equality: the zeros are equal to each other, and a NaN is equal to nothing. -/
def numEq (x y : Binary64) : Bool :=
  !x.isNaN && !y.isNaN && (decide (x.bits = y.bits) || (x.isZero && y.isZero))

/-! ### The value of a finite number -/

def significand (x : Binary64) : Nat :=
  if x.magnitude < leadingBit then x.magnitude else x.magnitude % leadingBit + leadingBit

def scale (x : Binary64) : Nat := x.magnitude / leadingBit - 1

/-- The absolute value as a quotient of natural numbers whose denominator is a power of two. -/
def ratio (x : Binary64) : Nat × Nat :=
  (x.significand * Nat.pow 2 (x.scale - 1074), Nat.pow 2 (1074 - x.scale))

/-- No fractional part. -/
def isIntegral (x : Binary64) : Bool := decide (x.ratio.1 % x.ratio.2 = 0)

/-! ### Arithmetic, rounded to nearest -/

def ofFloat (x : Float) : Binary64 := ⟨x.toBits⟩

def toFloat (x : Binary64) : Float := Float.ofBits x.bits

def add (x y : Binary64) : Binary64 := ofFloat (x.toFloat + y.toFloat)

def sub (x y : Binary64) : Binary64 := ofFloat (x.toFloat - y.toFloat)

def mul (x y : Binary64) : Binary64 := ofFloat (x.toFloat * y.toFloat)

def div (x y : Binary64) : Binary64 := ofFloat (x.toFloat / y.toFloat)

end Binary64

end SinglePass
