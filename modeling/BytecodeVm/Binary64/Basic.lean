/- # Binary64: double-precision numbers as bit patterns

A number is the 64-bit pattern that encodes it, so two numbers are equal in the logic exactly when
their patterns are, NaN payloads included.  What the pattern means is read off with natural numbers:

* a finite number is a whole multiple of 2^-1074, the smallest positive number (`units`);
* without its sign bit a pattern is a natural number (`magnitude`) that grows with the number, so
  the numeric order is the order of `key`, the magnitude with the sign put back (`partialCompare?`);
* `nearestMagnitude` is the one rounding step: every operation is exact arithmetic on units
  followed by it.
-/

namespace BytecodeVm

/-- A double-precision number, held as the pattern that encodes it. -/
structure Binary64 where
  bits : UInt64
  deriving DecidableEq, Inhabited, Repr

namespace Binary64

/-! ## 1. Reading a pattern -/

/-- The sign bit, 2^63. -/
def signBit : Nat :=
  1 <<< 63

/-- How many numbers share an exponent, 2^52. -/
def binade : Nat :=
  1 <<< 52

/-- The pattern without its sign bit. -/
def magnitude (x : Binary64) : Nat :=
  x.bits.toNat % signBit

/-- Whether the sign bit is set; it is also set on a negative zero and may be set on a NaN. -/
def negative (x : Binary64) : Bool :=
  decide (signBit ≤ x.bits.toNat)

/-- The magnitude of the infinities; every larger one is a NaN. -/
def infinityMagnitude : Nat :=
  2047 * binade

/-- The number with the given sign bit and magnitude. -/
def ofParts (negative : Bool) (magnitude : Nat) : Binary64 :=
  ⟨UInt64.ofNat (if negative then signBit + magnitude else magnitude)⟩

/-- The positive zero. -/
def zero : Binary64 :=
  ofParts false 0

/-- The NaN that operations give. -/
def nan : Binary64 :=
  ofParts false (infinityMagnitude + binade / 2)

/-- The infinity of the given sign. -/
def infinity (negative : Bool) : Binary64 :=
  ofParts negative infinityMagnitude

/-- Whether the pattern encodes no number. -/
def isNaN (x : Binary64) : Bool :=
  decide (infinityMagnitude < x.magnitude)

/-- Whether the pattern encodes one of the infinities. -/
def isInfinite (x : Binary64) : Bool :=
  decide (x.magnitude = infinityMagnitude)

/-- Whether the pattern encodes one of the zeros. -/
def isZero (x : Binary64) : Bool :=
  decide (x.magnitude = 0)

/-! ## 2. Finite numbers as whole multiples of 2^-1074 -/

/-- The significand of a finite number: the low 52 bits, with the implicit leading bit unless the
number is subnormal. -/
def significand (x : Binary64) : Nat :=
  if x.magnitude < binade then x.magnitude else binade + x.magnitude % binade

/-- The power of two by which the significand is scaled up from the smallest unit.  Subnormal
numbers and those of the first binade share the scale 0. -/
def scale (x : Binary64) : Nat :=
  x.magnitude / binade - 1

/-- The absolute value of a finite number, counted in units of 2^-1074. -/
def units (x : Binary64) : Nat :=
  x.significand <<< x.scale

/-- How many units make one, 2^1074. -/
def unitsPerOne : Nat :=
  1 <<< 1074

/-- The value of a finite number, counted in units of 2^-1074. -/
def signedUnits (x : Binary64) : Int :=
  if x.negative then -(x.units : Int) else x.units

/-! ## 3. Rounding -/

/-- The natural number nearest to `num / den`; half-way cases go to the even neighbour. -/
def roundHalfEven (num den : Nat) : Nat :=
  let quotient := num / den
  let twice := 2 * (num % den)
  if twice < den then quotient
  else if den < twice then quotient + 1
  else quotient + quotient % 2

/-- The magnitude of the number nearest to `num / den` units.

The scale is chosen so that the quotient has 53 significant bits, or is 0 for small quotients.  A
significand that rounds up to 2^53 carries into the exponent by the addition, which is the next
number up, and whatever passes the largest finite magnitude is an infinity. -/
def nearestMagnitude (num den : Nat) : Nat :=
  let scale := Nat.log2 (num / den) - 52
  min infinityMagnitude (scale * binade + roundHalfEven num (den <<< scale))

/-- The number nearest to `num / den` units, with the given sign. -/
def ofUnits (negative : Bool) (num den : Nat) : Binary64 :=
  ofParts negative (nearestMagnitude num den)

/-- The number nearest to an integer; zero is the positive zero. -/
def ofInt (z : Int) : Binary64 :=
  ofUnits (decide (z < 0)) (z.natAbs * unitsPerOne) 1

/-! ## 4. Order and equality -/

/-- The magnitude with the sign put back.  It grows with the number, and both zeros have key 0. -/
def key (x : Binary64) : Int :=
  if x.negative then -(x.magnitude : Int) else x.magnitude

/-- Numeric equality: the two zeros are equal and a NaN equals nothing. -/
def numericallyEqual (x y : Binary64) : Bool :=
  !x.isNaN && !y.isNaN && decide (x.key = y.key)

/-- Numeric order, undefined as soon as one side is a NaN. -/
def partialCompare? (x y : Binary64) : Option Ordering :=
  if x.isNaN || y.isNaN then none else some (compare x.key y.key)

end Binary64

end BytecodeVm
