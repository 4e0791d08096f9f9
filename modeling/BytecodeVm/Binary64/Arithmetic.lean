/- # Arithmetic on doubles

Each operation first settles NaNs, infinities and zeros, and then takes the exact result over units
of 2^-1074 and rounds it once (`Binary64.ofUnits`).

* `add`: a sum that is exactly zero is positive unless both operands are negative zeros;
* `mul`, `div`: the sign is the exclusive or of the signs, also on zeros and infinities;
* `rem`: the remainder of the division that truncates, which is exact and takes the sign of the
  dividend.
-/
import BytecodeVm.Binary64.Basic

namespace BytecodeVm.Binary64

/-- Flips the sign bit. -/
def neg (x : Binary64) : Binary64 :=
  ofParts (!x.negative) x.magnitude

/-- The sum.  Infinities of opposite signs have none. -/
def add (x y : Binary64) : Binary64 :=
  if x.isNaN || y.isNaN then nan
  else if x.isInfinite then
    if y.isInfinite && x.negative != y.negative then nan else x
  else if y.isInfinite then y
  else
    let sum := x.signedUnits + y.signedUnits
    if sum = 0 then ofParts (x.negative && y.negative) 0
    else ofUnits (decide (sum < 0)) sum.natAbs 1

/-- The difference: the sum with the negated second operand. -/
def sub (x y : Binary64) : Binary64 :=
  x.add y.neg

/-- The product.  An infinity times a zero has none. -/
def mul (x y : Binary64) : Binary64 :=
  let sign := x.negative != y.negative
  if x.isNaN || y.isNaN then nan
  else if x.isInfinite then
    if y.isZero then nan else infinity sign
  else if y.isInfinite then
    if x.isZero then nan else infinity sign
  else ofUnits sign (x.units * y.units) unitsPerOne

/-- The quotient.  Zero by zero and infinity by infinity have none. -/
def div (x y : Binary64) : Binary64 :=
  let sign := x.negative != y.negative
  if x.isNaN || y.isNaN then nan
  else if x.isInfinite then
    if y.isInfinite then nan else infinity sign
  else if y.isInfinite then ofParts sign 0
  else if y.isZero then
    if x.isZero then nan else infinity sign
  else ofUnits sign (x.units * unitsPerOne) y.units

/-- The remainder.  There is none of an infinity or by a zero. -/
def rem (x y : Binary64) : Binary64 :=
  if x.isNaN || y.isNaN || x.isInfinite || y.isZero then nan
  else if y.isInfinite then x
  else ofUnits x.negative (x.units % y.units) 1

end BytecodeVm.Binary64
