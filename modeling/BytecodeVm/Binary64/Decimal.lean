/- # The shortest decimal of a double

Among the decimals that read back as a given number the one with the fewest digits is chosen, of
several such the one nearest to the number, and of two equally near ones the larger.

* `Decimal.toMagnitude` reads a decimal: the magnitude of the nearest number.
* `Binary64.decimalAt?` looks at one grid, the multiples of a power of ten.  Only the two multiples
  around the number matter: if any multiple reads back, one of these two does.
* `Binary64.shortestDecimal` tries finer and finer grids and takes the first hit.
-/
import BytecodeVm.Binary64.Basic

namespace BytecodeVm

/-- The decimal number `coefficient · 10^power`. -/
structure Decimal where
  coefficient : Nat
  power : Int
  deriving DecidableEq, Inhabited, Repr

namespace Decimal

/-- How many decimal digits a natural number is written with. -/
def digitCount (n : Nat) : Nat :=
  (Nat.toDigits 10 n).length

/-- The power of ten of the first digit. -/
def exponent (d : Decimal) : Int :=
  d.power + ((digitCount d.coefficient : Int) - 1)

/-- The magnitude of the number nearest to a decimal. -/
def toMagnitude (d : Decimal) : Nat :=
  let units := d.coefficient * Binary64.unitsPerOne
  match d.power with
  | .ofNat p => Binary64.nearestMagnitude (units * Nat.pow 10 p) 1
  | .negSucc p => Binary64.nearestMagnitude units (Nat.pow 10 (p + 1))

/-- The same decimal without trailing zeros in its coefficient. -/
def trim (d : Decimal) : Decimal :=
  if h : 0 < d.coefficient ∧ d.coefficient % 10 = 0 then
    trim ⟨d.coefficient / 10, d.power + 1⟩
  else d
termination_by d.coefficient
decreasing_by
  obtain ⟨h, -⟩ := h
  exact Nat.div_lt_self h (by decide)

end Decimal

namespace Binary64

/-- The absolute value of a finite number as a fraction counted in multiples of `10^power`. -/
def ratioAt (x : Binary64) (power : Int) : Nat × Nat :=
  match power with
  | .ofNat p => (x.units, unitsPerOne * Nat.pow 10 p)
  | .negSucc p => (x.units * Nat.pow 10 (p + 1), unitsPerOne)

/-- The power of ten of the first digit of a finite non-zero number: the largest `e` with `10^e` at
most the number's absolute value. -/
def decimalExponent (x : Binary64) : Int :=
  if unitsPerOne ≤ x.units then
    (Decimal.digitCount (x.units / unitsPerOne) : Int) - 1
  else
    -(Decimal.digitCount ((unitsPerOne - 1) / x.units) : Int)

/-- Of the two multiples of `10^power` around the number, the nearest one that reads back. -/
def decimalAt? (x : Binary64) (power : Int) : Option Decimal :=
  let (num, den) := x.ratioAt power
  let below : Decimal := ⟨num / den, power⟩
  let above : Decimal := ⟨num / den + 1, power⟩
  let (near, far) := if 2 * (num % den) < den then (below, above) else (above, below)
  if near.toMagnitude = x.magnitude then some near
  else if far.toMagnitude = x.magnitude then some far
  else none

/-- The first hit on the grids of `10^power`, `10^(power - 1)`, and so on. -/
def decimalBelow (x : Binary64) : Nat → Int → Decimal
  | 0, power => ⟨0, power⟩
  | tries + 1, power => (x.decimalAt? power).getD (x.decimalBelow tries (power - 1))

/-- The shortest decimal that reads back as the absolute value of a finite number.

A finite number is a decimal of at most 767 digits itself, so a search over that many grids always
ends with a hit. -/
def shortestDecimal (x : Binary64) : Decimal :=
  if x.isZero then ⟨0, 0⟩ else (x.decimalBelow 767 x.decimalExponent).trim

end Binary64

end BytecodeVm
