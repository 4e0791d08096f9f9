/- # Integers in decimal

The integers of 64 bits as text: one optional sign and then digits, at least one of them and as many
leading zeros as one likes.  The sign of an integer without negative values can only be a plus.
-/

namespace BytecodeVm

/-- The number that a list of decimal digits denotes, read from the left after those that denote the
given one. -/
def digitsValue (start : Nat) (digits : List Char) : Nat :=
  digits.foldl (fun n c => 10 * n + (c.toNat - '0'.toNat)) start

/-- One or more ASCII digits. -/
def parseDigits? (text : List Char) : Option Nat :=
  if text ≠ [] ∧ text.all Char.isDigit then some (digitsValue 0 text) else none

/-- An integer, if it is one from -2^63 to 2^63 - 1. -/
def checkInt64? (z : Int) : Option Int :=
  if -0x8000000000000000 ≤ z ∧ z < 0x8000000000000000 then some z else none

/-- The integer with one more digit at its end, which counts in the direction of the sign.  Neither
step may leave the range. -/
def appendDigit? (negative : Bool) (z : Int) (c : Char) : Option Int := do
  guard c.isDigit
  let tens ← checkInt64? (10 * z)
  let digit : Nat := c.toNat - '0'.toNat
  checkInt64? (if negative then tens - digit else tens + digit)

/-- The integer of the digits behind a sign. -/
def parseInt64Digits? (negative : Bool) (digits : List Char) : Option Int :=
  if digits = [] then none else digits.foldlM (appendDigit? negative) 0

/-- An integer from -2^63 to 2^63 - 1. -/
def parseInt64? : List Char → Option Int
  | '-' :: digits => parseInt64Digits? true digits
  | '+' :: digits => parseInt64Digits? false digits
  | digits => parseInt64Digits? false digits

/-- An integer from 0 to 2^64 - 1. -/
def parseUInt64? (text : List Char) : Option Nat :=
  let digits := if text.head? = some '+' then text.tail else text
  (parseDigits? digits).filter fun n => decide (n < 0x10000000000000000)

end BytecodeVm
