/- # The text of a double

A number is written with the digits of its shortest decimal, positionally or with an exponent.  All
that a style decides is one record, `NumberStyle`, and the program has two of them:

* `NumberStyle.display`, for text that programs print, compare and concatenate;
* `NumberStyle.inspection`, for text that describes a value to its host.
-/
import BytecodeVm.Binary64.Decimal

namespace BytecodeVm

/-- What a way of writing numbers decides beyond their digits. -/
structure NumberStyle where
  /-- The exponents of the first digit from which on, and below which, a number is positional. -/
  positionalFrom : Int
  positionalBelow : Int
  /-- Whether a positional integer keeps a fraction, `.0`. -/
  keepsFraction : Bool
  exponentMark : Char
  /-- Whether an exponent that is not negative has a plus sign. -/
  signsExponent : Bool
  /-- The least number of digits of an exponent. -/
  exponentWidth : Nat
  infinity : String
  deriving Repr

/-- Positional for exponents from -5 to 14, integers without a fraction, and otherwise an exponent
with a sign and at least two digits: `1.5`, `1E+21`, `1.5E-07`. -/
def NumberStyle.display : NumberStyle where
  positionalFrom := -5
  positionalBelow := 15
  keepsFraction := false
  exponentMark := 'E'
  signsExponent := true
  exponentWidth := 2
  infinity := "Infinity"

/-- Positional from one ten-thousandth up to below 10^16, always with a fraction, and otherwise with
a bare exponent: `1.0`, `1e16`, `1.5e-7`. -/
def NumberStyle.inspection : NumberStyle where
  positionalFrom := -4
  positionalBelow := 16
  keepsFraction := true
  exponentMark := 'e'
  signsExponent := false
  exponentWidth := 1
  infinity := "inf"

namespace Decimal

/-- The digits of the coefficient. -/
def digits (d : Decimal) : List Char :=
  Nat.toDigits 10 d.coefficient

/-- A point and the digits behind it, or, when there are none, what stands for that. -/
def fraction (none : List Char) : List Char → List Char
  | [] => none
  | digits => '.' :: digits

/-- The decimal with its point where the exponent puts it. -/
def positional (d : Decimal) (keepsFraction : Bool) : List Char :=
  let noFraction := if keepsFraction then ['.', '0'] else []
  match d.exponent with
  | .ofNat e =>
    let whole := d.digits.take (e + 1)
    whole ++ List.replicate (e + 1 - whole.length) '0' ++
      fraction noFraction (d.digits.drop (e + 1))
  | .negSucc e => '0' :: fraction noFraction (List.replicate e '0' ++ d.digits)

/-- The decimal with its point after the first digit, before the exponent. -/
def significandText (d : Decimal) : List Char :=
  d.digits.take 1 ++ fraction [] (d.digits.drop 1)

end Decimal

namespace NumberStyle

/-- An exponent with its mark, its sign and its padding. -/
def exponentText (style : NumberStyle) (e : Int) : List Char :=
  let sign := if e < 0 then ['-'] else if style.signsExponent then ['+'] else []
  let digits := Nat.toDigits 10 e.natAbs
  style.exponentMark :: sign ++ List.replicate (style.exponentWidth - digits.length) '0' ++ digits

/-- A decimal, in the one of the two forms that its exponent calls for. -/
def decimalText (style : NumberStyle) (d : Decimal) : List Char :=
  if style.positionalFrom ≤ d.exponent ∧ d.exponent < style.positionalBelow then
    d.positional style.keepsFraction
  else
    d.significandText ++ style.exponentText d.exponent

/-- The text of a number.  A NaN has no sign; everything else, zeros included, shows its own. -/
def write (style : NumberStyle) (x : Binary64) : String :=
  if x.isNaN then "NaN"
  else
    let sign := if x.negative then ['-'] else []
    if x.isInfinite then String.ofList (sign ++ style.infinity.toList)
    else String.ofList (sign ++ style.decimalText x.shortestDecimal)

end NumberStyle

/-- A number as programs print it. -/
def Binary64.render (x : Binary64) : String :=
  NumberStyle.display.write x

/-- A number as it is described to the host. -/
def Binary64.inspect (x : Binary64) : String :=
  NumberStyle.inspection.write x

end BytecodeVm
