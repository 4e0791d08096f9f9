/- # Blanks

The characters with the Unicode property White_Space, and removing them from the ends of a text.
-/
import BytecodeVm.Text.CharSet

namespace BytecodeVm

/-- The characters with the property White_Space. -/
def CharSet.whiteSpace : CharSet where
  ranges := [
    (0x0009, 0x000d), (0x0020, 0x0020), (0x0085, 0x0085), (0x00a0, 0x00a0), (0x1680, 0x1680),
    (0x2000, 0x200a), (0x2028, 0x2029), (0x202f, 0x202f), (0x205f, 0x205f), (0x3000, 0x3000)]

/-- Whether a character is a blank. -/
def isBlank (c : Char) : Bool :=
  CharSet.whiteSpace.contains c

/-- A text without the blanks at its two ends. -/
def trimBlanks (text : List Char) : List Char :=
  ((text.dropWhile isBlank).reverse.dropWhile isBlank).reverse

end BytecodeVm
