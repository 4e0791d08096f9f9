/- # Quoted text

A text between double quotes, in which everything that would not show as itself is escaped: the
quote and the backslash, line breaks, tabs and NUL by a letter, and characters that are unprintable,
that a display may leave out or that would join the one before them by their code point in
hexadecimal.
-/
import BytecodeVm.Text.DefaultIgnorable
import BytecodeVm.Text.ExtendingMark
import BytecodeVm.Text.Unprintable

namespace BytecodeVm.Quoted

/-- Whether a character shows as itself wherever it stands in a text. -/
def isVisible (c : Char) : Bool :=
  !(CharSet.extendingMark.contains c || CharSet.unprintable.contains c
    || CharSet.defaultIgnorable.contains c)

/-- The code point of a character in lower-case hexadecimal, in braces after a backslash and a u. -/
def codePoint (c : Char) : List Char :=
  '\\' :: 'u' :: '\x7b' :: Nat.toDigits 16 c.toNat ++ ['\x7d']

/-- A character as it stands inside quotes. -/
def escape : Char → List Char
  | '"' => ['\\', '"']
  | '\\' => ['\\', '\\']
  | '\n' => ['\\', 'n']
  | '\r' => ['\\', 'r']
  | '\t' => ['\\', 't']
  | '\x00' => ['\\', '0']
  | c => if isVisible c then [c] else codePoint c

/-- A text in quotes. -/
def quote (text : String) : String :=
  String.ofList ('"' :: text.toList.flatMap escape ++ ['"'])

end BytecodeVm.Quoted
