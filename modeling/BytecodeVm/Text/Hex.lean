/- # Bytes in hexadecimal

Two upper-case digits a byte, as messages show opcodes, tags and file contents.
-/

namespace BytecodeVm.Hex

/-- One hexadecimal digit, upper case. -/
def digit (n : Nat) : Char :=
  (Nat.digitChar (n % 16)).toUpper

/-- The two digits of a byte. -/
def byte (b : UInt8) : String :=
  String.ofList [digit (b.toNat / 16), digit b.toNat]

/-- A byte marked as hexadecimal. -/
def marked (b : UInt8) : String :=
  "0x" ++ byte b

/-- A run of bytes as a bracketed list. -/
def list (bytes : List UInt8) : String :=
  "[" ++ ", ".intercalate (bytes.map byte) ++ "]"

end BytecodeVm.Hex
