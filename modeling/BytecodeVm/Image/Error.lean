/- # Load errors

The ways in which an image fails to load, and their wording.
-/
import BytecodeVm.Text.Hex

namespace BytecodeVm

/-- Why an image was refused.  An `offset` is a position in the image. -/
inductive LoadError where
  | badMagic (found : List UInt8)
  | unknownConstantKind (tag : UInt8) (offset : Nat)
  | unexpectedEof (offset : Nat)
  | invalidUtf8 (offset : Nat)
  | streamFailed
  deriving DecidableEq, Inhabited, Repr

/-- What the user is told. -/
def LoadError.message : LoadError → String
  | badMagic found =>
    s!"invalid VBC magic number: expected \"VBC\", found {Hex.list found}"
  | unknownConstantKind tag offset =>
    s!"unknown constant kind {Hex.marked tag} at offset {offset}"
  | unexpectedEof offset => s!"unexpected EOF at offset {offset}"
  | invalidUtf8 offset => s!"invalid UTF-8 string at offset {offset}"
  | streamFailed => "failed to read module stream"

end BytecodeVm
