/- # Reading bytes

A reader consumes bytes from a cursor.  A primitive read takes a fixed number of bytes or, when
there are too few, fails and moves nothing; a compound read keeps what its parts consumed before
one of them failed.

* `Reader.bytes`, `Reader.u8`, `Reader.u16`, `Reader.binary64`: the primitive reads;
* `Reader.counted`, `Reader.text`, `Reader.list`: reads behind a two-byte count.
-/
import BytecodeVm.Binary64.Basic
import BytecodeVm.Image.Error
import BytecodeVm.LittleEndian
import BytecodeVm.Text.Utf8

namespace BytecodeVm

/-! ## 1. Cursors -/

/-- A position in a run of bytes: how many were consumed, and the rest. -/
structure Cursor where
  offset : Nat
  rest : List UInt8
  deriving DecidableEq, Inhabited, Repr

namespace Cursor

/-- The cursor before the first of the given bytes. -/
def start (bytes : List UInt8) : Cursor :=
  ⟨0, bytes⟩

/-- How many bytes are left. -/
def remaining (c : Cursor) : Nat :=
  c.rest.length

/-- Whether nothing is left. -/
def atEnd (c : Cursor) : Bool :=
  c.rest.isEmpty

/-- The cursor `n` bytes further on. -/
def advance (c : Cursor) (n : Nat) : Cursor :=
  ⟨c.offset + n, c.rest.drop n⟩

end Cursor

/-! ## 2. Primitive reads -/

/-- A reader; a failure too says how far it came. -/
abbrev Reader := EStateM LoadError Cursor

namespace Reader

/-- The next `n` bytes. -/
def bytes (n : Nat) : Reader (List UInt8) := fun c =>
  let taken := c.rest.take n
  if taken.length = n then .ok taken (c.advance n) else .error (.unexpectedEof c.offset) c

/-- The next `width` bytes as a number, low byte first. -/
def littleEndian (width : Nat) : Reader Nat :=
  LittleEndian.decode <$> bytes width

/-- A number of one byte. -/
def u8 : Reader UInt8 :=
  UInt8.ofNat <$> littleEndian 1

/-- A number of two bytes. -/
def u16 : Reader UInt16 :=
  UInt16.ofNat <$> littleEndian 2

/-- A double, given by its pattern. -/
def binary64 : Reader Binary64 :=
  (fun n => ⟨UInt64.ofNat n⟩) <$> littleEndian 8

/-- The current position; nothing is consumed. -/
def position : Reader Nat :=
  Cursor.offset <$> get

/-! ## 3. Compound reads -/

/-- A count and that many bytes. -/
def counted : Reader (List UInt8) := do
  let count ← u16
  bytes count.toNat

/-- A counted run of bytes that is UTF-8.  If it is not, all of it is consumed, and the failure is
reported where the count stands. -/
def text : Reader String := do
  let start ← position
  let content ← counted
  match Utf8.decode content with
  | some s => pure s
  | none => throw (.invalidUtf8 start)

/-- The elements from the given position on, so many of them. -/
def elements {α : Type} (element : UInt16 → Reader α) : Nat → UInt16 → Reader (List α)
  | 0, _ => pure []
  | count + 1, index => do
    let head ← element index
    let tail ← elements element count (index + 1)
    pure (head :: tail)

/-- A count and that many elements, each of which is told its position. -/
def list {α : Type} (element : UInt16 → Reader α) : Reader (List α) := do
  let count ← u16
  elements element count.toNat 0

end Reader

end BytecodeVm
