/- # The image format

An image is the magic bytes, two version bytes, and four counted parts: imports, constants, types
and bodies.  Each part has a writer and a reader; what a reader accepts is what the writer
produces.

* `Image.encode` writes a program;
* `Image.load` reads one, ignores what follows it, and logs each part as it has been read.
-/
import BytecodeVm.Event
import BytecodeVm.Image.Reader
import BytecodeVm.Program

namespace BytecodeVm.Image

/-- The bytes that every image starts with, the letters VBC. -/
def magic : List UInt8 :=
  [0x56, 0x42, 0x43]

/-! ## 1. Writing -/

/-- A number of two bytes. -/
def encodeU16 (n : Nat) : List UInt8 :=
  LittleEndian.encode 2 n

/-- A run of bytes behind its length. -/
def encodeCounted (bytes : List UInt8) : List UInt8 :=
  encodeU16 bytes.length ++ bytes

/-- A text behind its length in bytes. -/
def encodeText (text : String) : List UInt8 :=
  encodeCounted (Utf8.encode text)

/-- A list behind its length. -/
def encodeList {α : Type} (element : α → List UInt8) (xs : List α) : List UInt8 :=
  encodeU16 xs.length ++ xs.flatMap element

/-- A tag, and then the number or the name. -/
def encodeConstant (c : Constant) : List UInt8 :=
  c.kind.tag ::
    match c.number with
    | some x => LittleEndian.encode 8 x.bits.toNat
    | none => encodeText c.name

/-- The index and the number of parameters. -/
def encodeMethod (m : MethodDecl) : List UInt8 :=
  encodeU16 m.index.toNat ++ encodeU16 m.parameters.toNat

/-- The index and the methods. -/
def encodeType (t : TypeDecl) : List UInt8 :=
  encodeU16 t.index.toNat ++ encodeList encodeMethod t.methods

/-- The callable, the slots that it asks for, and the code. -/
def encodeBody (b : Body) : List UInt8 :=
  encodeU16 b.callable.toNat ++ encodeU16 b.slots.toNat ++ encodeCounted b.code.toList

/-- The image of a program. -/
def encode (p : Program) : List UInt8 :=
  magic ++ [p.major, p.minor] ++ encodeList encodeText p.imports ++
    encodeList encodeConstant p.constants.toList ++ encodeList encodeType p.types ++
    encodeList encodeBody p.bodies

/-! ## 2. Reading -/

/-- The magic bytes.  An image that is too short to hold them has bad magic, whatever it holds. -/
def readMagic : Reader Unit := do
  let found ← Reader.bytes (min (← get).remaining magic.length)
  unless found = magic do
    throw (.badMagic found)

/-- A tag, and the number or the name that its kind calls for.  An unknown tag is reported where it
stands. -/
def readConstant (index : UInt16) : Reader Constant := do
  let start ← Reader.position
  let tag ← Reader.u8
  match ConstantKind.ofTag? tag with
  | none => throw (.unknownConstantKind tag start)
  | some .number => Constant.numeric index <$> Reader.binary64
  | some kind => Constant.named index kind <$> Reader.text

/-- The index and the number of parameters. -/
def readMethod : Reader MethodDecl := do
  let index ← Reader.u16
  let parameters ← Reader.u16
  pure { index, parameters }

/-- The index and the methods. -/
def readType : Reader TypeDecl := do
  let index ← Reader.u16
  let methods ← Reader.list fun _ => readMethod
  pure { index, methods }

/-- The callable, the slots that it asks for, and the code. -/
def readBody : Reader Body := do
  let callable ← Reader.u16
  let slots ← Reader.u16
  let code ← Reader.counted
  pure { callable, slots, code := code.toArray }

/-! ## 3. Loading -/

/-- The state of loading: the cursor, and the events so far. -/
structure Progress where
  cursor : Cursor
  events : Array Event
  deriving DecidableEq, Inhabited, Repr

/-- A reader that also logs; the log survives a failure. -/
abbrev Loader := EStateM LoadError Progress

namespace Loader

/-- Reads at the cursor; nothing is logged. -/
def read {α : Type} (reader : Reader α) : Loader α := fun s =>
  match reader s.cursor with
  | .ok a cursor => .ok a { s with cursor }
  | .error e cursor => .error e { s with cursor }

/-- Adds an event to the log. -/
def log (event : Event) : Loader Unit :=
  modify fun s => { s with events := s.events.push event }

/-- A counted part, logged once all of it has been read. -/
def part {α : Type} (part : ImagePart) (element : UInt16 → Reader α) : Loader (List α) := do
  let xs ← read (Reader.list element)
  log (.partRead part xs.length)
  pure xs

/-- A whole program; what follows it is only counted. -/
def program : Loader Program := do
  read readMagic
  let major ← read Reader.u8
  let minor ← read Reader.u8
  let imports ← part .imports fun _ => Reader.text
  let constants ← part .constants readConstant
  let types ← part .types fun _ => readType
  let bodies ← part .bodies fun _ => readBody
  let cursor := (← get).cursor
  unless cursor.atEnd do
    log (.trailingBytes cursor.remaining)
  pure { major, minor, imports, constants := constants.toArray, types, bodies }

end Loader

/-- How loading ended, and what it logged. -/
structure LoadReport where
  result : Except LoadError Program
  events : Array Event

/-- The program that the bytes hold. -/
def load (bytes : List UInt8) : LoadReport :=
  match Loader.program ⟨Cursor.start bytes, #[]⟩ with
  | .ok program s => ⟨.ok program, s.events⟩
  | .error e s => ⟨.error e, s.events⟩

/-! ## 4. Loading from a stream -/

/-- A stream of bytes.  One read yields at most `chunk` bytes, and a read that yields none ends the
stream; a read at position `failAt` fails. -/
structure ByteStream where
  bytes : List UInt8
  chunk : Option Nat
  failAt : Option Nat

/-- All that can be read, unless a read fails before the end is seen. -/
def ByteStream.contents? (s : ByteStream) : Option (List UInt8) :=
  let visible := if s.chunk = some 0 then [] else s.bytes
  match s.failAt with
  | some position => if position ≤ visible.length then none else some visible
  | none => some visible

/-- The program that a stream holds.  The stream is read to its end before anything else. -/
def loadStream (s : ByteStream) : LoadReport :=
  match s.contents? with
  | some bytes => load bytes
  | none => ⟨.error .streamFailed, #[]⟩

end BytecodeVm.Image
