/- # Events

What loading and running leave in the log, and the line that each event is logged as: a level, a
message and its fields.
-/
import BytecodeVm.Native

namespace BytecodeVm

/-- The four counted parts of an image, in their order. -/
inductive ImagePart where
  | imports | constants | types | bodies
  deriving DecidableEq, Inhabited, Repr

/-- The name under which a part is logged. -/
def ImagePart.name : ImagePart → String
  | imports => "imports"
  | constants => "constants"
  | types => "types"
  | bodies => "bodies"

/-- The parts in the order in which an image holds them. -/
def ImagePart.all : List ImagePart :=
  [imports, constants, types, bodies]

/-- An entry of the log.  A `frame` is the serial number of an activation, and a `depth` the number
of activations that it lies on. -/
inductive Event where
  | partRead (part : ImagePart) (count : Nat)
  | trailingBytes (count : Nat)
  | entryResolved (name : String) (index : UInt16)
  | defaultConstructor (index : UInt16) (name : String)
  | called (callee : UInt16) (frame argc depth : Nat)
  | returned (frame depth : Nat)
  | aborted (frame : Nat) (text : String)
  | landed (frame : Nat) (target : UInt16)
  | nativeCalled (native : Native) (argc : Nat)
  deriving DecidableEq, Inhabited, Repr

/-- The line that an event is logged as. -/
def Event.line : Event → String
  | partRead part count => s!"DEBUG section read section={part.name} count={count}"
  | trailingBytes count =>
    s!"DEBUG ignoring trailing bytes after bodies section trailing={count}"
  | entryResolved name index => s!"DEBUG entry method resolved entry={name} pool_index={index}"
  | defaultConstructor index name =>
    s!"DEBUG synthesizing default constructor pool_index={index} ctor={name}"
  | called callee frame argc depth =>
    s!"TRACE call pool_index={callee} frame={frame} argc={argc} depth={depth}"
  | returned frame depth => s!"TRACE return frame={frame} depth={depth}"
  | aborted frame text => s!"TRACE abort frame={frame} value={text}"
  | landed frame target => s!"TRACE abort landed frame={frame} handler_ip={target}"
  | nativeCalled native argc => s!"TRACE native call native={native.name} argc={argc}"

end BytecodeVm
