/- # Traps

The ways in which running a program fails.  A trap carries its cause; `Trap.message` is its wording
and `Trap.chain` the wording followed by that of the fault behind it.
-/
import BytecodeVm.Code.Opcode
import BytecodeVm.Native
import BytecodeVm.Text.Hex
import BytecodeVm.Text.Quoted
import BytecodeVm.Value

namespace BytecodeVm

/-- Who asked for a value of a certain kind: an instruction or the host. -/
inductive Context where
  | instruction (op : Opcode)
  | host
  deriving DecidableEq, Inhabited, Repr

/-- The name under which a context is reported. -/
def Context.name : Context → String
  | instruction op => op.mnemonic
  | host => "HOST"

/-- The ways in which the console's streams fail. -/
inductive StreamFault where
  | readFailed | notUtf8 | full | flushFailed
  deriving DecidableEq, Inhabited, Repr

/-- What the user is told of a fault. -/
def StreamFault.message : StreamFault → String
  | readFailed => "the input stream failed"
  | notUtf8 => "stream did not contain valid UTF-8"
  | full => "failed to write whole buffer"
  | flushFailed => "the output stream could not be flushed"

/-- Why a run was stopped.  An `offset` is a position in the code of the running body. -/
inductive Trap where
  | unknownOpcode (byte : UInt8) (offset : Nat)
  | missingBody (callee : UInt16)
  | missingEntry (suffix : String)
  | typeMismatch (context : Context) (expected found : Kind)
  | indexOutOfRange (index length : Nat)
  | constantOutOfRange (index : UInt16) (size : Nat)
  | localOutOfRange (slot : UInt16) (slots : Nat)
  | stackUnderflow (op : Opcode) (offset : Nat)
  | truncatedOperand (op : Opcode) (offset : Nat)
  | noHandler (offset : Nat)
  | unknownNative (id : UInt16)
  | nativeArity (native : Native) (found : Nat)
  | invalidNumber (line : String)
  | depthExceeded (limit : Nat)
  | unhandledAbort (text : String)
  | stream (fault : StreamFault)
  deriving DecidableEq, Inhabited, Repr

namespace Trap

/-- What the user is told. -/
def message : Trap → String
  | unknownOpcode byte offset => s!"unknown opcode {Hex.marked byte} at offset {offset}"
  | missingBody callee => s!"no method body for pool index {callee}"
  | missingEntry suffix => s!"no method constant ending with {Quoted.quote suffix} in module"
  | typeMismatch context expected found =>
    s!"type mismatch ({context.name}): expected {expected.name}, found {found.name}"
  | indexOutOfRange index length =>
    s!"array index {index} is out of range for length {length}"
  | constantOutOfRange index size =>
    s!"constant pool index {index} is out of range for pool of {size}"
  | localOutOfRange slot slots =>
    s!"local slot {slot} is out of range for frame of {slots} slots"
  | stackUnderflow op offset => s!"operand stack underflow in {op.mnemonic} at offset {offset}"
  | truncatedOperand op offset => s!"truncated operand for {op.mnemonic} at offset {offset}"
  | noHandler offset => s!"LEAVE_ATTEMPT at offset {offset} with no active attempt handler"
  | unknownNative id => s!"unknown native function id {id}"
  | nativeArity native found =>
    s!"native {native.name} expects {native.arity} argument(s), got {found}"
  | invalidNumber line => s!"invalid number input: {Quoted.quote line}"
  | depthExceeded limit => s!"call depth limit of {limit} exceeded"
  | unhandledAbort text => s!"unhandled abort: {text}"
  | stream _ => "native I/O failed"

/-- The message of a trap and of the fault that caused it. -/
def chain : Trap → String
  | stream fault => s!"{message (stream fault)}: {fault.message}"
  | trap => trap.message

end Trap

end BytecodeVm
