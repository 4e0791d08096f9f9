/- # The linear decode

Code is decoded linearly by stepping from offset 0 over whole instructions, whether or not control
ever reaches them.  `Code.scanSlots` does so to find how many local slots the code names; it fails
at the first byte that names no operation.  An instruction that is cut off by the end of the code
is left for the run to report.
-/
import BytecodeVm.Code.Instr
import BytecodeVm.Program
import BytecodeVm.Trap

namespace BytecodeVm.Code

/-- The operand at an offset, if both of its bytes are there. -/
def operand? (code : Code) (offset : Nat) : Option UInt16 :=
  match code[offset]?, code[offset + 1]? with
  | some low, some high => some (Instr.decodeOperand low high)
  | _, _ => none

/-- How many slots the instruction at an offset asks for: one more than the slot that it names. -/
def slotsNamed (code : Code) (op : Opcode) (offset : Nat) : Nat :=
  match op with
  | .loadLocal | .storeLocal =>
    match operand? code (offset + 1) with
    | some slot => slot.toNat + 1
    | none => 0
  | _ => 0

/-- The linear decode from an offset on, with the number of slots found so far. -/
def scanFrom (code : Code) (offset slots : Nat) : Except Trap Nat :=
  if h : offset < code.size then
    match Opcode.ofByte? code[offset] with
    | some op => scanFrom code (offset + op.encodedLength) (max slots (slotsNamed code op offset))
    | none => .error (.unknownOpcode code[offset] offset)
  else .ok slots
termination_by code.size - offset
decreasing_by
  have := op.encodedLength_pos
  omega

/-- The number of slots that the code names, and at least one. -/
def scanSlots (code : Code) : Except Trap Nat :=
  scanFrom code 0 1

end BytecodeVm.Code
