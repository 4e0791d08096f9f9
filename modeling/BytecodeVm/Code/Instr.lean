/- # Instructions

An instruction is an operation with its operands.  `Instr.encode` lays it out as its opcode byte
followed by its operands, low byte first, and `Instr.assemble` lays out a list of them.
-/
import BytecodeVm.Code.Opcode
import BytecodeVm.LittleEndian

namespace BytecodeVm

/-- One instruction.  Operands are pool indices, slots, argument counts or code offsets. -/
inductive Instr where
  | nop
  | pop
  | dup
  | loadLocal (slot : UInt16)
  | storeLocal (slot : UInt16)
  | loadConst (index : UInt16)
  | loadNull
  | loadTrue
  | loadFalse
  | newObj (type : UInt16)
  | loadMember (field : UInt16)
  | storeMember (field : UInt16)
  | call (callee argc : UInt16)
  | callCtor (callee argc : UInt16)
  | ret
  | callNative (id argc : UInt16)
  | add
  | sub
  | mul
  | div
  | mod
  | neg
  | not
  | ceq
  | cne
  | clt
  | cle
  | cgt
  | cge
  | jmp (target : UInt16)
  | jmpTrue (target : UInt16)
  | jmpFalse (target : UInt16)
  | abort
  | enterAttempt (target : UInt16)
  | leaveAttempt
  | enterDebrief
  | leaveDebrief
  deriving DecidableEq, Inhabited, Repr

namespace Instr

/-- The operation of an instruction. -/
def opcode : Instr → Opcode
  | nop => .nop
  | pop => .pop
  | dup => .dup
  | loadLocal _ => .loadLocal
  | storeLocal _ => .storeLocal
  | loadConst _ => .loadConst
  | loadNull => .loadNull
  | loadTrue => .loadTrue
  | loadFalse => .loadFalse
  | newObj _ => .newObj
  | loadMember _ => .loadMember
  | storeMember _ => .storeMember
  | call _ _ => .call
  | callCtor _ _ => .callCtor
  | ret => .ret
  | callNative _ _ => .callNative
  | add => .add
  | sub => .sub
  | mul => .mul
  | div => .div
  | mod => .mod
  | neg => .neg
  | not => .not
  | ceq => .ceq
  | cne => .cne
  | clt => .clt
  | cle => .cle
  | cgt => .cgt
  | cge => .cge
  | jmp _ => .jmp
  | jmpTrue _ => .jmpTrue
  | jmpFalse _ => .jmpFalse
  | abort => .abort
  | enterAttempt _ => .enterAttempt
  | leaveAttempt => .leaveAttempt
  | enterDebrief => .enterDebrief
  | leaveDebrief => .leaveDebrief

/-- The operands of an instruction, in the order in which they are laid out. -/
def operands : Instr → List UInt16
  | loadLocal a | storeLocal a | loadConst a | newObj a | loadMember a | storeMember a => [a]
  | jmp a | jmpTrue a | jmpFalse a | enterAttempt a => [a]
  | call a b | callCtor a b | callNative a b => [a, b]
  | _ => []

/-- An instruction has as many operands as its opcode takes. -/
theorem length_operands (i : Instr) : i.operands.length = i.opcode.operandCount := by
  cases i <;> rfl

/-- An operand, low byte first. -/
def encodeOperand (operand : UInt16) : List UInt8 :=
  LittleEndian.encode Opcode.operandWidth operand.toNat

/-- The two bytes of an operand, put together. -/
def decodeOperand (low high : UInt8) : UInt16 :=
  UInt16.ofNat (LittleEndian.decode [low, high])

/-- The bytes of an instruction. -/
def encode (i : Instr) : List UInt8 :=
  i.opcode.byte :: i.operands.flatMap encodeOperand

/-- The bytes of a list of instructions. -/
def assemble (instrs : List Instr) : List UInt8 :=
  instrs.flatMap encode

/-- An instruction takes as many bytes as its opcode says. -/
theorem length_encode (i : Instr) : i.encode.length = i.opcode.encodedLength := by
  cases i <;> rfl

end Instr

end BytecodeVm
