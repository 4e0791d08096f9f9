/- # Opcodes

One byte names an operation; two-byte operands follow it, as many as the operation takes.

* `Opcode.ofByte?_byte`: the byte of an operation names it.
-/

namespace BytecodeVm

/-- The operations of the machine, grouped as their bytes are. -/
inductive Opcode where
  | nop | pop | dup
  | loadLocal | storeLocal
  | loadConst | loadNull | loadTrue | loadFalse
  | newObj | loadMember | storeMember
  | call | callCtor | ret | callNative
  | add | sub | mul | div | mod | neg | not
  | ceq | cne | clt | cle | cgt | cge
  | jmp | jmpTrue | jmpFalse
  | abort | enterAttempt | leaveAttempt | enterDebrief | leaveDebrief
  deriving DecidableEq, Inhabited, Repr

namespace Opcode

/-- The byte that names an operation. -/
def byte : Opcode → UInt8
  | nop => 0x00
  | pop => 0x01
  | dup => 0x02
  | loadLocal => 0x10
  | storeLocal => 0x11
  | loadConst => 0x20
  | loadNull => 0x21
  | loadTrue => 0x22
  | loadFalse => 0x23
  | newObj => 0x30
  | loadMember => 0x31
  | storeMember => 0x32
  | call => 0x40
  | callCtor => 0x41
  | ret => 0x42
  | callNative => 0x43
  | add => 0x50
  | sub => 0x51
  | mul => 0x52
  | div => 0x53
  | mod => 0x54
  | neg => 0x55
  | not => 0x56
  | ceq => 0x60
  | cne => 0x61
  | clt => 0x62
  | cle => 0x63
  | cgt => 0x64
  | cge => 0x65
  | jmp => 0x70
  | jmpTrue => 0x71
  | jmpFalse => 0x72
  | abort => 0x73
  | enterAttempt => 0x74
  | leaveAttempt => 0x75
  | enterDebrief => 0x76
  | leaveDebrief => 0x77

/-- The operation that a byte names, if it names one. -/
def ofByte? : UInt8 → Option Opcode
  | 0x00 => some nop
  | 0x01 => some pop
  | 0x02 => some dup
  | 0x10 => some loadLocal
  | 0x11 => some storeLocal
  | 0x20 => some loadConst
  | 0x21 => some loadNull
  | 0x22 => some loadTrue
  | 0x23 => some loadFalse
  | 0x30 => some newObj
  | 0x31 => some loadMember
  | 0x32 => some storeMember
  | 0x40 => some call
  | 0x41 => some callCtor
  | 0x42 => some ret
  | 0x43 => some callNative
  | 0x50 => some add
  | 0x51 => some sub
  | 0x52 => some mul
  | 0x53 => some div
  | 0x54 => some mod
  | 0x55 => some neg
  | 0x56 => some not
  | 0x60 => some ceq
  | 0x61 => some cne
  | 0x62 => some clt
  | 0x63 => some cle
  | 0x64 => some cgt
  | 0x65 => some cge
  | 0x70 => some jmp
  | 0x71 => some jmpTrue
  | 0x72 => some jmpFalse
  | 0x73 => some abort
  | 0x74 => some enterAttempt
  | 0x75 => some leaveAttempt
  | 0x76 => some enterDebrief
  | 0x77 => some leaveDebrief
  | _ => none

/-- The name under which an operation is reported. -/
def mnemonic : Opcode → String
  | nop => "NOP"
  | pop => "POP"
  | dup => "DUP"
  | loadLocal => "LOAD_LOCAL"
  | storeLocal => "STORE_LOCAL"
  | loadConst => "LOAD_CONST"
  | loadNull => "LOAD_NULL"
  | loadTrue => "LOAD_TRUE"
  | loadFalse => "LOAD_FALSE"
  | newObj => "NEW_OBJ"
  | loadMember => "LOAD_MEMBER"
  | storeMember => "STORE_MEMBER"
  | call => "CALL"
  | callCtor => "CALL_CTOR"
  | ret => "RET"
  | callNative => "CALL_NATIVE"
  | add => "ADD"
  | sub => "SUB"
  | mul => "MUL"
  | div => "DIV"
  | mod => "MOD"
  | neg => "NEG"
  | not => "NOT"
  | ceq => "CEQ"
  | cne => "CNE"
  | clt => "CLT"
  | cle => "CLE"
  | cgt => "CGT"
  | cge => "CGE"
  | jmp => "JMP"
  | jmpTrue => "JMP_TRUE"
  | jmpFalse => "JMP_FALSE"
  | abort => "ABORT"
  | enterAttempt => "ENTER_ATTEMPT"
  | leaveAttempt => "LEAVE_ATTEMPT"
  | enterDebrief => "ENTER_DEBRIEF"
  | leaveDebrief => "LEAVE_DEBRIEF"

/-- How many operands an operation takes. -/
def operandCount : Opcode → Nat
  | loadLocal | storeLocal | loadConst | newObj | loadMember | storeMember => 1
  | jmp | jmpTrue | jmpFalse | enterAttempt => 1
  | call | callCtor | callNative => 2
  | _ => 0

/-- The width of an operand in bytes. -/
def operandWidth : Nat :=
  2

/-- How many bytes an instruction with this opcode takes. -/
def encodedLength (op : Opcode) : Nat :=
  1 + op.operandCount * operandWidth

/-- The byte of an operation names it. -/
@[simp] theorem ofByte?_byte (op : Opcode) : ofByte? op.byte = some op := by
  cases op <;> rfl

theorem encodedLength_pos (op : Opcode) : 0 < op.encodedLength := by
  simp only [encodedLength]
  omega

end Opcode

end BytecodeVm
