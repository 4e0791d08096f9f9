/- # Frames

A frame is one activation of a body at work: where it is in its code, its local slots and its
operand stack.  The operations on it either succeed or trap; a trap leaves the frame as it was,
except that fetching a byte that names no operation has moved past it.

* `Frame.create` sizes the local slots and binds the arguments to the first of them;
* `Frame.fetch`, `Frame.operand` and `Frame.decode` read the code;
* the rest move values between stack and slots.
-/
import BytecodeVm.Code.Scan

namespace BytecodeVm

/-! ## 1. Operand stacks -/

/-- An operand stack, the top first. -/
abbrev OperandStack := List Value

/-- The top `n` values in the order in which they were pushed, and the stack beneath them. -/
def OperandStack.popMany? (stack : OperandStack) (n : Nat) :
    Option (List Value × OperandStack) :=
  let top := stack.take n
  if top.length = n then some (top.reverse, stack.drop n) else none

/-! ## 2. Frames -/

/-- One activation of a body.  `opOffset` is where the instruction at work starts. -/
structure Frame where
  code : Code
  ip : Nat
  opOffset : Nat
  locals : Array Value
  stack : OperandStack
  deriving DecidableEq, Inhabited, Repr

/-- An operation on a frame. -/
abbrev OnFrame := EStateM Trap Frame

namespace Frame

/-- Local slots for the given arguments: so many of them, null where there is no argument.  Surplus
arguments are dropped. -/
def bindArguments (size : Nat) (args : List Value) : Array Value :=
  (args.take size ++ List.replicate (size - args.length) Value.null).toArray

/-- A frame at the start of its code, with the slots that were asked for or, if that is more, those
that the code names. -/
def create (code : Code) (slots : Nat) (args : List Value) : Except Trap Frame := do
  let named ← Code.scanSlots code
  let locals := bindArguments (max slots named) args
  return { code, ip := 0, opOffset := 0, locals, stack := [] }

/-! ## 3. Reading the code -/

/-- The operation at the instruction pointer, which moves past it; none past the end of the code. -/
def fetch : OnFrame (Option Opcode) := fun f =>
  match f.code[f.ip]? with
  | none => .ok none f
  | some byte =>
    let f' := { f with opOffset := f.ip, ip := f.ip + 1 }
    match Opcode.ofByte? byte with
    | some op => .ok (some op) f'
    | none => .error (.unknownOpcode byte f.ip) f'

/-- The next operand of the operation at work. -/
def operand (op : Opcode) : OnFrame UInt16 := fun f =>
  match Code.operand? f.code f.ip with
  | some n => .ok n { f with ip := f.ip + Opcode.operandWidth }
  | none => .error (.truncatedOperand op f.opOffset) f

/-- The instruction of a fetched operation, once its operands have been read. -/
def decodeOperands (op : Opcode) : OnFrame Instr :=
  match op with
  | .nop => pure .nop
  | .pop => pure .pop
  | .dup => pure .dup
  | .loadLocal => .loadLocal <$> operand op
  | .storeLocal => .storeLocal <$> operand op
  | .loadConst => .loadConst <$> operand op
  | .loadNull => pure .loadNull
  | .loadTrue => pure .loadTrue
  | .loadFalse => pure .loadFalse
  | .newObj => .newObj <$> operand op
  | .loadMember => .loadMember <$> operand op
  | .storeMember => .storeMember <$> operand op
  | .call => .call <$> operand op <*> operand op
  | .callCtor => .callCtor <$> operand op <*> operand op
  | .ret => pure .ret
  | .callNative => .callNative <$> operand op <*> operand op
  | .add => pure .add
  | .sub => pure .sub
  | .mul => pure .mul
  | .div => pure .div
  | .mod => pure .mod
  | .neg => pure .neg
  | .not => pure .not
  | .ceq => pure .ceq
  | .cne => pure .cne
  | .clt => pure .clt
  | .cle => pure .cle
  | .cgt => pure .cgt
  | .cge => pure .cge
  | .jmp => .jmp <$> operand op
  | .jmpTrue => .jmpTrue <$> operand op
  | .jmpFalse => .jmpFalse <$> operand op
  | .abort => pure .abort
  | .enterAttempt => .enterAttempt <$> operand op
  | .leaveAttempt => pure .leaveAttempt
  | .enterDebrief => pure .enterDebrief
  | .leaveDebrief => pure .leaveDebrief

/-- The instruction at the instruction pointer, which moves past it; none past the end. -/
def decode : OnFrame (Option Instr) := do
  match ← fetch with
  | some op => some <$> decodeOperands op
  | none => pure none

/-- Goes on at an offset.  One past the end ends the frame at its next fetch. -/
def jump (target : UInt16) : OnFrame Unit :=
  modify fun f => { f with ip := target.toNat }

/-! ## 4. Stack and slots -/

/-- Puts a value on the stack. -/
def push (v : Value) : OnFrame Unit :=
  modify fun f => { f with stack := v :: f.stack }

/-- Takes the top off the stack. -/
def pop (op : Opcode) : OnFrame Value := fun f =>
  match f.stack with
  | v :: rest => .ok v { f with stack := rest }
  | [] => .error (.stackUnderflow op f.opOffset) f

/-- The top of the stack, if there is one, which is taken off. -/
def popAny : OnFrame (Option Value) := fun f =>
  match f.stack with
  | v :: rest => .ok (some v) { f with stack := rest }
  | [] => .ok none f

/-- The top of the stack, which stays there. -/
def peek (op : Opcode) : OnFrame Value := fun f =>
  match f.stack with
  | v :: _ => .ok v f
  | [] => .error (.stackUnderflow op f.opOffset) f

/-- The arguments of a call, in the order in which they were pushed. -/
def popArgs (op : Opcode) (count : UInt16) : OnFrame (List Value) := fun f =>
  match OperandStack.popMany? f.stack count.toNat with
  | some (args, rest) => .ok args { f with stack := rest }
  | none => .error (.stackUnderflow op f.opOffset) f

/-- The value in a slot. -/
def getLocal (slot : UInt16) : OnFrame Value := fun f =>
  match f.locals[slot.toNat]? with
  | some v => .ok v f
  | none => .error (.localOutOfRange slot f.locals.size) f

/-- Puts a value into a slot. -/
def setLocal (slot : UInt16) (v : Value) : OnFrame Unit := fun f =>
  if slot.toNat < f.locals.size then
    .ok () { f with locals := f.locals.setIfInBounds slot.toNat v }
  else .error (.localOutOfRange slot f.locals.size) f

end Frame

end BytecodeVm
