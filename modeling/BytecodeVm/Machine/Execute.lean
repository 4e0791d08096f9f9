/- # One instruction

What an instruction does to its own frame is done here.  What it needs beyond that, it asks for: the
result of executing an instruction is a `Request`, which the machine serves.  The heap is only read,
and the constants are given by what loading each of them gives.
-/
import BytecodeVm.Frame
import BytecodeVm.Heap

namespace BytecodeVm

/-- What a frame asks of the machine after an instruction. -/
inductive Request where
  /-- Nothing; the next instruction can follow. -/
  | proceed
  /-- A new object of the given type, to be pushed. -/
  | allocate (type : UInt16)
  /-- A field of an object to be set. -/
  | store (place : Nat) (field : UInt16) (v : Value)
  /-- A call; its result is pushed only if it is to be kept. -/
  | call (callee : UInt16) (args : List Value) (keepResult : Bool)
  /-- A call of a native function, whose result is pushed. -/
  | native (id : UInt16) (args : List Value)
  /-- The end of the frame, with its result. -/
  | ret (v : Value)
  /-- An abort with a value. -/
  | abort (v : Value)
  /-- A handler at an offset, in force from now on. -/
  | enter (target : UInt16)
  /-- The end of the latest handler. -/
  | leave
  deriving DecidableEq, Inhabited, Repr

/-- The arguments of a constructor: the receiver, then the rest.  A receiver that was pushed as the
first argument too is bound once. -/
def bindReceiver (receiver : Value) : List Value → List Value
  | [] => [receiver]
  | first :: rest => if first.equal receiver then receiver :: rest else receiver :: first :: rest

namespace Instr

/-- An operation on two numbers.  The second operand is on top, and it is popped and checked before
the first one is looked at. -/
def arithmetic (op : Opcode) (f : Binary64 → Binary64 → Binary64) : OnFrame Request := do
  let y ← ofExcept ((← Frame.pop op).asNumber (.instruction op))
  let x ← ofExcept ((← Frame.pop op).asNumber (.instruction op))
  Frame.push (.number (f x y))
  return .proceed

/-- An order between two values; values that have none satisfy no relation. -/
def relation (heap : Heap) (op : Opcode) (holds : Ordering → Bool) : OnFrame Request := do
  let b ← Frame.pop op
  let a ← Frame.pop op
  let order ← ofExcept (heap.compare (.instruction op) a b)
  Frame.push (.bool (order.any holds))
  return .proceed

/-- Equality of two values, or its negation. -/
def equality (op : Opcode) (wanted : Bool) : OnFrame Request := do
  let b ← Frame.pop op
  let a ← Frame.pop op
  Frame.push (.bool (a.equal b == wanted))
  return .proceed

/-- A jump that is taken if the condition on the stack is as wanted. -/
def branch (op : Opcode) (wanted : Bool) (target : UInt16) : OnFrame Request := do
  let condition ← Frame.pop op
  if condition.isTrue == wanted then
    Frame.jump target
  return .proceed

/-- The effect of an instruction on its frame. -/
def execute (literal : UInt16 → Except Trap Value) (heap : Heap) (i : Instr) : OnFrame Request :=
  let op := i.opcode
  match i with
  | .nop | .enterDebrief | .leaveDebrief => return .proceed
  | .pop => do
    let _ ← Frame.popAny
    return .proceed
  | .dup => do
    Frame.push (← Frame.peek op)
    return .proceed
  | .loadNull => do
    Frame.push .null
    return .proceed
  | .loadTrue => do
    Frame.push (.bool true)
    return .proceed
  | .loadFalse => do
    Frame.push (.bool false)
    return .proceed
  | .loadConst index => do
    Frame.push (← ofExcept (literal index))
    return .proceed
  | .loadLocal slot => do
    Frame.push (← Frame.getLocal slot)
    return .proceed
  | .storeLocal slot => do
    Frame.setLocal slot (← Frame.pop op)
    return .proceed
  | .newObj type => return .allocate type
  | .loadMember field => do
    let place ← ofExcept ((← Frame.pop op).asObject (.instruction op))
    Frame.push ((heap.object place).field field)
    return .proceed
  | .storeMember field => do
    let target ← Frame.pop op
    let v ← Frame.pop op
    let place ← ofExcept (target.asObject (.instruction op))
    Frame.push v
    return .store place field v
  | .call callee argc => do
    let args ← Frame.popArgs op argc
    return .call callee args true
  | .callCtor callee argc => do
    let args ← Frame.popArgs op argc
    match (← get).stack with
    | .object place :: _ => return .call callee (bindReceiver (.object place) args) false
    | _ => return .call callee args false
  | .callNative id argc => do
    let args ← Frame.popArgs op argc
    return .native id args
  | .ret => do
    let v ← Frame.popAny
    return .ret (v.getD .null)
  | .add => do
    let b ← Frame.pop op
    let a ← Frame.pop op
    Frame.push (← ofExcept (heap.add a b))
    return .proceed
  | .sub => arithmetic op Binary64.sub
  | .mul => arithmetic op Binary64.mul
  | .div => arithmetic op Binary64.div
  | .mod => arithmetic op Binary64.rem
  | .neg => do
    let x ← ofExcept ((← Frame.pop op).asNumber (.instruction op))
    Frame.push (.number x.neg)
    return .proceed
  | .not => do
    let v ← Frame.pop op
    Frame.push (.bool (!v.isTrue))
    return .proceed
  | .ceq => equality op true
  | .cne => equality op false
  | .clt => relation heap op Ordering.isLT
  | .cle => relation heap op Ordering.isLE
  | .cgt => relation heap op Ordering.isGT
  | .cge => relation heap op Ordering.isGE
  | .jmp target => do
    Frame.jump target
    return .proceed
  | .jmpTrue target => branch op true target
  | .jmpFalse target => branch op false target
  | .abort => do
    let v ← Frame.pop op
    return .abort v
  | .enterAttempt target => return .enter target
  | .leaveAttempt => return .leave

end Instr

/-- Decodes and executes the next instruction of a frame.  Past the end of its code a frame returns
null. -/
def Frame.advance (literal : UInt16 → Except Trap Value) (heap : Heap) : OnFrame Request := do
  match ← Frame.decode with
  | some i => i.execute literal heap
  | none => return .ret .null

end BytecodeVm
