/- # Calls of a frame

A frame that comes to a call takes the arguments off its stack, and waits behind the instruction for
what becomes of the callee.  An abort takes off one value.

* `Frame.Fresh`: what a frame starts with, and `Frame.fresh_of_create`: that it does;
* `Frame.Calls`: what a frame that makes a call has on its stack, and what is left of it;
* `Frame.calls_of_advance`, `Frame.advance_of_calls`: every call is made in this way;
* `Frame.advance_abort`: how a frame aborts;
* `Frame.Returns`, `Frame.Aborts`: what a frame that is over hands on.
-/
import BytecodeVm.Proofs.Frame.Assembled

namespace BytecodeVm

open Stateful

/-! ## 1. Arguments -/

/-- Values can be popped exactly when they lie on top of the stack, the last one first. -/
theorem OperandStack.popMany?_eq_some_iff {stack rest : OperandStack} {n : Nat}
    {args : List Value} :
    stack.popMany? n = some (args, rest) ↔ args.length = n ∧ stack = args.reverse ++ rest := by
  simp only [popMany?]
  constructor
  · intro h
    split at h
    · rename_i hlength
      cases h
      exact ⟨by rw [List.length_reverse, hlength],
        by rw [List.reverse_reverse, List.take_append_drop]⟩
    · cases h
  · rintro ⟨rfl, rfl⟩
    simp [List.take_left', List.drop_left']

namespace Frame

theorem popArgs_ok_iff {op : Opcode} {count : UInt16} {args : List Value} {f f' : Frame} :
    popArgs op count f = .ok args f' ↔ args.length = count.toNat ∧
      f.stack = args.reverse ++ f'.stack ∧ f' = { f with stack := f'.stack } := by
  simp only [popArgs]
  constructor
  · intro h
    split at h
    · rename_i args' rest hpop
      cases h
      obtain ⟨hlength, hstack⟩ := OperandStack.popMany?_eq_some_iff.mp hpop
      exact ⟨hlength, hstack, rfl⟩
    · cases h
  · rintro ⟨hlength, hstack, hf'⟩
    rw [OperandStack.popMany?_eq_some_iff.mpr ⟨hlength, hstack⟩]
    simp only
    rw [← hf']

/-- What is bound of the arguments that were popped.  A constructor is given the object beneath them,
if there is one. -/
def boundArgs (keepResult : Bool) (popped : List Value) : OperandStack → List Value
  | .object place :: _ => if keepResult then popped else bindReceiver (.object place) popped
  | _ => popped

theorem boundArgs_true (popped : List Value) (stack : OperandStack) :
    boundArgs true popped stack = popped := by
  unfold boundArgs
  split <;> rfl

end Frame

theorem Instr.execute_callCtor (literal : UInt16 → Except Trap Value) (heap : Heap)
    (callee argc : UInt16) : (Instr.callCtor callee argc).execute literal heap = (do
      let args ← Frame.popArgs .callCtor argc
      let f ← get
      return .call callee (Frame.boundArgs false args f.stack) false) := by
  refine bind_congr fun args => bind_congr fun f => ?_
  cases hstack : f.stack with
  | nil => rfl
  | cons top rest => cases top <;> rfl

/-! ## 2. New frames -/

namespace Frame

/-- A frame at the start of its code, with an empty stack and so many slots: the arguments lie in the
first of them, as far as these go, and null in the others. -/
structure Fresh (f : Frame) (code : Code) (size : Nat) (args : List Value) : Prop where
  code : f.code = code
  ip : f.ip = 0
  stack : f.stack = []
  slots : f.locals.size = size
  bound : ∀ i < size, f.locals[i]? = some (args[i]?.getD .null)

/-- **A frame that is created is fresh**, with the slots that are asked for or those that its code
names, if these are more. -/
theorem fresh_of_create {code : Code} {slots named : Nat} {args : List Value} {f : Frame}
    (hscan : code.scanSlots = .ok named) (h : create code slots args = .ok f) :
    f.Fresh code (max slots named) args := by
  obtain ⟨named', hscan', rfl⟩ := create_ok_iff.mp h
  obtain rfl : named = named' := Except.ok.inj (hscan.symm.trans hscan')
  exact ⟨rfl, rfl, rfl, size_bindArguments _ _, fun i hi => getElem?_bindArguments hi args⟩

end Frame

/-! ## 3. Calls and aborts -/

namespace Frame

variable {literal : UInt16 → Except Trap Value} {heap : Heap} {f f' : Frame}

/-- The frame is at a call of a method, whose result is kept, or of a constructor.  The arguments lie
on top of its stack, and it waits for the callee without them and behind the instruction. -/
structure Calls (f : Frame) (index count : UInt16) (popped : List Value) (keepResult : Bool)
    (f' : Frame) : Prop where
  opcode : f.code.opcode? f.ip = some (if keepResult then .call else .callCtor)
  operands : f.code.OperandsAt (f.ip + 1) [index, count]
  length : popped.length = count.toNat
  stack : f.stack = popped.reverse ++ f'.stack
  waits : f' = { f with ip := f.ip + 5, opOffset := f.ip, stack := f'.stack }

/-- A frame that has so many arguments on its stack, and is at a call with them, makes that call. -/
theorem calls_of_instrsAt {index count : UInt16} {popped : List Value} {keepResult : Bool}
    {stack : OperandStack}
    (hinstr : f.code.InstrsAt f.ip
      [if keepResult then .call index count else .callCtor index count])
    (hlength : popped.length = count.toNat) (hstack : f.stack = popped.reverse ++ stack) :
    f.Calls index count popped keepResult { f with ip := f.ip + 5, opOffset := f.ip, stack } := by
  obtain ⟨hop, hops⟩ := hinstr.head
  cases keepResult with
  | true => exact ⟨hop, hops, hlength, hstack, rfl⟩
  | false => exact ⟨hop, hops, hlength, hstack, rfl⟩

/-- **Every call** is made in this way. -/
theorem calls_of_advance {index : UInt16} {args : List Value} {keepResult : Bool}
    (hliteral : ∀ index trap, literal index = .error trap → trap.isOperand)
    (h : advance literal heap f = .ok (.call index args keepResult) f') :
    ∃ count popped, f.Calls index count popped keepResult f' ∧
      args = boundArgs keepResult popped f'.stack := by
  obtain ⟨i?, f₁, hdecode, hexecute⟩ := bind_ok_iff.mp h
  cases i? with
  | none => cases hexecute
  | some i =>
    obtain ⟨hop, hops, rfl⟩ := decode_some hdecode
    obtain ⟨count, rfl⟩ := ((Instr.execute_confined heap hliteral i).ok hexecute).2.2
    cases keepResult with
    | true =>
      obtain ⟨popped, f₂, hpop, hrequest⟩ := bind_ok_iff.mp hexecute
      obtain ⟨hlength, hstack, hf₂⟩ := popArgs_ok_iff.mp hpop
      obtain ⟨heq, rfl⟩ := pure_ok_iff.mp hrequest
      refine ⟨count, popped, ⟨hop, hops, hlength, hstack, hf₂⟩, ?_⟩
      rw [(Request.call.inj heq).2.1, boundArgs_true]
    | false =>
      change (Instr.callCtor index count).execute literal heap _ = _ at hexecute
      rw [Instr.execute_callCtor] at hexecute
      obtain ⟨popped, f₂, hpop, hreceiver⟩ := bind_ok_iff.mp hexecute
      obtain ⟨hlength, hstack, hf₂⟩ := popArgs_ok_iff.mp hpop
      obtain ⟨f₃, f₄, hget, hrequest⟩ := bind_ok_iff.mp hreceiver
      cases hget
      obtain ⟨heq, rfl⟩ := pure_ok_iff.mp hrequest
      exact ⟨count, popped, ⟨hop, hops, hlength, hstack, hf₂⟩, (Request.call.inj heq).2.1⟩

/-- **A frame at a call** makes it, on the arguments that are bound, and waits. -/
theorem advance_of_calls {index count : UInt16} {popped : List Value} {keepResult : Bool}
    (h : f.Calls index count popped keepResult f') (literal : UInt16 → Except Trap Value)
    (heap : Heap) :
    advance literal heap f =
      .ok (.call index (boundArgs keepResult popped f'.stack) keepResult) f' := by
  have hpop : ∀ op, popArgs op count { f with opOffset := f.ip, ip := f.ip + 5 } =
      .ok popped f' := by
    intro op
    refine popArgs_ok_iff.mpr ⟨h.length, h.stack, ?_⟩
    exact h.waits
  cases keepResult with
  | true =>
    rw [advance_of_operandsAt (i := .call index count) h.opcode h.operands]
    refine bind_ok_iff.mpr ⟨popped, f', hpop _, ?_⟩
    rw [boundArgs_true]
    rfl
  | false =>
    rw [advance_of_operandsAt (i := .callCtor index count) h.opcode h.operands,
      Instr.execute_callCtor]
    exact bind_ok_iff.mpr ⟨popped, f', hpop _, rfl⟩

/-- **An abort** takes the aborted value off the stack. -/
theorem advance_abort {v : Value} {stack : OperandStack} (hop : f.code.opcode? f.ip = some .abort)
    (hstack : f.stack = v :: stack) (literal : UInt16 → Except Trap Value) (heap : Heap) :
    advance literal heap f =
      .ok (.abort v) { f with ip := f.ip + 1, opOffset := f.ip, stack } := by
  have hops : f.code.OperandsAt (f.ip + 1) Instr.abort.operands := by
    intro k operand hk
    cases hk
  rw [advance_of_operandsAt hop hops]
  refine bind_ok_iff.mpr ⟨v, _, ?_, rfl⟩
  simp only [pop, hstack]
  rfl

/-- The frame returns a value: the top of its stack, or null if there is none or the code is over. -/
def Returns (f : Frame) (v : Value) : Prop :=
  f.code.opcode? f.ip = some .ret ∧ v = f.stack.head?.getD .null ∨
    f.code.size ≤ f.ip ∧ v = .null

/-- The frame aborts with the top of its stack. -/
def Aborts (f : Frame) (v : Value) : Prop :=
  f.code.opcode? f.ip = some .abort ∧ f.stack.head? = some v

theorem returns_of_advance {v : Value}
    (hliteral : ∀ index trap, literal index = .error trap → trap.isOperand)
    (h : advance literal heap f = .ok (.ret v) f') : f.Returns v := by
  obtain ⟨i?, f₁, hdecode, hexecute⟩ := bind_ok_iff.mp h
  cases i? with
  | none =>
    obtain ⟨hsize, -⟩ := decode_none hdecode
    cases hexecute
    exact .inr ⟨hsize, rfl⟩
  | some i =>
    obtain ⟨hop, -, rfl⟩ := decode_some hdecode
    obtain rfl : i = .ret := ((Instr.execute_confined heap hliteral i).ok hexecute).2.2
    obtain ⟨top?, f₂, hpop, hrequest⟩ := bind_ok_iff.mp hexecute
    obtain ⟨heq, -⟩ := pure_ok_iff.mp hrequest
    refine .inl ⟨hop, (Request.ret.inj heq).trans ?_⟩
    simp only [popAny] at hpop
    split at hpop
    · rename_i hstack
      cases hpop
      rw [show f.stack = _ from hstack]
      rfl
    · rename_i hstack
      cases hpop
      rw [show f.stack = _ from hstack]
      rfl

theorem aborts_of_advance {v : Value}
    (hliteral : ∀ index trap, literal index = .error trap → trap.isOperand)
    (h : advance literal heap f = .ok (.abort v) f') : f.Aborts v := by
  obtain ⟨i?, f₁, hdecode, hexecute⟩ := bind_ok_iff.mp h
  cases i? with
  | none => cases hexecute
  | some i =>
    obtain ⟨hop, -, rfl⟩ := decode_some hdecode
    obtain rfl : i = .abort := ((Instr.execute_confined heap hliteral i).ok hexecute).2.2
    obtain ⟨top, f₂, hpop, hrequest⟩ := bind_ok_iff.mp hexecute
    obtain ⟨heq, -⟩ := pure_ok_iff.mp hrequest
    refine ⟨hop, ?_⟩
    simp only [pop] at hpop
    split at hpop
    · rename_i hstack
      cases hpop
      rw [show f.stack = _ from hstack, Request.abort.inj heq]
      rfl
    · cases hpop

end Frame

end BytecodeVm
