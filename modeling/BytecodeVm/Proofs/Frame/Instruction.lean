/- # What one instruction does to its frame

An instruction is decoded, which moves the frame past it, and then executed.  Executing it moves
control only if the instruction is a branch, and only to its operand; the code and the number of
slots stay as they were when the frame was created.

* `Frame.create_ok_iff`, `Frame.create_error_iff`: when a frame can be created;
* `Frame.decode_some`, `Frame.decode_none`, `Frame.decode_error`: what decoding comes to;
* `Instr.Makes`: which instruction makes a request;
* `Instr.execute_confined`: what an instruction can do to its frame, and which traps it can raise;
* `Frame.advance_ok`, `Frame.advance_error`: both together;
* `Frame.advance_isOfInstruction`: the kinds of traps that an instruction raises by itself.
-/
import BytecodeVm.Machine.Execute
import BytecodeVm.Proofs.Code.Linear
import BytecodeVm.Proofs.Stateful

namespace BytecodeVm

open Stateful

/-! ## 1. New frames -/

namespace Frame

@[simp] theorem size_bindArguments (size : Nat) (args : List Value) :
    (bindArguments size args).size = size := by
  simp only [bindArguments, List.size_toArray, List.length_append, List.length_take,
    List.length_replicate]
  omega

/-- The slots hold the arguments, and null where there is none. -/
theorem getElem?_bindArguments {size i : Nat} (h : i < size) (args : List Value) :
    (bindArguments size args)[i]? = some (args[i]?.getD .null) := by
  simp only [bindArguments, List.getElem?_toArray]
  rcases Nat.lt_or_ge i args.length with hi | hi
  · have htaken : i < (args.take size).length := by
      rw [List.length_take]
      omega
    rw [List.getElem?_append_left htaken, List.getElem?_take_of_lt h, List.getElem?_eq_getElem hi,
      Option.getD_some]
  · have htake : args.take size = args := List.take_of_length_le (by omega)
    rw [htake, List.getElem?_append_right hi, List.getElem?_replicate_of_lt (by omega),
      List.getElem?_eq_none hi, Option.getD_none]

/-- A frame has the slots that were asked for, or those that the code names if that is more. -/
theorem create_ok_iff {code : Code} {slots : Nat} {args : List Value} {f : Frame} :
    create code slots args = .ok f ↔ ∃ named, code.scanSlots = .ok named ∧
      f = ⟨code, 0, 0, bindArguments (max slots named) args, []⟩ := by
  cases hscan : code.scanSlots with
  | ok named => simp [create, hscan, bind, Except.bind, pure, Except.pure, eq_comm]
  | error trap => simp [create, hscan, bind, Except.bind]

/-- A frame cannot be created exactly when its code does not decode. -/
theorem create_error_iff {code : Code} {slots : Nat} {args : List Value} {trap : Trap} :
    create code slots args = .error trap ↔ code.scanSlots = .error trap := by
  cases hscan : code.scanSlots with
  | ok named => simp [create, hscan, bind, Except.bind, pure, Except.pure]
  | error trap' => simp [create, hscan, bind, Except.bind]

end Frame

/-! ## 2. Operands by their use -/

/-- Whether an operation has a local slot for its operand. -/
def Opcode.isSlotAccess : Opcode → Bool
  | loadLocal | storeLocal => true
  | _ => false

namespace Instr

/-- Where a branch may send control. -/
def target? (i : Instr) : Option UInt16 :=
  if i.opcode.isBranch then i.operands.head? else none

/-- The slot that an instruction reads or writes. -/
def slot? (i : Instr) : Option UInt16 :=
  if i.opcode.isSlotAccess then i.operands.head? else none

end Instr

/-- The operands lie in the code from the given offset on. -/
def Code.OperandsAt (code : Code) (offset : Nat) (operands : List UInt16) : Prop :=
  ∀ k operand, operands[k]? = some operand →
    code.operand? (offset + k * Opcode.operandWidth) = some operand

theorem Code.size_lt_of_operand?_none {code : Code} {offset : Nat}
    (h : code.operand? offset = none) : code.size < offset + Opcode.operandWidth := by
  by_contra hle
  have hsize : offset + 2 ≤ code.size := Nat.not_lt.mp hle
  rw [Code.operand?, Array.getElem?_eq_getElem (by omega),
    Array.getElem?_eq_getElem (by omega)] at h
  cases h

/-- The target of a branch is the one that the linear decode sees at its place. -/
theorem Code.target?_of_operandsAt {code : Code} {offset : Nat} {i : Instr} {target : UInt16}
    (hop : code.opcode? offset = some i.opcode) (hops : code.OperandsAt (offset + 1) i.operands)
    (h : i.target? = some target) : code.target? offset = some target := by
  simp only [Instr.target?] at h
  split at h
  · rename_i hbranch
    rw [Code.target?, hop]
    simp only [hbranch, if_true]
    exact hops 0 target (List.head?_eq_getElem? ▸ h)
  · cases h

/-- The slot of an instruction is counted at its place. -/
theorem Code.slotsNamed_of_operandsAt {code : Code} {offset : Nat} {i : Instr} {slot : UInt16}
    (hops : code.OperandsAt (offset + 1) i.operands) (h : i.slot? = some slot) :
    code.slotsNamed i.opcode offset = slot.toNat + 1 := by
  have hread : i.operands[0]? = some slot → code.operand? (offset + 1) = some slot :=
    fun h => hops 0 slot h
  cases i with
  | loadLocal a | storeLocal a =>
    cases h
    rw [Instr.opcode, Code.slotsNamed, hread rfl]
  | _ => cases h

/-! ## 3. Decoding -/

namespace Frame

theorem operand_ok {op : Opcode} {f f' : Frame} {n : UInt16} (h : operand op f = .ok n f') :
    f.code.operand? f.ip = some n ∧ f' = { f with ip := f.ip + Opcode.operandWidth } := by
  simp only [operand] at h
  split at h
  · rename_i n' hn
    cases h
    exact ⟨hn, rfl⟩
  · cases h

theorem operand_error {op : Opcode} {f f' : Frame} {trap : Trap}
    (h : operand op f = .error trap f') :
    trap = .truncatedOperand op f.opOffset ∧ f.code.size < f.ip + Opcode.operandWidth := by
  simp only [operand] at h
  split at h
  · cases h
  · rename_i hn
    cases h
    exact ⟨rfl, Code.size_lt_of_operand?_none hn⟩

/-- How the operands of an operation are read: there is none, or one, or there are two. -/
inductive Decoding (op : Opcode) : OnFrame Instr → Prop
  | none {i : Instr} (opcode : i.opcode = op) (operands : i.operands = []) : Decoding op (pure i)
  | one {i : UInt16 → Instr} (opcode : ∀ a, (i a).opcode = op)
      (operands : ∀ a, (i a).operands = [a]) : Decoding op (i <$> operand op)
  | two {i : UInt16 → UInt16 → Instr} (opcode : ∀ a b, (i a b).opcode = op)
      (operands : ∀ a b, (i a b).operands = [a, b]) : Decoding op (i <$> operand op <*> operand op)

theorem decoding (op : Opcode) : Decoding op (decodeOperands op) := by
  cases op
  case call | callCtor | callNative => exact .two (fun _ _ => rfl) (fun _ _ => rfl)
  case loadLocal | storeLocal | loadConst | newObj | loadMember | storeMember | jmp | jmpTrue |
      jmpFalse | enterAttempt => exact .one (fun _ => rfl) (fun _ => rfl)
  all_goals exact .none rfl rfl

namespace Decoding

variable {op : Opcode} {x : OnFrame Instr} {f f' : Frame}

/-- Operands that are all there give the instruction, and the frame is past them. -/
theorem ok {i : Instr} (h : Decoding op x) (hx : x f = .ok i f') :
    i.opcode = op ∧ f.code.OperandsAt f.ip i.operands ∧
      f' = { f with ip := f.ip + op.operandCount * Opcode.operandWidth } := by
  cases h with
  | none hop hops =>
    obtain ⟨rfl, rfl⟩ := pure_ok_iff.mp hx
    refine ⟨hop, ?_, ?_⟩
    · intro k a hk
      rw [hops] at hk
      cases hk
    · rw [← hop, ← Instr.length_operands, hops]
      rfl
  | one hop hops =>
    obtain ⟨a, ha, rfl⟩ := map_ok_iff.mp hx
    obtain ⟨hread, rfl⟩ := operand_ok ha
    refine ⟨hop a, ?_, ?_⟩
    · intro k b hk
      rw [hops] at hk
      obtain ⟨rfl, rfl⟩ : k = 0 ∧ a = b := by simpa [List.getElem?_singleton] using hk
      simpa using hread
    · rw [← hop a, ← Instr.length_operands, hops]
      rfl
  | two hop hops =>
    rw [seq_eq_bind_map] at hx
    obtain ⟨_, f₁, hfirst, hx⟩ := bind_ok_iff.mp hx
    obtain ⟨a, ha, rfl⟩ := map_ok_iff.mp hfirst
    obtain ⟨b, hb, rfl⟩ := map_ok_iff.mp hx
    obtain ⟨hread, rfl⟩ := operand_ok ha
    obtain ⟨hread', rfl⟩ := operand_ok hb
    refine ⟨hop a b, ?_, ?_⟩
    · intro k c hk
      rw [hops] at hk
      rcases k with _ | _ | k
      · obtain rfl : a = c := by simpa using hk
        simpa using hread
      · obtain rfl : b = c := by simpa using hk
        simpa using hread'
      · simp at hk
    · rw [← hop a b, ← Instr.length_operands, hops]
      simp [Nat.add_assoc, Nat.two_mul]

/-- Reading operands fails only where the code ends before them. -/
theorem error {trap : Trap} (h : Decoding op x) (hx : x f = .error trap f') :
    trap = .truncatedOperand op f.opOffset ∧
      f.code.size < f.ip + op.operandCount * Opcode.operandWidth := by
  cases h with
  | none => cases hx
  | one hop hops =>
    obtain ⟨rfl, hsize⟩ := operand_error (map_error_iff.mp hx)
    refine ⟨rfl, ?_⟩
    rw [← hop 0, ← Instr.length_operands, hops]
    exact hsize
  | two hop hops =>
    have hcount : op.operandCount = 2 := by
      rw [← hop 0 0, ← Instr.length_operands, hops]
      rfl
    rw [hcount]
    rw [seq_eq_bind_map] at hx
    rcases bind_error_iff.mp hx with hfirst | ⟨_, f₁, hfirst, hx⟩
    · obtain ⟨rfl, hsize⟩ := operand_error (map_error_iff.mp hfirst)
      exact ⟨rfl, by omega⟩
    · obtain ⟨a, ha, rfl⟩ := map_ok_iff.mp hfirst
      obtain ⟨-, rfl⟩ := operand_ok ha
      obtain ⟨rfl, hsize⟩ := operand_error (map_error_iff.mp hx)
      exact ⟨rfl, by rw [Nat.two_mul, ← Nat.add_assoc]; exact hsize⟩

end Decoding

theorem fetch_some {f f' : Frame} {op : Opcode} (h : fetch f = .ok (some op) f') :
    f.code.opcode? f.ip = some op ∧ f' = { f with opOffset := f.ip, ip := f.ip + 1 } := by
  simp only [fetch] at h
  split at h
  · cases h
  · rename_i byte hbyte
    split at h
    · rename_i op' hop
      cases h
      exact ⟨Option.bind_eq_some_iff.mpr ⟨byte, hbyte, hop⟩, rfl⟩
    · cases h

theorem fetch_none {f f' : Frame} (h : fetch f = .ok none f') : f.code.size ≤ f.ip ∧ f' = f := by
  simp only [fetch] at h
  split at h
  · rename_i hbyte
    cases h
    exact ⟨Array.getElem?_eq_none_iff.mp hbyte, rfl⟩
  · split at h <;> cases h

theorem fetch_error {f f' : Frame} {trap : Trap} (h : fetch f = .error trap f') :
    f.ip < f.code.size ∧ f.code.opcode? f.ip = none ∧
      ∃ byte, trap = .unknownOpcode byte f.ip := by
  simp only [fetch] at h
  split at h
  · cases h
  · rename_i byte hbyte
    split at h
    · cases h
    · rename_i hop
      cases h
      refine ⟨(Array.getElem?_eq_some_iff.mp hbyte).1, ?_, byte, rfl⟩
      rw [Code.opcode?, hbyte, Option.bind_some, hop]

/-- **A decoded instruction** is laid out at the instruction pointer, and the frame is past it. -/
theorem decode_some {f f' : Frame} {i : Instr} (h : decode f = .ok (some i) f') :
    f.code.opcode? f.ip = some i.opcode ∧ f.code.OperandsAt (f.ip + 1) i.operands ∧
      f' = { f with opOffset := f.ip, ip := f.ip + i.opcode.encodedLength } := by
  obtain ⟨op?, f₁, hfetch, h⟩ := bind_ok_iff.mp h
  cases op? with
  | none => cases h
  | some op =>
    obtain ⟨hop, rfl⟩ := fetch_some hfetch
    obtain ⟨j, hj, hij⟩ := map_ok_iff.mp h
    obtain rfl : i = j := Option.some.inj hij
    obtain ⟨rfl, hops, rfl⟩ := (decoding op).ok hj
    exact ⟨hop, hops, by rw [Opcode.encodedLength, Nat.add_assoc]⟩

/-- Nothing is decoded past the end of the code only. -/
theorem decode_none {f f' : Frame} (h : decode f = .ok none f') :
    f.code.size ≤ f.ip ∧ f' = f := by
  obtain ⟨op?, f₁, hfetch, h⟩ := bind_ok_iff.mp h
  cases op? with
  | none =>
    obtain ⟨-, rfl⟩ := pure_ok_iff.mp h
    exact fetch_none hfetch
  | some op =>
    obtain ⟨j, -, hij⟩ := map_ok_iff.mp h
    cases hij

/-- Decoding fails at a byte that names no operation, or where the code ends before the operands. -/
theorem decode_error {f f' : Frame} {trap : Trap} (h : decode f = .error trap f') :
    (f.ip < f.code.size ∧ f.code.opcode? f.ip = none ∧ ∃ byte, trap = .unknownOpcode byte f.ip) ∨
      ∃ op, f.code.opcode? f.ip = some op ∧ trap = .truncatedOperand op f.ip ∧
        f.code.size < f.ip + op.encodedLength := by
  rcases bind_error_iff.mp h with hfetch | ⟨op?, f₁, hfetch, h⟩
  · exact .inl (fetch_error hfetch)
  · cases op? with
    | none => cases h
    | some op =>
      obtain ⟨hop, rfl⟩ := fetch_some hfetch
      obtain ⟨rfl, hsize⟩ := (decoding op).error (map_error_iff.mp h)
      refine .inr ⟨op, hop, rfl, ?_⟩
      rw [Opcode.encodedLength, ← Nat.add_assoc]
      exact hsize

/-! ## 4. Staying within a frame -/

/-- The frame is in the same code and has as many slots as before. -/
structure Keeps (f f' : Frame) : Prop where
  code : f'.code = f.code
  slots : f'.locals.size = f.locals.size

theorem Keeps.refl (f : Frame) : f.Keeps f :=
  ⟨rfl, rfl⟩

theorem Keeps.trans {f f₁ f₂ : Frame} (h : f.Keeps f₁) (h' : f₁.Keeps f₂) : f.Keeps f₂ :=
  ⟨h'.code.trans h.code, h'.slots.trans h.slots⟩

end Frame

namespace Trap

/-- Whether a trap is about how the code is laid out, or about a slot that is not there. -/
def isLayout : Trap → Bool
  | unknownOpcode .. | truncatedOperand .. | localOutOfRange .. => true
  | _ => false

/-- Whether a trap is about what an instruction works on: the stack, the constants, or the kinds of
the values. -/
def isOperand : Trap → Bool
  | stackUnderflow .. | constantOutOfRange .. | typeMismatch .. => true
  | _ => false

/-- Whether a trap is of a kind that an instruction raises by itself.  The others are raised by the
machine or by the host. -/
def isOfInstruction (trap : Trap) : Bool :=
  trap.isLayout || trap.isOperand

theorem isLayout_of_isOperand {trap : Trap} (h : trap.isOperand) : trap.isLayout = false := by
  cases trap <;> first | rfl | cases h

end Trap

/-- What an instruction may do to its frame while it is executed: the code and the number of slots
stay, and control stays where it is unless the instruction is a branch.  It traps over what it works
on, or over a slot that it names and the frame does not have. -/
structure Instr.Confines {α : Type} (i : Instr) (x : OnFrame α) (Q : α → Prop) : Prop where
  ok : ∀ {f f' : Frame} {a : α}, x f = .ok a f' →
    f.Keeps f' ∧ (f'.ip = f.ip ∨ ∃ target ∈ i.target?, f'.ip = target.toNat) ∧ Q a
  error : ∀ {f f' : Frame} {trap : Trap}, x f = .error trap f' → trap.isOperand ∨
    ∃ slot ∈ i.slot?, f.locals.size ≤ slot.toNat ∧ trap = .localOutOfRange slot f.locals.size

namespace Instr.Confines

variable {α β : Type} {i : Instr} {op : Opcode}

theorem pure {a : α} {Q : α → Prop} (h : Q a) : i.Confines (pure a) Q where
  ok hx := by
    obtain ⟨rfl, rfl⟩ := pure_ok_iff.mp hx
    exact ⟨.refl _, .inl rfl, h⟩
  error hx := by cases hx

theorem bind {x : OnFrame α} {k : α → OnFrame β} {Q : β → Prop} (hx : i.Confines x fun _ => True)
    (hk : ∀ a, i.Confines (k a) Q) : i.Confines (x >>= k) Q where
  ok h := by
    obtain ⟨a, f₁, h₁, h₂⟩ := bind_ok_iff.mp h
    obtain ⟨hkeeps₁, hip₁, -⟩ := hx.ok h₁
    obtain ⟨hkeeps₂, hip₂, hQ⟩ := (hk a).ok h₂
    refine ⟨hkeeps₁.trans hkeeps₂, ?_, hQ⟩
    rcases hip₂ with hip₂ | hip₂
    · rw [hip₂]
      exact hip₁
    · exact .inr hip₂
  error h := by
    rcases bind_error_iff.mp h with h₁ | ⟨a, f₁, h₁, h₂⟩
    · exact hx.error h₁
    · obtain ⟨hkeeps₁, -, -⟩ := hx.ok h₁
      rw [← hkeeps₁.slots]
      exact (hk a).error h₂

/-- An operation on the stack alone stays within the frame. -/
theorem of_stack {x : OnFrame α} (h : ∀ f, (∃ a stack, x f = .ok a { f with stack }) ∨
    ∃ trap, x f = .error trap f ∧ trap.isOperand) : i.Confines x fun _ => True where
  ok := by
    intro f f' a hx
    rcases h f with ⟨a', stack, hok⟩ | ⟨trap, herror, -⟩
    · cases hok.symm.trans hx
      exact ⟨⟨rfl, rfl⟩, .inl rfl, trivial⟩
    · cases herror.symm.trans hx
  error := by
    intro f f' trap hx
    rcases h f with ⟨a, stack, hok⟩ | ⟨trap', herror, hoperand⟩
    · cases hok.symm.trans hx
    · cases herror.symm.trans hx
      exact .inl hoperand

theorem push (v : Value) : i.Confines (Frame.push v) fun _ => True :=
  of_stack fun f => .inl ⟨(), v :: f.stack, rfl⟩

theorem pop : i.Confines (Frame.pop op) fun _ => True := by
  refine of_stack fun f => ?_
  simp only [Frame.pop]
  split
  · exact .inl ⟨_, _, rfl⟩
  · exact .inr ⟨_, rfl, rfl⟩

theorem popAny : i.Confines Frame.popAny fun _ => True := by
  refine of_stack fun f => ?_
  simp only [Frame.popAny]
  split
  · exact .inl ⟨_, _, rfl⟩
  · exact .inl ⟨_, f.stack, rfl⟩

theorem peek : i.Confines (Frame.peek op) fun _ => True := by
  refine of_stack fun f => ?_
  simp only [Frame.peek]
  split
  · exact .inl ⟨_, f.stack, rfl⟩
  · exact .inr ⟨_, rfl, rfl⟩

theorem popArgs {count : UInt16} : i.Confines (Frame.popArgs op count) fun _ => True := by
  refine of_stack fun f => ?_
  simp only [Frame.popArgs]
  split
  · exact .inl ⟨_, _, rfl⟩
  · exact .inr ⟨_, rfl, rfl⟩

theorem getLocal {slot : UInt16} (h : i.slot? = some slot) :
    i.Confines (Frame.getLocal slot) fun _ => True where
  ok hx := by
    simp only [Frame.getLocal] at hx
    split at hx <;> cases hx
    exact ⟨.refl _, .inl rfl, trivial⟩
  error hx := by
    simp only [Frame.getLocal] at hx
    split at hx
    · cases hx
    · rename_i hnone
      cases hx
      exact .inr ⟨slot, h, Array.getElem?_eq_none_iff.mp hnone, rfl⟩

theorem setLocal {slot : UInt16} {v : Value} (h : i.slot? = some slot) :
    i.Confines (Frame.setLocal slot v) fun _ => True where
  ok hx := by
    simp only [Frame.setLocal] at hx
    split at hx <;> cases hx
    exact ⟨⟨rfl, Array.size_setIfInBounds⟩, .inl rfl, trivial⟩
  error hx := by
    simp only [Frame.setLocal] at hx
    split at hx
    · cases hx
    · rename_i hslot
      cases hx
      exact .inr ⟨slot, h, Nat.not_lt.mp hslot, rfl⟩

theorem jump {target : UInt16} (h : i.target? = some target) :
    i.Confines (Frame.jump target) fun _ => True where
  ok hx := by cases hx; exact ⟨⟨rfl, rfl⟩, .inr ⟨target, h, rfl⟩, trivial⟩
  error hx := by cases hx

theorem get : i.Confines (get : OnFrame Frame) fun _ => True where
  ok hx := by cases hx; exact ⟨.refl _, .inl rfl, trivial⟩
  error hx := by cases hx

theorem ofExcept {e : Except Trap α} (h : ∀ trap, e = .error trap → trap.isOperand) :
    i.Confines (ofExcept e : OnFrame α) fun _ => True := by
  refine of_stack fun f => ?_
  cases e with
  | ok a => exact .inl ⟨a, f.stack, rfl⟩
  | error trap => exact .inr ⟨trap, rfl, h trap rfl⟩

end Instr.Confines

/-! ## 5. Executing -/

theorem Value.asNumber_error {v : Value} {context : Context} {trap : Trap}
    (h : v.asNumber context = .error trap) : trap.isOperand := by
  cases v <;> cases h <;> rfl

theorem Value.asObject_error {v : Value} {context : Context} {trap : Trap}
    (h : v.asObject context = .error trap) : trap.isOperand := by
  cases v <;> cases h <;> rfl

theorem Value.asNumbers_error {α : Type} {v w : Value} {context : Context} {trap : Trap}
    {k : Binary64 → Binary64 → α}
    (h : (do return k (← v.asNumber context) (← w.asNumber context) : Except Trap α) =
      .error trap) : trap.isOperand := by
  cases hv : v.asNumber context with
  | error t =>
    rw [hv] at h
    cases h
    exact asNumber_error hv
  | ok x =>
    cases hw : w.asNumber context with
    | error t =>
      rw [hv, hw] at h
      cases h
      exact asNumber_error hw
    | ok y =>
      rw [hv, hw] at h
      cases h

theorem Heap.add_error {heap : Heap} {a b : Value} {trap : Trap}
    (h : heap.add a b = .error trap) : trap.isOperand := by
  simp only [Heap.add] at h
  split at h
  · cases h
  · exact Value.asNumbers_error h

theorem Heap.compare_error {heap : Heap} {context : Context} {a b : Value} {trap : Trap}
    (h : heap.compare context a b = .error trap) : trap.isOperand := by
  simp only [Heap.compare] at h
  split at h
  · cases h
  · exact Value.asNumbers_error h

namespace Instr

/-- The instruction is the one that makes such a request.  Nothing is said of one that lets the next
instruction follow. -/
def Makes (i : Instr) : Request → Prop
  | .proceed => True
  | .allocate type => i = .newObj type
  | .store _ field _ => i = .storeMember field
  | .call callee _ keepResult =>
    ∃ argc, i = if keepResult then .call callee argc else .callCtor callee argc
  | .native id _ => ∃ argc, i = .callNative id argc
  | .ret _ => i = .ret
  | .abort _ => i = .abort
  | .enter target => i = .enterAttempt target
  | .leave => i = .leaveAttempt

/-- An attempt is entered with the operand of the instruction for its target. -/
theorem Makes.target? {i : Instr} {request : Request} {target : UInt16} (h : i.Makes request)
    (hrequest : request = .enter target) : i.target? = some target := by
  subst hrequest
  obtain rfl : i = .enterAttempt target := h
  rfl

section Families

variable {i : Instr} {op : Opcode}

theorem arithmetic_confined (f : Binary64 → Binary64 → Binary64) :
    i.Confines (arithmetic op f) i.Makes :=
  .bind .pop fun _ => .bind (.ofExcept fun _ => Value.asNumber_error) fun _ =>
    .bind .pop fun _ => .bind (.ofExcept fun _ => Value.asNumber_error) fun _ =>
      .bind (.push _) fun _ => .pure trivial

theorem relation_confined (heap : Heap) (holds : Ordering → Bool) :
    i.Confines (relation heap op holds) i.Makes :=
  .bind .pop fun _ => .bind .pop fun _ =>
    .bind (.ofExcept fun _ => Heap.compare_error) fun _ =>
      .bind (.push _) fun _ => .pure trivial

theorem equality_confined (wanted : Bool) : i.Confines (equality op wanted) i.Makes :=
  .bind .pop fun _ => .bind .pop fun _ => .bind (.push _) fun _ => .pure trivial

theorem branch_confined (wanted : Bool) {target : UInt16} (h : i.target? = some target) :
    i.Confines (branch op wanted target) i.Makes := by
  refine .bind .pop fun condition => ?_
  split
  · exact .bind (.jump h) fun _ => .pure trivial
  · exact .pure trivial

end Families

/-- **An instruction stays within its frame.**  The constants are assumed to raise traps about
operands only. -/
theorem execute_confined {literal : UInt16 → Except Trap Value} (heap : Heap)
    (hliteral : ∀ index trap, literal index = .error trap → trap.isOperand) (i : Instr) :
    i.Confines (i.execute literal heap) i.Makes := by
  cases i with
  | nop | enterDebrief | leaveDebrief => exact .pure trivial
  | pop => exact .bind .popAny fun _ => .pure trivial
  | dup => exact .bind .peek fun v => .bind (.push v) fun _ => .pure trivial
  | loadNull | loadTrue | loadFalse => exact .bind (.push _) fun _ => .pure trivial
  | loadConst index =>
    exact .bind (.ofExcept (hliteral index)) fun v => .bind (.push v) fun _ => .pure trivial
  | loadLocal slot =>
    exact .bind (.getLocal rfl) fun v => .bind (.push v) fun _ => .pure trivial
  | storeLocal slot =>
    exact .bind .pop fun v => .bind (.setLocal rfl) fun _ => .pure trivial
  | newObj type => exact .pure rfl
  | loadMember field =>
    exact .bind .pop fun v => .bind (.ofExcept fun _ => Value.asObject_error) fun _ =>
      .bind (.push _) fun _ => .pure trivial
  | storeMember field =>
    exact .bind .pop fun target => .bind .pop fun v =>
      .bind (.ofExcept fun _ => Value.asObject_error) fun _ => .bind (.push v) fun _ => .pure rfl
  | call callee argc => exact .bind .popArgs fun args => .pure ⟨argc, rfl⟩
  | callCtor callee argc =>
    refine .bind .popArgs fun args => .bind .get fun f => ?_
    split
    · exact .pure ⟨argc, rfl⟩
    · exact .pure ⟨argc, rfl⟩
  | callNative id argc => exact .bind .popArgs fun args => .pure ⟨argc, rfl⟩
  | ret => exact .bind .popAny fun v => .pure rfl
  | add =>
    exact .bind .pop fun b => .bind .pop fun a => .bind (.ofExcept fun _ => Heap.add_error) fun v =>
      .bind (.push v) fun _ => .pure trivial
  | sub | mul | div | mod => exact arithmetic_confined _
  | neg =>
    exact .bind .pop fun v => .bind (.ofExcept fun _ => Value.asNumber_error) fun x =>
      .bind (.push _) fun _ => .pure trivial
  | not => exact .bind .pop fun v => .bind (.push _) fun _ => .pure trivial
  | ceq | cne => exact equality_confined _
  | clt | cle | cgt | cge => exact relation_confined heap _
  | jmp target => exact .bind (.jump rfl) fun _ => .pure trivial
  | jmpTrue target => exact branch_confined true rfl
  | jmpFalse target => exact branch_confined false rfl
  | abort => exact .bind .pop fun v => .pure rfl
  | enterAttempt target | leaveAttempt => exact .pure rfl

end Instr

/-! ## 6. One instruction -/

namespace Frame

variable {literal : UInt16 → Except Trap Value} {heap : Heap} {f f' : Frame}

/-- **What an instruction that does not trap leaves behind.**  Either the frame was past the end of
its code and returns, or an instruction at the instruction pointer was executed, and control went on
behind it or went to its target. -/
theorem advance_ok {request : Request}
    (hliteral : ∀ index trap, literal index = .error trap → trap.isOperand)
    (h : advance literal heap f = .ok request f') :
    (f.code.size ≤ f.ip ∧ request = .ret .null ∧ f' = f) ∨
      ∃ i : Instr, f.code.opcode? f.ip = some i.opcode ∧
        f.code.OperandsAt (f.ip + 1) i.operands ∧ f.Keeps f' ∧ i.Makes request ∧
        (f'.ip = f.ip + i.opcode.encodedLength ∨ ∃ target ∈ i.target?, f'.ip = target.toNat) := by
  obtain ⟨i?, f₁, hdecode, hexecute⟩ := bind_ok_iff.mp h
  cases i? with
  | none =>
    obtain ⟨hsize, rfl⟩ := decode_none hdecode
    obtain ⟨rfl, rfl⟩ := pure_ok_iff.mp hexecute
    exact .inl ⟨hsize, rfl, rfl⟩
  | some i =>
    obtain ⟨hop, hops, rfl⟩ := decode_some hdecode
    obtain ⟨hkeeps, hip, hmakes⟩ := (Instr.execute_confined heap hliteral i).ok hexecute
    exact .inr ⟨i, hop, hops, ⟨hkeeps.code, hkeeps.slots⟩, hmakes, hip⟩

/-- **Who enters an attempt:** the instruction for that is at the instruction pointer, and the target
is its operand. -/
theorem advance_enter {target : UInt16}
    (hliteral : ∀ index trap, literal index = .error trap → trap.isOperand)
    (h : advance literal heap f = .ok (.enter target) f') :
    f.code.opcode? f.ip = some .enterAttempt ∧ f.code.operand? (f.ip + 1) = some target := by
  rcases advance_ok hliteral h with ⟨-, hret, -⟩ | ⟨i, hop, hops, -, hmakes, -⟩
  · cases hret
  · obtain rfl : i = .enterAttempt target := hmakes
    exact ⟨hop, hops 0 target rfl⟩

/-- **Why an instruction raises a layout trap.**  It cannot be decoded, or it names a slot that the
frame does not have. -/
theorem advance_error {trap : Trap}
    (hliteral : ∀ index trap, literal index = .error trap → trap.isOperand)
    (h : advance literal heap f = .error trap f') (hlayout : trap.isLayout) :
    (f.ip < f.code.size ∧ f.code.opcode? f.ip = none) ∨
      (∃ op, f.code.opcode? f.ip = some op ∧ trap = .truncatedOperand op f.ip ∧
        f.code.size < f.ip + op.encodedLength) ∨
      ∃ i : Instr, f.code.opcode? f.ip = some i.opcode ∧
        f.code.OperandsAt (f.ip + 1) i.operands ∧
        ∃ slot ∈ i.slot?, f.locals.size ≤ slot.toNat := by
  rcases bind_error_iff.mp h with hdecode | ⟨i?, f₁, hdecode, hexecute⟩
  · rcases decode_error hdecode with ⟨hlt, hnone, -⟩ | hcut
    · exact .inl ⟨hlt, hnone⟩
    · exact .inr (.inl hcut)
  · cases i? with
    | none => cases hexecute
    | some i =>
      obtain ⟨hop, hops, rfl⟩ := decode_some hdecode
      rcases (Instr.execute_confined heap hliteral i).error hexecute with
        hoperand | ⟨slot, hslot, hsize, -⟩
      · rw [Trap.isLayout_of_isOperand hoperand] at hlayout
        cases hlayout
      · exact .inr (.inr ⟨i, hop, hops, slot, hslot, hsize⟩)

/-- **The traps of instructions** are about the layout of code or about operands. -/
theorem advance_isOfInstruction {trap : Trap}
    (hliteral : ∀ index trap, literal index = .error trap → trap.isOperand)
    (h : advance literal heap f = .error trap f') : trap.isOfInstruction := by
  rcases bind_error_iff.mp h with hdecode | ⟨i?, f₁, hdecode, hexecute⟩
  · rcases decode_error hdecode with ⟨-, -, byte, rfl⟩ | ⟨op, -, rfl, -⟩ <;> rfl
  · cases i? with
    | none => cases hexecute
    | some i =>
      rcases (Instr.execute_confined heap hliteral i).error hexecute with
        hoperand | ⟨slot, -, -, rfl⟩
      · rw [Trap.isOfInstruction, hoperand, Bool.or_true]
      · rfl

end Frame

end BytecodeVm
