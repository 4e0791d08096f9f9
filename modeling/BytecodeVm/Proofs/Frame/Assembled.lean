/- # Running assembled code

Code that was assembled from instructions decodes to them: a frame at the offset of an instruction
decodes that instruction, and is then at the offset of the next one.

* `Code.InstrsAt`: instructions lie in code, one after another;
* `Code.scanSlots_assemble`: what the scan finds in assembled code;
* `Frame.advance_of_instrsAt`: the next instruction of a frame in assembled code.
-/
import BytecodeVm.Proofs.Frame.Instruction
import BytecodeVm.Proofs.Image.Layout

namespace BytecodeVm

open Stateful

/-! ## 1. Instructions in code -/

namespace Instr

/-- The two bytes of an operand read as it. -/
theorem decodeOperand_of_encodeOperand {operand : UInt16} {low high : UInt8}
    (h : encodeOperand operand = [low, high]) : decodeOperand low high = operand := by
  have hlt : operand.toNat < 256 ^ Opcode.operandWidth := operand.toNat_lt
  rw [decodeOperand, ← h, encodeOperand, LittleEndian.decode_encode hlt, UInt16.ofNat_toNat]

/-- How many slots an instruction asks for: one more than the slot that it names. -/
def slotsNamed (i : Instr) : Nat :=
  match i.slot? with
  | some slot => slot.toNat + 1
  | none => 0

end Instr

namespace Code

/-- The instructions lie in the code, one after another, from the given offset on. -/
def InstrsAt (code : Code) (offset : Nat) (instrs : List Instr) : Prop :=
  ∃ before after, code.toList = before ++ Instr.assemble instrs ++ after ∧ before.length = offset

theorem operand?_of_encodeOperand {code : Code} {before after : List UInt8} {operand : UInt16}
    (h : code.toList = before ++ Instr.encodeOperand operand ++ after) :
    code.operand? before.length = some operand := by
  obtain ⟨low, high, hbytes⟩ : ∃ low high, Instr.encodeOperand operand = [low, high] :=
    ⟨_, _, rfl⟩
  have hlow : code[before.length]? = some low := by
    rw [← Array.getElem?_toList, h, hbytes]
    simp
  have hhigh : code[before.length + 1]? = some high := by
    rw [← Array.getElem?_toList, h, hbytes]
    simp
  rw [operand?, hlow, hhigh]
  exact congrArg some (Instr.decodeOperand_of_encodeOperand hbytes)

/-- Operands that were laid out one after another lie there. -/
theorem operandsAt_of_flatMap {code : Code} {before after : List UInt8} {operands : List UInt16}
    (h : code.toList = before ++ operands.flatMap Instr.encodeOperand ++ after) :
    code.OperandsAt before.length operands := by
  induction operands generalizing before with
  | nil =>
    intro k operand hk
    cases hk
  | cons first rest ih =>
    rw [List.flatMap_cons, ← List.append_assoc, List.append_assoc _ _ after] at h
    intro k operand hk
    cases k with
    | zero =>
      obtain rfl : first = operand := Option.some.inj hk
      simpa using operand?_of_encodeOperand h
    | succ k =>
      have hlength : (before ++ Instr.encodeOperand first).length =
          before.length + Opcode.operandWidth := by
        rw [List.length_append, Instr.encodeOperand, LittleEndian.length_encode]
      have hrest : code.OperandsAt (before ++ Instr.encodeOperand first).length rest :=
        ih (by rw [h, List.append_assoc _ _ after])
      replace hrest := hrest k operand hk
      rw [hlength] at hrest
      rw [Nat.succ_mul, Nat.add_comm (k * Opcode.operandWidth), ← Nat.add_assoc]
      exact hrest

theorem instrsAt_assemble (instrs : List Instr) :
    InstrsAt (Instr.assemble instrs).toArray 0 instrs :=
  ⟨[], [], by simp, rfl⟩

namespace InstrsAt

variable {code : Code} {offset : Nat} {i : Instr} {rest : List Instr}

/-- The first of the instructions is there with its operands. -/
theorem head (h : code.InstrsAt offset (i :: rest)) :
    code.opcode? offset = some i.opcode ∧ code.OperandsAt (offset + 1) i.operands := by
  obtain ⟨before, after, hcode, rfl⟩ := h
  have hassemble : Instr.assemble (i :: rest) =
      i.opcode.byte :: (i.operands.flatMap Instr.encodeOperand ++ Instr.assemble rest) :=
    rfl
  rw [hassemble] at hcode
  refine ⟨?_, ?_⟩
  · rw [opcode?, ← Array.getElem?_toList, hcode]
    simp
  · have hlist : code.toList = (before ++ [i.opcode.byte]) ++
        i.operands.flatMap Instr.encodeOperand ++ (Instr.assemble rest ++ after) := by
      simp [hcode]
    simpa using operandsAt_of_flatMap hlist

/-- The others follow it. -/
theorem tail (h : code.InstrsAt offset (i :: rest)) :
    code.InstrsAt (offset + i.opcode.encodedLength) rest := by
  obtain ⟨before, after, hcode, rfl⟩ := h
  refine ⟨before ++ i.encode, after, ?_, ?_⟩
  · simp [hcode, Instr.assemble]
  · rw [List.length_append, Instr.length_encode]

/-- What the scan counts at an instruction is the slot that it names. -/
theorem slotsNamed_head (h : code.InstrsAt offset (i :: rest)) :
    code.slotsNamed i.opcode offset = i.slotsNamed := by
  cases hslot : i.slot? with
  | some slot => rw [Code.slotsNamed_of_operandsAt h.head.2 hslot, Instr.slotsNamed, hslot]
  | none =>
    rw [Instr.slotsNamed, hslot]
    cases i with
    | loadLocal a | storeLocal a => cases hslot
    | _ => rfl

end InstrsAt

/-- The scan of instructions that end with the code finds the largest slot that they name. -/
theorem scanFrom_of_instrsAt {code : Code} {offset : Nat} {instrs : List Instr}
    (h : code.InstrsAt offset instrs) (hsize : offset + (Instr.assemble instrs).length = code.size)
    (slots : Nat) :
    code.scanFrom offset slots = .ok (instrs.foldl (fun n i => max n i.slotsNamed) slots) := by
  induction instrs generalizing offset slots with
  | nil =>
    have hend : ¬ offset < code.size := Nat.not_lt.mpr (Nat.le_of_eq hsize.symm)
    rw [scanFrom, dif_neg hend]
    rfl
  | cons i rest ih =>
    obtain ⟨hop, -⟩ := h.head
    have hlt := lt_size_of_opcode? hop
    rw [opcode?_eq hlt] at hop
    have hrest : offset + i.opcode.encodedLength + (Instr.assemble rest).length = code.size := by
      rw [← hsize, Instr.assemble, Instr.assemble, List.flatMap_cons, List.length_append,
        Instr.length_encode, Nat.add_assoc]
    rw [scanFrom, dif_pos hlt]
    split
    · rename_i op hop'
      obtain rfl : i.opcode = op := Option.some.inj (hop.symm.trans hop')
      rw [h.slotsNamed_head, ih h.tail hrest]
      rfl
    · rename_i hnone
      rw [hop] at hnone
      cases hnone

/-- **Assembled code decodes**, and its scan finds the largest slot that is named. -/
theorem scanSlots_assemble (instrs : List Instr) :
    scanSlots (Instr.assemble instrs).toArray =
      .ok (instrs.foldl (fun n i => max n i.slotsNamed) 1) :=
  scanFrom_of_instrsAt (instrsAt_assemble instrs) (by simp) 1

end Code

/-! ## 2. Decoding -/

namespace Frame

theorem fetch_of_opcode? {f : Frame} {op : Opcode} (h : f.code.opcode? f.ip = some op) :
    fetch f = .ok (some op) { f with opOffset := f.ip, ip := f.ip + 1 } := by
  obtain ⟨byte, hbyte, hop⟩ := Option.bind_eq_some_iff.mp h
  simp only [fetch, hbyte, hop]

theorem operand_of_operand? {f : Frame} {n : UInt16} (op : Opcode)
    (h : f.code.operand? f.ip = some n) :
    operand op f = .ok n { f with ip := f.ip + Opcode.operandWidth } := by
  simp only [operand, h]

/-- Operands that lie in the code are read. -/
theorem decodeOperands_of_operandsAt {f : Frame} {i : Instr}
    (h : f.code.OperandsAt f.ip i.operands) : decodeOperands i.opcode f =
      .ok i { f with ip := f.ip + i.opcode.operandCount * Opcode.operandWidth } := by
  have hfirst : ∀ op a, i.operands[0]? = some a →
      operand op f = .ok a { f with ip := f.ip + Opcode.operandWidth } := by
    intro op a ha
    refine operand_of_operand? op ?_
    simpa using h 0 a ha
  cases i with
  | call a b | callCtor a b | callNative a b =>
    have hsecond : ∀ op, operand op { f with ip := f.ip + Opcode.operandWidth } =
        .ok b { f with ip := f.ip + 2 * Opcode.operandWidth } := by
      intro op
      have hread := h 1 b rfl
      rw [Nat.one_mul] at hread
      rw [operand_of_operand? op hread, Nat.two_mul, Nat.add_assoc]
    simp only [decodeOperands, Instr.opcode]
    rw [seq_eq_bind_map]
    exact bind_ok_iff.mpr ⟨_, _, map_ok_iff.mpr ⟨a, hfirst _ a rfl, rfl⟩,
      map_ok_iff.mpr ⟨b, hsecond _, rfl⟩⟩
  | loadLocal a | storeLocal a | loadConst a | newObj a | loadMember a | storeMember a =>
    exact map_ok_iff.mpr ⟨a, (hfirst _ a rfl).trans rfl, rfl⟩
  | jmp a | jmpTrue a | jmpFalse a | enterAttempt a =>
    exact map_ok_iff.mpr ⟨a, (hfirst _ a rfl).trans rfl, rfl⟩
  | _ => rfl

/-- **A frame at an instruction** executes it, and is past it. -/
theorem advance_of_operandsAt {f : Frame} {i : Instr} (hop : f.code.opcode? f.ip = some i.opcode)
    (hops : f.code.OperandsAt (f.ip + 1) i.operands) (literal : UInt16 → Except Trap Value)
    (heap : Heap) :
    advance literal heap f = i.execute literal heap
      { f with opOffset := f.ip, ip := f.ip + i.opcode.encodedLength } := by
  have hdecode : decode f =
      .ok (some i) { f with opOffset := f.ip, ip := f.ip + i.opcode.encodedLength } := by
    refine bind_ok_iff.mpr ⟨_, _, fetch_of_opcode? hop, map_ok_iff.mpr ⟨i, ?_, rfl⟩⟩
    have hread := decodeOperands_of_operandsAt
      (f := { f with opOffset := f.ip, ip := f.ip + 1 }) hops
    rw [hread, Opcode.encodedLength, Nat.add_assoc]
  simp only [advance, bind, EStateM.bind, hdecode]

/-- **A frame in assembled code** executes the instruction that it is at, and is past it. -/
theorem advance_of_instrsAt {f : Frame} {i : Instr} {rest : List Instr}
    (h : f.code.InstrsAt f.ip (i :: rest)) (literal : UInt16 → Except Trap Value) (heap : Heap) :
    advance literal heap f = i.execute literal heap
      { f with opOffset := f.ip, ip := f.ip + i.opcode.encodedLength } :=
  advance_of_operandsAt h.head.1 h.head.2 literal heap

end Frame

end BytecodeVm
