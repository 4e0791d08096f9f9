/- # What the scan finds

The scan for local slots is exact.  It succeeds just if an operation stands at every boundary of the
code, and then it finds enough slots for every complete instruction at a boundary, and no more than
that; otherwise it fails at the one boundary where there is no operation, which is the last.

* `Code.Names`: some instruction of the linear decode names a slot, and `slotDemands`: the numbers
  of slots that are asked for in this way;
* `Code.HasUnknown`: the linear decode comes to a byte that names no operation, and
  `Code.HasUnknown.before`: it comes to no such byte before;
* `Code.scanSlots_ok_iff`, `Code.scanSlots_error_iff`: what the scan comes to;
* `Code.scanSlots_assemble_greatest`: what it finds in assembled code.
-/
import BytecodeVm.Proofs.Frame.Assembled
import Mathlib.Data.List.Induction
import Mathlib.Order.Bounds.Basic

namespace BytecodeVm

/-! ## 1. Slots that are asked for -/

/-- The numbers of slots that are asked for: one in any case, and enough for each slot that is
named. -/
def slotDemands (named : UInt16 → Prop) : Set Nat :=
  {n | n = 1 ∨ ∃ slot, named slot ∧ n = slot.toNat + 1}

theorem slotDemands_le {named : UInt16 → Prop} {n : Nat} (h : n ∈ slotDemands named) :
    1 ≤ n ∧ n ≤ 65536 := by
  rcases h with rfl | ⟨slot, -, rfl⟩
  · decide
  · have hslot : slot.toNat < 65536 := slot.toNat_lt
    omega

/-- **A running maximum finds the greatest number that is asked for.**  The elements of the list
name slots, some of them, and an element that names none asks for nothing. -/
theorem isGreatest_foldl_max {α : Type} {slot? : α → Option UInt16} {demand : α → Nat}
    (hsome : ∀ x slot, slot? x = some slot → demand x = slot.toNat + 1)
    (hnone : ∀ x, slot? x = none → demand x = 0) (l : List α) :
    IsGreatest (slotDemands fun slot => ∃ x ∈ l, slot? x = some slot)
      (l.foldl (fun n x => max n (demand x)) 1) := by
  -- the induction is from the right, so that the maximum so far is that of the elements so far
  induction l using List.reverseRecOn with
  | nil =>
    refine ⟨.inl rfl, ?_⟩
    rintro n (rfl | ⟨slot, ⟨x, hx, -⟩, -⟩)
    · exact Nat.le_refl _
    · cases hx
  | append_singleton l x ih =>
    obtain ⟨hmem, hle⟩ := ih
    rw [List.foldl_append, List.foldl_cons, List.foldl_nil]
    generalize l.foldl (fun n x => max n (demand x)) 1 = found at hmem hle ⊢
    refine ⟨?_, ?_⟩
    · rcases Nat.le_total (demand x) found with hx | hx
      · rw [Nat.max_eq_left hx]
        refine hmem.imp_right ?_
        rintro ⟨slot, ⟨y, hy, hslot⟩, rfl⟩
        exact ⟨slot, ⟨y, List.mem_append_left _ hy, hslot⟩, rfl⟩
      · rw [Nat.max_eq_right hx]
        cases hslot : slot? x with
        | none =>
          have hpos : 1 ≤ found := (slotDemands_le hmem).1
          rw [hnone x hslot] at hx
          omega
        | some slot =>
          exact .inr ⟨slot, ⟨x, by simp, hslot⟩, hsome x slot hslot⟩
    · rintro n (rfl | ⟨slot, ⟨y, hy, hslot⟩, rfl⟩)
      · exact Nat.le_trans (slotDemands_le hmem).1 (Nat.le_max_left _ _)
      · rcases List.mem_append.mp hy with hy | hy
        · exact Nat.le_trans (hle (.inr ⟨slot, ⟨y, hy, hslot⟩, rfl⟩)) (Nat.le_max_left _ _)
        · rw [List.mem_singleton.mp hy] at hslot
          exact hsome x slot hslot ▸ Nat.le_max_right _ _

namespace Code

/-! ## 2. The linear decode -/

/-- The slot that the instruction at an offset reads or writes, if it does so and is complete. -/
def slotAt? (code : Code) (offset : Nat) : Option UInt16 :=
  match code.opcode? offset with
  | some op => if op.isSlotAccess then code.operand? (offset + 1) else none
  | none => none

/-- How many slots the instruction at an offset asks for. -/
def slotsAt (code : Code) (offset : Nat) : Nat :=
  match code.opcode? offset with
  | some op => code.slotsNamed op offset
  | none => 0

/-- An instruction of the linear decode names the slot. -/
def Names (code : Code) (slot : UInt16) : Prop :=
  ∃ offset ∈ code.boundaries, code.slotAt? offset = some slot

/-- An operation stands at every boundary. -/
def Decodes (code : Code) : Prop :=
  ∀ offset ∈ code.boundaries, (code.opcode? offset).isSome

/-- The linear decode comes to the byte at the offset, and the byte names no operation. -/
structure HasUnknown (code : Code) (byte : UInt8) (offset : Nat) : Prop where
  visited : offset ∈ code.boundaries
  byte_eq : code[offset]? = some byte
  unknown : Opcode.ofByte? byte = none

variable {code : Code}

theorem slotsNamed_cases (code : Code) (op : Opcode) (offset : Nat) :
    (∃ slot, op.isSlotAccess ∧ code.operand? (offset + 1) = some slot ∧
        code.slotsNamed op offset = slot.toNat + 1) ∨
      ((op.isSlotAccess → code.operand? (offset + 1) = none) ∧ code.slotsNamed op offset = 0) := by
  cases op with
  | loadLocal | storeLocal =>
    cases hread : code.operand? (offset + 1) with
    | some slot => exact .inl ⟨slot, rfl, rfl, by rw [slotsNamed, hread]⟩
    | none => exact .inr ⟨fun _ => rfl, by rw [slotsNamed, hread]⟩
  | _ => exact .inr ⟨fun h => absurd h Bool.false_ne_true, rfl⟩

theorem slotsAt_of_some {offset : Nat} {slot : UInt16} (h : code.slotAt? offset = some slot) :
    code.slotsAt offset = slot.toNat + 1 := by
  cases hop : code.opcode? offset with
  | none => simp [slotAt?, hop] at h
  | some op =>
    simp only [slotAt?, hop] at h
    simp only [slotsAt, hop]
    rcases slotsNamed_cases code op offset with ⟨slot', hop, hread, heq⟩ | ⟨hread, -⟩
    · rw [if_pos hop, hread] at h
      rw [heq, Option.some.inj h]
    · split at h
      · rename_i hop
        rw [hread hop] at h
        cases h
      · cases h

theorem slotsAt_of_none {offset : Nat} (h : code.slotAt? offset = none) :
    code.slotsAt offset = 0 := by
  cases hop : code.opcode? offset with
  | none => simp only [slotsAt, hop]
  | some op =>
    simp only [slotAt?, hop] at h
    simp only [slotsAt, hop]
    rcases slotsNamed_cases code op offset with ⟨slot', hop, hread, -⟩ | ⟨-, heq⟩
    · rw [if_pos hop, hread] at h
      cases h
    · exact heq

theorem opcode?_of_unknown {byte : UInt8} {offset : Nat} (hbyte : code[offset]? = some byte)
    (hunknown : Opcode.ofByte? byte = none) : code.opcode? offset = none := by
  rw [opcode?, hbyte, Option.bind_some, hunknown]

theorem HasUnknown.opcode?_eq {byte : UInt8} {offset : Nat} (h : code.HasUnknown byte offset) :
    code.opcode? offset = none :=
  opcode?_of_unknown h.byte_eq h.unknown

theorem le_of_mem_boundariesFrom {start offset : Nat} (h : offset ∈ code.boundariesFrom start) :
    start ≤ offset := by
  fun_induction boundariesFrom code start with
  | case1 start hs op hop ih =>
    rcases List.mem_cons.mp h with rfl | h
    · exact Nat.le_refl _
    · exact Nat.le_trans (Nat.le_add_right _ _) (ih h)
  | case2 start hs hnone => exact Nat.le_of_eq (List.mem_singleton.mp h).symm
  | case3 start hs => cases h

theorem lt_size_of_mem_boundariesFrom {start offset : Nat}
    (h : offset ∈ code.boundariesFrom start) : offset < code.size := by
  fun_induction boundariesFrom code start with
  | case1 start hs op hop ih =>
    rcases List.mem_cons.mp h with rfl | h
    · exact hs
    · exact ih h
  | case2 start hs hnone => exact List.mem_singleton.mp h ▸ hs
  | case3 start hs => cases h

/-- The linear decode ends where no operation stands: all other boundaries lie before, and there is
an operation at each of them. -/
theorem boundariesFrom_before {start offset before : Nat} (h : offset ∈ code.boundariesFrom start)
    (hnone : code.opcode? offset = none) (hb : before ∈ code.boundariesFrom start)
    (hne : before ≠ offset) : before < offset ∧ (code.opcode? before).isSome := by
  fun_induction boundariesFrom code start with
  | case1 start hs op hop ih =>
    rcases List.mem_cons.mp h with rfl | h
    · rw [hop] at hnone
      cases hnone
    · rcases List.mem_cons.mp hb with rfl | hb
      · have hpos := op.encodedLength_pos
        have hle := le_of_mem_boundariesFrom h
        exact ⟨by omega, by rw [hop]; rfl⟩
      · exact ih h hb
  | case2 start hs hnone' =>
    rw [List.mem_singleton.mp h] at hne
    exact absurd (List.mem_singleton.mp hb) hne
  | case3 start hs => cases h

/-- **There is at most one such byte,** and so it is the first: before it, an operation stands at
every boundary. -/
theorem HasUnknown.before {byte : UInt8} {offset : Nat} (h : code.HasUnknown byte offset) :
    ∀ before ∈ code.boundaries, before ≠ offset → before < offset ∧ (code.opcode? before).isSome :=
  fun _ hb hne => boundariesFrom_before h.visited h.opcode?_eq hb hne

/-- Code that does not decode has such a byte. -/
theorem exists_hasUnknown (h : ¬ code.Decodes) : ∃ byte offset, code.HasUnknown byte offset := by
  simp only [Decodes, not_forall, Bool.not_eq_true, Option.isSome_eq_false_iff,
    Option.isNone_iff_eq_none] at h
  obtain ⟨offset, hmem, hnone⟩ := h
  have hlt := lt_size_of_mem_boundariesFrom hmem
  refine ⟨code[offset], offset, hmem, Array.getElem?_eq_getElem hlt, ?_⟩
  rw [← hnone, Code.opcode?_eq hlt]

theorem HasUnknown.not_decodes {byte : UInt8} {offset : Nat} (h : code.HasUnknown byte offset) :
    ¬ code.Decodes := by
  intro hall
  have hsome := hall offset h.visited
  rw [h.opcode?_eq] at hsome
  cases hsome

/-! ## 3. The scan -/

theorem scanFrom_of_opcode? {offset : Nat} {op : Opcode} (h : code.opcode? offset = some op)
    (slots : Nat) : code.scanFrom offset slots =
      code.scanFrom (offset + op.encodedLength) (max slots (code.slotsNamed op offset)) := by
  have hlt := lt_size_of_opcode? h
  rw [Code.opcode?_eq hlt] at h
  rw [scanFrom, dif_pos hlt]
  simp only [h]

/-- Where an operation stands at every boundary, the scan takes the maximum over them. -/
theorem scanFrom_of_decodes {start : Nat}
    (h : ∀ offset ∈ code.boundariesFrom start, (code.opcode? offset).isSome) (slots : Nat) :
    code.scanFrom start slots =
      .ok ((code.boundariesFrom start).foldl (fun n offset => max n (code.slotsAt offset)) slots) := by
  fun_induction boundariesFrom code start generalizing slots with
  | case1 start hs op hop ih =>
    obtain ⟨-, hrest⟩ := List.forall_mem_cons.mp h
    rw [scanFrom_of_opcode? hop, ih hrest, List.foldl_cons, slotsAt, hop]
  | case2 start hs hnone =>
    have hsome := h start (List.mem_singleton_self _)
    rw [hnone] at hsome
    cases hsome
  | case3 start hs =>
    rw [scanFrom, dif_neg hs]
    rfl

/-- Where the linear decode comes to a byte that names no operation, the scan fails there. -/
theorem scanFrom_of_unknown {start offset : Nat} {byte : UInt8}
    (h : offset ∈ code.boundariesFrom start) (hbyte : code[offset]? = some byte)
    (hunknown : Opcode.ofByte? byte = none) (slots : Nat) :
    code.scanFrom start slots = .error (.unknownOpcode byte offset) := by
  have hnone := opcode?_of_unknown hbyte hunknown
  fun_induction boundariesFrom code start generalizing slots with
  | case1 start hs op hop ih =>
    rcases List.mem_cons.mp h with rfl | h
    · rw [hop] at hnone
      cases hnone
    · rw [scanFrom_of_opcode? hop, ih h]
  | case2 start hs hnone' =>
    obtain rfl := List.mem_singleton.mp h
    rw [Array.getElem?_eq_getElem hs] at hbyte
    obtain rfl := Option.some.inj hbyte
    rw [scanFrom, dif_pos hs]
    simp only [hunknown]
  | case3 start hs => cases h

theorem HasUnknown.scanSlots {byte : UInt8} {offset : Nat} (h : code.HasUnknown byte offset) :
    code.scanSlots = .error (.unknownOpcode byte offset) :=
  scanFrom_of_unknown h.visited h.byte_eq h.unknown 1

theorem Decodes.scanSlots (h : code.Decodes) :
    ∃ n, code.scanSlots = .ok n ∧ IsGreatest (slotDemands code.Names) n :=
  ⟨_, scanFrom_of_decodes h 1,
    isGreatest_foldl_max (fun _ _ => slotsAt_of_some) (fun _ => slotsAt_of_none) code.boundaries⟩

/-- **The scan succeeds** just if the code decodes, and then it finds the greatest number of slots
that is asked for. -/
theorem scanSlots_ok_iff {n : Nat} :
    code.scanSlots = .ok n ↔ code.Decodes ∧ IsGreatest (slotDemands code.Names) n := by
  constructor
  · intro h
    have hdecodes : code.Decodes := by
      intro offset hmem
      obtain ⟨op, hop, -⟩ := opcode?_of_scanSlots h hmem
      rw [hop]
      rfl
    obtain ⟨n', hscan, hgreatest⟩ := hdecodes.scanSlots
    obtain rfl : n' = n := Except.ok.inj (hscan.symm.trans h)
    exact ⟨hdecodes, hgreatest⟩
  · rintro ⟨hdecodes, hgreatest⟩
    obtain ⟨n', hscan, hgreatest'⟩ := hdecodes.scanSlots
    rw [hscan, hgreatest'.unique hgreatest]

/-- **The scan fails** just at a byte that names no operation. -/
theorem scanSlots_error_iff {trap : Trap} : code.scanSlots = .error trap ↔
    ∃ byte offset, code.HasUnknown byte offset ∧ trap = .unknownOpcode byte offset := by
  constructor
  · intro h
    have hnot : ¬ code.Decodes := by
      intro hdecodes
      obtain ⟨n, hscan, -⟩ := hdecodes.scanSlots
      rw [hscan] at h
      cases h
    obtain ⟨byte, offset, hunknown⟩ := exists_hasUnknown hnot
    exact ⟨byte, offset, hunknown, Except.error.inj (h.symm.trans hunknown.scanSlots)⟩
  · rintro ⟨byte, offset, hunknown, rfl⟩
    exact hunknown.scanSlots

/-- **In assembled code** the scan finds the greatest number that the instructions ask for. -/
theorem scanSlots_assemble_greatest (instrs : List Instr) :
    ∃ n, scanSlots (Instr.assemble instrs).toArray = .ok n ∧
      IsGreatest (slotDemands fun slot => ∃ i ∈ instrs, i.slot? = some slot) n := by
  refine ⟨_, scanSlots_assemble instrs, isGreatest_foldl_max ?_ ?_ instrs⟩
  · intro i slot h
    rw [Instr.slotsNamed, h]
  · intro i h
    rw [Instr.slotsNamed, h]

end Code

end BytecodeVm
