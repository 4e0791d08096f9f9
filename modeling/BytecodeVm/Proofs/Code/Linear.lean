/- # Boundaries

The boundaries of code are the offsets that its linear decode visits.  Whatever control does, it
should stay on them: falling through leads from one boundary to the next, and code is *well targeted*
if its jumps and its handlers lead to boundaries too, or past the end of the code.

* `Code.OnBoundary.next`: the instruction after one at a boundary is at a boundary;
* `Code.opcode?_of_scanSlots`: in code that decodes, an operation stands at every boundary, and the
  slot that it names was counted;
* `Code.getLast?_of_overrun`: only the last boundary has an instruction that is cut off.
-/
import BytecodeVm.Code.Scan
import Mathlib.Tactic.Common

namespace BytecodeVm

/-- Whether an operation has a code offset for its operand. -/
def Opcode.isBranch : Opcode → Bool
  | jmp | jmpTrue | jmpFalse | enterAttempt => true
  | _ => false

namespace Code

/-! ## 1. Boundaries -/

/-- The operation that the byte at an offset names. -/
def opcode? (code : Code) (offset : Nat) : Option Opcode :=
  code[offset]?.bind Opcode.ofByte?

/-- The offsets that the linear decode visits, from one of them on. -/
def boundariesFrom (code : Code) (offset : Nat) : List Nat :=
  if offset < code.size then
    match code.opcode? offset with
    | some op => offset :: boundariesFrom code (offset + op.encodedLength)
    | none => [offset]
  else []
termination_by code.size - offset
decreasing_by
  have := op.encodedLength_pos
  omega

/-- The offsets that the linear decode visits. -/
def boundaries (code : Code) : List Nat :=
  code.boundariesFrom 0

/-- Where control may be: at a boundary or past the end. -/
def OnBoundary (code : Code) (offset : Nat) : Prop :=
  offset ∈ code.boundaries ∨ code.size ≤ offset

instance (code : Code) (offset : Nat) : Decidable (code.OnBoundary offset) :=
  inferInstanceAs (Decidable (offset ∈ code.boundaries ∨ code.size ≤ offset))

/-- Where the instruction at an offset may send control, if it is a branch and complete. -/
def target? (code : Code) (offset : Nat) : Option UInt16 :=
  match code.opcode? offset with
  | some op => if op.isBranch then code.operand? (offset + 1) else none
  | none => none

/-- All branches at boundaries lead to boundaries or past the end. -/
def WellTargeted (code : Code) : Prop :=
  ∀ offset ∈ code.boundaries, ∀ target ∈ code.target? offset, code.OnBoundary target.toNat

-- each offset has at most one target, so no search over all offsets is needed
instance (code : Code) : Decidable code.WellTargeted :=
  letI (offset : Nat) : Decidable (∀ target ∈ code.target? offset, code.OnBoundary target.toNat) :=
    Option.decidableForallMem _
  List.decidableBAll _ _

end Code

/-- All bodies of a program are well targeted. -/
def Program.WellTargeted (p : Program) : Prop :=
  ∀ b ∈ p.bodies, b.code.WellTargeted

instance (p : Program) : Decidable p.WellTargeted :=
  inferInstanceAs (Decidable (∀ b ∈ p.bodies, b.code.WellTargeted))

namespace Code

/-! ## 2. From one boundary to the next -/

section Unfold

variable {code : Code} {offset : Nat}

theorem lt_size_of_opcode? {op : Opcode} (h : code.opcode? offset = some op) :
    offset < code.size := by
  obtain ⟨byte, hbyte, -⟩ := Option.bind_eq_some_iff.mp h
  exact (Array.getElem?_eq_some_iff.mp hbyte).1

theorem opcode?_eq (h : offset < code.size) : code.opcode? offset = Opcode.ofByte? code[offset] := by
  rw [opcode?, Array.getElem?_eq_getElem h, Option.bind_some]

theorem boundariesFrom_of_opcode? {op : Opcode} (h : code.opcode? offset = some op) :
    code.boundariesFrom offset = offset :: code.boundariesFrom (offset + op.encodedLength) := by
  rw [boundariesFrom, if_pos (lt_size_of_opcode? h), h]

theorem boundariesFrom_of_unknown (hs : offset < code.size) (h : code.opcode? offset = none) :
    code.boundariesFrom offset = [offset] := by
  rw [boundariesFrom, if_pos hs, h]

theorem boundariesFrom_of_size_le (h : code.size ≤ offset) : code.boundariesFrom offset = [] := by
  rw [boundariesFrom, if_neg (Nat.not_lt.mpr h)]

theorem mem_boundariesFrom_self (h : offset < code.size) : offset ∈ code.boundariesFrom offset := by
  cases hop : code.opcode? offset with
  | none => simp [boundariesFrom_of_unknown h hop]
  | some op => simp [boundariesFrom_of_opcode? hop]

end Unfold

/-- Control starts at a boundary. -/
theorem onBoundary_zero (code : Code) : code.OnBoundary 0 := by
  rcases Nat.lt_or_ge 0 code.size with h | h
  · exact .inl (mem_boundariesFrom_self h)
  · exact .inr h

/-- What the linear decode does not end with, it goes past, one instruction at a time. -/
theorem boundariesFrom_next {code : Code} {start offset : Nat} {op : Opcode}
    (h : offset ∈ code.boundariesFrom start) (hop : code.opcode? offset = some op) :
    offset + op.encodedLength ∈ code.boundariesFrom start ∨
      code.size ≤ offset + op.encodedLength := by
  fun_induction boundariesFrom code start with
  | case1 start hs first hfirst ih =>
    rcases List.mem_cons.mp h with rfl | h
    · obtain rfl : first = op := Option.some.inj (hfirst.symm.trans hop)
      rcases Nat.lt_or_ge (offset + first.encodedLength) code.size with hlt | hge
      · exact .inl (List.mem_cons_of_mem _ (mem_boundariesFrom_self hlt))
      · exact .inr hge
    · exact (ih h).imp_left (List.mem_cons_of_mem _)
  | case2 start hs hnone =>
    rw [List.mem_singleton.mp h, hnone] at hop
    cases hop
  | case3 start hs => cases h

/-- **The instruction after one at a boundary is at a boundary.** -/
theorem OnBoundary.next {code : Code} {offset : Nat} {op : Opcode} (h : code.OnBoundary offset)
    (hop : code.opcode? offset = some op) : code.OnBoundary (offset + op.encodedLength) := by
  rcases h with h | h
  · exact boundariesFrom_next h hop
  · exact absurd (lt_size_of_opcode? hop) (Nat.not_lt.mpr h)

/-! ## 3. What the scan has seen -/

theorem le_of_scanFrom {code : Code} {offset slots n : Nat}
    (h : code.scanFrom offset slots = .ok n) : slots ≤ n := by
  fun_induction scanFrom code offset slots with
  | case1 offset slots hs op hop ih => exact Nat.le_trans (Nat.le_max_left _ _) (ih h)
  | case2 offset slots hs hop => cases h
  | case3 offset slots hs => exact Nat.le_of_eq (Except.ok.inj h)

/-- Code that decodes from an offset on has an operation at every boundary from there on, and the
slots that the operation asks for are among those counted. -/
theorem opcode?_of_scanFrom {code : Code} {start slots n offset : Nat}
    (h : code.scanFrom start slots = .ok n) (ho : offset ∈ code.boundariesFrom start) :
    ∃ op, code.opcode? offset = some op ∧ code.slotsNamed op offset ≤ n := by
  fun_induction scanFrom code start slots with
  | case1 start slots hs op hop ih =>
    have hstart : code.opcode? start = some op := (opcode?_eq hs).trans hop
    rw [boundariesFrom_of_opcode? hstart] at ho
    rcases List.mem_cons.mp ho with rfl | ho
    · exact ⟨op, hstart, Nat.le_trans (Nat.le_max_right _ _) (le_of_scanFrom h)⟩
    · exact ih h ho
  | case2 start slots hs hop => cases h
  | case3 start slots hs =>
    rw [boundariesFrom_of_size_le (Nat.not_lt.mp hs)] at ho
    cases ho

/-- **In code that decodes, an operation stands at every boundary, and the slot that it names was
counted.** -/
theorem opcode?_of_scanSlots {code : Code} {n offset : Nat} (h : code.scanSlots = .ok n)
    (ho : offset ∈ code.boundaries) :
    ∃ op, code.opcode? offset = some op ∧ code.slotsNamed op offset ≤ n :=
  opcode?_of_scanFrom h ho

/-- The scan fails only at a byte that names no operation. -/
theorem scanFrom_error {code : Code} {offset slots : Nat} {trap : Trap}
    (h : code.scanFrom offset slots = .error trap) :
    ∃ byte place, trap = .unknownOpcode byte place := by
  fun_induction scanFrom code offset slots with
  | case1 offset slots hs op hop ih => exact ih h
  | case2 offset slots hs hop => exact ⟨_, _, (Except.error.inj h).symm⟩
  | case3 offset slots hs => cases h

/-! ## 4. The end of the code -/

theorem getLast?_boundariesFrom_of_overrun {code : Code} {start offset : Nat} {op : Opcode}
    (h : offset ∈ code.boundariesFrom start) (hop : code.opcode? offset = some op)
    (hsize : code.size ≤ offset + op.encodedLength) :
    (code.boundariesFrom start).getLast? = some offset := by
  fun_induction boundariesFrom code start with
  | case1 start hs first hfirst ih =>
    rcases List.mem_cons.mp h with rfl | h
    · obtain rfl : first = op := Option.some.inj (hfirst.symm.trans hop)
      rw [boundariesFrom_of_size_le hsize]
      rfl
    · rw [List.getLast?_cons, ih h]
      rfl
  | case2 start hs hnone =>
    rw [List.mem_singleton.mp h]
    rfl
  | case3 start hs => cases h

/-- **An instruction that reaches the end of the code, or beyond it, is the last one.** -/
theorem getLast?_of_overrun {code : Code} {offset : Nat} {op : Opcode}
    (h : offset ∈ code.boundaries) (hop : code.opcode? offset = some op)
    (hsize : code.size ≤ offset + op.encodedLength) : code.boundaries.getLast? = some offset :=
  getLast?_boundariesFrom_of_overrun h hop hsize

end Code

end BytecodeVm
