/- # The bytes of characters

A text is encoded character by character, so that it can be cut between any two of them.  A character
either is one byte below `0x80`, its own number, or takes two to four bytes, none of them below `0x80`.

* `Utf8.encode_ofList_cons`, `Utf8.encode_ofList_append`: the bytes of a text that is put together;
* `Utf8.encode_injective`: different texts have different bytes;
* `Utf8.length_encode_ofList_le`: how many bytes there are at most;
* `Utf8.encodeChar_cases`: the bytes of a character;
* `Utf8.mem_encode_ofList_iff`: which bytes below `0x80` there are in a text.
-/
import BytecodeVm.Text.Utf8
import Mathlib.Data.List.Basic
import Mathlib.Tactic.Common

namespace BytecodeVm.Utf8

open String (utf8EncodeChar)

/-! ## 1. Texts -/

theorem encode_ofList (chars : List Char) :
    encode (.ofList chars) = chars.flatMap utf8EncodeChar := by
  simp [encode, String.toByteArray_ofList, List.utf8Encode]

theorem encode_ofList_nil : encode (.ofList []) = [] := by
  rw [encode_ofList, List.flatMap_nil]

theorem encode_ofList_cons (ch : Char) (chars : List Char) :
    encode (.ofList (ch :: chars)) = utf8EncodeChar ch ++ encode (.ofList chars) := by
  rw [encode_ofList, encode_ofList, List.flatMap_cons]

theorem encode_ofList_append (front back : List Char) :
    encode (.ofList (front ++ back)) = encode (.ofList front) ++ encode (.ofList back) := by
  rw [encode_ofList, encode_ofList, encode_ofList, List.flatMap_append]

theorem encode_injective : Function.Injective encode := by
  intro text text' h
  have hdecode := decode_encode text
  rw [h, decode_encode] at hdecode
  exact (Option.some.inj hdecode).symm

/-- Only the empty text has no bytes. -/
theorem encode_ofList_eq_nil_iff {chars : List Char} :
    encode (.ofList chars) = [] ↔ chars = [] := by
  constructor
  · intro h
    exact String.ofList_injective (encode_injective (h.trans encode_ofList_nil.symm))
  · rintro rfl
    exact encode_ofList_nil

/-- A character takes at most four bytes. -/
theorem length_encode_ofList_le (chars : List Char) :
    (encode (.ofList chars)).length ≤ 4 * chars.length := by
  induction chars with
  | nil => exact Nat.le_of_eq (congrArg List.length encode_ofList_nil)
  | cons ch rest ih =>
    have hch : (utf8EncodeChar ch).length ≤ 4 := by
      simpa using ch.utf8Size_le_four
    rw [encode_ofList_cons, List.length_append, List.length_cons]
    omega

/-! ## 2. Characters -/

/-- The bytes of a character are those of the text that it makes up. -/
theorem encode_singleton (ch : Char) : encode (.singleton ch) = utf8EncodeChar ch := by
  rw [String.singleton_eq_ofList, encode_ofList, List.flatMap_singleton]

/-- **The bytes of a character**, the first of which tells how many there are. -/
theorem encodeChar_cases (ch : Char) :
    (ch.toNat < 0x80 ∧ utf8EncodeChar ch = [.ofNat ch.toNat]) ∨
    (0x80 ≤ ch.toNat ∧ ∃ first rest, utf8EncodeChar ch = first :: rest ∧
      (∀ byte ∈ first :: rest, 0x80 ≤ byte.toNat) ∧
      (0xc0 ≤ first.toNat ∧ first.toNat < 0xe0 ∧ rest.length = 1 ∨
        0xe0 ≤ first.toNat ∧ first.toNat < 0xf0 ∧ rest.length = 2 ∨
        0xf0 ≤ first.toNat ∧ rest.length = 3)) := by
  rcases Nat.lt_or_ge ch.toNat 0x80 with h | h
  · refine .inl ⟨h, ?_⟩
    unfold utf8EncodeChar
    exact if_pos (Nat.le_of_lt_succ h)
  · refine .inr ⟨h, ?_⟩
    unfold utf8EncodeChar
    change 0x80 ≤ ch.val.toNat at h
    generalize ch.val.toNat = v at h
    simp only [if_neg (Nat.not_le.mpr h)]
    split
    · refine ⟨_, _, rfl, ?_⟩
      simp only [List.forall_mem_cons, List.not_mem_nil, false_implies, implies_true, and_true,
        UInt8.toNat_ofNat', Nat.reducePow, List.length_cons, List.length_nil]
      omega
    · split
      · refine ⟨_, _, rfl, ?_⟩
        simp only [List.forall_mem_cons, List.not_mem_nil, false_implies, implies_true, and_true,
          UInt8.toNat_ofNat', Nat.reducePow, List.length_cons, List.length_nil]
        omega
      · refine ⟨_, _, rfl, ?_⟩
        simp only [List.forall_mem_cons, List.not_mem_nil, false_implies, implies_true, and_true,
          UInt8.toNat_ofNat', Nat.reducePow, List.length_cons, List.length_nil]
        omega

/-- A byte below `0x80` in a text is the character of that number. -/
theorem mem_encode_ofList_iff {ch : Char} (h : ch.toNat < 0x80) {chars : List Char} :
    UInt8.ofNat ch.toNat ∈ encode (.ofList chars) ↔ ch ∈ chars := by
  have hbyte : (UInt8.ofNat ch.toNat).toNat = ch.toNat :=
    UInt8.toNat_ofNat_of_lt' (Nat.lt_trans h (by decide))
  rw [encode_ofList, List.mem_flatMap]
  constructor
  · rintro ⟨other, hmem, hin⟩
    rcases encodeChar_cases other with ⟨hother, hbytes⟩ | ⟨-, first, rest, hbytes, habove, -⟩
    · rw [hbytes, List.mem_singleton] at hin
      rw [hin, UInt8.toNat_ofNat_of_lt' (Nat.lt_trans hother (by decide))] at hbyte
      exact Char.toNat_inj.mp hbyte ▸ hmem
    · rw [hbytes] at hin
      have := habove _ hin
      omega
  · intro hmem
    refine ⟨ch, hmem, ?_⟩
    rcases encodeChar_cases ch with ⟨-, hbytes⟩ | ⟨habove, -⟩
    · rw [hbytes]
      exact List.mem_singleton_self _
    · omega

end BytecodeVm.Utf8
