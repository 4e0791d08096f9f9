/- # Little-endian integers

A number is laid out as bytes with the low byte first.  `encode_decode`: every run of bytes is the
layout of the number that it reads as.
-/

namespace BytecodeVm.LittleEndian

/-- The low `width` bytes of a number, the lowest first. -/
def encode : Nat → Nat → List UInt8
  | 0, _ => []
  | width + 1, n => UInt8.ofNat n :: encode width (n / 256)

/-- The number that a run of bytes lays out. -/
def decode : List UInt8 → Nat
  | [] => 0
  | low :: rest => low.toNat + 256 * decode rest

@[simp] theorem length_encode (width n : Nat) : (encode width n).length = width := by
  induction width generalizing n with
  | zero => rfl
  | succ width ih => simp [encode, ih]

/-- A run of bytes is the layout of the number that it reads as. -/
theorem encode_decode (bytes : List UInt8) : encode bytes.length (decode bytes) = bytes := by
  induction bytes with
  | nil => rfl
  | cons low rest ih =>
    have h : low.toNat < 256 := low.toNat_lt
    simp only [decode, List.length_cons, encode, List.cons.injEq]
    refine ⟨?_, ?_⟩
    · apply UInt8.toNat_inj.mp
      simp only [UInt8.toNat_ofNat']
      omega
    · rw [show (low.toNat + 256 * decode rest) / 256 = decode rest by omega]
      exact ih

end BytecodeVm.LittleEndian
