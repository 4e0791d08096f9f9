/- # Readers and layouts

A reader *parses* a layout if it accepts exactly the values that are valid, each as it is laid out,
and moves past them.  Readers are put together from smaller ones, and so are the layouts that they
parse.

* `Image.Parses`: a reader parses a layout;
* `Image.Parses.bind`, `Image.Parses.map`: how layouts are put together;
* `Image.u16_parses`, `Image.text_parses`, `Image.list_parses`, …: what the readers of images parse.
-/
import BytecodeVm.Image.Format
import BytecodeVm.Proofs.Stateful
import Mathlib.Algebra.Group.Nat.Defs

namespace BytecodeVm

open Stateful

/-! ## 1. Numbers as bytes -/

namespace LittleEndian

theorem decode_lt (bytes : List UInt8) : decode bytes < 256 ^ bytes.length := by
  induction bytes with
  | nil => decide
  | cons low rest ih =>
    have hlow := low.toNat_lt
    rw [decode, List.length_cons, Nat.pow_succ]
    omega

/-- A number that fits is what its layout reads as. -/
theorem decode_encode {width n : Nat} (h : n < 256 ^ width) : decode (encode width n) = n := by
  induction width generalizing n with
  | zero => exact (Nat.lt_one_iff.mp h).symm
  | succ width ih =>
    rw [Nat.pow_succ] at h
    rw [encode, decode, ih (Nat.div_lt_of_lt_mul (by omega)), UInt8.toNat_ofNat']
    omega

end LittleEndian

theorem Cursor.advance_advance (c : Cursor) (m n : Nat) :
    (c.advance m).advance n = c.advance (m + n) := by
  simp only [advance, List.drop_drop, Nat.add_assoc]

namespace Image

/-! ## 2. Parsing a layout -/

/-- The computation reads a value exactly where bytes that lay it out lie at the cursor, and moves
past them.  The cursor may be a part of the state. -/
structure Parses {ς α : Type} (cursor : ς → Cursor) (x : EStateM LoadError ς α)
    (layout : α → List UInt8 → Prop) : Prop where
  sound : ∀ {s s' : ς} {a : α}, x s = .ok a s' → ∃ bytes, layout a bytes ∧
    bytes <+: (cursor s).rest ∧ cursor s' = (cursor s).advance bytes.length
  complete : ∀ {s : ς} {a : α} {bytes : List UInt8}, layout a bytes →
    bytes <+: (cursor s).rest → ∃ s', x s = .ok a s' ∧ cursor s' = (cursor s).advance bytes.length

namespace Parses

variable {ς α β : Type} {cursor : ς → Cursor} {x : EStateM LoadError ς α}
  {layout : α → List UInt8 → Prop}

theorem congr {layout' : α → List UInt8 → Prop} (h : Parses cursor x layout)
    (hlayout : ∀ a bytes, layout a bytes ↔ layout' a bytes) : Parses cursor x layout' := by
  obtain rfl : layout = layout' := funext₂ fun a bytes => propext (hlayout a bytes)
  exact h

theorem pure (a : α) : Parses cursor (pure a) (fun b bytes => b = a ∧ bytes = []) where
  sound h := by
    obtain ⟨rfl, rfl⟩ := pure_ok_iff.mp h
    exact ⟨[], ⟨rfl, rfl⟩, List.nil_prefix, rfl⟩
  complete := by
    rintro s b bytes ⟨rfl, rfl⟩ -
    exact ⟨s, rfl, rfl⟩

theorem throw (e : LoadError) :
    Parses cursor (throw e : EStateM LoadError ς α) (fun _ _ => False) where
  sound h := by cases h
  complete h := h.elim

/-- **Reading one thing after another** parses their layouts one after another. -/
theorem bind {k : α → EStateM LoadError ς β} {layout₂ : α → β → List UInt8 → Prop}
    (hx : Parses cursor x layout) (hk : ∀ a, Parses cursor (k a) (layout₂ a)) :
    Parses cursor (x >>= k) (fun b bytes => ∃ a first rest, layout a first ∧ layout₂ a b rest ∧
      bytes = first ++ rest) where
  sound h := by
    obtain ⟨a, s₁, h₁, h₂⟩ := bind_ok_iff.mp h
    obtain ⟨first, hfirst, ⟨after, hafter⟩, hcursor₁⟩ := hx.sound h₁
    obtain ⟨rest, hrest, hprefix, hcursor₂⟩ := (hk a).sound h₂
    refine ⟨first ++ rest, ⟨a, first, rest, hfirst, hrest, rfl⟩, ?_, ?_⟩
    · rw [hcursor₁, Cursor.advance, ← hafter, List.drop_left] at hprefix
      rw [← hafter]
      exact (List.prefix_append_right_inj _).mpr hprefix
    · rw [hcursor₂, hcursor₁, Cursor.advance_advance, List.length_append]
  complete := by
    rintro s b _ ⟨a, first, rest, hfirst, hrest, rfl⟩ ⟨after, hafter⟩
    rw [List.append_assoc] at hafter
    obtain ⟨s₁, h₁, hcursor₁⟩ := hx.complete hfirst ⟨_, hafter⟩
    have hprefix : rest <+: (cursor s₁).rest := by
      rw [hcursor₁, Cursor.advance, ← hafter, List.drop_left]
      exact List.prefix_append _ _
    obtain ⟨s₂, h₂, hcursor₂⟩ := (hk a).complete hrest hprefix
    refine ⟨s₂, bind_ok_iff.mpr ⟨a, s₁, h₁, h₂⟩, ?_⟩
    rw [hcursor₂, hcursor₁, Cursor.advance_advance, List.length_append]

theorem map {f : α → β} (hx : Parses cursor x layout) :
    Parses cursor (f <$> x) (fun b bytes => ∃ a, layout a bytes ∧ b = f a) := by
  rw [map_eq_pure_bind]
  refine (hx.bind fun a => pure (f a)).congr ?_
  intro b bytes
  constructor
  · rintro ⟨a, first, _, hfirst, ⟨rfl, rfl⟩, rfl⟩
    exact ⟨a, by rwa [List.append_nil], rfl⟩
  · rintro ⟨a, ha, rfl⟩
    exact ⟨a, bytes, [], ha, ⟨rfl, rfl⟩, (List.append_nil _).symm⟩

/-- Looking at the state reads nothing. -/
theorem get {k : ς → EStateM LoadError ς α} (hk : ∀ s, Parses cursor (k s) layout) :
    Parses cursor (get >>= k) layout where
  sound := by
    intro s s' a h
    exact (hk s).sound h
  complete := by
    intro s a bytes hlayout hprefix
    exact (hk s).complete hlayout hprefix

end Parses

/-! ## 3. Primitive readers -/

theorem bytes_parses (n : Nat) :
    Parses id (Reader.bytes n) (fun bytes laid => laid = bytes ∧ bytes.length = n) where
  sound := by
    intro c c' bytes h
    simp only [Reader.bytes] at h
    split at h
    · rename_i hlength
      cases h
      exact ⟨_, ⟨rfl, hlength⟩, List.take_prefix _ _, by rw [hlength]; rfl⟩
    · cases h
  complete := by
    rintro c _ bytes ⟨rfl, rfl⟩ hprefix
    have htake : c.rest.take bytes.length = bytes := (List.prefix_iff_eq_take.mp hprefix).symm
    refine ⟨c.advance bytes.length, ?_, rfl⟩
    simp only [Reader.bytes, htake, if_true]

theorem littleEndian_parses (width : Nat) :
    Parses id (Reader.littleEndian width)
      (fun n bytes => bytes = LittleEndian.encode width n ∧ n < 256 ^ width) := by
  refine (bytes_parses width).map.congr ?_
  intro n bytes
  constructor
  · rintro ⟨_, ⟨rfl, rfl⟩, rfl⟩
    exact ⟨(LittleEndian.encode_decode bytes).symm, LittleEndian.decode_lt bytes⟩
  · rintro ⟨rfl, hn⟩
    exact ⟨_, ⟨rfl, LittleEndian.length_encode width n⟩, (LittleEndian.decode_encode hn).symm⟩

theorem u8_parses : Parses id Reader.u8 (fun n bytes => bytes = [n]) := by
  refine (littleEndian_parses 1).map.congr ?_
  intro b bytes
  constructor
  · rintro ⟨n, ⟨rfl, hn⟩, rfl⟩
    rfl
  · rintro rfl
    refine ⟨b.toNat, ⟨?_, b.toNat_lt⟩, UInt8.ofNat_toNat.symm⟩
    rw [LittleEndian.encode, LittleEndian.encode, UInt8.ofNat_toNat]

theorem u16_parses : Parses id Reader.u16 (fun n bytes => bytes = encodeU16 n.toNat) := by
  refine (littleEndian_parses 2).map.congr ?_
  intro n bytes
  constructor
  · rintro ⟨k, ⟨rfl, hk⟩, rfl⟩
    rw [encodeU16, UInt16.toNat_ofNat_of_lt' hk]
  · rintro rfl
    exact ⟨n.toNat, ⟨rfl, n.toNat_lt⟩, UInt16.ofNat_toNat.symm⟩

theorem binary64_parses : Parses id Reader.binary64
    (fun x bytes => bytes = LittleEndian.encode 8 x.bits.toNat) := by
  refine (littleEndian_parses 8).map.congr ?_
  intro x bytes
  constructor
  · rintro ⟨k, ⟨rfl, hk⟩, rfl⟩
    rw [UInt64.toNat_ofNat_of_lt' hk]
  · rintro rfl
    exact ⟨x.bits.toNat, ⟨rfl, x.bits.toNat_lt⟩, by rw [UInt64.ofNat_toNat]⟩

/-- Where a reader stands is no part of what it reads. -/
theorem position_parses {α : Type} {k : Nat → Reader α} {layout : α → List UInt8 → Prop}
    (hk : ∀ offset, Parses id (k offset) layout) : Parses id (Reader.position >>= k) layout :=
  Parses.get fun c => hk c.offset

/-! ## 4. Counted readers -/

theorem toNat_ofNat_of_le {n : Nat} (h : n ≤ 65535) : (UInt16.ofNat n).toNat = n :=
  UInt16.toNat_ofNat_of_lt' (Nat.lt_succ_of_le h)

theorem toNat_le (n : UInt16) : n.toNat ≤ 65535 :=
  Nat.le_of_lt_succ n.toNat_lt

theorem counted_parses : Parses id Reader.counted
    (fun bytes laid => laid = encodeCounted bytes ∧ bytes.length ≤ 65535) := by
  refine (u16_parses.bind fun count => bytes_parses count.toNat).congr ?_
  intro bytes laid
  constructor
  · rintro ⟨count, _, _, rfl, ⟨rfl, hlength⟩, rfl⟩
    rw [encodeCounted, hlength]
    exact ⟨rfl, toNat_le count⟩
  · rintro ⟨rfl, hlength⟩
    refine ⟨UInt16.ofNat bytes.length, _, bytes, rfl, ⟨rfl, ?_⟩, ?_⟩
    · rw [toNat_ofNat_of_le hlength]
    · rw [encodeCounted, toNat_ofNat_of_le hlength]

/-- A run of bytes stands for the text that it encodes, if it encodes one. -/
theorem decoded_parses (start : Nat) (content : List UInt8) :
    Parses id (match Utf8.decode content with
      | some text => pure text
      | none => throw (.invalidUtf8 start) : Reader String)
      (fun text laid => content = Utf8.encode text ∧ laid = []) := by
  cases hdecode : Utf8.decode content with
  | some text =>
    refine (Parses.pure text).congr ?_
    intro text' laid
    rw [← Utf8.decode_eq_some_iff, hdecode, Option.some.injEq, eq_comm]
  | none =>
    refine (Parses.throw _).congr ?_
    intro text' laid
    rw [← Utf8.decode_eq_some_iff, hdecode]
    simp

theorem text_parses : Parses id Reader.text
    (fun text laid => laid = encodeText text ∧ (Utf8.encode text).length ≤ 65535) := by
  refine position_parses fun start => (counted_parses.bind (decoded_parses start)).congr ?_
  intro text laid
  constructor
  · rintro ⟨_, _, _, ⟨rfl, hlength⟩, ⟨rfl, rfl⟩, rfl⟩
    exact ⟨List.append_nil _, hlength⟩
  · rintro ⟨rfl, hlength⟩
    exact ⟨Utf8.encode text, _, [], ⟨rfl, hlength⟩, ⟨rfl, rfl⟩, (List.append_nil _).symm⟩

/-- Elements that are valid at their positions, from the given one on. -/
def ValidFrom {α : Type} (valid : UInt16 → α → Prop) : UInt16 → List α → Prop
  | _, [] => True
  | index, a :: rest => valid index a ∧ ValidFrom valid (index + 1) rest

theorem validFrom_iff {α : Type} {valid : UInt16 → α → Prop} (index : UInt16) (xs : List α) :
    ValidFrom valid index xs ↔
      ∀ k a, xs[k]? = some a → valid (index + UInt16.ofNat k) a := by
  induction xs generalizing index with
  | nil => simp [ValidFrom]
  | cons head tail ih =>
    have hshift : ∀ k, index + 1 + UInt16.ofNat k = index + UInt16.ofNat (k + 1) := by
      intro k
      rw [UInt16.ofNat_add, UInt16.add_assoc, UInt16.add_comm 1]
      rfl
    rw [ValidFrom, ih]
    constructor
    · rintro ⟨hhead, htail⟩ k a hk
      cases k with
      | zero =>
        obtain rfl : head = a := by simpa using hk
        simpa using hhead
      | succ k =>
        rw [← hshift]
        exact htail k a (by simpa using hk)
    · intro h
      refine ⟨by simpa using h 0 head rfl, fun k a hk => ?_⟩
      rw [hshift]
      exact h (k + 1) a (by simpa using hk)

section Lists

variable {α : Type} {element : UInt16 → Reader α} {valid : UInt16 → α → Prop}
  {encode : α → List UInt8}

theorem elements_parses
    (h : ∀ index, Parses id (element index) fun a laid => laid = encode a ∧ valid index a)
    (count : Nat) (index : UInt16) : Parses id (Reader.elements element count index)
      (fun xs laid => laid = xs.flatMap encode ∧ xs.length = count ∧ ValidFrom valid index xs) := by
  induction count generalizing index with
  | zero =>
    refine (Parses.pure []).congr ?_
    intro xs laid
    constructor
    · rintro ⟨rfl, rfl⟩
      exact ⟨rfl, rfl, trivial⟩
    · rintro ⟨rfl, hlength, -⟩
      obtain rfl := List.length_eq_zero_iff.mp hlength
      exact ⟨rfl, rfl⟩
  | succ count ih =>
    refine ((h index).bind fun head => (ih (index + 1)).bind fun tail =>
      .pure (head :: tail)).congr ?_
    intro xs laid
    constructor
    · rintro ⟨head, _, _, ⟨rfl, hhead⟩, ⟨tail, _, _, ⟨rfl, hlength, htail⟩, ⟨rfl, rfl⟩, rfl⟩, rfl⟩
      refine ⟨?_, ?_, hhead, htail⟩
      · rw [List.flatMap_cons, List.append_nil]
      · rw [List.length_cons, hlength]
    · rintro ⟨rfl, hlength, hvalid⟩
      cases xs with
      | nil => cases hlength
      | cons head tail =>
        refine ⟨head, _, _, ⟨rfl, hvalid.1⟩,
          ⟨tail, _, [], ⟨rfl, Nat.succ.inj hlength, hvalid.2⟩, ⟨rfl, rfl⟩, rfl⟩, ?_⟩
        rw [List.flatMap_cons, List.append_nil]

theorem list_parses
    (h : ∀ index, Parses id (element index) fun a laid => laid = encode a ∧ valid index a) :
    Parses id (Reader.list element)
      (fun xs laid => laid = encodeList encode xs ∧ xs.length ≤ 65535 ∧
        ∀ k a, xs[k]? = some a → valid (UInt16.ofNat k) a) := by
  refine (u16_parses.bind fun count => elements_parses h count.toNat 0).congr ?_
  intro xs laid
  simp only [validFrom_iff, UInt16.zero_add]
  constructor
  · rintro ⟨count, _, _, rfl, ⟨rfl, hlength, hvalid⟩, rfl⟩
    rw [encodeList, hlength]
    exact ⟨rfl, toNat_le count, hvalid⟩
  · rintro ⟨rfl, hlength, hvalid⟩
    refine ⟨UInt16.ofNat xs.length, _, _, rfl, ⟨rfl, ?_, hvalid⟩, ?_⟩
    · rw [toNat_ofNat_of_le hlength]
    · rw [encodeList, toNat_ofNat_of_le hlength]

/-- A list whose elements do not depend on their positions. -/
theorem plainList_parses {reader : Reader α} {valid : α → Prop}
    (h : Parses id reader fun a laid => laid = encode a ∧ valid a) :
    Parses id (Reader.list fun _ => reader)
      (fun xs laid => laid = encodeList encode xs ∧ xs.length ≤ 65535 ∧ ∀ a ∈ xs, valid a) := by
  refine (list_parses fun _ => h).congr ?_
  intro xs laid
  simp only [List.mem_iff_getElem?, forall_exists_index]
  rw [forall_comm]

end Lists

end Image

end BytecodeVm
