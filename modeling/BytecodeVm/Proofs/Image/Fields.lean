/- # Fields of an image

An image is a row of fields.  What a field holds can call for others: a count for so many elements,
a tag for a number or a name, a length for so many bytes.  So where a field is due is found by
decoding the fields before it, one after another, and the first one that does not decode is what is
wrong with the image.

* `Image.Field`, `Image.Place`, `Image.Due`: the fields, and where they are due;
* `Image.CutOffAt`, `Image.UnknownTagAt`, `Image.BadNameAt`: what can be wrong with a field;
* `Image.Defect.unique`: one thing is wrong with an image at most.
-/
import BytecodeVm.Image.Format
import Mathlib.Logic.Relation

namespace BytecodeVm

/-- Where an error is reported to be. -/
def LoadError.offset? : LoadError → Option Nat
  | unknownConstantKind _ offset | unexpectedEof offset | invalidUtf8 offset => some offset
  | badMagic _ | streamFailed => none

/-- The tags from 1 to 7 stand for a kind, and no others. -/
theorem ConstantKind.ofTag?_eq_none_iff (tag : UInt8) :
    ofTag? tag = none ↔ ¬ (1 ≤ tag ∧ tag ≤ 7) := by
  unfold ofTag?
  split
  case h_8 h₁ h₂ h₃ h₄ h₅ h₆ h₇ =>
    simp only [← UInt8.toNat_inj, UInt8.reduceToNat, imp_false] at h₁ h₂ h₃ h₄ h₅ h₆ h₇
    simp only [true_iff, UInt8.le_iff_toNat_le, UInt8.reduceToNat]
    omega
  all_goals decide

namespace Image

/-! ## 1. Fields -/

/-- What an image holds a number of. -/
inductive Item where
  | name | constant | type | method | body

/-- A field of an image, which is read as a whole. -/
inductive Field where
  /-- One byte of the version. -/
  | version
  /-- An index, or a number of parameters or of slots. -/
  | number
  /-- How many items follow. -/
  | count (item : Item)
  /-- The tag of a constant. -/
  | tag
  /-- The number that a constant stands for. -/
  | double
  /-- How many bytes of a name follow. -/
  | nameLength
  /-- The bytes of a name. -/
  | name (length : Nat)
  /-- How many bytes of code follow. -/
  | codeLength
  /-- The bytes of a body. -/
  | code (length : Nat)

/-- The fields that an item starts with. -/
def Item.fields : Item → List Field
  | name => [.nameLength]
  | constant => [.tag]
  | type => [.number, .count .method]
  | method => [.number, .number]
  | body => [.number, .number, .codeLength]

namespace Field

/-- The number of bytes that a field takes. -/
def width : Field → Nat
  | version | tag => 1
  | number | count _ | nameLength | codeLength => 2
  | double => 8
  | name length | code length => length

/-- The fields that a field with the given bytes calls for, unless these bytes do not decode. -/
def calledFor? (bytes : List UInt8) : Field → Option (List Field)
  | version | number | double | code _ => some []
  | count item => some (List.replicate (LittleEndian.decode bytes) item.fields).flatten
  | tag =>
    match ConstantKind.ofTag? (UInt8.ofNat (LittleEndian.decode bytes)) with
    | none => none
    | some .number => some [double]
    | some _ => some [nameLength]
  | nameLength => some [name (LittleEndian.decode bytes)]
  | name _ => (Utf8.decode bytes).map fun _ => []
  | codeLength => some [code (LittleEndian.decode bytes)]

end Field

/-- So many of the bytes, from an offset on. -/
def slice (b : List UInt8) (offset length : Nat) : List UInt8 :=
  (b.drop offset).take length

/-- An offset, and the fields that are due from there on. -/
structure Place where
  offset : Nat
  due : List Field

namespace Place

/-- The place past the magic bytes: the version, and then the parts in their order. -/
def first : Place :=
  ⟨magic.length, [.version, .version, .count .name, .count .constant, .count .type, .count .body]⟩

/-- The place past the field that is due, if the field is all there and decodes. -/
def next? (b : List UInt8) : Place → Option Place
  | ⟨_, []⟩ => none
  | ⟨offset, field :: rest⟩ =>
    if b.length - offset < field.width then none
    else (field.calledFor? (slice b offset field.width)).map fun called =>
      ⟨offset + field.width, called ++ rest⟩

end Place

/-- A place that is come to by decoding one field after another. -/
def Due (b : List UInt8) (x : Place) : Prop :=
  Relation.ReflTransGen (fun x y => x.next? b = some y) .first x

/-! ## 2. Defects -/

/-- The field that is due at an offset takes more bytes than are left. -/
def CutOffAt (b : List UInt8) (p : Nat) : Prop :=
  ∃ field rest, Due b ⟨p, field :: rest⟩ ∧ b.length - p < field.width

/-- The tag of a constant is due at an offset, and what is there stands for no kind. -/
def UnknownTagAt (b : List UInt8) (tag : UInt8) (p : Nat) : Prop :=
  ∃ rest, Due b ⟨p, .tag :: rest⟩ ∧ b[p]? = some tag ∧ ¬ (0x01 ≤ tag ∧ tag ≤ 0x07)

/-- The length of a name is due at an offset, and all the bytes of the name are there, but they are
not the encoding of a text. -/
def BadNameAt (b : List UInt8) (p : Nat) : Prop :=
  ∃ length rest, Due b ⟨p, .nameLength :: rest⟩ ∧ LittleEndian.decode (slice b p 2) = length ∧
    p + 2 + length ≤ b.length ∧ ∀ text, slice b (p + 2) length ≠ Utf8.encode text

/-- What is wrong with an image that starts with the magic bytes, if an error is reported rightly. -/
def Defect (b : List UInt8) : LoadError → Prop
  | .unexpectedEof p => CutOffAt b p
  | .unknownConstantKind tag p => UnknownTagAt b tag p
  | .invalidUtf8 p => BadNameAt b p
  | .badMagic _ | .streamFailed => False

/-! ## 3. Decoding one field after another -/

/-- A field that is all there, and decodes, is followed by the fields that it calls for. -/
theorem Due.decoded {b : List UInt8} {p : Nat} {field : Field} {rest called : List Field}
    (h : Due b ⟨p, field :: rest⟩) (hfits : p + field.width ≤ b.length)
    (hcalled : field.calledFor? (slice b p field.width) = some called) :
    Due b ⟨p + field.width, called ++ rest⟩ := by
  refine h.tail ?_
  have hwidth : ¬ b.length - p < field.width := by omega
  rw [Place.next?, if_neg hwidth, hcalled]
  rfl

/-- After the length of a name, so many bytes of it are due. -/
theorem Due.name {b : List UInt8} {p length : Nat} {rest : List Field}
    (h : Due b ⟨p, .nameLength :: rest⟩) (hfits : p + 2 ≤ b.length)
    (hlength : LittleEndian.decode (slice b p 2) = length) :
    Due b ⟨p + 2, .name length :: rest⟩ := by
  have hcalled : Field.nameLength.calledFor? (slice b p 2) = some [.name length] := by
    rw [← hlength]
    rfl
  exact h.decoded hfits hcalled

/-- Decoding goes through every place that is come to, on to where it comes to an end. -/
theorem Due.leads_to_end {b : List UInt8} {x y : Place} (hx : Due b x) (hy : Due b y)
    (hstuck : y.next? b = none) :
    Relation.ReflTransGen (fun x y => x.next? b = some y) x y := by
  have hunique : Relator.RightUnique fun x y : Place => x.next? b = some y := by
    intro x y z hy hz
    exact Option.some.inj (hy.symm.trans hz)
  rcases Relation.ReflTransGen.total_of_right_unique hunique hx hy with h | h
  · exact h
  · rcases h.cases_head with rfl | ⟨z, hz, -⟩
    · exact .refl
    · rw [hstuck] at hz
      cases hz

/-- Decoding comes to an end in one place only. -/
theorem Due.eq_of_stuck {b : List UInt8} {x y : Place} (hx : Due b x) (hy : Due b y)
    (hx' : x.next? b = none) (hy' : y.next? b = none) : x = y := by
  rcases (hx.leads_to_end hy hy').cases_head with rfl | ⟨z, hz, -⟩
  · rfl
  · rw [hx'] at hz
    cases hz

/-- What is reported where decoding comes to an end. -/
def Place.complaint (b : List UInt8) : Place → LoadError
  | ⟨p, []⟩ => .unexpectedEof p
  | ⟨p, field :: _⟩ =>
    if b.length - p < field.width then .unexpectedEof p
    else
      match field, b[p]? with
      | .tag, some tag => .unknownConstantKind tag p
      | _, _ => .invalidUtf8 (p - 2)

theorem length_slice {b : List UInt8} {p length : Nat} (h : p + length ≤ b.length) :
    (slice b p length).length = length := by
  rw [slice, List.length_take, List.length_drop]
  omega

theorem slice_one {b : List UInt8} {p : Nat} {byte : UInt8} (h : b[p]? = some byte) :
    slice b p 1 = [byte] := by
  obtain ⟨hlt, rfl⟩ := List.getElem?_eq_some_iff.mp h
  rw [slice, List.drop_eq_getElem_cons hlt]
  rfl

theorem decode_slice_one {b : List UInt8} {p : Nat} {byte : UInt8} (h : b[p]? = some byte) :
    UInt8.ofNat (LittleEndian.decode (slice b p 1)) = byte := by
  rw [slice_one h]
  exact UInt8.ofNat_toNat

/-- A defect is where decoding comes to an end with a field still due. -/
theorem Defect.stuck {b : List UInt8} {e : LoadError} (h : Defect b e) :
    ∃ x, Due b x ∧ x.due ≠ [] ∧ x.next? b = none ∧ x.complaint b = e := by
  cases e with
  | unexpectedEof p =>
    obtain ⟨field, rest, hdue, hcut⟩ := h
    exact ⟨_, hdue, List.cons_ne_nil _ _, if_pos hcut, if_pos hcut⟩
  | unknownConstantKind tag p =>
    obtain ⟨rest, hdue, htag, hunknown⟩ := h
    have hlt : p < b.length := (List.getElem?_eq_some_iff.mp htag).1
    have hfits : ¬ b.length - p < Field.tag.width := Nat.not_lt.mpr (Nat.sub_pos_of_lt hlt)
    have hkind := (ConstantKind.ofTag?_eq_none_iff tag).mpr hunknown
    have hcalled : Field.tag.calledFor? (slice b p Field.tag.width) = none := by
      simp only [Field.calledFor?, Field.width, decode_slice_one htag, hkind]
    refine ⟨_, hdue, List.cons_ne_nil _ _, ?_, ?_⟩
    · rw [Place.next?, if_neg hfits, hcalled]
      rfl
    · simp only [Place.complaint, if_neg hfits, htag]
  | invalidUtf8 p =>
    -- the length decodes, and it is the name after it that does not
    obtain ⟨length, rest, hdue, hlength, hfits, hbad⟩ := h
    have hname := hdue.name (Nat.le_of_add_right_le hfits) hlength
    have hfits' : ¬ b.length - (p + 2) < (Field.name length).width := by
      rw [Field.width]
      omega
    have hdecode : Utf8.decode (slice b (p + 2) length) = none := by
      rw [Option.eq_none_iff_forall_ne_some]
      intro text htext
      exact hbad text (Utf8.decode_eq_some_iff.mp htext)
    have hcalled : (Field.name length).calledFor?
        (slice b (p + 2) (Field.name length).width) = none := by
      simp only [Field.calledFor?, Field.width, hdecode, Option.map_none]
    refine ⟨_, hname, List.cons_ne_nil _ _, ?_, ?_⟩
    · rw [Place.next?, if_neg hfits', hcalled]
      rfl
    · simp only [Place.complaint, if_neg hfits', Nat.add_sub_cancel]
  | badMagic found | streamFailed => exact h.elim

/-- **An image has one defect at most.** -/
theorem Defect.unique {b : List UInt8} {e e' : LoadError} (h : Defect b e) (h' : Defect b e') :
    e = e' := by
  obtain ⟨x, hx, -, hstuck, rfl⟩ := h.stuck
  obtain ⟨y, hy, -, hstuck', rfl⟩ := h'.stuck
  rw [hx.eq_of_stuck hy hstuck hstuck']

theorem Defect.exists_offset? {b : List UInt8} {e : LoadError} (h : Defect b e) :
    ∃ p, e.offset? = some p := by
  cases e with
  | unexpectedEof p | unknownConstantKind tag p | invalidUtf8 p => exact ⟨p, rfl⟩
  | badMagic found | streamFailed => exact h.elim

/-- Something is wrong at an offset exactly if it is reported to be there. -/
theorem defectAt_iff {b : List UInt8} {p : Nat} :
    (CutOffAt b p ∨ (∃ tag, UnknownTagAt b tag p) ∨ BadNameAt b p) ↔
      ∃ e, Defect b e ∧ e.offset? = some p := by
  constructor
  · rintro (h | ⟨tag, h⟩ | h)
    · exact ⟨.unexpectedEof p, h, rfl⟩
    · exact ⟨.unknownConstantKind tag p, h, rfl⟩
    · exact ⟨.invalidUtf8 p, h, rfl⟩
  · rintro ⟨e, h, hp⟩
    cases e with
    | unexpectedEof q =>
      obtain rfl : q = p := Option.some.inj hp
      exact .inl h
    | unknownConstantKind tag q =>
      obtain rfl : q = p := Option.some.inj hp
      exact .inr (.inl ⟨tag, h⟩)
    | invalidUtf8 q =>
      obtain rfl : q = p := Option.some.inj hp
      exact .inr (.inr h)
    | badMagic found | streamFailed => exact h.elim

end Image

end BytecodeVm
