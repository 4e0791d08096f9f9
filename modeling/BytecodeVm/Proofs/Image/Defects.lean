/- # Defects of an image

Readers decode the fields of an image in their order, and fail at the first one that does not
decode.  What they report is what is wrong with that field.

* `Image.Follows`: a reader decodes the fields that are due, or reports what is wrong with one;
* `Image.Follows.bind`, `Image.bytes_follows`: how readers that follow fields are put together;
* `Image.load_first_defect`: an image that does not load has one defect, which is reported.
-/
import BytecodeVm.Proofs.Image.Fields
import BytecodeVm.Proofs.Image.Layout

namespace BytecodeVm

/-- The cursor stands at its offset in the given bytes. -/
structure Cursor.In (c : Cursor) (b : List UInt8) : Prop where
  offset_le : c.offset ≤ b.length
  rest : c.rest = b.drop c.offset

namespace Image

open Stateful

/-! ## 1. Following the fields -/

/-- The computation decodes the fields that are due, up to those that are left, or reports a defect.
The cursor may be a part of the state. -/
def Follows {ς α : Type} (b : List UInt8) (cursor : ς → Cursor) (x : EStateM LoadError ς α)
    (due : List Field) (left : α → List Field) : Prop :=
  ∀ s, (cursor s).In b → Due b ⟨(cursor s).offset, due⟩ →
    match x s with
    | .ok a s' => (cursor s').In b ∧ Due b ⟨(cursor s').offset, left a⟩
    | .error e _ => Defect b e

namespace Follows

variable {ς α β : Type} {b : List UInt8} {cursor : ς → Cursor} {x : EStateM LoadError ς α}
  {due : List Field} {left : α → List Field}

theorem pure (a : α) : Follows b cursor (pure a) due fun _ => due :=
  fun _ hs hdue => ⟨hs, hdue⟩

/-- Looking at the state decodes nothing. -/
theorem get {k : ς → EStateM LoadError ς α} (hk : ∀ s, Follows b cursor (k s) due left) :
    Follows b cursor (get >>= k) due left :=
  fun s hs hdue => hk s s hs hdue

/-- **Reading one thing after another** decodes the fields of both. -/
theorem bind {k : α → EStateM LoadError ς β} {left' : β → List Field}
    (hx : Follows b cursor x due left) (hk : ∀ a, Follows b cursor (k a) (left a) left') :
    Follows b cursor (x >>= k) due left' := by
  intro s hs hdue
  have hfirst := hx s hs hdue
  simp only [Bind.bind, EStateM.bind]
  cases hread : x s with
  | ok a s₁ =>
    rw [hread] at hfirst
    exact hk a s₁ hfirst.1 hfirst.2
  | error e s₁ =>
    rw [hread] at hfirst
    exact hfirst

theorem map {f : α → β} {left : β → List Field} (hx : Follows b cursor x due fun a => left (f a)) :
    Follows b cursor (f <$> x) due left := by
  rw [map_eq_pure_bind]
  exact hx.bind fun a _ hs hdue => ⟨hs, hdue⟩

end Follows

/-! ## 2. Readers -/

/-- What reading so many bytes comes to. -/
theorem bytes_cases {b : List UInt8} {c : Cursor} (hc : c.In b) (n : Nat) :
    Reader.bytes n c = .error (.unexpectedEof c.offset) c ∧ b.length - c.offset < n ∨
    Reader.bytes n c = .ok (slice b c.offset n) (c.advance n) ∧ c.offset + n ≤ b.length ∧
      (c.advance n).In b := by
  have hlength : (c.rest.take n).length = min n (b.length - c.offset) := by
    rw [hc.rest, List.length_take, List.length_drop]
  have hle := hc.offset_le
  rcases Nat.lt_or_ge (b.length - c.offset) n with hlt | hge
  · refine .inl ⟨?_, hlt⟩
    rw [Reader.bytes, if_neg (by omega)]
  · refine .inr ⟨?_, by omega, ?_⟩
    · rw [Reader.bytes, if_pos (by omega), slice, hc.rest]
    · refine ⟨?_, ?_⟩
      · simp only [Cursor.advance]
        omega
      · simp only [Cursor.advance, hc.rest, List.drop_drop]

variable {b : List UInt8} {rest : List Field}

/-- Reading the bytes of a field that decodes whatever they are. -/
theorem bytes_follows (field : Field) {left : List UInt8 → List Field}
    (h : ∀ bytes, bytes.length = field.width →
      ∃ called, field.calledFor? bytes = some called ∧ left bytes = called ++ rest) :
    Follows b id (Reader.bytes field.width) (field :: rest) left := by
  intro c (hc : c.In b) (hdue : Due b ⟨c.offset, field :: rest⟩)
  rcases bytes_cases hc field.width with ⟨hread, hcut⟩ | ⟨hread, hfits, hc'⟩
  · rw [hread]
    exact ⟨field, rest, hdue, hcut⟩
  · obtain ⟨called, hcalled, hleft⟩ := h _ (length_slice hfits)
    rw [hread]
    refine ⟨hc', ?_⟩
    rw [hleft]
    exact hdue.decoded hfits hcalled

theorem version_follows : Follows b id Reader.u8 (.version :: rest) fun _ => rest :=
  .map (.map (bytes_follows .version fun _ _ => ⟨[], rfl, rfl⟩))

theorem double_follows : Follows b id Reader.binary64 (.double :: rest) fun _ => rest :=
  .map (.map (bytes_follows .double fun _ _ => ⟨[], rfl, rfl⟩))

theorem toNat_decode {bytes : List UInt8} (h : bytes.length = 2) :
    (UInt16.ofNat (LittleEndian.decode bytes)).toNat = LittleEndian.decode bytes := by
  have hlt := LittleEndian.decode_lt bytes
  rw [h] at hlt
  exact UInt16.toNat_ofNat_of_lt' hlt

/-- Reading a field of two bytes by the number that they lay out. -/
theorem u16_follows (field : Field) {left : UInt16 → List Field} (hwidth : field.width = 2)
    (h : ∀ bytes n, LittleEndian.decode bytes = n.toNat →
      ∃ called, field.calledFor? bytes = some called ∧ left n = called ++ rest) :
    Follows b id Reader.u16 (field :: rest) left := by
  refine .map (.map ?_)
  rw [← hwidth]
  refine bytes_follows field ?_
  intro bytes hlength
  exact h bytes _ (toNat_decode (hlength.trans hwidth)).symm

theorem number_follows : Follows b id Reader.u16 (.number :: rest) fun _ => rest :=
  u16_follows .number rfl fun _ _ _ => ⟨[], rfl, rfl⟩

theorem count_follows (item : Item) : Follows b id Reader.u16 (.count item :: rest)
    fun count => (List.replicate count.toNat item.fields).flatten ++ rest :=
  u16_follows (.count item) rfl fun _ _ hcount => ⟨_, rfl, by rw [hcount]⟩

theorem codeLength_follows :
    Follows b id Reader.u16 (.codeLength :: rest) fun length => .code length.toNat :: rest :=
  u16_follows .codeLength rfl fun _ _ hlength => ⟨_, rfl, by rw [hlength]; rfl⟩

theorem code_follows : Follows b id Reader.counted (.codeLength :: rest) fun _ => rest :=
  codeLength_follows.bind fun length =>
    bytes_follows (.code length.toNat) fun _ _ => ⟨[], rfl, rfl⟩

/-- What reading a counted run of bytes comes to: the count is cut off, the run is, or both are
there. -/
theorem counted_cases {c : Cursor} {p length : Nat} (hc : c.In b) (hp : c.offset = p)
    (hlength : LittleEndian.decode (slice b p 2) = length) :
    (∃ c', Reader.counted c = .error (.unexpectedEof p) c' ∧ b.length - p < 2) ∨
    (∃ c', Reader.counted c = .error (.unexpectedEof (p + 2)) c' ∧ p + 2 ≤ b.length ∧
      b.length - (p + 2) < length) ∨
    ∃ c', Reader.counted c = .ok (slice b (p + 2) length) c' ∧ p + 2 + length ≤ b.length ∧
      c'.In b ∧ c'.offset = p + 2 + length := by
  subst hp hlength
  rcases bytes_cases hc 2 with ⟨herror, hcut⟩ | ⟨hok, hfits, hc'⟩
  · refine .inl ⟨c, ?_, hcut⟩
    exact bind_error_iff.mpr (.inl (map_error_iff.mpr (map_error_iff.mpr herror)))
  · have hbytes := length_slice hfits
    have hcount : Reader.u16 c =
        .ok (UInt16.ofNat (LittleEndian.decode (slice b c.offset 2))) (c.advance 2) :=
      map_ok_iff.mpr ⟨_, map_ok_iff.mpr ⟨_, hok, rfl⟩, rfl⟩
    have hrun := bytes_cases hc' (LittleEndian.decode (slice b c.offset 2))
    rw [← toNat_decode hbytes] at hrun ⊢
    rcases hrun with ⟨herror, hcut⟩ | ⟨hok, hfits', hc''⟩
    · exact .inr (.inl ⟨_, bind_error_iff.mpr (.inr ⟨_, _, hcount, herror⟩), hfits, hcut⟩)
    · exact .inr (.inr ⟨_, bind_ok_iff.mpr ⟨_, _, hcount, hok⟩, hfits', hc'', rfl⟩)

/-- Reading a text, by what reading the counted run of bytes comes to. -/
theorem text_eq (c : Cursor) : Reader.text c =
    match Reader.counted c with
    | .ok content c' =>
      match Utf8.decode content with
      | some text => .ok text c'
      | none => .error (.invalidUtf8 c.offset) c'
    | .error e c' => .error e c' := by
  have hbind : Reader.text c = (Reader.counted >>= fun content =>
      match Utf8.decode content with
      | some text => pure text
      | none => throw (.invalidUtf8 c.offset)) c :=
    rfl
  rw [hbind]
  simp only [bind, EStateM.bind]
  cases Reader.counted c with
  | ok content c' =>
    cases hdecode : Utf8.decode content with
    | some text => simp only [hdecode]; rfl
    | none => simp only [hdecode]; rfl
  | error e c' => rfl

theorem text_follows : Follows b id Reader.text (.nameLength :: rest) fun _ => rest := by
  intro c (hc : c.In b) (hdue : Due b ⟨c.offset, .nameLength :: rest⟩)
  generalize hlength : LittleEndian.decode (slice b c.offset 2) = length
  rw [text_eq]
  rcases counted_cases hc rfl hlength with ⟨c', hread, hcut⟩ | ⟨c', hread, hfits, hcut⟩ |
    ⟨c', hread, hfits, hc', hend⟩
  · rw [hread]
    exact ⟨_, _, hdue, hcut⟩
  · rw [hread]
    exact ⟨_, _, hdue.name hfits hlength, hcut⟩
  · have hname := hdue.name (Nat.le_of_add_right_le hfits) hlength
    rw [hread]
    cases hdecode : Utf8.decode (slice b (c.offset + 2) length) with
    | some text =>
      have hcalled : (Field.name length).calledFor? (slice b (c.offset + 2) length) = some [] := by
        rw [Field.calledFor?, hdecode]
        rfl
      simp only [hdecode, id, hend]
      exact ⟨hc', hname.decoded hfits hcalled⟩
    | none =>
      simp only [hdecode]
      refine ⟨length, rest, hdue, hlength, hfits, ?_⟩
      intro text htext
      rw [Utf8.decode_eq_some_iff.mpr htext] at hdecode
      cases hdecode

/-- What follows a tag of a kind: a number, or a name. -/
theorem payload_follows (index : UInt16) (start : Nat) {tag : UInt8} {kind : ConstantKind}
    (hkind : ConstantKind.ofTag? tag = some kind) {bytes : List UInt8}
    (htag : UInt8.ofNat (LittleEndian.decode bytes) = tag) :
    ∃ called, Field.tag.calledFor? bytes = some called ∧
      Follows b id (match ConstantKind.ofTag? tag with
        | none => throw (.unknownConstantKind tag start)
        | some .number => Constant.numeric index <$> Reader.binary64
        | some kind => Constant.named index kind <$> Reader.text : Reader Constant)
        (called ++ rest) (fun _ => rest) := by
  simp only [Field.calledFor?, htag, hkind]
  cases kind with
  | number => exact ⟨_, rfl, .map (f := Constant.numeric index) double_follows⟩
  | type | constructor | method | field | property | string =>
    exact ⟨_, rfl, .map (f := Constant.named index _) text_follows⟩

theorem constant_follows (index : UInt16) :
    Follows b id (readConstant index) (.tag :: rest) fun _ => rest := by
  intro c (hc : c.In b) (hdue : Due b ⟨c.offset, .tag :: rest⟩)
  have hbind : readConstant index c = (Reader.u8 >>= fun tag =>
      match ConstantKind.ofTag? tag with
      | none => throw (.unknownConstantKind tag c.offset)
      | some .number => Constant.numeric index <$> Reader.binary64
      | some kind => Constant.named index kind <$> Reader.text) c :=
    rfl
  rw [hbind]
  simp only [bind, EStateM.bind]
  rcases bytes_cases hc 1 with ⟨hread, hcut⟩ | ⟨hread, hfits, hc'⟩
  · have htag : Reader.u8 c = .error (.unexpectedEof c.offset) c :=
      map_error_iff.mpr (map_error_iff.mpr hread)
    rw [htag]
    exact ⟨_, _, hdue, hcut⟩
  · obtain ⟨tag, htag⟩ : ∃ tag, b[c.offset]? = some tag := ⟨_, List.getElem?_eq_getElem hfits⟩
    have hread' : Reader.u8 c = .ok tag (c.advance 1) :=
      map_ok_iff.mpr ⟨_, map_ok_iff.mpr ⟨_, hread, rfl⟩, (decode_slice_one htag).symm⟩
    rw [hread']
    cases hkind : ConstantKind.ofTag? tag with
    | none =>
      simp only [hkind]
      exact ⟨rest, hdue, htag, (ConstantKind.ofTag?_eq_none_iff tag).mp hkind⟩
    | some kind =>
      obtain ⟨called, hcalled, hfollows⟩ :=
        payload_follows index c.offset hkind (decode_slice_one htag)
      exact hfollows (c.advance 1) hc' (hdue.decoded hfits hcalled)

/-! ## 3. Loading -/

section Lists

variable {α : Type} {element : UInt16 → Reader α} {item : Item}

theorem elements_follows
    (h : ∀ rest index, Follows b id (element index) (item.fields ++ rest) fun _ => rest)
    (count : Nat) (index : UInt16) : Follows b id (Reader.elements element count index)
      ((List.replicate count item.fields).flatten ++ rest) (fun _ => rest) := by
  induction count generalizing index with
  | zero => exact .pure []
  | succ count ih =>
    rw [List.replicate_succ, List.flatten_cons, List.append_assoc]
    exact (h _ index).bind fun head => (ih (index + 1)).bind fun tail => .pure (head :: tail)

theorem list_follows
    (h : ∀ rest index, Follows b id (element index) (item.fields ++ rest) fun _ => rest) :
    Follows b id (Reader.list element) (.count item :: rest) fun _ => rest :=
  (count_follows item).bind fun count => elements_follows h count.toNat 0

end Lists

theorem method_follows : Follows b id readMethod (Item.method.fields ++ rest) fun _ => rest :=
  number_follows.bind fun _ => number_follows.bind fun _ => .pure _

theorem type_follows : Follows b id readType (Item.type.fields ++ rest) fun _ => rest :=
  number_follows.bind fun _ => (list_follows fun _ _ => method_follows).bind fun _ => .pure _

theorem body_follows : Follows b id readBody (Item.body.fields ++ rest) fun _ => rest :=
  number_follows.bind fun _ => number_follows.bind fun _ => code_follows.bind fun _ => .pure _

/-- Reading at the cursor of a loader. -/
theorem read_follows {α : Type} {reader : Reader α} {due : List Field} {left : α → List Field}
    (h : Follows b id reader due left) :
    Follows b Progress.cursor (Loader.read reader) due left := by
  intro s hs hdue
  have hread := h s.cursor hs hdue
  simp only [Loader.read]
  cases hresult : reader s.cursor with
  | ok a c =>
    rw [hresult] at hread
    exact hread
  | error e c =>
    rw [hresult] at hread
    exact hread

theorem log_follows (event : Event) :
    Follows b Progress.cursor (Loader.log event) rest fun _ => rest :=
  fun _ hs hdue => ⟨hs, hdue⟩

theorem part_follows {α : Type} (part : ImagePart) {element : UInt16 → Reader α} {item : Item}
    (h : ∀ rest index, Follows b id (element index) (item.fields ++ rest) fun _ => rest) :
    Follows b Progress.cursor (Loader.part part element) (.count item :: rest) fun _ => rest :=
  (read_follows (list_follows h)).bind fun _ => (log_follows _).bind fun _ => .pure _

/-- What comes after the magic bytes decodes the fields that are due there, up to the last. -/
theorem program_follows : ∃ parts, Loader.program = (Loader.read readMagic >>= fun _ => parts) ∧
    ∀ b, Follows b Progress.cursor parts Place.first.due fun _ => [] := by
  refine ⟨_, rfl, fun b => ?_⟩
  refine (read_follows version_follows).bind fun _ => (read_follows version_follows).bind fun _ =>
    (part_follows .imports fun _ _ => text_follows).bind fun _ =>
    (part_follows .constants fun _ => constant_follows).bind fun _ =>
    (part_follows .types fun _ _ => type_follows).bind fun _ =>
    (part_follows .bodies fun _ _ => body_follows).bind fun _ => .get fun s => ?_
  dsimp only
  split
  · exact .pure _
  · exact (log_follows _).bind fun _ => .pure _

/-- The magic bytes are looked for in the first three bytes, or in as many as there are. -/
theorem readMagic_start (b : List UInt8) :
    ∃ c, c.In b ∧ c.offset = min b.length 3 ∧ readMagic (Cursor.start b) =
      if b.take 3 = magic then .ok () c else .error (.badMagic (b.take 3)) c := by
  have hstart : (Cursor.start b).In b := ⟨Nat.zero_le _, rfl⟩
  have htake : slice b 0 (min b.length 3) = b.take 3 := by
    rw [slice, List.drop_zero, Nat.min_comm, ← List.take_eq_take_min]
  have hbind : readMagic (Cursor.start b) = (Reader.bytes (min b.length 3) >>= fun found =>
      unless found = magic do throw (.badMagic found)) (Cursor.start b) :=
    rfl
  rcases bytes_cases hstart (min b.length 3) with ⟨-, hcut⟩ | ⟨hread, -, hc⟩
  · exact absurd hcut (Nat.not_lt.mpr (Nat.min_le_left _ _))
  · rw [show (Cursor.start b).offset = 0 from rfl, htake] at hread
    refine ⟨_, hc, Nat.zero_add _, ?_⟩
    rw [hbind]
    by_cases hmagic : b.take 3 = magic
    · rw [if_pos hmagic]
      refine bind_ok_iff.mpr ⟨b.take 3, _, hread, ?_⟩
      rw [if_pos hmagic]
      rfl
    · rw [if_neg hmagic]
      refine bind_error_iff.mpr (.inr ⟨b.take 3, _, hread, ?_⟩)
      rw [if_neg hmagic]
      rfl

theorem load_error_iff {b : List UInt8} {e : LoadError} : (load b).result = .error e ↔
    ∃ s, Loader.program ⟨Cursor.start b, #[]⟩ = .error e s := by
  simp only [load]
  cases Loader.program ⟨Cursor.start b, #[]⟩ with
  | ok program s => simp
  | error e s => simp

/-- An image that does not start with the magic bytes is refused for what it starts with. -/
theorem load_of_badMagic {b : List UInt8} (h : b.take 3 ≠ magic) :
    (load b).result = .error (.badMagic (b.take 3)) := by
  obtain ⟨parts, hprogram, -⟩ := program_follows
  obtain ⟨c, -, -, hmagic⟩ := readMagic_start b
  rw [if_neg h] at hmagic
  refine load_error_iff.mpr ⟨⟨c, #[]⟩, ?_⟩
  rw [hprogram]
  refine bind_error_iff.mpr (.inl ?_)
  simp only [Loader.read, hmagic]

/-- In an image that starts with the magic bytes, loading decodes all fields or reports a defect. -/
theorem load_follows {b : List UInt8} (h : b.take 3 = magic) :
    match (load b).result with
    | .ok _ => ∃ offset, Due b ⟨offset, []⟩
    | .error e => Defect b e := by
  obtain ⟨parts, hprogram, hparts⟩ := program_follows
  obtain ⟨c, hc, hoffset, hmagic⟩ := readMagic_start b
  rw [if_pos h] at hmagic
  have hlength : min b.length 3 = magic.length := by
    rw [← h, List.length_take, Nat.min_comm]
  have hdue : Due b ⟨c.offset, Place.first.due⟩ := by
    rw [hoffset, hlength]
    exact .refl
  have hfollows := hparts b ⟨c, #[]⟩ hc hdue
  have hread : Loader.program ⟨Cursor.start b, #[]⟩ = parts ⟨c, #[]⟩ := by
    rw [hprogram]
    simp only [bind, EStateM.bind, Loader.read, hmagic]
  simp only [load, hread]
  cases hresult : parts ⟨c, #[]⟩ with
  | ok program s =>
    rw [hresult] at hfollows
    exact ⟨_, hfollows.2⟩
  | error e s =>
    rw [hresult] at hfollows
    exact hfollows

/-- An image that starts with the magic bytes is refused for a defect. -/
theorem defect_of_load {b : List UInt8} {e : LoadError} (h : b.take 3 = magic)
    (hload : (load b).result = .error e) : Defect b e := by
  have hfollows := load_follows h
  rw [hload] at hfollows
  exact hfollows

/-- **An image that does not load has one defect, and that is what is reported.**  Either it does
not start with the magic bytes, and the bytes that it starts with are reported.  Or there is exactly
one offset up to which all fields decode and where the field that is due is cut off, is a tag that
stands for no kind, or is the length of a name whose bytes are all there but encode no text, and
each is reported as such. -/
theorem load_first_defect {b : List UInt8} {e : LoadError} (h : (load b).result = .error e) :
    (∀ found, e = .badMagic found ↔ b.take 3 ≠ magic ∧ found = b.take 3) ∧
    (b.take 3 = magic →
      (∃! p, CutOffAt b p ∨ (∃ tag, UnknownTagAt b tag p) ∨ BadNameAt b p) ∧
      (∀ p, e = .unexpectedEof p ↔ CutOffAt b p) ∧
      (∀ tag p, e = .unknownConstantKind tag p ↔ UnknownTagAt b tag p) ∧
      ∀ p, e = .invalidUtf8 p ↔ BadNameAt b p) := by
  refine ⟨fun found => ?_, fun hmagic => ?_⟩
  · by_cases hmagic : b.take 3 = magic
    · have hdefect := defect_of_load hmagic h
      constructor
      · rintro rfl
        exact hdefect.elim
      · rintro ⟨hbad, -⟩
        exact absurd hmagic hbad
    · obtain rfl : .badMagic (b.take 3) = e :=
        Except.error.inj ((load_of_badMagic hmagic).symm.trans h)
      simp [hmagic, eq_comm]
  · have hdefect := defect_of_load hmagic h
    have hreported : ∀ e', e = e' ↔ Defect b e' := by
      intro e'
      exact ⟨fun he => he ▸ hdefect, hdefect.unique⟩
    refine ⟨?_, fun p => hreported (.unexpectedEof p),
      fun tag p => hreported (.unknownConstantKind tag p), fun p => hreported (.invalidUtf8 p)⟩
    simp only [defectAt_iff]
    obtain ⟨p, hp⟩ := hdefect.exists_offset?
    refine ⟨p, ⟨e, hdefect, hp⟩, ?_⟩
    rintro q ⟨e', hdefect', hq⟩
    rw [← hdefect.unique hdefect', hp] at hq
    exact (Option.some.inj hq).symm

/-- An image with one import, whose name is not UTF-8. -/
def mangledImport : List UInt8 :=
  magic ++ [1, 0] ++ [1, 0] ++ [2, 0, 0xC3, 0x28]

/-- Nothing is cut off in that image, and the name is reported where its length stands. -/
theorem mangledImport_defect :
    (load mangledImport).result = .error (.invalidUtf8 7) ∧ BadNameAt mangledImport 7 ∧
      ∀ p, ¬ CutOffAt mangledImport p := by
  have hload : (load mangledImport).result = .error (.invalidUtf8 7) := by
    decide +kernel
  obtain ⟨-, hcutOff, -, hbadName⟩ := (load_first_defect hload).2 rfl
  refine ⟨hload, (hbadName 7).mp rfl, ?_⟩
  intro p hp
  cases (hcutOff p).mpr hp

end Image

end BytecodeVm
