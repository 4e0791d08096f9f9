/- # Images that go on, and images that are cut off

The fields of an image are decoded from its start, and whether a field decodes is settled by its own
bytes.  So bytes that are added at the end change nothing about the fields that decode already: what
is found wrong with one of them stays wrong, and only a field that was cut off can turn out otherwise.
Read the other way round, an image from which bytes are taken is found to be cut off, and is never
taken for one with another defect or for a shorter one.

* `Image.Due.append`, `Image.Defect.append`: what is due, and what is wrong, in a longer image;
* `Image.load_error_iff_defect`: an image is refused exactly for its defect;
* `Image.load_append_of_cutOff`: what an image that was cut off can turn out to be;
* `Image.load_extension`: loading an image and its beginning, compared.
-/
import BytecodeVm.Proofs.Image.Canonical
import BytecodeVm.Proofs.Image.Defects

namespace BytecodeVm.Image

open Stateful

variable {b t : List UInt8}

/-! ## 1. Places in a longer image -/

/-- Bytes that are all there are the same in a longer image. -/
theorem slice_append {p length : Nat} (h : ¬ b.length - p < length) :
    slice (b ++ t) p length = slice b p length := by
  unfold slice
  by_cases hlength : length = 0
  · rw [hlength, List.take_zero, List.take_zero]
  · rw [List.drop_append_of_le_length (by omega),
      List.take_append_of_le_length (by rw [List.length_drop]; omega)]

/-- Decoding goes on past a field that is all there and decodes. -/
theorem Place.next?_eq_some_iff {x y : Place} : x.next? b = some y ↔
    ∃ field rest called, x.due = field :: rest ∧ ¬ b.length - x.offset < field.width ∧
      field.calledFor? (slice b x.offset field.width) = some called ∧
      y = ⟨x.offset + field.width, called ++ rest⟩ := by
  obtain ⟨p, due⟩ := x
  cases due with
  | nil => simp [Place.next?]
  | cons field rest =>
    constructor
    · intro h
      simp only [Place.next?] at h
      split at h
      · cases h
      · rename_i hfits
        obtain ⟨called, hcalled, rfl⟩ := Option.map_eq_some_iff.mp h
        exact ⟨field, rest, called, rfl, hfits, hcalled, rfl⟩
    · rintro ⟨_, _, called, hdue, hfits, hcalled, rfl⟩
      obtain ⟨rfl, rfl⟩ := List.cons.inj hdue
      rw [Place.next?, if_neg hfits, hcalled]
      rfl

/-- A field that decodes does so in a longer image too, and calls for the same fields. -/
theorem Place.next?_append {x y : Place} (h : x.next? b = some y) :
    x.next? (b ++ t) = some y := by
  obtain ⟨field, rest, called, hdue, hfits, hcalled, hy⟩ := next?_eq_some_iff.mp h
  refine next?_eq_some_iff.mpr ⟨field, rest, called, hdue, ?_, ?_, hy⟩
  · rw [List.length_append]
    omega
  · rw [slice_append hfits, hcalled]

/-- **Fields that are due in an image are due in every longer one.** -/
theorem Due.append {x : Place} (h : Due b x) : Due (b ++ t) x := by
  induction h with
  | refl => exact .refl
  | tail _ hstep ih => exact ih.tail (Place.next?_append hstep)

theorem Place.offset_le_of_next? {x y : Place} (h : x.next? b = some y) :
    x.offset ≤ y.offset ∧ (x.offset ≤ b.length → y.offset ≤ b.length) := by
  obtain ⟨field, rest, called, -, hfits, -, rfl⟩ := next?_eq_some_iff.mp h
  dsimp only
  omega

/-- Decoding does not go back. -/
theorem Place.offset_le_of_leads {x y : Place}
    (h : Relation.ReflTransGen (fun x y => x.next? b = some y) x y) : x.offset ≤ y.offset := by
  induction h with
  | refl => exact Nat.le_refl _
  | tail _ hstep ih => exact Nat.le_trans ih (offset_le_of_next? hstep).1

/-- Decoding does not leave the image. -/
theorem Due.offset_le {x : Place} (h : Due b x) (hmagic : magic.length ≤ b.length) :
    x.offset ≤ b.length := by
  induction h with
  | refl => exact hmagic
  | tail _ hstep ih => exact (Place.offset_le_of_next? hstep).2 ih

/-- What is reported where decoding comes to an end is reported there, or where the length before it
stands. -/
theorem Place.complaint_offset? (b : List UInt8) (x : Place) :
    ∃ o, (x.complaint b).offset? = some o ∧ x.offset ≤ o + 2 := by
  obtain ⟨p, due⟩ := x
  cases due with
  | nil => exact ⟨p, rfl, Nat.le_add_right _ _⟩
  | cons field rest =>
    simp only [Place.complaint]
    split
    · exact ⟨p, rfl, Nat.le_add_right _ _⟩
    · split
      · exact ⟨p, rfl, Nat.le_add_right _ _⟩
      · exact ⟨p - 2, rfl, by omega⟩

/-! ## 2. Defects in a longer image -/

/-- **What is wrong with a field that is all there** is wrong in every longer image. -/
theorem Defect.append {e : LoadError} (h : Defect b e) (hcut : ∀ o, e ≠ .unexpectedEof o) :
    Defect (b ++ t) e := by
  cases e with
  | unexpectedEof o => exact absurd rfl (hcut o)
  | unknownConstantKind tag p =>
    obtain ⟨rest, hdue, htag, hunknown⟩ := h
    have hlt : p < b.length := (List.getElem?_eq_some_iff.mp htag).1
    exact ⟨rest, hdue.append, (List.getElem?_append_left hlt).trans htag, hunknown⟩
  | invalidUtf8 p =>
    obtain ⟨length, rest, hdue, hlength, hfits, hbad⟩ := h
    refine ⟨length, rest, hdue.append, ?_, ?_, ?_⟩
    · rw [slice_append (by omega), hlength]
    · rw [List.length_append]
      omega
    · rw [slice_append (by omega)]
      exact hbad
  | badMagic found | streamFailed => exact h.elim

/-- **An image is refused exactly for its defect.** -/
theorem load_error_iff_defect {e : LoadError} (hmagic : b.take 3 = magic) :
    (load b).result = .error e ↔ Defect b e := by
  refine ⟨defect_of_load hmagic, fun h => ?_⟩
  have hfollows := load_follows hmagic
  cases hload : (load b).result with
  | ok program =>
    -- all fields were decoded, so none is left to be wrong
    rw [hload] at hfollows
    obtain ⟨offset, hend⟩ := hfollows
    obtain ⟨x, hx, hdue, hstuck, -⟩ := h.stuck
    obtain rfl := hx.eq_of_stuck hend hstuck rfl
    exact absurd rfl hdue
  | error e' =>
    rw [hload] at hfollows
    rw [h.unique hfollows]

/-- **What an image that was cut off can turn out to be.**  If it is refused still, then for
something that is due where it was cut off, or further on. -/
theorem load_append_of_cutOff {o : Nat} {e : LoadError} (hmagic : (b ++ t).take 3 = magic)
    (hcut : CutOffAt b o) (h : (load (b ++ t)).result = .error e) :
    ∃ o', e.offset? = some o' ∧ o ≤ o' + 2 := by
  obtain ⟨field, rest, hdue, -⟩ := hcut
  obtain ⟨x, hx, -, hstuck, rfl⟩ := (defect_of_load hmagic h).stuck
  have hle := Place.offset_le_of_leads (hdue.append.leads_to_end hx hstuck)
  obtain ⟨o', ho', hle'⟩ := x.complaint_offset? (b ++ t)
  exact ⟨o', ho', Nat.le_trans hle hle'⟩

/-! ## 3. Loading an image and its beginning -/

theorem length_of_magic (h : b.take 3 = magic) : 3 ≤ b.length := by
  have hlength : (b.take 3).length = 3 := congrArg List.length h
  rw [List.length_take] at hlength
  omega

theorem take_append_of_magic (h : b.take 3 = magic) : (b ++ t).take 3 = magic := by
  rw [List.take_append_of_le_length (length_of_magic h), h]

/-- The bytes that are reported for the magic bytes are the first three, or all that there are. -/
theorem found_of_load {found : List UInt8} (h : (load b).result = .error (.badMagic found)) :
    found = b.take 3 := by
  by_cases hmagic : b.take 3 = magic
  · exact (defect_of_load hmagic h).elim
  · have hsame := (load_of_badMagic hmagic).symm.trans h
    injection hsame with hsame
    injection hsame with hsame
    exact hsame.symm

/-- An image that is found to be cut off has the magic bytes. -/
theorem magic_of_load {o : Nat} (h : (load b).result = .error (.unexpectedEof o)) :
    b.take 3 = magic := by
  by_contra hmagic
  rw [load_of_badMagic hmagic] at h
  cases h

/-- The bytes that a program is loaded from start with its image. -/
theorem encode_prefix_of_load {p : Program} (h : (load b).result = .ok p) :
    p.Canonical ∧ encode p <+: b := by
  unfold load at h
  split at h
  · rename_i program s hprogram
    cases h
    obtain ⟨_, ⟨rfl, hp⟩, hstart, -⟩ := program_parses.sound hprogram
    exact ⟨hp, hstart⟩
  · cases h

theorem load_of_encode_prefix {p : Program} (hp : p.Canonical) (h : encode p <+: b) :
    (load b).result = .ok p := by
  obtain ⟨s, hprogram, -⟩ := program_parses.complete (s := ⟨Cursor.start b, #[]⟩) ⟨rfl, hp⟩ h
  unfold load
  simp only [hprogram]

/-- A program that is loaded is loaded from every longer image. -/
theorem load_append_of_ok {p : Program} (h : (load b).result = .ok p) :
    (load (b ++ t)).result = .ok p := by
  obtain ⟨hp, hstart⟩ := encode_prefix_of_load h
  exact load_of_encode_prefix hp (hstart.trans (List.prefix_append _ _))

/-- An error that is not about where the image ends is reported for every longer image. -/
theorem load_append_of_error {e : LoadError} (h : (load b).result = .error e)
    (hcut : ∀ o, e ≠ .unexpectedEof o) (hfound : ∀ found, e = .badMagic found → found.length = 3) :
    (load (b ++ t)).result = .error e := by
  by_cases hmagic : b.take 3 = magic
  · have hdefect := defect_of_load hmagic h
    exact (load_error_iff_defect (take_append_of_magic hmagic)).mpr (hdefect.append hcut)
  · obtain rfl : .badMagic (b.take 3) = e :=
      Except.error.inj ((load_of_badMagic hmagic).symm.trans h)
    have hlength := hfound _ rfl
    rw [List.length_take] at hlength
    have htake : (b ++ t).take 3 = b.take 3 := List.take_append_of_le_length (by omega)
    rw [load_of_badMagic (htake ▸ hmagic), htake]

/-- **An image that was cut off is refused for that**, or for its start if there is too little of
it. -/
theorem load_of_truncated {p : Program} (h : (load (b ++ t)).result = .ok p)
    (hlt : b.length < (encode p).length) :
    (b.length < 3 ∧ ∃ found, (load b).result = .error (.badMagic found)) ∨
      ∃ o, (load b).result = .error (.unexpectedEof o) := by
  cases hload : (load b).result with
  | ok q =>
    -- the shorter image would hold the same program, and it is too short for that
    obtain rfl : q = p := Except.ok.inj ((load_append_of_ok hload).symm.trans h)
    have hle := (encode_prefix_of_load hload).2.length_le
    omega
  | error e =>
    cases e with
    | unexpectedEof o => exact .inr ⟨o, rfl⟩
    | badMagic found =>
      refine .inl ⟨?_, found, rfl⟩
      by_contra hlong
      have hthree : found.length = 3 := by
        rw [found_of_load hload, List.length_take]
        omega
      have hsame : (load (b ++ t)).result = .error (.badMagic found) :=
        load_append_of_error hload (by simp) (by simp [hthree])
      rw [h] at hsame
      cases hsame
    | unknownConstantKind tag o | invalidUtf8 o | streamFailed =>
      have hsame := load_append_of_error (t := t) hload (by simp) (by simp)
      rw [h] at hsame
      cases hsame

/-- **Loading an image and its beginning.**  If an image loads, then it loads to the same program
whatever is added at its end.  If it is refused, then it is refused for the same reason in the same
place whatever is added, unless it is cut off or has fewer than three bytes to start with.  If it is
cut off at an offset, then it may load when something is added; if it is refused still, then not for
what it starts with, and for something that is reported at most two bytes before that offset.

And if bytes are taken from the image of a program, then what is left is refused for its start if not
even three bytes are left, and otherwise for being cut off at some offset within. -/
theorem load_extension (b t : List UInt8) :
    (∀ p, (load b).result = .ok p → (load (b ++ t)).result = .ok p) ∧
    (∀ e, (load b).result = .error e → (∀ o, e ≠ .unexpectedEof o) →
      (∀ found, e = .badMagic found → found.length = 3) → (load (b ++ t)).result = .error e) ∧
    (∀ o, (load b).result = .error (.unexpectedEof o) →
      (∃ p, (load (b ++ t)).result = .ok p) ∨
      ∃ e o', (load (b ++ t)).result = .error e ∧ (∀ found, e ≠ .badMagic found) ∧
        e.offset? = some o' ∧ o ≤ o' + 2) ∧
    (∀ p, (load (b ++ t)).result = .ok p → b.length < (encode p).length →
      if b.length < 3 then ∃ found, (load b).result = .error (.badMagic found)
      else ∃ o, (load b).result = .error (.unexpectedEof o) ∧ o ≤ b.length) := by
  refine ⟨fun p h => load_append_of_ok h, fun e h => load_append_of_error h, ?_, ?_⟩
  · intro o h
    have hmagic := magic_of_load h
    cases hload : (load (b ++ t)).result with
    | ok p => exact .inl ⟨p, rfl⟩
    | error e =>
      obtain ⟨o', ho', hle⟩ :=
        load_append_of_cutOff (take_append_of_magic hmagic) (defect_of_load hmagic h) hload
      refine .inr ⟨e, o', rfl, ?_, ho', hle⟩
      rintro found rfl
      cases ho'
  · intro p h hlt
    rcases load_of_truncated h hlt with ⟨hshort, hbad⟩ | ⟨o, hcut⟩
    · rw [if_pos hshort]
      exact hbad
    · have hmagic := magic_of_load hcut
      have hlong := length_of_magic hmagic
      obtain ⟨field, rest, hdue, -⟩ := defect_of_load hmagic hcut
      rw [if_neg (Nat.not_lt.mpr hlong)]
      exact ⟨o, hcut, hdue.offset_le hlong⟩

/-- The image of a program with one import, whose name is a letter of two bytes. -/
def accented : Program :=
  { major := 1, minor := 0, imports := ["é"], constants := #[], types := [], bodies := [] }

/-- Between the two bytes of that letter the image is cut off, and is not taken for one whose name is
no text. -/
theorem accented_truncated :
    (load ((encode accented).take 10 ++ (encode accented).drop 10)).result = .ok accented ∧
      ∃ o, (load ((encode accented).take 10)).result = .error (.unexpectedEof o) ∧ o ≤ 10 := by
  have hload : (load ((encode accented).take 10 ++ (encode accented).drop 10)).result =
      .ok accented := by
    decide +kernel
  have hlt : ((encode accented).take 10).length < (encode accented).length := by
    decide +kernel
  have hcut := (load_extension _ _).2.2.2 accented hload hlt
  rw [if_neg (by decide +kernel)] at hcut
  obtain ⟨o, hcut, hle⟩ := hcut
  exact ⟨hload, o, hcut, Nat.le_trans hle (List.length_take_le _ _)⟩

end BytecodeVm.Image
