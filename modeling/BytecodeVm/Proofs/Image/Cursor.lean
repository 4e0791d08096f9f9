/- # How reading moves a cursor

Whatever is read from an image comes down to primitive reads, one after another: each of them takes
a run of bytes or, where too few are left, none.  A *plan* lays open which of them a reader makes,
so that one can say what was read before a reader failed, and by which of them it did.

* `Image.Plan`: a reader by the primitive reads that it makes;
* `Image.Chain`, `Image.Plan.chain`: these reads follow one another, and leave no byte out;
* `Image.Primitive`: the operations on a cursor that are one read;
* `Image.Operation`, `Image.Operation.run_plan`: all operations on a cursor, and their plans;
* `Image.Failure`, `Image.Operation.failure`: where a cursor is left by an operation that fails;
* `Image.reads_disciplined`: a cursor after any number of operations.
-/
import BytecodeVm.Proofs.Image.Defects

namespace BytecodeVm

open Stateful

/-- Where a reader leaves the cursor, whether or not it fails. -/
def Reader.left {α : Type} (reader : Reader α) (c : Cursor) : Cursor :=
  match reader c with
  | .ok _ c' => c'
  | .error _ c' => c'

/-- What was consumed and what is left are all the bytes. -/
theorem Cursor.In.offset_add_remaining {c : Cursor} {b : List UInt8} (hc : c.In b) :
    c.offset + c.remaining = b.length := by
  rw [Cursor.remaining, hc.rest, List.length_drop]
  exact Nat.add_sub_cancel' hc.offset_le

namespace Image

/-! ## 1. Plans -/

/-- A reader by what it does next.  It moves the cursor by primitive reads and in no other way. -/
inductive Plan (α : Type) where
  /-- Nothing more is read. -/
  | done (a : α)
  /-- What was read is refused. -/
  | refuse (e : LoadError)
  /-- The cursor is looked at, and stays where it is. -/
  | look (next : Cursor → Plan α)
  /-- So many bytes are read. -/
  | take (n : Nat) (next : List UInt8 → Plan α)

/-- A primitive read: where it starts, how many bytes it asks for, and these bytes, unless there are
too few. -/
structure PrimitiveRead where
  start : Nat
  length : Nat
  found : Option (List UInt8)
  deriving DecidableEq, Repr

namespace Plan

variable {α β : Type}

/-- One plan after another. -/
def bind : Plan α → (α → Plan β) → Plan β
  | done a, k => k a
  | refuse e, _ => refuse e
  | look next, k => look fun c => (next c).bind k
  | take n next, k => take n fun bytes => (next bytes).bind k

instance : Monad Plan where
  pure := done
  bind := bind

/-- The reader that carries a plan out. -/
def run : Plan α → Reader α
  | done a => pure a
  | refuse e => throw e
  | look next => do (next (← get)).run
  | take n next => do (next (← Reader.bytes n)).run

/-- The primitive reads that a plan makes from a cursor on.  One that finds too few bytes is the
last. -/
def reads : Plan α → Cursor → List PrimitiveRead
  | done _, _ => []
  | refuse _, _ => []
  | look next, c => (next c).reads c
  | take n next, c =>
    match Reader.bytes n c with
    | .ok bytes c' => ⟨c.offset, n, some bytes⟩ :: (next bytes).reads c'
    | .error _ _ => [⟨c.offset, n, none⟩]

theorem run_bind (p : Plan α) (k : α → Plan β) :
    (p >>= k).run = p.run >>= fun a => (k a).run := by
  induction p with
  | done a => rfl
  | refuse e => rfl
  | look next ih =>
    have hlook : (look next >>= k).run = get >>= fun c => (next c >>= k).run := rfl
    rw [hlook, run, bind_assoc]
    exact bind_congr fun c => ih c
  | take n next ih =>
    have htake : (take n next >>= k).run = Reader.bytes n >>= fun bytes => (next bytes >>= k).run :=
      rfl
    rw [htake, run, bind_assoc]
    exact bind_congr fun bytes => ih bytes

/-- A plan that is carried out is followed by the reads of the next one. -/
theorem reads_bind_of_ok {p : Plan α} {k : α → Plan β} {c c' : Cursor} {a : α}
    (h : p.run c = .ok a c') : (p >>= k).reads c = p.reads c ++ (k a).reads c' := by
  induction p generalizing c with
  | done a' =>
    cases h
    rfl
  | refuse e => cases h
  | look next ih => exact ih c h
  | take n next ih =>
    obtain ⟨bytes, c₁, hbytes, hnext⟩ := bind_ok_iff.mp h
    have hreads : (take n next >>= k).reads c =
        ⟨c.offset, n, some bytes⟩ :: (next bytes >>= k).reads c₁ := by
      change (take n fun bytes => next bytes >>= k).reads c = _
      rw [reads, hbytes]
    rw [hreads, ih bytes hnext, reads, hbytes, List.cons_append]

/-- A plan that fails makes all the reads that there are. -/
theorem reads_bind_of_error {p : Plan α} {k : α → Plan β} {c c' : Cursor} {e : LoadError}
    (h : p.run c = .error e c') : (p >>= k).reads c = p.reads c := by
  induction p generalizing c with
  | done a => cases h
  | refuse e => rfl
  | look next ih => exact ih c h
  | take n next ih =>
    change (take n fun bytes => next bytes >>= k).reads c = _
    rcases bind_error_iff.mp h with hbytes | ⟨bytes, c₁, hbytes, hnext⟩
    · rw [reads, reads, hbytes]
    · rw [reads, reads, hbytes]
      exact congrArg _ (ih bytes hnext)

/-- A plan that is carried out has found all the bytes that it asked for. -/
theorem found_of_ok {p : Plan α} {c c' : Cursor} {a : α} (h : p.run c = .ok a c') :
    ∀ r ∈ p.reads c, r.found.isSome := by
  induction p generalizing c with
  | done a' => exact fun r hr => absurd hr List.not_mem_nil
  | refuse e => cases h
  | look next ih => exact ih c h
  | take n next ih =>
    obtain ⟨bytes, c₁, hbytes, hnext⟩ := bind_ok_iff.mp h
    rw [reads, hbytes]
    exact List.forall_mem_cons.mpr ⟨rfl, ih bytes hnext⟩

end Plan

/-! ## 2. Reads that follow one another -/

/-- The reads take the bytes between two offsets one after another: each starts where the last one
that found its bytes ended, and one that asks for more than there is finds nothing. -/
inductive Chain (b : List UInt8) : Nat → List PrimitiveRead → Nat → Prop where
  | nil (offset : Nat) : Chain b offset [] offset
  | found {offset n last : Nat} {reads : List PrimitiveRead} (h : offset + n ≤ b.length)
      (hreads : Chain b (offset + n) reads last) :
      Chain b offset (⟨offset, n, some (slice b offset n)⟩ :: reads) last
  | cutOff {offset n last : Nat} {reads : List PrimitiveRead} (h : b.length < offset + n)
      (hreads : Chain b offset reads last) : Chain b offset (⟨offset, n, none⟩ :: reads) last

namespace Chain

variable {b : List UInt8} {first middle last : Nat} {reads reads' : List PrimitiveRead}

theorem append (h : Chain b first reads middle) (h' : Chain b middle reads' last) :
    Chain b first (reads ++ reads') last := by
  induction h with
  | nil offset => exact h'
  | found hfits _ ih => exact .found hfits (ih h')
  | cutOff hcut _ ih => exact .cutOff hcut (ih h')

theorem le (h : Chain b first reads last) : first ≤ last := by
  induction h with
  | nil offset => exact Nat.le_refl offset
  | found _ _ ih => exact Nat.le_of_add_right_le ih
  | cutOff _ _ ih => exact ih

/-- What the reads found is what lies between the two offsets: nothing is left out, or read
twice. -/
theorem flatten_found (h : Chain b first reads last) :
    (reads.filterMap PrimitiveRead.found).flatten = slice b first (last - first) := by
  induction h with
  | nil offset => rw [Nat.sub_self, slice, List.take_zero]; rfl
  | @found offset n last reads hfits hreads ih =>
    have hsplit : last - offset = n + (last - (offset + n)) := by
      have := hreads.le
      omega
    change (slice b offset n :: reads.filterMap PrimitiveRead.found).flatten = _
    rw [List.flatten_cons, ih, hsplit, slice, slice, slice, List.take_add, List.drop_drop]
  | cutOff _ _ ih => exact ih

end Chain

end Image

namespace Reader

variable {α β : Type} {reader : Reader α} {k : α → Reader β} {c c' : Cursor}

theorem left_of_ok {a : α} (h : reader c = .ok a c') : reader.left c = c' := by
  rw [left, h]

theorem left_of_error {e : LoadError} (h : reader c = .error e c') : reader.left c = c' := by
  rw [left, h]

theorem left_bind_of_ok {a : α} (h : reader c = .ok a c') :
    (reader >>= k).left c = (k a).left c' := by
  simp only [left, bind, EStateM.bind, h]

theorem left_bind_of_error {e : LoadError} (h : reader c = .error e c') :
    (reader >>= k).left c = c' :=
  left_of_error (bind_error_iff.mpr (.inl h))

end Reader

namespace Image

variable {α β : Type} {b : List UInt8} {c c' : Cursor}

/-- **The reads of a plan follow one another**, up to where the plan leaves the cursor. -/
theorem Plan.chain (p : Plan α) (hc : c.In b) :
    (p.run.left c).In b ∧ Chain b c.offset (p.reads c) (p.run.left c).offset := by
  induction p generalizing c with
  | done a => exact ⟨hc, .nil _⟩
  | refuse e => exact ⟨hc, .nil _⟩
  | look next ih => exact ih c hc
  | take n next ih =>
    rcases bytes_cases hc n with ⟨hread, hcut⟩ | ⟨hread, hfits, hc'⟩
    · have hleft : (take n next).run.left c = c := Reader.left_bind_of_error hread
      rw [hleft, reads, hread]
      exact ⟨hc, .cutOff (by omega) (.nil _)⟩
    · have hleft : (take n next).run.left c = (next _).run.left (c.advance n) :=
        Reader.left_bind_of_ok hread
      obtain ⟨hin, hchain⟩ := ih (slice b c.offset n) hc'
      rw [hleft, reads, hread]
      exact ⟨hin, .found hfits hchain⟩

/-! ## 3. Primitive operations -/

/-- The operations that are one read. -/
inductive Primitive : Type → Type where
  /-- A run or an array of so many bytes. -/
  | bytes (n : Nat) : Primitive (List UInt8)
  /-- An array of so many bytes, as a number. -/
  | number (width : Nat) : Primitive Nat
  | u8 : Primitive UInt8
  | u16 : Primitive UInt16
  | binary64 : Primitive Binary64

namespace Primitive

/-- How many bytes it asks for. -/
def width {α : Type} : Primitive α → Nat
  | bytes n => n
  | number width => width
  | u8 => 1
  | u16 => 2
  | binary64 => 8

/-- The reader that does it. -/
def reader {α : Type} : Primitive α → Reader α
  | bytes n => Reader.bytes n
  | number width => Reader.littleEndian width
  | u8 => Reader.u8
  | u16 => Reader.u16
  | binary64 => Reader.binary64

/-- What it makes of the bytes that it finds. -/
def decode {α : Type} : Primitive α → List UInt8 → α
  | bytes _, found => found
  | number _, found => LittleEndian.decode found
  | u8, found => UInt8.ofNat (LittleEndian.decode found)
  | u16, found => UInt16.ofNat (LittleEndian.decode found)
  | binary64, found => ⟨UInt64.ofNat (LittleEndian.decode found)⟩

/-- The bytes that a value stands for. -/
def layout {α : Type} : Primitive α → α → List UInt8
  | bytes _, found => found
  | number width, n => LittleEndian.encode width n
  | u8, n => [n]
  | u16, n => encodeU16 n.toNat
  | binary64, x => LittleEndian.encode 8 x.bits.toNat

theorem reader_eq (p : Primitive α) : p.reader = p.decode <$> Reader.bytes p.width := by
  cases p with
  | bytes n => exact (id_map (Reader.bytes n)).symm
  | number width => rfl
  | u8 => exact (comp_map LittleEndian.decode UInt8.ofNat (Reader.bytes 1)).symm
  | u16 => exact (comp_map LittleEndian.decode UInt16.ofNat (Reader.bytes 2)).symm
  | binary64 => exact (comp_map LittleEndian.decode _ (Reader.bytes 8)).symm

/-- What it returns stands for the bytes that it found. -/
theorem layout_decode (p : Primitive α) {found : List UInt8} (h : found.length = p.width) :
    p.layout (p.decode found) = found := by
  have hencode : LittleEndian.encode p.width (LittleEndian.decode found) = found := by
    rw [← h]
    exact LittleEndian.encode_decode found
  have hlt := LittleEndian.decode_lt found
  rw [h] at hlt
  cases p with
  | bytes n => rfl
  | number width => exact hencode
  | u8 =>
    obtain ⟨byte, rfl⟩ := List.length_eq_one_iff.mp h
    exact congrArg (fun n => [n]) UInt8.ofNat_toNat
  | u16 => rw [layout, decode, encodeU16, toNat_decode h]; exact hencode
  | binary64 => rw [layout, decode, UInt64.toNat_ofNat_of_lt' hlt]; exact hencode

end Primitive

/-! ## 4. Operations -/

namespace Plan

/-- One read. -/
def primitive (p : Primitive α) : Plan α :=
  take p.width fun found => done (p.decode found)

/-- A count and that many bytes. -/
def counted : Plan (List UInt8) := do
  let count ← primitive .u16
  primitive (.bytes count.toNat)

/-- A counted run of bytes, which is refused where its count stands unless it is UTF-8. -/
def text : Plan String :=
  look fun start => do
    let content ← counted
    match Utf8.decode content with
    | some s => pure s
    | none => refuse (.invalidUtf8 start.offset)

/-- The elements from the given position on, so many of them. -/
def elements (element : UInt16 → Plan α) : Nat → UInt16 → Plan (List α)
  | 0, _ => pure []
  | count + 1, index => do
    let head ← element index
    let tail ← elements element count (index + 1)
    pure (head :: tail)

/-- A count and that many elements. -/
def list (element : UInt16 → Plan α) : Plan (List α) := do
  let count ← primitive .u16
  elements element count.toNat 0

/-- The magic bytes, or as many bytes as there are. -/
def opening : Plan Unit :=
  look fun start => do
    let found ← primitive (.bytes (min start.remaining magic.length))
    if found = magic then pure () else refuse (.badMagic found)

theorem run_primitive (p : Primitive α) : (primitive p).run = p.reader := by
  rw [Primitive.reader_eq, map_eq_pure_bind]
  rfl

/-- One read finds all its bytes and moves past them, or it finds too few and leaves the cursor
where it is. -/
theorem primitive_cases (p : Primitive α) (hc : c.In b) :
    (primitive p).run c = .error (.unexpectedEof c.offset) c ∧ b.length < c.offset + p.width ∧
      (primitive p).reads c = [⟨c.offset, p.width, none⟩] ∨
    (primitive p).run c = .ok (p.decode (slice b c.offset p.width)) (c.advance p.width) ∧
      c.offset + p.width ≤ b.length ∧ (c.advance p.width).In b ∧
      (primitive p).reads c = [⟨c.offset, p.width, some (slice b c.offset p.width)⟩] := by
  rw [run_primitive, Primitive.reader_eq, primitive, reads]
  rcases bytes_cases hc p.width with ⟨hread, hcut⟩ | ⟨hread, hfits, hc'⟩
  · rw [hread]
    exact .inl ⟨map_error_iff.mpr hread, by omega, rfl⟩
  · rw [hread]
    exact .inr ⟨map_ok_iff.mpr ⟨_, hread, rfl⟩, hfits, hc', rfl⟩

theorem run_counted : counted.run = Reader.counted := by
  rw [counted, run_bind, run_primitive]
  exact bind_congr fun count => run_primitive (.bytes count.toNat)

theorem run_text : text.run = Reader.text := by
  have hlook : text.run = get >>= fun start => (counted >>= fun content =>
      match Utf8.decode content with
      | some s => pure s
      | none => refuse (.invalidUtf8 start.offset)).run :=
    rfl
  have hget : Reader.text = get >>= fun start => Reader.counted >>= fun content =>
      match Utf8.decode content with
      | some s => pure s
      | none => throw (.invalidUtf8 start.offset) :=
    rfl
  rw [hlook, hget]
  refine bind_congr fun start => ?_
  rw [run_bind, run_counted]
  refine bind_congr fun content => ?_
  cases Utf8.decode content with
  | some s => rfl
  | none => rfl

theorem run_elements {element : UInt16 → Plan α} {reader : UInt16 → Reader α}
    (h : ∀ index, (element index).run = reader index) (count : Nat) (index : UInt16) :
    (elements element count index).run = Reader.elements reader count index := by
  induction count generalizing index with
  | zero => rfl
  | succ count ih =>
    rw [elements, Reader.elements, run_bind, h]
    refine bind_congr fun head => ?_
    rw [run_bind, ih]
    rfl

theorem run_list {element : UInt16 → Plan α} {reader : UInt16 → Reader α}
    (h : ∀ index, (element index).run = reader index) :
    (list element).run = Reader.list reader := by
  rw [list, run_bind, run_primitive]
  exact bind_congr fun count => run_elements h count.toNat 0

theorem run_opening : opening.run = readMagic := by
  have hlook : opening.run = get >>= fun start =>
      (primitive (.bytes (min start.remaining magic.length)) >>= fun found =>
        if found = magic then pure () else refuse (.badMagic found)).run :=
    rfl
  have hget : readMagic = get >>= fun start =>
      Reader.bytes (min start.remaining magic.length) >>= fun found =>
        if found = magic then pure () else throw (.badMagic found) :=
    rfl
  rw [hlook, hget]
  refine bind_congr fun start => ?_
  rw [run_bind, run_primitive]
  refine bind_congr fun found => ?_
  split
  · rfl
  · rfl

end Plan

theorem Primitive.reader_of_fits (p : Primitive α) (hc : c.In b)
    (hfits : c.offset + p.width ≤ b.length) :
    ∃ a, p.reader c = .ok a (c.advance p.width) ∧ p.layout a = slice b c.offset p.width := by
  rw [← Plan.run_primitive]
  rcases Plan.primitive_cases p hc with ⟨-, hcut, -⟩ | ⟨hrun, -, -, -⟩
  · omega
  · exact ⟨_, hrun, p.layout_decode (length_slice hfits)⟩

theorem Primitive.reader_of_cutOff (p : Primitive α) (hc : c.In b)
    (hcut : b.length < c.offset + p.width) : p.reader c = .error (.unexpectedEof c.offset) c := by
  rw [← Plan.run_primitive]
  rcases Plan.primitive_cases p hc with ⟨hrun, -, -⟩ | ⟨-, hfits, -, -⟩
  · exact hrun
  · omega

/-- The operations on a cursor.  The elements of a list may be any of them, and differ by their
positions. -/
inductive Operation : Type → Type 1 where
  | primitive {α : Type} (p : Primitive α) : Operation α
  | counted : Operation (List UInt8)
  | text : Operation String
  | list {α : Type} (element : UInt16 → Operation α) : Operation (List α)
  | opening : Operation Unit

namespace Operation

/-- The reader that does it. -/
def reader {α : Type} : Operation α → Reader α
  | primitive p => p.reader
  | counted => Reader.counted
  | text => Reader.text
  | list element => Reader.list fun index => (element index).reader
  | opening => readMagic

/-- Its primitive reads. -/
def plan {α : Type} : Operation α → Plan α
  | primitive p => .primitive p
  | counted => .counted
  | text => .text
  | list element => .list fun index => (element index).plan
  | opening => .opening

/-- **An operation does what its plan says**, and nothing else. -/
theorem run_plan (op : Operation α) : op.plan.run = op.reader := by
  induction op with
  | primitive p => exact Plan.run_primitive p
  | counted => exact Plan.run_counted
  | text => exact Plan.run_text
  | list element ih => exact Plan.run_list ih
  | opening => exact Plan.run_opening

end Operation

/-! ## 5. Failures -/

/-- What was read, where the cursor is left, and what is reported by an operation that fails.  All
reads up to the one that is to blame found their bytes. -/
inductive Failure (b : List UInt8) : List PrimitiveRead → Nat → LoadError → Prop where
  /-- A read asks for more bytes than there are.  The cursor is left where it starts. -/
  | cutOff {before : List PrimitiveRead} {start n : Nat} (hbefore : ∀ r ∈ before, r.found.isSome)
      (hcut : b.length < start + n) :
      Failure b (before ++ [⟨start, n, none⟩]) start (.unexpectedEof start)
  /-- The bytes of a text are no UTF-8.  The cursor is left past them, and the text is reported
  where its count stands. -/
  | notText {before : List PrimitiveRead} {start length : Nat}
      (hbefore : ∀ r ∈ before, r.found.isSome)
      (hlength : LittleEndian.decode (slice b start 2) = length)
      (hfits : start + 2 + length ≤ b.length)
      (hbad : ∀ text, slice b (start + 2) length ≠ Utf8.encode text) :
      Failure b (before ++ [⟨start, 2, some (slice b start 2)⟩,
        ⟨start + 2, length, some (slice b (start + 2) length)⟩]) (start + 2 + length)
        (.invalidUtf8 start)
  /-- The next three bytes, or as many as there are, are not the magic bytes.  The cursor is left
  past them. -/
  | notMagic {before : List PrimitiveRead} {start : Nat} {found : List UInt8}
      (hbefore : ∀ r ∈ before, r.found.isSome) (hfound : found = slice b start magic.length)
      (hbad : found ≠ magic) :
      Failure b (before ++ [⟨start, found.length, some found⟩]) (start + found.length)
        (.badMagic found)

/-- A failure is of the same kind if other reads came before, all of which found their bytes. -/
theorem Failure.prepend {earlier reads : List PrimitiveRead} {offset : Nat} {e : LoadError}
    (h : Failure b reads offset e) (hearlier : ∀ r ∈ earlier, r.found.isSome) :
    Failure b (earlier ++ reads) offset e := by
  cases h with
  | cutOff hbefore hcut =>
    rw [← List.append_assoc]
    exact .cutOff (List.forall_mem_append.mpr ⟨hearlier, hbefore⟩) hcut
  | notText hbefore hlength hfits hbad =>
    rw [← List.append_assoc]
    exact .notText (List.forall_mem_append.mpr ⟨hearlier, hbefore⟩) hlength hfits hbad
  | notMagic hbefore hfound hbad =>
    rw [← List.append_assoc]
    exact .notMagic (List.forall_mem_append.mpr ⟨hearlier, hbefore⟩) hfound hbad

/-- Each failure of the plan is one of those above. -/
def Plan.Accounted (b : List UInt8) (p : Plan α) : Prop :=
  ∀ ⦃c c' : Cursor⦄ ⦃e : LoadError⦄, c.In b → p.run c = .error e c' →
    Failure b (p.reads c) c'.offset e

namespace Plan

theorem pure_accounted (a : α) : (pure a : Plan α).Accounted b :=
  fun _ _ _ _ h => by cases h

/-- **One plan after another** fails as the first, or as the second after all reads of the first. -/
theorem Accounted.bind {p : Plan α} {k : α → Plan β} (hp : p.Accounted b)
    (hk : ∀ a, (k a).Accounted b) : (p >>= k).Accounted b := by
  intro c c' e hc h
  rw [run_bind] at h
  rcases bind_error_iff.mp h with hfirst | ⟨a, c₁, hfirst, hsecond⟩
  · rw [reads_bind_of_error hfirst]
    exact hp hc hfirst
  · have hc₁ : c₁.In b := Reader.left_of_ok hfirst ▸ (p.chain hc).1
    rw [reads_bind_of_ok hfirst]
    exact (hk a hc₁ hsecond).prepend (found_of_ok hfirst)

theorem primitive_accounted (p : Primitive α) : (primitive p).Accounted b := by
  intro c c' e hc h
  rcases primitive_cases p hc with ⟨hrun, hcut, hreads⟩ | ⟨hrun, -, -, -⟩
  · rw [hrun] at h
    cases h
    rw [hreads]
    exact Failure.cutOff (List.forall_mem_nil _) hcut
  · rw [hrun] at h
    cases h

theorem counted_accounted : counted.Accounted b :=
  (primitive_accounted .u16).bind fun _ => primitive_accounted _

/-- What is read for a counted run of bytes that is all there. -/
theorem reads_counted {content : List UInt8} (hc : c.In b) (h : counted.run c = .ok content c') :
    ∃ length, LittleEndian.decode (slice b c.offset 2) = length ∧
      c.offset + 2 + length ≤ b.length ∧ content = slice b (c.offset + 2) length ∧
      c'.offset = c.offset + 2 + length ∧
      counted.reads c = [⟨c.offset, 2, some (slice b c.offset 2)⟩,
        ⟨c.offset + 2, length, some (slice b (c.offset + 2) length)⟩] := by
  rw [counted, run_bind] at h
  obtain ⟨count, c₁, hcount, hcontent⟩ := bind_ok_iff.mp h
  have hreads := reads_bind_of_ok (k := fun count => primitive (.bytes count.toNat)) hcount
  rcases primitive_cases .u16 hc with ⟨hrun, -, -⟩ | ⟨hrun, hfits, hc₁, hfirst⟩
  · rw [hrun] at hcount
    cases hcount
  · rw [hrun] at hcount
    cases hcount
    rcases primitive_cases (.bytes _) hc₁ with ⟨hrun', -, -⟩ | ⟨hrun', hfits', -, hsecond⟩
    · rw [hrun'] at hcontent
      cases hcontent
    · rw [hrun'] at hcontent
      cases hcontent
      have hlength := toNat_decode (length_slice hfits)
      refine ⟨_, hlength.symm, hfits', rfl, rfl, ?_⟩
      rw [counted, hreads, hfirst, hsecond]
      rfl

theorem text_accounted : text.Accounted b := by
  intro c c' e hc h
  have hreads : text.reads c = (counted >>= fun content => match Utf8.decode content with
      | some s => pure s
      | none => refuse (.invalidUtf8 c.offset)).reads c :=
    rfl
  have hrun : (counted >>= fun content => match Utf8.decode content with
      | some s => pure s
      | none => refuse (.invalidUtf8 c.offset)).run c = .error e c' :=
    h
  rw [run_bind] at hrun
  rw [hreads]
  rcases bind_error_iff.mp hrun with hcounted | ⟨content, c₁, hcounted, hcheck⟩
  · rw [reads_bind_of_error hcounted]
    exact counted_accounted hc hcounted
  · obtain ⟨length, hlength, hfits, rfl, hoffset, hcontent⟩ := reads_counted hc hcounted
    rw [reads_bind_of_ok hcounted, hcontent]
    cases hdecode : Utf8.decode (slice b (c.offset + 2) length) with
    | some s =>
      rw [hdecode] at hcheck
      cases hcheck
    | none =>
      simp only [hdecode] at hcheck
      cases hcheck
      have hbad : ∀ text, slice b (c.offset + 2) length ≠ Utf8.encode text := by
        intro text htext
        rw [Utf8.decode_eq_some_iff.mpr htext] at hdecode
        cases hdecode
      rw [hoffset]
      exact Failure.notText (List.forall_mem_nil _) hlength hfits hbad

theorem elements_accounted {element : UInt16 → Plan α} (h : ∀ index, (element index).Accounted b)
    (count : Nat) (index : UInt16) : (elements element count index).Accounted b := by
  induction count generalizing index with
  | zero => exact pure_accounted []
  | succ count ih => exact (h index).bind fun _ => (ih _).bind fun _ => pure_accounted _

theorem list_accounted {element : UInt16 → Plan α} (h : ∀ index, (element index).Accounted b) :
    (list element).Accounted b :=
  (primitive_accounted .u16).bind fun _ => elements_accounted h _ 0

theorem opening_accounted : opening.Accounted b := by
  intro c c' e hc h
  generalize hn : min c.remaining magic.length = n
  have hreads : opening.reads c = (primitive (.bytes n) >>= fun found =>
      if found = magic then pure () else refuse (.badMagic found)).reads c :=
    hn ▸ rfl
  have hrun : (primitive (.bytes n) >>= fun found =>
      if found = magic then pure () else refuse (.badMagic found)).run c = .error e c' :=
    hn ▸ h
  have hrest := hc.offset_add_remaining
  rw [run_bind] at hrun
  rw [hreads]
  rcases primitive_cases (.bytes n) hc with ⟨-, hcut, -⟩ | ⟨hfound, hfits, -, hread⟩
  · have : b.length < c.offset + n := hcut
    omega
  · have hok : (primitive (.bytes n)).run c = .ok (slice b c.offset n) (c.advance n) := hfound
    have hcheck : (if slice b c.offset n = magic then pure () else
        refuse (.badMagic (slice b c.offset n))).run (c.advance n) = .error e c' := by
      simpa only [Bind.bind, EStateM.bind, hok] using hrun
    have hslice : slice b c.offset n = slice b c.offset magic.length := by
      rw [slice, slice, ← hn, Cursor.remaining, hc.rest, Nat.min_comm, ← List.take_eq_take_min]
    have hlength : (slice b c.offset n).length = n := length_slice hfits
    by_cases hmagic : slice b c.offset n = magic
    · rw [if_pos hmagic] at hcheck
      cases hcheck
    · rw [if_neg hmagic] at hcheck
      cases hcheck
      have hfailure := Failure.notMagic (List.forall_mem_nil _) hslice hmagic
      rw [hlength] at hfailure
      rw [reads_bind_of_ok hok, hread, if_neg hmagic]
      exact hfailure

end Plan

/-- **Every operation fails in one of these ways.** -/
theorem Operation.failure (op : Operation α) : op.plan.Accounted b := by
  induction op with
  | primitive p => exact Plan.primitive_accounted p
  | counted => exact Plan.counted_accounted
  | text => exact Plan.text_accounted
  | list element ih => exact Plan.list_accounted ih
  | opening => exact Plan.opening_accounted

/-! ## 6. Any number of operations -/

/-- Where operations leave the cursor, one after another.  One that fails does not stop the next. -/
def after (c : Cursor) : List (Σ α, Operation α) → Cursor
  | [] => c
  | ⟨_, op⟩ :: ops => after (op.reader.left c) ops

/-- All the primitive reads that operations make, one after another. -/
def readsOf (c : Cursor) : List (Σ α, Operation α) → List PrimitiveRead
  | [] => []
  | ⟨_, op⟩ :: ops => op.plan.reads c ++ readsOf (op.reader.left c) ops

theorem Operation.chain (op : Operation α) (hc : c.In b) :
    (op.reader.left c).In b ∧ Chain b c.offset (op.plan.reads c) (op.reader.left c).offset := by
  rw [← op.run_plan]
  exact op.plan.chain hc

/-- The reads of operations follow one another, whether or not some of them fail. -/
theorem readsOf_chain (ops : List (Σ α, Operation α)) (hc : c.In b) :
    (after c ops).In b ∧ Chain b c.offset (readsOf c ops) (after c ops).offset := by
  induction ops generalizing c with
  | nil => exact ⟨hc, .nil _⟩
  | cons op ops ih =>
    obtain ⟨hin, hchain⟩ := op.2.chain hc
    obtain ⟨hin', hchain'⟩ := ih hin
    exact ⟨hin', hchain.append hchain'⟩

/-- **Reading skips no byte, reads none twice, and stays within the bytes**, whatever operations
came before and whether or not they failed.

* The cursor stands within the bytes, and counts what is left.
* The reads up to here follow one another, and what they found is what lies before the cursor.
* A primitive operation returns the next bytes and moves past them; where there are too few, it
  leaves the cursor and reports where it stands, even if the end of what it asks for is no number of
  64 bits.
* Any operation makes the reads of its plan, which go on from here, and never moves back; if it
  succeeds, all of them found their bytes, and otherwise it fails in one of the ways that `Failure`
  lists. -/
theorem reads_disciplined {ops : List (Σ α, Operation α)} (h : after (Cursor.start b) ops = c) :
    (c.offset ≤ b.length ∧ c.offset + c.remaining = b.length) ∧
    (Chain b 0 (readsOf (Cursor.start b) ops) c.offset ∧
      ((readsOf (Cursor.start b) ops).filterMap PrimitiveRead.found).flatten = b.take c.offset) ∧
    (∀ {γ : Type} (p : Primitive γ),
      (c.offset + p.width ≤ b.length → ∃ a, p.reader c = .ok a (c.advance p.width) ∧
        p.layout a = slice b c.offset p.width) ∧
      (b.length < c.offset + p.width → p.reader c = .error (.unexpectedEof c.offset) c) ∧
      (b.length < 2 ^ 64 → 2 ^ 64 ≤ c.offset + p.width →
        p.reader c = .error (.unexpectedEof c.offset) c)) ∧
    ∀ {γ : Type} (op : Operation γ),
      op.plan.run = op.reader ∧
      Chain b c.offset (op.plan.reads c) (op.reader.left c).offset ∧
      c.offset ≤ (op.reader.left c).offset ∧
      (∀ a c', op.reader c = .ok a c' → ∀ r ∈ op.plan.reads c, r.found.isSome) ∧
      ∀ e c', op.reader c = .error e c' → Failure b (op.plan.reads c) c'.offset e := by
  have hstart : (Cursor.start b).In b := ⟨Nat.zero_le _, rfl⟩
  obtain ⟨hc, hchain⟩ := readsOf_chain ops hstart
  rw [h] at hc hchain
  refine ⟨⟨hc.offset_le, hc.offset_add_remaining⟩, ⟨hchain, hchain.flatten_found⟩, ?_, ?_⟩
  · intro γ p
    refine ⟨p.reader_of_fits hc, p.reader_of_cutOff hc, fun hlength hoverflow => ?_⟩
    exact p.reader_of_cutOff hc (by omega)
  · intro γ op
    have hreads := (op.chain hc).2
    refine ⟨op.run_plan, hreads, hreads.le, ?_, ?_⟩
    · intro a c' hok
      rw [← op.run_plan] at hok
      exact Plan.found_of_ok hok
    · intro e c' herror
      rw [← op.run_plan] at herror
      exact op.failure hc herror

/-- A text, a counted run of bytes, a number, and the magic bytes. -/
def varied : List (Σ α, Operation α) :=
  [⟨_, .text⟩, ⟨_, .counted⟩, ⟨_, .primitive .u16⟩, ⟨_, .opening⟩]

/-- In six bytes, the text is read, only the count of the run is there, the number is cut off, and
the last byte is not the magic bytes.  All six are consumed in their order, and what is asked for
past the end is not found, however much it is. -/
theorem varied_disciplined :
    after (Cursor.start [1, 0, 0x41, 5, 0, 0x42]) varied = ⟨6, []⟩ ∧
    ((readsOf (Cursor.start [1, 0, 0x41, 5, 0, 0x42]) varied).filterMap
      PrimitiveRead.found).flatten = [1, 0, 0x41, 5, 0, 0x42] ∧
    Reader.bytes (2 ^ 64 - 1) ⟨6, []⟩ = .error (.unexpectedEof 6) ⟨6, []⟩ := by
  have hafter : after (Cursor.start [1, 0, 0x41, 5, 0, 0x42]) varied = ⟨6, []⟩ := by
    decide +kernel
  obtain ⟨-, ⟨-, hfound⟩, hprimitive, -⟩ := reads_disciplined hafter
  have hoverflow := (hprimitive (.bytes (2 ^ 64 - 1))).2.2
  exact ⟨hafter, hfound, hoverflow (by decide) (by simp only [Primitive.width]; omega)⟩

end Image

end BytecodeVm
