/- # Console input

A stream of bytes that is looked at through a buffer: each look shows some of the unread bytes, and
how many depends on the buffering, not on the reader.

* `Source.look`, `Source.consume`: what a buffered stream offers;
* `Source.takeLine`: the bytes through the next line break, however many looks that takes;
* `Source.takeBytes`: a number of bytes, one look a byte.
-/
import BytecodeVm.Trap

namespace BytecodeVm

/-- A buffered stream of bytes. -/
structure Source where
  unread : List UInt8
  /-- How many more bytes can be consumed before the stream fails, if it ever does. -/
  failAfter : Option Nat
  /-- How many bytes a look shows at most, by the number of looks before it. -/
  window : Nat → Nat
  looks : Nat

/-- Reading from a source.  What was consumed before a fault stays consumed. -/
abbrev OnSource := EStateM StreamFault Source

namespace Source

/-- A stream that shows everything and never fails. -/
def ofBytes (bytes : List UInt8) : Source :=
  { unread := bytes, failAfter := none, window := fun _ => bytes.length, looks := 0 }

/-- The unread bytes that lie before the point of failure. -/
def available (s : Source) : List UInt8 :=
  match s.failAfter with
  | some n => s.unread.take n
  | none => s.unread

/-- Some of the bytes that are available: none only at the end of the stream.  At the point of
failure a look fails, also if that is the end. -/
def look : OnSource (List UInt8) := fun s =>
  let seen := { s with looks := s.looks + 1 }
  if s.failAfter = some 0 then .error .readFailed seen
  else .ok (s.available.take (s.window s.looks)) seen

/-- Gives up the next `n` bytes. -/
def consume (s : Source) (n : Nat) : Source :=
  { s with unread := s.unread.drop n, failAfter := s.failAfter.map (· - n) }

/-- The byte that ends a line. -/
def lineBreak : UInt8 :=
  0x0a

/-- Up to the given number of bytes; fewer at the end of the stream. -/
def takeBytes : Nat → OnSource (List UInt8)
  | 0 => pure []
  | n + 1 => do
    match ← look with
    | [] => pure []
    | byte :: _ =>
      modify (consume · 1)
      return byte :: (← takeBytes n)

/-- The shown bytes through the first line break; all of them if there is none. -/
def throughBreak (shown : List UInt8) : List UInt8 :=
  shown.take (shown.idxOf lineBreak + 1)

/-- Something is taken of whatever is shown. -/
theorem throughBreak_ne_nil {shown : List UInt8} (h : shown ≠ []) : throughBreak shown ≠ [] := by
  cases shown with
  | nil => exact absurd rfl h
  | cons byte rest => simp [throughBreak]

/-- A look leaves the unread bytes as they are, and shows some only if there are some. -/
theorem unread_of_look {s seen : Source} {shown : List UInt8} (h : look s = .ok shown seen)
    (hne : shown ≠ []) : seen.unread = s.unread ∧ s.unread ≠ [] := by
  simp only [look] at h
  split at h
  · cases h
  · cases h
    refine ⟨rfl, fun hnil => hne ?_⟩
    cases hf : s.failAfter <;> simp [available, hf, hnil]

/-- Consuming something of what a look showed leaves fewer bytes unread. -/
theorem length_consume_lt {s seen : Source} {shown : List UInt8} (h : look s = .ok shown seen)
    (hne : shown ≠ []) :
    (seen.consume (throughBreak shown).length).unread.length < s.unread.length := by
  obtain ⟨heq, hunread⟩ := unread_of_look h hne
  have htaken := List.length_pos_iff.mpr (throughBreak_ne_nil hne)
  have hpos := List.length_pos_iff.mpr hunread
  simp only [consume, List.length_drop, heq]
  omega

/-- The bytes through the next line break, or all of them if there is none. -/
def takeLine (s : Source) : EStateM.Result StreamFault Source (List UInt8) :=
  match h : look s with
  | .error fault seen => .error fault seen
  | .ok shown seen =>
    if hne : shown = [] then .ok [] seen
    else
      have := length_consume_lt h hne
      let taken := throughBreak shown
      let next := seen.consume taken.length
      if lineBreak ∈ shown then .ok taken next
      else
        match takeLine next with
        | .ok line last => .ok (taken ++ line) last
        | .error fault last => .error fault last
termination_by s.unread.length

end Source

end BytecodeVm
