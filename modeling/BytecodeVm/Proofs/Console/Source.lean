/- # Reading from a buffered stream

A reader looks at a stream through a buffer, and how much a look shows is up to the buffering.  What a
reading comes to, however, is settled by the stream: by the bytes that are unread, and by where it
fails.

* `Source.Shows`: every look shows something, if there is anything left to show;
* `Source.taking`: what taking some of the bytes that are available comes to;
* `Source.head_look_eq`: what a look at the next byte comes to;
* `Source.takeBytes_eq`, `Source.takeLine_eq`: what taking a number of bytes, or a line, comes to;
* `Source.Steady`: streams that do not fail, on which nothing is left to the buffering.
-/
import BytecodeVm.Console.Source
import Mathlib.Data.List.Basic
import Mathlib.Data.List.TakeDrop
import Mathlib.Data.Nat.Init
import Mathlib.Tactic.Common

namespace BytecodeVm.Source

/-! ## 1. Streams -/

/-- A look shows something, unless nothing is available. -/
def Shows (s : Source) : Prop :=
  ∀ n, 0 < s.window n

/-- Whether the stream fails before its end is seen. -/
def breaksOff (s : Source) : Bool :=
  match s.failAfter with
  | some n => decide (n ≤ s.unread.length)
  | none => false

/-- The stream after some bytes were consumed, in so many looks all told. -/
def after (s : Source) (consumed looks : Nat) : Source :=
  { s.consume consumed with looks }

/-- What taking the given bytes comes to, which are the next ones.  They are given back if no more were
wanted or if the stream ends, and the reading fails if the stream breaks off; they are consumed in any
case. -/
def taking (s : Source) (bytes : List UInt8) (enough : Bool) (looks : Nat) :
    EStateM.Result StreamFault Source (List UInt8) :=
  if enough || !s.breaksOff then .ok bytes (s.after bytes.length looks)
  else .error .readFailed (s.after bytes.length looks)

variable {s : Source}

theorem after_zero (s : Source) (looks : Nat) : s.after 0 looks = { s with looks } := by
  simp [after, consume]

theorem after_consume (s : Source) (n k looks looks' : Nat) :
    (({ s with looks } : Source).consume n).after k looks' = s.after (n + k) looks' := by
  simp [after, consume, List.drop_drop, Option.map_map, Function.comp_def, Nat.sub_sub]

theorem available_consume (s : Source) (n looks : Nat) :
    (({ s with looks } : Source).consume n).available = s.available.drop n := by
  cases hf : s.failAfter <;> simp [available, consume, hf, List.drop_take]

/-- Consuming bytes does not change where the stream fails. -/
theorem breaksOff_consume {n : Nat} (h : n ≤ s.available.length) (looks : Nat) :
    (({ s with looks } : Source).consume n).breaksOff = s.breaksOff := by
  cases hf : s.failAfter with
  | none => simp [breaksOff, consume, hf]
  | some k =>
    simp only [available, hf, List.length_take] at h
    simp only [breaksOff, consume, hf, Option.map_some, List.length_drop, decide_eq_decide]
    omega

theorem Shows.consume (h : s.Shows) (n looks : Nat) :
    (({ s with looks } : Source).consume n).Shows :=
  h

/-- Taking some bytes first, and then others. -/
theorem taking_append {first bytes : List UInt8} (h : first.length ≤ s.available.length)
    (enough : Bool) (looks looks' : Nat) :
    (match (({ s with looks } : Source).consume first.length).taking bytes enough looks' with
      | .ok bytes last => .ok (first ++ bytes) last
      | .error fault last => .error fault last) = s.taking (first ++ bytes) enough looks' := by
  simp only [taking, breaksOff_consume h, after_consume, List.length_append]
  by_cases hdone : (enough || !s.breaksOff) = true
  · simp only [if_pos hdone]
  · simp only [if_neg hdone]

/-! ## 2. Looking -/

/-- **What a look comes to.**  Where nothing is available, it fails or shows the end; otherwise it shows
some of what is available, from its start. -/
theorem look_cases (h : s.Shows) :
    (s.available = [] ∧ s.breaksOff ∧
      look s = .error .readFailed { s with looks := s.looks + 1 }) ∨
    (s.available = [] ∧ s.breaksOff = false ∧
      look s = .ok [] { s with looks := s.looks + 1 }) ∨
    ∃ byte shown rest, s.available = byte :: shown ++ rest ∧
      look s = .ok (byte :: shown) { s with looks := s.looks + 1 } := by
  by_cases hfail : s.failAfter = some 0
  · refine .inl ⟨?_, ?_, ?_⟩
    · simp [available, hfail]
    · simp [breaksOff, hfail]
    · simp only [look, if_pos hfail]
  · have hlook : look s = .ok (s.available.take (s.window s.looks))
        { s with looks := s.looks + 1 } := by
      simp only [look, if_neg hfail]
    refine .inr ?_
    cases havailable : s.available with
    | nil =>
      refine .inl ⟨rfl, ?_, by rw [hlook, havailable, List.take_nil]⟩
      -- the stream is at its end, and it fails further on if it ever does
      cases hf : s.failAfter with
      | none => simp [breaksOff, hf]
      | some n =>
        cases n with
        | zero => exact absurd hf hfail
        | succ n =>
          simp only [available, hf] at havailable
          simp only [breaksOff, hf]
          cases hunread : s.unread with
          | nil => rfl
          | cons byte rest => simp [hunread] at havailable
    | cons byte rest =>
      obtain ⟨n, hn⟩ : ∃ n, s.window s.looks = n + 1 :=
        Nat.exists_eq_succ_of_ne_zero (Nat.ne_of_gt (h s.looks))
      refine .inr ⟨byte, rest.take n, rest.drop n, ?_, ?_⟩
      · rw [List.cons_append, List.take_append_drop]
      · rw [hlook, havailable, hn, List.take_succ_cons]

/-- **Looking at the next byte** only: it is there, or the end is, or the look fails. -/
theorem head_look_eq (h : s.Shows) : (List.head? <$> look) s =
    if s.available = [] ∧ s.breaksOff then .error .readFailed (s.after 0 (s.looks + 1))
    else .ok s.available.head? (s.after 0 (s.looks + 1)) := by
  simp only [Functor.map, EStateM.map, after_zero]
  rcases look_cases h with ⟨hnil, hbreaks, hlook⟩ | ⟨hnil, hends, hlook⟩ |
    ⟨byte, shown, rest, havailable, hlook⟩
  · simp [hlook, hnil, hbreaks]
  · simp [hlook, hnil, hends]
  · simp [hlook, havailable]

/-! ## 3. Taking a number of bytes -/

theorem takeBytes_succ (n : Nat) (s : Source) : takeBytes (n + 1) s =
    match look s with
    | .ok [] seen => .ok [] seen
    | .ok (byte :: _) seen =>
      match takeBytes n (seen.consume 1) with
      | .ok bytes last => .ok (byte :: bytes) last
      | .error fault last => .error fault last
    | .error fault seen => .error fault seen := by
  rw [takeBytes]
  simp only [bind, EStateM.bind]
  cases look s with
  | error fault seen => rfl
  | ok shown seen =>
    cases shown with
    | nil => rfl
    | cons byte shown =>
      have hconsume : (modify (consume · 1) : OnSource PUnit) seen = .ok ⟨⟩ (seen.consume 1) :=
        rfl
      simp only [EStateM.bind, hconsume]
      cases takeBytes n (seen.consume 1) <;> rfl

/-- **Taking a number of bytes** takes so many of the bytes that are available, or all of them. -/
theorem takeBytes_eq (h : s.Shows) (n : Nat) : ∃ looks, takeBytes n s =
    s.taking (s.available.take n) (n ≤ s.available.length) looks := by
  induction n generalizing s with
  | zero =>
    refine ⟨s.looks, ?_⟩
    simp only [takeBytes, taking, List.take_zero, Nat.zero_le, decide_true, Bool.true_or, if_true,
      List.length_nil, after_zero]
    rfl
  | succ n ih =>
    rcases look_cases h with ⟨hnil, hbreaks, hlook⟩ | ⟨hnil, hends, hlook⟩ |
      ⟨byte, shown, rest, havailable, hlook⟩
    · refine ⟨s.looks + 1, ?_⟩
      simp [takeBytes_succ, hlook, taking, hnil, hbreaks, after_zero]
    · refine ⟨s.looks + 1, ?_⟩
      simp [takeBytes_succ, hlook, taking, hnil, hends, after_zero]
    · obtain ⟨looks, hrest⟩ := ih (h.consume 1 (s.looks + 1))
      rw [available_consume, havailable] at hrest
      have hone : [byte].length ≤ s.available.length := by simp [havailable]
      have henough : decide (n + 1 ≤ s.available.length) =
          decide (n ≤ ((byte :: shown ++ rest).drop 1).length) := by
        simp [havailable]
      have htake : s.available.take (n + 1) = [byte] ++ ((byte :: shown ++ rest).drop 1).take n := by
        simp [havailable]
      refine ⟨looks, ?_⟩
      rw [takeBytes_succ, hlook, htake, henough, ← taking_append hone _ (s.looks + 1)]
      simp only [hrest, List.length_singleton, List.singleton_append]

/-! ## 4. Taking a line -/

theorem throughBreak_of_notMem {bytes : List UInt8} (h : lineBreak ∉ bytes) :
    throughBreak bytes = bytes := by
  rw [throughBreak, List.idxOf_of_notMem h]
  exact List.take_of_length_le (Nat.le_succ _)

theorem throughBreak_append_of_mem {bytes : List UInt8} (h : lineBreak ∈ bytes)
    (rest : List UInt8) : throughBreak (bytes ++ rest) = throughBreak bytes := by
  have hlt := List.idxOf_lt_length_of_mem h
  rw [throughBreak, throughBreak, List.idxOf_append_of_mem h, List.take_append_of_le_length hlt]

theorem throughBreak_append_of_notMem {bytes : List UInt8} (h : lineBreak ∉ bytes)
    (rest : List UInt8) : throughBreak (bytes ++ rest) = bytes ++ throughBreak rest := by
  rw [throughBreak, throughBreak, List.idxOf_append_of_notMem h, Nat.add_assoc,
    List.take_length_add_append]

/-- How taking a line goes on after a look that shows something. -/
theorem takeLine_of_shown {seen : Source} {shown : List UInt8} (h : look s = .ok shown seen)
    (hne : shown ≠ []) : takeLine s =
      if lineBreak ∈ shown then
        .ok (throughBreak shown) (seen.consume (throughBreak shown).length)
      else
        match takeLine (seen.consume shown.length) with
        | .ok line last => .ok (shown ++ line) last
        | .error fault last => .error fault last := by
  rw [takeLine]
  split
  · rename_i fault seen' h'
    rw [h] at h'
    cases h'
  · rename_i shown' seen' h'
    rw [h] at h'
    cases h'
    rw [dif_neg hne]
    split
    · rfl
    · rename_i hbreak
      cases hrest : takeLine (seen.consume shown.length) with
      | ok line last => simp only [throughBreak_of_notMem hbreak, hrest]
      | error fault last => simp only [throughBreak_of_notMem hbreak, hrest]

theorem takeLine_of_nil {seen : Source} (h : look s = .ok [] seen) : takeLine s = .ok [] seen := by
  rw [takeLine]
  split
  · rename_i fault seen' h'
    rw [h] at h'
    cases h'
  · rename_i shown seen' h'
    rw [h] at h'
    cases h'
    rw [dif_pos rfl]

theorem takeLine_of_error {seen : Source} {fault : StreamFault} (h : look s = .error fault seen) :
    takeLine s = .error fault seen := by
  rw [takeLine]
  split
  · rename_i fault' seen' h'
    rw [h] at h'
    cases h'
    rfl
  · rename_i shown seen' h'
    rw [h] at h'
    cases h'

/-- **Taking a line** takes the bytes that are available through the first line break, or all of
them. -/
theorem takeLine_eq (h : s.Shows) : ∃ looks, takeLine s =
    s.taking (throughBreak s.available) (lineBreak ∈ s.available) looks := by
  -- the induction is on the bytes that are unread, of which every look but the last takes some
  generalize hn : s.unread.length = n
  induction n using Nat.strong_induction_on generalizing s with
  | _ n ih =>
    rcases look_cases h with ⟨hnil, hbreaks, hlook⟩ | ⟨hnil, hends, hlook⟩ |
      ⟨byte, shown, rest, havailable, hlook⟩
    · refine ⟨s.looks + 1, ?_⟩
      simp [takeLine_of_error hlook, taking, hnil, hbreaks, throughBreak, after_zero]
    · refine ⟨s.looks + 1, ?_⟩
      simp [takeLine_of_nil hlook, taking, hnil, hends, throughBreak, after_zero]
    · have hne : byte :: shown ≠ [] := List.cons_ne_nil _ _
      rw [takeLine_of_shown hlook hne, havailable]
      by_cases hbreak : lineBreak ∈ byte :: shown
      · -- the line is over in what is shown
        refine ⟨s.looks + 1, ?_⟩
        have hmem : lineBreak ∈ byte :: shown ++ rest := List.mem_append_left _ hbreak
        rw [if_pos hbreak, throughBreak_append_of_mem hbreak]
        simp only [taking, hmem, decide_true, Bool.true_or, if_true]
        rfl
      · -- all that is shown belongs to the line, and the rest of it is still to come
        rw [if_neg hbreak, throughBreak_append_of_notMem hbreak]
        have hlt := length_consume_lt hlook hne
        rw [throughBreak_of_notMem hbreak, hn] at hlt
        obtain ⟨looks, hrest⟩ := ih _ hlt (h.consume _ _) rfl
        have hlength : (byte :: shown).length ≤ s.available.length := by simp [havailable]
        have hmem : decide (lineBreak ∈ byte :: shown ++ rest) = decide (lineBreak ∈ rest) := by
          simp only [List.mem_append, hbreak, false_or]
        rw [available_consume, havailable, List.drop_left] at hrest
        refine ⟨looks, ?_⟩
        rw [hrest, hmem, taking_append hlength]

/-! ## 5. Streams that do not fail -/

/-- The stream does not fail, however much is read of it. -/
structure Steady (s : Source) : Prop where
  shows : s.unread ≠ [] → s.Shows
  lasts : s.breaksOff = false

theorem steady_ofBytes (bytes : List UInt8) : (ofBytes bytes).Steady where
  shows := fun hne _ => List.length_pos_iff.mpr hne
  lasts := rfl

namespace Steady

theorem available_eq (h : s.Steady) : s.available = s.unread := by
  have hlasts := h.lasts
  cases hf : s.failAfter with
  | none => simp only [available, hf]
  | some n =>
    simp only [breaksOff, hf, decide_eq_false_iff_not, Nat.not_le] at hlasts
    simp only [available, hf]
    exact List.take_of_length_le (Nat.le_of_lt hlasts)

/-- It does not fail further on, either. -/
theorem after (h : s.Steady) {n : Nat} (hn : n ≤ s.unread.length) (looks : Nat) :
    (s.after n looks).Steady where
  shows := fun hne => h.shows fun hnil => hne (by simp [Source.after, consume, hnil])
  lasts := by
    rw [← h.available_eq] at hn
    exact (breaksOff_consume hn s.looks).trans h.lasts

theorem taking_eq (h : s.Steady) (bytes : List UInt8) (enough : Bool) (looks : Nat) :
    s.taking bytes enough looks = .ok bytes (s.after bytes.length looks) := by
  simp [taking, h.lasts]

/-- At the end, a look shows that. -/
theorem look_of_nil (h : s.Steady) (hnil : s.unread = []) :
    look s = .ok [] (s.after 0 (s.looks + 1)) := by
  have hfail : s.failAfter ≠ some 0 := by
    intro hf
    have hlasts := h.lasts
    simp [breaksOff, hf] at hlasts
  simp only [look, if_neg hfail, h.available_eq, hnil, List.take_nil, after_zero]

/-- A look at the next byte shows it, or the end. -/
theorem head_look (h : s.Steady) : ∃ s', (List.head? <$> look) s = .ok s.unread.head? s' ∧
    s'.Steady ∧ s'.unread = s.unread := by
  refine ⟨s.after 0 (s.looks + 1), ?_, h.after (Nat.zero_le _) _, rfl⟩
  by_cases hnil : s.unread = []
  · simp only [Functor.map, EStateM.map, h.look_of_nil hnil, hnil, List.head?_nil]
  · simp [head_look_eq (h.shows hnil), h.lasts, h.available_eq]

/-- So many bytes are taken, or all of them. -/
theorem takeBytes (h : s.Steady) (n : Nat) : ∃ s', takeBytes n s = .ok (s.unread.take n) s' ∧
    s'.Steady ∧ s'.unread = s.unread.drop n := by
  have hprefix : s.unread.take n <+: s.unread := List.take_prefix _ _
  obtain ⟨looks, heq⟩ : ∃ looks, Source.takeBytes n s =
      .ok (s.unread.take n) (s.after (s.unread.take n).length looks) := by
    by_cases hnil : s.unread = []
    · rw [hnil, List.take_nil]
      cases n with
      | zero => exact ⟨s.looks, by rw [List.length_nil, after_zero]; rfl⟩
      | succ n => exact ⟨s.looks + 1, by rw [takeBytes_succ, h.look_of_nil hnil]; rfl⟩
    · obtain ⟨looks, heq⟩ := takeBytes_eq (h.shows hnil) n
      exact ⟨looks, by rw [heq, h.taking_eq, h.available_eq]⟩
  have hsplit : s.unread.take n ++ (s.after (s.unread.take n).length looks).unread =
      s.unread.take n ++ s.unread.drop n :=
    (List.prefix_iff_eq_append.mp hprefix).trans (List.take_append_drop n s.unread).symm
  exact ⟨_, heq, h.after hprefix.length_le _, List.append_cancel_left hsplit⟩

/-- A line is taken, and what is behind it is left. -/
theorem takeLine (h : s.Steady) : ∃ s', takeLine s = .ok (throughBreak s.unread) s' ∧ s'.Steady ∧
    throughBreak s.unread ++ s'.unread = s.unread := by
  have hprefix : throughBreak s.unread <+: s.unread := List.take_prefix _ _
  obtain ⟨looks, heq⟩ : ∃ looks, Source.takeLine s =
      .ok (throughBreak s.unread) (s.after (throughBreak s.unread).length looks) := by
    by_cases hnil : s.unread = []
    · exact ⟨s.looks + 1, by rw [hnil, takeLine_of_nil (h.look_of_nil hnil)]; rfl⟩
    · obtain ⟨looks, heq⟩ := takeLine_eq (h.shows hnil)
      exact ⟨looks, by rw [heq, h.taking_eq, h.available_eq]⟩
  exact ⟨_, heq, h.after hprefix.length_le _, List.prefix_iff_eq_append.mp hprefix⟩

end Steady

end BytecodeVm.Source
