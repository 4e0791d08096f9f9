/- # Integers on a line

What is read as an integer: one optional sign, one or more digits, blanks around them, and a value
that is not out of range.

* `Trimmed`: a text without the blanks around it; there is one (`trimmed_trimBlanks`), and no other
  (`Trimmed.unique`);
* `WritesInt`: a text that denotes an integer, and `writesInt_toString`: every integer has one;
* `foldlM_appendDigit?`: digits are read one after the other, and none of them leaves the range if
  the whole does not, so that `parseInt64?_eq_some_iff`: reading succeeds exactly on the texts that
  denote an integer in the range.
-/
import BytecodeVm.Text.Blank
import BytecodeVm.Text.Integer
import Mathlib.Algebra.Group.Int.Defs
import Mathlib.Data.List.TakeWhile
import Mathlib.Tactic.Common

namespace BytecodeVm

/-! ## 1. Blanks around a text -/

/-- The text is what is left of the line without the blanks at its two ends. -/
structure Trimmed (line text : List Char) : Prop where
  split : ∃ front back, line = front ++ text ++ back ∧ (∀ c ∈ front, isBlank c) ∧
    ∀ c ∈ back, isBlank c
  first : ∀ c ∈ text.head?, ¬ isBlank c
  last : ∀ c ∈ text.getLast?, ¬ isBlank c

theorem dropWhile_of_head {p : Char → Bool} {text : List Char} (h : ∀ c ∈ text.head?, ¬ p c) :
    text.dropWhile p = text := by
  cases text with
  | nil => rfl
  | cons c rest => exact List.dropWhile_cons_of_neg (h c rfl)

theorem dropWhile_of_all {p : Char → Bool} {text : List Char} (h : ∀ c ∈ text, p c) :
    text.dropWhile p = [] := by
  rw [← List.append_nil text, List.dropWhile_append_of_pos h, List.dropWhile_nil]

/-- There is one way to remove the blanks. -/
theorem Trimmed.eq_trimBlanks {line text : List Char} (h : Trimmed line text) :
    text = trimBlanks line := by
  obtain ⟨⟨front, back, rfl, hfront, hback⟩, hfirst, hlast⟩ := h
  have hback' : ∀ c ∈ back.reverse, isBlank c := fun c hc => hback c (List.mem_reverse.mp hc)
  rw [trimBlanks, List.append_assoc, List.dropWhile_append_of_pos hfront]
  cases text with
  | nil =>
    rw [List.nil_append, dropWhile_of_all hback]
    rfl
  | cons c rest =>
    have hline : (c :: rest ++ back).dropWhile isBlank = c :: rest ++ back :=
      dropWhile_of_head hfirst
    have htext : (c :: rest).reverse.dropWhile isBlank = (c :: rest).reverse :=
      dropWhile_of_head (by rwa [List.head?_reverse])
    rw [hline, List.reverse_append, List.dropWhile_append_of_pos hback', htext,
      List.reverse_reverse]

theorem head?_dropWhile {p : Char → Bool} (text : List Char) :
    ∀ c ∈ (text.dropWhile p).head?, ¬ p c := by
  induction text with
  | nil => simp
  | cons c rest ih =>
    by_cases hc : p c
    · rwa [List.dropWhile_cons_of_pos hc]
    · simp [List.dropWhile_cons_of_neg hc, hc]

theorem trimmed_trimBlanks (line : List Char) : Trimmed line (trimBlanks line) := by
  have hfront := List.takeWhile_append_dropWhile (p := isBlank) (l := line)
  have hfirst := head?_dropWhile (p := isBlank) line
  rw [trimBlanks]
  generalize line.dropWhile isBlank = rest at hfront hfirst ⊢
  have hback : (rest.reverse.dropWhile isBlank).reverse ++
      (rest.reverse.takeWhile isBlank).reverse = rest := by
    rw [← List.reverse_append, List.takeWhile_append_dropWhile, List.reverse_reverse]
  refine ⟨⟨line.takeWhile isBlank, (rest.reverse.takeWhile isBlank).reverse, ?_, ?_, ?_⟩, ?_, ?_⟩
  · rw [List.append_assoc, hback, hfront]
  · exact fun c hc => List.mem_takeWhile_imp hc
  · exact fun c hc => List.mem_takeWhile_imp (List.mem_reverse.mp hc)
  · intro c hc
    refine hfirst c ?_
    rw [← hback]
    rw [List.head?_append, Option.mem_def.mp hc]
    rfl
  · rw [List.getLast?_reverse]
    exact head?_dropWhile _

theorem Trimmed.unique {line text text' : List Char} (h : Trimmed line text)
    (h' : Trimmed line text') : text = text' :=
  h.eq_trimBlanks.trans h'.eq_trimBlanks.symm

theorem Trimmed.of_not_blank {text : List Char} (h : ∀ c ∈ text, ¬ isBlank c) :
    Trimmed text text where
  split := ⟨[], [], by simp, by simp, by simp⟩
  first c hc := h c (List.mem_of_mem_head? hc)
  last c hc := h c (List.mem_of_getLast? hc)

theorem not_isBlank_of_isDigit {c : Char} (h : c.isDigit) : ¬ isBlank c := by
  have hzero : '0'.toNat = 48 := by decide
  have hnine : '9'.toNat = 57 := by decide
  rw [Char.isDigit_iff_toNat, hzero, hnine] at h
  simp [isBlank, CharSet.contains, CharSet.whiteSpace]
  omega

/-! ## 2. Texts that denote integers -/

/-- One or more digits, which denote the number. -/
structure WritesNat (digits : List Char) (n : Nat) : Prop where
  nonempty : digits ≠ []
  all : ∀ c ∈ digits, c.isDigit
  value : n = Nat.ofDigitChars 10 digits 0

/-- An optional sign and one or more digits, which denote the integer. -/
inductive WritesInt : List Char → Int → Prop
  | bare {digits : List Char} {n : Nat} (h : WritesNat digits n) : WritesInt digits n
  | plus {digits : List Char} {n : Nat} (h : WritesNat digits n) : WritesInt ('+' :: digits) n
  | minus {digits : List Char} {n : Nat} (h : WritesNat digits n) : WritesInt ('-' :: digits) (-n)

theorem writesNat_toDigits (n : Nat) : WritesNat (Nat.toDigits 10 n) n where
  nonempty := Nat.toDigits_ne_nil
  all _ hc := Nat.isDigit_of_mem_toDigits (by decide) (by decide) hc
  value := (Nat.ofDigitChars_toDigits (by decide) (by decide)).symm

/-- Every integer is denoted by its decimal. -/
theorem writesInt_toString (z : Int) : WritesInt (toString z).toList z := by
  cases z with
  | ofNat n =>
    have hrepr : (toString (Int.ofNat n)).toList = Nat.toDigits 10 n := Nat.toList_repr
    rw [hrepr]
    exact .bare (writesNat_toDigits n)
  | negSucc n =>
    have hrepr : (toString (Int.negSucc n)).toList = '-' :: Nat.toDigits 10 (n + 1) := by
      rw [Int.toString_eq_repr, Int.repr, String.toList_append, Nat.toList_repr]
      rfl
    rw [hrepr]
    exact .minus (writesNat_toDigits (n + 1))

/-- Nothing in a text that denotes an integer is blank. -/
theorem WritesInt.not_isBlank {text : List Char} {z : Int} (h : WritesInt text z) :
    ∀ c ∈ text, ¬ isBlank c := by
  have hplus : ¬ isBlank '+' := by decide
  have hminus : ¬ isBlank '-' := by decide
  have hdigits {digits : List Char} {n : Nat} (hn : WritesNat digits n) :
      ∀ c ∈ digits, ¬ isBlank c := fun c hc => not_isBlank_of_isDigit (hn.all c hc)
  cases h with
  | bare hn => exact hdigits hn
  | plus hn => exact List.forall_mem_cons.mpr ⟨hplus, hdigits hn⟩
  | minus hn => exact List.forall_mem_cons.mpr ⟨hminus, hdigits hn⟩

theorem WritesInt.ne_nil {text : List Char} {z : Int} (h : WritesInt text z) : text ≠ [] := by
  cases h with
  | bare hn => exact hn.nonempty
  | plus hn => exact List.cons_ne_nil _ _
  | minus hn => exact List.cons_ne_nil _ _

/-! ## 3. Reading digits -/

/-- An integer of 64 bits, one of them for the sign. -/
def IsInt64 (z : Int) : Prop :=
  -2 ^ 63 ≤ z ∧ z ≤ 2 ^ 63 - 1

instance (z : Int) : Decidable (IsInt64 z) :=
  inferInstanceAs (Decidable (_ ∧ _))

theorem checkInt64?_eq_some_iff {z w : Int} : checkInt64? z = some w ↔ w = z ∧ IsInt64 w := by
  simp only [checkInt64?, IsInt64]
  split
  · rw [Option.some_inj]
    omega
  · simp only [reduceCtorEq, false_iff]
    omega

/-- A natural number with a sign put before it. -/
def withSign (negative : Bool) (n : Nat) : Int :=
  if negative then -(n : Int) else n

/-- **One digit more** is read if it is one, and the range is not left. -/
theorem appendDigit?_eq_some_iff {negative : Bool} {n : Nat} {c : Char} {z : Int} :
    appendDigit? negative (withSign negative n) c = some z ↔
      c.isDigit ∧ z = withSign negative (10 * n + (c.toNat - '0'.toNat)) ∧ IsInt64 z := by
  have hstep : (if negative then 10 * withSign negative n - (c.toNat - '0'.toNat : Nat)
      else 10 * withSign negative n + (c.toNat - '0'.toNat : Nat)) =
        withSign negative (10 * n + (c.toNat - '0'.toNat)) := by
    simp only [withSign]
    split <;> omega
  have htens : IsInt64 (withSign negative (10 * n + (c.toNat - '0'.toNat))) →
      IsInt64 (10 * withSign negative n) := by
    simp only [IsInt64, withSign]
    split <;> omega
  simp only [appendDigit?, guard, Option.bind_eq_bind, Option.bind_eq_some_iff,
    checkInt64?_eq_some_iff]
  by_cases hdigit : c.isDigit
  · simp only [hdigit, if_true, true_and, pure, exists_const]
    constructor
    · rintro ⟨_, ⟨rfl, -⟩, rfl, hz⟩
      exact ⟨hstep, hz⟩
    · rintro ⟨rfl, hz⟩
      exact ⟨_, ⟨rfl, htens hz⟩, hstep.symm, hz⟩
  · simp [hdigit]

theorem le_ofDigitChars (digits : List Char) (n : Nat) : n ≤ Nat.ofDigitChars 10 digits n := by
  induction digits generalizing n with
  | nil => exact Nat.le_refl n
  | cons c digits ih =>
    rw [Nat.ofDigitChars_cons]
    exact Nat.le_trans (by omega) (ih _)

/-- A number before some digits is in the range if they all are. -/
theorem IsInt64.of_le {negative : Bool} {m n : Nat} (h : IsInt64 (withSign negative n))
    (hle : m ≤ n) : IsInt64 (withSign negative m) := by
  cases negative with
  | false | true =>
    simp only [IsInt64, withSign, Bool.false_eq_true, if_true, if_false] at h ⊢
    omega

/-- **Digits are read one after the other,** and only the last result can be out of range first. -/
theorem foldlM_appendDigit? {negative : Bool} {n : Nat} {digits : List Char} {z : Int}
    (hn : IsInt64 (withSign negative n)) :
    digits.foldlM (appendDigit? negative) (withSign negative n) = some z ↔
      (∀ c ∈ digits, c.isDigit) ∧ z = withSign negative (Nat.ofDigitChars 10 digits n) ∧
        IsInt64 z := by
  induction digits generalizing n with
  | nil =>
    simp only [List.foldlM_nil, Option.pure_def, Option.some_inj, Nat.ofDigitChars_nil]
    constructor
    · rintro rfl
      exact ⟨by simp, rfl, hn⟩
    · rintro ⟨-, rfl, -⟩
      rfl
  | cons c digits ih =>
    simp only [List.foldlM_cons, Option.bind_eq_bind, Option.bind_eq_some_iff,
      appendDigit?_eq_some_iff, Nat.ofDigitChars_cons, List.forall_mem_cons]
    constructor
    · rintro ⟨_, ⟨hc, rfl, hnext⟩, hz⟩
      obtain ⟨hdigits, hz⟩ := (ih hnext).mp hz
      exact ⟨⟨hc, hdigits⟩, hz⟩
    · rintro ⟨⟨hc, hdigits⟩, rfl, hz⟩
      have hnext := hz.of_le (le_ofDigitChars digits _)
      exact ⟨_, ⟨hc, rfl, hnext⟩, (ih hnext).mpr ⟨hdigits, rfl, hz⟩⟩

theorem parseInt64Digits?_eq_some_iff {negative : Bool} {digits : List Char} {z : Int} :
    parseInt64Digits? negative digits = some z ↔
      ∃ n, WritesNat digits n ∧ z = withSign negative n ∧ IsInt64 z := by
  have hzero : withSign negative 0 = 0 := by
    cases negative <;> rfl
  have hstart : IsInt64 (withSign negative 0) := by
    rw [hzero]
    decide
  rw [parseInt64Digits?, ← hzero]
  split
  · rename_i hnil
    simp only [reduceCtorEq, false_iff]
    rintro ⟨n, hn, -⟩
    exact hn.nonempty hnil
  · rename_i hne
    rw [foldlM_appendDigit? hstart]
    constructor
    · rintro ⟨hall, hz⟩
      exact ⟨_, ⟨hne, hall, rfl⟩, hz⟩
    · rintro ⟨n, ⟨-, hall, rfl⟩, hz⟩
      exact ⟨hall, hz⟩

/-- **Reading succeeds exactly on what denotes an integer of 64 bits.** -/
theorem parseInt64?_eq_some_iff {text : List Char} {z : Int} :
    parseInt64? text = some z ↔ WritesInt text z ∧ IsInt64 z := by
  have hminus : ¬ '-'.isDigit := by decide
  have hplus : ¬ '+'.isDigit := by decide
  fun_cases parseInt64? text with
  | case1 digits =>
    rw [parseInt64Digits?_eq_some_iff]
    constructor
    · rintro ⟨n, hn, rfl, hz⟩
      exact ⟨.minus hn, hz⟩
    · rintro ⟨hwrites, hz⟩
      cases hwrites with
      | bare hn => exact absurd (hn.all _ List.mem_cons_self) hminus
      | minus hn => exact ⟨_, hn, rfl, hz⟩
  | case2 digits =>
    rw [parseInt64Digits?_eq_some_iff]
    constructor
    · rintro ⟨n, hn, rfl, hz⟩
      exact ⟨.plus hn, hz⟩
    · rintro ⟨hwrites, hz⟩
      cases hwrites with
      | bare hn => exact absurd (hn.all _ List.mem_cons_self) hplus
      | plus hn => exact ⟨_, hn, rfl, hz⟩
  | case3 text hnotMinus hnotPlus =>
    rw [parseInt64Digits?_eq_some_iff]
    constructor
    · rintro ⟨n, hn, rfl, hz⟩
      exact ⟨.bare hn, hz⟩
    · rintro ⟨hwrites, hz⟩
      cases hwrites with
      | bare hn => exact ⟨_, hn, rfl, hz⟩
      | plus hn => exact absurd rfl (hnotPlus _)
      | minus hn => exact absurd rfl (hnotMinus _)

end BytecodeVm
