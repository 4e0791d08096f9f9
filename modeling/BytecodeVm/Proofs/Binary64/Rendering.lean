/- # The text of a number says which number it is

A numeral is a text with a sign, digits, a point and an exponent, taken apart; it can be taken apart
in one way only.  The text of a finite number is a numeral, which denotes the shortest decimal of
the number exactly, and since that decimal is read as no other number, neither is the text.

* `Numeral`, `Numeral.value`: numerals and what they denote, and `Numeral.text_injective`: different
  numerals have different texts;
* `Numeral.Tidy`: a numeral without a zero that could be left out;
* `Decimal.numeral`: a decimal as a numeral, with `text_numeral`, `value_numeral` and
  `tidy_numeral`;
* `Binary64.render_faithful`: the text of any number that is not a NaN.
-/
import BytecodeVm.Proofs.Binary64.Shortest

namespace BytecodeVm

/-! ## 1. Numerals -/

/-- The exponent of a numeral: its sign and its digits. -/
@[ext]
structure Numeral.Exponent where
  negative : Bool
  digits : List Char
  all : ∀ c ∈ digits, c.isDigit

/-- A numeral: its sign, the digits before and behind the point, and its exponent. -/
@[ext]
structure Numeral where
  negative : Bool
  whole : List Char
  fraction : List Char
  exponent : Option Numeral.Exponent
  nonempty : whole ≠ []
  whole_all : ∀ c ∈ whole, c.isDigit
  fraction_all : ∀ c ∈ fraction, c.isDigit

namespace Numeral

/-- The sign of a number, if it is negative. -/
def signText (negative : Bool) : List Char :=
  if negative then ['-'] else []

/-- A point and the digits behind it, if there are any. -/
def fractionText (fraction : List Char) : List Char :=
  if fraction = [] then [] else '.' :: fraction

/-- An exponent with its mark and its sign, if there is one. -/
def exponentText : Option Exponent → List Char
  | none => []
  | some e => 'E' :: (if e.negative then '-' else '+') :: e.digits

/-- A numeral as it is written. -/
def text (m : Numeral) : List Char :=
  signText m.negative ++ (m.whole ++ (fractionText m.fraction ++ exponentText m.exponent))

/-- The integer that an exponent denotes. -/
def Exponent.value (e : Exponent) : Int :=
  if e.negative then -(Nat.ofDigitChars 10 e.digits 0 : Int) else Nat.ofDigitChars 10 e.digits 0

/-- The power of ten by which the digits are scaled. -/
def scaling (m : Numeral) : Int :=
  m.exponent.elim 0 Exponent.value - m.fraction.length

/-- The number that a numeral denotes. -/
def value (m : Numeral) : ℚ :=
  (if m.negative then -1 else 1) * (Nat.ofDigitChars 10 (m.whole ++ m.fraction) 0 * 10 ^ m.scaling)

/-- A numeral without a zero that could be left out.  An exponent has two digits at least, and no
zero at its front if it has more. -/
structure Tidy (m : Numeral) : Prop where
  whole : m.whole.head? = some '0' → m.whole = ['0']
  fraction : m.fraction.getLast? ≠ some '0'
  exponent : ∀ e ∈ m.exponent, 2 ≤ e.digits.length ∧
    (e.digits.head? = some '0' → e.digits.length = 2)

/-! ### Unique readability -/

theorem signText_append_inj {negative negative' : Bool} {rest rest' : List Char}
    (hrest : rest.head? ≠ some '-') (hrest' : rest'.head? ≠ some '-')
    (h : signText negative ++ rest = signText negative' ++ rest') :
    negative = negative' ∧ rest = rest' := by
  have hhead := congrArg List.head? h
  cases negative with
  | false =>
    cases negative' with
    | false => exact ⟨rfl, h⟩
    | true => exact absurd hhead hrest
  | true =>
    cases negative' with
    | false => exact absurd hhead.symm hrest'
    | true => exact ⟨rfl, List.append_cancel_left h⟩

theorem digits_append_inj {digits digits' rest rest' : List Char} (hdigits : ∀ c ∈ digits, c.isDigit)
    (hdigits' : ∀ c ∈ digits', c.isDigit) (hrest : ∀ c ∈ rest.head?, ¬ c.isDigit)
    (hrest' : ∀ c ∈ rest'.head?, ¬ c.isDigit) (h : digits ++ rest = digits' ++ rest') :
    digits = digits' ∧ rest = rest' := by
  have htake {digits rest : List Char} (hdigits : ∀ c ∈ digits, c.isDigit)
      (hrest : ∀ c ∈ rest.head?, ¬ c.isDigit) :
      (digits ++ rest).takeWhile Char.isDigit = digits := by
    rw [List.takeWhile_append_of_pos hdigits]
    cases rest with
    | nil => simp
    | cons c rest => rw [List.takeWhile_cons_of_neg (hrest c rfl), List.append_nil]
  obtain rfl : digits = digits' := by rw [← htake hdigits hrest, h, htake hdigits' hrest']
  exact ⟨rfl, List.append_cancel_left h⟩

theorem head?_exponentText {e : Option Exponent} : ∀ c ∈ (exponentText e).head?, c = 'E' := by
  cases e with
  | none => simp [exponentText]
  | some e => simp [exponentText]

theorem exponentText_injective : Function.Injective exponentText := by
  intro e e' h
  cases e with
  | none =>
    cases e' with
    | none => rfl
    | some e' => cases h
  | some e =>
    cases e' with
    | none => cases h
    | some e' =>
      obtain ⟨hsign, hdigits⟩ := List.cons.inj (List.cons.inj h).2
      refine congrArg some (Exponent.ext ?_ hdigits)
      revert hsign
      cases e.negative <;> cases e'.negative <;> decide

/-- What is behind the digits before the point does not begin with a digit. -/
theorem head?_fractionText_append {fraction : List Char} {e : Option Exponent} :
    ∀ c ∈ (fractionText fraction ++ exponentText e).head?, ¬ c.isDigit := by
  intro c hc
  rw [fractionText] at hc
  split at hc
  · rw [head?_exponentText c hc]
    decide
  · obtain rfl : '.' = c := by simpa using hc
    decide

theorem fractionText_append_inj {fraction fraction' : List Char} {e e' : Option Exponent}
    (hfraction : ∀ c ∈ fraction, c.isDigit) (hfraction' : ∀ c ∈ fraction', c.isDigit)
    (h : fractionText fraction ++ exponentText e = fractionText fraction' ++ exponentText e') :
    fraction = fraction' ∧ e = e' := by
  -- an exponent does not begin with a point
  have hmark {e : Option Exponent} {rest : List Char} : exponentText e ≠ '.' :: rest := by
    intro heq
    have := head?_exponentText (e := e) '.' (by rw [heq]; rfl)
    revert this
    decide
  have hdigit {e : Option Exponent} : ∀ c ∈ (exponentText e).head?, ¬ c.isDigit := by
    intro c hc
    rw [head?_exponentText c hc]
    decide
  simp only [fractionText] at h
  by_cases hnil : fraction = [] <;> by_cases hnil' : fraction' = [] <;>
    simp only [hnil, hnil', if_true, if_false, List.nil_append, List.cons_append] at h
  · exact ⟨hnil.trans hnil'.symm, exponentText_injective h⟩
  · exact absurd h hmark
  · exact absurd h.symm hmark
  · obtain ⟨hdigits, hexponent⟩ :=
      digits_append_inj hfraction hfraction' hdigit hdigit (List.cons.inj h).2
    exact ⟨hdigits, exponentText_injective hexponent⟩

theorem head?_whole_append_ne (m : Numeral) (rest : List Char) {c : Char} (hc : ¬ c.isDigit) :
    (m.whole ++ rest).head? ≠ some c := by
  intro hhead
  cases hwhole : m.whole with
  | nil => exact m.nonempty hwhole
  | cons digit digits =>
    have hdigit := m.whole_all digit (by rw [hwhole]; exact List.mem_cons_self)
    rw [hwhole] at hhead
    exact hc (Option.some.inj hhead ▸ hdigit)

/-- **Different numerals have different texts.** -/
theorem text_injective : Function.Injective text := by
  intro m m' h
  obtain ⟨hnegative, hrest⟩ := signText_append_inj (m.head?_whole_append_ne _ (by decide))
    (m'.head?_whole_append_ne _ (by decide)) h
  obtain ⟨hwhole, hrest⟩ := digits_append_inj m.whole_all m'.whole_all head?_fractionText_append
    head?_fractionText_append hrest
  obtain ⟨hfraction, hexponent⟩ := fractionText_append_inj m.fraction_all m'.fraction_all hrest
  exact Numeral.ext hnegative hwhole hfraction hexponent

end Numeral

/-! ## 2. Decimals as numerals -/

namespace Decimal

variable {d : Decimal}

theorem head?_toDigits {n : Nat} (hn : 0 < n) : (Nat.toDigits 10 n).head? ≠ some '0' := by
  induction n using Nat.strongRecOn with
  | _ n ih =>
    rcases Nat.lt_or_ge n 10 with hlt | hge
    · rw [Nat.toDigits_of_lt_base hlt]
      interval_cases n <;> decide
    · rw [Nat.toDigits_of_base_le (by decide) hge, List.head?_append_of_ne_nil _ Nat.toDigits_ne_nil]
      exact ih (n / 10) (by omega) (by omega)

theorem getLast?_toDigits {n : Nat} (hn : n % 10 ≠ 0) : (Nat.toDigits 10 n).getLast? ≠ some '0' := by
  have hlt : n % 10 < 10 := Nat.mod_lt n (by decide)
  have hdigit : Nat.digitChar (n % 10) ≠ '0' := by
    generalize n % 10 = digit at hn hlt
    interval_cases digit <;> first | exact absurd rfl hn | decide
  have hlast : (Nat.toDigits 10 n).getLast? = some (Nat.digitChar (n % 10)) := by
    rcases Nat.lt_or_ge n 10 with hlt | hge
    · rw [Nat.toDigits_of_lt_base hlt, Nat.mod_eq_of_lt hlt]
      rfl
    · rw [Nat.toDigits_of_base_le (by decide) hge, List.getLast?_concat]
  rw [hlast]
  exact fun h => hdigit (Option.some.inj h)

theorem isDigit_of_mem_digits (d : Decimal) : ∀ c ∈ d.digits, c.isDigit :=
  fun _ hc => Nat.isDigit_of_mem_toDigits (by decide) (by decide) hc

theorem digits_ne_nil (d : Decimal) : d.digits ≠ [] :=
  Nat.toDigits_ne_nil

/-- The digits before the point. -/
def wholeDigits (d : Decimal) : List Char :=
  match d.exponent with
  | .ofNat e => d.digits.take (e + 1) ++ List.replicate (e + 1 - d.digits.length) '0'
  | .negSucc _ => ['0']

/-- The digits behind the point. -/
def fractionDigits (d : Decimal) : List Char :=
  match d.exponent with
  | .ofNat e => d.digits.drop (e + 1)
  | .negSucc e => List.replicate e '0' ++ d.digits

theorem isDigit_of_mem_replicate {k : Nat} : ∀ c ∈ List.replicate k '0', c.isDigit := by
  intro c hc
  rw [List.eq_of_mem_replicate hc]
  decide

/-- A decimal with its point where the exponent puts it. -/
def positionalNumeral (negative : Bool) (d : Decimal) : Numeral where
  negative := negative
  whole := d.wholeDigits
  fraction := d.fractionDigits
  exponent := none
  nonempty := by
    rw [wholeDigits]
    split
    · simp [d.digits_ne_nil]
    · simp
  whole_all := by
    rw [wholeDigits]
    split
    · intro c hc
      rcases List.mem_append.mp hc with hc | hc
      · exact d.isDigit_of_mem_digits c (List.mem_of_mem_take hc)
      · exact isDigit_of_mem_replicate c hc
    · exact isDigit_of_mem_replicate (k := 1)
  fraction_all := by
    rw [fractionDigits]
    split
    · exact fun c hc => d.isDigit_of_mem_digits c (List.mem_of_mem_drop hc)
    · intro c hc
      rcases List.mem_append.mp hc with hc | hc
      · exact isDigit_of_mem_replicate c hc
      · exact d.isDigit_of_mem_digits c hc

/-- An exponent of two digits or more. -/
def exponentNumeral (e : Int) : Numeral.Exponent where
  negative := decide (e < 0)
  digits := List.replicate (2 - (Nat.toDigits 10 e.natAbs).length) '0' ++ Nat.toDigits 10 e.natAbs
  all := by
    intro c hc
    rcases List.mem_append.mp hc with hc | hc
    · exact isDigit_of_mem_replicate c hc
    · exact Nat.isDigit_of_mem_toDigits (by decide) (by decide) hc

/-- A decimal with its point behind the first digit, and its exponent. -/
def scientificNumeral (negative : Bool) (d : Decimal) : Numeral where
  negative := negative
  whole := d.digits.take 1
  fraction := d.digits.drop 1
  exponent := some (exponentNumeral d.exponent)
  nonempty := by simp [d.digits_ne_nil]
  whole_all c hc := d.isDigit_of_mem_digits c (List.mem_of_mem_take hc)
  fraction_all c hc := d.isDigit_of_mem_digits c (List.mem_of_mem_drop hc)

/-! ### Their texts -/

theorem fraction_nil_eq (digits : List Char) : fraction [] digits = Numeral.fractionText digits := by
  cases digits with
  | nil => rfl
  | cons digit digits => rfl

theorem text_positionalNumeral (negative : Bool) (d : Decimal) :
    (d.positionalNumeral negative).text = Numeral.signText negative ++ d.positional false := by
  have hbody : d.positional false = d.wholeDigits ++ Numeral.fractionText d.fractionDigits := by
    rw [positional, wholeDigits, fractionDigits]
    cases d.exponent with
    | ofNat e =>
      have hlength : e + 1 - (d.digits.take (e + 1)).length = e + 1 - d.digits.length := by
        rw [List.length_take]
        omega
      simp only [hlength, Bool.false_eq_true, if_false, fraction_nil_eq]
    | negSucc e =>
      simp only [Bool.false_eq_true, if_false, fraction_nil_eq]
      rfl
  simp only [Numeral.text, positionalNumeral, Numeral.exponentText, List.append_nil, hbody]

theorem exponentText_exponentNumeral (e : Int) :
    Numeral.exponentText (some (exponentNumeral e)) = NumberStyle.display.exponentText e := by
  by_cases he : e < 0
  · simp [Numeral.exponentText, exponentNumeral, NumberStyle.exponentText, NumberStyle.display, he]
  · simp [Numeral.exponentText, exponentNumeral, NumberStyle.exponentText, NumberStyle.display, he]

theorem text_scientificNumeral (negative : Bool) (d : Decimal) :
    (d.scientificNumeral negative).text = Numeral.signText negative ++
      (d.significandText ++ NumberStyle.display.exponentText d.exponent) := by
  simp only [Numeral.text, scientificNumeral, significandText, fraction_nil_eq, List.append_assoc,
    exponentText_exponentNumeral]

/-! ### What they denote -/

theorem ofDigitChars_digits (d : Decimal) : Nat.ofDigitChars 10 d.digits 0 = d.coefficient :=
  Nat.ofDigitChars_ten_toDigits

/-- The digits of a positional decimal are those of its coefficient, with zeros where the point is
not next to them. -/
theorem ofDigitChars_positional (d : Decimal) :
    (Nat.ofDigitChars 10 (d.wholeDigits ++ d.fractionDigits) 0 : ℚ) *
      10 ^ (-(d.fractionDigits.length : Int)) = d.value := by
  have hlength : (d.digits.length : Int) = d.exponent - d.power + 1 := by
    rw [exponent, digits, digitCount]
    omega
  simp only [wholeDigits, fractionDigits]
  cases he : d.exponent with
  | ofNat e =>
    rw [he] at hlength
    dsimp only
    rcases Nat.lt_or_ge (e + 1) d.digits.length with hlt | hge
    · rw [Nat.sub_eq_zero_of_le hlt.le, List.replicate_zero, List.append_nil, List.take_append_drop,
        ofDigitChars_digits, List.length_drop, value]
      congr 2
      simp only [Int.ofNat_eq_natCast] at hlength
      omega
    · have hpower : d.power = (e + 1 - d.digits.length : Nat) := by
        simp only [Int.ofNat_eq_natCast] at hlength
        omega
      rw [List.take_of_length_le hge, List.drop_of_length_le hge, List.append_nil,
        Nat.ofDigitChars_append, Nat.ofDigitChars_replicate_zero, ofDigitChars_digits, value, hpower]
      push_cast
      simp [mul_comm]
  | negSucc e =>
    rw [he] at hlength
    have hpower : d.power = -((List.replicate e '0' ++ d.digits).length : Int) := by
      rw [List.length_append, List.length_replicate]
      omega
    have hzeros : Nat.ofDigitChars 10 (['0'] ++ (List.replicate e '0' ++ d.digits)) 0 =
        d.coefficient := by
      rw [List.singleton_append, ← List.cons_append, ← List.replicate_succ, Nat.ofDigitChars_append,
        Nat.ofDigitChars_replicate_zero, Nat.mul_zero, ofDigitChars_digits]
    rw [value, hpower]
    dsimp only
    rw [hzeros]

theorem value_positionalNumeral (negative : Bool) (d : Decimal) :
    (d.positionalNumeral negative).value = (if negative then -1 else 1) * d.value := by
  have hscaling : (d.positionalNumeral negative).scaling = -(d.fractionDigits.length : Int) :=
    zero_sub _
  rw [← ofDigitChars_positional, Numeral.value, hscaling]
  rfl

theorem value_exponentNumeral (e : Int) : (exponentNumeral e).value = e := by
  have hdigits : Nat.ofDigitChars 10 (exponentNumeral e).digits 0 = e.natAbs := by
    rw [exponentNumeral, Nat.ofDigitChars_append, Nat.ofDigitChars_replicate_zero, Nat.mul_zero,
      Nat.ofDigitChars_ten_toDigits]
  rw [Numeral.Exponent.value, hdigits]
  simp only [exponentNumeral, decide_eq_true_eq]
  split <;> omega

theorem value_scientificNumeral (negative : Bool) (d : Decimal) :
    (d.scientificNumeral negative).value = (if negative then -1 else 1) * d.value := by
  have hscaling : (d.scientificNumeral negative).scaling = d.power := by
    have hpos := digitCount_pos d.coefficient
    simp only [Numeral.scaling, scientificNumeral, Option.elim_some, value_exponentNumeral,
      List.length_drop, exponent, digits]
    rw [digitCount] at hpos ⊢
    omega
  have hdigits : (d.scientificNumeral negative).whole ++ (d.scientificNumeral negative).fraction =
      d.digits :=
    List.take_append_drop 1 d.digits
  rw [Numeral.value, hscaling, hdigits, ofDigitChars_digits]
  rfl

/-! ### No zero to leave out -/

/-- Only zero has a zero at its front or at its end. -/
structure Normal (d : Decimal) : Prop where
  head : d.digits.head? = some '0' → d = ⟨0, 0⟩
  last : d.digits.getLast? = some '0' → d = ⟨0, 0⟩

theorem Normal.of_mod (hd : d.coefficient % 10 = 0 → d = ⟨0, 0⟩) : d.Normal where
  head h := by
    refine hd ?_
    by_contra hmod
    exact head?_toDigits (by omega) h
  last h := by
    refine hd ?_
    by_contra hmod
    exact getLast?_toDigits hmod h

theorem getLast?_drop_digits (hd : d.Normal) (hzero : d ≠ ⟨0, 0⟩) (k : Nat) :
    (d.digits.drop k).getLast? ≠ some '0' := by
  rw [List.getLast?_drop]
  split
  · simp
  · exact fun h => hzero (hd.last h)

theorem tidy_positionalNumeral (negative : Bool) (hd : d.Normal) :
    (d.positionalNumeral negative).Tidy := by
  by_cases hzero : d = ⟨0, 0⟩
  · subst hzero
    have hfraction : (fractionDigits ⟨0, 0⟩).getLast? ≠ some '0' := by decide
    exact ⟨fun _ => rfl, hfraction, by rintro e ⟨⟩⟩
  · refine ⟨?_, ?_, by rintro e ⟨⟩⟩
    · change d.wholeDigits.head? = some '0' → d.wholeDigits = ['0']
      rw [wholeDigits]
      split
      · intro hhead
        refine absurd (hd.head ?_) hzero
        rw [List.head?_append_of_ne_nil _ (by simp [d.digits_ne_nil])] at hhead
        rwa [List.head?_take, if_neg (Nat.succ_ne_zero _)] at hhead
      · exact fun _ => rfl
    · change d.fractionDigits.getLast? ≠ some '0'
      rw [fractionDigits]
      split
      · exact getLast?_drop_digits hd hzero _
      · rw [List.getLast?_append_of_ne_nil _ d.digits_ne_nil]
        exact fun h => hzero (hd.last h)

/-- An exponent is padded to two digits, and no further. -/
theorem length_exponentNumeral (e : Int) : 2 ≤ (exponentNumeral e).digits.length ∧
    ((exponentNumeral e).digits.head? = some '0' → (exponentNumeral e).digits.length = 2) := by
  have hpos : 0 < (Nat.toDigits 10 e.natAbs).length := Nat.length_toDigits_pos
  have hlength : (exponentNumeral e).digits.length =
      2 - (Nat.toDigits 10 e.natAbs).length + (Nat.toDigits 10 e.natAbs).length := by
    rw [exponentNumeral, List.length_append, List.length_replicate]
  refine ⟨by omega, fun hhead => ?_⟩
  by_contra hlong
  have hnone : 2 - (Nat.toDigits 10 e.natAbs).length = 0 := by omega
  change (List.replicate (2 - (Nat.toDigits 10 e.natAbs).length) '0' ++ _).head? = some '0' at hhead
  rw [hnone, List.replicate_zero, List.nil_append] at hhead
  have hzero : e.natAbs = 0 := by
    by_contra hne
    exact head?_toDigits (Nat.pos_of_ne_zero hne) hhead
  rw [hzero] at hnone
  revert hnone
  decide

theorem tidy_scientificNumeral (negative : Bool) (hd : d.Normal) :
    (d.scientificNumeral negative).Tidy := by
  refine ⟨?_, ?_, ?_⟩
  · change (d.digits.take 1).head? = some '0' → d.digits.take 1 = ['0']
    cases hdigits : d.digits with
    | nil => exact absurd hdigits d.digits_ne_nil
    | cons digit digits =>
      rintro ⟨⟩
      rfl
  · by_cases hzero : d = ⟨0, 0⟩
    · subst hzero
      have hfraction : ((digits ⟨0, 0⟩).drop 1).getLast? ≠ some '0' := by decide
      exact hfraction
    · exact getLast?_drop_digits hd hzero 1
  · rintro e ⟨⟩
    exact length_exponentNumeral d.exponent

/-! ### The choice between the two forms -/

/-- A decimal as a numeral, positional or not as its exponent calls for. -/
def numeral (negative : Bool) (d : Decimal) : Numeral :=
  if -5 ≤ d.exponent ∧ d.exponent < 15 then d.positionalNumeral negative
  else d.scientificNumeral negative

theorem text_numeral (negative : Bool) (d : Decimal) :
    (d.numeral negative).text = Numeral.signText negative ++ NumberStyle.display.decimalText d := by
  have hrange : NumberStyle.display.positionalFrom = -5 ∧ NumberStyle.display.positionalBelow = 15 :=
    ⟨rfl, rfl⟩
  simp only [numeral, NumberStyle.decimalText, hrange.1, hrange.2]
  split
  · exact d.text_positionalNumeral negative
  · exact d.text_scientificNumeral negative

theorem negative_numeral (negative : Bool) (d : Decimal) : (d.numeral negative).negative = negative := by
  rw [numeral]
  split <;> rfl

theorem exponent_numeral_eq_none_iff (negative : Bool) (d : Decimal) :
    (d.numeral negative).exponent = none ↔ -5 ≤ d.exponent ∧ d.exponent < 15 := by
  rw [numeral]
  split
  · rename_i hrange
    exact iff_of_true rfl hrange
  · rename_i hrange
    exact iff_of_false (Option.some_ne_none _) hrange

/-- The form with an exponent has one digit before the point. -/
theorem numeral_of_mem_exponent {negative : Bool} {e : Numeral.Exponent}
    (he : e ∈ (d.numeral negative).exponent) :
    (d.numeral negative).whole = d.digits.take 1 ∧ (d.numeral negative).fraction = d.digits.drop 1 ∧
      e.value = d.exponent := by
  rw [numeral] at he ⊢
  split at he
  · cases he
  · rename_i hrange
    rw [if_neg hrange]
    cases he
    exact ⟨rfl, rfl, value_exponentNumeral d.exponent⟩

/-- Without digits behind the point, there is no point. -/
theorem fraction_numeral_of_power (negative : Bool) (hexponent : (d.numeral negative).exponent = none)
    (hpower : 0 ≤ d.power) : (d.numeral negative).fraction = [] := by
  rw [numeral, if_pos ((exponent_numeral_eq_none_iff negative d).mp hexponent)]
  change d.fractionDigits = []
  have hpos := digitCount_pos d.coefficient
  rw [fractionDigits]
  split
  · rename_i e he
    rw [exponent] at he
    refine List.drop_of_length_le ?_
    simp only [digits, Int.ofNat_eq_natCast] at he ⊢
    rw [digitCount] at he
    omega
  · rename_i e he
    rw [exponent] at he
    omega

theorem value_numeral (negative : Bool) (d : Decimal) :
    (d.numeral negative).value = (if negative then -1 else 1) * d.value := by
  rw [numeral]
  split
  · exact d.value_positionalNumeral negative
  · exact d.value_scientificNumeral negative

theorem tidy_numeral (negative : Bool) (hd : d.Normal) : (d.numeral negative).Tidy := by
  rw [numeral]
  split
  · exact tidy_positionalNumeral negative hd
  · exact tidy_scientificNumeral negative hd

end Decimal

/-! ## 3. The text of a number -/

namespace Binary64

variable {x y : Binary64}

theorem finite_of_not (hnan : ¬ x.isNaN) (hinf : ¬ x.isInfinite) :
    x.magnitude < infinityMagnitude := by
  simp only [isNaN, isInfinite, decide_eq_true_eq] at hnan hinf
  omega

theorem shortestDecimal_normal (hfinite : x.magnitude < infinityMagnitude) :
    x.shortestDecimal.Normal :=
  .of_mod (shortestDecimal_of_mod hfinite)

theorem render_of_finite (hnan : ¬ x.isNaN) (hinf : ¬ x.isInfinite) :
    x.render = .ofList (x.shortestDecimal.numeral x.negative).text := by
  rw [render, NumberStyle.write, if_neg hnan, if_neg hinf, Decimal.text_numeral]
  rfl

theorem render_of_infinite (hnan : ¬ x.isNaN) (hinf : x.isInfinite) :
    x.render = .ofList (Numeral.signText x.negative ++ "Infinity".toList) := by
  rw [render, NumberStyle.write, if_neg hnan, if_pos hinf]
  rfl

theorem eq_of_parts (hnegative : x.negative = y.negative) (hmagnitude : x.magnitude = y.magnitude) :
    x = y := by
  rw [← ofParts_negative_magnitude x, ← ofParts_negative_magnitude y, hnegative, hmagnitude]

/-- No numeral is the text of an infinity. -/
theorem text_ne_infinity (m : Numeral) (negative : Bool) :
    m.text ≠ Numeral.signText negative ++ "Infinity".toList := by
  intro h
  obtain ⟨-, hrest⟩ := Numeral.signText_append_inj (m.head?_whole_append_ne _ (by decide))
    (by decide +kernel) h
  have hhead := m.head?_whole_append_ne
    (Numeral.fractionText m.fraction ++ Numeral.exponentText m.exponent) (c := 'I') (by decide)
  rw [hrest] at hhead
  exact hhead rfl

/-- **The text of a number tells which number it is.** -/
theorem render_inj (hx : ¬ x.isNaN) (hy : ¬ y.isNaN) (h : x.render = y.render) : x = y := by
  by_cases hxinf : x.isInfinite <;> by_cases hyinf : y.isInfinite
  · rw [render_of_infinite hx hxinf, render_of_infinite hy hyinf] at h
    obtain ⟨hnegative, -⟩ := Numeral.signText_append_inj (by decide +kernel) (by decide +kernel)
      (String.ofList_injective h)
    exact eq_of_parts hnegative ((of_decide_eq_true hxinf).trans (of_decide_eq_true hyinf).symm)
  · rw [render_of_infinite hx hxinf, render_of_finite hy hyinf] at h
    exact absurd (String.ofList_injective h).symm (text_ne_infinity _ _)
  · rw [render_of_finite hx hxinf, render_of_infinite hy hyinf] at h
    exact absurd (String.ofList_injective h) (text_ne_infinity _ _)
  · rw [render_of_finite hx hxinf, render_of_finite hy hyinf] at h
    have hnumeral := Numeral.text_injective (String.ofList_injective h)
    have hnegative : x.negative = y.negative := by
      rw [← Decimal.negative_numeral x.negative x.shortestDecimal, hnumeral, Decimal.negative_numeral]
    have hvalue : x.shortestDecimal.value = y.shortestDecimal.value := by
      have hsign : (if y.negative then -1 else 1 : ℚ) ≠ 0 := by split <;> norm_num
      have := congrArg Numeral.value hnumeral
      rwa [Decimal.value_numeral, Decimal.value_numeral, hnegative, mul_right_inj' hsign] at this
    -- one decimal is read as one number only
    have hxreads := (shortestDecimal_shortest (finite_of_not hx hxinf)).reads
    have hyreads := (shortestDecimal_shortest (finite_of_not hy hyinf)).reads
    rw [Decimal.ReadsAs, hvalue] at hxreads
    exact eq_of_parts hnegative (hxreads.unique hyreads)

/-- **Numbers are written faithfully.**  Take any number that is not a NaN.

* An infinity is `Infinity` or `-Infinity`.
* The text of a finite number is a numeral that has the sign of the number and denotes, with that
  sign, the shortest decimal that is read as the number.  The numeral is positional if the exponent
  of the decimal is from -5 to 14; otherwise it has one digit before the point, the other ones
  behind it, and that exponent with a sign and at least two digits.  No zero could be left out, and
  a positional integer has no fraction.
* Different numbers have different texts, the two zeros included. -/
theorem render_faithful :
    (∀ x : Binary64, ¬ x.isNaN →
      (x.isInfinite → x.render = if x.negative then "-Infinity" else "Infinity") ∧
      (¬ x.isInfinite → ∃ (d : Decimal) (m : Numeral), x.Shortest d ∧ x.render = .ofList m.text ∧
        m.negative = x.negative ∧ m.value = (if x.negative then -1 else 1) * d.value ∧ m.Tidy ∧
        (m.exponent = none ↔ -5 ≤ d.exponent ∧ d.exponent < 15) ∧
        (∀ e ∈ m.exponent, m.whole = d.digits.take 1 ∧ m.fraction = d.digits.drop 1 ∧
          e.value = d.exponent) ∧
        (m.exponent = none → ∀ n : Int, x.value = n → m.fraction = []))) ∧
    ∀ x y : Binary64, ¬ x.isNaN → ¬ y.isNaN → x.bits ≠ y.bits → x.render ≠ y.render := by
  constructor
  · intro x hnan
    constructor
    · intro hinf
      rw [render_of_infinite hnan hinf]
      cases x.negative <;> decide +kernel
    · intro hinf
      have hfinite := finite_of_not hnan hinf
      refine ⟨x.shortestDecimal, x.shortestDecimal.numeral x.negative,
        shortestDecimal_shortest hfinite, render_of_finite hnan hinf, Decimal.negative_numeral _ _,
        Decimal.value_numeral _ _, Decimal.tidy_numeral _ (shortestDecimal_normal hfinite),
        Decimal.exponent_numeral_eq_none_iff _ _, fun e he => Decimal.numeral_of_mem_exponent he, ?_⟩
      intro hexponent n hn
      exact Decimal.fraction_numeral_of_power _ hexponent (shortestDecimal_power_nonneg hfinite hn)
  · intro x y hx hy hne h
    exact hne (congrArg bits (render_inj hx hy h))

/-- Fifteen units of the eighth place behind the point, or what is nearest to them. -/
def smallFraction : Binary64 :=
  ⟨0x3e8421f5f40d8376⟩

/-- Its text is the shortest there is, and the zeros differ in their sign. -/
theorem smallFraction_faithful :
    (∃ (d : Decimal) (m : Numeral), smallFraction.Shortest d ∧ "1.5E-07" = .ofList m.text ∧
      m.value = d.value ∧ m.Tidy) ∧
    (ofParts false 0).render ≠ (ofParts true 0).render := by
  obtain ⟨hfaithful, hdiffer⟩ := render_faithful
  constructor
  · obtain ⟨d, m, hshortest, htext, -, hvalue, htidy, -⟩ :=
      (hfaithful smallFraction (by decide)).2 (by decide)
    have hrender : smallFraction.render = "1.5E-07" := by decide +kernel
    have hnegative : smallFraction.negative = false := by decide
    rw [hnegative, if_neg Bool.false_ne_true, one_mul] at hvalue
    exact ⟨d, m, hshortest, hrender.symm.trans htext, hvalue, htidy⟩
  · exact hdiffer _ _ (by decide) (by decide) (by decide)

end Binary64

end BytecodeVm
