/- # How long the text of a number is

The text of a number is short enough to be counted by two bytes.  The bounds are generous: all that
matters is that a number has some thousand digits at most, whichever decimal is chosen for it.

* `Binary64.units_lt`, `Binary64.decimalExponent_bounds`: how large and how small numbers are;
* `Decimal.exponent_trim`: trailing zeros do not count;
* `Binary64.length_encode_render_le`: the bound on the text.
-/
import BytecodeVm.Binary64.Text
import BytecodeVm.Proofs.Text.Utf8
import Mathlib.Algebra.Group.Nat.Defs
import Mathlib.Tactic.Common

namespace BytecodeVm

/-! ## 1. Digits -/

namespace Decimal

theorem digitCount_le {n k : Nat} (hk : 0 < k) (h : n < 10 ^ k) : digitCount n ≤ k :=
  (Nat.length_toDigits_le_iff (by decide) hk).mpr h

theorem digitCount_le_succ {n k : Nat} (h : n ≤ 10 ^ k) : digitCount n ≤ k + 1 :=
  digitCount_le (Nat.succ_pos k)
    (Nat.lt_of_le_of_lt h (Nat.pow_lt_pow_right (by decide) (Nat.lt_succ_self k)))

theorem digitCount_pos (n : Nat) : 0 < digitCount n :=
  Nat.length_toDigits_pos

theorem digitCount_mono {m n : Nat} (h : m ≤ n) : digitCount m ≤ digitCount n := by
  refine digitCount_le (digitCount_pos n) (Nat.lt_of_le_of_lt h ?_)
  exact (Nat.length_toDigits_le_iff (by decide) (digitCount_pos n)).mp (Nat.le_refl _)

/-- Without its last digit, a number has one digit less. -/
theorem digitCount_div_ten {n : Nat} (h : 10 ≤ n) : digitCount n = digitCount (n / 10) + 1 := by
  rw [digitCount, Nat.toDigits_of_base_le (by decide) h, List.length_append]
  rfl

theorem coefficient_trim_le (d : Decimal) : d.trim.coefficient ≤ d.coefficient := by
  fun_induction trim d with
  | case1 d h ih => exact Nat.le_trans ih (Nat.div_le_self _ _)
  | case2 d h => exact Nat.le_refl _

/-- **Trailing zeros do not count:** the first digit stays where it is. -/
theorem exponent_trim (d : Decimal) : d.trim.exponent = d.exponent := by
  fun_induction trim d with
  | case1 d h ih =>
    have hten : 10 ≤ d.coefficient := by omega
    rw [ih]
    simp only [exponent, digitCount_div_ten hten]
    omega
  | case2 d h => rfl

end Decimal

/-! ## 2. How large and how small numbers are -/

namespace Binary64

theorem two_pow_le_ten_pow {a k : Nat} (h : a ≤ 3 * k) : 2 ^ a ≤ 10 ^ k := by
  calc
    2 ^ a ≤ 2 ^ (3 * k) := Nat.pow_le_pow_right (by decide) h
    _ = 8 ^ k := Nat.pow_mul ..
    _ ≤ 10 ^ k := Nat.pow_le_pow_left (by decide) k

theorem one_shiftLeft_bounds (k : Nat) : 0 < 1 <<< k ∧ 1 <<< k ≤ 10 ^ k := by
  rw [Nat.one_shiftLeft]
  exact ⟨Nat.two_pow_pos k, two_pow_le_ten_pow (by omega)⟩

theorem scale_le (x : Binary64) : x.scale ≤ 2047 := by
  have hmagnitude : x.magnitude < 2 ^ 63 := Nat.mod_lt _ (by decide)
  have hbinade : binade = 2 ^ 52 := by decide
  rw [scale, hbinade]
  omega

theorem significand_lt (x : Binary64) : x.significand < 2 ^ 53 := by
  have hbinade : binade = 2 ^ 52 := by decide
  rw [significand, hbinade]
  split <;> omega

theorem units_lt (x : Binary64) : x.units < 10 ^ 700 := by
  have hscale := x.scale_le
  calc
    x.units = x.significand * 2 ^ x.scale := Nat.shiftLeft_eq _ _
    _ < 2 ^ 53 * 2 ^ x.scale := Nat.mul_lt_mul_of_pos_right x.significand_lt (Nat.two_pow_pos _)
    _ = 2 ^ (53 + x.scale) := (Nat.pow_add ..).symm
    _ ≤ 10 ^ 700 := two_pow_le_ten_pow (by omega)

/-- A first digit is less than 700 places before the point, and at most 1074 behind it. -/
theorem decimalExponent_bounds (x : Binary64) :
    -1074 ≤ x.decimalExponent ∧ x.decimalExponent < 700 := by
  simp only [decimalExponent]
  split
  · have hle : Decimal.digitCount (x.units / unitsPerOne) ≤ 700 :=
      Decimal.digitCount_le (by decide) (Nat.lt_of_le_of_lt (Nat.div_le_self _ _) x.units_lt)
    omega
  · obtain ⟨hpos, hone⟩ := one_shiftLeft_bounds 1074
    have hlt : (unitsPerOne - 1) / x.units < 10 ^ 1074 := by
      calc
        (unitsPerOne - 1) / x.units ≤ unitsPerOne - 1 := Nat.div_le_self _ _
        _ < unitsPerOne := Nat.sub_lt hpos (by decide)
        _ ≤ 10 ^ 1074 := hone
    have hle := Decimal.digitCount_le (by decide) hlt
    omega

theorem mul_ten_pow_lt {n a b k : Nat} (h : n < 10 ^ a) (hk : a + b ≤ k) :
    n * 10 ^ b < 10 ^ k := by
  calc
    n * 10 ^ b < 10 ^ a * 10 ^ b := Nat.mul_lt_mul_of_pos_right h (Nat.pow_pos (by decide))
    _ = 10 ^ (a + b) := (Nat.pow_add ..).symm
    _ ≤ 10 ^ k := Nat.pow_le_pow_right (by decide) hk

theorem ratioAt_lt (x : Binary64) {power : Int} (h : -1841 ≤ power) :
    (x.ratioAt power).1 / (x.ratioAt power).2 < 10 ^ 2541 := by
  cases power with
  | ofNat p =>
    calc
      x.units / _ ≤ x.units := Nat.div_le_self _ _
      _ = x.units * 10 ^ 0 := (Nat.mul_one _).symm
      _ < 10 ^ 2541 := mul_ten_pow_lt x.units_lt (by decide)
  | negSucc p =>
    calc
      x.units * 10 ^ (p + 1) / unitsPerOne ≤ x.units * 10 ^ (p + 1) := Nat.div_le_self _ _
      _ < 10 ^ 2541 := mul_ten_pow_lt x.units_lt (by omega)

end Binary64

/-! ## 3. The chosen decimal -/

/-- A decimal of moderate length and size. -/
structure Decimal.Moderate (d : Decimal) : Prop where
  length : digitCount d.coefficient ≤ 2542
  exponent : -1841 ≤ d.exponent ∧ d.exponent ≤ 3241

namespace Decimal.Moderate

theorem of_power {d : Decimal} (hc : d.coefficient ≤ 10 ^ 2541) (hp : -1841 ≤ d.power)
    (hp' : d.power < 700) : d.Moderate := by
  have hlength : digitCount d.coefficient ≤ 2541 + 1 := digitCount_le_succ hc
  have hpos := digitCount_pos d.coefficient
  refine ⟨hlength, ?_⟩
  simp only [Decimal.exponent]
  omega

theorem trim {d : Decimal} (h : d.Moderate) : d.trim.Moderate where
  length := Nat.le_trans (digitCount_mono d.coefficient_trim_le) h.length
  exponent := by
    rw [exponent_trim]
    exact h.exponent

end Decimal.Moderate

namespace Binary64

/-- A hit on a grid is one of the two multiples around the number. -/
theorem decimalAt?_some {x : Binary64} {power : Int} {d : Decimal}
    (h : x.decimalAt? power = some d) :
    d.power = power ∧ d.coefficient ≤ (x.ratioAt power).1 / (x.ratioAt power).2 + 1 := by
  simp only [decimalAt?] at h
  generalize (x.ratioAt power).1 / (x.ratioAt power).2 = quotient at h ⊢
  have hd : d = ⟨quotient, power⟩ ∨ d = ⟨quotient + 1, power⟩ := by
    grind
  rcases hd with rfl | rfl
  · exact ⟨rfl, Nat.le_succ _⟩
  · exact ⟨rfl, Nat.le_refl _⟩

theorem decimalBelow_moderate (x : Binary64) {tries : Nat} {power : Int}
    (h : -1841 ≤ power - tries) (h' : power < 700) : (x.decimalBelow tries power).Moderate := by
  induction tries generalizing power with
  | zero =>
    rw [decimalBelow]
    exact .of_power (Nat.zero_le _) (by simpa using h) h'
  | succ tries ih =>
    have hpower : -1841 ≤ power := by omega
    rw [decimalBelow]
    cases hat : x.decimalAt? power with
    | none => exact ih (by omega) (by omega)
    | some d =>
      obtain ⟨rfl, hc⟩ := decimalAt?_some hat
      exact .of_power (Nat.le_trans hc (x.ratioAt_lt hpower)) hpower h'

theorem shortestDecimal_moderate (x : Binary64) : x.shortestDecimal.Moderate := by
  obtain ⟨hlow, hhigh⟩ := x.decimalExponent_bounds
  simp only [shortestDecimal]
  split
  · exact .of_power (Nat.zero_le _) (by decide) (by decide)
  · exact (x.decimalBelow_moderate (by omega) hhigh).trim

end Binary64

/-! ## 4. The text -/

namespace Decimal

theorem length_fraction_le (none digits : List Char) :
    (fraction none digits).length ≤ none.length + digits.length + 1 := by
  cases digits with
  | nil => simp [fraction]
  | cons digit rest => simp [fraction]

theorem length_positional_le (d : Decimal) (keepsFraction : Bool) :
    (d.positional keepsFraction).length ≤ d.exponent.natAbs + d.digits.length + 5 := by
  have hnone : (if keepsFraction then ['.', '0'] else []).length ≤ 2 := by
    split <;> decide
  simp only [positional]
  generalize (if keepsFraction then ['.', '0'] else []) = none at hnone ⊢
  split
  · rename_i e he
    have hfraction := length_fraction_le none (d.digits.drop (e + 1))
    simp only [he, List.length_append, List.length_take, List.length_replicate, List.length_drop,
      Int.ofNat_eq_natCast, Int.natAbs_natCast] at hfraction ⊢
    omega
  · rename_i e he
    have hfraction := length_fraction_le none (List.replicate e '0' ++ d.digits)
    simp only [he, List.length_cons, List.length_append, List.length_replicate,
      Int.natAbs_negSucc] at hfraction ⊢
    omega

theorem length_significandText_le (d : Decimal) :
    d.significandText.length ≤ d.digits.length + 2 := by
  have hfraction := length_fraction_le [] (d.digits.drop 1)
  simp only [significandText, List.length_append, List.length_take, List.length_drop,
    List.length_nil] at hfraction ⊢
  omega

end Decimal

namespace NumberStyle

theorem length_exponentText_le (style : NumberStyle) (e : Int) :
    (style.exponentText e).length ≤ style.exponentWidth + e.natAbs + 3 := by
  have hdigits : (Nat.toDigits 10 e.natAbs).length ≤ e.natAbs + 1 :=
    Decimal.digitCount_le_succ (Nat.le_of_lt (Nat.lt_pow_self (by decide)))
  have hsign : (if e < 0 then ['-'] else if style.signsExponent then ['+'] else []).length ≤ 1 := by
    split
    · decide
    · split <;> decide
  simp only [exponentText, List.cons_append, List.length_cons, List.length_append,
    List.length_replicate]
  omega

theorem length_decimalText_le (style : NumberStyle) {d : Decimal} (h : d.Moderate) :
    (style.decimalText d).length ≤ style.exponentWidth + 6000 := by
  have hdigits : d.digits.length ≤ 2542 := h.length
  have hexponent : d.exponent.natAbs ≤ 3241 := by
    have := h.exponent
    omega
  simp only [decimalText]
  split
  · have := d.length_positional_le style.keepsFraction
    omega
  · have := d.length_significandText_le
    have := style.length_exponentText_le d.exponent
    simp only [List.length_append]
    omega

end NumberStyle

/-- **The text of a number is short enough to be counted by two bytes.** -/
theorem Binary64.length_encode_render_le (x : Binary64) :
    (Utf8.encode x.render).length ≤ 65535 := by
  have htext := NumberStyle.display.length_decimalText_le x.shortestDecimal_moderate
  have hwidth : NumberStyle.display.exponentWidth = 2 := rfl
  have hsign : (if x.negative then ['-'] else []).length ≤ 1 := by
    split <;> decide
  simp only [render, NumberStyle.write]
  split
  · decide
  · split
    · refine Nat.le_trans (Utf8.length_encode_ofList_le _) ?_
      have hinfinity : NumberStyle.display.infinity.toList.length = 8 := by decide
      rw [List.length_append, hinfinity]
      omega
    · refine Nat.le_trans (Utf8.length_encode_ofList_le _) ?_
      rw [List.length_append]
      omega

end BytecodeVm
