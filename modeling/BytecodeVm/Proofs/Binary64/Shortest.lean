/- # The shortest decimal

A decimal is read as the nearest number.  What is read as one number lies together: whatever is
between two such decimals, or between one and the number itself, is read as that number too.  So
only the two places next to the number have to be tried on each grid, and the first grid with a hit
has the fewest digits: a decimal with a first digit at another place than the number's would have a
power of ten between itself and the number, and that one is on the first grid.

* `Decimal.value`, `Decimal.ReadsAs`: what a decimal stands for, and what it is read as;
* `Binary64.decimalExponent_spec`, `Binary64.floorAt_spec`: where a number is on a grid;
* `Binary64.isSome_decimalAt?`: a grid with any hit has one next to the number;
* `Binary64.exists_exact`: a number is a decimal of less than 768 digits itself, which ends the
  search;
* `Binary64.shortestDecimal_shortest`: the decimal that is found is read as the number, and none
  with fewer digits is.
-/
import BytecodeVm.Proofs.Binary64.Extent
import BytecodeVm.Proofs.Binary64.Rounding

namespace BytecodeVm

open Binary64

/-! ## 1. What a decimal is read as -/

namespace Decimal

/-- The number that a decimal stands for. -/
def value (d : Decimal) : ℚ :=
  d.coefficient * 10 ^ d.power

theorem toMagnitude_nearestAt (d : Decimal) : ∃ magnitude,
    NearestAt (d.value * unitsPerOne) magnitude ∧
      d.toMagnitude = min infinityMagnitude magnitude := by
  obtain ⟨c, power⟩ := d
  cases power with
  | ofNat p =>
    have hvalue : (c * 10 ^ (Int.ofNat p) : ℚ) * unitsPerOne =
        (c * unitsPerOne * 10 ^ p : Nat) / (1 : Nat) := by
      push_cast
      rw [Int.ofNat_eq_natCast, zpow_natCast, div_one]
      ring
    rw [value, hvalue]
    exact nearestMagnitude_nearestAt _ Nat.one_pos
  | negSucc p =>
    have hvalue : (c * 10 ^ (Int.negSucc p) : ℚ) * unitsPerOne =
        (c * unitsPerOne : Nat) / (10 ^ (p + 1) : Nat) := by
      push_cast
      rw [zpow_negSucc]
      ring
    rw [value, hvalue]
    exact nearestMagnitude_nearestAt _ (Nat.pow_pos (by decide))

/-- The number is the nearest one to the decimal, but for its sign. -/
def ReadsAs (d : Decimal) (x : Binary64) : Prop :=
  NearestAt (d.value * unitsPerOne) x.magnitude

variable {x : Binary64} {d : Decimal}

theorem toMagnitude_eq_iff (hx : x.magnitude < infinityMagnitude) :
    d.toMagnitude = x.magnitude ↔ d.ReadsAs x := by
  obtain ⟨magnitude, hnearest, hmin⟩ := d.toMagnitude_nearestAt
  rw [hmin]
  constructor
  · intro h
    obtain rfl : magnitude = x.magnitude := by omega
    exact hnearest
  · intro h
    rw [hnearest.unique h]
    omega

/-- **What is read as one number lies together.** -/
theorem readsAs_of_between {r r' : ℚ} (h : NearestAt (r * unitsPerOne) x.magnitude)
    (h' : NearestAt (r' * unitsPerOne) x.magnitude) (hle : r ≤ d.value) (hle' : d.value ≤ r') :
    d.ReadsAs x := by
  obtain ⟨magnitude, hnearest, -⟩ := d.toMagnitude_nearestAt
  have hone : (0 : ℚ) ≤ unitsPerOne := Nat.cast_nonneg _
  have hlow := h.mono hnearest (mul_le_mul_of_nonneg_right hle hone)
  have hhigh := hnearest.mono h' (mul_le_mul_of_nonneg_right hle' hone)
  obtain rfl : magnitude = x.magnitude := Nat.le_antisymm hhigh hlow
  exact hnearest

/-! ## 2. Digits -/

theorem lt_ten_pow_digitCount (n : Nat) : n < 10 ^ digitCount n :=
  (Nat.length_toDigits_le_iff (by decide) (digitCount_pos n)).mp (Nat.le_refl _)

theorem ten_pow_le {n : Nat} (hn : 0 < n) : 10 ^ (digitCount n - 1) ≤ n := by
  by_contra hlt
  rw [Nat.not_le] at hlt
  have hpos := digitCount_pos n
  rcases Nat.eq_zero_or_pos (digitCount n - 1) with hzero | hpos'
  · rw [hzero] at hlt
    omega
  · have hle := digitCount_le hpos' hlt
    omega

/-- A decimal begins at its exponent. -/
theorem value_bounds (hd : 0 < d.coefficient) :
    (10 : ℚ) ^ d.exponent ≤ d.value ∧ d.value < 10 ^ (d.exponent + 1) := by
  have hten : (0 : ℚ) < 10 ^ d.power := zpow_pos (by norm_num) _
  have hlow : (10 : ℚ) ^ (digitCount d.coefficient - 1) ≤ d.coefficient := by
    exact_mod_cast ten_pow_le hd
  have hhigh : (d.coefficient : ℚ) < 10 ^ digitCount d.coefficient := by
    exact_mod_cast lt_ten_pow_digitCount d.coefficient
  have hexponent : d.exponent = (digitCount d.coefficient - 1 : Nat) + d.power := by
    have := digitCount_pos d.coefficient
    rw [exponent]
    omega
  have hexponent' : d.exponent + 1 = (digitCount d.coefficient : Nat) + d.power := by
    rw [exponent]
    omega
  rw [hexponent', hexponent, zpow_add₀ (by norm_num), zpow_add₀ (by norm_num), zpow_natCast,
    zpow_natCast, value]
  exact ⟨mul_le_mul_of_nonneg_right hlow hten.le, mul_lt_mul_of_pos_right hhigh hten⟩

/-- Trailing zeros do not count. -/
theorem value_trim (d : Decimal) : d.trim.value = d.value := by
  fun_induction trim d with
  | case1 d h ih =>
    have hdiv : (d.coefficient : ℚ) = (d.coefficient / 10 : Nat) * 10 := by
      exact_mod_cast (Nat.div_mul_cancel (Nat.dvd_of_mod_eq_zero h.2)).symm
    rw [ih, value, value, zpow_add_one₀ (by norm_num), hdiv]
    ring
  | case2 d h => rfl

theorem power_le_trim (d : Decimal) : d.power ≤ d.trim.power := by
  fun_induction trim d with
  | case1 d h ih => exact Int.le_trans (Int.le_add_one (Int.le_refl _)) ih
  | case2 d h => exact Int.le_refl _

theorem trim_ten_pow (k : Nat) (power : Int) : (trim ⟨10 ^ k, power⟩).coefficient = 1 := by
  induction k generalizing power with
  | zero =>
    rw [trim, dif_neg (by simp)]
    rfl
  | succ k ih =>
    have hdiv : 10 ^ (k + 1) / 10 = 10 ^ k := by rw [Nat.pow_succ, Nat.mul_div_cancel _ (by decide)]
    have hmod : 10 ^ (k + 1) % 10 = 0 := by rw [Nat.pow_succ, Nat.mul_mod_left]
    rw [trim, dif_pos ⟨Nat.pow_pos (by decide), hmod⟩]
    simp only [hdiv]
    exact ih _

theorem coefficient_trim (hd : 0 < d.coefficient) :
    0 < d.trim.coefficient ∧ d.trim.coefficient % 10 ≠ 0 := by
  fun_induction trim d with
  | case1 d h ih => exact ih (Nat.div_pos (by omega) (by decide))
  | case2 d h => omega

end Decimal

namespace Binary64

variable {x : Binary64}

/-! ## 3. Numbers on a grid -/

/-- The multiple of `10^power` just below a number, or the number itself. -/
def floorAt (x : Binary64) (power : Int) : Nat :=
  (x.ratioAt power).1 / (x.ratioAt power).2

theorem nearestAt_abs_value (x : Binary64) : NearestAt (|x.value| * unitsPerOne) x.magnitude := by
  have hone : (unitsPerOne : ℚ) ≠ 0 := by exact_mod_cast (by decide : unitsPerOne ≠ 0)
  rw [abs_value, div_mul_cancel₀ _ hone]
  exact nearestAt_unitsAt x.magnitude

theorem ratioAt_eq (x : Binary64) (power : Int) : 0 < (x.ratioAt power).2 ∧
    ((x.ratioAt power).1 : ℚ) / (x.ratioAt power).2 = |x.value| / 10 ^ power := by
  have hone : 0 < unitsPerOne := by decide
  rw [abs_value, ← units_eq]
  cases power with
  | ofNat p =>
    refine ⟨Nat.mul_pos hone (Nat.pow_pos (by decide)), ?_⟩
    change (x.units : ℚ) / (unitsPerOne * 10 ^ p : Nat) = _
    rw [Nat.cast_mul, Nat.cast_pow, Nat.cast_ofNat, Int.ofNat_eq_natCast, zpow_natCast, div_div]
  | negSucc p =>
    refine ⟨hone, ?_⟩
    change ((x.units * 10 ^ (p + 1) : Nat) : ℚ) / unitsPerOne = _
    rw [Nat.cast_mul, Nat.cast_pow, Nat.cast_ofNat, zpow_negSucc, div_inv_eq_mul, div_mul_eq_mul_div]

/-- A number lies between two neighbours on each grid. -/
theorem floorAt_spec (x : Binary64) (power : Int) :
    (⟨x.floorAt power, power⟩ : Decimal).value ≤ |x.value| ∧
      |x.value| < (⟨x.floorAt power + 1, power⟩ : Decimal).value := by
  obtain ⟨hden, hratio⟩ := x.ratioAt_eq power
  have hten : (0 : ℚ) < 10 ^ power := zpow_pos (by norm_num) _
  have hpos : (0 : ℚ) < (x.ratioAt power).2 := by exact_mod_cast hden
  simp only [Decimal.value, floorAt]
  rw [← le_div_iff₀ hten, ← div_lt_iff₀ hten, ← hratio]
  refine ⟨Nat.cast_div_le, ?_⟩
  rw [div_lt_iff₀ hpos]
  exact_mod_cast (Nat.div_lt_iff_lt_mul hden).mp (Nat.lt_succ_self _)

/-- Both neighbours are tried, the one or the other first. -/
theorem decimalAt?_eq (x : Binary64) (power : Int) : ∃ near far : Decimal,
    (near = ⟨x.floorAt power, power⟩ ∧ far = ⟨x.floorAt power + 1, power⟩ ∨
      near = ⟨x.floorAt power + 1, power⟩ ∧ far = ⟨x.floorAt power, power⟩) ∧
    x.decimalAt? power =
      if near.toMagnitude = x.magnitude then some near
      else if far.toMagnitude = x.magnitude then some far
      else none := by
  simp only [decimalAt?]
  by_cases hnear : 2 * ((x.ratioAt power).1 % (x.ratioAt power).2) < (x.ratioAt power).2
  · simp only [hnear, if_true]
    exact ⟨_, _, .inl ⟨rfl, rfl⟩, rfl⟩
  · simp only [hnear, if_false]
    exact ⟨_, _, .inr ⟨rfl, rfl⟩, rfl⟩

/-- A hit is one of the two neighbours, and is read back. -/
theorem decimalAt?_eq_some {power : Int} {d : Decimal} (h : x.decimalAt? power = some d) :
    (d = ⟨x.floorAt power, power⟩ ∨ d = ⟨x.floorAt power + 1, power⟩) ∧
      d.toMagnitude = x.magnitude := by
  obtain ⟨near, far, hsides, heq⟩ := x.decimalAt?_eq power
  grind

theorem decimalAt?_eq_none {power : Int} (h : x.decimalAt? power = none) :
    (⟨x.floorAt power, power⟩ : Decimal).toMagnitude ≠ x.magnitude ∧
      (⟨x.floorAt power + 1, power⟩ : Decimal).toMagnitude ≠ x.magnitude := by
  obtain ⟨near, far, hsides, heq⟩ := x.decimalAt?_eq power
  grind

/-- **A grid with any hit has one next to the number.** -/
theorem isSome_decimalAt? (hx : x.magnitude < infinityMagnitude) {c : Nat} {power : Int}
    (h : (⟨c, power⟩ : Decimal).ReadsAs x) : (x.decimalAt? power).isSome := by
  rw [Option.isSome_iff_ne_none]
  intro hnone
  obtain ⟨hbelow, habove⟩ := decimalAt?_eq_none hnone
  obtain ⟨hfloor, hceil⟩ := x.floorAt_spec power
  rw [Ne, Decimal.toMagnitude_eq_iff hx] at hbelow habove
  have hten : (0 : ℚ) ≤ 10 ^ power := zpow_nonneg (by norm_num) _
  have hmono {a b : Nat} (hab : a ≤ b) :
      (⟨a, power⟩ : Decimal).value ≤ (⟨b, power⟩ : Decimal).value :=
    mul_le_mul_of_nonneg_right (Nat.cast_le.mpr hab) hten
  -- on either side of the number, the neighbour is between it and the hit
  rcases Nat.lt_or_ge (x.floorAt power) c with hlt | hge
  · exact habove (Decimal.readsAs_of_between x.nearestAt_abs_value h hceil.le (hmono hlt))
  · exact hbelow (Decimal.readsAs_of_between h x.nearestAt_abs_value (hmono hge) hfloor)

/-- The first digit of a number is at its exponent. -/
theorem decimalExponent_spec (hx : x.magnitude ≠ 0) :
    (10 : ℚ) ^ x.decimalExponent ≤ |x.value| ∧ |x.value| < 10 ^ (x.decimalExponent + 1) := by
  have hunits : 0 < x.units := by
    rw [units_eq, ← unitsAt_zero]
    exact unitsAt_strictMono (Nat.pos_of_ne_zero hx)
  have hone : (0 : ℚ) < unitsPerOne := by exact_mod_cast (by decide : 0 < unitsPerOne)
  rw [abs_value, ← units_eq, decimalExponent, div_lt_iff₀ hone, le_div_iff₀ hone]
  split
  · rename_i hle
    have hquotient : 0 < x.units / unitsPerOne := Nat.div_pos hle (by decide)
    have hlow := Nat.le_trans (Nat.mul_le_mul_right _ (Decimal.ten_pow_le hquotient))
      (Nat.div_mul_le_self _ _)
    have hhigh := (Nat.div_lt_iff_lt_mul (by decide)).mp
      (Decimal.lt_ten_pow_digitCount (x.units / unitsPerOne))
    have hpos := Decimal.digitCount_pos (x.units / unitsPerOne)
    generalize Decimal.digitCount (x.units / unitsPerOne) = k at hlow hhigh hpos ⊢
    rw [sub_add_cancel, show (k : Int) - 1 = (k - 1 : Nat) by omega, zpow_natCast, zpow_natCast]
    exact ⟨by exact_mod_cast hlow, by exact_mod_cast hhigh⟩
  · rename_i hlt
    have hquotient : 0 < (unitsPerOne - 1) / x.units := Nat.div_pos (by omega) hunits
    have hlow := (Nat.le_div_iff_mul_le hunits).mp (Decimal.ten_pow_le hquotient)
    have hhigh := (Nat.div_lt_iff_lt_mul hunits).mp
      (Decimal.lt_ten_pow_digitCount ((unitsPerOne - 1) / x.units))
    have hpos := Decimal.digitCount_pos ((unitsPerOne - 1) / x.units)
    generalize Decimal.digitCount ((unitsPerOne - 1) / x.units) = k at hlow hhigh hpos ⊢
    rw [show -(k : Int) + 1 = -(k - 1 : Nat) by omega, zpow_neg, zpow_neg, zpow_natCast,
      zpow_natCast, inv_mul_le_iff₀ (by positivity), lt_inv_mul_iff₀ (by positivity)]
    have hlow' : 10 ^ (k - 1) * x.units < unitsPerOne := by omega
    have hhigh' : unitsPerOne ≤ 10 ^ k * x.units := by omega
    exact ⟨by exact_mod_cast hhigh', by exact_mod_cast hlow'⟩

/-! ## 4. The search -/

/-- The search stops at the first grid with a hit. -/
theorem decimalBelow_eq {tries j : Nat} {power : Int} (hj : j < tries)
    (hsome : (x.decimalAt? (power - j)).isSome) :
    ∃ i ≤ j, x.decimalAt? (power - i) = some (x.decimalBelow tries power) ∧
      ∀ i' < i, x.decimalAt? (power - i') = none := by
  induction tries generalizing power j with
  | zero => omega
  | succ tries ih =>
    rw [decimalBelow]
    cases hat : x.decimalAt? power with
    | some d => exact ⟨0, Nat.zero_le j, by simpa using hat, by omega⟩
    | none =>
      cases j with
      | zero =>
        rw [Nat.cast_zero, Int.sub_zero, hat] at hsome
        cases hsome
      | succ j =>
        have hpower (i : Nat) : power - (i + 1 : Nat) = power - 1 - i := by omega
        rw [hpower] at hsome
        obtain ⟨i, hi, hfound, hbefore⟩ := ih (Nat.lt_of_succ_lt_succ hj) hsome
        refine ⟨i + 1, Nat.succ_le_succ hi, by rw [hpower]; exact hfound, ?_⟩
        intro i' hi'
        cases i' with
        | zero => simpa using hat
        | succ i' =>
          rw [hpower]
          exact hbefore i' (Nat.lt_of_succ_lt_succ hi')

theorem significand_pos (hx : x.magnitude ≠ 0) : 0 < x.significand := by
  have hbinade : 0 < binade := by decide
  rw [significand]
  split <;> omega

/-- **A number is a decimal itself,** with its last digit at most 766 places behind the first. -/
theorem exists_exact (hx : x.magnitude ≠ 0) :
    ∃ (j c : Nat), j < 767 ∧ (⟨c, x.decimalExponent - j⟩ : Decimal).value = |x.value| := by
  obtain ⟨hlow, hhigh⟩ := decimalExponent_spec hx
  have hsignificand : (1 : ℚ) ≤ x.significand := by exact_mod_cast significand_pos hx
  have hunits : |x.value| = x.significand * 2 ^ x.scale / unitsPerOne := by
    rw [abs_value, ← units_eq, units, Nat.shiftLeft_eq, Nat.cast_mul, Nat.cast_pow, Nat.cast_ofNat]
  have hone : (unitsPerOne : ℚ) = 2 ^ 1074 := by
    simp only [unitsPerOne, Nat.one_shiftLeft, Nat.cast_pow, Nat.cast_ofNat]
  -- so many places behind the point, and the digits are all there
  obtain ⟨k, c, hk, hvalue, hc⟩ : ∃ k c : Nat, x.decimalExponent + k < 767 ∧
      |x.value| = c * 10 ^ (-k : Int) ∧ 1 ≤ c := by
    rcases Nat.lt_or_ge x.scale 1074 with hlt | hge
    · obtain ⟨k, hk⟩ := Nat.exists_eq_add_of_le hlt.le
      have hvalue : |x.value| = (x.significand * 5 ^ k : Nat) * 10 ^ (-k : Int) := by
        rw [hunits, hone, hk, pow_add, zpow_neg, zpow_natCast, show (10 : ℚ) = 2 * 5 by norm_num,
          mul_pow]
        push_cast
        field_simp
      refine ⟨k, x.significand * 5 ^ k, ?_, hvalue,
        Nat.mul_pos (significand_pos hx) (Nat.pow_pos (by decide))⟩
      -- with one more place, it would have to be larger than a significand can make it
      by_contra hge
      have hten :
          (10 : ℚ) ^ 767 * 10 ^ (-k : Int) ≤ (x.significand * 5 ^ k : Nat) * 10 ^ (-k : Int) := by
        rw [← hvalue, ← zpow_natCast, ← zpow_add₀ (by norm_num)]
        exact le_trans (zpow_le_zpow_right₀ (by norm_num) (by omega)) hlow
      have hle : 10 ^ 767 ≤ x.significand * 5 ^ k := by
        exact_mod_cast le_of_mul_le_mul_right hten (by positivity)
      have hlt : x.significand * 5 ^ k < 10 ^ 767 := by
        calc
          x.significand * 5 ^ k < 2 ^ 53 * 5 ^ k :=
            Nat.mul_lt_mul_of_pos_right x.significand_lt (Nat.pow_pos (by decide))
          _ ≤ 2 ^ 53 * 5 ^ 1074 :=
            Nat.mul_le_mul_left _ (Nat.pow_le_pow_right (by decide) (by omega))
          _ ≤ 10 ^ 767 := by decide +kernel
      exact absurd hle (Nat.not_le.mpr hlt)
    · obtain ⟨t, ht⟩ := Nat.exists_eq_add_of_le hge
      obtain ⟨-, hbound⟩ := x.decimalExponent_bounds
      refine ⟨0, x.significand * 2 ^ t, by omega, ?_,
        Nat.mul_pos (significand_pos hx) (by positivity)⟩
      have hpos : (unitsPerOne : ℚ) ≠ 0 := by exact_mod_cast (by decide : unitsPerOne ≠ 0)
      rw [hunits, ht, pow_add, ← hone, mul_left_comm, mul_div_cancel_left₀ _ hpos]
      simp
  have hexponent : -(k : Int) < x.decimalExponent + 1 := by
    rw [← zpow_lt_zpow_iff_right₀ (by norm_num : (1 : ℚ) < 10)]
    refine lt_of_le_of_lt ?_ hhigh
    rw [hvalue]
    exact le_mul_of_one_le_left (by positivity) (by exact_mod_cast hc)
  refine ⟨(x.decimalExponent + k).toNat, c, by omega, ?_⟩
  rw [hvalue, Decimal.value, Int.toNat_of_nonneg (by omega), sub_add_cancel_left]

/-! ## 5. The decimal that is found -/

/-- The decimal is read as the number, no decimal with fewer digits is, and its last digit is not
zero unless it is the only one. -/
structure Shortest (x : Binary64) (d : Decimal) : Prop where
  reads : d.ReadsAs x
  fewest : ∀ d' : Decimal, d'.ReadsAs x →
    Decimal.digitCount d.coefficient ≤ Decimal.digitCount d'.coefficient
  last : d.coefficient % 10 = 0 → Decimal.digitCount d.coefficient = 1

/-- **A decimal that begins elsewhere** has a power of ten between itself and the number, so that
the first grid has a hit. -/
theorem isSome_decimalAt?_of_exponent_ne (hfinite : x.magnitude < infinityMagnitude)
    (hx : x.magnitude ≠ 0) {d : Decimal} (hd : 0 < d.coefficient) (hreads : d.ReadsAs x)
    (hne : d.exponent ≠ x.decimalExponent) : (x.decimalAt? x.decimalExponent).isSome := by
  obtain ⟨hlow, hhigh⟩ := decimalExponent_spec hx
  obtain ⟨hdlow, hdhigh⟩ := Decimal.value_bounds hd
  have hmono {a b : Int} (hab : a ≤ b) : (10 : ℚ) ^ a ≤ 10 ^ b :=
    zpow_le_zpow_right₀ (by norm_num) hab
  rcases lt_or_gt_of_ne hne with hlt | hgt
  · have hvalue : (⟨1, x.decimalExponent⟩ : Decimal).value = 10 ^ x.decimalExponent := by
      rw [Decimal.value, Nat.cast_one, one_mul]
    have hbetween : d.value ≤ 10 ^ x.decimalExponent := hdhigh.le.trans (hmono (by omega))
    exact isSome_decimalAt? hfinite (Decimal.readsAs_of_between hreads x.nearestAt_abs_value
      (hvalue ▸ hbetween) (hvalue ▸ hlow))
  · have hvalue : (⟨10, x.decimalExponent⟩ : Decimal).value = 10 ^ (x.decimalExponent + 1) := by
      rw [Decimal.value, zpow_add_one₀ (by norm_num), mul_comm]
      rfl
    have hbetween : 10 ^ (x.decimalExponent + 1) ≤ d.value := (hmono (by omega)).trans hdlow
    exact isSome_decimalAt? hfinite (Decimal.readsAs_of_between x.nearestAt_abs_value hreads
      (hvalue ▸ hhigh.le) (hvalue ▸ hbetween))

/-- A hit has one digit for each grid that was tried, at most. -/
theorem digitCount_trim_le (hx : x.magnitude ≠ 0) {d : Decimal} {j : Nat}
    (h : x.decimalAt? (x.decimalExponent - j) = some d) :
    Decimal.digitCount d.trim.coefficient ≤ j + 1 := by
  have hfloor : x.floorAt (x.decimalExponent - j) < 10 ^ (j + 1) := by
    have hten : (0 : ℚ) < 10 ^ (x.decimalExponent - j) := zpow_pos (by norm_num) _
    have hlt := lt_of_le_of_lt (x.floorAt_spec (x.decimalExponent - j)).1 (decimalExponent_spec hx).2
    rw [Decimal.value, show x.decimalExponent + 1 = (j + 1 : Nat) + (x.decimalExponent - j) by omega,
      zpow_add₀ (by norm_num), zpow_natCast] at hlt
    exact_mod_cast lt_of_mul_lt_mul_right hlt hten.le
  obtain ⟨hd, -⟩ := decimalAt?_eq_some h
  have hle : d.coefficient ≤ 10 ^ (j + 1) := by
    rcases hd with rfl | rfl
    · exact hfloor.le
    · exact hfloor
  rcases Nat.lt_or_eq_of_le hle with hlt | heq
  · exact Decimal.digitCount_le (Nat.succ_pos j) (Nat.lt_of_le_of_lt d.coefficient_trim_le hlt)
  · -- a round number in all its digits has only one of them left
    obtain ⟨coefficient, power⟩ := d
    obtain rfl : coefficient = 10 ^ (j + 1) := heq
    rw [Decimal.trim_ten_pow]
    exact Nat.succ_le_succ (Nat.zero_le j)

theorem coefficient_pos_of_readsAs (hx : x.magnitude ≠ 0) {d : Decimal} (h : d.ReadsAs x) :
    0 < d.coefficient := by
  refine Nat.pos_of_ne_zero fun hzero => hx ?_
  have hnearest := nearestAt_unitsAt 0
  rw [Decimal.ReadsAs, Decimal.value, hzero, Nat.cast_zero, zero_mul, zero_mul] at h
  rw [unitsAt_zero, Nat.cast_zero] at hnearest
  exact h.unique hnearest

/-- The search ends with a hit, which is the first one. -/
theorem exists_first_hit (hfinite : x.magnitude < infinityMagnitude) (hx : x.magnitude ≠ 0) :
    ∃ (j : Nat) (d : Decimal), x.decimalAt? (x.decimalExponent - j) = some d ∧
      (∀ i : Nat, (x.decimalAt? (x.decimalExponent - i)).isSome → j ≤ i) ∧
      x.shortestDecimal = d.trim := by
  obtain ⟨j, c, hj, hvalue⟩ := exists_exact hx
  have hreads : (⟨c, x.decimalExponent - j⟩ : Decimal).ReadsAs x := by
    rw [Decimal.ReadsAs, hvalue]
    exact x.nearestAt_abs_value
  obtain ⟨i, -, hfound, hbefore⟩ := decimalBelow_eq hj (isSome_decimalAt? hfinite hreads)
  refine ⟨i, _, hfound, ?_, ?_⟩
  · intro i' hsome
    by_contra hlt
    rw [hbefore i' (by omega)] at hsome
    cases hsome
  · rw [shortestDecimal, isZero, decide_eq_false hx]
    rfl

theorem shortestDecimal_of_zero (hx : x.magnitude = 0) : x.shortestDecimal = ⟨0, 0⟩ := by
  rw [shortestDecimal, isZero, decide_eq_true hx]
  rfl

/-- The last digit is not zero, but for zero itself. -/
theorem shortestDecimal_of_mod (hfinite : x.magnitude < infinityMagnitude)
    (h : x.shortestDecimal.coefficient % 10 = 0) : x.shortestDecimal = ⟨0, 0⟩ := by
  by_cases hx : x.magnitude = 0
  · exact shortestDecimal_of_zero hx
  · obtain ⟨j, d, hfound, -, hshortest⟩ := exists_first_hit hfinite hx
    have hreads := (Decimal.toMagnitude_eq_iff hfinite).mp (decimalAt?_eq_some hfound).2
    rw [hshortest] at h
    exact absurd h (Decimal.coefficient_trim (coefficient_pos_of_readsAs hx hreads)).2

/-- **The decimal that is found is the shortest one.** -/
theorem shortestDecimal_shortest (hfinite : x.magnitude < infinityMagnitude) :
    x.Shortest x.shortestDecimal := by
  have hlast : x.shortestDecimal.coefficient % 10 = 0 →
      Decimal.digitCount x.shortestDecimal.coefficient = 1 := by
    intro h
    rw [shortestDecimal_of_mod hfinite h]
    rfl
  by_cases hx : x.magnitude = 0
  · rw [shortestDecimal_of_zero hx]
    refine ⟨?_, fun d' _ => Decimal.digitCount_pos _, fun _ => rfl⟩
    rw [Decimal.ReadsAs, Decimal.value, hx, Nat.cast_zero, zero_mul, zero_mul, ← Nat.cast_zero,
      ← unitsAt_zero]
    exact nearestAt_unitsAt 0
  · obtain ⟨j, d, hfound, hfirst, hshortest⟩ := exists_first_hit hfinite hx
    have hreads := (Decimal.toMagnitude_eq_iff hfinite).mp (decimalAt?_eq_some hfound).2
    refine ⟨?_, ?_, hlast⟩
    · rwa [hshortest, Decimal.ReadsAs, Decimal.value_trim]
    · intro d' hreads'
      rw [hshortest]
      refine Nat.le_trans (digitCount_trim_le hx hfound) ?_
      have hpos := Decimal.digitCount_pos d'.coefficient
      by_cases hexponent : d'.exponent = x.decimalExponent
      · -- its last digit is on a grid, and no grid before the first hit has one
        have hpower :
            d'.power = x.decimalExponent - (Decimal.digitCount d'.coefficient - 1 : Nat) := by
          rw [← hexponent, Decimal.exponent]
          omega
        have hsome : (x.decimalAt? d'.power).isSome :=
          isSome_decimalAt? hfinite (c := d'.coefficient) hreads'
        rw [hpower] at hsome
        have := hfirst _ hsome
        omega
      · have hsome := isSome_decimalAt?_of_exponent_ne hfinite hx
          (coefficient_pos_of_readsAs hx hreads') hreads' hexponent
        have := hfirst 0 (by rwa [Nat.cast_zero, Int.sub_zero])
        omega

/-- **An integer has no digits behind the point:** it is on the grid of the ones itself. -/
theorem shortestDecimal_power_nonneg (hfinite : x.magnitude < infinityMagnitude) {n : Int}
    (hn : x.value = n) : 0 ≤ x.shortestDecimal.power := by
  by_cases hx : x.magnitude = 0
  · rw [shortestDecimal_of_zero hx]
  · obtain ⟨j, d, hfound, hfirst, hshortest⟩ := exists_first_hit hfinite hx
    obtain ⟨hlow, hhigh⟩ := decimalExponent_spec hx
    have hvalue : (⟨n.natAbs, 0⟩ : Decimal).value = |x.value| := by
      rw [Decimal.value, hn, zpow_zero, mul_one, Nat.cast_natAbs, Int.cast_abs]
    have hreads : (⟨n.natAbs, 0⟩ : Decimal).ReadsAs x := by
      rw [Decimal.ReadsAs, hvalue]
      exact x.nearestAt_abs_value
    have hexponent : 0 < x.decimalExponent + 1 := by
      rw [← zpow_lt_zpow_iff_right₀ (by norm_num : (1 : ℚ) < 10), zpow_zero]
      refine lt_of_le_of_lt ?_ hhigh
      rw [← hvalue, Decimal.value, zpow_zero, mul_one]
      exact_mod_cast coefficient_pos_of_readsAs hx hreads
    have hle : j ≤ x.decimalExponent.toNat := by
      refine hfirst _ ?_
      rw [Int.toNat_of_nonneg (by omega), Int.sub_self]
      exact isSome_decimalAt? hfinite hreads
    obtain ⟨hpower, -⟩ := decimalAt?_some hfound
    rw [hshortest]
    exact Int.le_trans (by omega) d.power_le_trim

end Binary64

end BytecodeVm
