/- # Rounding to the nearest double

Counted in the smallest unit, the numbers lie on grids that get coarser with the binade, and every
number of a binade or above it lies on the grid of that binade.  So what is nearest on the grid of
the binade is nearest of all, and rounding a quotient to an integer is all that there is to do.

Magnitudes are taken as if they went on beyond the largest finite one; what is rounded up to the
first of these, or further, is an infinity.

* `Binary64.unitsAt_grid`, `Binary64.exists_grid`: magnitudes by their grid, and
  `Binary64.unitsAt_strictMono`: larger magnitudes are larger numbers;
* `Binary64.NearestAt`: the nearest magnitude, the even one of two, with `NearestAt.mono`,
  `NearestAt.unique` and `nearestAt_unitsAt`: it grows with what is rounded, there is at most one,
  and what needs no rounding is kept;
* `Binary64.nearestMagnitude_nearestAt`: the rounding step finds it;
* `Binary64.Nearest`, `Binary64.ofInt_nearest`: the nearest double to an integer of moderate size.
-/
import BytecodeVm.Binary64.Basic
import Mathlib

namespace BytecodeVm.Binary64

/-! ## 1. Magnitudes and grids -/

/-- The absolute value of the numbers of a magnitude, in units, as if magnitudes had no end. -/
def unitsAt (magnitude : Nat) : Nat :=
  if magnitude < binade then magnitude
  else (binade + magnitude % binade) * 2 ^ (magnitude / binade - 1)

theorem binade_eq : binade = 2 ^ 52 := by
  decide

theorem unitsAt_zero : unitsAt 0 = 0 :=
  if_pos (by decide)

theorem units_eq (x : Binary64) : x.units = unitsAt x.magnitude := by
  rw [units, Nat.shiftLeft_eq, significand, scale, unitsAt]
  split
  · rename_i h
    rw [Nat.div_eq_of_lt h, Nat.zero_sub, Nat.pow_zero, Nat.mul_one]
  · rfl

/-- A magnitude is a place on the grid of a scale: from the second scale on in the upper half of it,
which leads up to where the next one starts. -/
theorem unitsAt_grid {scale q : Nat} (hq : q ≤ 2 * binade) (h : scale = 0 ∨ binade ≤ q) :
    unitsAt (scale * binade + q) = q * 2 ^ scale := by
  have hpos : 0 < binade := by decide
  rcases Nat.lt_or_ge q binade with hlt | hge
  · obtain rfl : scale = 0 := h.resolve_right (Nat.not_le.mpr hlt)
    rw [Nat.zero_mul, Nat.zero_add, unitsAt, if_pos hlt, Nat.pow_zero, Nat.mul_one]
  · obtain ⟨r, rfl⟩ := Nat.exists_eq_add_of_le hge
    have hnot : ¬ scale * binade + (binade + r) < binade := by omega
    have hsplit : scale * binade + (binade + r) = r + (scale + 1) * binade := by ring
    rw [unitsAt, if_neg hnot, hsplit, Nat.add_mul_div_right _ _ hpos, Nat.add_mul_mod_self_right]
    rcases Nat.lt_or_ge r binade with hr | hr
    · rw [Nat.div_eq_of_lt hr, Nat.mod_eq_of_lt hr, Nat.zero_add, Nat.add_sub_cancel]
    · -- the last place on the grid is the first one of the next scale
      obtain rfl : r = binade := by omega
      rw [Nat.div_self hpos, Nat.mod_self, Nat.add_zero,
        show 1 + (scale + 1) - 1 = scale + 1 by omega]
      ring

/-- Every magnitude is a place on a grid. -/
theorem exists_grid (magnitude : Nat) : ∃ scale q, magnitude = scale * binade + q ∧
    q < 2 * binade ∧ (scale = 0 ∨ binade ≤ q) := by
  have hpos : 0 < binade := by decide
  rcases Nat.lt_or_ge magnitude binade with hlt | hge
  · exact ⟨0, magnitude, by omega, by omega, .inl rfl⟩
  · obtain ⟨scale, hscale⟩ : ∃ scale, magnitude / binade = scale + 1 :=
      Nat.exists_eq_add_one.mpr (Nat.div_pos hge hpos)
    have hmod := Nat.mod_lt magnitude hpos
    have hdiv := Nat.div_add_mod magnitude binade
    rw [hscale] at hdiv
    refine ⟨scale, binade + magnitude % binade, ?_, by omega, .inr (by omega)⟩
    rw [← Nat.add_assoc, ← Nat.succ_mul, Nat.mul_comm]
    exact hdiv.symm

/-- **A larger magnitude is a larger number.** -/
theorem unitsAt_strictMono : StrictMono unitsAt := by
  refine strictMono_nat_of_lt_succ fun magnitude => ?_
  obtain ⟨scale, q, rfl, hq, h⟩ := exists_grid magnitude
  rw [unitsAt_grid (Nat.le_of_lt hq) h, Nat.add_assoc,
    unitsAt_grid hq (h.imp_right Nat.le_succ_of_le)]
  exact Nat.mul_lt_mul_of_pos_right (Nat.lt_succ_self q) (Nat.two_pow_pos scale)

/-! ## 2. The nearest magnitude -/

/-- The magnitude is nearest to so many units, and of two nearest ones the even one. -/
structure NearestAt (r : ℚ) (magnitude : Nat) : Prop where
  closest : ∀ other, |(unitsAt magnitude : ℚ) - r| ≤ |(unitsAt other : ℚ) - r|
  even : ∀ other ≠ magnitude, |(unitsAt other : ℚ) - r| = |(unitsAt magnitude : ℚ) - r| →
    magnitude % 2 = 0

/-- What needs no rounding is kept. -/
theorem nearestAt_unitsAt (magnitude : Nat) : NearestAt (unitsAt magnitude) magnitude where
  closest other := by
    rw [sub_self, abs_zero]
    exact abs_nonneg _
  even other hne h := by
    rw [sub_self, abs_zero, abs_eq_zero, sub_eq_zero, Nat.cast_inj] at h
    exact absurd (unitsAt_strictMono.injective h) hne

namespace NearestAt

variable {r r' : ℚ} {magnitude magnitude' : Nat}

/-- **Rounding is monotone.** -/
theorem mono (h : NearestAt r magnitude) (h' : NearestAt r' magnitude') (hle : r ≤ r') :
    magnitude ≤ magnitude' := by
  by_contra hlt
  rw [Nat.not_le] at hlt
  have hunits : (unitsAt magnitude' : ℚ) < unitsAt magnitude := by
    exact_mod_cast unitsAt_strictMono hlt
  -- each is nearer to the other's rounding than that other, unless both are half-way between them
  have hclose := h.closest magnitude'
  have hclose' := h'.closest magnitude
  have hmiddle : 2 * r = unitsAt magnitude + unitsAt magnitude' ∧
      2 * r' = unitsAt magnitude + unitsAt magnitude' := by
    grind
  have heven : magnitude % 2 = 0 := h.even magnitude' (Nat.ne_of_lt hlt) (by grind)
  have heven' : magnitude' % 2 = 0 := h'.even magnitude (Nat.ne_of_gt hlt) (by grind)
  -- of two even magnitudes that follow each other, the odd one between is nearer to the middle
  have hbelow : (unitsAt magnitude' : ℚ) < unitsAt (magnitude' + 1) := by
    exact_mod_cast unitsAt_strictMono (Nat.lt_succ_self magnitude')
  have habove : (unitsAt (magnitude' + 1) : ℚ) < unitsAt magnitude := by
    exact_mod_cast unitsAt_strictMono (by omega)
  have hbetween := h.closest (magnitude' + 1)
  grind

/-- There is one nearest magnitude. -/
theorem unique (h : NearestAt r magnitude) (h' : NearestAt r magnitude') :
    magnitude = magnitude' :=
  Nat.le_antisymm (h.mono h' (le_refl r)) (h'.mono h (le_refl r))

end NearestAt

/-! ## 3. The rounding step -/

/-- The natural number is nearest to a quotient, and of two nearest ones the even one. -/
structure NearestNat (v : ℚ) (q : Nat) : Prop where
  close : |(q : ℚ) - v| ≤ 1 / 2
  even : |(q : ℚ) - v| = 1 / 2 → q % 2 = 0

theorem roundHalfEven_nearestNat (num : Nat) {den : Nat} (hden : 0 < den) :
    NearestNat (num / den : ℚ) (roundHalfEven num den) := by
  have hpos : (0 : ℚ) < den := by exact_mod_cast hden
  have hrem : ((num % den : Nat) : ℚ) / den < 1 := by
    rw [div_lt_one hpos]
    exact_mod_cast Nat.mod_lt num hden
  have hv : (num : ℚ) / den = (num / den : Nat) + ((num % den : Nat) : ℚ) / den := by
    rw [eq_comm, eq_div_iff hpos.ne', add_mul, div_mul_cancel₀ _ hpos.ne']
    exact_mod_cast Nat.div_add_mod' num den
  have hnonneg : 0 ≤ ((num % den : Nat) : ℚ) / den := by positivity
  -- the fraction is compared with one half as twice the remainder is with the divisor
  have hlt : 2 * (num % den) < den → ((num % den : Nat) : ℚ) / den < 1 / 2 := by
    intro h
    rw [div_lt_div_iff₀ hpos two_pos, one_mul, mul_comm]
    exact_mod_cast h
  have hgt : den < 2 * (num % den) → 1 / 2 < ((num % den : Nat) : ℚ) / den := by
    intro h
    rw [div_lt_div_iff₀ two_pos hpos, one_mul, mul_comm]
    exact_mod_cast h
  have heq : den = 2 * (num % den) → ((num % den : Nat) : ℚ) / den = 1 / 2 := by
    intro h
    rw [div_eq_div_iff hpos.ne' two_ne_zero, one_mul, mul_comm]
    exact_mod_cast h.symm
  rw [hv, roundHalfEven]
  generalize ((num % den : Nat) : ℚ) / den = fraction at *
  generalize num / den = quotient
  have hbelow : |(quotient : ℚ) - (quotient + fraction)| = fraction := by
    rw [sub_add_cancel_left, abs_neg, abs_of_nonneg hnonneg]
  have habove : |((quotient + 1 : Nat) : ℚ) - (quotient + fraction)| = 1 - fraction := by
    rw [Nat.cast_succ, add_sub_add_left_eq_sub, abs_of_pos (sub_pos.mpr hrem)]
  split
  · have := hlt ‹_›
    constructor <;> rw [hbelow] <;> intros <;> linarith
  · split
    · have := hgt ‹_›
      constructor <;> rw [habove] <;> intros <;> linarith
    · have := heq (by omega)
      obtain h | h := Nat.mod_two_eq_zero_or_one quotient <;> rw [h]
      · exact ⟨by rw [Nat.add_zero, hbelow]; linarith, fun _ => h⟩
      · exact ⟨by rw [habove]; linarith, fun _ => Nat.succ_mod_two_eq_zero_iff.mpr h⟩

theorem roundHalfEven_bounds (num den : Nat) :
    num / den ≤ roundHalfEven num den ∧ roundHalfEven num den ≤ num / den + 1 := by
  simp only [roundHalfEven]
  split
  · omega
  · split <;> omega

/-- A natural number that is rounded to another one is no nearer. -/
theorem NearestNat.half_le {v : ℚ} {q j : Nat} (h : NearestNat v q) (hne : j ≠ q) :
    1 / 2 ≤ |(j : ℚ) - v| := by
  have hone : (1 : ℚ) ≤ |(j : ℚ) - q| := by
    exact_mod_cast Int.one_le_abs (sub_ne_zero.mpr (Int.ofNat_inj.not.mpr hne))
  have hclose := h.close
  have htriangle := abs_sub_le (j : ℚ) v q
  rw [abs_sub_comm v] at htriangle
  linarith

theorem NearestNat.le {v : ℚ} {q : Nat} (h : NearestNat v q) (j : Nat) :
    |(q : ℚ) - v| ≤ |(j : ℚ) - v| := by
  by_cases hj : j = q
  · rw [hj]
  · exact le_trans h.close (h.half_le hj)

/-- A magnitude is on the grid of a scale, or else below the part of it in its own binade. -/
theorem grid_or_below (scale magnitude : Nat) :
    (∃ j, unitsAt magnitude = j * 2 ^ scale) ∨
      0 < scale ∧ unitsAt magnitude < binade * 2 ^ scale := by
  obtain ⟨own, q, rfl, hq, h⟩ := exists_grid magnitude
  rw [unitsAt_grid (Nat.le_of_lt hq) h]
  rcases Nat.lt_or_ge own scale with hlt | hge
  · refine .inr ⟨Nat.zero_lt_of_lt hlt, ?_⟩
    calc
      q * 2 ^ own < 2 * binade * 2 ^ own := Nat.mul_lt_mul_of_pos_right hq (Nat.two_pow_pos own)
      _ = binade * 2 ^ (own + 1) := by ring
      _ ≤ binade * 2 ^ scale := Nat.mul_le_mul_left _ (Nat.pow_le_pow_right (by decide) hlt)
  · refine .inl ⟨q * 2 ^ (own - scale), ?_⟩
    rw [Nat.mul_assoc, ← Nat.pow_add, Nat.sub_add_cancel hge]

/-- **What is nearest on the grid of its binade is nearest of all.** -/
theorem NearestNat.nearestAt {v : ℚ} {scale q : Nat} (h : NearestNat v q) (hq : q ≤ 2 * binade)
    (hv : scale = 0 ∨ binade ≤ q ∧ (binade : ℚ) ≤ v) :
    NearestAt (v * 2 ^ scale) (scale * binade + q) := by
  have hpos : (0 : ℚ) < 2 ^ scale := by positivity
  have hunits := unitsAt_grid hq (hv.imp_right And.left)
  -- distances on the grid are distances between natural numbers
  have hgrid (j : Nat) :
      |((j * 2 ^ scale : Nat) : ℚ) - v * 2 ^ scale| = |(j : ℚ) - v| * 2 ^ scale := by
    rw [Nat.cast_mul, Nat.cast_pow, Nat.cast_ofNat, ← sub_mul, abs_mul, abs_of_pos hpos]
  have hbelow {other : Nat} (hscale : 0 < scale) (hlt : unitsAt other < binade * 2 ^ scale) :
      |(q : ℚ) - v| * 2 ^ scale < |(unitsAt other : ℚ) - v * 2 ^ scale| := by
    obtain ⟨-, hle⟩ := hv.resolve_left (Nat.pos_iff_ne_zero.mp hscale)
    have hlt' : (unitsAt other : ℚ) < binade * 2 ^ scale := by exact_mod_cast hlt
    have hbinade := mul_le_mul_of_nonneg_right hle hpos.le
    calc
      |(q : ℚ) - v| * 2 ^ scale ≤ |(binade : ℚ) - v| * 2 ^ scale :=
        mul_le_mul_of_nonneg_right (h.le binade) hpos.le
      _ = v * 2 ^ scale - binade * 2 ^ scale := by
        rw [abs_sub_comm, abs_of_nonneg (sub_nonneg.mpr hle), sub_mul]
      _ < v * 2 ^ scale - unitsAt other := by linarith
      _ = |(unitsAt other : ℚ) - v * 2 ^ scale| := by
        rw [abs_sub_comm, abs_of_nonneg (by linarith)]
  constructor
  · intro other
    rw [hunits, hgrid]
    rcases grid_or_below scale other with ⟨j, hj⟩ | ⟨hscale, hlt⟩
    · rw [hj, hgrid]
      exact mul_le_mul_of_nonneg_right (h.le j) hpos.le
    · exact le_of_lt (hbelow hscale hlt)
  · intro other hne heq
    rw [hunits, hgrid] at heq
    rcases grid_or_below scale other with ⟨j, hj⟩ | ⟨hscale, hlt⟩
    · have hjq : j ≠ q := by
        rintro rfl
        exact hne (unitsAt_strictMono.injective (hj.trans hunits.symm))
      rw [hj, hgrid, mul_left_inj' hpos.ne'] at heq
      have heven : q % 2 = 0 := h.even (le_antisymm h.close (heq ▸ h.half_le hjq))
      have hbinade : binade % 2 = 0 := by decide
      rw [Nat.add_mod, Nat.mul_mod, hbinade, heven, Nat.mul_zero]
    · exact absurd heq (hbelow hscale hlt).ne'

/-- Scaled down by all but 53 of its bits, a natural number is below the end of the grid, and in the
upper half of it unless there was nothing to scale down. -/
theorem div_two_pow_log2 (n : Nat) :
    n / 2 ^ (n.log2 - 52) < 2 * binade ∧ (n.log2 - 52 = 0 ∨ binade ≤ n / 2 ^ (n.log2 - 52)) := by
  rw [binade_eq, Nat.div_lt_iff_lt_mul (Nat.two_pow_pos _),
    Nat.le_div_iff_mul_le (Nat.two_pow_pos _)]
  constructor
  · calc
      n < 2 ^ (n.log2 + 1) := Nat.lt_log2_self
      _ ≤ 2 ^ (53 + (n.log2 - 52)) := Nat.pow_le_pow_right (by decide) (by omega)
      _ = 2 * 2 ^ 52 * 2 ^ (n.log2 - 52) := by ring
  · rw [or_iff_not_imp_left]
    intro hscale
    have hn : n ≠ 0 := by
      rintro rfl
      exact hscale rfl
    calc
      2 ^ 52 * 2 ^ (n.log2 - 52) = 2 ^ n.log2 := by rw [← Nat.pow_add]; congr 1; omega
      _ ≤ n := Nat.log2_self_le hn

/-- **The rounding step finds the nearest magnitude,** of those up to the infinity. -/
theorem nearestMagnitude_nearestAt (num : Nat) {den : Nat} (hden : 0 < den) :
    ∃ magnitude, NearestAt (num / den) magnitude ∧
      nearestMagnitude num den = min infinityMagnitude magnitude := by
  obtain ⟨hhigh, hlow⟩ := div_two_pow_log2 (num / den)
  simp only [nearestMagnitude, Nat.shiftLeft_eq]
  generalize (num / den).log2 - 52 = scale at hhigh hlow ⊢
  have hscaled : 0 < den * 2 ^ scale := Nat.mul_pos hden (Nat.two_pow_pos scale)
  have hnearest := roundHalfEven_nearestNat num hscaled
  obtain ⟨hfloor, hceil⟩ := roundHalfEven_bounds num (den * 2 ^ scale)
  rw [Nat.div_div_eq_div_mul] at hhigh hlow
  refine ⟨_, ?_, rfl⟩
  have hv : (num / (den * 2 ^ scale : Nat) : ℚ) * 2 ^ scale = num / den := by
    rw [Nat.cast_mul, Nat.cast_pow, Nat.cast_ofNat, ← div_div, div_mul_cancel₀ _ (by positivity)]
  rw [← hv]
  refine hnearest.nearestAt (by omega) (hlow.imp_right fun hle => ⟨by omega, ?_⟩)
  calc
    (binade : ℚ) ≤ (num / (den * 2 ^ scale) : Nat) := by exact_mod_cast hle
    _ ≤ num / (den * 2 ^ scale : Nat) := Nat.cast_div_le

/-! ## 4. The nearest number -/

theorem toNat_ofParts (negative : Bool) {magnitude : Nat} (h : magnitude < signBit) :
    (ofParts negative magnitude).bits.toNat =
      if negative then signBit + magnitude else magnitude := by
  have hsign : signBit = 2 ^ 63 := by decide
  refine UInt64.toNat_ofNat_of_lt' ?_
  split <;> simp only [UInt64.size] <;> omega

theorem magnitude_ofParts (negative : Bool) {magnitude : Nat} (h : magnitude < signBit) :
    (ofParts negative magnitude).magnitude = magnitude := by
  rw [Binary64.magnitude, toNat_ofParts negative h]
  split
  · rw [Nat.add_mod_left, Nat.mod_eq_of_lt h]
  · exact Nat.mod_eq_of_lt h

theorem negative_ofParts (negative : Bool) {magnitude : Nat} (h : magnitude < signBit) :
    (ofParts negative magnitude).negative = negative := by
  rw [Binary64.negative, toNat_ofParts negative h]
  cases negative with
  | false => exact decide_eq_false (Nat.not_le.mpr h)
  | true => exact decide_eq_true (Nat.le_add_right signBit magnitude)

theorem magnitude_lt_signBit (x : Binary64) : x.magnitude < signBit :=
  Nat.mod_lt _ (by decide)

/-- A number is made of its sign and its magnitude. -/
theorem ofParts_negative_magnitude (x : Binary64) : ofParts x.negative x.magnitude = x := by
  have hsign : signBit = 2 ^ 63 := by decide
  have hbits := x.bits.toNat_lt
  refine congrArg Binary64.mk (UInt64.toNat_inj.mp ?_)
  refine (toNat_ofParts x.negative x.magnitude_lt_signBit).trans ?_
  simp only [Binary64.negative, Binary64.magnitude, decide_eq_true_eq, hsign]
  split <;> omega

/-- The value of a finite number. -/
def value (x : Binary64) : ℚ :=
  x.signedUnits / unitsPerOne

theorem value_eq (x : Binary64) :
    x.value = (if x.negative then -1 else 1) * (unitsAt x.magnitude / unitsPerOne) := by
  rw [value, signedUnits, units_eq]
  split <;> simp [neg_div]

theorem abs_value (x : Binary64) : |x.value| = unitsAt x.magnitude / unitsPerOne := by
  rw [value_eq, abs_mul, abs_of_nonneg (a := (unitsAt _ / unitsPerOne : ℚ)) (by positivity)]
  split <;> simp

/-- The double is nearest to a rational number, and of two nearest ones the one with the even
significand. -/
structure Nearest (r : ℚ) (x : Binary64) : Prop where
  finite : x.magnitude < infinityMagnitude
  closest : ∀ y : Binary64, y.magnitude < infinityMagnitude → |x.value - r| ≤ |y.value - r|
  even : ∀ y : Binary64, y.magnitude < infinityMagnitude → y.value ≠ x.value →
    |y.value - r| = |x.value - r| → x.significand % 2 = 0

/-- A magnitude is even as its significand is. -/
theorem significand_mod_two (x : Binary64) : x.significand % 2 = x.magnitude % 2 := by
  have hbinade : binade = 2 ^ 52 := by decide
  rw [significand, hbinade]
  split <;> omega

/-- **Rounding an absolute value rounds a number.** -/
theorem NearestAt.nearest {r : ℚ} {magnitude : Nat} (h : NearestAt r magnitude) (hr : 0 ≤ r)
    (hfinite : magnitude < infinityMagnitude) (negative : Bool) :
    Nearest ((if negative then -1 else 1) * (r / unitsPerOne)) (ofParts negative magnitude) := by
  have hlt : magnitude < signBit := Nat.lt_trans hfinite (by decide)
  have hone : (0 : ℚ) < unitsPerOne := by exact_mod_cast (by decide : 0 < unitsPerOne)
  have hvalue : (ofParts negative magnitude).value =
      (if negative then -1 else 1) * (unitsAt magnitude / unitsPerOne) := by
    rw [value_eq, magnitude_ofParts negative hlt, negative_ofParts negative hlt]
  have hsign : |(if negative then -1 else 1 : ℚ)| = 1 := by
    split <;> simp
  generalize (if negative then -1 else 1 : ℚ) = sign at hvalue hsign ⊢
  have hdist : |(ofParts negative magnitude).value - sign * (r / unitsPerOne)| =
      |unitsAt magnitude - r| / unitsPerOne := by
    rw [hvalue, ← mul_sub, ← sub_div, abs_mul, hsign, one_mul, abs_div, abs_of_pos hone]
  -- a number of either sign is as far away as its absolute value, or further
  have hother (y : Binary64) : |unitsAt y.magnitude - r| / unitsPerOne ≤
      |y.value - sign * (r / unitsPerOne)| := by
    have htarget : |sign * (r / unitsPerOne)| = r / unitsPerOne := by
      rw [abs_mul, hsign, one_mul, abs_of_nonneg (div_nonneg hr hone.le)]
    have hreverse := abs_abs_sub_abs_le y.value (sign * (r / unitsPerOne))
    rwa [abs_value, htarget, ← sub_div, abs_div, abs_of_pos hone] at hreverse
  refine ⟨?_, ?_, ?_⟩
  · rwa [magnitude_ofParts negative hlt]
  · intro y _
    rw [hdist]
    exact le_trans (div_le_div_of_nonneg_right (h.closest y.magnitude) hone.le) (hother y)
  · intro y _ hne heq
    rw [significand_mod_two, magnitude_ofParts negative hlt]
    rw [hdist] at heq
    by_cases hmagnitude : y.magnitude = magnitude
    · -- then it is the opposite number, and as near as that only zero is
      have hopposite : y.value = -(ofParts negative magnitude).value := by
        refine (abs_eq_abs.mp ?_).resolve_left hne
        rw [abs_value, abs_value, hmagnitude, magnitude_ofParts negative hlt]
      rw [hopposite, hvalue, ← neg_add', ← mul_add, ← add_div, abs_neg, abs_mul, hsign, one_mul,
        abs_div, abs_of_pos hone, div_left_inj' hone.ne',
        abs_of_nonneg (add_nonneg (Nat.cast_nonneg _) hr)] at heq
      have hzero := h.closest 0
      rw [← heq, unitsAt_zero, Nat.cast_zero, zero_sub, abs_neg, abs_of_nonneg hr,
        add_le_iff_nonpos_left, Nat.cast_nonpos] at hzero
      have hmagnitude : magnitude = 0 := unitsAt_strictMono.injective hzero
      rw [hmagnitude]
    · refine h.even y.magnitude hmagnitude (le_antisymm ?_ (h.closest y.magnitude))
      rw [← div_le_div_iff_of_pos_right hone, ← heq]
      exact hother y

/-- **The nearest double to an integer of moderate size.** -/
theorem ofInt_nearest {z : Int} (h : z.natAbs ≤ 2 ^ 63) : Nearest z (ofInt z) := by
  have hone : (0 : ℚ) < unitsPerOne := by exact_mod_cast (by decide : 0 < unitsPerOne)
  obtain ⟨magnitude, hnearest, hmin⟩ :=
    nearestMagnitude_nearestAt (z.natAbs * unitsPerOne) Nat.one_pos
  -- rounding goes no further than to 2^63, which is a number itself
  have hbound : magnitude ≤ 1085 * binade + binade := by
    refine hnearest.mono (nearestAt_unitsAt _) ?_
    have hunits : binade * 2 ^ 1085 = 2 ^ 63 * unitsPerOne := by
      rw [binade_eq, Nat.pow_add 2 11 1074, ← Nat.one_shiftLeft 1074, ← unitsPerOne]
      ring
    rw [unitsAt_grid (by omega) (.inr (le_refl _)), hunits, Nat.cast_one, div_one, Nat.cast_le]
    exact Nat.mul_le_mul_right _ h
  have hfinite : magnitude < infinityMagnitude := Nat.lt_of_le_of_lt hbound (by decide)
  have hsign : ((if decide (z < 0) then -1 else 1 : ℚ)) * z.natAbs = z := by
    rw [Nat.cast_natAbs]
    by_cases hz : z < 0
    · rw [decide_eq_true hz, if_pos rfl, abs_of_neg hz, Int.cast_neg, neg_one_mul, neg_neg]
    · rw [decide_eq_false hz, if_neg Bool.false_ne_true, abs_of_nonneg (not_lt.mp hz), one_mul]
  have hrounded :=
    hnearest.nearest (div_nonneg (Nat.cast_nonneg _) (Nat.cast_nonneg _)) hfinite (decide (z < 0))
  rwa [Nat.cast_mul, Nat.cast_one, div_one, mul_div_cancel_right₀ _ hone.ne', hsign,
    ← min_eq_right hfinite.le, ← hmin] at hrounded

/-- Zero has no sign to keep. -/
theorem ofInt_zero : ofInt 0 = zero := by
  decide

end BytecodeVm.Binary64
