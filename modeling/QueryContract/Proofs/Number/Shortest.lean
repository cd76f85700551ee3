import Mathlib.Data.Nat.Cast.Order.Field
import QueryContract.Number.Shortest
import QueryContract.Proofs.Number.Rounding

/-!
The digits that are written for a finite double read back as that double. The search for them ends
with seventeen digits, and these are close enough to the number that rounding finds it again.
-/

namespace QueryContract.Number.Binary64

variable {numerator denominator : Nat}

theorem roundHalfEven_eq {nearest : Nat} (above : 2 * numerator < (2 * nearest + 1) * denominator)
    (below : 2 * nearest * denominator < 2 * numerator + denominator) :
    roundHalfEven numerator denominator = nearest := by
  have positive : 0 < denominator := Nat.pos_of_ne_zero fun zero => by simp [zero] at above
  have parts := Nat.div_add_mod numerator denominator
  have small := Nat.mod_lt numerator positive
  unfold roundHalfEven
  dsimp only
  generalize numerator / denominator = quotient at *
  generalize numerator % denominator = rest at *
  subst parts
  rcases Nat.lt_trichotomy (quotient + 1) nearest with far | rfl | close
  · have steps : denominator * (quotient + 2) ≤ denominator * nearest :=
      Nat.mul_le_mul_left denominator far
    linarith
  · have half : denominator < 2 * rest := by linarith
    rw [if_neg (by omega), if_pos half]
  · rcases Nat.lt_or_eq_of_le (Nat.le_of_lt_succ close) with far | rfl
    · have steps : denominator * (nearest + 1) ≤ denominator * quotient :=
        Nat.mul_le_mul_left denominator far
      linarith
    · have half : 2 * rest < denominator := by linarith
      rw [if_pos half]

theorem roundHalfEven_mul {factor : Nat} (positive : 0 < factor) (numerator denominator : Nat) :
    roundHalfEven (numerator * factor) (denominator * factor) =
      roundHalfEven numerator denominator := by
  simp only [roundHalfEven, Nat.mul_div_mul_right _ _ positive, Nat.mul_mod_mul_right,
    ← Nat.mul_assoc, Nat.mul_lt_mul_right positive]

theorem nearestOrdinal_mul {factor : Nat} (positive : 0 < factor) (numerator denominator : Nat) :
    nearestOrdinal (numerator * factor) (denominator * factor) =
      nearestOrdinal numerator denominator := by
  have scaled : numerator * factor * unitsInOne = numerator * unitsInOne * factor :=
    Nat.mul_right_comm ..
  have unit (shift : Nat) : denominator * factor * shift = denominator * shift * factor :=
    Nat.mul_right_comm ..
  simp only [nearestOrdinal, scaled, Nat.mul_div_mul_right _ _ positive, unit,
    roundHalfEven_mul positive]

/-- Equal quotients round alike. -/
theorem ofQuotient_congr {numerator' denominator' : Nat} (negative : Bool)
    (positive : 0 < denominator) (positive' : 0 < denominator')
    (same : numerator * denominator' = numerator' * denominator) :
    ofQuotient negative numerator denominator = ofQuotient negative numerator' denominator' := by
  have nearest : nearestOrdinal numerator denominator = nearestOrdinal numerator' denominator' := by
    rw [← nearestOrdinal_mul positive', same, Nat.mul_comm denominator,
      nearestOrdinal_mul positive]
  simp only [ofQuotient, nearest]

/-- Decimals of the same value round alike. -/
theorem ofDecimal_congr {digits digits' : Nat} {exponent exponent' : Int} (negative : Bool)
    (same : (digits : ℚ) * 10 ^ exponent = digits' * 10 ^ exponent') :
    ofDecimal negative digits exponent = ofDecimal negative digits' exponent' := by
  have positive (exponent : Int) : 0 < Nat.pow 10 (-exponent).toNat := Nat.pow_pos (by decide)
  have nonzero (exponent : Int) : ((Nat.pow 10 (-exponent).toNat : Nat) : ℚ) ≠ 0 :=
    Nat.cast_ne_zero.mpr (positive exponent).ne'
  rw [zpow_eq_div, zpow_eq_div, ← mul_div_assoc, ← mul_div_assoc,
    div_eq_div_iff (nonzero exponent) (nonzero exponent')] at same
  rw [ofDecimal_eq_ofQuotient, ofDecimal_eq_ofQuotient]
  exact ofQuotient_congr negative (positive exponent) (positive exponent') (by exact_mod_cast same)

/-- An ordinal is made of an exponent and a significand, which has its full length above the least
    exponent. -/
theorem significand_spec (ordinal : Nat) :
    ordinal = (ordinal / Nat.pow 2 52 - 1) * Nat.pow 2 52 + significand ordinal ∧
      significand ordinal < 2 * Nat.pow 2 52 ∧
        (0 < ordinal / Nat.pow 2 52 - 1 → Nat.pow 2 52 ≤ significand ordinal) := by
  have positive : 0 < Nat.pow 2 52 := by decide
  have parts := Nat.div_add_mod ordinal (Nat.pow 2 52)
  have small := Nat.mod_lt ordinal positive
  unfold significand
  generalize Nat.pow 2 52 = half at *
  split
  · rename_i low
    rw [Nat.div_eq_of_lt low]
    omega
  · rename_i high
    have some : 0 < ordinal / half := Nat.div_pos (Nat.not_lt.mp high) positive
    obtain ⟨exponent, quotient⟩ := Nat.exists_eq_succ_of_ne_zero some.ne'
    rw [quotient] at parts ⊢
    rw [Nat.mul_succ, Nat.mul_comm] at parts
    rw [Nat.succ_sub_one]
    omega

theorem shift_le {half scaled shift shift' : Nat}
    (most : scaled < 2 * (half * (denominator * Nat.pow 2 shift)))
    (least : 0 < shift' → half * (denominator * Nat.pow 2 shift') ≤ scaled) : shift' ≤ shift := by
  by_contra longer
  have steps := Nat.mul_le_mul_left half
    (mul_pow_le (Nat.succ_le_of_lt (Nat.not_le.mp longer)) denominator)
  rw [Nat.succ_eq_add_one, mul_pow_succ, Nat.mul_left_comm] at steps
  have reached := least (Nat.zero_lt_of_lt (Nat.not_le.mp longer))
  omega

/-- No other shift brings the quotient to the length of a significand. -/
theorem nearestOrdinal_of_shift {shift : Nat} (positive : 0 < denominator)
    (most : numerator * unitsInOne < 2 * (Nat.pow 2 52 * (denominator * Nat.pow 2 shift)))
    (least : 0 < shift →
      Nat.pow 2 52 * (denominator * Nat.pow 2 shift) ≤ numerator * unitsInOne) :
    nearestOrdinal numerator denominator = shift * Nat.pow 2 52 +
      roundHalfEven (numerator * unitsInOne) (denominator * Nat.pow 2 shift) := by
  obtain ⟨other, most', least', nearest⟩ := exists_shift numerator positive
  have same : other = shift := Nat.le_antisymm (shift_le most least') (shift_le most' least)
  rwa [same] at nearest

section Close

/-! With `2 * half` steps in a significand, a relative distance below `1 / (4 * half)` is less than
half a step. -/

variable {half near scaled unit : Nat}

theorem two_mul_lt_of_close (length : near ≤ 2 * (half * unit))
    (above : 4 * (half * scaled) < 4 * (half * near) + near) : 2 * scaled < 2 * near + unit := by
  by_contra far
  have steps := Nat.mul_le_mul_left (2 * half) (Nat.not_lt.mp far)
  linarith

theorem two_mul_lt_of_close' (length : near ≤ 2 * (half * unit))
    (below : 4 * (half * near) < 4 * (half * scaled) + near) : 2 * near < 2 * scaled + unit := by
  by_contra far
  have steps := Nat.mul_le_mul_left (2 * half) (Nat.not_lt.mp far)
  linarith

theorem mul_le_two_mul_mul (length : near ≤ 2 * half) (unit : Nat) :
    near * unit ≤ 2 * (half * unit) := by
  rw [← Nat.mul_assoc]
  exact Nat.mul_le_mul_right unit length

theorem roundHalfEven_of_close (length : near ≤ 2 * half)
    (above : 4 * (half * scaled) < 4 * (half * (near * unit)) + near * unit)
    (below : 4 * (half * (near * unit)) < 4 * (half * scaled) + near * unit) :
    roundHalfEven scaled unit = near := by
  have product := mul_le_two_mul_mul length unit
  have upper := two_mul_lt_of_close product above
  have lower := two_mul_lt_of_close' product below
  exact roundHalfEven_eq (by linarith) (by linarith)

theorem lt_of_close (length : near < 2 * half)
    (above : 4 * (half * scaled) < 4 * (half * (near * unit)) + near * unit) :
    scaled < 2 * (half * unit) := by
  have upper := two_mul_lt_of_close (mul_le_two_mul_mul length.le unit) above
  have next := mul_le_two_mul_mul (Nat.succ_le_of_lt length) unit
  rw [Nat.succ_mul] at next
  omega

/-- Only the least significand is close to a number below the steps of its exponent. -/
theorem eq_half_of_close (positive : 0 < unit) (least : half ≤ near) (length : near < 2 * half)
    (few : scaled < half * unit)
    (below : 4 * (half * (near * unit)) < 4 * (half * scaled) + near * unit) : near = half := by
  by_contra other
  have more : half * unit + unit ≤ near * unit := by
    have next := Nat.mul_le_mul_right unit (by omega : half + 1 ≤ near)
    rwa [Nat.add_mul, Nat.one_mul] at next
  have lower := two_mul_lt_of_close' (mul_le_two_mul_mul length.le unit) below
  omega

end Close

/-- Close to a magnitude in relation to its size, rounding finds this magnitude. -/
theorem nearestOrdinal_eq {ordinal : Nat} (positive : 0 < denominator)
    (above : 4 * (Nat.pow 2 52 * (numerator * unitsInOne)) <
      4 * (Nat.pow 2 52 * (units ordinal * denominator)) + units ordinal * denominator)
    (below : 4 * (Nat.pow 2 52 * (units ordinal * denominator)) <
      4 * (Nat.pow 2 52 * (numerator * unitsInOne)) + units ordinal * denominator) :
    nearestOrdinal numerator denominator = ordinal := by
  obtain ⟨parts, short, long⟩ := significand_spec ordinal
  have one : 0 < Nat.pow 2 52 := by decide
  have value : units ordinal * denominator = significand ordinal *
      (denominator * Nat.pow 2 (ordinal / Nat.pow 2 52 - 1)) := by
    rw [units, Nat.mul_assoc, Nat.mul_comm denominator]
  have shifted (shift : Nat) := @nearestOrdinal_of_shift numerator denominator shift positive
  have unit (shift : Nat) : 0 < denominator * Nat.pow 2 shift :=
    Nat.mul_pos positive (Nat.pow_pos Nat.zero_lt_two)
  rw [value] at above below
  generalize significand ordinal = significand at *
  generalize ordinal / Nat.pow 2 52 - 1 = shift at *
  generalize numerator * unitsInOne = scaled at *
  generalize Nat.pow 2 52 = half at *
  -- a number just below a power of two lies among the steps before it, which are half as wide
  by_cases inside : 0 < shift → half * (denominator * Nat.pow 2 shift) ≤ scaled
  · rw [shifted shift (lt_of_close short above) inside, roundHalfEven_of_close short.le above below,
      ← parts]
  · obtain ⟨some, few⟩ : 0 < shift ∧ scaled < half * (denominator * Nat.pow 2 shift) := by omega
    obtain rfl := eq_half_of_close (unit shift) (long some) short few below
    obtain ⟨before, rfl⟩ := Nat.exists_eq_succ_of_ne_zero some.ne'
    have double : denominator * Nat.pow 2 (before + 1) = 2 * (denominator * Nat.pow 2 before) :=
      mul_pow_succ denominator before
    have product : significand * (2 * (denominator * Nat.pow 2 before)) =
        2 * significand * (denominator * Nat.pow 2 before) := by ring
    rw [Nat.succ_eq_add_one, double, product] at few above below
    have most : scaled < 2 * (significand * (denominator * Nat.pow 2 before)) := by
      rwa [← Nat.mul_assoc]
    have least : significand * (denominator * Nat.pow 2 before) ≤ scaled := by
      have lower := two_mul_lt_of_close' (mul_le_two_mul_mul le_rfl _) below
      have step : denominator * Nat.pow 2 before ≤ significand * (denominator * Nat.pow 2 before) :=
        Nat.le_mul_of_pos_left _ one
      rw [Nat.mul_assoc 2] at lower
      omega
    rw [shifted before most fun _ => least, roundHalfEven_of_close le_rfl above below, parts,
      Nat.succ_mul before]
    omega

/-- The nearer of the two neighbours is at most half a step away. -/
theorem near_neighbour (tiesUp : Bool) (ordinal : Nat) (exponent : Int) :
    (neighbours tiesUp ordinal exponent).1.exponent = exponent ∧
      2 * (units ordinal * Nat.pow 10 (-exponent).toNat) ≤
        (2 * (neighbours tiesUp ordinal exponent).1.digits + 1) *
          (unitsInOne * Nat.pow 10 exponent.toNat) ∧
      2 * (neighbours tiesUp ordinal exponent).1.digits *
          (unitsInOne * Nat.pow 10 exponent.toNat) ≤
        2 * (units ordinal * Nat.pow 10 (-exponent).toNat) +
          unitsInOne * Nat.pow 10 exponent.toNat := by
  have positive : 0 < unitsInOne * Nat.pow 10 exponent.toNat := by
    have one : 0 < unitsInOne := by decide +kernel
    exact Nat.mul_pos one (Nat.pow_pos (by decide))
  unfold neighbours
  dsimp only
  generalize units ordinal * Nat.pow 10 (-exponent).toNat = numerator
  generalize unitsInOne * Nat.pow 10 exponent.toNat = denominator at *
  have parts := Nat.div_add_mod numerator denominator
  have small := Nat.mod_lt numerator positive
  generalize numerator / denominator = below at *
  generalize numerator % denominator = rest at *
  subst parts
  split
  · rename_i up
    have half : denominator ≤ 2 * rest := by
      rcases Bool.or_eq_true_iff.mp up with more | equal
      · exact (of_decide_eq_true more).le
      · exact (of_decide_eq_true (Bool.and_eq_true_iff.mp equal).1).ge
    exact ⟨rfl, by linarith, by linarith⟩
  · rename_i down
    have half : 2 * rest ≤ denominator := by
      rw [Bool.not_eq_true, Bool.or_eq_false_iff, decide_eq_false_iff_not] at down
      exact Nat.not_lt.mp down.1
    exact ⟨rfl, by linarith, by linarith⟩

theorem units_pos {ordinal : Nat} (positive : 0 < ordinal) : 0 < units ordinal := by
  have power : 0 < Nat.pow 2 (ordinal / Nat.pow 2 52 - 1) := Nat.pow_pos Nat.zero_lt_two
  refine Nat.mul_pos ?_ power
  rw [significand]
  split
  · exact positive
  · exact Nat.add_pos_left (by decide) _

theorem unitsInOne_pos : 0 < unitsInOne := by decide +kernel

theorem zpow_neg_le_div {value whole : Nat} (positive : 0 < whole) {power : Nat}
    (le : whole ≤ value * Nat.pow 10 power) : (10 : ℚ) ^ (-(power : Int)) ≤ (value : ℚ) / whole := by
  have cast : (whole : ℚ) ≤ value * 10 ^ power := by exact_mod_cast le
  rw [zpow_neg, zpow_natCast, le_div_iff₀ (Nat.cast_pos.mpr positive), inv_mul_le_iff₀ (by positivity),
    mul_comm]
  exact cast

/-- The leading digit of a magnitude stands at least where the count of its places puts it. -/
theorem zpow_le_units {ordinal : Nat} (positive : 0 < ordinal) :
    (10 : ℚ) ^ (decimalPlaces ordinal - 1) ≤ (units ordinal : ℚ) / unitsInOne := by
  have some := units_pos positive
  have one := unitsInOne_pos
  rw [decimalPlaces]
  generalize units ordinal = value at *
  generalize unitsInOne = whole at *
  dsimp only
  split
  · rename_i large
    have nonzero : value / whole ≠ 0 := (Nat.div_pos large one).ne'
    have least := (zpow_le_mul_zpow nonzero 0).1
    rw [Int.add_zero, zpow_zero, mul_one] at least
    exact least.trans Nat.cast_div_le
  have long : 0 < (Nat.toDigits 10 (whole / value)).length := Nat.length_toDigits_pos
  have below : whole / value < 10 ^ (Nat.toDigits 10 (whole / value)).length :=
    (Nat.length_toDigits_le_iff (by decide) long).mp le_rfl
  generalize (Nat.toDigits 10 (whole / value)).length = size at *
  split
  · rename_i fits
    have exponent : 2 - (size : Int) - 1 = -((size - 1 : Nat) : Int) := by omega
    rw [exponent]
    exact zpow_neg_le_div one fits
  · have exponent : 1 - (size : Int) - 1 = -(size : Int) := by omega
    rw [exponent]
    rw [Nat.div_lt_iff_lt_mul some, Nat.mul_comm] at below
    exact zpow_neg_le_div one below.le

/-- Seventeen digits reach down to the sixteenth place after the leading one. -/
theorem steps_le_units {ordinal : Nat} (positive : 0 < ordinal) {exponent : Int}
    (places : exponent = decimalPlaces ordinal - (17 : Nat)) :
    Nat.pow 10 16 * (unitsInOne * Nat.pow 10 exponent.toNat) ≤
      units ordinal * Nat.pow 10 (-exponent).toNat := by
  have least := zpow_le_units positive
  have split : decimalPlaces ordinal - 1 = ((16 : Nat) : Int) + exponent := by omega
  have one : (0 : ℚ) < unitsInOne := Nat.cast_pos.mpr unitsInOne_pos
  have power : (0 : ℚ) < (Nat.pow 10 (-exponent).toNat : Nat) :=
    Nat.cast_pos.mpr (Nat.pow_pos (by decide))
  have sixteen : (10 : ℚ) ^ ((16 : Nat) : Int) = (Nat.pow 10 16 : Nat) := by
    rw [zpow_natCast]
    exact (Nat.cast_pow 10 16).symm
  rw [split, zpow_add₀ (by norm_num), sixteen, zpow_eq_div, ← mul_div_assoc,
    div_le_div_iff₀ power one] at least
  have natural : Nat.pow 10 16 * Nat.pow 10 exponent.toNat * unitsInOne ≤
      units ordinal * Nat.pow 10 (-exponent).toNat := by
    exact_mod_cast least
  rwa [Nat.mul_comm unitsInOne, ← Nat.mul_assoc]

theorem ofQuotient_of_nearest (negative : Bool) {numerator denominator ordinal : Nat}
    (finite : ordinal < magnitudeCount) (nearest : nearestOrdinal numerator denominator = ordinal) :
    ofQuotient negative numerator denominator = .finite negative ⟨ordinal, finite⟩ := by
  subst nearest
  exact dif_pos finite

/-- Seventeen digits read back as the magnitude they are taken from. -/
theorem readsBack_near (tiesUp : Bool) {ordinal : Nat} (positive : 0 < ordinal)
    (finite : ordinal < magnitudeCount) :
    readsBack ordinal (neighbours tiesUp ordinal (decimalPlaces ordinal - (17 : Nat))).1 = true := by
  obtain ⟨same, above, below⟩ :=
    near_neighbour tiesUp ordinal (decimalPlaces ordinal - (17 : Nat))
  have far := steps_le_units positive rfl
  have precise : 2 * Nat.pow 2 52 < Nat.pow 10 16 := by decide
  have step : 0 < unitsInOne *
      Nat.pow 10 (decimalPlaces ordinal - (17 : Nat)).toNat :=
    Nat.mul_pos unitsInOne_pos (Nat.pow_pos (by decide))
  rw [readsBack, ofDecimal_eq_ofQuotient, same]
  generalize (neighbours tiesUp ordinal (decimalPlaces ordinal - (17 : Nat))).1.digits = digits at *
  generalize decimalPlaces ordinal - (17 : Nat) = exponent at *
  have nearest : nearestOrdinal (digits * Nat.pow 10 exponent.toNat)
      (Nat.pow 10 (-exponent).toNat) = ordinal := by
    have product : digits * Nat.pow 10 exponent.toNat * unitsInOne =
        digits * (unitsInOne * Nat.pow 10 exponent.toNat) := by
      rw [Nat.mul_assoc, Nat.mul_comm unitsInOne]
    have many := Nat.mul_lt_mul_of_pos_right precise step
    refine nearestOrdinal_eq (Nat.pow_pos (by decide)) ?_ ?_
    all_goals
      rw [product]
      generalize unitsInOne * Nat.pow 10 exponent.toNat = denominator at *
      generalize units ordinal * Nat.pow 10 (-exponent).toNat = numerator at *
      generalize Nat.pow 2 52 = half at *
    · have steps := Nat.mul_le_mul_left (2 * half) below
      linarith
    · have steps := Nat.mul_le_mul_left (2 * half) above
      linarith
  rw [ofQuotient_of_nearest false finite nearest]
  exact decide_eq_true rfl

theorem readsBack_shortestFrom (tiesUp : Bool) {ordinal : Nat} {places : Int} {count more : Nat}
    (last : readsBack ordinal (neighbours tiesUp ordinal (places - (count + more : Nat))).1 = true) :
    readsBack ordinal (shortestFrom tiesUp ordinal places count more) = true := by
  induction more generalizing count with
  | zero => exact last
  | succ more ih =>
    rw [shortestFrom]
    dsimp only
    split
    · rename_i near
      exact near
    split
    · rename_i far
      exact far
    · refine ih ?_
      rwa [Nat.add_right_comm]

/-- The digits that are written for a magnitude read back as this magnitude. -/
theorem readsBack_shortest (tiesUp : Bool) {ordinal : Nat} (positive : 0 < ordinal)
    (finite : ordinal < magnitudeCount) : readsBack ordinal (shortest tiesUp ordinal) = true :=
  readsBack_shortestFrom tiesUp (readsBack_near tiesUp positive finite)

end QueryContract.Number.Binary64
