import Mathlib.Algebra.Order.Field.Power
import Mathlib.Data.Rat.Cast.Order
import Mathlib.Tactic.Linarith
import Mathlib.Tactic.Ring
import QueryContract.Number.Binary64

/-!
Which numbers have a finite double nearest to them: those below the middle between the largest finite
magnitude and the next power of two, which would be the next one.
-/

namespace QueryContract.Number.Binary64

theorem roundHalfEven_bounds (numerator denominator : Nat) :
    numerator / denominator ≤ roundHalfEven numerator denominator ∧
      roundHalfEven numerator denominator ≤ numerator / denominator + 1 := by
  unfold roundHalfEven
  dsimp only
  split
  · omega
  · split <;> omega

/-- A quotient rounds below an even number exactly if it lies below the middle before that number. -/
theorem roundHalfEven_lt_iff (numerator : Nat) {denominator : Nat} (positive : 0 < denominator)
    {bound : Nat} (even : bound % 2 = 0) : roundHalfEven numerator denominator < bound ↔
      2 * numerator + denominator < 2 * bound * denominator := by
  have parts := Nat.div_add_mod numerator denominator
  have small := Nat.mod_lt numerator positive
  obtain ⟨least, most⟩ := roundHalfEven_bounds numerator denominator
  unfold roundHalfEven at *
  dsimp only at *
  generalize numerator / denominator = quotient at *
  generalize numerator % denominator = rest at *
  -- only the quotient right before the bound leaves the remainder to decide
  rcases Nat.lt_trichotomy (quotient + 1) bound with below | rfl | above
  · have scaled : 2 * denominator * (quotient + 2) ≤ 2 * denominator * bound :=
      Nat.mul_le_mul_left _ below
    refine iff_of_true (most.trans_lt below) ?_
    linarith
  · have odd : quotient % 2 = 1 := by omega
    rw [odd]
    constructor
    · intro h
      have half : 2 * rest < denominator := by
        by_contra
        split at h
        · omega
        · split at h <;> omega
      linarith
    · intro h
      have half : 2 * rest < denominator := by linarith
      rw [if_pos half]
      exact Nat.lt_succ_self quotient
  · have scaled : 2 * denominator * bound ≤ 2 * denominator * quotient :=
      Nat.mul_le_mul_left _ (Nat.le_of_lt_succ above)
    refine iff_of_false (Nat.not_lt.mpr ((Nat.le_of_lt_succ above).trans least)) ?_
    rw [Nat.not_lt]
    linarith

/-- The middle between the largest finite magnitude and the power of two that would follow it. -/
def overflowBound : Nat := (Nat.pow 2 54 - 1) * Nat.pow 2 970

theorem mul_unitsInOne : Nat.pow 2 970 * unitsInOne = Nat.pow 2 2044 := by decide +kernel

theorem lt_overflowBound_mul_iff (numerator denominator : Nat) :
    numerator < overflowBound * denominator ↔
      numerator * unitsInOne < (Nat.pow 2 54 - 1) * (Nat.pow 2 2044 * denominator) := by
  have positive : 0 < unitsInOne := by decide +kernel
  have scaled : (Nat.pow 2 54 - 1) * (Nat.pow 2 2044 * denominator) =
      overflowBound * denominator * unitsInOne := by
    rw [← mul_unitsInOne, overflowBound]
    simp only [Nat.mul_assoc, Nat.mul_comm unitsInOne denominator]
  rw [scaled, Nat.mul_lt_mul_right positive]

/-- The shift brings a number of at least 53 bits down to 53 of them. -/
theorem shift_bounds (whole : Nat) (high : ¬whole < Nat.pow 2 53) :
    0 < Nat.log2 whole - 52 ∧ Nat.pow 2 52 * Nat.pow 2 (Nat.log2 whole - 52) ≤ whole ∧
      whole < 2 * Nat.pow 2 52 * Nat.pow 2 (Nat.log2 whole - 52) := by
  have positive : whole ≠ 0 := by
    rintro rfl
    exact high (by decide)
  have long : 53 ≤ Nat.log2 whole := (Nat.le_log2 positive).mpr (Nat.not_lt.mp high)
  have split : 52 + (Nat.log2 whole - 52) = Nat.log2 whole := by omega
  have product : Nat.pow 2 52 * Nat.pow 2 (Nat.log2 whole - 52) = Nat.pow 2 (Nat.log2 whole) :=
    (Nat.pow_add 2 52 _).symm.trans (congrArg (Nat.pow 2) split)
  have below : Nat.pow 2 (Nat.log2 whole) ≤ whole := Nat.log2_self_le positive
  have above : whole < Nat.pow 2 (Nat.log2 whole) * 2 := Nat.lt_log2_self
  rw [Nat.mul_assoc, product]
  omega

/-- With `half` steps in the first half of a significand, rounding passes the exponent after `top`
    exactly from half a step below the end of that exponent on. `unit` is the step at the exponent of
    the number, and `limit` half of the step at the exponent after `top`. -/
theorem shifted_lt_iff {half scaled unit limit shift top : Nat} (large : 4 < half)
    (even : half % 2 = 0) (positive : 0 < unit) (most : scaled < 2 * (half * unit))
    (least : 0 < shift → half * unit ≤ scaled) (inside : shift ≤ top → unit ≤ limit)
    (last : shift = top + 1 → unit = 2 * limit) (beyond : top + 2 ≤ shift → 4 * limit ≤ unit) :
    shift * half + roundHalfEven scaled unit < (top + 3) * half ↔
      scaled + limit < 4 * (half * limit) := by
  have bound (number : Nat) (even : number % 2 = 0) :=
    roundHalfEven_lt_iff scaled positive even
  have three : (top + 3) * half = top * half + 3 * half := Nat.add_mul top 3 half
  rcases Nat.lt_trichotomy shift (top + 1) with lower | rfl | higher
  · have rounded := (bound (2 * half + 2) (by omega)).mpr (by linarith)
    have exponents : shift * half ≤ top * half := Nat.mul_le_mul_right half (by omega)
    have steps : half * unit ≤ half * limit := Nat.mul_le_mul_left half (inside (by omega))
    have one : 4 * limit ≤ half * limit := Nat.mul_le_mul_right limit large.le
    exact iff_of_true (by omega) (by omega)
  · have exponent : (top + 1) * half = top * half + half := Nat.succ_mul top half
    have rounded := bound (2 * half) (by omega)
    have products : 2 * (2 * half) * (2 * limit) = 8 * (half * limit) := by ring
    rw [last rfl] at rounded ⊢
    rw [products] at rounded
    rw [three, exponent]
    omega
  · have exponents : (top + 2) * half ≤ shift * half := Nat.mul_le_mul_right half (by omega)
    have two : (top + 2) * half = top * half + 2 * half := Nat.add_mul top 2 half
    have reached := least (by omega)
    have steps : half * (4 * limit) ≤ half * unit := Nat.mul_le_mul_left half (beyond (by omega))
    have rounded : ¬roundHalfEven scaled unit < half := by
      rw [bound half even, Nat.not_lt]
      linarith
    have quadruple : half * (4 * limit) = 4 * (half * limit) := Nat.mul_left_comm half 4 limit
    exact iff_of_false (by omega) (by omega)

theorem mul_pow_le {low high : Nat} (le : low ≤ high) (denominator : Nat) :
    denominator * Nat.pow 2 low ≤ denominator * Nat.pow 2 high :=
  Nat.mul_le_mul_left denominator (Nat.pow_le_pow_right Nat.zero_lt_two le)

theorem mul_pow_succ (denominator exponent : Nat) :
    denominator * Nat.pow 2 (exponent + 1) = 2 * (denominator * Nat.pow 2 exponent) := by
  rw [Nat.mul_left_comm]
  exact congrArg (denominator * ·) (Nat.mul_comm _ 2)

theorem four_mul_pow_le {low high : Nat} (le : low + 2 ≤ high) (denominator : Nat) :
    4 * (denominator * Nat.pow 2 low) ≤ denominator * Nat.pow 2 high := by
  have steps := mul_pow_le le denominator
  have second : denominator * Nat.pow 2 (low + 2) = 2 * (denominator * Nat.pow 2 (low + 1)) :=
    mul_pow_succ denominator (low + 1)
  have first := mul_pow_succ denominator low
  omega

/-- The shift of the nearest ordinal, which brings the quotient to the length of a significand. -/
theorem exists_shift (numerator : Nat) {denominator : Nat} (positive : 0 < denominator) :
    ∃ shift, numerator * unitsInOne < 2 * (Nat.pow 2 52 * (denominator * Nat.pow 2 shift)) ∧
      (0 < shift →
        Nat.pow 2 52 * (denominator * Nat.pow 2 shift) ≤ numerator * unitsInOne) ∧
      nearestOrdinal numerator denominator = shift * Nat.pow 2 52 +
        roundHalfEven (numerator * unitsInOne) (denominator * Nat.pow 2 shift) := by
  have double : Nat.pow 2 53 = 2 * Nat.pow 2 52 := rfl
  have bounds := shift_bounds (numerator * unitsInOne / denominator)
  rw [nearestOrdinal]
  rw [double] at bounds ⊢
  have below := Nat.lt_mul_div_succ (numerator * unitsInOne) positive
  have above := Nat.mul_div_le (numerator * unitsInOne) denominator
  -- from here on the sizes are names: none of the powers may be computed
  generalize numerator * unitsInOne = scaled at *
  generalize scaled / denominator = whole at *
  generalize Nat.pow 2 52 = half at *
  have product (shift : Nat) : half * (denominator * Nat.pow 2 shift) =
      denominator * (half * Nat.pow 2 shift) := Nat.mul_left_comm ..
  split
  · rename_i low
    have few : denominator * (whole + 1) ≤ denominator * (2 * half) :=
      Nat.mul_le_mul_left denominator low
    have none : denominator * (2 * half) = 2 * (half * (denominator * Nat.pow 2 0)) := by
      rw [product, Nat.mul_left_comm]
      exact congrArg (2 * (denominator * ·)) (Nat.mul_one half).symm
    exact ⟨0, by omega, nofun, rfl⟩
  · rename_i high
    obtain ⟨-, least, most⟩ := bounds high
    generalize Nat.log2 whole - 52 = shift at *
    have few : denominator * (whole + 1) ≤ denominator * (2 * half * Nat.pow 2 shift) :=
      Nat.mul_le_mul_left denominator most
    have many : denominator * (half * Nat.pow 2 shift) ≤ denominator * whole :=
      Nat.mul_le_mul_left denominator least
    have twice : denominator * (2 * half * Nat.pow 2 shift) =
        2 * (half * (denominator * Nat.pow 2 shift)) := by
      rw [product, Nat.mul_assoc, Nat.mul_left_comm]
    exact ⟨shift, by omega, fun _ => by rw [product]; omega, rfl⟩

theorem nearestOrdinal_lt_iff {numerator denominator : Nat} (positive : 0 < denominator) :
    nearestOrdinal numerator denominator < magnitudeCount ↔
      numerator < overflowBound * denominator := by
  have quadruple : Nat.pow 2 54 = 4 * Nat.pow 2 52 := rfl
  have large : 4 < Nat.pow 2 52 := by decide
  have even : Nat.pow 2 52 % 2 = 0 := rfl
  have exponents : 2047 = 2044 + 3 := rfl
  obtain ⟨shift, most, least, nearest⟩ := exists_shift numerator positive
  rw [lt_overflowBound_mul_iff, nearest, magnitudeCount, quadruple, exponents]
  generalize numerator * unitsInOne = scaled at *
  generalize Nat.pow 2 52 = half at *
  generalize 2044 = top
  have limit : scaled < (4 * half - 1) * (Nat.pow 2 top * denominator) ↔
      scaled + denominator * Nat.pow 2 top < 4 * (half * (denominator * Nat.pow 2 top)) := by
    rw [Nat.sub_mul, Nat.one_mul, Nat.lt_sub_iff_add_lt, Nat.mul_assoc, Nat.mul_comm denominator]
  have unit : 0 < denominator * Nat.pow 2 shift :=
    Nat.mul_pos positive (Nat.pow_pos Nat.zero_lt_two)
  rw [limit]
  exact shifted_lt_iff large even unit most least (mul_pow_le · _)
    (fun last => last ▸ mul_pow_succ _ _) (four_mul_pow_le · _)

theorem isFinite_ofQuotient_iff (negative : Bool) {numerator denominator : Nat}
    (positive : 0 < denominator) : (ofQuotient negative numerator denominator).isFinite = true ↔
      numerator < overflowBound * denominator := by
  rw [← nearestOrdinal_lt_iff positive, ofQuotient]
  split
  · rename_i fits
    exact iff_of_true rfl fits
  · rename_i exceeds
    exact iff_of_false Bool.false_ne_true exceeds

theorem ofQuotient_of_le (negative : Bool) {numerator denominator : Nat}
    (positive : 0 < denominator) (large : overflowBound * denominator ≤ numerator) :
    ofQuotient negative numerator denominator = .infinite negative := by
  rw [ofQuotient, dif_neg (mt (nearestOrdinal_lt_iff positive).mp (Nat.not_lt.mpr large))]

theorem ofQuotient_of_lt (negative : Bool) {numerator denominator : Nat}
    (small : 2 * (numerator * unitsInOne) < denominator) :
    ofQuotient negative numerator denominator = zero negative := by
  have nearest : nearestOrdinal numerator denominator = 0 := by
    have below : numerator * unitsInOne / denominator = 0 := Nat.div_eq_of_lt (by omega)
    have whole : numerator * unitsInOne % denominator = numerator * unitsInOne :=
      Nat.mod_eq_of_lt (by omega)
    have one : denominator * Nat.pow 2 0 = denominator := Nat.mul_one denominator
    have few : 0 < Nat.pow 2 53 := by decide
    simp only [nearestOrdinal, roundHalfEven, below, if_pos few, one, whole, if_pos small,
      Nat.zero_mul]
  simp only [ofQuotient, nearest]
  exact dif_pos (by decide)

/-- A quotient of powers of ten instead of one power with a sign. -/
theorem zpow_eq_div (exponent : Int) : (10 : ℚ) ^ exponent =
    (Nat.pow 10 exponent.toNat : Nat) / (Nat.pow 10 (-exponent).toNat : Nat) := by
  have cast (power : Nat) : ((Nat.pow 10 power : Nat) : ℚ) = 10 ^ power := Nat.cast_pow 10 power
  rw [cast, cast, ← zpow_natCast, ← zpow_natCast, ← zpow_sub₀ (by norm_num)]
  congr 1
  omega

theorem mul_zpow_lt_iff (digits bound : Nat) (exponent : Int) :
    (digits : ℚ) * 10 ^ exponent < bound ↔
      digits * Nat.pow 10 exponent.toNat < bound * Nat.pow 10 (-exponent).toNat := by
  have positive : (0 : ℚ) < (Nat.pow 10 (-exponent).toNat : Nat) :=
    Nat.cast_pos.mpr (Nat.pow_pos (by decide))
  rw [zpow_eq_div, ← mul_div_assoc, div_lt_iff₀ positive]
  exact_mod_cast Iff.rfl

/-- A positive number of so many digits lies between two powers of ten. -/
theorem zpow_le_mul_zpow {digits : Nat} (positive : digits ≠ 0) (exponent : Int) :
    (10 : ℚ) ^ ((Nat.toDigits 10 digits).length + exponent - 1) ≤ digits * 10 ^ exponent ∧
      (digits : ℚ) * 10 ^ exponent < 10 ^ ((Nat.toDigits 10 digits).length + exponent) := by
  have long := Nat.length_toDigits_pos (b := 10) (n := digits)
  have below : digits < 10 ^ (Nat.toDigits 10 digits).length :=
    (Nat.length_toDigits_le_iff (by decide) long).mp le_rfl
  have above : 10 ^ ((Nat.toDigits 10 digits).length - 1) ≤ digits := by
    by_cases single : (Nat.toDigits 10 digits).length = 1
    · rw [single]
      exact Nat.one_le_iff_ne_zero.mpr positive
    · by_contra less
      have shorter := (Nat.length_toDigits_le_iff (b := 10) (n := digits) (by decide)
        (by omega : 0 < (Nat.toDigits 10 digits).length - 1)).mpr (Nat.not_le.mp less)
      omega
  generalize (Nat.toDigits 10 digits).length = count at *
  have power : (0 : ℚ) < 10 ^ exponent := by positivity
  constructor
  · have split : ((count : Int) + exponent - 1) = (count - 1 : Nat) + exponent := by omega
    rw [split, zpow_add₀ (by norm_num), zpow_natCast]
    exact mul_le_mul_of_nonneg_right (by exact_mod_cast above) power.le
  · rw [zpow_add₀ (by norm_num), zpow_natCast]
    exact mul_lt_mul_of_pos_right (by exact_mod_cast below) power

theorem cast_le_zpow {bound power : Nat} (le : bound ≤ Nat.pow 10 power) :
    (bound : ℚ) ≤ 10 ^ (power : Int) := by
  rw [zpow_natCast]
  exact_mod_cast le

/-- Below the powers of ten that are tried, a number is less than half of the least magnitude. -/
theorem two_mul_lt_of_tiny {digits : Nat} {exponent : Int} (positive : digits ≠ 0)
    (tiny : (Nat.toDigits 10 digits).length + exponent < -400) :
    2 * (digits * Nat.pow 10 exponent.toNat * unitsInOne) < Nat.pow 10 (-exponent).toNat := by
  have huge : ((2 * unitsInOne : Nat) : ℚ) ≤ 10 ^ ((401 : Nat) : Int) :=
    cast_le_zpow (by decide +kernel)
  have power : (0 : ℚ) < 10 ^ ((401 : Nat) : Int) := by positivity
  have small : (digits : ℚ) * 10 ^ exponent < 10 ^ (-(401 : Nat) : Int) :=
    (zpow_le_mul_zpow positive exponent).2.trans_le (zpow_le_zpow_right₀ (by norm_num) (by omega))
  have unit : ((2 * unitsInOne * digits : Nat) : ℚ) * 10 ^ exponent < (1 : Nat) := calc
    ((2 * unitsInOne * digits : Nat) : ℚ) * 10 ^ exponent =
        (2 * unitsInOne : Nat) * ((digits : ℚ) * 10 ^ exponent) := by
      rw [Nat.cast_mul, mul_assoc]
    _ ≤ 10 ^ ((401 : Nat) : Int) * ((digits : ℚ) * 10 ^ exponent) :=
      mul_le_mul_of_nonneg_right huge (by positivity)
    _ < 10 ^ ((401 : Nat) : Int) * 10 ^ (-(401 : Nat) : Int) := mul_lt_mul_of_pos_left small power
    _ = (1 : Nat) := by rw [zpow_neg, mul_inv_cancel₀ power.ne', Nat.cast_one]
  rw [mul_zpow_lt_iff, Nat.one_mul] at unit
  rwa [Nat.mul_comm _ unitsInOne, ← Nat.mul_assoc, ← Nat.mul_assoc]

/-- Above the powers of ten that are tried, a number is past the bound of the doubles. -/
theorem overflowBound_mul_le_of_huge {digits : Nat} {exponent : Int} (positive : digits ≠ 0)
    (huge : 400 < (Nat.toDigits 10 digits).length + exponent) :
    overflowBound * Nat.pow 10 (-exponent).toNat ≤ digits * Nat.pow 10 exponent.toNat := by
  have bound : (overflowBound : ℚ) ≤ 10 ^ ((400 : Nat) : Int) := cast_le_zpow (by decide +kernel)
  have above : (10 : ℚ) ^ ((400 : Nat) : Int) ≤
      10 ^ ((Nat.toDigits 10 digits).length + exponent - 1) :=
    zpow_le_zpow_right₀ (by norm_num) (by omega)
  have least := (zpow_le_mul_zpow positive exponent).1
  rw [← Nat.not_lt, ← mul_zpow_lt_iff]
  linarith

/-- The limits on the powers of ten never decide: rounding would give the same. -/
theorem ofDecimal_eq_ofQuotient (negative : Bool) (digits : Nat) (exponent : Int) :
    ofDecimal negative digits exponent = ofQuotient negative
      (digits * Nat.pow 10 exponent.toNat) (Nat.pow 10 (-exponent).toNat) := by
  have positive : 0 < Nat.pow 10 (-exponent).toNat := Nat.pow_pos (by decide)
  rw [ofDecimal]
  by_cases zero : digits = 0
  · subst zero
    rw [if_pos (.inl rfl), Nat.zero_mul, ofQuotient_of_lt negative (by omega)]
  by_cases tiny : (Nat.toDigits 10 digits).length + exponent < -400
  · rw [if_pos (.inr tiny), ofQuotient_of_lt negative (two_mul_lt_of_tiny zero tiny)]
  · rw [if_neg (by simp [zero, tiny])]
    split
    · rename_i huge
      rw [ofQuotient_of_le negative positive (overflowBound_mul_le_of_huge zero huge)]
    · rfl

/-- A decimal number has a finite double exactly if its magnitude stays below the bound. -/
theorem isFinite_ofDecimal_iff (negative : Bool) (digits : Nat) (exponent : Int) :
    (ofDecimal negative digits exponent).isFinite = true ↔
      (digits : ℚ) * 10 ^ exponent < overflowBound := by
  have positive : 0 < Nat.pow 10 (-exponent).toNat := Nat.pow_pos (by decide)
  rw [ofDecimal_eq_ofQuotient, isFinite_ofQuotient_iff negative positive, mul_zpow_lt_iff]

end QueryContract.Number.Binary64
