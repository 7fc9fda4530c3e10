import Mathlib.Algebra.Order.Field.Power
import Mathlib.Algebra.Order.Ring.Rat
import Mathlib.Order.Compare
import Mathlib.Tactic.Positivity
import PlcLang.Decimal

/-!
# `PlcLang.Proofs.Decimals.Value`: the number that a decimal is

A decimal stands for a rational number. Comparing two decimals compares these
numbers exactly, whatever their signs and scales: `compare_eq_cmp`.
-/

set_option autoImplicit false

namespace PlcLang.Decimal

/-- The number without its sign: the coefficient, at the scale of the exponent. -/
def magnitude (d : Decimal) : ℚ :=
  d.coefficient * 10 ^ d.exponent

/-- The number. A positive and a negative zero are the same number, and so are
decimals that differ in how many zeros they have at the end. -/
def toRat (d : Decimal) : ℚ :=
  d.signed * 10 ^ d.exponent

/-- A magnitude has no sign. -/
theorem magnitude_nonneg (d : Decimal) : 0 ≤ d.magnitude := by
  unfold magnitude
  positivity

/-- It is zero only if the coefficient is. -/
theorem magnitude_pos {d : Decimal} (h : 0 < d.coefficient) : 0 < d.magnitude := by
  unfold magnitude
  positivity

/-- A decimal with a sign is the opposite of its magnitude. -/
theorem toRat_of_negative {d : Decimal} (h : d.negative = true) : d.toRat = -d.magnitude := by
  simp [toRat, magnitude, signed, h]

/-- A decimal without a sign is its magnitude. -/
theorem toRat_of_positive {d : Decimal} (h : d.negative = false) : d.toRat = d.magnitude := by
  simp [toRat, magnitude, signed, h]

/-- Without its sign a decimal is its own magnitude. -/
theorem toRat_abs (d : Decimal) : d.abs.toRat = |d.toRat| := by
  have habs : d.abs.toRat = d.magnitude := toRat_of_positive rfl
  rw [habs]
  cases h : d.negative with
  | true => rw [toRat_of_negative h, abs_neg, abs_of_nonneg d.magnitude_nonneg]
  | false => rw [toRat_of_positive h, abs_of_nonneg d.magnitude_nonneg]

/-- A power of ten that is worked out is that power. -/
theorem cast_tenTo {power : ℤ} (h : 0 ≤ power) :
    ((tenTo power.toNat : ℕ) : ℚ) = 10 ^ power := by
  have hcast : ((tenTo power.toNat : ℕ) : ℚ) = 10 ^ power.toNat := Nat.cast_pow 10 _
  rw [hcast, ← zpow_natCast, Int.toNat_of_nonneg h]

/-- The coefficient at a finer scale. This is how sizes are compared that are given
at different scales. -/
theorem magnitude_eq {d : Decimal} {scale : ℤ} (h : scale ≤ d.exponent) :
    d.magnitude = ((d.coefficient * tenTo (d.exponent - scale).toNat : ℕ) : ℚ) * 10 ^ scale := by
  rw [magnitude, Nat.cast_mul, cast_tenTo (Int.sub_nonneg.mpr h), mul_assoc,
    ← zpow_add₀ (by norm_num), sub_add_cancel]

/-- At one scale the coefficients decide. -/
theorem cmp_natCast_mul (m n : ℕ) (scale : ℤ) :
    cmp ((m : ℚ) * 10 ^ scale) (n * 10 ^ scale) = Ord.compare m n := by
  have hpos : (0 : ℚ) < 10 ^ scale := by positivity
  rw [cmp_mul_pos_right hpos, Nat.strictMono_cast.cmp_map_eq, cmp_eq_compare]

/-- Sizes are compared exactly, at the finer of the two scales, however far the two
are apart. -/
theorem compareSizes_eq {a b : Decimal} (ha : 0 < a.coefficient) (hb : 0 < b.coefficient) :
    compareSizes a b = cmp a.magnitude b.magnitude := by
  unfold compareSizes
  by_cases h : b.exponent ≤ a.exponent
  · rw [if_pos h, compareScaled_eq ha, magnitude_eq h]
    exact (cmp_natCast_mul _ _ _).symm
  · rw [if_neg h, compareScaled_eq hb, magnitude_eq (Int.le_of_lt (Int.not_le.mp h)), magnitude,
      ← cmp_natCast_mul _ _ a.exponent, cmp_swap]

/-- What the sign of a decimal says about its number: whether it is zero, its
magnitude or the opposite of that. -/
inductive Signed (d : Decimal) : ℤ → Prop where
  | zero (hzero : d.coefficient = 0) (hrat : d.toRat = 0) : Signed d 0
  | positive (hcoefficient : 0 < d.coefficient) (hnegative : d.negative = false)
      (hrat : d.toRat = d.magnitude) : Signed d 1
  | negative (hcoefficient : 0 < d.coefficient) (hnegative : d.negative = true)
      (hrat : d.toRat = -d.magnitude) : Signed d (-1)

/-- Every decimal is one of the three. -/
theorem signed_sign (d : Decimal) : Signed d d.signed.sign := by
  rcases Nat.eq_zero_or_pos d.coefficient with hzero | hpos
  · have hsigned : d.signed = 0 := by simp [signed, hzero]
    rw [hsigned]
    exact .zero hzero (by simp [toRat, hsigned])
  · cases hnegative : d.negative with
    | true =>
        have hsign : d.signed.sign = -1 := by
          rw [signed, if_pos hnegative]
          exact Int.sign_eq_neg_one_of_neg (by omega)
        rw [hsign]
        exact .negative hpos hnegative (toRat_of_negative hnegative)
    | false =>
        have hsign : d.signed.sign = 1 := by
          rw [signed, if_neg (by simp [hnegative])]
          exact Int.sign_eq_one_of_pos (by omega)
        rw [hsign]
        exact .positive hpos hnegative (toRat_of_positive hnegative)

/-- A number of a smaller sign is smaller, whatever the sizes. -/
theorem Signed.lt {a b : Decimal} {i j : ℤ} (ha : Signed a i) (hb : Signed b j) (h : i < j) :
    a.toRat < b.toRat := by
  cases ha with
  | zero _ hrat =>
      cases hb with
      | positive hb _ hratB =>
          rw [hrat, hratB]
          exact magnitude_pos hb
      | _ => omega
  | positive => cases hb <;> omega
  | negative ha _ hrat =>
      have hneg : a.toRat < 0 := by
        rw [hrat]
        exact neg_neg_of_pos (magnitude_pos ha)
      cases hb with
      | zero _ hratB => rwa [hratB]
      | positive hb _ hratB =>
          rw [hratB]
          exact hneg.trans (magnitude_pos hb)
      | negative => omega

/-- Within a sign the sizes decide, the other way round below zero. -/
theorem Signed.cmp_eq {a b : Decimal} {i : ℤ} (ha : Signed a i) (hb : Signed b i) :
    (if a.isZero then .eq else if a.negative then compareSizes b a else compareSizes a b)
      = cmp a.toRat b.toRat := by
  cases ha with
  | zero hzero hrat =>
      cases hb with
      | zero _ hratB => rw [hrat, hratB, cmp_self_eq_eq, isZero, hzero, if_pos (by rfl)]
  | positive ha hnegative hrat =>
      cases hb with
      | positive hb _ hratB =>
          rw [isZero, if_neg (by simp [ha.ne']), if_neg (by simp [hnegative]), hrat, hratB,
            compareSizes_eq ha hb]
  | negative ha hnegative hrat =>
      cases hb with
      | negative hb _ hratB =>
          rw [isZero, if_neg (by simp [ha.ne']), if_pos hnegative, hrat, hratB,
            compareSizes_eq hb ha]
          exact (StrictAnti.cmp_map_eq (fun x y => neg_lt_neg) a.magnitude b.magnitude).symm

/-- Decimals are compared as the numbers that they are, and not digit by digit: by
their signs first, and by their sizes if these are the same. -/
theorem compare_eq_cmp (a b : Decimal) : a.compare b = cmp a.toRat b.toRat := by
  have ha := a.signed_sign
  have hb := b.signed_sign
  unfold compare
  rcases lt_trichotomy a.signed.sign b.signed.sign with hlt | heq | hgt
  · rw [Int.compare_eq_lt.mpr hlt, (cmp_eq_lt_iff _ _).mpr (ha.lt hb hlt)]
    rfl
  · rw [heq] at ha
    rw [heq, Int.compare_eq_eq.mpr rfl, Ordering.then]
    exact ha.cmp_eq hb
  · rw [Int.compare_eq_gt.mpr hgt, (cmp_eq_gt_iff _ _).mpr (hb.lt ha hgt)]
    rfl

/-- A decimal is at most another if it does not compare as greater. -/
theorem compare_ne_gt_iff (a b : Decimal) : (a.compare b != .gt) = true ↔ a.toRat ≤ b.toRat := by
  rw [compare_eq_cmp, bne_iff_ne, ne_eq, cmp_eq_gt_iff, not_lt]

end PlcLang.Decimal
