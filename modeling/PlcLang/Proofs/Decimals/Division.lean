import Mathlib.Algebra.Ring.Int.Parity
import Mathlib.Tactic.Linarith
import PlcLang.Execution.Operators
import PlcLang.Proofs.Decimals.Value

/-!
# `PlcLang.Proofs.Decimals.Division`: quotients are correctly rounded

A quotient of decimals has the scale of its dividend, and its coefficient is the exact
quotient at that scale, rounded to the nearest integer and from a tie to the even one.

`RoundsToEven` says what that means without saying how it is done. There is one such
integer at most (`RoundsToEven.unique`), and rounding does not prefer a sign
(`RoundsToEven.neg`), so negating an operand negates the quotient. `divideToEven` reads
the choice off a remainder: `roundsToEven_divideToEven`. Quotients of integers cut their
fraction off, and only a division by zero fails; all of it together is
`division_correctly_rounded`.
-/

set_option autoImplicit false

namespace PlcLang

/-- No integer is nearer to the number, and if another one is just as near, this one is
even. -/
structure RoundsToEven (x : ℚ) (n : ℤ) : Prop where
  nearest : ∀ m : ℤ, |x - n| ≤ |x - m|
  even_of_tie : ∀ m : ℤ, m ≠ n → |x - m| = |x - n| → Even n

namespace RoundsToEven

variable {x : ℚ} {m n : ℤ}

/-- Different integers are at least one apart, and so not both near to the same
number. -/
theorem one_le_dist (h : m ≠ n) : (1 : ℚ) ≤ |x - m| + |x - n| := by
  have hdiff : (1 : ℚ) ≤ |(m : ℚ) - n| := by
    exact_mod_cast Int.one_le_abs (sub_ne_zero.mpr h)
  calc (1 : ℚ) ≤ |(m : ℚ) - n| := hdiff
    _ = |(x - n) - (x - m)| := by rw [sub_sub_sub_cancel_left]
    _ ≤ |x - n| + |x - m| := abs_sub _ _
    _ = |x - m| + |x - n| := add_comm _ _

/-- An integer at most one half away is nearest. Two are just as near only if they are
one half away. -/
theorem of_half (hhalf : 2 * |x - n| ≤ 1) (htie : 2 * |x - n| = 1 → Even n) :
    RoundsToEven x n := by
  constructor
  · intro m
    by_cases h : m = n
    · rw [h]
    · have := one_le_dist (x := x) h
      linarith
  · intro m hne heq
    have := one_le_dist (x := x) hne
    exact htie (by linarith)

/-- There is no second choice: between two even integers that are just as near lies the
number itself, which is an integer then. -/
theorem unique (hm : RoundsToEven x m) (hn : RoundsToEven x n) : m = n := by
  by_contra hne
  have hdist : |x - m| = |x - n| := le_antisymm (hm.nearest n) (hn.nearest m)
  obtain ⟨i, hi⟩ := hm.even_of_tie n (Ne.symm hne) hdist.symm
  obtain ⟨j, hj⟩ := hn.even_of_tie m hne hdist
  -- Both are even, so what lies half way between them is an integer.
  have hmiddle : x = ((i + j : ℤ) : ℚ) := by
    rcases abs_eq_abs.mp hdist with heq | hneg
    · exact absurd (Int.cast_injective (sub_right_injective heq)) hne
    · rw [hi, hj] at hneg
      push_cast at hneg ⊢
      linarith
  have hzero : |x - m| ≤ 0 := by
    have := hm.nearest (i + j)
    rwa [← hmiddle, sub_self, abs_zero] at this
  have hx : x = m := sub_eq_zero.mp (abs_nonpos_iff.mp hzero)
  have hx' : x = n := sub_eq_zero.mp (abs_nonpos_iff.mp (hdist ▸ hzero))
  exact hne (Int.cast_injective (hx.symm.trans hx'))

/-- Rounding does not prefer a sign: what is nearest to a number is nearest to its
negative when negated. -/
theorem neg (h : RoundsToEven x n) : RoundsToEven (-x) (-n) := by
  have hdist : ∀ m : ℤ, |-x - m| = |x - (-m : ℤ)| := fun m => by
    rw [← abs_neg, Int.cast_neg, neg_sub, sub_neg_eq_add, sub_neg_eq_add, add_comm]
  constructor
  · intro m
    rw [hdist, hdist, neg_neg]
    exact h.nearest (-m)
  · intro m hne heq
    rw [hdist, hdist, neg_neg] at heq
    exact (h.even_of_tie (-m) (by rwa [ne_eq, neg_eq_iff_eq_neg]) heq).neg

end RoundsToEven

namespace Decimal

/-! ### The choice by the remainder -/

/-- Whether an integer rounds a fraction can be read off its distance from it, counted in
parts of the fraction. -/
theorem roundsToEven_of_parts {num n : ℤ} {den : ℕ} (hden : 0 < den)
    (hhalf : 2 * |num - n * den| ≤ den) (htie : 2 * |num - n * den| = den → Even n) :
    RoundsToEven (num / den) n := by
  have hpos : (0 : ℚ) < den := Nat.cast_pos.mpr hden
  have hdist : |(num : ℚ) / den - n| = (|num - n * den| : ℤ) / den := by
    rw [div_sub' hpos.ne', abs_div, abs_of_pos hpos, Int.cast_abs]
    push_cast
    rw [mul_comm (den : ℚ)]
  refine RoundsToEven.of_half ?_ fun h => htie ?_
  · rw [hdist, ← mul_div_assoc, div_le_one hpos]
    exact_mod_cast hhalf
  · rw [hdist, ← mul_div_assoc, div_eq_one_iff_eq hpos.ne'] at h
    exact_mod_cast h

/-- The quotient and the remainder of a division that rounds down tell the nearest
integer. -/
theorem roundsToEven_divideToEven (num : ℤ) {den : ℕ} (hden : 0 < den) :
    RoundsToEven (num / den) (divideToEven num den) := by
  have hsplit : num = num.fdiv den * den + num.fmod den := by
    rw [mul_comm]
    exact (Int.mul_fdiv_add_fmod num den).symm
  have hnonneg := Int.fmod_nonneg_of_pos num (Int.natCast_pos.mpr hden)
  have hlt := Int.fmod_lt_of_pos num (Int.natCast_pos.mpr hden)
  have hbelow : num - num.fdiv den * den = num.fmod den := by omega
  have habove : num - (num.fdiv den + 1) * den = num.fmod den - den := by
    rw [add_mul, one_mul]
    omega
  unfold divideToEven
  dsimp only
  split
  · next hup =>
      -- Rounded up, the distance is what the remainder lacks of the divisor.
      refine roundsToEven_of_parts hden ?_ ?_ <;> rw [habove, abs_of_neg (by omega)]
      · omega
      · rw [Int.even_iff]
        omega
  · next hdown =>
      refine roundsToEven_of_parts hden ?_ ?_ <;> rw [hbelow, abs_of_nonneg hnonneg]
      · omega
      · rw [Int.even_iff]
        omega

/-! ### Quotients of decimals -/

/-- The units that a decimal is made of are the units that it has. -/
theorem signed_ofSigned (units exponent : ℤ) : (ofSigned units exponent).signed = units := by
  unfold ofSigned signed
  dsimp only
  split
  · next h =>
      have := of_decide_eq_true h
      omega
  · next h =>
      have := of_decide_eq_false (Bool.eq_false_iff.mpr h)
      omega

/-- A decimal is zero if its number is, whatever its sign and scale. -/
theorem isZero_iff (d : Decimal) : d.isZero = true ↔ d.toRat = 0 := by
  rw [isZero, beq_iff_eq, toRat, mul_eq_zero, or_iff_left (by positivity), Int.cast_eq_zero,
    signed]
  split <;> omega

/-- Negating a decimal negates its units. -/
theorem signed_neg (d : Decimal) : d.neg.signed = -d.signed := by
  unfold neg signed
  cases d.negative <;> simp

/-- Negating a decimal negates its number. Of a zero it changes the sign only, and
not the number. -/
theorem toRat_neg (d : Decimal) : d.neg.toRat = -d.toRat := by
  rw [toRat, signed_neg, Int.cast_neg, neg_mul]
  rfl

/-- A number with the sign of another one, over the size of that one. This is how
the division puts both signs into the dividend before it rounds. -/
theorem div_coefficient (x : ℚ) (b : Decimal) :
    (if b.negative then -x else x) / b.coefficient = x / b.signed := by
  unfold signed
  cases b.negative with
  | true => simp [neg_div, div_neg]
  | false => simp

/-- A division by a decimal that is not zero comes to an integer number of units at the scale of
the dividend, which rounds the exact quotient. What is left to do is to see whether the range has
room for it. -/
theorem exists_divide_eq (a : Decimal) {b : Decimal} (h : b.isZero = false) :
    ∃ units, RoundsToEven (a.signed / b.toRat) units ∧
      a.divide b = (ofSigned units a.exponent).fit := by
  have hpos : 0 < b.coefficient := by
    rw [isZero, beq_eq_false_iff_ne] at h
    omega
  have hquotient : (a.signed : ℚ) / b.toRat
      = ((if b.negative then -a.signed else a.signed : ℤ) : ℚ) / b.coefficient
        / 10 ^ b.exponent := by
    rw [toRat, ← div_div, ← div_coefficient]
    split <;> push_cast <;> rfl
  by_cases hexp : 0 ≤ b.exponent
  · -- A divisor that ends in zeros is a longer one.
    have hden := Nat.mul_pos hpos (tenTo_pos b.exponent.toNat)
    have hround := roundsToEven_divideToEven (if b.negative then -a.signed else a.signed) hden
    rw [Nat.cast_mul, cast_tenTo hexp, ← div_div, ← hquotient] at hround
    refine ⟨_, hround, ?_⟩
    rw [divide, if_pos hexp, quotientToEven, if_neg hden.ne']
    rfl
  · -- Below the point, the power of ten goes to the other side of the fraction.
    have hround := roundsToEven_divideToEven
      ((if b.negative then -a.signed else a.signed) * tenTo (-b.exponent).toNat) hpos
    have hten : ((tenTo (-b.exponent).toNat : ℤ) : ℚ) = (10 ^ b.exponent)⁻¹ := by
      rw [← zpow_neg, ← cast_tenTo (by omega), Int.cast_natCast]
    rw [Int.cast_mul, hten, ← div_eq_mul_inv, div_right_comm, ← hquotient] at hround
    refine ⟨_, hround, ?_⟩
    rw [divide, if_neg hexp, quotientToEven, if_neg hpos.ne']
    rfl

/-- Units at a scale that numbers may have are kept as they are, or there are too many of them for
the range. -/
theorem fit_ofSigned (units : ℤ) {exponent : ℤ} (hlow : lowestPlace ≤ exponent)
    (hhigh : exponent ≤ highestPlace) :
    (ofSigned units exponent).fit
      = if (ofSigned units exponent).inReach then .ok (ofSigned units exponent)
        else .error .overflow := by
  have hscale : (ofSigned units exponent).exponent = exponent := rfl
  split
  · next hreach => exact fit_eq_self hreach
  · next hreach =>
      have habove : highestPlace < (ofSigned units exponent).adjusted := by
        by_contra hbelow
        refine hreach ?_
        rw [inReach, hscale, Bool.and_eq_true, decide_eq_true_iff, decide_eq_true_iff]
        exact ⟨hlow, not_lt.mp hbelow⟩
      have hzero : (ofSigned units exponent).isZero = false := by
        by_contra hzero
        rw [Bool.not_eq_false] at hzero
        rw [adjusted_of_isZero hzero, hscale] at habove
        exact absurd hhigh (not_le.mpr habove)
      rw [fit, hzero, if_neg Bool.false_ne_true, if_pos habove]

/-- The scale of a decimal is one that numbers may have: its first digit is not above the highest
place, and the last one is not above the first. -/
theorem exponent_le_of_inReach {d : Decimal} (h : d.inReach = true) :
    lowestPlace ≤ d.exponent ∧ d.exponent ≤ highestPlace := by
  rw [inReach, Bool.and_eq_true, decide_eq_true_iff, decide_eq_true_iff] at h
  have hdigits : 0 < (digits d.coefficient).length := Nat.length_toDigits_pos
  rw [adjusted] at h
  omega

/-- A quotient that is zero is a positive zero, since its units have no sign of
their own. -/
theorem negative_ofSigned_of_zero {units exponent : ℤ}
    (h : (ofSigned units exponent).coefficient = 0) :
    (ofSigned units exponent).negative = false := by
  unfold ofSigned at h ⊢
  dsimp only at h ⊢
  exact decide_eq_false (by omega)

/-- The numbers of digits of opposite numbers of units are the same, so both are
within reach or neither is. -/
theorem inReach_ofSigned_neg (units exponent : ℤ) :
    (ofSigned (-units) exponent).inReach = (ofSigned units exponent).inReach := by
  unfold inReach adjusted ofSigned
  rw [Int.natAbs_neg]

/-- Opposite numbers of units at one scale are opposite numbers. -/
theorem toRat_ofSigned_neg (units exponent : ℤ) :
    (ofSigned (-units) exponent).toRat = -(ofSigned units exponent).toRat := by
  rw [toRat, toRat, signed_ofSigned, signed_ofSigned, Int.cast_neg, neg_mul]
  rfl

/-- Quotients whose exact values are opposite numbers are opposite numbers, and there is one if
there is the other. -/
theorem divide_opposite {a b a' b' : Decimal} (ha : a.inReach = true) (hb : b.isZero = false)
    (hb' : b'.isZero = false) (hscale : a'.exponent = a.exponent)
    (hopposite : (a'.signed : ℚ) / b'.toRat = -(a.signed / b.toRat)) :
    (a'.divide b').map toRat = (a.divide b).map fun quotient => -quotient.toRat := by
  obtain ⟨hlow, hhigh⟩ := exponent_le_of_inReach ha
  obtain ⟨units, hround, hdivide⟩ := exists_divide_eq a hb
  obtain ⟨units', hround', hdivide'⟩ := exists_divide_eq a' hb'
  rw [hopposite] at hround'
  obtain rfl : units' = -units := hround'.unique hround.neg
  rw [hdivide, hdivide', hscale, fit_ofSigned units hlow hhigh, fit_ofSigned (-units) hlow hhigh,
    inReach_ofSigned_neg]
  split
  · exact congrArg Except.ok (toRat_ofSigned_neg units a.exponent)
  · rfl

/-- The exact quotient of two decimals, counted at the scale of the dividend, is
what is rounded. -/
theorem toRat_div_mul_zpow (a b : Decimal) :
    a.toRat / b.toRat * 10 ^ (-a.exponent) = a.signed / b.toRat := by
  rw [toRat, div_mul_eq_mul_div, mul_assoc, ← zpow_add₀ (by norm_num), add_neg_cancel, zpow_zero,
    mul_one]

end Decimal

namespace Proofs

/-! ### Quotients of integers -/

/-- What is left of a division that cuts off the fraction is smaller than the divisor and
is on the side of the dividend. -/
theorem remainder_tdiv (a : ℤ) {b : ℤ} (hb : b ≠ 0) :
    |a - a.tdiv b * b| < |b| ∧ (a - a.tdiv b * b = 0 ∨ (a - a.tdiv b * b).sign = a.sign) := by
  have hrest : a - a.tdiv b * b = a.tmod b := by
    rw [mul_comm, Int.tmod_def]
  rw [hrest]
  constructor
  · rw [Int.abs_eq_natAbs, Int.abs_eq_natAbs, Int.natAbs_tmod]
    exact_mod_cast Nat.mod_lt _ (Int.natAbs_pos.mpr hb)
  · rcases eq_or_ne (a.tmod b) 0 with hzero | hne
    · exact .inl hzero
    · refine .inr ?_
      rw [Int.sign_tmod, if_neg (mt Int.tmod_eq_zero_of_dvd hne)]

/-! ### The operator -/

/-- Division is correctly rounded, and faults exactly on a divisor that is zero.

* Of two decimals, the quotient has the exponent of the dividend, and its coefficient is the exact
  quotient at this scale, rounded to the nearest integer, from a tie to the even one. It is never
  a negative zero. It is the answer if the range of the arithmetic has room for it, that is if its
  first digit is not above the highest place; otherwise the division overflows. A negated operand
  negates the answer.
* Of two integers, what the quotient leaves of the dividend is smaller than the divisor, and zero
  or of the dividend's sign. -/
theorem division_correctly_rounded :
    (∀ a b : Decimal, a.inReach = true → b.toRat ≠ 0 →
      (∃ quotient : Decimal,
        quotient.exponent = a.exponent ∧
        RoundsToEven (a.toRat / b.toRat * 10 ^ (-a.exponent)) quotient.signed ∧
        (quotient.coefficient = 0 → quotient.negative = false) ∧
        a.divide b = if quotient.inReach then .ok quotient else .error .overflow) ∧
      (a.neg.divide b).map Decimal.toRat = (a.divide b).map (fun quotient => -quotient.toRat) ∧
      (a.divide b.neg).map Decimal.toRat = (a.divide b).map (fun quotient => -quotient.toRat)) ∧
    (∀ a b : ℤ, b ≠ 0 →
      ∃ quotient : ℤ, truncatedQuotient a b = .ok quotient ∧
        |a - quotient * b| < |b| ∧
        (a - quotient * b = 0 ∨ (a - quotient * b).sign = a.sign)) ∧
    (∀ a b : Decimal, BinaryOp.div.apply (.decimal a) (.decimal b)
      = if b.toRat = 0 then .error (.fault .divisionByZero)
        else ((a.divide b).map Value.decimal).mapError .number) ∧
    (∀ a b : ℤ, BinaryOp.div.apply (.integer a) (.integer b)
      = if b = 0 then .error (.fault .divisionByZero)
        else ((truncatedQuotient a b).map Value.integer).mapError .number) := by
  refine ⟨fun a b ha hb => ?_, fun a b hb => ?_, fun a b => ?_, fun a b => ?_⟩
  · have hzero : b.isZero = false := by rwa [Bool.eq_false_iff, ne_eq, Decimal.isZero_iff]
    obtain ⟨hlow, hhigh⟩ := Decimal.exponent_le_of_inReach ha
    -- The quotient in units of the dividend's last place. The sign of an operand changes neither
    -- its size nor whether it fits.
    obtain ⟨units, hround, hdivide⟩ := Decimal.exists_divide_eq a hzero
    refine ⟨⟨.ofSigned units a.exponent, rfl, ?_, Decimal.negative_ofSigned_of_zero, ?_⟩, ?_, ?_⟩
    · rw [Decimal.toRat_div_mul_zpow, Decimal.signed_ofSigned]
      exact hround
    · rw [hdivide, Decimal.fit_ofSigned units hlow hhigh]
    · refine Decimal.divide_opposite ha hzero hzero rfl ?_
      rw [Decimal.signed_neg, Int.cast_neg, neg_div]
    · refine Decimal.divide_opposite ha hzero hzero rfl ?_
      rw [Decimal.toRat_neg, div_neg]
  · refine ⟨a.tdiv b, ?_, remainder_tdiv a hb⟩
    rw [truncatedQuotient, if_neg hb]
  · show Except.map Value.decimal (if b.isZero then _ else _) = _
    rw [apply_ite (Except.map Value.decimal)]
    refine if_congr (Decimal.isZero_iff b) rfl ?_
    cases a.divide b <;> rfl
  · show Except.map Value.integer (if b = 0 then _ else _) = _
    rw [apply_ite (Except.map Value.integer)]
    refine if_congr Iff.rfl rfl ?_
    cases truncatedQuotient a b <;> rfl

/-- At one digit behind the point, 2.5 / 10 lies half way between 0.2 and 0.3. It
comes to the even one, and so does its opposite. -/
theorem division_correctly_rounded_at_tie :
    (Decimal.mk false 25 (-1)).inReach = true ∧ (Decimal.mk false 10 0).toRat ≠ 0 ∧
    RoundsToEven ((Decimal.mk false 25 (-1)).toRat / (Decimal.mk false 10 0).toRat * 10 ^ (1 : ℤ))
      2 ∧
    (Decimal.mk false 25 (-1)).divide (.mk false 10 0) = .ok (.mk false 2 (-1)) ∧
    ((Decimal.mk false 25 (-1)).divide (Decimal.mk false 10 0).neg).map Decimal.toRat
      = .ok (-(Decimal.mk false 2 (-1)).toRat) ∧
    (2 : ℤ) ≠ 0 ∧ ∃ quotient : ℤ, truncatedQuotient (-7) 2 = .ok quotient ∧
      |-7 - quotient * 2| < |(2 : ℤ)| := by
  have hreach : (Decimal.mk false 25 (-1)).inReach = true := by decide
  have hzero : (Decimal.mk false 10 0).toRat ≠ 0 := fun h =>
    absurd ((Decimal.isZero_iff _).mpr h) (by decide)
  have hdivide : (Decimal.mk false 25 (-1)).divide (.mk false 10 0) = .ok (.mk false 2 (-1)) := by
    decide
  obtain ⟨⟨quotient, -, hround, -, hquotient⟩, -, hneg⟩ :=
    division_correctly_rounded.1 (.mk false 25 (-1)) (.mk false 10 0) hreach hzero
  obtain ⟨q, htruncated, hremainder, -⟩ := division_correctly_rounded.2.1 (-7) 2 (by decide)
  rw [hdivide] at hquotient hneg
  split at hquotient
  · obtain rfl := Except.ok.inj hquotient
    exact ⟨hreach, hzero, hround, hdivide, hneg, by decide, q, htruncated, hremainder⟩
  · cases hquotient

/-- The number that 1E+999999999999999999 / 0.1 comes to has its first digit one place above the
highest. -/
theorem division_overflows_above_highest_place :
    (Decimal.mk false 1 999999999999999999).inReach = true
      ∧ (Decimal.mk false 1 (-1)).inReach = true
      ∧ (Decimal.mk false 1 (-1)).toRat ≠ 0
      ∧ ¬ ∃ quotient,
          (Decimal.mk false 1 999999999999999999).divide (.mk false 1 (-1)) = .ok quotient := by
  have hoverflow : (Decimal.mk false 1 999999999999999999).divide (.mk false 1 (-1))
      = .error .overflow := by decide
  refine ⟨by decide, by decide, fun h => ?_, ?_⟩
  · exact absurd ((Decimal.isZero_iff _).mpr h) (by decide)
  · rintro ⟨quotient, hquotient⟩
    rw [hoverflow] at hquotient
    cases hquotient

end Proofs

end PlcLang
