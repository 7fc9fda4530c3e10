/-!
# `PlcLang.Decimal`: decimal numbers with a scale

A decimal is a sign, a coefficient and an exponent of ten, so `1.0` and
`1.00` are different decimals of one value. Sums, differences and products
are exact. A quotient keeps the scale of its dividend and is rounded to
the nearest number of that scale, ties to the even coefficient.

Two orders of magnitude meet in every operation on two decimals, so both
are first brought to a common scale: `unitsAt`. A comparison needs the
common scale only where the sizes are near each other.

The digits of a decimal stand between a lowest and a highest place. An
operation works out its result as if there were no bounds and then brings
it between them: `fit`. That a coefficient has no more than so many digits
is left out: 10 ^ 18 digits are more than any machine holds.
-/

set_option autoImplicit false

namespace PlcLang

/-- Why a number cannot be worked out or written down. None of this is a
rule of the language: nothing catches it inside a program. -/
inductive NumberError where
  /-- A number is divided by zero, and nothing has looked for that before. -/
  | zeroDivisor
  /-- The first digit of a decimal would stand above the highest place. -/
  | overflow
  /-- The integer has more digits than are ever written out. -/
  | tooManyDigits (value : Int)
deriving DecidableEq, Repr

/-- The number `± coefficient * 10 ^ exponent`. Zero has a sign, too. The exponent
is the scale: `⟨false, 10, -1⟩` is `1.0`, which is not the decimal `1` though it has
its value. -/
structure Decimal where
  negative : Bool
  coefficient : Nat
  exponent : Int
deriving DecidableEq, Repr, Inhabited

namespace Decimal

/-- The coefficient with its sign. The sign of a zero is lost on the way. -/
def signed (d : Decimal) : Int :=
  if d.negative then -d.coefficient else d.coefficient

/-- The decimal of a signed coefficient; zero becomes positive. Where a zero keeps
its sign, as in a product, the decimal is put together by hand. -/
def ofSigned (units : Int) (exponent : Int) : Decimal :=
  ⟨units < 0, units.natAbs, exponent⟩

/-- Whether the value is zero, of whatever sign and scale. -/
def isZero (d : Decimal) : Bool :=
  d.coefficient == 0

/-- Ten to a power. It is written without the `^` of a monoid, so that it is one and
the same term wherever it stands. -/
def tenTo (power : Nat) : Nat :=
  Nat.pow 10 power

/-- How many units `10 ^ scale` the decimal counts, for a scale no larger
than its exponent. Zero counts none at any scale, and no power is worked
out for it. -/
def unitsAt (d : Decimal) (scale : Int) : Int :=
  if d.isZero then 0 else d.signed * tenTo (d.exponent - scale).toNat

/-- How `a * 10 ^ gap` and `b` compare, for a positive `a`. A power that is
larger than `b` by its exponent alone is not worked out. -/
def compareScaled (a gap b : Nat) : Ordering :=
  if b.log2 < gap then .gt else Ord.compare (a * tenTo gap) b

/-- Every power of ten is positive, so it can be divided by. -/
theorem tenTo_pos (power : Nat) : 0 < tenTo power :=
  Nat.pow_pos (by decide)

/-- A number is below every power of ten whose exponent is above its binary
logarithm. This is how a comparison gets by without the power. -/
theorem lt_tenTo_of_log2_lt {b gap : Nat} (h : b.log2 < gap) : b < tenTo gap := by
  by_cases hb : b = 0
  · subst hb
    exact tenTo_pos gap
  · have hbelow : b < 2 ^ gap := (Nat.log2_lt hb).1 h
    exact Nat.lt_of_lt_of_le hbelow (Nat.pow_le_pow_left (by decide) gap)

/-- Leaving a large power out does not change how the numbers compare. -/
theorem compareScaled_eq {a gap b : Nat} (ha : 0 < a) :
    compareScaled a gap b = Ord.compare (a * tenTo gap) b := by
  unfold compareScaled
  split
  · next h =>
      have hgrows : tenTo gap ≤ a * tenTo gap := Nat.le_mul_of_pos_left _ ha
      exact (Nat.compare_eq_gt.2 (Nat.lt_of_lt_of_le (lt_tenTo_of_log2_lt h) hgrows)).symm
  · rfl

/-- The order of the values without their signs, of which neither is zero. The one
with the larger exponent is brought to the scale of the other, on whichever side it
stands. -/
def compareSizes (a b : Decimal) : Ordering :=
  if b.exponent ≤ a.exponent then
    compareScaled a.coefficient (a.exponent - b.exponent).toNat b.coefficient
  else (compareScaled b.coefficient (b.exponent - a.exponent).toNat a.coefficient).swap

/-- The order of the values: by sign, and within a sign by size. Of two negative
decimals the one of the larger size is the smaller one. -/
def compare (a b : Decimal) : Ordering :=
  (Ord.compare a.signed.sign b.signed.sign).then <|
    if a.isZero then .eq
    else if a.negative then compareSizes b a
    else compareSizes a b

/-- Whether two decimals have one value. This is what programs mean by equal: `1.0`
and `1.00` have, and so have the two zeros. -/
def sameValue (a b : Decimal) : Bool :=
  compare a b == .eq

/-- The decimal without its sign. -/
def abs (d : Decimal) : Decimal :=
  { d with negative := false }

/-- The decimal of the other sign. -/
def neg (d : Decimal) : Decimal :=
  { d with negative := !d.negative }

/-- The exact sum at the finer of the two scales. A sum of value zero is
negative only if both terms are. -/
def exactSum (a b : Decimal) : Decimal :=
  let scale := min a.exponent b.exponent
  let units := a.unitsAt scale + b.unitsAt scale
  if units = 0 then ⟨a.negative && b.negative, 0, scale⟩ else ofSigned units scale

/-- The exact difference: the sum with the other sign. So a difference of value zero
is negative only if a negative term is diminished by a positive one, both of them
zero. -/
def exactDifference (a b : Decimal) : Decimal :=
  a.exactSum b.neg

/-- The exact product, whose sign is that of the signs multiplied, of a
zero, too. -/
def exactProduct (a b : Decimal) : Decimal :=
  ⟨a.negative != b.negative, a.coefficient * b.coefficient, a.exponent + b.exponent⟩

/-- The integer nearest to `num / den` for a positive `den`, ties to the
even one. -/
def divideToEven (num : Int) (den : Nat) : Int :=
  let quotient := Int.fdiv num den
  let remainder := Int.fmod num den
  if 2 * remainder > den ∨ (2 * remainder = den ∧ quotient % 2 = 1) then quotient + 1
  else quotient

/-! ### The range -/

/-- The decimal digits of a number, most significant first. Zero has one, which is
why the place of a zero is that of its exponent. -/
def digits (n : Nat) : List Char :=
  Nat.toDigits 10 n

/-- Where the first digit stands: the exponent of the number written with
one digit before the point. -/
def adjusted (d : Decimal) : Int :=
  d.exponent + (digits d.coefficient).length - 1

/-- The largest place that the first digit of a number may stand at. Beyond it there
is no number, not even an infinite one: the operation overflows. -/
def highestPlace : Int :=
  999999999999999999

/-- The smallest place that the last digit of a number may stand at. Digits beyond
it are rounded away. -/
def lowestPlace : Int :=
  -1999999999999999997

/-- Whether the number stands between the highest and the lowest place. Numbers that
are read have to, and what is computed from them is brought there by `fit`. -/
def inReach (d : Decimal) : Bool :=
  lowestPlace ≤ d.exponent && d.adjusted ≤ highestPlace

/-- `n / 10 ^ gap`, rounded to the nearest integer, ties to the even one. A
power that is larger than twice `n` by its exponent alone is not worked
out. -/
def dropDigits (n gap : Nat) : Nat :=
  if n.log2 + 1 < gap then 0 else (divideToEven n (tenTo gap)).toNat

/-- The decimal that is kept of a result. A zero gets the nearest exponent
that it may have. A number whose first digit would stand above the highest
place is none; digits below the lowest place are rounded away, and the
sign stays even if nothing else does. -/
def fit (d : Decimal) : Except NumberError Decimal :=
  if d.isZero then .ok { d with exponent := max lowestPlace (min d.exponent highestPlace) }
  else if highestPlace < d.adjusted then .error .overflow
  else if d.exponent < lowestPlace then
    .ok { d with
      coefficient := dropDigits d.coefficient (lowestPlace - d.exponent).toNat
      exponent := lowestPlace }
  else .ok d

/-- Leaving a large power out does not change what is rounded away: the power is
more than twice the number then, so the nearest multiple of it is zero. -/
theorem dropDigits_eq (n gap : Nat) :
    dropDigits n gap = (divideToEven n (tenTo gap)).toNat := by
  unfold dropDigits
  split
  · next h =>
      -- Twice the number is below the power, so it is nearer to no unit than to one.
      have hbinary : n < 2 ^ (n.log2 + 1) := Nat.lt_log2_self
      have hpower : 2 ^ (n.log2 + 2) ≤ tenTo gap :=
        Nat.le_trans (Nat.pow_le_pow_right (by decide) h) (Nat.pow_le_pow_left (by decide) gap)
      have htwice : 2 * n < tenTo gap := by
        rw [Nat.pow_succ] at hpower
        omega
      have hquotient : Int.fdiv n (tenTo gap) = 0 := by
        rw [Int.fdiv_eq_ediv_of_nonneg _ (by omega)]
        exact Int.ediv_eq_zero_of_lt (by omega) (by omega)
      have hremainder : Int.fmod n (tenTo gap) = n := by
        rw [Int.fmod_eq_emod_of_nonneg _ (by omega)]
        exact Int.emod_eq_of_lt (by omega) (by omega)
      unfold divideToEven
      rw [hquotient, hremainder, if_neg (by omega)]
      rfl
  · rfl

/-- A zero has a single digit, which stands at its exponent. -/
theorem adjusted_of_isZero {d : Decimal} (h : d.isZero = true) : d.adjusted = d.exponent := by
  have hzero : d.coefficient = 0 := eq_of_beq h
  rw [adjusted, hzero, show (digits 0).length = 1 from rfl]
  omega

/-- A number within the range is kept as it is, with its scale. So the operations
are exact wherever their results are in reach. -/
theorem fit_eq_self {d : Decimal} (h : d.inReach = true) : d.fit = .ok d := by
  have hreach : lowestPlace ≤ d.exponent ∧ d.adjusted ≤ highestPlace := by
    simpa [inReach] using h
  unfold fit
  split
  · next hzero =>
      rw [adjusted_of_isZero hzero] at hreach
      have hexponent : max lowestPlace (min d.exponent highestPlace) = d.exponent := by omega
      rw [hexponent]
  · rw [if_neg (by omega), if_neg (by omega)]

/-! ### Operations -/

/-- The sum of two decimals, exact unless it leaves the range. The terms are both in
reach, so it can only leave it upwards. -/
def add (a b : Decimal) : Except NumberError Decimal :=
  (a.exactSum b).fit

/-- The difference of two decimals. It is the sum with the other sign in this
respect, too. -/
def sub (a b : Decimal) : Except NumberError Decimal :=
  (a.exactDifference b).fit

/-- The product of two decimals. Of two small factors it may have digits below the
lowest place, which are rounded away: this is the one exact operation that can come
to zero without a zero in it. -/
def mul (a b : Decimal) : Except NumberError Decimal :=
  (a.exactProduct b).fit

/-- The quotient of two integers, rounded to the nearest integer, ties to the even
one. There is none by zero; whoever divides has looked for that before. -/
def quotientToEven (num : Int) (den : Nat) : Except NumberError Int :=
  if den = 0 then .error .zeroDivisor else .ok (divideToEven num den)

/-- The quotient at the scale of the dividend: `1.00 / 3` has two places. An
exponent of the divisor moves into whichever of the two integers keeps it a whole
number. -/
def divide (a b : Decimal) : Except NumberError Decimal := do
  -- The sign goes into the numerator, since a rounding to even is wanted of a positive
  -- denominator only.
  let num := if b.negative then -a.signed else a.signed
  let units ←
    if 0 ≤ b.exponent then quotientToEven num (b.coefficient * tenTo b.exponent.toNat)
    else quotientToEven (num * tenTo (-b.exponent).toNat) b.coefficient
  (ofSigned units a.exponent).fit

end Decimal

/-- The quotient of two integers without its fraction, rounded towards zero on
either side of it. There is none by zero. -/
def truncatedQuotient (a b : Int) : Except NumberError Int :=
  if b = 0 then .error .zeroDivisor else .ok (Int.tdiv a b)

end PlcLang
