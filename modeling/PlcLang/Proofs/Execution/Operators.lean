import PlcLang.Execution.Operators

/-!
# `PlcLang.Proofs.Execution.Operators`: why an operator makes no value

An operator refuses its operands for three reasons: their tags are none that it may have, the
divisor is zero, or a number is out of range (`refusal_cases`). A divisor is looked at before
anything is divided by it, so that of the ways in which a number can be out of range a divisor of
zero is none. What is left are integers that have too many digits to be written out, and decimals
beyond the highest place (`NumberError.Proper`).
-/

set_option autoImplicit false

namespace PlcLang

/-- The number is out of range by itself. Where an integer cannot be written out, it has more
digits than are ever written out. -/
def NumberError.Proper : NumberError → Prop
  | zeroDivisor => False
  | overflow => True
  | tooManyDigits value => ¬ Showable value

namespace Proofs

/-! ### Numbers that are written out -/

/-- An integer is not written out only if it has too many digits. -/
theorem proper_of_integerText_eq_error {value : Int} {e : NumberError}
    (h : integerText value = .error e) : e.Proper := by
  unfold integerText at h
  by_cases hshowable : Showable value
  · rw [if_pos hshowable] at h
    cases h
  · rw [if_neg hshowable] at h
    cases h
    exact hshowable

mutual

/-- A value is not written out only if there is an integer of too many digits in it.
The induction goes into sequences. -/
theorem proper_of_display_eq_error {value : Value} {e : NumberError}
    (h : value.display = .error e) : e.Proper := by
  cases value with
  | integer value => exact proper_of_integerText_eq_error h
  | sequence elements =>
      rw [Value.display] at h
      cases htexts : Value.displayAll elements with
      | ok texts =>
          rw [htexts] at h
          cases h
      | error found =>
          rw [htexts] at h
          cases h
          exact proper_of_displayAll_eq_error htexts
  | _ => simp [Value.display] at h

/-- So it is with the elements of a sequence, one after the other. -/
theorem proper_of_displayAll_eq_error {list : List Value} {e : NumberError}
    (h : Value.displayAll list = .error e) : e.Proper := by
  cases list with
  | nil => cases h
  | cons value rest =>
      rw [Value.displayAll] at h
      cases htext : value.display with
      | error found =>
          rw [htext] at h
          cases h
          exact proper_of_display_eq_error htext
      | ok text =>
          rw [htext] at h
          cases htexts : Value.displayAll rest with
          | ok texts =>
              rw [htexts] at h
              cases h
          | error found =>
              rw [htexts] at h
              cases h
              exact proper_of_displayAll_eq_error htexts

end

/-! ### Numbers that are worked out -/

/-- A result is kept unless its first digit would stand above the highest place. -/
theorem eq_overflow_of_fit_eq_error {d : Decimal} {e : NumberError} (h : d.fit = .error e) :
    e = .overflow := by
  unfold Decimal.fit at h
  split at h
  · cases h
  · split at h
    · cases h
      rfl
    · split at h <;> cases h

/-- So a result that is not kept is out of range by itself. -/
theorem proper_of_fit_eq_error {d : Decimal} {e : NumberError} (h : d.fit = .error e) :
    e.Proper := by
  rw [eq_overflow_of_fit_eq_error h]
  exact trivial

/-- A decimal that is not zero has a coefficient to divide by, at any scale. So a
division by it fails only for a quotient that is out of range. -/
theorem proper_of_divide_eq_error {a b : Decimal} {e : NumberError}
    (hb : b.isZero = false) (h : a.divide b = .error e) : e.Proper := by
  have hcoefficient : b.coefficient ≠ 0 := by
    intro hzero
    rw [Decimal.isZero, hzero] at hb
    cases hb
  have hscaled : b.coefficient * Decimal.tenTo b.exponent.toNat ≠ 0 :=
    Nat.mul_ne_zero hcoefficient (Nat.ne_of_gt (Decimal.tenTo_pos _))
  unfold Decimal.divide Decimal.quotientToEven at h
  simp only [if_neg hcoefficient, if_neg hscaled] at h
  split at h
  · exact proper_of_fit_eq_error h
  · exact proper_of_fit_eq_error h

/-! ### Operators -/

/-- Why an operator refuses its operands: they have tags that it may not have, it is
a division and the divisor is zero, or a number is out of range by itself. -/
inductive RefusalOf (op : BinaryOp) (left right : Value) : Refusal → Prop where
  | operands : RefusalOf op left right (.fault (.wrongOperands op left.tag right.tag))
  | zero (h : op = .div) : RefusalOf op left right (.fault .divisionByZero)
  | number {e : NumberError} (h : e.Proper) : RefusalOf op left right (.number e)

/-- Results that are out of range are refused for that. -/
theorem refusal_of_mapError {α : Type} {op : BinaryOp} {left right : Value}
    {answer : Except NumberError α} {refusal : Refusal}
    (hanswer : ∀ e, answer = .error e → e.Proper)
    (h : answer.mapError .number = .error refusal) : RefusalOf op left right refusal := by
  cases answer with
  | ok a => cases h
  | error e =>
      cases h
      exact .number (hanswer e rfl)

/-- Arithmetic on integers is refused for a divisor that is zero only, if the operator is one of
arithmetic. -/
theorem refusal_of_onIntegers {op : BinaryOp} {a b : Int} {refusal : Refusal}
    (h : op.onIntegers a b = .error refusal) :
    RefusalOf op (.integer a) (.integer b) refusal := by
  unfold BinaryOp.onIntegers at h
  split at h
  · cases h
  · cases h
  · cases h
  · split at h
    · cases h
      exact .zero rfl
    · next hb =>
        refine refusal_of_mapError (fun e he => ?_) h
        rw [truncatedQuotient, if_neg hb] at he
        cases he
  · cases h
    exact .operands

/-- Arithmetic on decimals can also leave their range. -/
theorem refusal_of_onDecimals {op : BinaryOp} {a b : Decimal} {refusal : Refusal}
    (h : op.onDecimals a b = .error refusal) :
    RefusalOf op (.decimal a) (.decimal b) refusal := by
  unfold BinaryOp.onDecimals at h
  split at h
  · exact refusal_of_mapError (fun _ => proper_of_fit_eq_error) h
  · exact refusal_of_mapError (fun _ => proper_of_fit_eq_error) h
  · exact refusal_of_mapError (fun _ => proper_of_fit_eq_error) h
  · split at h
    · cases h
      exact .zero rfl
    · next hb =>
        have hdivisor := eq_false_of_ne_true hb
        exact refusal_of_mapError (fun _ => proper_of_divide_eq_error hdivisor) h
  · cases h
    exact .operands

/-- Arithmetic is for two integers or two decimals, and refused for other operands. -/
theorem refusal_of_arithmetic {op : BinaryOp} {left right : Value} {refusal : Refusal}
    (h : op.arithmetic left right = .error refusal) : RefusalOf op left right refusal := by
  unfold BinaryOp.arithmetic at h
  split at h
  · next a b =>
      cases hanswer : op.onIntegers a b with
      | ok result =>
          rw [hanswer] at h
          cases h
      | error found =>
          rw [hanswer] at h
          cases h
          exact refusal_of_onIntegers hanswer
  · next a b =>
      cases hanswer : op.onDecimals a b with
      | ok result =>
          rw [hanswer] at h
          cases h
      | error found =>
          rw [hanswer] at h
          cases h
          exact refusal_of_onDecimals hanswer
  · cases h
    exact .operands

/-- An order is for two values of one ordered tag, and refused for other operands. -/
theorem refusal_of_ordering {op : BinaryOp} {left right : Value} {refusal : Refusal}
    (h : op.ordering left right = .error refusal) : RefusalOf op left right refusal := by
  unfold BinaryOp.ordering at h
  split at h
  · cases h
  · cases h
    exact .operands

/-- Two values are not joined only if one of them cannot be written out. -/
theorem exists_proper_of_joined_eq_error {left right : Value} {refusal : Refusal}
    (h : BinaryOp.joined left right = .error refusal) :
    ∃ e : NumberError, e.Proper ∧ refusal = .number e := by
  unfold BinaryOp.joined at h
  cases hleft : left.display with
  | error e =>
      rw [hleft] at h
      cases h
      exact ⟨e, proper_of_display_eq_error hleft, rfl⟩
  | ok leftText =>
      rw [hleft] at h
      cases hright : right.display with
      | error e =>
          rw [hright] at h
          cases h
          exact ⟨e, proper_of_display_eq_error hright, rfl⟩
      | ok rightText =>
          rw [hright] at h
          cases h

/-- What comes of joining two values is a text. -/
theorem exists_string_of_joined_eq_ok {left right result : Value}
    (h : BinaryOp.joined left right = .ok result) : ∃ text, result = .string text := by
  unfold BinaryOp.joined at h
  cases hleft : left.display with
  | error e =>
      rw [hleft] at h
      cases h
  | ok leftText =>
      rw [hleft] at h
      cases hright : right.display with
      | error e =>
          rw [hright] at h
          cases h
      | ok rightText =>
          rw [hright] at h
          cases h
          exact ⟨_, rfl⟩

/-- Why an operator makes no value of its operands. This is what the proofs about
faults go by, so that none of them opens an operator. -/
theorem refusal_cases {op : BinaryOp} {left right : Value} {refusal : Refusal}
    (h : op.apply left right = .error refusal) : RefusalOf op left right refusal := by
  cases op with
  | equal | notEqual => cases h
  | less | lessEqual | greater | greaterEqual => exact refusal_of_ordering h
  | sub | mul | div => exact refusal_of_arithmetic h
  | or | other symbol =>
      cases h
      exact .operands
  | and =>
      unfold BinaryOp.apply at h
      dsimp only at h
      split at h
      · cases h
      · cases h
        exact .operands
  | add =>
      unfold BinaryOp.apply at h
      dsimp only at h
      split at h
      · obtain ⟨e, he, rfl⟩ := exists_proper_of_joined_eq_error h
        exact .number he
      · exact refusal_of_arithmetic h

end Proofs

end PlcLang
