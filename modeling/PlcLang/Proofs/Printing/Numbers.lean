import PlcLang.Proofs.Grammar.Completeness
import PlcLang.Proofs.Lexical.Segmentation
import PlcLang.Proofs.Printing.Literals
import PlcLang.Value

/-!
# `PlcLang.Proofs.Printing.Numbers`: numbers shown and read back

What a program shows of a number can stand in a program again if it is one
token that is parsed as the number (`ShownAs`).

* `shownAs_integer_iff`: an integer is shown so if it is shown at all, which it
  is with up to `digitLimit` digits.
* `shownAs_decimal_iff`: a decimal is shown in scientific notation, which uses
  an exponent where the first digit is more than six places behind the point,
  and no token has an exponent. Of the decimals with digits behind the point
  the others are shown so, as far as their digits are in reach.
-/

set_option autoImplicit false

namespace PlcLang.Proofs

/-- The text is one token of that kind from end to end, and the token is
parsed as that expression. -/
structure ReadsAs (text : String) (kind : TokenKind) (e : Expr Offset) : Prop where
  cut : tokenize text = .ok [⟨kind, text, 0⟩]
  parsed : (Parser.expression 2).run [⟨kind, text, 0⟩] = .ok (e, [])

/-- The value is shown, and what is shown of it is one token of that kind, which
is parsed as that expression. -/
def ShownAs (v : Value) (kind : TokenKind) (e : Expr Offset) : Prop :=
  ∃ text, v.display = .ok text ∧ ReadsAs text kind e

/-! ### Literals that stand alone -/

section Alone

variable {tokens : List Token} {answer : Except Obstacle (Expr Offset)}

/-- An operand that is all there is is what the parser of operands answers with. -/
theorem run_operands_alone {precedence : Precedence} {budget : Nat}
    {operand : Parser (Expr Offset)} (h : operand tokens = (·, []) <$> answer) :
    Parser.operands precedence (budget + 1) operand tokens = (·, []) <$> answer := by
  -- No token is left behind the operand, so the loop over the operators stops at once.
  simp only [Parser.operands, bind, StateT.bind, Except.bind, h]
  cases answer <;> rfl

/-- A primary expression that is all there is is what the parser of expressions
answers with. -/
theorem run_expression_alone {budget : Nat}
    (h : Parser.primary (Parser.expression budget) (budget + 1) tokens = (·, []) <$> answer) :
    (Parser.expression (budget + 1)).run tokens = (·, []) <$> answer := by
  have hchain : Parser.postfixChain (Parser.expression budget) (budget + 1) tokens
      = (·, []) <$> answer := by
    simp only [Parser.postfixChain, bind, StateT.bind, Except.bind, h]
    cases answer <;> rfl
  exact run_operands_alone (run_operands_alone (run_operands_alone (run_operands_alone hchain)))

/-- An integer token is parsed as the integer that its text is read as. -/
theorem run_expression_integer (text : String) :
    (Parser.expression 2).run [⟨.integer, text, 0⟩]
      = (·, []) <$> match readInteger? text with
        | some value => .ok (.integer 0 value)
        | none => .error (.malformedNumber ⟨.integer, text, 0⟩) := by
  refine run_expression_alone ?_
  rw [Parser.primary, Parser.bind_of_ok (Parser.peek_cons _ _)]
  cases hread : readInteger? text with
  | none =>
      simp only [hread]
      rfl
  | some value =>
      simp only [hread]
      rfl

/-- A decimal token is parsed as the decimal that its text is read as, unless it is
out of reach. -/
theorem run_expression_decimal (text : String) :
    (Parser.expression 2).run [⟨.decimal, text, 0⟩]
      = (·, []) <$> match Decimal.read? text with
        | some value => .ok (.decimal 0 value)
        | none => .error (.malformedNumber ⟨.decimal, text, 0⟩) := by
  refine run_expression_alone ?_
  rw [Parser.primary, Parser.bind_of_ok (Parser.peek_cons _ _)]
  cases hread : Decimal.read? text with
  | none =>
      simp only [hread]
      rfl
  | some value =>
      simp only [hread]
      rfl

end Alone

/-! ### Integers -/

/-- The digits of an integer are read back, sign included. -/
theorem readsAs_toString (value : Int) :
    ReadsAs (toString value) .integer (.integer 0 value) := by
  have htext : IntegerText (toString value).toList value := integerText_toString value
  refine ⟨tokenize_eq_singleton (.integer htext), ?_⟩
  rw [run_expression_integer, readInteger?_eq_some htext]
  rfl

/-- An integer is shown so that it is read back, unless it has too many digits to be
shown. -/
theorem shownAs_integer_iff (value : Int) :
    ShownAs (.integer value) .integer (.integer 0 value) ↔ Showable value := by
  unfold ShownAs
  rw [Value.display, integerText]
  constructor
  · rintro ⟨text, hshown, -⟩
    by_cases hshowable : Showable value
    · exact hshowable
    · rw [if_neg hshowable] at hshown
      cases hshown
  · intro hshowable
    rw [if_pos hshowable]
    exact ⟨_, rfl, readsAs_toString value⟩

/-! ### Decimals -/

/-- No token of the decimals has an exponent. -/
theorem not_mem_of_tokenClass_decimal {literal : List Char} (h : TokenClass .decimal literal) :
    'E' ∉ literal := by
  cases h with
  | decimal h =>
      cases h with
      | @mk negative sign whole fraction hsign hwhole hfraction =>
          have hletter : Text.isDigit 'E' = false := by decide
          intro hmem
          simp only [List.mem_append, List.mem_cons] at hmem
          rcases hmem with hmem | hmem | hmem | hmem
          · cases hsign <;> simp at hmem
          · exact absurd (hwhole.all 'E' hmem) (by simp [hletter])
          · exact absurd hmem (by decide)
          · exact absurd (hfraction.all 'E' hmem) (by simp [hletter])

/-- A decimal that begins far behind the point is shown with an exponent. -/
theorem mem_scientific {d : Decimal} (h : d.adjusted < -6) : 'E' ∈ d.scientific.toList := by
  have hfar : ¬ (d.exponent ≤ 0 ∧ -6 ≤ d.adjusted) := by omega
  rw [Decimal.scientific, if_neg hfar, String.toList_ofList, Decimal.exponentText]
  simp

/-- A decimal with digits behind the point is shown so that it is read back exactly if its
first digit is at most six places behind the point and its digits are in reach. -/
theorem readsAs_scientific_iff {d : Decimal} (hexponent : d.exponent < 0) :
    ReadsAs d.scientific .decimal (.decimal 0 d) ↔ -6 ≤ d.adjusted ∧ d.inReach = true := by
  by_cases hadjusted : -6 ≤ d.adjusted
  · -- The number is shown in plain notation, which is a literal of it.
    have hplain : d.scientific = d.plain := by
      rw [Decimal.scientific, if_pos ⟨by omega, hadjusted⟩]
    have htext := decimalText_plain hexponent
    have hrun := run_expression_decimal d.plain
    rw [read?_eq htext] at hrun
    rw [hplain]
    constructor
    · intro h
      refine ⟨hadjusted, ?_⟩
      by_cases hreach : d.inReach = true
      · exact hreach
      · rw [h.parsed, if_neg hreach] at hrun
        cases hrun
    · intro h
      refine ⟨tokenize_eq_singleton (.decimal htext), ?_⟩
      rw [hrun, if_pos h.2]
      rfl
  · -- An exponent is shown, and what is shown is no decimal token for its letter.
    constructor
    · intro h
      have hclass := tokenClass_of_tokenize h.cut _ (List.mem_singleton.mpr rfl)
      exact absurd (mem_scientific (by omega)) (not_mem_of_tokenClass_decimal hclass)
    · intro h
      exact absurd h.1 hadjusted

/-- A decimal is always shown, so what decides is whether what is shown is read
back. -/
theorem shownAs_decimal_iff {d : Decimal} (hexponent : d.exponent < 0) :
    ShownAs (.decimal d) .decimal (.decimal 0 d) ↔ -6 ≤ d.adjusted ∧ d.inReach = true := by
  rw [← readsAs_scientific_iff hexponent]
  constructor
  · rintro ⟨text, hshown, hreads⟩
    cases hshown
    exact hreads
  · exact fun hreads => ⟨d.scientific, rfl, hreads⟩

end PlcLang.Proofs
