import PlcLang.Proofs.Lexical.Values
import PlcLang.Syntax.Printer

/-!
# `PlcLang.Proofs.Printing.Literals`: literals as they are printed

The printer writes a number with no more digits than it needs, and a text with
an escape for each character that has one. What it writes is a literal of the
value that it writes:

* `integerText_toString` for integers,
* `decimalText_plain` for decimals with digits behind the point, sign and scale
  included: those that a literal stands for,
* `quotedText_quote` for characters and strings.
-/

set_option autoImplicit false

namespace PlcLang.Proofs

/-! ### Numbers -/

/-- Both notions of a digit are the same. -/
theorem isDigit_eq (c : Char) : Text.isDigit c = c.isDigit := by
  rw [Bool.eq_iff_iff, isDigit_iff, Char.isDigit_iff_toNat]
  exact Iff.rfl

/-- The digits of a number are digits, and there is at least one. -/
theorem isDigits_toDigits (n : Nat) : IsDigits (Nat.toDigits 10 n) where
  ne_nil := Nat.toDigits_ne_nil
  all c hc := by
    rw [isDigit_eq]
    exact Nat.isDigit_of_mem_toDigits (by decide) (by decide) hc

/-- The digits of a number count the number. -/
theorem digitsNumber_toDigits (n : Nat) : digitsNumber (Nat.toDigits 10 n) = n :=
  Nat.ofDigitChars_ten_toDigits

/-- A printed integer is a literal of the integer. -/
theorem integerText_toString (value : Int) : IntegerText (toString value).toList value := by
  cases value with
  | ofNat n =>
      have htext : (toString (Int.ofNat n)).toList = [] ++ Nat.toDigits 10 n := Nat.toList_repr
      have h := IntegerText.mk .absent (isDigits_toDigits n)
      rw [digitsNumber_toDigits] at h
      rw [htext]
      exact h
  | negSucc n =>
      have htext : (toString (Int.negSucc n)).toList = ['-'] ++ Nat.toDigits 10 (n + 1) := by
        show ("-" ++ Nat.repr (n + 1)).toList = _
        rw [String.toList_append, Nat.toList_repr]
        rfl
      have h := IntegerText.mk .minus (isDigits_toDigits (n + 1))
      rw [digitsNumber_toDigits] at h
      rw [htext]
      exact h

/-- Zeros in front count nothing. -/
theorem digitsNumber_replicate_append (n : Nat) (digits : List Char) :
    digitsNumber (List.replicate n '0' ++ digits) = digitsNumber digits := by
  induction n with
  | zero => rfl
  | succ n ih =>
      rw [List.replicate_succ, List.cons_append, digitsNumber, Nat.ofDigitChars_cons]
      exact ih

/-- Digits with a point before the last ones are digits, a point and so many
digits, and they count the same without the point. -/
theorem exists_pointed (n places : Nat) (hplaces : places ≠ 0) :
    ∃ whole fraction, Decimal.pointed (Decimal.digits n) places = whole ++ '.' :: fraction
      ∧ IsDigits whole ∧ IsDigits fraction ∧ fraction.length = places
      ∧ digitsNumber (whole ++ fraction) = n := by
  -- Zeros are put in front until at least one digit is left of the point.
  -- `padded` is cut there, so both parts are runs of digits.
  generalize hpadded :
    List.replicate (places + 1 - (Decimal.digits n).length) '0' ++ Decimal.digits n = padded
  have hlength : places + 1 ≤ padded.length := by
    rw [← hpadded, List.length_append, List.length_replicate]
    omega
  have hall : ∀ c ∈ padded, Text.isDigit c = true := by
    intro c hc
    rw [← hpadded, List.mem_append] at hc
    rcases hc with hc | hc
    · rw [(List.mem_replicate.mp hc).2]
      rfl
    · exact (isDigits_toDigits n).all c hc
  have hfraction : (padded.drop (padded.length - places)).length = places := by
    rw [List.length_drop]
    omega
  refine ⟨padded.take (padded.length - places), padded.drop (padded.length - places), ?_,
    ⟨?_, fun c hc => hall c (List.mem_of_mem_take hc)⟩,
    ⟨?_, fun c hc => hall c (List.mem_of_mem_drop hc)⟩, hfraction, ?_⟩
  · rw [Decimal.pointed, if_neg hplaces]
    simp only [hpadded]
  · rw [← List.length_pos_iff, List.length_take]
    omega
  · rw [← List.length_pos_iff, hfraction]
    omega
  · rw [List.take_append_drop, ← hpadded, digitsNumber_replicate_append]
    exact digitsNumber_toDigits n

/-- A decimal that a literal stands for has digits behind the point. -/
theorem DecimalText.exponent_neg {literal : List Char} {d : Decimal} (h : DecimalText literal d) :
    d.exponent < 0 := by
  cases h with
  | @mk negative sign whole fraction hsign hwhole hfraction =>
      have hpositive := List.length_pos_iff.mpr hfraction.ne_nil
      show -(fraction.length : Int) < 0
      omega

/-- A printed decimal is a literal of the decimal, if the decimal has digits
behind the point. -/
theorem decimalText_plain {d : Decimal} (h : d.exponent < 0) : DecimalText d.plain.toList d := by
  obtain ⟨negative, n, exponent⟩ := d
  simp only at h
  obtain ⟨places, hplaces⟩ : ∃ places : Nat, exponent = -(places : Int) :=
    ⟨(-exponent).toNat, by omega⟩
  have hpositive : places ≠ 0 := by omega
  subst hplaces
  obtain ⟨front, behind, hpointed, hfront, hbehind, hlength, hnumber⟩ :=
    exists_pointed n places hpositive
  have hplain : (Decimal.plain ⟨negative, n, -(places : Int)⟩).toList
      = (if negative then ['-'] else []) ++ (front ++ '.' :: behind) := by
    have hle : -(places : Int) ≤ 0 := by omega
    have htoNat : (-(-(places : Int))).toNat = places := by omega
    simp only [Decimal.plain, Decimal.signText, if_pos hle, htoNat, hpointed,
      String.toList_ofList]
  have hprinted : OptionalSign negative (if negative then ['-'] else []) := by
    cases negative with
    | true => exact .minus
    | false => exact .absent
  have hdecimal := DecimalText.mk hprinted hfront hbehind
  rw [hnumber, hlength] at hdecimal
  rw [hplain]
  exact hdecimal

/-! ### Quoted literals -/

/-- No text of a literal has a backslash: no escape stands for one, and none can be
written plainly. -/
theorem QuotedBody.not_mem {mark : Char} {body text : List Char} (h : QuotedBody mark body text) :
    '\\' ∉ text := by
  induction h with
  | nil => simp
  | plain hmark hslash _ ih => simpa [Ne.symm hslash] using ih
  | @escape letter c body text hletter _ ih =>
      have hc : c ≠ '\\' := by
        rintro rfl
        unfold Text.controlOf? at hletter
        split at hletter <;> simp at hletter
      simpa [Ne.symm hc] using ih

/-- So it is with the text of a whole literal. -/
theorem QuotedText.not_mem {mark : Char} {literal text : List Char}
    (h : QuotedText mark literal text) : '\\' ∉ text := by
  cases h with
  | mk hbody => exact hbody.not_mem

/-- A character is written behind a backslash or as it is, so that it is read
again. -/
theorem quotedBody_escapeChar_append {mark c : Char} (hmark : mark = '\'' ∨ mark = '"')
    (hslash : c ≠ '\\') {body text : List Char} (h : QuotedBody mark body text) :
    QuotedBody mark (Text.escapeChar mark c ++ body) (c :: text) := by
  -- One case for each character that has an escape of its own; the backslash
  -- is excluded and the mark is written behind one.
  unfold Text.escapeChar
  split
  · exact .escape rfl h
  · exact .escape rfl h
  · exact .escape rfl h
  · exact .escape rfl h
  · exact .escape rfl h
  · exact absurd rfl hslash
  · split
    · next heq =>
        subst heq
        refine .escape ?_ h
        rcases hmark with rfl | rfl <;> rfl
    · next hne => exact .plain hne hslash h

/-- The body that is written for a text is read as the text. -/
theorem quotedBody_escape {mark : Char} (hmark : mark = '\'' ∨ mark = '"') {text : List Char}
    (hslash : '\\' ∉ text) : QuotedBody mark (Text.escape mark text) text := by
  induction text with
  | nil => exact .nil
  | cons c rest ih =>
      have hc : c ≠ '\\' := fun h => hslash (by simp [h])
      rw [Text.escape, List.flatMap_cons]
      exact quotedBody_escapeChar_append hmark hc (ih fun h => hslash (by simp [h]))

/-- A quoted text is a literal of the text, if it has no backslash. -/
theorem quotedText_quote {mark : Char} (hmark : mark = '\'' ∨ mark = '"') {text : List Char}
    (hslash : '\\' ∉ text) :
    QuotedText mark (Text.quote mark (String.ofList text)).toList text := by
  rw [Text.quote, String.toList_ofList, String.toList_ofList]
  exact .mk (quotedBody_escape hmark hslash)

end PlcLang.Proofs
