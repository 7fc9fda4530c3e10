import PlcLang.Decimal
import PlcLang.Token.Lexer

/-!
# `PlcLang.Proofs.Lexical.Classes`: what tokens of each kind look like

`Lexer.scan` finds the end of a token by looking ahead. This module says
without any scanning which texts are tokens at all, and what they stand for:

* `TokenClass kind literal`: the text `literal` is a token of that kind.
* `IntegerText`, `DecimalText` and `QuotedText` add the number or the text
  that the literal stands for.
* `GoesOn kind literal c`: the token would take `c` in, were it the next
  character. A token ends where the next character does not go on it, which
  is `Ends`.

The lemmas on single characters say that the classes that start tokens do
not meet: a digit starts no name, a quote is no symbol, and so on.
-/

set_option autoImplicit false

namespace PlcLang.Proofs

open Lexer

/-! ### Numbers -/

/-- A sign that may be left out, and whether it is a minus. -/
inductive OptionalSign : Bool → List Char → Prop where
  | absent : OptionalSign false []
  | plus : OptionalSign false ['+']
  | minus : OptionalSign true ['-']

/-- At least one digit and nothing else. The digits are the ten of ASCII. -/
structure IsDigits (text : List Char) : Prop where
  ne_nil : text ≠ []
  all : ∀ c ∈ text, Text.isDigit c = true

/-- The number that a run of digits counts, in base ten. -/
def digitsNumber (digits : List Char) : Nat :=
  Nat.ofDigitChars 10 digits 0

/-- An integer literal and its value: digits with an optional sign. -/
inductive IntegerText : List Char → Int → Prop where
  | mk {negative : Bool} {sign digits : List Char} (hsign : OptionalSign negative sign)
      (hdigits : IsDigits digits) :
      IntegerText (sign ++ digits)
        (if negative then -(digitsNumber digits : Int) else digitsNumber digits)

/-- A decimal literal and its value, sign and scale included: the digits on
both sides of the point are the coefficient, and those behind it count as the
scale. -/
inductive DecimalText : List Char → Decimal → Prop where
  | mk {negative : Bool} {sign whole fraction : List Char} (hsign : OptionalSign negative sign)
      (hwhole : IsDigits whole) (hfraction : IsDigits fraction) :
      DecimalText (sign ++ (whole ++ '.' :: fraction))
        ⟨negative, digitsNumber (whole ++ fraction), -(fraction.length : Int)⟩

/-! ### Quoted literals -/

/-- What stands between the quotes of a literal, and the text it stands for:
any character but the quote and the backslash stands for itself, and a
backslash comes with one of the escape letters. -/
inductive QuotedBody (mark : Char) : List Char → List Char → Prop where
  | nil : QuotedBody mark [] []
  | plain {c : Char} {body text : List Char} (hmark : c ≠ mark) (hslash : c ≠ '\\')
      (rest : QuotedBody mark body text) : QuotedBody mark (c :: body) (c :: text)
  | escape {letter c : Char} {body text : List Char} (hletter : Text.controlOf? letter = some c)
      (rest : QuotedBody mark body text) : QuotedBody mark ('\\' :: letter :: body) (c :: text)

/-- A literal between quotes, and the text it stands for. -/
inductive QuotedText (mark : Char) : List Char → List Char → Prop where
  | mk {body text : List Char} (hbody : QuotedBody mark body text) :
      QuotedText mark (mark :: (body ++ [mark])) text

/-! ### Tokens -/

/-- A character that is an operator of its own: no white space, and nothing
that another kind of token begins with. The two signs are among them. -/
def isSymbol (c : Char) : Bool :=
  !isSpace c && !isNameStart c && !Text.isDigit c && c != '\'' && c != '"'

/-- A character that makes an operator of two characters with an equals sign
behind it. -/
def isComparison (c : Char) : Bool :=
  c == '<' || c == '>' || c == '!' || c == '='

/-- The texts that are tokens of each kind. No scanner is asked: this is what the
lexer is to find. -/
inductive TokenClass : TokenKind → List Char → Prop where
  | identifier {c : Char} {more : List Char} (hstart : isNameStart c = true)
      (hmore : ∀ d ∈ more, isNameChar d = true) : TokenClass .identifier (c :: more)
  | integer {literal : List Char} {value : Int} (h : IntegerText literal value) :
      TokenClass .integer literal
  | decimal {literal : List Char} {value : Decimal} (h : DecimalText literal value) :
      TokenClass .decimal literal
  | character {literal : List Char} {c : Char} (h : QuotedText '\'' literal [c]) :
      TokenClass .character literal
  | string {literal text : List Char} (h : QuotedText '"' literal text) :
      TokenClass .string literal
  | comparison {c : Char} (h : isComparison c = true) : TokenClass .operator [c, '=']
  | symbol {c : Char} (h : isSymbol c = true) : TokenClass .operator [c]

/-- Whether the token takes in `next`, were it the next character of the
text. -/
def GoesOn : TokenKind → List Char → Char → Prop
  | .identifier, _, next => isNameChar next = true
  | .integer, _, next => Text.isDigit next = true ∨ next = '.'
  | .decimal, _, next => Text.isDigit next = true
  | .character, _, _ | .string, _, _ => False
  | .operator, [c], next =>
    isSign c = true ∧ Text.isDigit next = true ∨ isComparison c = true ∧ next = '='
  | .operator, _, _ => False

/-- The token ends before `tail`: its first character, if there is one, does
not go on the token. -/
def Ends (kind : TokenKind) (literal tail : List Char) : Prop :=
  ∀ c ∈ tail.head?, ¬ GoesOn kind literal c

/-! ### Characters -/

/-- Digits by their codes. -/
theorem isDigit_iff {c : Char} : Text.isDigit c = true ↔ 48 ≤ c.toNat ∧ c.toNat ≤ 57 := by
  simp only [Text.isDigit, Bool.and_eq_true, decide_eq_true_eq, Char.le_def,
    UInt32.le_iff_toNat_le]
  exact Iff.rfl

/-- A digit starts no name. -/
theorem isNameStart_of_isDigit {c : Char} (h : Text.isDigit c = true) :
    isNameStart c = false := by
  rw [isDigit_iff] at h
  have hascii : c.toNat < 128 := by omega
  have halpha : c.isAlpha = false := by
    have hval : c.val.toNat = c.toNat := rfl
    have hupper : 'A'.val.toNat = 65 := rfl
    have hlower : 'a'.val.toNat = 97 := rfl
    show (decide ('A'.val ≤ c.val ∧ c.val ≤ 'Z'.val)
      || (decide ('a'.val ≤ c.val) && decide (c.val ≤ 'z'.val))) = false
    simp only [Bool.or_eq_false_iff, Bool.and_eq_false_iff, decide_eq_false_iff_not,
      UInt32.le_iff_toNat_le, hval, hupper, hlower]
    omega
  have hscore : (c == '_') = false := by
    rw [beq_eq_false_iff_ne]
    rintro rfl
    simp at h
  simp [isNameStart, Text.isLetter, hascii, halpha, hscore]

/-- What starts a name is no digit. -/
theorem isDigit_of_isNameStart {c : Char} (h : isNameStart c = true) :
    Text.isDigit c = false := by
  cases hd : Text.isDigit c with
  | false => rfl
  | true => rw [isNameStart_of_isDigit hd] at h; exact absurd h (by simp)

/-- What starts a name also goes on a name. -/
theorem isNameChar_of_isNameStart {c : Char} (h : isNameStart c = true) :
    isNameChar c = true := by
  simp only [isNameStart, Bool.or_eq_true] at h
  rcases h with h | h <;> simp [isNameChar, h]

/-- A sign is a symbol, and so an operator where no digit is behind it. -/
theorem isSymbol_of_isSign {c : Char} (h : isSign c = true) : isSymbol c = true := by
  simp only [isSign, Bool.or_eq_true, beq_iff_eq] at h
  rcases h with rfl | rfl <;> decide

/-- A character that begins a comparison is a symbol. -/
theorem isSymbol_of_isComparison {c : Char} (h : isComparison c = true) :
    isSymbol c = true := by
  simp only [isComparison, Bool.or_eq_true, beq_iff_eq] at h
  rcases h with ((rfl | rfl) | rfl) | rfl <;> decide

/-- White space by its characters: space, tab, the two line ends of ASCII, and the
backspace. -/
theorem isSpace_iff {c : Char} :
    isSpace c = true ↔ c = ' ' ∨ c = '\t' ∨ c = '\r' ∨ c = '\n' ∨ c = '\x08' := by
  simp [isSpace, or_assoc]

/-- White space is no digit, starts no name and is no quote. -/
theorem not_start_of_isSpace {c : Char} (h : isSpace c = true) :
    Text.isDigit c = false ∧ isNameStart c = false ∧ isNameChar c = false ∧ c ≠ '\''
      ∧ c ≠ '"' := by
  rw [isSpace_iff] at h
  rcases h with rfl | rfl | rfl | rfl | rfl <;> decide

/-- No token goes on with a character that is none of a name and no equals sign, unless
it is the point behind an integer. -/
theorem not_goesOn {kind : TokenKind} {literal : List Char} {c : Char}
    (hname : isNameChar c = false) (hpoint : kind = .integer → c ≠ '.') (hequals : c ≠ '=') :
    ¬ GoesOn kind literal c := by
  intro hgoes
  have hdigit : Text.isDigit c = false := by
    simp only [isNameChar, Bool.or_eq_false_iff] at hname
    exact hname.1.1.2
  cases kind with
  | identifier => simp [GoesOn, hname] at hgoes
  | integer => simp [GoesOn, hdigit, hpoint rfl] at hgoes
  | decimal => simp [GoesOn, hdigit] at hgoes
  | character => exact hgoes
  | string => exact hgoes
  | operator =>
      -- Only an operator of one character goes on at all.
      cases literal with
      | nil => exact hgoes
      | cons d more =>
          cases more with
          | nil => simp [GoesOn, hdigit, hequals] at hgoes
          | cons => exact hgoes

/-- Every token ends before white space, and at the end of the text. -/
theorem ends_of_isSpace {kind : TokenKind} {literal tail : List Char}
    (h : ∀ c ∈ tail.head?, isSpace c = true) : Ends kind literal tail := by
  intro c hc
  have hspace := h c hc
  obtain ⟨-, -, hname, -, -⟩ := not_start_of_isSpace hspace
  have hnot : c ≠ '.' ∧ c ≠ '=' := by
    rw [isSpace_iff] at hspace
    rcases hspace with rfl | rfl | rfl | rfl | rfl <;> decide
  exact not_goesOn hname (fun _ => hnot.1) hnot.2

/-- No numeral begins with white space, whether it has a sign or not. -/
theorem OptionalSign.isSpace_head {negative : Bool} {sign digits tail more : List Char} {c : Char}
    (hsign : OptionalSign negative sign) (hdigits : IsDigits digits)
    (h : sign ++ (digits ++ tail) = c :: more) : isSpace c = false := by
  cases hsign with
  | absent =>
      obtain ⟨d, rest, rfl⟩ := List.exists_cons_of_ne_nil hdigits.ne_nil
      cases h
      rw [Bool.eq_false_iff]
      intro hspace
      have hdigit := (not_start_of_isSpace hspace).1
      rw [hdigits.all c List.mem_cons_self] at hdigit
      cases hdigit
  | plus => cases h; decide
  | minus => cases h; decide

/-- No symbol is white space. -/
theorem isSpace_of_isSymbol {c : Char} (h : isSymbol c = true) : isSpace c = false := by
  simp only [isSymbol, Bool.and_eq_true, Bool.not_eq_true'] at h
  exact h.1.1.1.1

/-- No token begins with white space. -/
theorem TokenClass.isSpace_head {kind : TokenKind} {c : Char} {more : List Char}
    (h : TokenClass kind (c :: more)) : isSpace c = false := by
  generalize hliteral : c :: more = literal at h
  cases h with
  | identifier hfirst _ =>
      cases hliteral
      rw [Bool.eq_false_iff]
      intro hspace
      have hstart := (not_start_of_isSpace hspace).2.1
      rw [hfirst] at hstart
      cases hstart
  | integer h =>
      cases h with
      | mk hsign hdigits =>
          exact hsign.isSpace_head hdigits (by rw [List.append_nil, hliteral])
  | decimal h =>
      cases h with
      | mk hsign hwhole _ => exact hsign.isSpace_head hwhole hliteral.symm
  | character h => cases h; cases hliteral; decide
  | string h => cases h; cases hliteral; decide
  | comparison h =>
      cases hliteral
      exact isSpace_of_isSymbol (isSymbol_of_isComparison h)
  | symbol h =>
      cases hliteral
      exact isSpace_of_isSymbol h

/-- The last character behind at least one digit is a digit. -/
theorem IsDigits.mem_of_getLast? {digits front : List Char} {c : Char} (h : IsDigits digits)
    (hc : (front ++ digits).getLast? = some c) : c ∈ digits := by
  rw [List.getLast?_append, List.getLast?_eq_some_getLast h.ne_nil, Option.some_or] at hc
  rw [← Option.some.inj hc]
  exact List.getLast_mem h.ne_nil

/-- No token ends in white space: it ends in a digit, a quote, a symbol or a
character of a name. -/
theorem TokenClass.isSpace_last {kind : TokenKind} {literal : List Char} {c : Char}
    (h : TokenClass kind literal) (hc : literal.getLast? = some c) : isSpace c = false := by
  rw [Bool.eq_false_iff]
  intro hspace
  -- White space is nothing that a token of any class may end in.
  obtain ⟨hdigit, -, hname, hquote, hquotes⟩ := not_start_of_isSpace hspace
  cases h with
  | identifier hstart hmore =>
      rcases List.mem_cons.mp (List.mem_of_getLast? hc) with rfl | hmem
      · rw [isNameChar_of_isNameStart hstart] at hname
        cases hname
      · rw [hmore c hmem] at hname
        cases hname
  | integer h =>
      cases h with
      | mk _ hdigits =>
          rw [hdigits.all c (hdigits.mem_of_getLast? hc)] at hdigit
          cases hdigit
  | decimal h =>
      cases h with
      | @mk _ sign whole fraction _ _ hfraction =>
          have hparts : sign ++ (whole ++ '.' :: fraction)
              = sign ++ (whole ++ ['.']) ++ fraction := by
            simp
          rw [hparts] at hc
          rw [hfraction.all c (hfraction.mem_of_getLast? hc)] at hdigit
          cases hdigit
  | character h =>
      cases h
      rw [← List.cons_append, List.getLast?_concat] at hc
      exact hquote (Option.some.inj hc).symm
  | string h =>
      cases h
      rw [← List.cons_append, List.getLast?_concat] at hc
      exact hquotes (Option.some.inj hc).symm
  | comparison =>
      obtain rfl : '=' = c := Option.some.inj hc
      exact absurd hspace (by decide)
  | @symbol d h =>
      obtain rfl : d = c := Option.some.inj hc
      simp [isSymbol, hspace] at h

/-- A token is not empty. -/
theorem TokenClass.ne_nil {kind : TokenKind} {literal : List Char}
    (h : TokenClass kind literal) : literal ≠ [] := by
  cases h with
  | identifier => simp
  | integer h =>
      cases h with
      | mk _ hdigits => exact List.append_ne_nil_of_right_ne_nil _ hdigits.ne_nil
  | decimal h => cases h; simp
  | character h => cases h; simp
  | string h => cases h; simp
  | comparison => simp
  | symbol => simp

end PlcLang.Proofs
