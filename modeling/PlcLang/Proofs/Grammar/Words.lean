import PlcLang.Decimal.Notation
import PlcLang.Proofs.Lexical.Segmentation

/-!
# `PlcLang.Proofs.Grammar.Words`: tokens as the parser tells them apart

The parser knows keywords and signs by their texts and everything else by its
kind. On the tokens of the lexer the two agree: a keyword is an identifier, a
sign is an operator, and no number or quoted literal has the text of either.

`Genuine` tokens are those of the lexer. `Readable` ones are genuine and have
no decimal with more digits than a decimal may have.
-/

set_option autoImplicit false

namespace PlcLang.Proofs

/-! ### Words and signs -/

/-- A token that begins like a name is an identifier. No other class begins with a
letter or an underscore. -/
theorem TokenClass.kind_of_isNameStart {kind : TokenKind} {c : Char} {more : List Char}
    (h : TokenClass kind (c :: more)) (hc : Lexer.isNameStart c = true) : kind = .identifier := by
  cases h.shape with
  | name => rfl
  | number hdigit => simp [isNameStart_of_isDigit hdigit] at hc
  | signed hsign =>
      have hsymbol := isSymbol_of_isSign hsign
      simp [isSymbol, hc] at hsymbol
  | character => exact absurd hc (by decide)
  | string => exact absurd hc (by decide)
  | operator hsymbol => simp [isSymbol, hc] at hsymbol

/-- A token that begins with a symbol that is no sign is an operator. Signs are left
out, since numbers begin with them as well. -/
theorem TokenClass.kind_of_isSymbol {kind : TokenKind} {c : Char} {more : List Char}
    (h : TokenClass kind (c :: more)) (hc : isSymbol c = true) (hsign : Lexer.isSign c = false) :
    kind = .operator := by
  cases h.shape with
  | name hstart => simp [isSymbol, hstart] at hc
  | number hdigit => simp [isSymbol, hdigit] at hc
  | signed h => rw [h] at hsign; exact absurd hsign (by simp)
  | character => exact absurd hc (by decide)
  | string => exact absurd hc (by decide)
  | operator => rfl

/-- The signs of the grammar that are no operators of expressions. The equals sign
is among them, as the sign between a name and its value. -/
def punctuation : List String :=
  ["(", ")", ",", ";", ":", "=", "."]

/-- Keywords are identifiers to the lexer, which knows none of them. -/
theorem tokenClass_of_mem_keywords {word : String} (h : word ∈ keywords) :
    TokenClass .identifier word.toList := by
  have hwords : ∀ word ∈ keywords,
      word.toList.head?.any Lexer.isNameStart = true
        ∧ word.toList.tail.all Lexer.isNameChar = true := by
    decide
  obtain ⟨hstart, hmore⟩ := hwords word h
  generalize word.toList = text at hstart hmore
  cases text with
  | nil => simp at hstart
  | cons c more => exact .identifier (by simpa using hstart) (List.all_eq_true.mp hmore)

/-- A token with the text of a keyword is an identifier, so no literal is taken for
one. -/
theorem kind_of_mem_keywords {token : Token} (h : TokenClass token.kind token.literal.toList)
    (hmem : token.literal ∈ keywords) : token.kind = .identifier := by
  have hhead : ∀ word ∈ keywords, word.toList.head?.any Lexer.isNameStart = true := by decide
  obtain ⟨c, more, hliteral⟩ := List.exists_cons_of_ne_nil h.ne_nil
  rw [hliteral] at h
  exact h.kind_of_isNameStart (by simpa [hliteral] using hhead _ hmem)

/-- A token with the text of punctuation is an operator, so no literal is taken for
it. -/
theorem kind_of_mem_punctuation {token : Token}
    (h : TokenClass token.kind token.literal.toList) (hmem : token.literal ∈ punctuation) :
    token.kind = .operator := by
  have hhead : ∀ word ∈ punctuation,
      word.toList.head?.any (fun c => isSymbol c && !Lexer.isSign c) = true := by decide
  obtain ⟨c, more, hliteral⟩ := List.exists_cons_of_ne_nil h.ne_nil
  rw [hliteral] at h
  obtain ⟨hc, hsign⟩ : isSymbol c = true ∧ Lexer.isSign c = false := by
    simpa [hliteral] using hhead _ hmem
  exact h.kind_of_isSymbol hc hsign

/-- A name is an identifier that is no keyword. -/
theorem isName_iff {token : Token} :
    token.isName = true ↔ token.kind = .identifier ∧ token.literal ∉ keywords := by
  simp [Token.isName]

/-! ### Tokens of the lexer -/

/-- Tokens as the lexer makes them: the text of each is of the class of its
kind. -/
def Genuine (tokens : List Token) : Prop :=
  ∀ token ∈ tokens, TokenClass token.kind token.literal.toList

/-- What is left of genuine tokens is genuine, so the parser meets no others. -/
theorem Genuine.right {used rest : List Token} (h : Genuine (used ++ rest)) : Genuine rest :=
  fun token htoken => h token (List.mem_append_right used htoken)

/-- Genuine tokens whose decimals can all be read. The lexer makes decimals of any
number of digits, and the parser refuses some of them. -/
structure Readable (tokens : List Token) : Prop where
  genuine : Genuine tokens
  decimals : ∀ token ∈ tokens, token.kind = .decimal →
    (Decimal.read? token.literal).isSome = true

/-- Some of readable tokens are readable. -/
theorem Readable.mono {tokens part : List Token} (h : Readable tokens) (hpart : part ⊆ tokens) :
    Readable part :=
  ⟨fun token htoken => h.genuine token (hpart htoken),
    fun token htoken => h.decimals token (hpart htoken)⟩

/-- No tokens are readable. -/
theorem readable_nil : Readable [] :=
  ⟨fun _ h => absurd h List.not_mem_nil, fun _ h => absurd h List.not_mem_nil⟩

/-- Readable tokens behind readable tokens are readable. -/
theorem Readable.append {tokens others : List Token} (h : Readable tokens)
    (hothers : Readable others) : Readable (tokens ++ others) where
  genuine token htoken :=
    (List.mem_append.mp htoken).elim (h.genuine token) (hothers.genuine token)
  decimals token htoken :=
    (List.mem_append.mp htoken).elim (h.decimals token) (hothers.decimals token)

/-- A single token is readable if it is genuine, and if it can be read where it is a
decimal. -/
theorem readable_singleton {token : Token} (h : TokenClass token.kind token.literal.toList)
    (hdecimal : token.kind = .decimal → (Decimal.read? token.literal).isSome = true) :
    Readable [token] := by
  constructor
  · intro other hother
    rw [List.mem_singleton.mp hother]
    exact h
  · intro other hother
    rw [List.mem_singleton.mp hother]
    exact hdecimal

/-- A genuine token without digits is no decimal. -/
theorem kind_ne_decimal {token : Token} (h : TokenClass token.kind token.literal.toList)
    (hdigit : token.literal.toList.any Text.isDigit = false) : token.kind ≠ .decimal := by
  intro hkind
  rw [hkind] at h
  generalize token.literal.toList = literal at h hdigit
  cases h with
  | decimal h =>
      cases h with
      | mk _ hwhole _ =>
          obtain ⟨d, whole, rfl⟩ := List.exists_cons_of_ne_nil hwhole.ne_nil
          have hd := hwhole.all d (by simp)
          simp [hd] at hdigit

/-- A word or a sign is readable, since it has no digits. -/
theorem readable_of_word {token : Token} (h : TokenClass token.kind token.literal.toList)
    (hdigit : token.literal.toList.any Text.isDigit = false) : Readable [token] :=
  readable_singleton h fun hkind => absurd hkind (kind_ne_decimal h hdigit)

end PlcLang.Proofs
