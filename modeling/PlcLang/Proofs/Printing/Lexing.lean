import PlcLang.Proofs.Grammar.Words

/-!
# `PlcLang.Proofs.Printing.Lexing`: running the lexer on pieces of text

A printed text is put together from pieces, and so is the proof that the lexer
cuts it as it should. `Lexes text follow good D` says of a piece: wherever it
stands, before a tail that satisfies `follow`, the lexer either makes tokens of
it that satisfy `D` and goes on with the tail, or stops in an error. Which of
the two happens is known beforehand: the first if `good` holds, the second if
not. So one proof along the structure of the text shows both that good texts
lex and that the others do not.

`Lexes.append` puts two pieces together. What the first one needs behind it is
what the second one begins with, and this is nearly always a character before
which every token ends, a `Boundary`.
-/

set_option autoImplicit false

namespace PlcLang.Proofs

open Lexer

/-- The lexer makes tokens with `D` of the text, wherever it stands before a
tail with `follow`, if `good` holds, and fails if it does not. -/
def Lexes (text : List Char) (follow : List Char → Prop) (good : Prop)
    (D : List Token → Prop) : Prop :=
  ∀ offset,
    (good ∧ ∃ tokens, Readable tokens ∧ D tokens ∧ ∀ tail, follow tail →
      tokensFrom offset 0 (text ++ tail)
        = (tokens ++ ·) <$> tokensFrom (offset + text.length) 0 tail)
    ∨ (¬ good ∧ ∀ tail, follow tail → ∃ error, tokensFrom offset 0 (text ++ tail) = .error error)

/-- Nothing need follow. -/
def Anything : List Char → Prop :=
  fun _ => True

section

variable {text other : List Char} {follow follow' : List Char → Prop} {good good' : Prop}
  {D D' : List Token → Prop}

/-- A piece of text lexes the same if less is asked of it, and before fewer tails. -/
theorem Lexes.mono (h : Lexes text follow good D) (hfollow : ∀ tail, follow' tail → follow tail)
    (hgood : good' ↔ good) (hD : ∀ tokens, D tokens → D' tokens) :
    Lexes text follow' good' D' := by
  intro offset
  rcases h offset with ⟨hg, tokens, hread, hd, htokens⟩ | ⟨hg, herror⟩
  · exact .inl ⟨hgood.mpr hg, tokens, hread, hD tokens hd,
      fun tail htail => htokens tail (hfollow tail htail)⟩
  · exact .inr ⟨fun hg' => hg (hgood.mp hg'), fun tail htail => herror tail (hfollow tail htail)⟩

/-- Two pieces lex one behind the other, if the second may follow the first. They
are good if both are. -/
theorem Lexes.append (h : Lexes text follow good D) (hother : Lexes other follow' good' D')
    (hfollow : ∀ tail, follow' tail → follow (other ++ tail)) :
    Lexes (text ++ other) follow' (good ∧ good')
      fun tokens => ∃ first second, tokens = first ++ second ∧ D first ∧ D' second := by
  intro offset
  -- The second piece stands where the first one ends, so it matters only
  -- where the first one has lexed; a failure of the first is that of both.
  rcases h offset with ⟨hg, first, hread, hd, hfirst⟩ | ⟨hg, herror⟩
  · rcases hother (offset + text.length) with
      ⟨hg', second, hread', hd', hsecond⟩ | ⟨hg', herror⟩
    · refine .inl ⟨⟨hg, hg'⟩, first ++ second, hread.append hread', ⟨first, second, rfl, hd, hd'⟩,
        fun tail htail => ?_⟩
      rw [List.append_assoc, hfirst _ (hfollow tail htail), hsecond tail htail, List.length_append,
        Nat.add_assoc]
      cases tokensFrom (offset + (text.length + other.length)) 0 tail with
      | error e => rfl
      | ok tokens => exact congrArg Except.ok (List.append_assoc first second tokens).symm
    · refine .inr ⟨fun hg => hg' hg.2, fun tail htail => ?_⟩
      obtain ⟨e, he⟩ := herror tail htail
      refine ⟨e, ?_⟩
      rw [List.append_assoc, hfirst _ (hfollow tail htail), he]
      rfl
  · refine .inr ⟨fun hg' => hg hg'.1, fun tail htail => ?_⟩
    rw [List.append_assoc]
    exact herror _ (hfollow tail htail)

/-- A piece of text that is empty makes no tokens. -/
theorem lexes_nil : Lexes [] follow True (· = []) := by
  intro offset
  refine .inl ⟨trivial, [], readable_nil, rfl, fun tail _ => ?_⟩
  show tokensFrom offset 0 tail = _
  cases tokensFrom offset 0 tail <;> rfl

/-- White space in front makes no tokens. -/
theorem Lexes.space {c : Char} (hother : Lexes other follow good D) (hc : isSpace c = true) :
    Lexes (c :: other) follow good D := by
  intro offset
  rcases hother (offset + 1) with ⟨hg, tokens, hread, hd, htokens⟩ | ⟨hg, herror⟩
  · refine .inl ⟨hg, tokens, hread, hd, fun tail htail => ?_⟩
    have hlength : offset + 1 + other.length = offset + (c :: other).length := by
      rw [List.length_cons]
      omega
    rw [List.cons_append, tokensFrom_space hc, htokens tail htail, hlength]
  · refine .inr ⟨hg, fun tail htail => ?_⟩
    rw [List.cons_append, tokensFrom_space hc]
    exact herror tail htail

/-- The first token has this kind and text, and the others satisfy `D`. -/
def Headed (kind : TokenKind) (literal : List Char) (D : List Token → Prop)
    (tokens : List Token) : Prop :=
  ∃ token rest, tokens = token :: rest ∧ token.kind = kind
    ∧ token.literal = String.ofList literal ∧ D rest

/-- A token is made of its text, if it ends before what follows. -/
theorem lexes_token {kind : TokenKind} {literal : List Char} (hclass : TokenClass kind literal)
    (hread : kind = .decimal → (Decimal.read? (String.ofList literal)).isSome = true)
    (hends : ∀ tail, follow tail → Ends kind literal tail) :
    Lexes literal follow True (Headed kind literal (· = [])) := by
  intro offset
  refine .inl ⟨trivial, [⟨kind, String.ofList literal, offset⟩],
    readable_singleton (by simpa using hclass) hread, ⟨_, [], rfl, rfl, rfl, rfl⟩,
    fun tail htail => ?_⟩
  exact tokensFrom_token hclass (hends tail htail) offset

/-- A word, a name or an operator in front makes a token. Decimals are left out,
since not all of them are readable. -/
theorem Lexes.token {kind : TokenKind} {literal : List Char}
    (hother : Lexes other follow good D) (hclass : TokenClass kind literal)
    (hkind : kind ≠ .decimal) (hends : ∀ tail, follow tail → Ends kind literal (other ++ tail)) :
    Lexes (literal ++ other) follow good (Headed kind literal D) := by
  have hfirst : Lexes literal (Ends kind literal) True (Headed kind literal (· = [])) :=
    lexes_token hclass (fun h => absurd h hkind) fun _ h => h
  refine (hfirst.append hother hends).mono (fun _ h => h) (by simp) ?_
  rintro tokens ⟨first, second, rfl, ⟨token, rest, rfl, hk, hl, rfl⟩, hd⟩
  exact ⟨token, second, rfl, hk, hl, hd⟩

/-- A sign that goes on with nothing makes a token. -/
theorem Lexes.sign (c : Char) (hother : Lexes other follow good D)
    (hc : isSymbol c = true ∧ isSign c = false ∧ isComparison c = false) :
    Lexes (c :: other) follow good (Headed .operator [c] D) := by
  refine hother.token (.symbol hc.1) (by decide) fun tail _ d _ hgoes => ?_
  simp [GoesOn, hc.2.1, hc.2.2] at hgoes

/-- The lexer makes of a whole text what it makes of the piece that the text is but for its
end, where there are no tokens. -/
theorem Lexes.tokenize_eq {tail : List Char} {whole : String} (h : Lexes text follow good D)
    (hwhole : whole.toList = text ++ tail) (hfollow : follow tail)
    (hend : ∀ offset, tokensFrom offset 0 tail = .ok []) :
    (good ∧ ∃ tokens, tokenize whole = .ok tokens ∧ Readable tokens ∧ D tokens)
      ∨ (¬ good ∧ ∃ error, tokenize whole = .error error) := by
  rw [tokenize, hwhole]
  rcases h 0 with ⟨hgood, tokens, hread, hd, htokens⟩ | ⟨hgood, herror⟩
  · refine .inl ⟨hgood, tokens, ?_, hread, hd⟩
    rw [htokens tail hfollow, hend]
    exact congrArg Except.ok (List.append_nil tokens)
  · exact .inr ⟨hgood, herror tail hfollow⟩

end

/-! ### Where tokens end -/

/-- A character before which every token ends: a space, a newline or punctuation
other than the point and the equals sign. -/
def isBoundary (c : Char) : Bool :=
  c == ' ' || c == '\n' || c == '(' || c == ')' || c == ',' || c == ';' || c == ':'

/-- The text goes on with a boundary, or is at its end. -/
def Boundary (tail : List Char) : Prop :=
  ∀ c ∈ tail.head?, isBoundary c = true

/-- The end of the text is one. -/
theorem boundary_nil : Boundary [] := by
  simp [Boundary]

/-- So is a text that begins with such a character. -/
theorem boundary_cons {c : Char} {tail : List Char} (h : isBoundary c = true) :
    Boundary (c :: tail) := by
  simpa [Boundary] using h

/-- No token goes on with a boundary. -/
theorem ends_of_boundary {kind : TokenKind} {literal tail : List Char} (h : Boundary tail) :
    Ends kind literal tail := by
  intro c hc
  have hb := h c hc
  have hfacts : isNameChar c = false ∧ c ≠ '.' ∧ c ≠ '=' := by
    simp only [isBoundary, Bool.or_eq_true, beq_iff_eq] at hb
    rcases hb with (((((rfl | rfl) | rfl) | rfl) | rfl) | rfl) | rfl <;> decide
  obtain ⟨hname, hpoint, hequals⟩ := hfacts
  exact not_goesOn hname (fun _ => hpoint) hequals

/-- The text goes on with a point and a name, as it does behind a receiver. -/
def PointName (tail : List Char) : Prop :=
  ∃ c more, tail = '.' :: c :: more ∧ isNameStart c = true

/-- No token but an integer goes on with a point. -/
theorem ends_of_pointName {kind : TokenKind} {literal tail : List Char} (h : PointName tail)
    (hkind : kind ≠ .integer) : Ends kind literal tail := by
  obtain ⟨d, more, rfl, -⟩ := h
  intro c hc
  obtain rfl : '.' = c := by simpa using hc
  exact not_goesOn (by decide) (fun h => absurd h hkind) (by decide)

/-- Where no token can be scanned there are no tokens. -/
theorem tokensFrom_error {offset : Nat} {c : Char} {rest : List Char} {e : LexError}
    (hspace : isSpace c = false) (h : scan offset c rest = .error e) :
    tokensFrom offset 0 (c :: rest) = .error e := by
  rw [tokensFrom, hspace, h]
  rfl

/-- Digits before a point and a name are no number: a digit is missing behind the
point. -/
theorem scanDigits_pointName {digits tail : List Char} (hdigits : IsDigits digits)
    (htail : PointName tail) (start : Nat) :
    ∃ e, scanDigits start (digits ++ tail) = .error e := by
  obtain ⟨c, more, rfl, hc⟩ := htail
  have hnone : ∀ d ∈ ([] : List Char), Text.isDigit d = true := by simp
  have hnot : ∀ d ∈ (c :: more).head?, Text.isDigit d = false := by
    simpa using isDigit_of_isNameStart hc
  exact ⟨_, (scanDigits_point start hdigits.all hnone hnot).trans (if_pos rfl)⟩

/-- An integer does not lex before a point and a name: the lexer takes the point
for that of a decimal. -/
theorem lexes_integer_pointName {literal : List Char} {value : Int}
    (h : IntegerText literal value) (D : List Token → Prop) :
    Lexes literal PointName False D := by
  intro offset
  refine .inr ⟨fun h => h, fun tail htail => ?_⟩
  cases h with
  | @mk negative sign digits hsign hdigits =>
      obtain ⟨d, rest, rfl⟩ := List.exists_cons_of_ne_nil hdigits.ne_nil
      have hdigit := hdigits.all d (by simp)
      have hname := isNameStart_of_isDigit hdigit
      -- With a sign in front the digits are scanned one place on, and fail there
      -- in the same way.
      have hsigned (sign : Char) (hsign : isSign sign = true)
          (hstart : isNameStart sign = false ∧ Text.isDigit sign = false) :
          ∃ e, scan offset sign (d :: rest ++ tail) = .error e := by
        obtain ⟨e, he⟩ := scanDigits_pointName hdigits htail (offset + 1)
        refine ⟨e, ?_⟩
        rw [scan, hstart.1, hstart.2, hsign]
        simp only [scanSigned, List.cons_append, hdigit]
        exact he
      cases hsign with
      | absent =>
          obtain ⟨e, he⟩ := scanDigits_pointName hdigits htail offset
          have hspace : isSpace d = false := by
            rw [Bool.eq_false_iff]
            intro hspace
            rw [(not_start_of_isSpace hspace).1] at hdigit
            exact absurd hdigit (by decide)
          refine ⟨e, tokensFrom_error hspace ?_⟩
          rw [scan, hname, hdigit]
          exact he
      | plus =>
          obtain ⟨e, he⟩ := hsigned '+' (by decide) (by decide)
          exact ⟨e, tokensFrom_error (by decide) he⟩
      | minus =>
          obtain ⟨e, he⟩ := hsigned '-' (by decide) (by decide)
          exact ⟨e, tokensFrom_error (by decide) he⟩

end PlcLang.Proofs
