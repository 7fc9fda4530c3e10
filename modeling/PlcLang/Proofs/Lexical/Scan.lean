import PlcLang.Proofs.Lexical.Classes

/-!
# `PlcLang.Proofs.Lexical.Scan`: a scan finds the one token that ends

Every scanner of `Lexer` answers with a kind and a place. `scan_eq_ok_iff`
says which: where a token begins, `scan` answers with `kind` and `stop`
exactly if the text there is a token of that kind, as long as the distance to
`stop`, that the text behind it does not go on. One lemma for each scanner
comes before it:

* `scanDigits_eq_ok_iff` for numbers without their sign,
* `scanString_eq_ok_iff` and `scanCharacter_eq_ok_iff` for quoted literals,
* `scanOperator_eq_iff` for operators.
-/

set_option autoImplicit false

namespace PlcLang.Proofs

open Lexer

/-! ### Runs of characters -/

/-- A run that the text behind it does not go on is as long as the scanner
finds it. -/
theorem runLength_append {p : Char → Bool} {run tail : List Char}
    (hrun : ∀ c ∈ run, p c = true) (htail : ∀ c ∈ tail.head?, p c = false) :
    runLength p (run ++ tail) = run.length := by
  rw [runLength, List.takeWhile_append_of_pos hrun]
  cases tail with
  | nil => simp
  | cons c more =>
      have hc : ¬ p c = true := by simp [htail c (by simp)]
      simp [List.takeWhile_cons_of_neg hc]

/-- Every text is a run, of the length that the scanner finds, and a rest
that does not go on it. -/
theorem exists_run (p : Char → Bool) (text : List Char) :
    ∃ run tail, text = run ++ tail ∧ (∀ c ∈ run, p c = true)
      ∧ (∀ c ∈ tail.head?, p c = false) ∧ runLength p text = run.length := by
  refine ⟨text.takeWhile p, text.dropWhile p, List.takeWhile_append_dropWhile.symm,
    fun c hc => ?_, fun c hc => ?_, rfl⟩
  · exact List.all_eq_true.mp List.all_takeWhile c hc
  · have hnot := List.head?_dropWhile_not p text
    rw [Option.mem_def.mp hc] at hnot
    simpa using hnot

/-! ### Numbers -/

/-- The texts that are numbers without a sign: digits, or digits on both sides of a
point. -/
inductive UnsignedNumber : TokenKind → List Char → Prop where
  | integer {digits : List Char} (h : IsDigits digits) : UnsignedNumber .integer digits
  | decimal {whole fraction : List Char} (hwhole : IsDigits whole)
      (hfraction : IsDigits fraction) :
      UnsignedNumber .decimal (whole ++ '.' :: fraction)

/-- A number with a sign or without one is a token. -/
theorem UnsignedNumber.tokenClass {kind : TokenKind} {number sign : List Char} {negative : Bool}
    (h : UnsignedNumber kind number) (hsign : OptionalSign negative sign) :
    TokenClass kind (sign ++ number) := by
  cases h with
  | integer h => exact .integer (.mk hsign h)
  | decimal hwhole hfraction => exact .decimal (.mk hsign hwhole hfraction)

/-- A number goes on as any other of its kind does, whatever its digits are. -/
theorem UnsignedNumber.ends_iff {kind : TokenKind} {number other tail : List Char}
    (h : UnsignedNumber kind number) : Ends kind number tail ↔ Ends kind other tail := by
  cases h <;> exact Iff.rfl

/-- The first character of a number without a sign is a digit. -/
theorem UnsignedNumber.exists_cons {kind : TokenKind} {number : List Char}
    (h : UnsignedNumber kind number) :
    ∃ c more, number = c :: more ∧ Text.isDigit c = true := by
  cases h with
  | integer h =>
      obtain ⟨c, more, rfl⟩ := List.exists_cons_of_ne_nil h.ne_nil
      exact ⟨c, more, rfl, h.all c (by simp)⟩
  | decimal h _ =>
      obtain ⟨c, more, rfl⟩ := List.exists_cons_of_ne_nil h.ne_nil
      exact ⟨c, _, rfl, h.all c (by simp)⟩

/-- `scanDigits` on digits that end an integer. -/
theorem scanDigits_whole (start : Nat) {run tail : List Char}
    (hrun : ∀ c ∈ run, Text.isDigit c = true) (hends : Ends .integer run tail) :
    scanDigits start (run ++ tail) = .ok (.integer, start + run.length) := by
  have htail : ∀ c ∈ tail.head?, Text.isDigit c = false := fun c hc => by
    have hnot := hends c hc
    simp only [GoesOn, not_or] at hnot
    simpa using hnot.1
  simp only [scanDigits, runLength_append hrun htail, List.drop_left]
  split
  · have hpoint := hends '.' (by simp)
    simp [GoesOn] at hpoint
  · rfl

/-- `scanDigits` on digits with a point and a run of digits behind them, which must
not be empty. -/
theorem scanDigits_point (start : Nat) {run fraction tail : List Char}
    (hrun : ∀ c ∈ run, Text.isDigit c = true)
    (hfraction : ∀ c ∈ fraction, Text.isDigit c = true)
    (htail : ∀ c ∈ tail.head?, Text.isDigit c = false) :
    scanDigits start (run ++ '.' :: (fraction ++ tail))
      = if fraction = [] then .error ⟨.missingFraction, start + run.length + 1⟩
        else .ok (.decimal, start + run.length + 1 + fraction.length) := by
  have hpoint : ∀ c ∈ ('.' :: (fraction ++ tail)).head?, Text.isDigit c = false := by
    intro c hc
    obtain rfl : '.' = c := by simpa using hc
    decide
  simp only [scanDigits, runLength_append hrun hpoint, List.drop_left,
    runLength_append hfraction htail]
  cases fraction with
  | nil => simp
  | cons d more => simp

/-- `scanDigits` accepts a number that ends. -/
theorem scanDigits_eq_ok (start : Nat) {kind : TokenKind} {number tail : List Char}
    (h : UnsignedNumber kind number) (hends : Ends kind number tail) :
    scanDigits start (number ++ tail) = .ok (kind, start + number.length) := by
  cases h with
  | integer h => exact scanDigits_whole start h.all hends
  | @decimal whole fraction hwhole hfraction =>
      have htail : ∀ c ∈ tail.head?, Text.isDigit c = false := fun c hc => by
        simpa [GoesOn] using hends c hc
      rw [List.append_assoc, List.cons_append,
        scanDigits_point start hwhole.all hfraction.all htail, if_neg hfraction.ne_nil,
        List.length_append, List.length_cons]
      congr 2
      omega

/-- `scanDigits`, where a digit stands, accepts exactly the numbers that
end. -/
theorem scanDigits_eq_ok_iff {start stop : Nat} {kind : TokenKind} {c : Char} {rest : List Char}
    (hc : Text.isDigit c = true) :
    scanDigits start (c :: rest) = .ok (kind, stop)
      ↔ ∃ number tail, c :: rest = number ++ tail ∧ UnsignedNumber kind number
          ∧ Ends kind number tail ∧ stop = start + number.length := by
  constructor
  · intro h
    obtain ⟨run, tail, htext, hrun, htail, -⟩ := exists_run Text.isDigit (c :: rest)
    have hdigits : IsDigits run := by
      refine ⟨?_, hrun⟩
      rintro rfl
      rw [List.nil_append] at htext
      have := htail c (by simp [← htext])
      rw [hc] at this
      exact absurd this (by simp)
    rw [htext] at h
    -- The digits are as many as there are, so all hangs on the character
    -- behind them: a point must open a fraction, anything else ends an integer.
    by_cases hpoint : tail.head? = some '.'
    · obtain ⟨behind, rfl⟩ := List.head?_eq_some_iff.mp hpoint
      obtain ⟨fraction, after, rfl, hfraction, hafter, -⟩ := exists_run Text.isDigit behind
      rw [scanDigits_point start hrun hfraction hafter] at h
      split at h
      · simp at h
      · next hne =>
          simp only [Except.ok.injEq, Prod.mk.injEq] at h
          obtain ⟨rfl, rfl⟩ := h
          refine ⟨run ++ '.' :: fraction, after, by simp [htext],
            .decimal hdigits ⟨hne, hfraction⟩, fun e he => ?_, ?_⟩
          · simpa [GoesOn] using hafter e he
          · simp only [List.length_append, List.length_cons]
            omega
    · have hends : Ends .integer run tail := fun e he => by
        simp only [GoesOn, not_or]
        refine ⟨by simpa using htail e he, ?_⟩
        rintro rfl
        exact hpoint he
      rw [scanDigits_whole start hrun hends] at h
      simp only [Except.ok.injEq, Prod.mk.injEq] at h
      obtain ⟨rfl, rfl⟩ := h
      exact ⟨run, tail, htext, .integer hdigits, hends, rfl⟩
  · rintro ⟨number, tail, htext, hnumber, hends, rfl⟩
    rw [htext]
    exact scanDigits_eq_ok start hnumber hends

/-! ### Quoted literals -/

/-- A letter that may stand behind a backslash stands for a character. -/
theorem exists_of_isEscapeLetter {letter : Char} (h : Text.isEscapeLetter letter = true) :
    ∃ c, Text.controlOf? letter = some c :=
  Option.isSome_iff_exists.mp h

/-- A letter that stands for a character may stand behind a backslash. -/
theorem isEscapeLetter_of_controlOf {letter c : Char} (h : Text.controlOf? letter = some c) :
    Text.isEscapeLetter letter = true := by
  rw [Text.isEscapeLetter, h, Option.isSome_some]

/-- `scanString` passes over a plain character. -/
theorem scanString_plain {c : Char} (hmark : c ≠ '"') (hslash : c ≠ '\\') (place : Nat)
    (rest : List Char) : scanString place (c :: rest) = scanString (place + 1) rest := by
  rw [scanString]
  · exact fun h => hmark h
  · exact fun h _ => hslash h
  · exact fun _ _ h _ => hslash h

/-- `scanString` accepts the body of a literal up to its closing quote, whatever is
behind it. By induction on the body. -/
theorem scanString_eq_ok {body text : List Char} (h : QuotedBody '"' body text) (place : Nat)
    (tail : List Char) :
    scanString place (body ++ '"' :: tail) = .ok (.string, place + body.length + 1) := by
  -- The body is read as `QuotedBody` builds it: a plain character moves the
  -- place by one, an escape by two.
  induction h generalizing place with
  | nil => simp [scanString]
  | @plain c body text hmark hslash rest ih =>
      rw [List.cons_append, scanString_plain hmark hslash, ih, List.length_cons]
      congr 2
      omega
  | @escape letter c body text hletter rest ih =>
      rw [List.cons_append, List.cons_append, scanString, isEscapeLetter_of_controlOf hletter,
        if_pos rfl, ih, List.length_cons, List.length_cons]
      congr 2
      omega

/-- `scanString` accepts nothing but the body of a literal and its closing
quote. -/
theorem scanString_eq_ok_iff {place stop : Nat} {kind : TokenKind} {input : List Char} :
    scanString place input = .ok (kind, stop)
      ↔ ∃ body text tail, input = body ++ '"' :: tail ∧ QuotedBody '"' body text
          ∧ kind = .string ∧ stop = place + body.length + 1 := by
  constructor
  · intro h
    -- Only a closing quote accepts. The two arms that go on hand their answer
    -- down, and each puts its own characters back in front of the body.
    fun_induction scanString place input with
    | case1 place => simp at h
    | case2 place tail =>
        simp only [Except.ok.injEq, Prod.mk.injEq] at h
        obtain ⟨rfl, rfl⟩ := h
        exact ⟨[], [], tail, rfl, .nil, rfl, rfl⟩
    | case3 place => simp at h
    | case4 place letter rest hletter ih =>
        obtain ⟨body, text, tail, rfl, hbody, rfl, rfl⟩ := ih h
        obtain ⟨c, hc⟩ := exists_of_isEscapeLetter hletter
        exact ⟨'\\' :: letter :: body, c :: text, tail, rfl, .escape hc hbody, rfl, by
          simp only [List.length_cons]; omega⟩
    | case5 place letter rest hletter => simp at h
    | case6 place c rest hmark hone hmore ih =>
        obtain ⟨body, text, tail, rfl, hbody, rfl, rfl⟩ := ih h
        have hslash : c ≠ '\\' := by
          rintro rfl
          -- The two patterns with a backslash in front come before this one.
          cases hrest : body ++ '"' :: tail with
          | nil => exact hone rfl hrest
          | cons d more => exact hmore d more rfl hrest
        exact ⟨c :: body, c :: text, tail, rfl, .plain hmark hslash hbody, rfl, by
          simp only [List.length_cons]; omega⟩
  · rintro ⟨body, text, tail, rfl, hbody, rfl, rfl⟩
    exact scanString_eq_ok hbody place tail

/-- `scanClosingQuote` accepts a single quote only. -/
theorem scanClosingQuote_eq_ok_iff {place stop : Nat} {kind : TokenKind} {input : List Char} :
    scanClosingQuote place input = .ok (kind, stop)
      ↔ ∃ tail, input = '\'' :: tail ∧ kind = .character ∧ stop = place + 1 := by
  rw [scanClosingQuote.eq_def]
  split
  · next tail =>
      simp only [Except.ok.injEq, Prod.mk.injEq]
      exact ⟨fun h => ⟨tail, rfl, h.1.symm, h.2.symm⟩, fun ⟨_, _, hk, hs⟩ => ⟨hk.symm, hs.symm⟩⟩
  · next hquote =>
      constructor
      · intro h
        simp at h
      · rintro ⟨tail, rfl, -, -⟩
        exact absurd rfl (hquote tail)

/-- The body of a character literal is a plain character or an escape. -/
theorem quotedBody_singleton_iff {mark c : Char} {body : List Char} :
    QuotedBody mark body [c]
      ↔ body = [c] ∧ c ≠ mark ∧ c ≠ '\\'
        ∨ ∃ letter, body = ['\\', letter] ∧ Text.controlOf? letter = some c := by
  constructor
  · intro h
    cases h with
    | plain hmark hslash rest => cases rest; exact .inl ⟨rfl, hmark, hslash⟩
    | escape hletter rest => cases rest; exact .inr ⟨_, rfl, hletter⟩
  · rintro (⟨rfl, hmark, hslash⟩ | ⟨letter, rfl, hletter⟩)
    · exact .plain hmark hslash .nil
    · exact .escape hletter .nil

/-- `scanCharacter` accepts the body of a character literal and its closing
quote. -/
theorem scanCharacter_eq_ok_iff {place stop : Nat} {kind : TokenKind} {input : List Char} :
    scanCharacter place input = .ok (kind, stop)
      ↔ ∃ body c tail, input = body ++ '\'' :: tail ∧ QuotedBody '\'' body [c]
          ∧ kind = .character ∧ stop = place + body.length + 1 := by
  -- A character literal has a body of one or two characters, so its four
  -- beginnings (nothing, a backslash, the quote itself, any other character)
  -- can be gone through without an induction.
  simp only [quotedBody_singleton_iff]
  rw [scanCharacter.eq_def]
  split
  · simp
  · next rest =>
      cases rest with
      | nil =>
          constructor
          · intro h
            simp [scanEscape, bind, Except.bind] at h
          · rintro ⟨body, d, tail, hinput, (⟨rfl, -, -⟩ | ⟨letter, rfl, -⟩), rfl, rfl⟩ <;>
              simp at hinput
      | cons letter rest =>
          -- An escape is a body only if its letter stands for a character, and a
          -- backslash cannot be the body on its own.
          by_cases hletter : Text.isEscapeLetter letter = true
          · obtain ⟨c, hc⟩ := exists_of_isEscapeLetter hletter
            simp only [scanEscape, hletter, if_pos, bind, Except.bind, List.drop_succ_cons,
              List.drop_zero, scanClosingQuote_eq_ok_iff]
            constructor
            · rintro ⟨tail, rfl, rfl, rfl⟩
              exact ⟨['\\', letter], c, tail, rfl, .inr ⟨letter, rfl, hc⟩, rfl, rfl⟩
            · rintro ⟨body, d, tail, hinput, (⟨rfl, -, hslash⟩ | ⟨letter, rfl, -⟩), rfl, rfl⟩
              · cases hinput
                exact absurd rfl hslash
              · cases hinput
                exact ⟨tail, rfl, rfl, rfl⟩
          · simp only [scanEscape, hletter, bind, Except.bind]
            constructor
            · intro h
              simp at h
            · rintro ⟨body, d, tail, hinput, (⟨rfl, -, hslash⟩ | ⟨letter, rfl, hd⟩), rfl, rfl⟩
              · cases hinput
                exact absurd rfl hslash
              · cases hinput
                exact absurd (isEscapeLetter_of_controlOf hd) hletter
  · next rest =>
      constructor
      · intro h
        simp at h
      · rintro ⟨body, d, tail, hinput, (⟨rfl, hmark, -⟩ | ⟨letter, rfl, -⟩), rfl, rfl⟩
        · cases hinput
          exact absurd rfl hmark
        · simp at hinput
  · next c rest hslash hmark =>
      rw [scanClosingQuote_eq_ok_iff]
      constructor
      · rintro ⟨tail, rfl, rfl, rfl⟩
        exact ⟨[c], c, tail, rfl, .inl ⟨rfl, hmark, hslash⟩, rfl, rfl⟩
      · rintro ⟨body, d, tail, hinput, (⟨rfl, -, -⟩ | ⟨letter, rfl, -⟩), rfl, rfl⟩
        · cases hinput
          exact ⟨tail, rfl, rfl, rfl⟩
        · cases hinput
          exact absurd rfl hslash

/-! ### Operators -/

/-- `scanOperator` takes an equals sign behind the first character of a
comparison, and no more than the first character else. -/
theorem scanOperator_eq {start : Nat} {c : Char} {rest : List Char} :
    scanOperator start c rest
      = (.operator, start + if isComparison c = true ∧ rest.head? = some '=' then 2 else 1) := by
  have htest : (isComparison c && rest.head? == some '=') = true
      ↔ isComparison c = true ∧ rest.head? = some '=' := by simp
  by_cases h : isComparison c = true ∧ rest.head? = some '='
  · rw [if_pos h]
    exact if_pos (htest.mpr h)
  · rw [if_neg h]
    exact if_neg (mt htest.mp h)

/-- `scanOperator`, where a symbol stands that is no sign, answers with the
operator that ends. -/
theorem scanOperator_eq_iff {start stop : Nat} {kind : TokenKind} {c : Char} {rest : List Char}
    (hsymbol : isSymbol c = true) (hsign : isSign c = false) :
    scanOperator start c rest = (kind, stop)
      ↔ ∃ literal tail, c :: rest = literal ++ tail ∧ TokenClass .operator literal
          ∧ Ends .operator literal tail ∧ kind = .operator ∧ stop = start + literal.length := by
  rw [scanOperator_eq, Prod.mk.injEq]
  constructor
  · rintro ⟨rfl, rfl⟩
    split
    · next h =>
        obtain ⟨hcompare, hequals⟩ := h
        obtain ⟨tail, rfl⟩ := List.head?_eq_some_iff.mp hequals
        exact ⟨[c, '='], tail, rfl, .comparison hcompare, fun e he => by simp [GoesOn], rfl, rfl⟩
    · next h =>
        refine ⟨[c], rest, rfl, .symbol hsymbol, fun e he => ?_, rfl, rfl⟩
        rintro (⟨hs, -⟩ | ⟨hcompare, rfl⟩)
        · rw [hsign] at hs
          exact absurd hs (by simp)
        · exact h ⟨hcompare, he⟩
  · rintro ⟨literal, tail, hrest, hclass, hends, rfl, rfl⟩
    refine ⟨rfl, ?_⟩
    cases hclass with
    | comparison h =>
        cases hrest
        rw [if_pos ⟨h, rfl⟩]
        rfl
    | symbol h =>
        cases hrest
        -- A first character of a comparison stands alone only where no equals
        -- sign follows it, which `Ends` says.
        rw [if_neg]
        · rfl
        · rintro ⟨hcompare, hequals⟩
          exact hends '=' hequals (.inr ⟨hcompare, rfl⟩)

/-! ### Any token -/

/-- The kinds of token by their first character, as `scan` tells them apart. -/
inductive TokenShape : TokenKind → Char → List Char → Prop where
  | name {c : Char} {more : List Char} (hc : isNameStart c = true)
      (hmore : ∀ d ∈ more, isNameChar d = true) : TokenShape .identifier c more
  | number {kind : TokenKind} {c : Char} {more : List Char} (hc : Text.isDigit c = true)
      (hnumber : UnsignedNumber kind (c :: more)) : TokenShape kind c more
  | signed {kind : TokenKind} {c : Char} {more : List Char} (hc : isSign c = true)
      (hnumber : UnsignedNumber kind more) : TokenShape kind c more
  | character {c : Char} {body : List Char} (hbody : QuotedBody '\'' body [c]) :
      TokenShape .character '\'' (body ++ ['\''])
  | string {body text : List Char} (hbody : QuotedBody '"' body text) :
      TokenShape .string '"' (body ++ ['"'])
  | operator {c : Char} {more : List Char} (hc : isSymbol c = true)
      (hclass : TokenClass .operator (c :: more)) : TokenShape .operator c more

/-- Every token has one of the shapes. -/
theorem TokenClass.shape {kind : TokenKind} {c : Char} {more : List Char}
    (h : TokenClass kind (c :: more)) : TokenShape kind c more := by
  -- `TokenClass` builds some literals by appending, so they are no `c :: more`
  -- for `cases` to match; the equation is kept aside instead.
  generalize hliteral : c :: more = literal at h
  cases h with
  | identifier hstart hmore => cases hliteral; exact .name hstart hmore
  | integer h =>
      cases h with
      | mk hsign hdigits =>
          cases hsign with
          | absent =>
              obtain rfl : c :: more = _ := hliteral
              exact .number (hdigits.all c (by simp)) (.integer hdigits)
          | plus => cases hliteral; exact .signed (by decide) (.integer hdigits)
          | minus => cases hliteral; exact .signed (by decide) (.integer hdigits)
  | decimal h =>
      cases h with
      | mk hsign hwhole hfraction =>
          cases hsign with
          | absent =>
              obtain ⟨d, whole, rfl⟩ := List.exists_cons_of_ne_nil hwhole.ne_nil
              cases hliteral
              exact .number (hwhole.all c (by simp)) (.decimal hwhole hfraction)
          | plus => cases hliteral; exact .signed (by decide) (.decimal hwhole hfraction)
          | minus => cases hliteral; exact .signed (by decide) (.decimal hwhole hfraction)
  | character h => cases h with | mk hbody => cases hliteral; exact .character hbody
  | string h => cases h with | mk hbody => cases hliteral; exact .string hbody
  | comparison h =>
      cases hliteral
      exact .operator (isSymbol_of_isComparison h) (.comparison h)
  | symbol h => cases hliteral; exact .operator h (.symbol h)

/-- `scan` accepts a token that ends. One case for each shape. -/
theorem scan_eq_ok {kind : TokenKind} {c : Char} {more tail : List Char}
    (h : TokenClass kind (c :: more)) (hends : Ends kind (c :: more) tail) (start : Nat) :
    scan start c (more ++ tail) = .ok (kind, start + (c :: more).length) := by
  -- One shape for each branch of `scan`, in the order in which it tests the
  -- first character; every test before the branch fails on that shape.
  cases h.shape with
  | name hc hmore =>
      have htail : ∀ d ∈ tail.head?, isNameChar d = false := fun d hd => by
        simpa [GoesOn] using hends d hd
      rw [scan, if_pos hc, runLength_append hmore htail, List.length_cons]
      congr 2
      omega
  | number hc hnumber =>
      rw [scan, isNameStart_of_isDigit hc, if_neg (by simp), if_pos hc]
      exact scanDigits_eq_ok start hnumber hends
  | signed hc hnumber =>
      have hstart : isNameStart c = false ∧ Text.isDigit c = false := by
        have hsymbol := isSymbol_of_isSign hc
        simp only [isSymbol, Bool.and_eq_true, Bool.not_eq_true'] at hsymbol
        exact ⟨hsymbol.1.1.1.2, hsymbol.1.1.2⟩
      obtain ⟨d, digits, rfl, hd⟩ := hnumber.exists_cons
      rw [scan, hstart.1, if_neg (by simp), hstart.2, if_neg (by simp), if_pos hc,
        List.cons_append, scanSigned, if_pos hd, ← List.cons_append,
        scanDigits_eq_ok (start + 1) hnumber (hnumber.ends_iff.mpr hends)]
      simp only [List.length_cons]
      congr 2
      omega
  | character hbody =>
      rw [scan, if_neg (by decide), if_neg (by decide), if_neg (by decide), if_pos rfl,
        scanCharacter_eq_ok_iff]
      refine ⟨_, _, tail, by rw [List.append_assoc, List.singleton_append], hbody, rfl, ?_⟩
      simp only [List.length_cons, List.length_append, List.length_nil]
      omega
  | string hbody =>
      rw [scan, if_neg (by decide), if_neg (by decide), if_neg (by decide), if_neg (by decide),
        if_pos rfl, scanString_eq_ok_iff]
      refine ⟨_, _, tail, by rw [List.append_assoc, List.singleton_append], hbody, rfl, ?_⟩
      simp only [List.length_cons, List.length_append, List.length_nil]
      omega
  | operator hc hclass =>
      have hparts := hc
      simp only [isSymbol, Bool.and_eq_true, Bool.not_eq_true', bne_iff_ne] at hparts
      obtain ⟨⟨⟨⟨-, hname⟩, hdigit⟩, hquote⟩, hquotes⟩ := hparts
      rw [scan, hname, if_neg (by simp), hdigit, if_neg (by simp)]
      by_cases hsign : isSign c = true
      · -- A sign is no comparison, so it stands alone and no digit follows.
        have halone : more = [] := by
          cases hclass with
          | comparison hcompare =>
              simp only [isSign, Bool.or_eq_true, beq_iff_eq] at hsign
              rcases hsign with rfl | rfl <;> exact absurd hcompare (by decide)
          | symbol => rfl
        subst halone
        rw [if_pos hsign, List.nil_append]
        cases tail with
        | nil => rfl
        | cons d tail =>
            have hd : ¬ Text.isDigit d = true := fun hd => hends d rfl (.inl ⟨hsign, hd⟩)
            rw [scanSigned, if_neg hd]
            rfl
      · rw [if_neg hsign, if_neg hquote, if_neg hquotes, Except.ok.injEq,
          scanOperator_eq_iff hc (by simpa using hsign)]
        exact ⟨_, tail, rfl, hclass, hends, rfl, rfl⟩

/-- `scanSigned` answers with a number, or with the sign alone if there is no digit
behind it. -/
theorem scanSigned_ok {start stop : Nat} {kind : TokenKind} {c : Char} {rest : List Char}
    (hsign : isSign c = true) (h : scanSigned start rest = .ok (kind, stop)) :
    ∃ literal tail, c :: rest = literal ++ tail ∧ TokenClass kind literal
      ∧ Ends kind literal tail ∧ stop = start + literal.length := by
  have hoptional : ∃ negative, OptionalSign negative [c] := by
    simp only [isSign, Bool.or_eq_true, beq_iff_eq] at hsign
    rcases hsign with rfl | rfl
    · exact ⟨false, .plus⟩
    · exact ⟨true, .minus⟩
  -- A sign alone is a token that ends unless a digit follows.
  have halone (hrest : ∀ d ∈ rest.head?, Text.isDigit d = false) :
      Ends .operator [c] rest := by
    intro d hd
    rintro (⟨-, hdigit⟩ | ⟨hcompare, -⟩)
    · rw [hrest d hd] at hdigit
      exact absurd hdigit (by simp)
    · simp only [isSign, Bool.or_eq_true, beq_iff_eq] at hsign
      rcases hsign with rfl | rfl <;> exact absurd hcompare (by decide)
  rw [scanSigned.eq_def] at h
  split at h
  · next d more =>
      split at h
      · next hdigit =>
          obtain ⟨number, tail, htext, hnumber, hends, rfl⟩ :=
            (scanDigits_eq_ok_iff hdigit).mp h
          obtain ⟨negative, hoptional⟩ := hoptional
          refine ⟨[c] ++ number, tail, by rw [htext]; simp, hnumber.tokenClass hoptional,
            hnumber.ends_iff.mp hends, ?_⟩
          simp only [List.length_append, List.length_cons, List.length_nil]
          omega
      · next hdigit =>
          simp only [Except.ok.injEq, Prod.mk.injEq] at h
          obtain ⟨rfl, rfl⟩ := h
          refine ⟨[c], d :: more, rfl, .symbol (isSymbol_of_isSign hsign), halone ?_, rfl⟩
          intro e he
          obtain rfl : d = e := by simpa using he
          simpa using hdigit
  · simp only [Except.ok.injEq, Prod.mk.injEq] at h
    obtain ⟨rfl, rfl⟩ := h
    exact ⟨[c], [], rfl, .symbol (isSymbol_of_isSign hsign), halone (by simp), rfl⟩

/-- Where a token begins, `scan` answers with exactly the token that ends. -/
theorem scan_eq_ok_iff {start stop : Nat} {kind : TokenKind} {c : Char} {rest : List Char}
    (hspace : isSpace c = false) :
    scan start c rest = .ok (kind, stop)
      ↔ ∃ literal tail, c :: rest = literal ++ tail ∧ TokenClass kind literal
          ∧ Ends kind literal tail ∧ stop = start + literal.length := by
  constructor
  · intro h
    -- The branches are the tests of `scan` in turn, and the last is left with a
    -- character that no test took, which makes it a symbol.
    rw [scan] at h
    split at h
    · next hname =>
        obtain ⟨run, tail, rfl, hrun, htail, hlength⟩ := exists_run isNameChar rest
        simp only [Except.ok.injEq, Prod.mk.injEq, hlength] at h
        obtain ⟨rfl, rfl⟩ := h
        refine ⟨c :: run, tail, rfl, .identifier hname hrun, fun d hd => ?_, ?_⟩
        · simpa [GoesOn] using htail d hd
        · rw [List.length_cons]
          omega
    · next hname =>
    split at h
    · next hdigit =>
        obtain ⟨number, tail, htext, hnumber, hends, rfl⟩ := (scanDigits_eq_ok_iff hdigit).mp h
        exact ⟨number, tail, htext, hnumber.tokenClass .absent, hends, rfl⟩
    · next hdigit =>
    split at h
    · next hsign => exact scanSigned_ok hsign h
    · next hsign =>
    split at h
    · next hquote =>
        subst hquote
        obtain ⟨body, d, tail, rfl, hbody, rfl, rfl⟩ := scanCharacter_eq_ok_iff.mp h
        refine ⟨'\'' :: (body ++ ['\'']), tail, by simp, .character (.mk hbody),
          fun e he => by simp [GoesOn], ?_⟩
        simp only [List.length_cons, List.length_append, List.length_nil]
        omega
    · next hquote =>
    split at h
    · next hquotes =>
        subst hquotes
        obtain ⟨body, text, tail, rfl, hbody, rfl, rfl⟩ := scanString_eq_ok_iff.mp h
        refine ⟨'"' :: (body ++ ['"']), tail, by simp, .string (.mk hbody),
          fun e he => by simp [GoesOn], ?_⟩
        simp only [List.length_cons, List.length_append, List.length_nil]
        omega
    · next hquotes =>
        have hsymbol : isSymbol c = true := by
          simp [isSymbol, hspace, hname, hdigit, hquote, hquotes]
        rw [Except.ok.injEq, scanOperator_eq_iff hsymbol (by simpa using hsign)] at h
        obtain ⟨literal, tail, htext, hclass, hends, rfl, rfl⟩ := h
        exact ⟨literal, tail, htext, hclass, hends, rfl⟩
  · rintro ⟨literal, tail, htext, hclass, hends, rfl⟩
    obtain ⟨d, more, rfl⟩ := List.exists_cons_of_ne_nil hclass.ne_nil
    cases htext
    exact scan_eq_ok hclass hends start

end PlcLang.Proofs
