import PlcLang.Proofs.Lexical.Segmentation

/-!
# `PlcLang.Proofs.Lexical.Blame`: lexical errors stand at the offending character

Where the lexer fails, the text in front of the error can still become a text
that it accepts, and with the character at the error it no longer can
(`tokenize_error_offset`). Where there is no such character, the text itself is
the unfinished one.

A scanner that fails has taken in a part of its input that begins a token, and
the character behind that part goes on no token, whatever comes after it
(`Blocked`). There is one lemma for each scanner that can fail, then
`scan_blocked` for any token and `tokensFrom_blocked` for a text.
-/

set_option autoImplicit false

namespace PlcLang.Proofs

open Lexer

/-- The input goes well as far as `viable`: that much can be completed to
something `Complete`. The rest of the input is `tail`, and if it is not empty,
then with its first character no input is `Accepted`, whatever comes behind. -/
structure Blocked (Complete Accepted : List Char → Prop) (viable tail : List Char) : Prop where
  completes : ∃ more, Complete (viable ++ more)
  refused : ∀ c ∈ tail.head?, ∀ more, ¬ Accepted (viable ++ c :: more)

/-- An answer and no error, whatever the answer is. -/
def Succeeds {ε α : Type} (answer : Except ε α) : Prop :=
  ∃ a, answer = .ok a

/-- An error is no answer. -/
theorem not_succeeds_error {ε α : Type} (e : ε) : ¬ Succeeds (.error e : Except ε α) := by
  rintro ⟨a, h⟩
  cases h

namespace Blocked

variable {Complete Accepted Complete' Accepted' : List Char → Prop} {viable tail front : List Char}

/-- At the end of the input nothing is refused, so it is enough that the input can
be completed. -/
theorem atEnd (h : ∃ more, Complete (viable ++ more)) : Blocked Complete Accepted viable [] :=
  ⟨h, fun c hc => by cases hc⟩

/-- What stands in front of a blocked input is completed and accepted with it. -/
theorem append (h : Blocked Complete Accepted viable tail)
    (hcomplete : ∀ more, Complete (viable ++ more) → Complete' (front ++ (viable ++ more)))
    (haccepted : ∀ c ∈ tail.head?, ∀ more, Accepted' (front ++ (viable ++ c :: more)) →
      Accepted (viable ++ c :: more)) :
    Blocked Complete' Accepted' (front ++ viable) tail := by
  obtain ⟨more, hmore⟩ := h.completes
  refine ⟨⟨more, ?_⟩, fun c hc more haccept => ?_⟩
  · rw [List.append_assoc]
    exact hcomplete more hmore
  · rw [List.append_assoc] at haccept
    exact h.refused c hc more (haccepted c hc more haccept)

end Blocked

/-! ### Numbers -/

/-- Digits fail at a point without a digit behind it. A digit completes them, and
nothing else may stand there. -/
theorem scanDigits_blocked {start : Nat} {c : Char} {rest : List Char} {e : LexError}
    (hc : Text.isDigit c = true) (h : scanDigits start (c :: rest) = .error e) :
    ∃ viable tail, rest = viable ++ tail ∧ e.offset = start + 1 + viable.length
      ∧ Blocked (fun text => UnsignedNumber .decimal (c :: text))
          (fun text => Succeeds (scanDigits start (c :: text))) viable tail := by
  obtain ⟨more, tail, rfl, hmore, htail, -⟩ := exists_run Text.isDigit rest
  have hrun : ∀ d ∈ c :: more, Text.isDigit d = true := List.forall_mem_cons.mpr ⟨hc, hmore⟩
  rw [← List.cons_append] at h
  -- Without a point behind them the digits are an integer, and nothing fails.
  by_cases hpoint : tail.head? = some '.'
  · obtain ⟨behind, rfl⟩ := List.head?_eq_some_iff.mp hpoint
    obtain ⟨fraction, after, rfl, hfraction, hafter, -⟩ := exists_run Text.isDigit behind
    rw [scanDigits_point start hrun hfraction hafter] at h
    split at h
    · next hnone =>
        cases h
        subst hnone
        refine ⟨more ++ ['.'], after, by simp, ?_, ⟨['0'], ?_⟩, fun d hd others hsucceeds => ?_⟩
        · simp only [List.length_append, List.length_cons, List.length_nil]
          omega
        · rw [List.append_assoc]
          have hwhole : IsDigits (c :: more) := ⟨by simp, hrun⟩
          have hzero : IsDigits ['0'] := ⟨by simp, List.forall_mem_singleton.mpr rfl⟩
          exact .decimal hwhole hzero
        · have hnext : ∀ c ∈ (d :: others).head?, Text.isDigit c = false := by
            simpa using hafter d hd
          have hfails := scanDigits_point start hrun
            (by simp : ∀ c ∈ ([] : List Char), Text.isDigit c = true) hnext
          rw [if_pos rfl] at hfails
          rw [List.append_assoc, ← List.cons_append] at hsucceeds
          exact not_succeeds_error _ (hfails ▸ hsucceeds)
    · cases h
  · have hends : Ends .integer (c :: more) tail := fun d hd => by
      simp only [GoesOn, not_or]
      refine ⟨by simpa using htail d hd, ?_⟩
      rintro rfl
      exact hpoint hd
    rw [scanDigits_whole start hrun hends] at h
    cases h

/-- A sign fails where the digits behind it do. With the sign in front the digits
are a token as well. -/
theorem scanSigned_blocked {start : Nat} {c : Char} {rest : List Char} {e : LexError}
    (hsign : isSign c = true) (h : scanSigned start rest = .error e) :
    ∃ viable tail, rest = viable ++ tail ∧ e.offset = start + 1 + viable.length
      ∧ Blocked (fun text => ∃ kind, TokenClass kind (c :: text))
          (fun text => Succeeds (scanSigned start text)) viable tail := by
  obtain ⟨negative, hoptional⟩ : ∃ negative, OptionalSign negative [c] := by
    simp only [isSign, Bool.or_eq_true, beq_iff_eq] at hsign
    rcases hsign with rfl | rfl
    · exact ⟨false, .plus⟩
    · exact ⟨true, .minus⟩
  rw [scanSigned.eq_def] at h
  split at h
  · next d rest =>
      split at h
      · next hd =>
          obtain ⟨viable, tail, rfl, hoffset, hblocked⟩ := scanDigits_blocked hd h
          refine ⟨[d] ++ viable, tail, rfl, ?_, hblocked.append ?_ fun b hb more => ?_⟩
          · rw [hoffset, List.length_append, List.length_singleton]
            omega
          · exact fun more hmore => ⟨_, hmore.tokenClass hoptional⟩
          · rw [List.singleton_append, scanSigned, if_pos hd]
            exact id
      · cases h
  · cases h

/-! ### Quoted literals -/

/-- The text behind the opening quote of a string that is complete, its closing
quote included. -/
def ClosedBody (mark : Char) (text : List Char) : Prop :=
  ∃ body decoded, text = body ++ [mark] ∧ QuotedBody mark body decoded

/-- `scanString` fails at a backslash that begins no escape and at the end of the
text. -/
theorem scanString_blocked {place : Nat} {input : List Char} {e : LexError}
    (h : scanString place input = .error e) :
    ∃ viable tail, input = viable ++ tail ∧ e.offset = place + viable.length
      ∧ Blocked (ClosedBody '"') (fun text => Succeeds (scanString place text)) viable tail := by
  -- The scanner fails only where it stops; on the way there it hands down the
  -- answer to what is behind a character or an escape.
  fun_induction scanString place input with
  | case1 place =>
      cases h
      exact ⟨[], [], rfl, rfl, .atEnd ⟨['"'], [], [], rfl, .nil⟩⟩
  | case2 place tail => cases h
  | case3 place =>
      cases h
      exact ⟨['\\'], [], rfl, rfl,
        .atEnd ⟨['n', '"'], ['\\', 'n'], ['\n'], rfl, .escape rfl .nil⟩⟩
  | case4 place letter rest hletter ih =>
      obtain ⟨viable, tail, rfl, hoffset, hblocked⟩ := ih h
      obtain ⟨c, hc⟩ := exists_of_isEscapeLetter hletter
      refine ⟨['\\', letter] ++ viable, tail, rfl, ?_, hblocked.append ?_ fun d hd more => ?_⟩
      · rw [hoffset, List.length_append]
        exact Nat.add_assoc place 2 viable.length
      · rintro more ⟨body, decoded, hmore, hbody⟩
        exact ⟨'\\' :: letter :: body, c :: decoded, by rw [hmore]; rfl, .escape hc hbody⟩
      · rw [List.cons_append, List.cons_append, List.nil_append, scanString, if_pos hletter]
        exact id
  | case5 place letter rest hletter =>
      cases h
      refine ⟨['\\'], letter :: rest, rfl, rfl, ⟨['n', '"'], ['\\', 'n'], ['\n'], rfl,
        .escape rfl .nil⟩, fun d hd more hsucceeds => ?_⟩
      obtain rfl : letter = d := by simpa using hd
      rw [List.singleton_append, scanString, if_neg hletter] at hsucceeds
      exact not_succeeds_error _ hsucceeds
  | case6 place c rest hmark hone hmore ih =>
      obtain ⟨viable, tail, rfl, hoffset, hblocked⟩ := ih h
      refine ⟨[c] ++ viable, tail, rfl, ?_, ?_⟩
      · rw [hoffset, List.length_append]
        exact Nat.add_assoc place 1 viable.length
      · have hslash : c ≠ '\\' := by
          rintro rfl
          cases hrest : viable ++ tail with
          | nil => exact hone rfl hrest
          | cons d more => exact hmore d more rfl hrest
        refine hblocked.append ?_ fun d hd more => ?_
        · rintro more ⟨body, decoded, hmore, hbody⟩
          exact ⟨c :: body, c :: decoded, by rw [hmore]; rfl, .plain hmark hslash hbody⟩
        · rw [List.singleton_append, scanString_plain hmark hslash]
          exact id

/-- The text behind the opening quote of a character literal that is complete, its
closing quote included. -/
def ClosedCharacter (text : List Char) : Prop :=
  ∃ body c, text = body ++ ['\''] ∧ QuotedBody '\'' body [c]

/-- A letter would do as the body of a character literal. -/
theorem closedCharacter_letter : ClosedCharacter ['n', '\''] :=
  ⟨['n'], 'n', rfl, .plain (by decide) (by decide) .nil⟩

/-- An escape would do as well. -/
theorem closedCharacter_escape : ClosedCharacter ['\\', 'n', '\''] :=
  ⟨['\\', 'n'], '\n', rfl, .escape rfl .nil⟩

/-- Where the closing quote is missing, nothing else can stand in its place. -/
theorem scanClosingQuote_blocked {place : Nat} {input : List Char} {e : LexError}
    (h : scanClosingQuote place input = .error e) :
    e.offset = place
      ∧ ∀ c ∈ input.head?, ∀ more, ¬ Succeeds (scanClosingQuote place (c :: more)) := by
  rw [scanClosingQuote.eq_def] at h
  split at h
  · cases h
  · next hquote =>
      cases h
      refine ⟨rfl, fun c hc more => ?_⟩
      rintro ⟨⟨kind, stop⟩, hsucceeds⟩
      obtain ⟨tail, htail, -⟩ := scanClosingQuote_eq_ok_iff.mp hsucceeds
      cases htail
      obtain ⟨rest, rfl⟩ := List.head?_eq_some_iff.mp hc
      exact hquote rest rfl

/-- A body of a character literal that is complete but for its closing quote. The
quote completes it. -/
theorem Blocked.closingQuote {place width : Nat} {body tail : List Char} {c : Char} {e : LexError}
    (hbody : QuotedBody '\'' body [c])
    (hscan : ∀ more, scanCharacter place (body ++ more) = scanClosingQuote (place + width) more)
    (h : scanCharacter place (body ++ tail) = .error e) :
    e.offset = place + width
      ∧ Blocked ClosedCharacter (fun text => Succeeds (scanCharacter place text)) body tail := by
  rw [hscan] at h
  obtain ⟨hoffset, hrefused⟩ := scanClosingQuote_blocked h
  refine ⟨hoffset, ⟨['\''], body, c, rfl, hbody⟩, fun d hd more => ?_⟩
  rw [hscan]
  exact hrefused d hd more

/-- `scanCharacter` fails where its one character or the closing quote is missing. -/
theorem scanCharacter_blocked {place : Nat} {input : List Char} {e : LexError}
    (h : scanCharacter place input = .error e) :
    ∃ viable tail, input = viable ++ tail ∧ e.offset = place + viable.length
      ∧ Blocked ClosedCharacter (fun text => Succeeds (scanCharacter place text))
          viable tail := by
  cases input with
  | nil =>
      cases h
      exact ⟨[], [], rfl, rfl, .atEnd ⟨_, closedCharacter_letter⟩⟩
  | cons c rest =>
      -- What is missing depends on how the one character is written: an escape needs its letter,
      -- and a quote is no character.
      by_cases hslash : c = '\\'
      · subst hslash
        cases rest with
        | nil =>
            cases h
            exact ⟨['\\'], [], rfl, rfl, .atEnd ⟨['n', '\''], closedCharacter_escape⟩⟩
        | cons letter rest =>
            by_cases hletter : Text.isEscapeLetter letter = true
            · obtain ⟨c, hc⟩ := exists_of_isEscapeLetter hletter
              have hbody : QuotedBody '\'' ['\\', letter] [c] := .escape hc .nil
              have hscan (more : List Char) : scanCharacter place (['\\', letter] ++ more)
                  = scanClosingQuote (place + 2) more := by
                simp [scanCharacter, scanEscape, hletter, bind, Except.bind]
              obtain ⟨hoffset, hblocked⟩ := Blocked.closingQuote hbody hscan h
              exact ⟨['\\', letter], rest, rfl, hoffset, hblocked⟩
            · have hfails (more : List Char) : scanCharacter place ('\\' :: letter :: more)
                  = .error ⟨.invalidEscape letter, place + 1⟩ := by
                simp [scanCharacter, scanEscape, hletter, bind, Except.bind]
              rw [hfails] at h
              cases h
              refine ⟨['\\'], letter :: rest, rfl, rfl, ⟨['n', '\''], closedCharacter_escape⟩,
                fun d hd more hsucceeds => ?_⟩
              obtain rfl : letter = d := by simpa using hd
              exact not_succeeds_error _ (hfails more ▸ hsucceeds)
      · by_cases hquote : c = '\''
        · subst hquote
          cases h
          refine ⟨[], '\'' :: rest, rfl, rfl, ⟨_, closedCharacter_letter⟩,
            fun d hd more hsucceeds => ?_⟩
          obtain rfl : '\'' = d := by simpa using hd
          exact not_succeeds_error _ hsucceeds
        · have hbody : QuotedBody '\'' [c] [c] := .plain hquote hslash .nil
          have hscan (more : List Char) :
              scanCharacter place ([c] ++ more) = scanClosingQuote (place + 1) more := by
            simp [scanCharacter]
          obtain ⟨hoffset, hblocked⟩ := Blocked.closingQuote hbody hscan h
          exact ⟨[c], rest, rfl, hoffset, hblocked⟩

/-! ### Texts -/

/-- Where the scan of a token that begins with `c` fails, what is behind `c` is
blocked: it can be completed to a token, and not with the character at the error. -/
theorem scan_blocked {start : Nat} {c : Char} {rest : List Char} {e : LexError}
    (h : scan start c rest = .error e) :
    ∃ viable tail, rest = viable ++ tail ∧ e.offset = start + 1 + viable.length
      ∧ Blocked (fun text => ∃ kind, TokenClass kind (c :: text))
          (fun text => Succeeds (scan start c text)) viable tail := by
  -- Names and operators never fail; of the other kinds each has its scanner.
  unfold scan at h ⊢
  split at h
  · cases h
  · next hname =>
  split at h
  · next hdigit =>
      obtain ⟨viable, tail, htext, hoffset, hblocked⟩ := scanDigits_blocked hdigit h
      obtain ⟨more, hmore⟩ := hblocked.completes
      refine ⟨viable, tail, htext, hoffset, ⟨more, _, hmore.tokenClass .absent⟩, ?_⟩
      simpa only [if_neg hname, if_pos hdigit] using hblocked.refused
  · next hdigit =>
  split at h
  · next hsign =>
      obtain ⟨viable, tail, htext, hoffset, hblocked⟩ := scanSigned_blocked hsign h
      refine ⟨viable, tail, htext, hoffset, hblocked.completes, ?_⟩
      simpa only [if_neg hname, if_neg hdigit, if_pos hsign] using hblocked.refused
  · next hsign =>
  split at h
  · next hquote =>
      subst hquote
      obtain ⟨viable, tail, htext, hoffset, hblocked⟩ := scanCharacter_blocked h
      obtain ⟨more, body, d, hmore, hbody⟩ := hblocked.completes
      refine ⟨viable, tail, htext, hoffset, ⟨more, .character, ?_⟩, ?_⟩
      · rw [hmore]
        exact .character (.mk hbody)
      · simpa only [if_neg hname, if_neg hdigit, if_neg hsign, if_pos] using hblocked.refused
  · next hquote =>
  split at h
  · next hquotes =>
      subst hquotes
      obtain ⟨viable, tail, htext, hoffset, hblocked⟩ := scanString_blocked h
      obtain ⟨more, body, decoded, hmore, hbody⟩ := hblocked.completes
      refine ⟨viable, tail, htext, hoffset, ⟨more, .string, ?_⟩, ?_⟩
      · rw [hmore]
        exact .string (.mk hbody)
      · simpa only [if_neg hname, if_neg hdigit, if_neg hsign, if_neg hquote, if_pos]
          using hblocked.refused
  · cases h

/-- A text that begins at `offset` is blocked where the error stands, and not before its first
character. -/
def BlockedAt (offset : Nat) (text : List Char) (e : LexError) : Prop :=
  ∃ viable tail, text = viable ++ tail ∧ viable ≠ [] ∧ e.offset = offset + viable.length
    ∧ Blocked (fun text => Succeeds (tokensFrom offset 0 text))
        (fun text => Succeeds (tokensFrom offset 0 text)) viable tail

namespace BlockedAt

variable {offset : Nat} {c : Char} {rest literal text : List Char} {kind : TokenKind}
  {e : LexError}

/-- White space in front does not matter. -/
theorem space (hspace : isSpace c = true) (h : BlockedAt (offset + 1) rest e) :
    BlockedAt offset (c :: rest) e := by
  obtain ⟨viable, tail, rfl, -, hoffset, hblocked⟩ := h
  refine ⟨[c] ++ viable, tail, rfl, by simp, ?_,
    hblocked.append (fun more => ?_) fun d hd more => ?_⟩
  · rw [hoffset, List.length_append, List.length_singleton]
    omega
  · rw [List.singleton_append, tokensFrom_space hspace]
    exact id
  · rw [List.singleton_append, tokensFrom_space hspace]
    exact id

/-- Where the scan of a token fails, it fails in every text that goes on like this.
So the lexer does. -/
theorem of_scan (hspace : isSpace c = false) (hscan : scan offset c rest = .error e) :
    BlockedAt offset (c :: rest) e := by
  obtain ⟨viable, tail, rfl, hoffset, hblocked⟩ := scan_blocked hscan
  refine ⟨[c] ++ viable, tail, rfl, by simp, ?_,
    hblocked.append (fun more => ?_) fun d hd more => ?_⟩
  · rw [hoffset, List.length_append, List.length_singleton]
    omega
  · rintro ⟨kind, hclass⟩
    have hends : Ends kind (c :: (viable ++ more)) [] := fun d hd => by cases hd
    have htoken := tokensFrom_token hclass hends offset
    rw [List.append_nil] at htoken
    exact ⟨_, htoken⟩
  · rintro ⟨tokens, htokens⟩
    rw [List.singleton_append, tokensFrom, hspace, if_neg (by simp)] at htokens
    cases hanswer : scan offset c (viable ++ d :: more) with
    | error found => rw [hanswer] at htokens; cases htokens
    | ok answer => exact ⟨answer, rfl⟩

/-- Nor does a token in front that has its end there, which it keeps however the
text goes on: the text behind it is blocked after its first character. -/
theorem token (hclass : TokenClass kind literal) (hends : Ends kind literal text)
    (h : BlockedAt (offset + literal.length) text e) : BlockedAt offset (literal ++ text) e := by
  obtain ⟨viable, tail, rfl, hne, hoffset, hblocked⟩ := h
  -- The first character behind the token is in the viable part, so the token ends there
  -- whatever comes later.
  have hbefore (more : List Char) : Ends kind literal (viable ++ more) := by
    obtain ⟨b, viable, rfl⟩ := List.exists_cons_of_ne_nil hne
    exact hends
  refine ⟨literal ++ viable, tail, (List.append_assoc literal viable tail).symm, by simp [hne], ?_,
    hblocked.append (fun more => ?_) fun d hd more => ?_⟩
  · rw [hoffset, List.length_append]
    omega
  · rw [tokensFrom_token hclass (hbefore more)]
    rintro ⟨tokens, htokens⟩
    rw [htokens]
    exact ⟨_, rfl⟩
  · rw [tokensFrom_token hclass (hbefore (d :: more))]
    rintro ⟨tokens, htokens⟩
    cases hanswer : tokensFrom (offset + literal.length) 0 (viable ++ d :: more) with
    | ok answer => exact ⟨answer, rfl⟩
    | error found => rw [hanswer] at htokens; cases htokens

end BlockedAt

/-- Where the lexer fails the text is blocked. By induction on the text, one token
or space after the other. -/
theorem tokensFrom_blocked {offset : Nat} {text : List Char} {e : LexError}
    (h : tokensFrom offset 0 text = .error e) : BlockedAt offset text e := by
  -- What is left behind a token is shorter, but no tail of the list in one step.
  induction hn : text.length using Nat.strongRecOn generalizing offset text with
  | ind n ih =>
      subst hn
      cases text with
      | nil => cases h
      | cons c rest =>
          cases hspace : isSpace c with
          | true =>
              rw [tokensFrom_space hspace] at h
              exact (ih rest.length (by simp) h rfl).space hspace
          | false =>
              cases hscan : scan offset c rest with
              | error found =>
                  rw [tokensFrom, hspace, hscan] at h
                  cases h
                  exact .of_scan hspace hscan
              | ok answer =>
                  obtain ⟨kind, stop⟩ := answer
                  obtain ⟨literal, tail, htext, hclass, hends, -⟩ :=
                    (scan_eq_ok_iff hspace).mp hscan
                  have hshorter : tail.length < (c :: rest).length := by
                    rw [htext, List.length_append]
                    have := List.length_pos_iff.mpr hclass.ne_nil
                    omega
                  rw [htext, tokensFrom_token hclass hends] at h
                  rw [htext]
                  cases hmore : tokensFrom (offset + literal.length) 0 tail with
                  | ok more => rw [hmore] at h; cases h
                  | error found =>
                      rw [hmore] at h
                      cases h
                      exact (ih tail.length hshorter hmore rfl).token hclass hends

/-- The lexer accepts the text. -/
def Lexable (text : List Char) : Prop :=
  Succeeds (tokenize (String.ofList text))

/-- The lexer begins at the front of the text. -/
theorem lexable_iff {text : List Char} : Lexable text ↔ Succeeds (tokensFrom 0 0 text) := by
  rw [Lexable, tokenize, String.toList_ofList]

/-- A lexical error stands at the offending character. What is in front of it can be
completed to a text that the lexer accepts, and with that character it cannot. At
the end of the text there is no such character, and the error stands there exactly
if the text itself can be completed. -/
theorem tokenize_error_offset {text : String} {e : LexError} (h : tokenize text = .error e) :
    e.offset ≤ text.length
      ∧ (∃ more, Lexable (text.toList.take e.offset ++ more))
      ∧ (e.offset < text.length →
          ∀ more, ¬ Lexable (text.toList.take (e.offset + 1) ++ more))
      ∧ (e.offset = text.length ↔ ∃ more, Lexable (text.toList ++ more)) := by
  obtain ⟨viable, tail, htext, -, hoffset, hblocked⟩ := tokensFrom_blocked h
  rw [Nat.zero_add] at hoffset
  have hlength : text.length = viable.length + tail.length := by
    rw [← String.length_toList, htext, List.length_append]
  have htake : text.toList.take e.offset = viable := by
    rw [htext, hoffset, List.take_left]
  obtain ⟨more, hmore⟩ := hblocked.completes
  have hviable : ∃ more, Lexable (viable ++ more) := ⟨more, lexable_iff.mpr hmore⟩
  -- With the character at the error nothing is accepted.
  have hrefused {c : Char} {behind : List Char} (hc : tail = c :: behind) (more : List Char) :
      ¬ Lexable (viable ++ c :: more) := by
    rw [lexable_iff]
    exact hblocked.refused c (by rw [hc]; rfl) more
  refine ⟨by omega, by rwa [htake], fun hlt more => ?_, fun heq => ?_, fun ⟨more, hmore⟩ => ?_⟩
  · cases htail : tail with
    | nil =>
        rw [htail, List.length_nil] at hlength
        omega
    | cons c behind =>
        have hlonger : text.toList.take (e.offset + 1) = viable ++ [c] := by
          rw [htext, htail, hoffset, List.take_length_add_append, List.take_one, List.head?_cons]
          rfl
        rw [hlonger, List.append_assoc]
        exact hrefused htail more
  · obtain rfl : tail = [] := List.length_eq_zero_iff.mp (by omega)
    rwa [htext, List.append_nil]
  · cases htail : tail with
    | nil =>
        rw [hlength, hoffset, htail]
        rfl
    | cons c behind =>
        rw [htext, htail, List.append_assoc, List.cons_append] at hmore
        exact absurd hmore (hrefused htail _)

/-- So it is with a digit missing behind a point: a digit would do in front of the
letter, and with the letter nothing does. -/
theorem tokenize_error_offset_fraction :
    tokenize "-1.x" = .error ⟨.missingFraction, 3⟩
      ∧ (∃ more, Lexable (['-', '1', '.'] ++ more))
      ∧ ∀ more, ¬ Lexable (['-', '1', '.', 'x'] ++ more) := by
  have herror : tokenize "-1.x" = .error ⟨.missingFraction, 3⟩ := by rfl
  obtain ⟨-, hcompletes, hrefused, -⟩ := tokenize_error_offset herror
  exact ⟨herror, hcompletes, hrefused (by decide)⟩

end PlcLang.Proofs
