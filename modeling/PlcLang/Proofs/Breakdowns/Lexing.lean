import PlcLang.Proofs.Lexical.Segmentation

/-!
# `PlcLang.Proofs.Breakdowns.Lexing`: the lexer stays inside its text

The lexer may be told by places alone: it reads the character at a place, and it goes on
from the place behind a token. `Lexer.Exacting` is that lexer. It raises an alarm where
it reads at a place that the text does not have, and where a token would not bring it
any further. The alarm is never raised, so the answer is the lexer's
(`exacting_tokenize_eq`), whatever the alarm.
-/

set_option autoImplicit false

namespace PlcLang

namespace Lexer.Exacting

open Proofs

variable (alarm : LexError) (source : List Char)

/-- The character at a place, where there must be one. Reading behind the end raises
the alarm. -/
def charAt (place : Nat) : Except LexError Char :=
  match source[place]? with
  | some c => .ok c
  | none => .error alarm

/-- The place behind the characters from `place` on that have a property. The end of
the text ends the run without an alarm, since it is asked for before a character is
read. -/
def runFrom (p : Char → Bool) (place : Nat) : Except LexError Nat :=
  if place < source.length then do
    let c ← charAt alarm source place
    if p c then runFrom p (place + 1) else pure place
  else pure place
termination_by source.length - place

/-- A sign or a number, by its first character. This is where the lexer
distinguishes a sign that stands alone from one that begins a number. -/
def scanNumber (start : Nat) : Except LexError (TokenKind × Nat) := do
  let c ← charAt alarm source start
  if isSign c then scanSigned start (source.drop (start + 1))
  else scanDigits start (source.drop start)

/-- `Lexer.scan`, exacting. What is quoted and what is an operator is scanned as
ever. -/
def scan (start : Nat) (c : Char) : Except LexError (TokenKind × Nat) :=
  if isNameStart c then do
    let stop ← runFrom alarm source isNameChar (start + 1)
    pure (.identifier, stop)
  else if Text.isDigit c || isSign c then scanNumber alarm source start
  else Lexer.scan start c (source.drop (start + 1))

/-- `Lexer.tokensFrom`, exacting, from a place on. A token must bring it further. -/
def tokensFrom (place : Nat) : Except LexError (List Token) :=
  if place < source.length then do
    let c ← charAt alarm source place
    if isSpace c then tokensFrom (place + 1)
    else do
      let (kind, stop) ← scan alarm source place c
      if place < stop then do
        let literal := String.ofList ((source.take stop).drop place)
        let more ← tokensFrom stop
        pure (⟨kind, literal, place⟩ :: more)
      else .error alarm
  else pure []
termination_by source.length - place

variable {alarm : LexError} {source : List Char}

/-- Inside the text there is a character at every place. -/
theorem charAt_eq_ok {place : Nat} (h : place < source.length) :
    charAt alarm source place = .ok source[place] := by
  rw [charAt, List.getElem?_eq_getElem h]

/-- A run ends inside the text, as far on as the lexer finds it. -/
theorem runFrom_eq_ok (p : Char → Bool) (place : Nat) :
    runFrom alarm source p place = .ok (place + runLength p (source.drop place)) := by
  fun_induction runFrom alarm source p place with
  | case1 place h ih =>
      rw [charAt_eq_ok h, List.drop_eq_getElem_cons h]
      by_cases hp : p source[place] = true
      · have hlonger : runLength p (source[place] :: source.drop (place + 1))
            = runLength p (source.drop (place + 1)) + 1 := by
          rw [runLength, List.takeWhile_cons_of_pos hp, List.length_cons, runLength]
        show (if p source[place] = true then _ else _) = _
        rw [if_pos hp, ih, hlonger]
        congr 1
        omega
      · have hnone : runLength p (source[place] :: source.drop (place + 1)) = 0 := by
          rw [runLength, List.takeWhile_cons_of_neg hp, List.length_nil]
        show (if p source[place] = true then _ else _) = _
        rw [if_neg hp, hnone]
        rfl
  | case2 place h =>
      rw [List.drop_eq_nil_of_le (Nat.le_of_not_lt h)]
      rfl

/-- A digit is no sign, so a number that begins with a digit has none. -/
theorem isSign_of_isDigit {c : Char} (h : Text.isDigit c = true) : isSign c = false := by
  by_cases hplus : c = '+'
  · subst hplus
    exact absurd h (by decide)
  · by_cases hminus : c = '-'
    · subst hminus
      exact absurd h (by decide)
    · simp [isSign, hplus, hminus]

/-- What stands at a place is scanned as the lexer scans it, which sees only the
characters from there on and not the place itself. -/
theorem scan_eq {start : Nat} (h : start < source.length) :
    scan alarm source start source[start]
      = Lexer.scan start source[start] (source.drop (start + 1)) := by
  rw [scan]
  by_cases hname : isNameStart source[start] = true
  · rw [Lexer.scan, if_pos hname, if_pos hname, runFrom_eq_ok]
    rfl
  · rw [if_neg hname]
    have hnumber : scanNumber alarm source start
        = if isSign source[start] then scanSigned start (source.drop (start + 1))
          else scanDigits start (source.drop start) := by
      rw [scanNumber, charAt_eq_ok h]
      rfl
    by_cases hdigit : Text.isDigit source[start] = true
    · rw [Lexer.scan, if_neg hname, hdigit, Bool.true_or, if_pos rfl, if_pos rfl, hnumber,
        isSign_of_isDigit hdigit, if_neg Bool.false_ne_true, List.drop_eq_getElem_cons h]
    · by_cases hsign : isSign source[start] = true
      · rw [Lexer.scan, if_neg hname, if_neg hdigit, hsign, Bool.or_true, if_pos rfl, if_pos rfl,
          hnumber, hsign, if_pos rfl]
      · have hneither : ¬ (Text.isDigit source[start] || isSign source[start]) = true := by
          simp [hdigit, hsign]
        rw [if_neg hneither]

/-- From a place on the tokens are those of the text behind it. The induction is on
what is left of the text, which every token shortens. -/
theorem tokensFrom_eq (place : Nat) :
    tokensFrom alarm source place = Lexer.tokensFrom place 0 (source.drop place) := by
  -- a token may be of any length, so the induction is on what is left of the text
  induction hleft : source.length - place using Nat.strongRecOn generalizing place with
  | ind left ih =>
      subst hleft
      unfold tokensFrom
      by_cases hplace : place < source.length
      · rw [if_pos hplace, charAt_eq_ok hplace, List.drop_eq_getElem_cons hplace]
        have hnext : tokensFrom alarm source (place + 1)
            = Lexer.tokensFrom (place + 1) 0 (source.drop (place + 1)) :=
          ih _ (by omega) (place + 1) rfl
        cases hspace : isSpace source[place] with
        | true =>
            rw [tokensFrom_space hspace, ← hnext]
            show (if isSpace source[place] = true then _ else _) = _
            rw [if_pos hspace]
        | false =>
            show (if isSpace source[place] = true then _ else _) = _
            rw [if_neg (by simp [hspace]), scan_eq hplace]
            cases hscan : Lexer.scan place source[place] (source.drop (place + 1)) with
            | error e =>
                rw [Lexer.tokensFrom, hspace, if_neg Bool.false_ne_true, hscan]
                rfl
            | ok answer =>
                obtain ⟨kind, stop⟩ := answer
                obtain ⟨literal, tail, htext, hclass, hends, rfl⟩ :=
                  (scan_eq_ok_iff hspace).mp hscan
                have hlonger : 0 < literal.length := List.length_pos_iff.mpr hclass.ne_nil
                have hsource : source.drop place = literal ++ tail := by
                  rw [List.drop_eq_getElem_cons hplace, htext]
                have hliteral : (source.take (place + literal.length)).drop place = literal := by
                  rw [List.drop_take, Nat.add_sub_cancel_left, hsource, List.take_left]
                have htail : source.drop (place + literal.length) = tail := by
                  rw [← List.drop_drop, hsource, List.drop_left]
                have hmore : tokensFrom alarm source (place + literal.length)
                    = Lexer.tokensFrom (place + literal.length) 0 tail := by
                  rw [ih _ (by omega) _ rfl, htail]
                rw [htext, tokensFrom_token hclass hends]
                show (if place < place + literal.length then _ else _) = _
                rw [if_pos (by omega), hliteral, hmore]
                cases Lexer.tokensFrom (place + literal.length) 0 tail with
                | error e => rfl
                | ok more => rfl
      · rw [if_neg hplace, List.drop_eq_nil_of_le (Nat.le_of_not_lt hplace)]
        rfl

end Lexer.Exacting

/-- `tokenize`, by the exacting lexer, from the beginning of the text on. -/
def Lexer.Exacting.tokenize (alarm : LexError) (text : String) : Except LexError (List Token) :=
  Lexer.Exacting.tokensFrom alarm text.toList 0

namespace Proofs

/-- On every text the exacting lexer answers as the lexer does, with its tokens or
with its error. -/
theorem exacting_tokenize_eq (alarm : LexError) (text : String) :
    Lexer.Exacting.tokenize alarm text = tokenize text :=
  Lexer.Exacting.tokensFrom_eq 0

end Proofs

end PlcLang
