import PlcLang.Failure
import PlcLang.Proofs.Grammar.Agreement
import PlcLang.Proofs.Grammar.Viability
import PlcLang.Proofs.Grammar.Walks
import PlcLang.Proofs.Layout.Parsing
import PlcLang.Proofs.Layout.Texts

/-!
# `PlcLang.Proofs.Grammar.FirstImpossible`: where syntax errors point

A syntax error stands at the first token that is impossible where it is. Three
properties of the parser come together for this:

* what it has taken when it fails can be completed (`viable_program`);
* it has looked at no token behind the one it fails at (`looksAhead_program`), so
  nothing behind that one can help;
* its budget does not matter (`program_eq_of_length_lt`), so it fails in the same
  way on longer and shorter lists.

`parse_error_at_first_impossible` puts them together. The completion is not only a
list of tokens: some text has it.
-/

set_option autoImplicit false

namespace PlcLang.Proofs

/-- Some text that is a program begins with these tokens, each in its place. What is
in between the tokens of the text does not matter. -/
def BeginsProgram (front : List Token) : Prop :=
  ∃ text more program, tokenize text = .ok (front ++ more) ∧ parse (front ++ more) = .ok program

/-- Tokens of a text that can be completed in the grammar begin a program: the
completion can be written behind them, with spaces in between. -/
theorem beginsProgram_of_completable {text : String} {front rest : List Token}
    (hlex : tokenize text = .ok (front ++ rest)) (hread : Readable front)
    (h : Completable (fun used (program : Program Offset) => Derives used program.bare) front) :
    BeginsProgram front := by
  obtain ⟨more, tree, hmore, hderives⟩ := h
  have hparse : ∃ program, parse (front ++ more) = .ok program := by
    have hall := hread.append hmore
    obtain ⟨program, hprogram, -⟩ :=
      (parse_eq_ok_iff_readable hall.genuine).mpr ⟨hall, hderives⟩
    exact ⟨program, hprogram⟩
  -- The grammar does not care where the missing tokens stand, so they may stand
  -- where a text has them.
  obtain ⟨text', placed, hlex', hwords⟩ := exists_text_continuing hlex hmore.genuine
  have hsame : SameWords (front ++ placed) (front ++ more) := by
    rw [SameWords, List.map_append, List.map_append, hwords]
  obtain ⟨program, hprogram⟩ := (exists_parse_iff_of_sameWords hsame).mpr hparse
  exact ⟨text', placed, program, hlex', hprogram⟩

/-- Where the parser stops before a token, it stops whatever stands behind that
token. -/
theorem parse_ne_ok_of_stopped {used rest more : List Token} {token : Token} {what : Expectation}
    (h : Parser.program ((used ++ token :: rest).length + 1) (used ++ token :: rest)
      = leaving (token :: rest) (.error what)) (program : Program Offset) :
    parse (used ++ token :: more) ≠ .ok program := by
  intro hparse
  obtain ⟨left, hprogram⟩ := parse_eq_ok_iff.mp hparse
  -- Both lists are shorter than this budget, so it is as good as their own.
  let budget := (used ++ token :: rest).length + (used ++ token :: more).length + 1
  have hlt : (used ++ token :: rest).length < budget := by omega
  have hlt' : (used ++ token :: more).length < budget := by omega
  have hstopped := (program_eq_of_length_lt hlt).trans h
  obtain ⟨used', hsplit, hsame⟩ := looksAhead_program budget _ _ _ hstopped
  obtain rfl := List.append_cancel_right hsplit
  have hfails := hsame (token :: more) rfl
  rw [program_eq_of_length_lt hlt'] at hfails
  cases hfails.symm.trans hprogram

/-- What the error of an obstacle says: an expectation, and the tokens that are
left. -/
theorem exists_of_parse_eq_error {tokens : List Token} {e : ParseError}
    (h : parse tokens = .error e) (hnumber : ∀ token, e ≠ .malformedNumber token) :
    ∃ what left, e = (Obstacle.expected what left).toError tokens
      ∧ Parser.program (tokens.length + 1) tokens = leaving left (.error what) := by
  unfold parse StateT.run at h
  cases hprogram : Parser.program (tokens.length + 1) tokens with
  | ok answer =>
      rw [hprogram] at h
      cases h
  | error obstacle =>
      rw [hprogram] at h
      obtain rfl : obstacle.toError tokens = e := Except.error.inj h
      cases obstacle with
      | malformedNumber token => exact absurd rfl (hnumber token)
      | expected what left => exact ⟨what, left, rfl, rfl⟩

/-- A syntax error stands at the first token that is impossible where it is: the
tokens in front of it begin a program, and together with it they begin none. An
error at the end stands behind the last token, and then all tokens together begin a
program. (A number that is too long to be read is no matter of syntax.) -/
theorem parse_error_at_first_impossible {text : String} {tokens : List Token} {e : ParseError}
    (hlex : tokenize text = .ok tokens) (h : parse tokens = .error e)
    (hnumber : ∀ token, e ≠ .malformedNumber token) :
    (∃ k token what, tokens[k]? = some token ∧ e = .unexpected what token
        ∧ e.failure.offset = some (token.offset : Int)
        ∧ e.failure.length = token.literal.length
        ∧ BeginsProgram (tokens.take k)
        ∧ ∀ more program, parse (tokens.take (k + 1) ++ more) ≠ .ok program)
      ∨ ∃ last what, tokens.getLast? = some last ∧ e = .unfinished what last.stop
        ∧ e.failure.offset = some (last.stop : Int) ∧ BeginsProgram tokens := by
  have hgenuine : Genuine tokens := tokenClass_of_tokenize hlex
  obtain ⟨what, left, rfl, hprogram⟩ := exists_of_parse_eq_error h hnumber
  obtain ⟨used, rfl, hread, hcompletable⟩ :=
    (viable_program _).failing _ what left hgenuine hprogram
  have hbegins := beginsProgram_of_completable hlex hread hcompletable
  cases left with
  | cons token rest =>
      have htoken : (used ++ token :: rest)[used.length]? = some token := by simp
      have htake : (used ++ token :: rest).take used.length = used := List.take_left
      have htake' : (used ++ token :: rest).take (used.length + 1) = used ++ [token] := by
        rw [List.take_length_add_append]
        rfl
      refine .inl ⟨used.length, token, what, htoken, rfl, rfl, rfl, ?_, fun more program => ?_⟩
      · rwa [htake]
      · rw [htake', List.append_assoc]
        exact parse_ne_ok_of_stopped hprogram program
  | nil =>
      rw [List.append_nil] at hlex h hprogram ⊢
      cases hlast : used.getLast? with
      | none =>
          -- No tokens at all are a program.
          obtain rfl := List.getLast?_eq_none_iff.mp hlast
          cases h
      | some last =>
          have hend : endOffset used = last.stop := by rw [endOffset, hlast]
          refine .inr ⟨last, what, rfl, ?_, ?_, hbegins⟩
          · rw [Obstacle.toError, hend]
          · rw [Obstacle.toError, hend]
            rfl

/-- So it is with a value that is missing: the error stands at the semicolon, what
is in front of it begins a program, and no program begins with the semicolon, too. -/
theorem parse_error_at_missing_value :
    ∃ tokens e, tokenize "LET x = ;" = .ok tokens ∧ parse tokens = .error e
      ∧ ∃ k token, tokens[k]? = some token ∧ token.literal = ";" ∧ e.failure.offset = some 8
        ∧ BeginsProgram (tokens.take k)
        ∧ ∀ more program, parse (tokens.take (k + 1) ++ more) ≠ .ok program := by
  have hlex : tokenize "LET x = ;" = .ok
      [⟨.identifier, "LET", 0⟩, ⟨.identifier, "x", 4⟩, ⟨.operator, "=", 6⟩,
        ⟨.operator, ";", 8⟩] := by rfl
  have hparse : parse
      [⟨.identifier, "LET", 0⟩, ⟨.identifier, "x", 4⟩, ⟨.operator, "=", 6⟩, ⟨.operator, ";", 8⟩]
      = .error (.unexpected .expression ⟨.operator, ";", 8⟩) := by rfl
  have hnumber (token : Token) :
      ParseError.unexpected .expression ⟨.operator, ";", 8⟩ ≠ .malformedNumber token := by
    intro h
    cases h
  refine ⟨_, _, hlex, hparse, ?_⟩
  rcases parse_error_at_first_impossible hlex hparse hnumber with hfound | hend
  · obtain ⟨k, token, what, hk, he, -, -, hbegins, hnone⟩ := hfound
    have hliteral : token.literal = ";" := by
      injection he with _ htoken
      rw [← htoken]
    exact ⟨k, token, hk, hliteral, rfl, hbegins, hnone⟩
  · obtain ⟨last, what, -, he, -⟩ := hend
    cases he

end PlcLang.Proofs
