import PlcLang.Proofs.Lexical.Scan

/-!
# `PlcLang.Proofs.Lexical.Segmentation`: the tokens of a text

A text is cut into tokens that each end where the next one, white space or
nothing follows. `Segmentation` says this without a scanner, and

* `tokensFrom_eq_ok_iff`: the lexer answers with exactly the tokens of a
  segmentation of the text;
* `tokenClass_of_tokenize`: so every token that the lexer makes belongs to
  the class of its kind;
* `tokenize_eq_singleton`: and a text of a class is a token from end to end.

`Segmentation` is also how the lexer is run on texts that are put together
from pieces: one constructor for each token, one for white space.
-/

set_option autoImplicit false

namespace PlcLang.Proofs

open Lexer

/-- The text from `offset` on consists of the tokens, with white space
between them. -/
inductive Segmentation : Nat → List Char → List Token → Prop where
  | nil {offset : Nat} : Segmentation offset [] []
  | space {offset : Nat} {c : Char} {text : List Char} {tokens : List Token}
      (hspace : isSpace c = true) (rest : Segmentation (offset + 1) text tokens) :
      Segmentation offset (c :: text) tokens
  | token {offset : Nat} {kind : TokenKind} {literal text : List Char} {tokens : List Token}
      (hclass : TokenClass kind literal) (hends : Ends kind literal text)
      (rest : Segmentation (offset + literal.length) text tokens) :
      Segmentation offset (literal ++ text) (⟨kind, String.ofList literal, offset⟩ :: tokens)

/-! ### The lexer -/

/-- The characters that belong to a token already read are passed over. -/
theorem tokensFrom_skip (offset skip : Nat) (text : List Char) :
    tokensFrom offset skip text = tokensFrom (offset + skip) 0 (text.drop skip) := by
  -- The lexer runs down the text one character at a time and counts those
  -- still to pass over, so the induction is on the text and not on `skip`.
  induction text generalizing offset skip with
  | nil => simp [tokensFrom]
  | cons c rest ih =>
      cases skip with
      | zero => rfl
      | succ skip =>
          rw [tokensFrom, ih, List.drop_succ_cons]
          congr 1
          omega

/-- White space is passed over. -/
theorem tokensFrom_space {c : Char} (hspace : isSpace c = true) (offset : Nat)
    (rest : List Char) : tokensFrom offset 0 (c :: rest) = tokensFrom (offset + 1) 0 rest := by
  rw [tokensFrom, if_pos hspace]

/-- A token that ends is the first one, and the lexer goes on behind it. -/
theorem tokensFrom_token {kind : TokenKind} {literal text : List Char}
    (hclass : TokenClass kind literal) (hends : Ends kind literal text) (offset : Nat) :
    tokensFrom offset 0 (literal ++ text)
      = (⟨kind, String.ofList literal, offset⟩ :: ·)
          <$> tokensFrom (offset + literal.length) 0 text := by
  obtain ⟨c, more, rfl⟩ := List.exists_cons_of_ne_nil hclass.ne_nil
  have hstop : offset + (c :: more).length - offset = (c :: more).length := by omega
  have htake : (c :: (more ++ text)).take (c :: more).length = c :: more := by
    rw [← List.cons_append, List.take_left]
  have hdrop : (more ++ text).drop ((c :: more).length - 1) = text := by
    rw [List.length_cons, Nat.add_sub_cancel, List.drop_left]
  have hoffset : offset + 1 + ((c :: more).length - 1) = offset + (c :: more).length := by
    rw [List.length_cons]
    omega
  rw [List.cons_append, tokensFrom, hclass.isSpace_head, if_neg (by simp),
    scan_eq_ok hclass hends offset]
  simp only [bind, Except.bind, hstop, htake, tokensFrom_skip (offset + 1), hdrop, hoffset]
  cases tokensFrom (offset + (c :: more).length) 0 text <;> rfl

/-- A segmentation is what the lexer answers with. By induction on the segmentation. -/
theorem Segmentation.tokensFrom_eq {offset : Nat} {text : List Char} {tokens : List Token}
    (h : Segmentation offset text tokens) : tokensFrom offset 0 text = .ok tokens := by
  induction h with
  | nil => rfl
  | space hspace _ ih => rw [tokensFrom_space hspace, ih]
  | token hclass hends _ ih => rw [tokensFrom_token hclass hends, ih]; rfl

/-- The lexer answers with exactly the tokens of a segmentation. -/
theorem tokensFrom_eq_ok_iff {offset : Nat} {text : List Char} {tokens : List Token} :
    tokensFrom offset 0 text = .ok tokens ↔ Segmentation offset text tokens := by
  refine ⟨fun h => ?_, Segmentation.tokensFrom_eq⟩
  -- What is left behind a token is shorter, but no tail of the list in one step.
  induction hn : text.length using Nat.strongRecOn generalizing offset text tokens with
  | ind n ih =>
      subst hn
      cases text with
      | nil =>
          rw [tokensFrom, Except.ok.injEq] at h
          subst h
          exact .nil
      | cons c rest =>
          cases hspace : isSpace c with
          | true =>
              rw [tokensFrom_space hspace] at h
              exact .space hspace (ih rest.length (by simp) h rfl)
          | false =>
              cases hscan : scan offset c rest with
              | error e =>
                  rw [tokensFrom, hspace, hscan] at h
                  simp [bind, Except.bind] at h
              | ok answer =>
                  obtain ⟨kind, stop⟩ := answer
                  obtain ⟨literal, tail, htext, hclass, hends, -⟩ :=
                    (scan_eq_ok_iff hspace).mp hscan
                  -- The scan has found the first token, so the rest of the answer is the
                  -- lexer's answer to the text behind it.
                  rw [htext, tokensFrom_token hclass hends] at h
                  cases hmore : tokensFrom (offset + literal.length) 0 tail with
                  | error e => rw [hmore] at h; simp [Functor.map, Except.map] at h
                  | ok more =>
                      rw [hmore] at h
                      obtain rfl : _ = tokens := by
                        simpa [Functor.map, Except.map] using h
                      have hshorter : tail.length < (c :: rest).length := by
                        rw [htext, List.length_append]
                        have := List.length_pos_iff.mpr hclass.ne_nil
                        omega
                      rw [htext]
                      exact .token hclass hends (ih tail.length hshorter hmore rfl)

/-- Every token of a segmentation belongs to the class of its kind. -/
theorem Segmentation.tokenClass {offset : Nat} {text : List Char} {tokens : List Token}
    (h : Segmentation offset text tokens) :
    ∀ token ∈ tokens, TokenClass token.kind token.literal.toList := by
  induction h with
  | nil => simp
  | space _ _ ih => exact ih
  | token hclass _ _ ih =>
      rw [List.forall_mem_cons]
      exact ⟨by simpa using hclass, ih⟩

/-- Every token that the lexer makes belongs to the class of its kind. -/
theorem tokenClass_of_tokenize {text : String} {tokens : List Token}
    (h : tokenize text = .ok tokens) :
    ∀ token ∈ tokens, TokenClass token.kind token.literal.toList :=
  (tokensFrom_eq_ok_iff.mp h).tokenClass

/-- A text that belongs to a class is one token, from end to end. -/
theorem tokenize_eq_singleton {kind : TokenKind} {text : String}
    (h : TokenClass kind text.toList) : tokenize text = .ok [⟨kind, text, 0⟩] := by
  have hends : Ends kind text.toList [] := by simp [Ends]
  have hwhole := tokensFrom_token h hends 0
  rw [List.append_nil, String.ofList_toList] at hwhole
  exact hwhole

end PlcLang.Proofs
