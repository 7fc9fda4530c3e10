import PlcLang.Proofs.Layout.Spacing
import PlcLang.Proofs.Printing.Lexing

/-!
# `PlcLang.Proofs.Layout.Texts`: texts for words

Every list of words is the list of words of some text: with a space in front of
each, no token runs into the next one. So the tokens of a text can be cut off
anywhere and continued with any others (`exists_text_continuing`), and what
stands before the cut stays where it is.
-/

set_option autoImplicit false

namespace PlcLang.Proofs

open Lexer

/-- There is a text for any genuine tokens, and it may stand behind any token: a
space is in front of each of its words. -/
theorem Genuine.exists_segmentation {tokens : List Token} (h : Genuine tokens) (offset : Nat) :
    ∃ text placed, Segmentation offset text placed ∧ SameWords placed tokens ∧ Boundary text := by
  have hwhite : ∀ gap ∈ List.replicate tokens.length " ", IsWhite gap := by
    intro gap hgap
    rw [List.eq_of_mem_replicate hgap]
    decide
  have hapart : ∀ gap ∈ (List.replicate tokens.length " ").dropLast, gap ≠ "" := by
    intro gap hgap
    rw [List.eq_of_mem_replicate (List.dropLast_subset _ hgap)]
    decide
  obtain ⟨placed, hsegmentation, hwords, -⟩ :=
    segmentation_written h List.length_replicate hwhite hapart (offset + 1)
  have hspace : isBoundary ' ' = true := by decide
  exact ⟨_, placed, .space (by decide) hsegmentation, hwords, boundary_cons hspace⟩

/-- What stands before a token can be continued with any genuine tokens. By
induction on the segmentation, up to the cut. -/
theorem Segmentation.exists_continuation {offset : Nat} {text : List Char}
    {tokens first rest more : List Token} (h : Segmentation offset text tokens)
    (hsplit : tokens = first ++ rest) (hmore : Genuine more) :
    ∃ text' placed, Segmentation offset text' (first ++ placed) ∧ SameWords placed more
      ∧ (Boundary text' ∨ text'.head? = text.head?) := by
  -- The last token before the cut ends because a space follows it now, and each
  -- of the others because it is followed by what it was followed by.
  cases first with
  | nil =>
      obtain ⟨text', placed, hsegmentation, hwords, hboundary⟩ := hmore.exists_segmentation offset
      exact ⟨text', placed, hsegmentation, hwords, .inl hboundary⟩
  | cons token first =>
      induction h generalizing token first with
      | nil => cases hsplit
      | @space offset c text tokens hspace _ ih =>
          obtain ⟨text', placed, hsegmentation, hwords, -⟩ := ih token first hsplit
          exact ⟨c :: text', placed, .space hspace hsegmentation, hwords, .inr rfl⟩
      | @token offset kind literal text tokens hclass hends hrest ih =>
          obtain ⟨rfl, rfl⟩ := List.cons_eq_cons.mp hsplit
          have hnext : ∃ text' placed,
              Segmentation (offset + literal.length) text' (first ++ placed)
                ∧ SameWords placed more ∧ (Boundary text' ∨ text'.head? = text.head?) := by
            cases first with
            | nil =>
                obtain ⟨text', placed, hsegmentation, hwords, hboundary⟩ :=
                  hmore.exists_segmentation (offset + literal.length)
                exact ⟨text', placed, hsegmentation, hwords, .inl hboundary⟩
            | cons token first => exact ih token first rfl
          obtain ⟨text', placed, hsegmentation, hwords, hhead⟩ := hnext
          have hends' : Ends kind literal text' := by
            rcases hhead with hboundary | hsame
            · exact ends_of_boundary hboundary
            · intro c hc
              exact hends c (hsame ▸ hc)
          refine ⟨literal ++ text', placed, .token hclass hends' hsegmentation, hwords, .inr ?_⟩
          obtain ⟨c, literal, rfl⟩ := List.exists_cons_of_ne_nil hclass.ne_nil
          rfl

/-- The first tokens of a text can be continued with any genuine tokens: some
text has just the former, where they are, and then the words of the latter. -/
theorem exists_text_continuing {text : String} {first rest more : List Token}
    (h : tokenize text = .ok (first ++ rest)) (hmore : Genuine more) :
    ∃ text' placed, tokenize text' = .ok (first ++ placed) ∧ SameWords placed more := by
  have hsegmentation : Segmentation 0 text.toList (first ++ rest) := tokensFrom_eq_ok_iff.mp h
  obtain ⟨text', placed, hsegmentation', hwords, -⟩ :=
    hsegmentation.exists_continuation rfl hmore
  refine ⟨String.ofList text', placed, ?_, hwords⟩
  show tokensFrom 0 0 (String.ofList text').toList = _
  rw [String.toList_ofList]
  exact hsegmentation'.tokensFrom_eq

end PlcLang.Proofs
