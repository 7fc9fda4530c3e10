import PlcLang.Proofs.Lexical.Segmentation

/-!
# `PlcLang.Proofs.Lexical.MaximalCut`: the one way to cut a text into tokens

`Segmentation` builds a text from its tokens, one after the other. Here it is
said of the tokens in place, each where its offset says: they are slices of the
text in order, what stands outside of them is white space, each belongs to the
class of its kind, and none could be longer (`MaximalCut`).

The two say the same (`maximalCut_iff_segmentation`), so the lexer succeeds with
exactly such a list of tokens and no text has two of them
(`tokenize_eq_ok_iff_maximalCut`).
-/

set_option autoImplicit false

namespace PlcLang.Proofs

open Lexer

/-- The text from `start` on is cut into the tokens, each of them as long as it
can be. -/
structure MaximalCut (text : List Char) (start : Nat) (tokens : List Token) : Prop where
  /-- No token begins before `start`. -/
  behind : ∀ token ∈ tokens, start ≤ token.offset
  /-- Each token is a slice of the text and not empty. -/
  slice : ∀ token ∈ tokens,
    token.literal.toList ≠ [] ∧ token.literal.toList <+: text.drop token.offset
  /-- The tokens come in the order of the text and do not overlap. -/
  ordered : tokens.Pairwise fun earlier later => earlier.stop ≤ later.offset
  /-- What is outside of the tokens is white space. -/
  gap : ∀ i c, start ≤ i → text[i]? = some c →
    (∀ token ∈ tokens, i < token.offset ∨ token.stop ≤ i) → isSpace c = true
  /-- Each token is one of its kind. -/
  inClass : ∀ token ∈ tokens, TokenClass token.kind token.literal.toList
  /-- No token goes on with the character behind it. -/
  maximal : ∀ token ∈ tokens, ∀ c, text[token.stop]? = some c →
    ¬ GoesOn token.kind token.literal.toList c

/-! ### From a segmentation to a cut -/

/-- Where a token stops that begins at an offset. -/
theorem stop_mk (kind : TokenKind) (literal : List Char) (offset : Nat) :
    (⟨kind, String.ofList literal, offset⟩ : Token).stop = offset + literal.length := by
  rw [Token.stop, String.length_ofList]

/-- Where nothing is left to cut, there are no tokens. -/
theorem maximalCut_nil {text : List Char} {start : Nat} (h : text.drop start = []) :
    MaximalCut text start [] := by
  refine ⟨by simp, by simp, .nil, fun i c hi hc _ => ?_, by simp, by simp⟩
  have hlength := List.drop_eq_nil_iff.mp h
  rw [List.getElem?_eq_none (by omega)] at hc
  cases hc

/-- White space in front of a cut belongs to no token. -/
theorem MaximalCut.space {text : List Char} {start : Nat} {c : Char} {tokens : List Token}
    (h : MaximalCut text (start + 1) tokens) (hc : text[start]? = some c)
    (hspace : isSpace c = true) : MaximalCut text start tokens := by
  refine ⟨fun token htoken => ?_, h.slice, h.ordered, fun i d hi hd hout => ?_, h.inClass,
    h.maximal⟩
  · have := h.behind token htoken
    omega
  · by_cases heq : i = start
    · subst heq
      rw [hc, Option.some.injEq] at hd
      exact hd ▸ hspace
    · exact h.gap i d (by omega) hd hout

/-- A token in front of a cut, which it ends before, is part of one. -/
theorem MaximalCut.cons {text literal tail : List Char} {start : Nat} {kind : TokenKind}
    {tokens : List Token} (h : MaximalCut text (start + literal.length) tokens)
    (htext : text.drop start = literal ++ tail) (hclass : TokenClass kind literal)
    (hends : Ends kind literal tail) :
    MaximalCut text start (⟨kind, String.ofList literal, start⟩ :: tokens) := by
  have hbehind : text[start + literal.length]? = tail.head? := by
    rw [← List.getElem?_drop, htext, List.getElem?_append_right (Nat.le_refl _), Nat.sub_self,
      List.head?_eq_getElem?]
  refine ⟨List.forall_mem_cons.mpr ⟨Nat.le_refl start, fun token htoken => ?_⟩,
    List.forall_mem_cons.mpr ⟨?_, h.slice⟩, .cons (fun token htoken => ?_) h.ordered,
    fun i c hi hc hout => ?_, List.forall_mem_cons.mpr ⟨by simpa using hclass, h.inClass⟩,
    List.forall_mem_cons.mpr ⟨fun c hc => ?_, h.maximal⟩⟩
  · have := h.behind token htoken
    omega
  · rw [String.toList_ofList, htext]
    exact ⟨hclass.ne_nil, List.prefix_append literal tail⟩
  · rw [stop_mk]
    exact h.behind token htoken
  · obtain ⟨hfirst, hrest⟩ := List.forall_mem_cons.mp hout
    rw [stop_mk] at hfirst
    have hfirst : i < start ∨ start + literal.length ≤ i := hfirst
    exact h.gap i c (by omega) hc hrest
  · rw [stop_mk, hbehind] at hc
    rw [String.toList_ofList]
    exact hends c hc

/-- The tokens of a segmentation cut the text. By induction on the segmentation. -/
theorem Segmentation.maximalCut {start : Nat} {text rest : List Char} {tokens : List Token}
    (h : Segmentation start rest tokens) (hrest : text.drop start = rest) :
    MaximalCut text start tokens := by
  induction h with
  | nil => exact maximalCut_nil hrest
  | @space start c rest tokens hspace _ ih =>
      have hc : text[start]? = some c := by
        rw [← List.head?_drop, hrest, List.head?_cons]
      have hdrop : text.drop (start + 1) = rest := by
        rw [← List.tail_drop, hrest, List.tail_cons]
      exact (ih hdrop).space hc hspace
  | @token start kind literal rest tokens hclass hends _ ih =>
      have hdrop : text.drop (start + literal.length) = rest := by
        rw [← List.drop_drop, hrest, List.drop_left]
      exact (ih hdrop).cons hrest hclass hends

/-! ### From a cut to a segmentation -/

/-- Where no token begins there is white space, and the cut goes on behind it. -/
theorem MaximalCut.of_space {text : List Char} {start : Nat} {c : Char} {tokens : List Token}
    (h : MaximalCut text start tokens) (hc : text[start]? = some c)
    (hlater : ∀ token ∈ tokens, start < token.offset) :
    isSpace c = true ∧ MaximalCut text (start + 1) tokens :=
  ⟨h.gap start c (Nat.le_refl start) hc fun token htoken => .inl (hlater token htoken),
    hlater, h.slice, h.ordered, fun i d hi => h.gap i d (by omega), h.inClass, h.maximal⟩

/-- Where the first token begins it is the first part of the text, it ends there,
and the cut goes on behind it. -/
theorem MaximalCut.of_token {text : List Char} {start : Nat} {token : Token} {tokens : List Token}
    (h : MaximalCut text start (token :: tokens)) (hstart : token.offset = start) :
    ∃ tail, text.drop start = token.literal.toList ++ tail
      ∧ Ends token.kind token.literal.toList tail ∧ MaximalCut text token.stop tokens := by
  obtain ⟨hslice, hslices⟩ := List.forall_mem_cons.mp h.slice
  obtain ⟨hmaximal, hmaximals⟩ := List.forall_mem_cons.mp h.maximal
  obtain ⟨hafter, hordered⟩ := List.pairwise_cons.mp h.ordered
  obtain ⟨-, hclasses⟩ := List.forall_mem_cons.mp h.inClass
  obtain ⟨-, tail, htail⟩ := hslice
  rw [hstart] at htail
  have hstop : token.stop = start + token.literal.toList.length := by
    rw [Token.stop, hstart, String.length_toList]
  refine ⟨tail, htail.symm, fun c hc => hmaximal c ?_, hafter, hslices, hordered,
    fun i c hi hc hout => ?_, hclasses, hmaximals⟩
  · rw [hstop, ← List.getElem?_drop, ← htail, List.getElem?_append_right (Nat.le_refl _),
      Nat.sub_self, ← List.head?_eq_getElem?]
    exact hc
  · exact h.gap i c (by omega) hc (List.forall_mem_cons.mpr ⟨.inr hi, hout⟩)

/-- No token begins before the first one, as they come in order and a token is not
empty. -/
theorem MaximalCut.lt_offset {text : List Char} {start : Nat} {token : Token} {tokens : List Token}
    (h : MaximalCut text start (token :: tokens)) (hstart : start < token.offset) :
    ∀ other ∈ token :: tokens, start < other.offset := by
  obtain ⟨hafter, -⟩ := List.pairwise_cons.mp h.ordered
  refine List.forall_mem_cons.mpr ⟨hstart, fun other hother => ?_⟩
  have hle := hafter other hother
  rw [Token.stop] at hle
  omega

/-- The tokens of a cut make a segmentation of the text. By induction on what is
left of the text: a token begins there, or it is white space. -/
theorem MaximalCut.segmentation {text : List Char} {start : Nat} {tokens : List Token}
    (h : MaximalCut text start tokens) : Segmentation start (text.drop start) tokens := by
  -- The induction is on what is left of the text: a character of white space is
  -- taken off it, or a whole token.
  induction hn : text.length - start using Nat.strongRecOn generalizing start tokens with
  | ind n ih =>
      cases hc : text[start]? with
      | none =>
          have hnil : text.drop start = [] :=
            List.drop_eq_nil_iff.mpr (List.getElem?_eq_none_iff.mp hc)
          cases tokens with
          | nil =>
              rw [hnil]
              exact .nil
          | cons token tokens =>
              -- A token would have to be a slice of what is not there.
              obtain ⟨hne, hslice⟩ := h.slice token (by simp)
              have hbegins := h.behind token (by simp)
              have hlength := List.drop_eq_nil_iff.mp hnil
              rw [List.drop_eq_nil_iff.mpr (by omega : text.length ≤ token.offset),
                List.prefix_nil] at hslice
              exact absurd hslice hne
      | some c =>
          obtain ⟨hlt, rfl⟩ := List.getElem?_eq_some_iff.mp hc
          have hspaced (hlater : ∀ token ∈ tokens, start < token.offset) :
              Segmentation start (text.drop start) tokens := by
            obtain ⟨hspace, hcut⟩ := h.of_space hc hlater
            rw [List.drop_eq_getElem_cons hlt]
            exact .space hspace (ih _ (by omega) hcut rfl)
          cases tokens with
          | nil => exact hspaced (by simp)
          | cons token tokens =>
              have hbegins := h.behind token (by simp)
              by_cases heq : token.offset = start
              · obtain ⟨tail, htail, hends, hcut⟩ := h.of_token heq
                have hclass := h.inClass token (by simp)
                have hlength := List.length_pos_iff.mpr hclass.ne_nil
                have hstop : token.stop = start + token.literal.toList.length := by
                  rw [Token.stop, heq, String.length_toList]
                have hrest := ih _ (by omega) hcut rfl
                rw [hstop, ← List.drop_drop, htail, List.drop_left] at hrest
                have htoken := Segmentation.token hclass hends hrest
                rw [String.ofList_toList, ← heq] at htoken
                rw [htail, ← heq]
                exact htoken
              · exact hspaced (h.lt_offset (by omega))

/-- To cut a text into tokens is to build it from them. -/
theorem maximalCut_iff_segmentation {text : List Char} {start : Nat} {tokens : List Token} :
    MaximalCut text start tokens ↔ Segmentation start (text.drop start) tokens :=
  ⟨MaximalCut.segmentation, fun h => h.maximalCut rfl⟩

/-- The lexer succeeds with a list of tokens if and only if they cut the text, each
as long as it can be. There is at most one such list. -/
theorem tokenize_eq_ok_iff_maximalCut (text : String) :
    (∀ tokens, tokenize text = .ok tokens ↔ MaximalCut text.toList 0 tokens)
      ∧ ∀ tokens others, MaximalCut text.toList 0 tokens → MaximalCut text.toList 0 others →
          tokens = others := by
  have hagree (tokens : List Token) :
      tokenize text = .ok tokens ↔ MaximalCut text.toList 0 tokens := by
    rw [maximalCut_iff_segmentation, List.drop_zero]
    exact tokensFrom_eq_ok_iff
  refine ⟨hagree, fun tokens others htokens hothers => ?_⟩
  have heq := ((hagree tokens).mpr htokens).symm.trans ((hagree others).mpr hothers)
  exact Except.ok.inj heq

end PlcLang.Proofs
