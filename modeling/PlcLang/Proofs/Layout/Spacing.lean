import PlcLang.Proofs.Grammar.Words
import PlcLang.Proofs.Layout.Tokens

/-!
# `PlcLang.Proofs.Layout.Spacing`: tokens under any spacing

The lexer looks past the end of a token before it says what the token is: at the digit
behind a sign, at the point behind digits, at the equals sign behind a comparison. White
space ends all of them, so words that are written with white space between them are
cut into the same words again (`tokenize_spaced_words`). How much white space there is, and of
which characters, decides only where the words stand.

* `Spacing` is the white space of a layout: some in front of all words, some behind
  each, and none at all only in front of the first and behind the last.
* `Segmentation.white` passes over white space, and `segmentation_written` cuts what is
  left of a layout by induction on the words.
-/

set_option autoImplicit false

namespace PlcLang

/-- Nothing but the characters that separate tokens. -/
def IsWhite (text : String) : Prop :=
  ∀ c ∈ text.toList, Lexer.isSpace c = true

/-- Whether a text is white space can be decided, character by character. -/
instance (text : String) : Decidable (IsWhite text) :=
  decidable_of_iff (text.toList.all Lexer.isSpace = true) List.all_eq_true

/-- White space for so many words: in front of them, and behind each one. Between two
words there is at least one character of it. -/
structure Spacing (count : Nat) where
  lead : String
  gaps : List String
  length_gaps : gaps.length = count
  white : ∀ gap ∈ lead :: gaps, IsWhite gap
  apart : ∀ gap ∈ gaps.dropLast, gap ≠ ""

/-- The texts of tokens, each with a gap behind it. -/
def written : List Token → List String → String
  | token :: tokens, gap :: gaps => token.literal ++ gap ++ written tokens gaps
  | _, _ => ""

namespace Spacing

variable {tokens : List Token}

/-- The text that has the words of the tokens in this layout. -/
def text (spacing : Spacing tokens.length) : String :=
  spacing.lead ++ written tokens spacing.gaps

/-- Where the word at an index begins: behind all that is written before it. -/
def place (spacing : Spacing tokens.length) (index : Nat) : Nat :=
  (spacing.lead ++ written (tokens.take index) (spacing.gaps.take index)).length

end Spacing

namespace Proofs

open Lexer

/-- White space in front makes no tokens, and moves those behind it. -/
theorem Segmentation.white {gap text : List Char} {offset : Nat} {tokens : List Token}
    (hgap : ∀ c ∈ gap, isSpace c = true)
    (h : Segmentation (offset + gap.length) text tokens) :
    Segmentation offset (gap ++ text) tokens := by
  induction gap generalizing offset with
  | nil => exact h
  | cons c gap ih =>
      obtain ⟨hc, hrest⟩ := List.forall_mem_cons.mp hgap
      have hlength : offset + (c :: gap).length = offset + 1 + gap.length := by
        rw [List.length_cons]
        omega
      rw [hlength] at h
      exact .space hc (ih hrest h)

/-- The first token ends before its gap: there is white space behind it, or the text is
at its end. -/
theorem ends_of_gap {kind : TokenKind} {literal : List Char} {gap : String} {gaps : List String}
    {tokens : List Token} (hlength : gaps.length = tokens.length) (hgap : IsWhite gap)
    (hapart : ∀ other ∈ (gap :: gaps).dropLast, other ≠ "") :
    Ends kind literal (gap.toList ++ (written tokens gaps).toList) := by
  apply ends_of_isSpace
  intro c hc
  cases hchars : gap.toList with
  | cons d more =>
      rw [hchars] at hc
      obtain rfl : d = c := by simpa using hc
      exact hgap d (by simp [hchars])
  | nil =>
      -- Only the last gap may be empty, and no token is left behind that one.
      have hempty : gap = "" := by rwa [String.toList_eq_nil_iff] at hchars
      cases gaps with
      | cons next gaps => exact absurd hempty (hapart gap (by simp))
      | nil =>
          obtain rfl : tokens = [] := by simpa using hlength.symm
          simp [hchars, written] at hc

/-- Words with white space between them are cut into the same words, each where it is
written. -/
theorem segmentation_written {tokens : List Token} {gaps : List String} (h : Genuine tokens)
    (hlength : gaps.length = tokens.length) (hwhite : ∀ gap ∈ gaps, IsWhite gap)
    (hapart : ∀ gap ∈ gaps.dropLast, gap ≠ "") (offset : Nat) :
    ∃ placed, Segmentation offset (written tokens gaps).toList placed ∧ SameWords placed tokens
      ∧ ∀ (index : Nat) (token : Token), placed[index]? = some token →
        token.offset = offset + (written (tokens.take index) (gaps.take index)).length := by
  induction tokens generalizing gaps offset with
  | nil => exact ⟨[], .nil, rfl, by simp⟩
  | cons token tokens ih =>
      cases gaps with
      | nil => simp at hlength
      | cons gap gaps =>
          obtain ⟨hgap, hgaps⟩ := List.forall_mem_cons.mp hwhite
          obtain ⟨hclass, htokens⟩ := List.forall_mem_cons.mp h
          have hlength' : gaps.length = tokens.length := by simpa using hlength
          have hapart' : ∀ other ∈ gaps.dropLast, other ≠ "" := by
            intro other hother
            cases gaps with
            | nil => simp at hother
            | cons next gaps => exact hapart other (by simp [hother])
          obtain ⟨placed, hrest, hwords, hplaces⟩ :=
            ih htokens hlength' hgaps hapart' (offset + token.literal.length + gap.length)
          refine ⟨⟨token.kind, token.literal, offset⟩ :: placed, ?_, ?_, ?_⟩
          · have hbehind : Segmentation (offset + token.literal.toList.length)
                (gap.toList ++ (written tokens gaps).toList) placed := by
              rw [String.length_toList]
              exact .white hgap (by rwa [String.length_toList])
            have hfirst := Segmentation.token hclass (ends_of_gap hlength' hgap hapart) hbehind
            rw [String.ofList_toList] at hfirst
            simpa [written] using hfirst
          · show (token.kind, token.literal) :: placed.map Token.word = _
            rw [hwords]
            rfl
          · -- Behind the first word, places are counted from the end of its gap.
            intro index found hfound
            cases index with
            | zero =>
                obtain rfl := Option.some.inj hfound
                simp [written]
            | succ index =>
                have hplace := hplaces index found hfound
                simp only [List.take_succ_cons, written, String.length_append]
                omega

/-- The tokens of a text, written with any white space between them, are cut into the
same words again, each where it is written. -/
theorem tokenize_spaced_words {text : String} {tokens : List Token} (h : tokenize text = .ok tokens)
    (spacing : Spacing tokens.length) :
    ∃ placed, tokenize spacing.text = .ok placed ∧ SameWords placed tokens
      ∧ ∀ (index : Nat) (token : Token), placed[index]? = some token →
        token.offset = spacing.place index := by
  obtain ⟨hlead, hgaps⟩ := List.forall_mem_cons.mp spacing.white
  obtain ⟨placed, hsegmentation, hwords, hplaces⟩ :=
    segmentation_written (tokenClass_of_tokenize h) spacing.length_gaps hgaps spacing.apart
      spacing.lead.length
  refine ⟨placed, ?_, hwords, ?_⟩
  · have hwhole : Segmentation 0 (spacing.lead.toList ++ (written tokens spacing.gaps).toList)
        placed := by
      apply Segmentation.white hlead
      rwa [Nat.zero_add, String.length_toList]
    show tokensFrom 0 0 spacing.text.toList = .ok placed
    rw [Spacing.text, String.toList_append]
    exact hwhole.tokensFrom_eq
  · intro index token htoken
    rw [hplaces index token htoken, Spacing.place, String.length_append]

/-- The tokens of a comparison that is written without any white space. -/
def denseTokens : List Token :=
  [⟨.identifier, "a", 0⟩, ⟨.operator, "<", 1⟩, ⟨.integer, "-1", 2⟩, ⟨.operator, "==", 4⟩,
    ⟨.character, "'b'", 6⟩]

/-- White space of every kind for the words of the comparison. -/
def wideSpacing : Spacing denseTokens.length where
  lead := "\t"
  gaps := [" ", "\n", "  ", "\r\n", "\x08"]
  length_gaps := rfl
  white := by decide
  apart := by decide

/-- The comparison has the same words in this layout, among them the integer with
its sign. -/
theorem tokenize_wide_comparison :
    ∃ placed, tokenize "a<-1=='b'" = .ok denseTokens
      ∧ tokenize "\ta <\n-1  ==\r\n'b'\x08" = .ok placed ∧ SameWords placed denseTokens
      ∧ ∀ (index : Nat) (token : Token), placed[index]? = some token →
        token.offset = wideSpacing.place index := by
  have hdense : tokenize "a<-1=='b'" = .ok denseTokens := by rfl
  obtain ⟨placed, hplaced, hwords, hplaces⟩ := tokenize_spaced_words hdense wideSpacing
  have htext : wideSpacing.text = "\ta <\n-1  ==\r\n'b'\x08" := by rfl
  rw [htext] at hplaced
  exact ⟨placed, hdense, hplaced, hwords, hplaces⟩

end Proofs

end PlcLang
