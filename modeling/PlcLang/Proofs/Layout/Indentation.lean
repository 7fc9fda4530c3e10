import PlcLang.Proofs.Layout.Margins
import PlcLang.Proofs.Layout.Spacing

/-!
# `PlcLang.Proofs.Layout.Indentation`: words of indented texts

Indenting is meant to be layout: spaces in front of lines. But lines end at every
line boundary of Unicode, and what ends them becomes a newline, wherever it stands.
`indent_keepsWords_iff` says what is left of that: an indented text has the words of the
text if and only if no token has a line end in it; where nothing is put in front of the
lines, a token may have newlines.

* `Segmentation.shifted`: tokens without line ends are cut out of the indented text as
  they are.
* `Segmentation.onlyNewlines`: a token with a newline in it is not, if there is a margin.
  Up to its newline it stands in both texts, but then the indented text has so many more
  spaces, and no token ends in white space (`isSpace_of_prefix_shift`).
-/

set_option autoImplicit false

namespace PlcLang

/-- The text lexes, and indented by so many levels it is cut into the same words. -/
def KeepsWords (text : String) (levels : Nat) : Prop :=
  ∃ tokens placed, tokenize text = .ok tokens ∧ tokenize (Text.indent text levels) = .ok placed
    ∧ Proofs.SameWords placed tokens

namespace Proofs

open Lexer

variable {margin text word : List Char} {place : Place} {c : Char}

/-! ### Parts of segmentations -/

variable {offset : Nat} {tokens : List Token}

/-- The characters of tokens are those of the text. -/
theorem Segmentation.mem_text (h : Segmentation offset text tokens) {token : Token}
    (htoken : token ∈ tokens) (hc : c ∈ token.literal.toList) : c ∈ text := by
  induction h with
  | nil => cases htoken
  | space _ _ ih => exact List.mem_cons_of_mem _ (ih htoken)
  | token _ _ _ ih =>
      rw [List.mem_append]
      rcases List.mem_cons.mp htoken with rfl | htoken
      · exact .inl (by simpa using hc)
      · exact .inr (ih htoken)

/-- Where there is no text there are no tokens. -/
theorem Segmentation.eq_nil (h : Segmentation offset [] tokens) : tokens = [] := by
  have htokens := h.tokensFrom_eq
  rw [tokensFrom] at htokens
  exact (Except.ok.inj htokens).symm

/-- White space in front has made no tokens, so the text behind it has all of them. -/
theorem Segmentation.of_white {gap : List Char} (hgap : ∀ c ∈ gap, isSpace c = true)
    (h : Segmentation offset (gap ++ text) tokens) :
    Segmentation (offset + gap.length) text tokens := by
  rw [← tokensFrom_eq_ok_iff] at h ⊢
  induction gap generalizing offset with
  | nil => exact h
  | cons c gap ih =>
      obtain ⟨hc, hrest⟩ := List.forall_mem_cons.mp hgap
      rw [List.cons_append, tokensFrom_space hc] at h
      have hlater := ih hrest h
      rwa [List.length_cons, Nat.add_comm gap.length, ← Nat.add_assoc]

/-- The first token stands where the first character is that is no white space, and
the other tokens are those of what is behind it. -/
theorem Segmentation.exists_behind {token : Token} (hc : isSpace c = false)
    (h : Segmentation offset (c :: text) (token :: tokens)) :
    ∃ behind, c :: text = token.literal.toList ++ behind
      ∧ Segmentation (offset + token.literal.length) behind tokens := by
  generalize hwhole : c :: text = whole at h
  generalize hall : token :: tokens = all at h
  cases h with
  | nil => cases hwhole
  | space hspace _ =>
      cases hwhole
      rw [hc] at hspace
      cases hspace
  | @token _ kind literal behind rest hclass hends h =>
      cases hall
      refine ⟨behind, by simp, ?_⟩
      simpa [← String.length_toList] using h

/-- A newline at the end makes no token, and no token takes it in. -/
theorem segmentation_newline_iff :
    Segmentation offset (text ++ ['\n']) tokens ↔ Segmentation offset text tokens := by
  constructor
  · intro h
    generalize hwhole : text ++ ['\n'] = whole at h
    induction h generalizing text with
    | nil => simp at hwhole
    | @space offset c rest tokens hspace h ih =>
        cases text with
        | nil =>
            obtain ⟨rfl, rfl⟩ : '\n' = c ∧ [] = rest := by simpa using hwhole
            rw [h.eq_nil]
            exact .nil
        | cons d more =>
            obtain ⟨rfl, hrest⟩ := List.cons.inj hwhole
            exact .space hspace (ih hrest)
    | @token offset kind literal rest tokens hclass hends h ih =>
        -- The token ends before the newline: it does not end in one.
        obtain ⟨behind, rfl, rfl⟩ :
            ∃ behind, text = literal ++ behind ∧ behind ++ ['\n'] = rest := by
          rcases List.append_eq_append_iff.mp hwhole with ⟨more, rfl, hmore⟩ | ⟨more, rfl, hmore⟩
          · cases more with
            | nil => exact ⟨[], by simp, by simpa using hmore⟩
            | cons c more =>
                obtain ⟨rfl, hnil⟩ := List.cons.inj hmore
                obtain ⟨rfl, -⟩ := List.append_eq_nil_iff.mp hnil.symm
                exact absurd (hclass.isSpace_last List.getLast?_concat) (by decide)
          · exact ⟨more, rfl, hmore.symm⟩
        exact .token hclass hends.left (ih rfl)
  · intro h
    induction h with
    | nil => exact .space rfl .nil
    | space hspace _ ih => exact .space hspace ih
    | @token offset kind literal rest tokens hclass hends _ ih =>
        rw [List.append_assoc]
        exact .token hclass (hends.append_break rfl []) ih

/-! ### Words of indented texts -/

/-- The line ends of tokens are newlines, and there are none where there is a
margin. -/
def OnlyNewlines (margin : List Char) (tokens : List Token) : Prop :=
  ∀ token ∈ tokens, ∀ c ∈ token.literal.toList, Text.isLineBreak c = true → c = '\n' ∧ margin = []

/-- The characters of tokens that are no line ends but newlines stand in the indented
text as they are. -/
theorem Segmentation.shifted (h : Segmentation offset text tokens)
    (hmargin : ∀ d ∈ margin, isSpace d = true) (hnewlines : OnlyNewlines margin tokens)
    (place : Place) (start : Nat) :
    ∃ placed, Segmentation start (shift margin place text) placed ∧ SameWords placed tokens := by
  induction h generalizing place start with
  | nil => exact ⟨[], .nil, rfl⟩
  | @space offset c rest tokens hspace _ ih =>
      obtain ⟨gap, next, hgap, hshift⟩ := exists_shift_space hmargin hspace place rest
      obtain ⟨placed, hplaced, hwords⟩ := ih hnewlines next (start + gap.length)
      rw [hshift]
      exact ⟨placed, .white hgap hplaced, hwords⟩
  | @token offset kind literal rest tokens hclass hends _ ih =>
      obtain ⟨hliteral, hrest⟩ := List.forall_mem_cons.mp hnewlines
      rw [String.toList_ofList] at hliteral
      obtain ⟨gap, next, hgap, hnext, hshift⟩ :=
        exists_shift_token hclass hmargin hliteral place rest
      obtain ⟨placed, hplaced, hwords⟩ := ih hrest next (start + gap.length + literal.length)
      rw [hshift]
      refine ⟨_, .white hgap (.token hclass ((ends_shift_iff hnext).mpr hends) hplaced), ?_⟩
      exact congrArg ((kind, String.ofList literal) :: ·) hwords

/-- Where both a text and the text with a margin before its lines go on with a word, the
word is white space: in front of any other character there is more of it in one text than
in the other. -/
theorem isSpace_of_prefix_shift {width : Nat} (hwidth : 0 < width) (hplain : word <+: text)
    (hshift : word <+: shift (List.replicate width ' ') .fresh text) :
    ∀ c ∈ word, isSpace c = true := by
  obtain ⟨less, rfl⟩ := Nat.exists_eq_succ_of_ne_zero (Nat.pos_iff_ne_zero.mp hwidth)
  -- Behind the margin the second text is ahead of the first by so many spaces, and stays
  -- ahead as long as there are spaces.
  have hahead {word text : List Char} (hplain : word <+: text)
      (hshift : word <+: List.replicate (less + 1) ' '
        ++ shift (List.replicate (less + 1) ' ') .inside text) :
      ∀ c ∈ word, isSpace c = true := by
    induction word generalizing text with
    | nil => simp
    | cons c more ih =>
        cases text with
        | nil => simp at hplain
        | cons d rest =>
            obtain ⟨rfl, hrest⟩ := List.cons_prefix_cons.mp hplain
            rw [List.replicate_succ, List.cons_append, List.cons_prefix_cons] at hshift
            obtain ⟨rfl, hshift⟩ := hshift
            rw [← List.replicate_succ, shift_char (by decide), Place.lead, List.nil_append,
              List.append_cons, ← List.replicate_succ'] at hshift
            exact List.forall_mem_cons.mpr ⟨rfl, ih hrest hshift⟩
  induction word generalizing text with
  | nil => simp
  | cons c more ih =>
      cases text with
      | nil => simp at hplain
      | cons d rest =>
          cases hd : Text.isLineBreak d with
          | true =>
              obtain ⟨rfl, hrest⟩ := List.cons_prefix_cons.mp hplain
              rw [shift_break hd (by decide), List.cons_prefix_cons] at hshift
              obtain ⟨rfl, hshift⟩ := hshift
              exact List.forall_mem_cons.mpr ⟨rfl, ih hrest hshift⟩
          | false =>
              refine hahead hplain ?_
              rwa [shift_char hd] at hshift ⊢

/-- A token that has a newline, and stands in the indented text as it does in the text, has
no margin behind its newline. -/
theorem width_eq_zero_of_newline {kind : TokenKind} {width : Nat} {more rest behind : List Char}
    (hclass : TokenClass kind (c :: more))
    (hnewline : ∀ d ∈ more, Text.isLineBreak d = true → d = '\n')
    (hshift : shift (List.replicate width ' ') .inside (more ++ rest) = more ++ behind)
    {d : Char} (hd : d ∈ more) (hbreak : Text.isLineBreak d = true) : width = 0 := by
  obtain ⟨front, last, rfl, hfront, hlast, -⟩ := exists_run (!Text.isLineBreak ·) more
  cases last with
  | nil =>
      rw [List.append_nil] at hd
      have hnot := hfront d hd
      rw [hbreak] at hnot
      cases hnot
  | cons e last =>
      -- The first line end is a newline, and what comes behind it goes on in both texts.
      have he : Text.isLineBreak e = true := by simpa using hlast e rfl
      obtain rfl : e = '\n' := hnewline e (by simp) he
      have hplain : ∀ c ∈ front, Text.isLineBreak c = true →
          c = '\n' ∧ List.replicate width ' ' = [] := by
        intro c hc hbreak
        have hnot := hfront c hc
        rw [hbreak] at hnot
        cases hnot
      obtain ⟨next, hnext, hfrontShift⟩ :=
        exists_shift_append (open_inside _) hplain ('\n' :: last ++ rest)
      rw [List.append_assoc, List.append_assoc, hfrontShift, List.append_cancel_left_eq,
        List.cons_append, shift_break he hnext.1, List.cons_append, List.cons.injEq] at hshift
      refine Nat.eq_zero_of_not_pos fun hwidth => ?_
      have hspaces := isSpace_of_prefix_shift hwidth (List.prefix_append last rest)
        ⟨behind, hshift.2.symm⟩
      -- So the token would end in white space.
      obtain ⟨f, hf⟩ := Option.ne_none_iff_exists'.mp
        (mt List.getLast?_eq_none_iff.mp (List.cons_ne_nil '\n' last))
      have hend : (c :: (front ++ '\n' :: last)).getLast? = some f := by
        rw [← List.cons_append, List.getLast?_append, hf, Option.some_or]
      have hspace : isSpace f = true := by
        rcases List.mem_cons.mp (List.mem_of_getLast? hf) with rfl | hmem
        · rfl
        · exact hspaces f hmem
      rw [hclass.isSpace_last hend] at hspace
      cases hspace

/-- A token of the text that is the first one of the indented text, too, has no line ends
but newlines, and none of these where there is a margin. The indented rest of the text is
behind it. -/
theorem Segmentation.of_shifted_token {kind : TokenKind} {literal rest : List Char}
    {width start : Nat} {place : Place} {token : Token} {placed : List Token}
    (hclass : TokenClass kind literal) (hliteral : token.literal = String.ofList literal)
    (h : Segmentation start (shift (List.replicate width ' ') place (literal ++ rest))
      (token :: placed)) :
    (∀ c ∈ literal, Text.isLineBreak c = true → c = '\n' ∧ List.replicate width ' ' = [])
      ∧ ∃ stop next, Segmentation stop (shift (List.replicate width ' ') next rest) placed := by
  have hspaces : ∀ d ∈ place.lead (List.replicate width ' '), isSpace d = true := by
    intro d hd
    rw [List.eq_of_mem_replicate (Place.mem_margin hd)]
    rfl
  -- What ends a line in the token is a newline: nothing else is left of line ends.
  have hnewline : ∀ c ∈ literal, Text.isLineBreak c = true → c = '\n' := by
    intro c hc hbreak
    have hmargin : ∀ d ∈ List.replicate width ' ', Text.isLineBreak d = false := by
      simp [Text.isLineBreak]
    refine eq_newline_of_mem_shift hmargin (h.mem_text List.mem_cons_self ?_) hbreak
    rwa [hliteral, String.toList_ofList]
  obtain ⟨c, more, rfl⟩ := List.exists_cons_of_ne_nil hclass.ne_nil
  obtain ⟨hc, hmore⟩ := List.forall_mem_cons.mp hnewline
  have hbreak := hclass.isLineBreak_head hc
  -- The token begins behind the margin, and what it takes of the indented text is what it
  -- takes of the text.
  rw [List.cons_append, shift_char hbreak] at h
  obtain ⟨behind, hbehind, hplaced⟩ := (h.of_white hspaces).exists_behind hclass.isSpace_head
  rw [hliteral, String.toList_ofList, List.cons_append, List.cons.injEq] at hbehind
  have hnewlines : ∀ d ∈ more, Text.isLineBreak d = true →
      d = '\n' ∧ List.replicate width ' ' = [] := by
    intro d hd hbreak
    have hwidth := width_eq_zero_of_newline hclass hmore hbehind.2 hd hbreak
    exact ⟨hmore d hd hbreak, by rw [hwidth]; rfl⟩
  obtain ⟨next, -, hnext⟩ := exists_shift_append (open_inside _) hnewlines rest
  have hrest : shift (List.replicate width ' ') next rest = behind :=
    List.append_cancel_left (hnext.symm.trans hbehind.2)
  rw [← hrest] at hplaced
  refine ⟨List.forall_mem_cons.mpr ⟨fun h => ?_, hnewlines⟩, _, next, hplaced⟩
  rw [hbreak] at h
  cases h

/-- If the indented text is cut into the words of the text, no token has a line end but
newlines, and none of these where there is a margin. -/
theorem Segmentation.onlyNewlines {width start : Nat} {place : Place} {placed : List Token}
    (h : Segmentation offset text tokens)
    (hplaced : Segmentation start (shift (List.replicate width ' ') place text) placed)
    (hwords : SameWords placed tokens) : OnlyNewlines (List.replicate width ' ') tokens := by
  -- The two texts are read side by side, one token at a time.
  induction h generalizing place start placed with
  | nil => exact fun _ h => absurd h List.not_mem_nil
  | @space offset c rest tokens hspace _ ih =>
      have hspaces : ∀ d ∈ List.replicate width ' ', isSpace d = true := by simp [isSpace]
      obtain ⟨gap, next, hgap, hshift⟩ := exists_shift_space hspaces hspace place rest
      rw [hshift] at hplaced
      exact ih (hplaced.of_white hgap) hwords
  | @token offset kind literal rest tokens hclass hends _ ih =>
      cases placed with
      | nil => cases hwords
      | cons token placed =>
          obtain ⟨hword, hrest⟩ := List.cons.inj hwords
          have hliteral : token.literal = String.ofList literal := congrArg Prod.snd hword
          obtain ⟨hnewlines, stop, next, hbehind⟩ :=
            Segmentation.of_shifted_token hclass hliteral hplaced
          refine List.forall_mem_cons.mpr ⟨?_, ih hbehind hrest⟩
          rwa [String.toList_ofList]

/-- A text that lexes has the same words when it is indented if and only if no token has a
line end in it; if nothing is put in front of its lines, tokens may have newlines. -/
theorem indent_keepsWords_iff {text : String} (h : tokenize text = .ok tokens) (levels : Nat) :
    KeepsWords text levels
      ↔ ∀ token ∈ tokens, ∀ c ∈ token.literal.toList, Text.isLineBreak c = true →
          c = '\n' ∧ levels = 0 := by
  have hspaces : ∀ d ∈ List.replicate (4 * levels) ' ', isSpace d = true := by simp [isSpace]
  have hnewlines : OnlyNewlines (List.replicate (4 * levels) ' ') tokens
      ↔ ∀ token ∈ tokens, ∀ c ∈ token.literal.toList, Text.isLineBreak c = true →
          c = '\n' ∧ levels = 0 := by
    have hwidth : 4 * levels = 0 ↔ levels = 0 := by omega
    simp only [OnlyNewlines, List.replicate_eq_nil_iff, hwidth]
  -- A newline more or less at the end of the text makes no difference to its tokens.
  have hindent {placed : List Token} : tokenize (Text.indent text levels) = .ok placed
      ↔ Segmentation 0 (shift (List.replicate (4 * levels) ' ') .fresh text.toList) placed := by
    obtain ⟨tail, htail, hshift⟩ := shift_eq_indent text levels
    rw [tokenize, tokensFrom_eq_ok_iff, hshift]
    rcases htail with rfl | rfl
    · rw [List.append_nil]
    · exact segmentation_newline_iff.symm
  have hsegmentation := tokensFrom_eq_ok_iff.mp h
  rw [← hnewlines]
  constructor
  · rintro ⟨others, placed, hothers, hplaced, hwords⟩
    obtain rfl : tokens = others := Except.ok.inj (h.symm.trans hothers)
    exact hsegmentation.onlyNewlines (hindent.mp hplaced) hwords
  · intro hnewlines
    obtain ⟨placed, hplaced, hwords⟩ := hsegmentation.shifted hspaces hnewlines .fresh 0
    exact ⟨tokens, placed, h, hindent.mpr hplaced, hwords⟩

end Proofs

end PlcLang
