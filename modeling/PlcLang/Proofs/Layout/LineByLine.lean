import PlcLang.Proofs.Layout.Indentation

/-!
# `PlcLang.Proofs.Layout.LineByLine`: tokens that end where lines do

`LineByLine` says of a text that its tokens end where its lines do. It does not depend on
margins (`lineByLine_indent`), and a text of several lines has it if each line does
(`lineByLine_newline`). So it is what is known of a part of a text if the whole, with
that part indented, is cut into tokens without line ends.

A line end that is no white space is a token of its own to the lexer, and `LineByLine`
looks past it as past a newline. `LineByLine.exists_segmentation` says which tokens
there are then.
-/

set_option autoImplicit false

namespace PlcLang.Proofs

open Lexer

variable {margin text word : List Char} {place : Place} {c : Char} {offset : Nat}
  {tokens : List Token}

/-- The text consists of tokens that have no line ends, with white space and line ends
between them. -/
inductive LineByLine : List Char → Prop where
  | nil : LineByLine []
  | between {c : Char} {text : List Char} (hc : isSpace c = true ∨ Text.isLineBreak c = true)
      (rest : LineByLine text) : LineByLine (c :: text)
  | token {kind : TokenKind} {literal text : List Char} (hclass : TokenClass kind literal)
      (hbreaks : lineBreaks literal = 0) (hends : Ends kind literal text)
      (rest : LineByLine text) : LineByLine (literal ++ text)

/-- The first character stands between tokens or begins one. -/
theorem LineByLine.of_cons (h : LineByLine (c :: text)) :
    ((isSpace c = true ∨ Text.isLineBreak c = true) ∧ LineByLine text)
      ∨ ∃ kind more behind, text = more ++ behind ∧ TokenClass kind (c :: more)
        ∧ lineBreaks (c :: more) = 0 ∧ Ends kind (c :: more) behind ∧ LineByLine behind := by
  generalize hwhole : c :: text = whole at h
  cases h with
  | nil => cases hwhole
  | between hc rest =>
      cases hwhole
      exact .inl ⟨hc, rest⟩
  | @token kind literal behind hclass hbreaks hends rest =>
      obtain ⟨d, more, rfl⟩ := List.exists_cons_of_ne_nil hclass.ne_nil
      obtain ⟨rfl, rfl⟩ := List.cons.inj hwhole
      exact .inr ⟨kind, more, behind, rfl, hclass, hbreaks, hends, rest⟩

/-- What stands between tokens may be left out in front. It begins no token, since
no token has a line end in it or begins with white space. -/
theorem LineByLine.behind (h : LineByLine (c :: text))
    (hc : isSpace c = true ∨ Text.isLineBreak c = true) : LineByLine text := by
  rcases h.of_cons with ⟨-, rest⟩ | ⟨kind, more, behind, -, hclass, hbreaks, -, -⟩
  · exact rest
  · have hspace := hclass.isSpace_head
    have hbreak := lineBreaks_eq_zero.mp hbreaks c List.mem_cons_self
    rw [hspace, hbreak] at hc
    simp at hc

/-- White space and line ends may stand in front, or be left out there. -/
theorem lineByLine_append {gap : List Char}
    (hgap : ∀ c ∈ gap, isSpace c = true ∨ Text.isLineBreak c = true) :
    LineByLine (gap ++ text) ↔ LineByLine text := by
  induction gap with
  | nil => exact Iff.rfl
  | cons c gap ih =>
      obtain ⟨hc, hrest⟩ := List.forall_mem_cons.mp hgap
      rw [← ih hrest]
      exact ⟨fun h => h.behind hc, .between hc⟩

/-- Two texts with a newline between them are cut line by line if each is. -/
theorem lineByLine_newline {other : List Char} :
    LineByLine (text ++ '\n' :: other) ↔ LineByLine text ∧ LineByLine other := by
  constructor
  · intro h
    generalize hwhole : text ++ '\n' :: other = whole at h
    induction h generalizing text with
    | nil => simp at hwhole
    | @between c rest hc hrest ih =>
        cases text with
        | nil =>
            obtain ⟨rfl, rfl⟩ := List.cons.inj hwhole
            exact ⟨.nil, hrest⟩
        | cons d more =>
            obtain ⟨rfl, hmore⟩ := List.cons.inj hwhole
            obtain ⟨hfirst, hother⟩ := ih hmore
            exact ⟨.between hc hfirst, hother⟩
    | @token kind literal behind hclass hbreaks hends _ ih =>
        -- The newline is behind the token, which has none.
        obtain ⟨more, rfl, rfl⟩ :
            ∃ more, text = literal ++ more ∧ more ++ '\n' :: other = behind := by
          rcases List.append_eq_append_iff.mp hwhole with ⟨more, rfl, hmore⟩ | ⟨more, rfl, hmore⟩
          · cases more with
            | nil => exact ⟨[], by simp, by simpa using hmore⟩
            | cons d more =>
                obtain ⟨rfl, -⟩ := List.cons.inj hmore
                exact absurd (lineBreaks_eq_zero.mp hbreaks '\n' (by simp)) (by decide)
          · exact ⟨more, rfl, hmore.symm⟩
        obtain ⟨hfirst, hother⟩ := ih rfl
        exact ⟨.token hclass hbreaks hends.left hfirst, hother⟩
  · rintro ⟨h, hother⟩
    induction h with
    | nil => exact .between (.inl rfl) hother
    | between hc _ ih => exact .between hc ih
    | token hclass hbreaks hends _ ih =>
        rw [List.append_assoc]
        exact .token hclass hbreaks (hends.append_break rfl other) ih

/-- A word without line ends that begins an indented text begins the text, and what
is left of the one is what is left of the other, indented. -/
theorem exists_of_shift_eq_append {rest behind : List Char} (hword : lineBreaks word = 0)
    (h : shift margin .inside rest = word ++ behind) :
    ∃ more, rest = word ++ more ∧ shift margin .inside more = behind := by
  induction word generalizing rest with
  | nil => exact ⟨rest, rfl, h⟩
  | cons c word ih =>
      rw [lineBreaks_eq_zero, List.forall_mem_cons] at hword
      cases rest with
      | nil => cases h
      | cons d rest =>
          cases hd : Text.isLineBreak d with
          | true =>
              rw [shift_break hd (by decide)] at h
              obtain ⟨rfl, -⟩ := List.cons.inj h
              exact absurd hword.1 (by decide)
          | false =>
              rw [shift_char hd] at h
              obtain ⟨rfl, hrest⟩ := List.cons.inj h
              obtain ⟨more, rfl, hmore⟩ := ih (lineBreaks_eq_zero.mpr hword.2) hrest
              exact ⟨more, rfl, hmore⟩

/-- Indenting a text neither joins tokens nor parts them where none has a line end.
By induction on the length of the text. -/
theorem lineByLine_shift (hmargin : ∀ d ∈ margin, isSpace d = true) :
    LineByLine (shift margin place text) ↔ LineByLine text := by
  have hending {ending : List Char} (h : ending = [] ∨ ending = ['\n']) :
      ∀ c ∈ ending, isSpace c = true ∨ Text.isLineBreak c = true := by
    rcases h with rfl | rfl <;> simp [isSpace]
  constructor
  · -- What is left behind a token is shorter, but no tail of the text in one step.
    intro h
    induction hn : text.length using Nat.strongRecOn generalizing place text with
    | ind n ih =>
        subst hn
        cases text with
        -- From here on the induction is on how the text is cut into tokens and gaps, and the
        -- margin goes into the gaps.
        | nil => exact .nil
        | cons c rest =>
            cases hc : Text.isLineBreak c with
            | true =>
                obtain ⟨ending, hends, hshift⟩ := exists_shift_break hc margin place rest
                rw [hshift, lineByLine_append (hending hends)] at h
                exact .between (.inr hc) (ih rest.length (by simp) h rfl)
            | false =>
                rw [shift_char hc, lineByLine_append fun d hd =>
                  .inl (hmargin d (Place.mem_margin hd))] at h
                rcases h.of_cons with ⟨hgap, hrest⟩ | ⟨kind, more, behind, hmore, hclass, hbreaks,
                  hends, hbehind⟩
                · exact .between hgap (ih rest.length (by simp) hrest rfl)
                · have hword := lineBreaks_eq_zero.mpr
                    (List.forall_mem_cons.mp (lineBreaks_eq_zero.mp hbreaks)).2
                  obtain ⟨last, rfl, rfl⟩ := exists_of_shift_eq_append hword hmore
                  rw [← List.cons_append]
                  refine .token hclass hbreaks ((ends_shift_iff (open_inside margin)).mp hends)
                    (ih last.length ?_ hbehind rfl)
                  simp only [List.length_cons, List.length_append]
                  omega
  · intro h
    induction h generalizing place with
    | nil => exact .nil
    | @between c rest hc _ ih =>
        rcases hc with hc | hc
        · obtain ⟨gap, next, hgap, hshift⟩ := exists_shift_space hmargin hc place rest
          rw [hshift, lineByLine_append fun d hd => .inl (hgap d hd)]
          exact ih
        · obtain ⟨ending, hends, hshift⟩ := exists_shift_break hc margin place rest
          rw [hshift, lineByLine_append (hending hends)]
          exact ih
    | @token kind literal rest hclass hbreaks hends _ ih =>
        have hliteral : ∀ c ∈ literal, Text.isLineBreak c = true → c = '\n' ∧ margin = [] :=
          fun c hc hbreak => absurd hbreak (by simp [lineBreaks_eq_zero.mp hbreaks c hc])
        obtain ⟨gap, next, hgap, hnext, hshift⟩ :=
          exists_shift_token hclass hmargin hliteral place rest
        rw [hshift, lineByLine_append fun d hd => .inl (hgap d hd)]
        exact .token hclass hbreaks ((ends_shift_iff hnext).mpr hends) ih

/-- A text is cut line by line exactly if it is when it is indented. -/
theorem lineByLine_indent (text : String) (levels : Nat) :
    LineByLine (Text.indent text levels).toList ↔ LineByLine text.toList := by
  have hspaces : ∀ d ∈ List.replicate (4 * levels) ' ', isSpace d = true := by simp [isSpace]
  obtain ⟨tail, htail, hshift⟩ := shift_eq_indent text levels
  have hlines : LineByLine (shift (List.replicate (4 * levels) ' ') .fresh text.toList)
      ↔ LineByLine text.toList := lineByLine_shift hspaces
  rw [← hlines, hshift]
  rcases htail with rfl | rfl
  · rw [List.append_nil]
  · rw [lineByLine_newline]
    exact (and_iff_left .nil).symm

/-- A text whose tokens have no line ends is cut line by line. -/
theorem Segmentation.lineByLine (h : Segmentation offset text tokens)
    (hbreaks : ∀ token ∈ tokens, lineBreaks token.literal.toList = 0) : LineByLine text := by
  induction h with
  | nil => exact .nil
  | space hspace _ ih => exact .between (.inl hspace) (ih hbreaks)
  | token hclass hends _ ih =>
      obtain ⟨hliteral, hrest⟩ := List.forall_mem_cons.mp hbreaks
      rw [String.toList_ofList] at hliteral
      exact .token hclass hliteral hends (ih hrest)

/-- A line end that is no white space is an operator to the lexer, whatever stands
behind it. -/
theorem tokenClass_of_isLineBreak (hbreak : Text.isLineBreak c = true)
    (hspace : isSpace c = false) :
    TokenClass .operator [c] ∧ ∀ rest, Ends .operator [c] rest := by
  obtain ⟨hname, hdigit, -, hplus, hminus, hquote, hquotes⟩ := facts_of_isLineBreak hbreak
  have hstart : isNameStart c = false := by
    rw [Bool.eq_false_iff]
    intro h
    rw [isNameChar_of_isNameStart h] at hname
    cases hname
  have hcomparison : isComparison c = false := by
    rw [Bool.eq_false_iff]
    intro h
    simp only [isComparison, Bool.or_eq_true, beq_iff_eq] at h
    rcases h with ((rfl | rfl) | rfl) | rfl <;> exact absurd hbreak (by decide)
  constructor
  · refine .symbol ?_
    simp [isSymbol, hspace, hstart, hdigit, hquote, hquotes]
  · intro rest d _ hgoes
    simp [GoesOn, isSign, hplus, hminus, hcomparison] at hgoes

/-- A text that is cut line by line lexes. No token has a line end in it, but the lexer
makes operators of the line ends that are no white space. -/
theorem LineByLine.exists_segmentation (h : LineByLine text) (offset : Nat) :
    ∃ tokens, Segmentation offset text tokens
      ∧ ∀ token ∈ tokens, ∀ c ∈ token.literal.toList, Text.isLineBreak c = true →
        token.kind = .operator ∧ isSpace c = false := by
  induction h generalizing offset with
  | nil => exact ⟨[], .nil, by simp⟩
  | @between c text hc _ ih =>
      cases hspace : isSpace c with
      | true =>
          obtain ⟨tokens, htokens, hbreaks⟩ := ih (offset + 1)
          exact ⟨tokens, .space hspace htokens, hbreaks⟩
      | false =>
          have hbreak := hc.resolve_left (by simp [hspace])
          obtain ⟨hclass, hends⟩ := tokenClass_of_isLineBreak hbreak hspace
          obtain ⟨tokens, htokens, hbreaks⟩ := ih (offset + 1)
          refine ⟨_, .token hclass (hends text) htokens, List.forall_mem_cons.mpr ⟨?_, hbreaks⟩⟩
          intro d hd _
          obtain rfl : d = c := by simpa using hd
          exact ⟨rfl, hspace⟩
  | @token kind literal text hclass hbreaks hends _ ih =>
      obtain ⟨tokens, htokens, hrest⟩ := ih (offset + literal.length)
      refine ⟨_, .token hclass hends htokens, List.forall_mem_cons.mpr ⟨?_, hrest⟩⟩
      intro d hd hbreak
      rw [String.toList_ofList] at hd
      rw [lineBreaks_eq_zero.mp hbreaks d hd] at hbreak
      cases hbreak

end PlcLang.Proofs
