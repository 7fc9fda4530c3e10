import PlcLang.Proofs.Lexical.Segmentation
import PlcLang.Proofs.Printing.Breaks

/-!
# `PlcLang.Proofs.Layout.Margins`: indenting one character at a time

`Text.indent` cuts a text into lines, puts a margin before those that are not empty and
joins them with newlines. `shift` does the same in one pass over the characters, and only
has to know where in its line it is (`Place`). The two agree but for a newline at the end
(`shift_eq_indent`).

What is done to a piece of the text depends on the piece: white space stays white space
(`exists_shift_space`), and a token without line ends stays as it is, with white space in
front of it or nothing (`exists_shift_token`).
-/

set_option autoImplicit false

namespace PlcLang.Proofs

open Lexer

/-! ### Indenting one character at a time -/

/-- Where in its line a character stands: at the begin, at the begin behind a carriage
return, or further inside. -/
inductive Place where
  | fresh
  | returned
  | inside
  deriving DecidableEq

namespace Place

/-- What is put in front of a character at this place: the margin at the begin of a
line, and nothing further inside. -/
def lead (margin : List Char) : Place → List Char
  | fresh | returned => margin
  | inside => []

/-- The place behind a line end. A carriage return is apart, as a newline behind it
belongs to it. -/
def behind (c : Char) : Place :=
  if c = '\r' then returned else fresh

/-- Nothing but the margin is put in front of a character. -/
theorem mem_margin {margin : List Char} {place : Place} {c : Char} (h : c ∈ place.lead margin) :
    c ∈ margin := by
  cases place with
  | fresh | returned => exact h
  | inside => cases h

end Place

/-- The text with a newline for each line end and the margin before each line that is not
empty. A newline behind a carriage return belongs to it. -/
def shift (margin : List Char) : Place → List Char → List Char
  | _, [] => []
  | place, c :: rest =>
    if Text.isLineBreak c then
      if c = '\n' ∧ place = .returned then shift margin .fresh rest
      else '\n' :: shift margin (.behind c) rest
    else place.lead margin ++ c :: shift margin .inside rest

variable {margin text word : List Char} {place : Place} {c : Char}

/-- A line end becomes a newline, except a newline behind a carriage return. -/
theorem shift_break (hc : Text.isLineBreak c = true) (hplace : place ≠ .returned)
    (rest : List Char) :
    shift margin place (c :: rest) = '\n' :: shift margin (.behind c) rest := by
  rw [shift, if_pos hc, if_neg fun h => hplace h.2]

/-- A line end leaves a newline or nothing, wherever it stands. -/
theorem exists_shift_break (hc : Text.isLineBreak c = true) (margin : List Char) (place : Place)
    (rest : List Char) :
    ∃ ending, (ending = [] ∨ ending = ['\n'])
      ∧ shift margin place (c :: rest) = ending ++ shift margin (.behind c) rest := by
  rw [shift, if_pos hc]
  split
  · next h =>
      rw [h.1]
      exact ⟨[], .inl rfl, rfl⟩
  · exact ⟨['\n'], .inr rfl, rfl⟩

/-- Any other character stays, with the margin in front of it at the begin of a
line. -/
theorem shift_char (hc : Text.isLineBreak c = false) (margin : List Char) (place : Place)
    (rest : List Char) :
    shift margin place (c :: rest) = place.lead margin ++ c :: shift margin .inside rest := by
  rw [shift, if_neg (by simp [hc])]

/-- Without a newline behind it, a carriage return is a line end like the others. -/
theorem shift_returned (h : ∀ c ∈ text.head?, c ≠ '\n') :
    shift margin .returned text = shift margin .fresh text := by
  cases text with
  | nil => rfl
  | cons c rest =>
      have hc : c ≠ '\n' := h c rfl
      simp only [shift, hc, false_and, if_false, Place.lead]

/-- A line with the margin before it, if it is not empty. -/
def marginal (margin line : List Char) : List Char :=
  if line.isEmpty then [] else margin ++ line

/-- The lines that are cut, each with the margin before it, are the text that is
indented one character at a time. -/
theorem terminated_cutLines (margin text before : List Char)
    (hbefore : ∀ c ∈ before, Text.isLineBreak c = false) :
    ∃ tail, (tail = [] ∨ tail = ['\n'])
      ∧ terminated ((Text.cutLines text before).map fun line =>
          marginal margin (line.takeWhile (!Text.isLineBreak ·)))
        = marginal margin before.reverse
          ++ (shift margin (if before.isEmpty then .fresh else .inside) text ++ tail) := by
  have hreverse {line : List Char} (h : ∀ c ∈ line, Text.isLineBreak c = false) :
      ∀ c ∈ line.reverse, Text.isLineBreak c = false := by
    simpa using h
  -- What has been read of the line stands in `before`, so the induction goes along the cuts.
  induction text, before using Text.cutLines.induct with
  | case1 => exact ⟨[], .inl rfl, rfl⟩
  | case2 line hne =>
      have htake := takeWhile_line (hreverse hbefore) [] (by simp)
      rw [List.append_nil] at htake
      refine ⟨['\n'], .inr rfl, ?_⟩
      rw [Text.cutLines, List.map_singleton, htake, terminated_cons, terminated_nil, shift,
        List.nil_append]
      exact hne
  | case3 rest line ih =>
      -- A newline behind a carriage return ends no line of its own.
      obtain ⟨tail, htail, hrest⟩ := ih (by simp)
      have htake := takeWhile_line (hreverse hbefore) ['\r', '\n'] (by simp [Text.isLineBreak])
      have hplace : (if line.isEmpty then Place.fresh else .inside) ≠ .returned := by
        split <;> simp
      have hcut : ('\n' :: '\r' :: line).reverse = line.reverse ++ ['\r', '\n'] := by simp
      refine ⟨tail, htail, ?_⟩
      rw [Text.cutLines, List.map_cons, hcut, htake, terminated_cons, hrest,
        shift_break (by decide) hplace]
      rfl
  | case4 c rest line hpair hc ih =>
      obtain ⟨tail, htail, hrest⟩ := ih (by simp)
      have htake := takeWhile_line (hreverse hbefore) [c] (by simpa using hc)
      have hplace : (if line.isEmpty then Place.fresh else .inside) ≠ .returned := by
        split <;> simp
      -- This is no such pair, so a carriage return is a line end like the others.
      have hbehind : shift margin (.behind c) rest = shift margin .fresh rest := by
        rw [Place.behind]
        split
        · next h =>
            refine shift_returned fun d hd hnewline => ?_
            cases rest with
            | nil => cases hd
            | cons e more =>
                obtain rfl : e = d := by simpa using hd
                exact hpair more h (by rw [hnewline])
        · rfl
      refine ⟨tail, htail, ?_⟩
      rw [Text.cutLines, if_pos hc, List.map_cons, List.reverse_cons, htake, terminated_cons,
        hrest, shift_break hc hplace, hbehind]
      · rfl
      · exact hpair
  | case5 c rest line hpair hc ih =>
      have hc : Text.isLineBreak c = false := by simpa using hc
      obtain ⟨tail, htail, hrest⟩ := ih (List.forall_mem_cons.mpr ⟨hc, hbefore⟩)
      refine ⟨tail, htail, ?_⟩
      rw [Text.cutLines, if_neg (by simp [hc]), hrest, shift_char hc]
      · cases line with
        | nil => simp [marginal, Place.lead]
        | cons d more => simp [marginal, Place.lead]
      · exact hpair

/-- The line of `Text.indent` is that of `marginal`, as a list of characters. -/
theorem toList_marginal (margin line : List Char) :
    (if (String.ofList line).isEmpty then String.ofList line
      else String.ofList margin ++ String.ofList line).toList = marginal margin line := by
  cases line <;> simp [marginal]

/-- Indenting a text is indenting it one character at a time, but for a newline at its
end. -/
theorem shift_eq_indent (text : String) (levels : Nat) :
    ∃ tail, (tail = [] ∨ tail = ['\n'])
      ∧ shift (List.replicate (4 * levels) ' ') .fresh text.toList
        = (Text.indent text levels).toList ++ tail := by
  let margin := List.replicate (4 * levels) ' '
  let parts := (Text.lines text).map fun line =>
    if line.isEmpty then line else String.ofList margin ++ line
  have hindent : Text.indent text levels = "\n".intercalate parts := rfl
  have hparts : parts.map String.toList = (Text.cutLines text.toList []).map fun line =>
      marginal margin (line.takeWhile (!Text.isLineBreak ·)) := by
    simp only [parts, Text.lines, List.map_map]
    exact List.map_congr_left fun line _ => toList_marginal margin _
  obtain ⟨tail, htail, hcut⟩ := terminated_cutLines margin text.toList [] (by simp)
  have hwhole : terminated (parts.map String.toList) = shift margin .fresh text.toList ++ tail := by
    rw [hparts]
    exact hcut
  rw [hindent]
  rcases List.eq_nil_or_concat parts with hnil | ⟨front, last, hparts⟩
  · -- No lines are joined to no text, which has no newline at its end.
    rw [hnil, List.map_nil, terminated_nil] at hwhole
    obtain ⟨hshift, -⟩ := List.append_eq_nil_iff.mp hwhole.symm
    exact ⟨[], .inl rfl, by rw [hshift, hnil]; rfl⟩
  · have hne : parts ≠ [] := by simp [hparts]
    rw [← intercalate_append_newline hne] at hwhole
    rcases htail with rfl | rfl
    · exact ⟨['\n'], .inr rfl, by rw [hwhole, List.append_nil]⟩
    · exact ⟨[], .inl rfl, by rw [List.append_nil, List.append_cancel_right hwhole]⟩

/-! ### Pieces of indented texts -/

/-- What is indented has no line ends but newlines. -/
theorem eq_newline_of_mem_shift (hmargin : ∀ d ∈ margin, Text.isLineBreak d = false)
    (hc : c ∈ shift margin place text) (hbreak : Text.isLineBreak c = true) : c = '\n' := by
  induction text generalizing place with
  | nil => cases hc
  | cons d rest ih =>
      cases hd : Text.isLineBreak d with
      | true =>
          obtain ⟨ending, hending, hshift⟩ := exists_shift_break hd margin place rest
          rw [hshift, List.mem_append] at hc
          rcases hc with hc | hc
          · rcases hending with rfl | rfl
            · cases hc
            · exact List.mem_singleton.mp hc
          · exact ih hc
      | false =>
          rw [shift_char hd, List.mem_append, List.mem_cons] at hc
          rcases hc with hc | rfl | hc
          · rw [hmargin c (Place.mem_margin hc)] at hbreak
            cases hbreak
          · rw [hd] at hbreak
            cases hbreak
          · exact ih hc

/-- White space stays white space: it becomes white space or nothing. -/
theorem exists_shift_space (hmargin : ∀ d ∈ margin, isSpace d = true) (hc : isSpace c = true)
    (place : Place) (rest : List Char) :
    ∃ gap next, (∀ d ∈ gap, isSpace d = true)
      ∧ shift margin place (c :: rest) = gap ++ shift margin next rest := by
  cases hbreak : Text.isLineBreak c with
  | true =>
      obtain ⟨ending, hending, hshift⟩ := exists_shift_break hbreak margin place rest
      refine ⟨ending, _, ?_, hshift⟩
      rcases hending with rfl | rfl <;> simp [isSpace]
  | false =>
      refine ⟨place.lead margin ++ [c], .inside, ?_, by simp [shift_char hbreak]⟩
      intro d hd
      rcases List.mem_append.mp hd with hd | hd
      · exact hmargin d (Place.mem_margin hd)
      · rwa [List.mem_singleton.mp hd]

/-- A place where nothing is put in front of the next character. It is inside of a
line, or anywhere else where there is no margin; behind a carriage return a newline
would be taken away. -/
def Place.Open (margin : List Char) (place : Place) : Prop :=
  place ≠ .returned ∧ place.lead margin = []

/-- Inside of a line nothing is put in front of a character. -/
theorem open_inside (margin : List Char) : Place.inside.Open margin :=
  ⟨by decide, rfl⟩

/-- A word stays as it is if it has no line ends, or newlines only where there is no
margin. -/
theorem exists_shift_append (hplace : place.Open margin)
    (hword : ∀ c ∈ word, Text.isLineBreak c = true → c = '\n' ∧ margin = [])
    (rest : List Char) :
    ∃ next, next.Open margin ∧
      shift margin place (word ++ rest) = word ++ shift margin next rest := by
  induction word generalizing place with
  | nil => exact ⟨place, hplace, rfl⟩
  | cons c more ih =>
      obtain ⟨hc, hmore⟩ := List.forall_mem_cons.mp hword
      cases hbreak : Text.isLineBreak c with
      | true =>
          obtain ⟨rfl, rfl⟩ := hc hbreak
          have hbehind : (Place.behind '\n').Open [] := ⟨by decide, rfl⟩
          obtain ⟨next, hnext, hshift⟩ := ih hbehind hmore
          refine ⟨next, hnext, ?_⟩
          rw [List.cons_append, shift_break hbreak hplace.1, hshift, List.cons_append]
      | false =>
          obtain ⟨next, hnext, hshift⟩ := ih (open_inside margin) hmore
          refine ⟨next, hnext, ?_⟩
          rw [List.cons_append, shift_char hbreak, hplace.2, hshift, List.nil_append,
            List.cons_append]

/-- A token does not begin with a newline. So if it may have newlines only, it
begins with no line end. -/
theorem TokenClass.isLineBreak_head {kind : TokenKind} {more : List Char}
    (h : TokenClass kind (c :: more)) (hc : Text.isLineBreak c = true → c = '\n') :
    Text.isLineBreak c = false := by
  rw [Bool.eq_false_iff]
  intro hbreak
  have hspace := h.isSpace_head
  rw [hc hbreak] at hspace
  exact absurd hspace (by decide)

/-- A token stays as it is, with nothing or a margin before it. -/
theorem exists_shift_token {kind : TokenKind} {literal : List Char}
    (hclass : TokenClass kind literal) (hmargin : ∀ d ∈ margin, isSpace d = true)
    (hliteral : ∀ c ∈ literal, Text.isLineBreak c = true → c = '\n' ∧ margin = [])
    (place : Place) (rest : List Char) :
    ∃ gap next, (∀ d ∈ gap, isSpace d = true) ∧ next.Open margin
      ∧ shift margin place (literal ++ rest) = gap ++ (literal ++ shift margin next rest) := by
  obtain ⟨c, more, rfl⟩ := List.exists_cons_of_ne_nil hclass.ne_nil
  obtain ⟨hc, hmore⟩ := List.forall_mem_cons.mp hliteral
  have hbreak := hclass.isLineBreak_head fun h => (hc h).1
  obtain ⟨next, hnext, hshift⟩ := exists_shift_append (open_inside margin) hmore rest
  refine ⟨place.lead margin, next, fun d hd => hmargin d (Place.mem_margin hd), hnext, ?_⟩
  rw [List.cons_append, shift_char hbreak, hshift, List.cons_append]

/-- No token goes on with a line end. -/
theorem ends_of_isLineBreak {kind : TokenKind} {literal : List Char}
    (hc : Text.isLineBreak c = true) (rest : List Char) : Ends kind literal (c :: rest) := by
  intro d hd
  obtain rfl : c = d := by simpa using hd
  obtain ⟨hname, -, hpoint, -, -, -, -⟩ := facts_of_isLineBreak hc
  refine not_goesOn hname (fun _ => hpoint) ?_
  rintro rfl
  exact absurd hc (by decide)

/-- A token that ends before a text ends before the front part of it. -/
theorem Ends.left {kind : TokenKind} {literal other : List Char}
    (h : Ends kind literal (text ++ other)) : Ends kind literal text := by
  cases text with
  | nil => simp [Ends]
  | cons => exact h

/-- A token that ends before a text ends there when a line end is put behind the
text. -/
theorem Ends.append_break {kind : TokenKind} {literal : List Char} (h : Ends kind literal text)
    (hc : Text.isLineBreak c = true) (rest : List Char) :
    Ends kind literal (text ++ c :: rest) := by
  cases text with
  | nil => exact ends_of_isLineBreak hc rest
  | cons => exact h

/-- A token ends before an indented text exactly if it ends before the text: the
next character is the same, or both are line ends. -/
theorem ends_shift_iff {kind : TokenKind} {literal : List Char} (hplace : place.Open margin) :
    Ends kind literal (shift margin place text) ↔ Ends kind literal text := by
  cases text with
  | nil => exact Iff.rfl
  | cons c rest =>
      cases hc : Text.isLineBreak c with
      | true =>
          rw [shift_break hc hplace.1]
          exact iff_of_true (ends_of_isLineBreak (by decide) _) (ends_of_isLineBreak hc _)
      | false => rw [shift_char hc, hplace.2]; exact Iff.rfl

end PlcLang.Proofs
