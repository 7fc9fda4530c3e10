import PlcLang.Proofs.Diagnostics.Rendering

/-!
# `PlcLang.Proofs.Diagnostics.Alignment`: what stands below what

A label shows its line behind the number of the line and a bar, and in the next row the carets
behind blanks and a bar. The number is right-aligned to four places, and there are as many
blanks as that takes. So the carets begin below the place that they mark as long as the number
has no more than four digits (`caretsAligned_iff`). From line 10000 on the number is longer, and
they stand too far to the left, by one column for each digit beyond the fourth
(`index_eq_idxOf_add`).
-/

set_option autoImplicit false

namespace PlcLang

open Proofs

/-- The row shows the whole line that a place is on, and at `index` the character at the place,
or the end of the line if the place is there. -/
def Source.ShowsAt (source : Source) (place : Nat) (row : String) (index : Nat) : Prop :=
  ∃ before line after margin column, LineOf source.chars before line after
    ∧ place = before.length + column ∧ column ≤ line.length
    ∧ row.toList = margin ++ line ∧ index = margin.length + column

/-- Rendered without colours, the label has a row that shows its place, and below it a row of
carets, the first of which has the same index as the place. -/
def Label.CaretsAligned (severity : Severity) (source : Source) (label : Label) (place : Nat) :
    Prop :=
  ∃ arrow bar excerpt carets message index,
    label.render false severity (some source) = arrow :: bar :: excerpt :: carets :: message
      ∧ source.ShowsAt place excerpt index ∧ '^' ∈ carets.toList
      ∧ carets.toList.idxOf '^' = index

namespace Proofs

variable {source : Source} {place index : Nat} {row : String}

/-! ### Places in a row -/

/-- A place is shown at one index only. So the index by which alignment is judged is
not a matter of choice. -/
theorem showsAt_unique {other : Nat} (h : source.ShowsAt place row index)
    (h' : source.ShowsAt place row other) : index = other := by
  obtain ⟨before, line, after, margin, column, hline, hplace, hcolumn, hrow, rfl⟩ := h
  obtain ⟨before', line', after', margin', column', hline', hplace', hcolumn', hrow', rfl⟩ := h'
  -- The line and the column are those of the position, so the margins are the same too.
  have hposition := position_eq hline hcolumn
  rw [← hplace, hplace', position_eq hline' hcolumn', Position.mk.injEq] at hposition
  have hlineAt := lineAt_eq hline
  rw [← hposition.1, lineAt_eq hline', String.ofList_inj] at hlineAt
  rw [hrow, hlineAt] at hrow'
  have hmargin : margin = margin' := List.append_cancel_right hrow'
  rw [hmargin]
  omega

/-! ### Margins -/

/-- What is pushed is behind what was there. -/
theorem toList_pushn (text : String) (c : Char) (count : Nat) :
    (text.pushn c count).toList = text.toList ++ List.replicate count c := by
  induction count with
  | zero => rw [List.replicate_zero, List.append_nil]; rfl
  | succ count ih =>
      show ((text.pushn c count).push c).toList = _
      rw [String.toList_push, ih, List.replicate_succ', List.append_assoc]

/-- The first caret stands behind the margin and the blanks up to its column. -/
theorem idxOf_carets {margin : List Char} (hmargin : '^' ∉ margin) (column : Nat) {count : Nat}
    (hcount : 0 < count) :
    (margin ++ (List.replicate column ' ' ++ List.replicate count '^')).idxOf '^'
      = margin.length + column := by
  have hblank : '^' ∉ List.replicate column ' ' := by
    intro hmem
    exact absurd (List.eq_of_mem_replicate hmem) (by decide)
  obtain ⟨more, rfl⟩ := Nat.exists_eq_add_of_lt hcount
  rw [List.idxOf_append_of_notMem hmargin, List.idxOf_append_of_notMem hblank, Nat.zero_add,
    List.replicate_succ, List.idxOf_cons_self, List.length_replicate, Nat.add_zero]

/-! ### Rows of a label -/

section

variable {label : Label} {before line after : List Char} {column : Nat}
  (h : LineOf source.chars before line after) (hcolumn : column ≤ line.length)
  (hstart : label.span.start = ((before.length + column : Nat) : Int))

include h hcolumn hstart

/-- The row of the line and the row of the carets. Only the first of the margins depends on the
number of the line. -/
theorem exists_rows (severity : Severity) :
    ∃ arrow bar excerpt carets message,
      label.render false severity (some source) = arrow :: bar :: excerpt :: carets :: message
        ∧ excerpt.toList
          = ("  " ++ (Label.lineNumber (before.count '\n' + 1) ++ " |") ++ " ").toList ++ line
        ∧ carets.toList = "       | ".toList ++ (List.replicate column ' '
          ++ List.replicate (Label.caretCount source label.span) '^') := by
  unfold Label.render Label.carets
  dsimp only
  rw [hstart, position_eq h hcolumn]
  dsimp only
  rw [lineAt_eq h, Nat.add_sub_cancel]
  refine ⟨_, _, _, _, _, rfl, ?_, ?_⟩
  · rw [String.toList_append, String.toList_ofList]
    rfl
  · show ("  " ++ "     |" ++ " " ++ "".pushn ' ' column
      ++ "".pushn '^' (Label.caretCount source label.span)).toList = _
    rw [String.toList_append, String.toList_append, toList_pushn, toList_pushn, List.append_assoc]
    rfl

/-- The index of the place exceeds that of the first caret by the digits of the line's number
beyond the fourth. -/
theorem index_eq_idxOf_add (severity : Severity) :
    ∃ arrow bar excerpt carets message index,
      label.render false severity (some source) = arrow :: bar :: excerpt :: carets :: message
        ∧ source.ShowsAt (before.length + column) excerpt index ∧ '^' ∈ carets.toList
        ∧ index = carets.toList.idxOf '^' + ((toString (before.count '\n' + 1)).length - 4) := by
  obtain ⟨arrow, bar, excerpt, carets, message, hrows, hexcerpt, hcarets⟩ :=
    exists_rows h hcolumn hstart severity
  have hcount : 0 < Label.caretCount source label.span := by
    unfold Label.caretCount
    exact Nat.lt_of_lt_of_le Nat.one_pos (Nat.le_max_left _ _)
  have hmem : '^' ∈ carets.toList := by
    rw [hcarets]
    exact List.mem_append_right _ (List.mem_append_right _
      (List.mem_replicate.mpr ⟨Nat.ne_of_gt hcount, rfl⟩))
  refine ⟨arrow, bar, excerpt, carets, message, _, hrows,
    ⟨before, line, after, _, column, h, rfl, hcolumn, hexcerpt, rfl⟩, hmem, ?_⟩
  rw [hcarets, idxOf_carets (by decide) column hcount, String.length_toList, String.length_append,
    String.length_append, String.length_append, length_lineNumber_eq]
  show 2 + (max 4 (toString (before.count '\n' + 1)).length + 2) + 1 + column
    = 9 + column + ((toString (before.count '\n' + 1)).length - 4)
  omega

end

/-! ### Alignment -/

/-- The rows of a label stand next to each other in what is rendered, whatever other
labels there are. -/
theorem exists_render_eq {d : Diagnostic} {label : Label} (hlabel : label ∈ d.labels)
    (sources : String → Option Source) :
    ∃ above below, d.render false sources = "\n".intercalate
      (above ++ label.render false d.severity (sources label.span.file) ++ below) := by
  obtain ⟨front, back, hlabels⟩ := List.append_of_mem hlabel
  let rows (label : Label) := label.render false d.severity (sources label.span.file)
  refine ⟨d.header false :: front.flatMap rows,
    back.flatMap rows ++ d.notes.map (Diagnostic.renderNote false), ?_⟩
  unfold Diagnostic.render
  rw [hlabels]
  simp [rows]

/-- **The carets of a label are aligned up to line 9999.** Where the span of a label begins in
the text or at its end, the rendered diagnostic has the rows of the label, and the first caret
stands below the place if and only if the number of its line has no more than four digits. -/
theorem caretsAligned_iff {d : Diagnostic} {label : Label} {sources : String → Option Source}
    (hlabel : label ∈ d.labels) (hsource : sources label.span.file = some source)
    (hstart : label.span.start = (place : Int)) (hinside : place ≤ source.chars.length) :
    (∃ above below, d.render false sources = "\n".intercalate
        (above ++ label.render false d.severity (some source) ++ below))
      ∧ (label.CaretsAligned d.severity source place ↔ (source.position place).line < 10000) := by
  refine ⟨hsource ▸ exists_render_eq hlabel sources, ?_⟩
  obtain ⟨before, line, after, hline, hbefore, hbehind⟩ := exists_lineOf hinside
  obtain ⟨column, rfl⟩ := Nat.exists_eq_add_of_le hbefore
  have hcolumn : column ≤ line.length := by omega
  obtain ⟨arrow, bar, excerpt, carets, message, index, hrows, hshows, hmem, hindex⟩ :=
    index_eq_idxOf_add hline hcolumn hstart d.severity
  rw [position_eq hline hcolumn]
  dsimp only
  rw [← length_toString_le_iff]
  constructor
  · rintro ⟨arrow', bar', excerpt', carets', message', index', hrows', hshows', -, hindex'⟩
    rw [hrows] at hrows'
    obtain ⟨rfl, rfl, rfl, rfl, rfl⟩ := by simpa only [List.cons.injEq] using hrows'
    have hsame := showsAt_unique hshows hshows'
    omega
  · intro hdigits
    exact ⟨arrow, bar, excerpt, carets, message, index, hrows, hshows, hmem, by omega⟩

/-- So it is behind a carriage return, which ends no line but is a character of its
row. -/
theorem caretsAligned_after_return :
    let label : Label := ⟨⟨"cr.plc", 2, 3⟩, ""⟩
    let d : Diagnostic := ⟨.error, "E200", "expected ';'", [label], []⟩
    let source : Source := ⟨"cr.plc", "a\rb\nc"⟩
    label ∈ d.labels ∧ label.span.start = (2 : Nat) ∧ 2 ≤ source.chars.length
      ∧ label.CaretsAligned d.severity source 2 := by
  intro label d source
  have hlabel : label ∈ d.labels := List.mem_singleton.mpr rfl
  have hinside : 2 ≤ source.chars.length := by decide
  have hline : (source.position (2 : Nat)).line < 10000 := by decide
  let sources : String → Option Source := fun _ => some source
  have hsource : sources label.span.file = some source := rfl
  have haligned := caretsAligned_iff hlabel hsource rfl hinside
  exact ⟨hlabel, rfl, hinside, haligned.2.mpr hline⟩

/-- On line 10000 they are not: the number of the line takes a fifth place, and the
row of the carets does not make room for it. -/
theorem not_caretsAligned_of_five_digits :
    let label : Label := ⟨⟨"long.plc", 9999, 10000⟩, ""⟩
    let d : Diagnostic := ⟨.error, "E100", "unexpected character", [label], []⟩
    let source : Source := ⟨"long.plc", String.ofList (List.replicate 9999 '\n' ++ ['x'])⟩
    label ∈ d.labels ∧ label.span.start = (9999 : Nat) ∧ 9999 ≤ source.chars.length
      ∧ ¬ label.CaretsAligned d.severity source 9999 := by
  intro label d source
  have hchars : source.chars = List.replicate 9999 '\n' ++ (['x'] ++ []) := String.toList_ofList
  have hline : LineOf source.chars (List.replicate 9999 '\n') ['x'] [] :=
    ⟨hchars, by decide, fun c hc => List.eq_of_mem_replicate (List.mem_of_getLast? hc), by simp⟩
  have hposition : source.position ((9999 : Nat) : Int) = ⟨10000, 1⟩ := by
    have hplace := position_eq hline (Nat.zero_le _)
    rwa [List.length_replicate, List.count_replicate_self] at hplace
  have hinside : 9999 ≤ source.chars.length := by
    rw [hchars, List.length_append, List.length_replicate]
    omega
  have hlabel : label ∈ d.labels := List.mem_singleton.mpr rfl
  let sources : String → Option Source := fun _ => some source
  have hsource : sources label.span.file = some source := rfl
  have haligned := caretsAligned_iff hlabel hsource rfl hinside
  refine ⟨hlabel, rfl, hinside, fun h => ?_⟩
  have hfew := haligned.2.mp h
  rw [hposition] at hfew
  exact absurd hfew (by decide)

end Proofs

end PlcLang
