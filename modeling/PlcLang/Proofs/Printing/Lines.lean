import PlcLang.Syntax.Printer

/-!
# `PlcLang.Proofs.Printing.Lines`: indenting text line by line

The printer indents the text of a block by cutting it into lines and joining
them again. Here a text is given by its lines: `terminated lines` is the text
with a newline behind each of them. Where no line is empty and none has a
character that ends a line, cutting finds the lines again, and indenting puts
four spaces before each (`indent_eq`).

Whatever the text is, no character that ends a line survives the indenting but
the newlines that join the lines (`eq_newline_of_mem_indent`).
-/

set_option autoImplicit false

namespace PlcLang.Proofs

/-- The lines, each with a newline behind it. -/
def terminated (lines : List (List Char)) : List Char :=
  lines.flatMap (· ++ ['\n'])

/-- No lines are no text. -/
@[simp] theorem terminated_nil : terminated [] = [] := rfl

/-- The first line comes first, with its newline. -/
@[simp] theorem terminated_cons (line : List Char) (rest : List (List Char)) :
    terminated (line :: rest) = line ++ '\n' :: terminated rest := by
  simp [terminated]

/-- More lines come behind the first ones. -/
@[simp] theorem terminated_append (lines others : List (List Char)) :
    terminated (lines ++ others) = terminated lines ++ terminated others := by
  simp [terminated]

/-- A line that is not empty and does not end before its end. -/
structure IsLine (line : List Char) : Prop where
  ne_nil : line ≠ []
  unbroken : ∀ c ∈ line, Text.isLineBreak c = false

/-- Lines joined by newlines are terminated lines but for the last newline. -/
theorem intercalate_append_newline {parts : List String} (h : parts ≠ []) :
    ("\n".intercalate parts).toList ++ ['\n'] = terminated (parts.map String.toList) := by
  induction parts with
  | nil => exact absurd rfl h
  | cons part rest ih =>
      -- Nothing is put behind the last part, so joining looks at two parts at a
      -- time.
      cases rest with
      | nil => simp
      | cons next more =>
          have hrest := ih (by simp)
          rw [String.intercalate_cons_cons, String.toList_append, String.toList_append,
            List.append_assoc, List.append_assoc, hrest]
          simp

/-! ### Cutting -/

/-- Characters that end no line are read into the line. -/
theorem cutLines_append {line : List Char} (h : ∀ c ∈ line, Text.isLineBreak c = false)
    (rest before : List Char) :
    Text.cutLines (line ++ rest) before = Text.cutLines rest (line.reverse ++ before) := by
  induction line generalizing before with
  | nil => rfl
  | cons c more ih =>
      have hc := h c (by simp)
      have hreturn : c ≠ '\r' := by
        rintro rfl
        exact absurd hc (by decide)
      rw [List.cons_append, Text.cutLines, if_neg (by simp [hc]),
        ih (fun d hd => h d (by simp [hd])), List.reverse_cons, List.append_assoc,
        List.singleton_append]
      -- The arm of `cutLines` for a return and a newline comes first.
      intro _ hr
      exact absurd hr hreturn

/-- A newline ends the line, and belongs to it. -/
theorem cutLines_newline (rest before : List Char) :
    Text.cutLines ('\n' :: rest) before = ('\n' :: before).reverse :: Text.cutLines rest [] := by
  rw [Text.cutLines]
  · rfl
  · intro _ h
    exact absurd h (by decide)

/-- The line of a cut line is what stands before its end. -/
theorem takeWhile_line {line : List Char} (h : ∀ c ∈ line, Text.isLineBreak c = false)
    (ending : List Char) (hending : ∀ c ∈ ending.head?, Text.isLineBreak c = true) :
    (line ++ ending).takeWhile (!Text.isLineBreak ·) = line := by
  rw [List.takeWhile_append_of_pos fun c hc => by simp [h c hc]]
  cases ending with
  | nil => simp
  | cons c more => simp [hending c (by simp)]

/-- Cutting a text that is given by lines finds the lines. -/
theorem cutLines_eq {lines : List (List Char)} (hlines : ∀ line ∈ lines, IsLine line)
    {text : List Char} (h : text ++ ['\n'] = terminated lines) :
    (Text.cutLines text []).map (List.takeWhile (!Text.isLineBreak ·)) = lines := by
  induction lines generalizing text with
  | nil => simp at h
  | cons line rest ih =>
      have hline := hlines line (by simp)
      -- The text has no newline at its end. On the last line it ends without one,
      -- and before other lines it is theirs that is missing.
      rcases List.eq_nil_or_concat (terminated rest) with hrest | ⟨behind, last, hrest⟩
      · obtain rfl : rest = [] := by
          cases rest with
          | nil => rfl
          | cons => simp at hrest
        obtain rfl : text = line := by simpa using h
        have hcut : Text.cutLines text [] = [text] := by
          have happend := cutLines_append hline.unbroken [] []
          rw [List.append_nil, List.append_nil] at happend
          obtain ⟨c, more, hreverse⟩ :=
            List.exists_cons_of_ne_nil (mt List.reverse_eq_nil_iff.mp hline.ne_nil)
          rw [happend, hreverse, Text.cutLines, ← hreverse, List.reverse_reverse]
          simp
        have htake := takeWhile_line hline.unbroken [] (by simp)
        rw [List.append_nil] at htake
        rw [hcut, List.map_singleton, htake]
      · rw [List.concat_eq_append] at hrest
        obtain ⟨htext, rfl⟩ : text = line ++ '\n' :: behind ∧ '\n' = last := by
          rw [terminated_cons, hrest, ← List.cons_append, ← List.append_assoc] at h
          have hsplit := List.append_inj' h rfl
          exact ⟨hsplit.1, by simpa using hsplit.2⟩
        have hmore := ih (fun line hl => hlines line (by simp [hl])) hrest.symm
        rw [htext, cutLines_append hline.unbroken, cutLines_newline, List.map_cons, hmore]
        congr 1
        rw [List.append_nil, List.reverse_cons, List.reverse_reverse]
        exact takeWhile_line hline.unbroken ['\n'] (by simp [Text.isLineBreak])

/-! ### Indenting -/

/-- Lines with so many spaces before each. -/
def indented (margin : Nat) (lines : List (List Char)) : List (List Char) :=
  lines.map (List.replicate margin ' ' ++ ·)

/-- Indenting a text that is given by lines puts four spaces before each line. -/
theorem indent_eq {text : String} {lines : List (List Char)}
    (hlines : ∀ line ∈ lines, IsLine line) (h : text.toList ++ ['\n'] = terminated lines) :
    (Text.indent text 1).toList ++ ['\n'] = terminated (indented 4 lines) := by
  have hcut : Text.lines text = lines.map String.ofList := by
    rw [Text.lines, ← cutLines_eq hlines h, List.map_map]
    rfl
  have hne : lines ≠ [] := by
    rintro rfl
    simp at h
  have hmargin : (lines.map String.ofList).map
        (fun line => if line.isEmpty then line
          else String.ofList (List.replicate (4 * 1) ' ') ++ line)
      = (indented 4 lines).map String.ofList := by
    rw [List.map_map, indented, List.map_map]
    refine List.map_congr_left fun line hline => ?_
    -- Empty lines are not indented, which is why a line must not be empty.
    have hnonempty : (String.ofList line).isEmpty = false := by
      rw [Bool.eq_false_iff]
      intro hempty
      have hnil := String.isEmpty_iff.mp hempty
      exact (hlines line hline).ne_nil (by simpa using congrArg String.toList hnil)
    simp only [Function.comp, hnonempty]
    exact String.ofList_append.symm
  rw [Text.indent, hcut, hmargin, intercalate_append_newline, List.map_map]
  · congr 1
    have hid : String.toList ∘ String.ofList = id := funext fun l => String.toList_ofList
    rw [hid, List.map_id]
  · rw [indented]
    simpa using hne

/-- A character of joined texts is one of a text or one between them. -/
theorem mem_intercalate {separator : String} {parts : List String} {c : Char}
    (h : c ∈ (separator.intercalate parts).toList) :
    c ∈ separator.toList ∨ ∃ part ∈ parts, c ∈ part.toList := by
  induction parts with
  | nil => simp at h
  | cons part rest ih =>
      cases rest with
      | nil => exact .inr ⟨part, by simp, by simpa using h⟩
      | cons next more =>
          rw [String.intercalate_cons_cons, String.toList_append, String.toList_append,
            List.mem_append, List.mem_append] at h
          rcases h with (h | h) | h
          · exact .inr ⟨part, by simp, h⟩
          · exact .inl h
          · rcases ih h with h | ⟨other, hmem, h⟩
            · exact .inl h
            · exact .inr ⟨other, by simp [hmem], h⟩

/-- What is indented has no line ends but newlines. -/
theorem eq_newline_of_mem_indent {text : String} {levels : Nat} {c : Char}
    (hc : c ∈ (Text.indent text levels).toList) (hbreak : Text.isLineBreak c = true) :
    c = '\n' := by
  have hline : ∀ line ∈ Text.lines text, c ∉ line.toList := by
    intro line hline hmem
    obtain ⟨cut, -, rfl⟩ := List.mem_map.mp hline
    rw [String.toList_ofList] at hmem
    have hnot := List.all_eq_true.mp List.all_takeWhile c hmem
    rw [hbreak] at hnot
    exact absurd hnot (by decide)
  have hspace : c ∉ List.replicate (4 * levels) ' ' := by
    intro hmem
    rw [(List.mem_replicate.mp hmem).2] at hbreak
    exact absurd hbreak (by decide)
  rcases mem_intercalate hc with hnewline | ⟨part, hpart, hmem⟩
  · simpa using hnewline
  · obtain ⟨line, hin, rfl⟩ := List.mem_map.mp hpart
    split at hmem
    · exact absurd hmem (hline line hin)
    · rw [String.toList_append, String.toList_ofList, List.mem_append] at hmem
      exact (hmem.elim hspace (hline line hin)).elim

end PlcLang.Proofs
