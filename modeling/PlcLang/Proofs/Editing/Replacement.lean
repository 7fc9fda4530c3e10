import PlcLang.Proofs.Editing.Histories

/-!
# `PlcLang.Proofs.Editing.Replacement`: an edit from the first character to the last

An editor has its own rules for where a position is. Its lines end at `\n`, `\r\n` and `\r`
and nowhere else, and behind the last of these there is one more line, which may be empty. A
position beyond the end of its line counts as the end of the line, and one beyond the last
line as the end of the text. Characters are counted in one of three encodings.
`EditorPosition.offset` and `TextEdit.apply` are these rules.

`Document.formatEdit?` does not go by them: it counts the lines of `Text.lines`, which end at
more characters, and among which there is no empty one at the end. What saves it is
`flatten_drop_editorLines`: behind as many lines as `Text.lines` finds, an editor has no more
characters. So the edit covers the document from its beginning to its end, and makes the
canonical text of it (`formatEdit_replaces_document`).
-/

set_option autoImplicit false

namespace PlcLang

/-- The encoding in whose units an editor counts characters. An editor and a server
agree on one. -/
inductive Encoding where
  | utf8
  | utf16
  | utf32
deriving DecidableEq, Repr

namespace Encoding

/-- How many units a character takes in an encoding. -/
def units : Encoding → Char → Nat
  | utf8, c => c.utf8Size
  | utf16, c => if c.toNat < 0x10000 then 1 else 2
  | utf32, _ => 1

/-- How many of the characters fit into a number of units. A character that does not
fit as a whole is left out, and so is all that is behind it. -/
def fitting (encoding : Encoding) : Nat → List Char → Nat
  | _, [] => 0
  | room, c :: rest =>
    if encoding.units c ≤ room then encoding.fitting (room - encoding.units c) rest + 1 else 0

/-- Every character takes some room. -/
theorem units_pos (encoding : Encoding) (c : Char) : 0 < encoding.units c := by
  cases encoding with
  | utf8 => exact c.utf8Size_pos
  | utf16 =>
      show 0 < if c.toNat < 0x10000 then 1 else 2
      split <;> omega
  | utf32 => exact Nat.one_pos

end Encoding

/-- Whether a character ends a line of an editor, by itself or with a newline behind
it. -/
def endsEditorLine (c : Char) : Bool :=
  c == '\n' || c == '\r'

/-- The lines of an editor, each with the characters that end it. Nothing ends the
last one. -/
def editorLines : List Char → List (List Char)
  | [] => [[]]
  | '\r' :: '\n' :: rest => ['\r', '\n'] :: editorLines rest
  | c :: rest =>
    if endsEditorLine c then [c] :: editorLines rest
    else (editorLines rest).modifyHead (c :: ·)

/-- How many characters of a text are in front of a position. A line that is not
there is behind the text, and a column that is not there at the end of its line. -/
def EditorPosition.offset (encoding : Encoding) (text : List Char) (position : EditorPosition) :
    Nat :=
  match (editorLines text)[position.line]? with
  | none => text.length
  | some line =>
    ((editorLines text).take position.line).flatten.length
      + encoding.fitting position.character (line.takeWhile (!endsEditorLine ·))

/-- The text with the range of the edit replaced, as an editor does it. -/
def TextEdit.apply (encoding : Encoding) (edit : TextEdit) (text : String) : String :=
  let start := edit.range.start.offset encoding text.toList
  let stop := edit.range.stop.offset encoding text.toList
  String.ofList (text.toList.take start) ++ edit.newText ++ String.ofList (text.toList.drop stop)

namespace Proofs

/-! ### Lines of an editor -/

/-- An editor always has a line, be it empty. -/
theorem editorLines_ne_nil (text : List Char) : editorLines text ≠ [] := by
  induction text using editorLines.induct with
  | case1 => simp [editorLines]
  | case2 => simp [editorLines]
  | case3 c rest hpair hc => simp [editorLines, hc]
  | case4 c rest hpair hc ih => simp [editorLines, hc, ih]

/-- No character is lost between the lines. -/
theorem flatten_editorLines (text : List Char) : (editorLines text).flatten = text := by
  induction text using editorLines.induct with
  | case1 => simp [editorLines]
  | case2 rest ih => simp [editorLines, ih]
  | case3 c rest hpair hc ih => simp [editorLines, hc, ih]
  | case4 c rest hpair hc ih =>
      obtain ⟨line, more, hlines⟩ := List.exists_cons_of_ne_nil (editorLines_ne_nil rest)
      rw [hlines] at ih
      simpa [editorLines, hc, hlines] using ih

/-- What has been read of a line is part of some line in the end. -/
theorem cutLines_ne_nil (text : List Char) {line : List Char} (h : line ≠ []) :
    Text.cutLines text line ≠ [] := by
  induction text, line using Text.cutLines.induct with
  | case1 => exact absurd rfl h
  | case2 line hne => simp [Text.cutLines]
  | case3 rest line => simp [Text.cutLines]
  | case4 c rest line hpair hc => simp [Text.cutLines, hc]
  | case5 c rest line hpair hc ih => simpa [Text.cutLines, hc] using ih

/-- Behind as many lines as are cut at all the line ends that there are, an editor has no more
characters, whatever has been read of the first line. -/
theorem flatten_drop_editorLines (text line : List Char) :
    ((editorLines text).drop (Text.cutLines text line).length).flatten = [] := by
  have hfewer {lines : List (List Char)} (h : lines.flatten = []) (count : Nat) :
      (lines.drop count).flatten = [] := by
    rw [List.flatten_eq_nil_iff] at h ⊢
    exact fun other hother => h other (List.mem_of_mem_drop hother)
  induction text, line using Text.cutLines.induct with
  | case1 => rfl
  | case2 line hne => simp [Text.cutLines, editorLines]
  | case3 rest line ih => simpa [Text.cutLines, editorLines] using ih
  | case4 c rest line hpair hc ih =>
      have hcut : (Text.cutLines (c :: rest) line).length = (Text.cutLines rest []).length + 1 := by
        simp [Text.cutLines, hc]
      rw [hcut]
      cases hends : endsEditorLine c with
      | true => simpa [editorLines, hends] using ih
      | false =>
          -- an editor goes on with its line, so it has a line less
          have hmore := hfewer ih 1
          rw [List.drop_drop] at hmore
          simpa [editorLines, hends] using hmore
  | case5 c rest line hpair hc ih =>
      have hcut : Text.cutLines (c :: rest) line = Text.cutLines rest (c :: line) := by
        simp [Text.cutLines, hc]
      have hends : endsEditorLine c = false := by
        simp only [Text.isLineBreak, Bool.or_eq_true, not_or] at hc
        simp [endsEditorLine, hc]
      obtain ⟨first, more, hlines⟩ :=
        List.exists_cons_of_ne_nil (cutLines_ne_nil rest (List.cons_ne_nil c line))
      rw [hlines, List.length_cons] at ih
      rw [hcut, hlines, List.length_cons]
      simpa [editorLines, hends] using ih

/-! ### Positions -/

/-- The first position is in front of all characters, whatever the encoding. -/
theorem offset_start (encoding : Encoding) (text : List Char) :
    EditorPosition.offset encoding text ⟨0, 0⟩ = 0 := by
  obtain ⟨line, more, hlines⟩ := List.exists_cons_of_ne_nil (editorLines_ne_nil text)
  have hnone (chars : List Char) : encoding.fitting 0 chars = 0 := by
    cases chars with
    | nil => rfl
    | cons c rest => exact if_neg (Nat.not_le_of_gt (encoding.units_pos c))
  simp [EditorPosition.offset, hlines, hnone]

/-- As many lines down as the text has, the position is behind all characters, in whatever
column it is. -/
theorem offset_length_lines (encoding : Encoding) (text : String) (character : Nat) :
    EditorPosition.offset encoding text.toList ⟨(Text.lines text).length, character⟩
      = text.length := by
  let count := (Text.cutLines text.toList []).length
  have hcount : (Text.lines text).length = count := List.length_map _
  have hbehind : ((editorLines text.toList).drop count).flatten = [] :=
    flatten_drop_editorLines text.toList []
  rw [hcount]
  unfold EditorPosition.offset
  dsimp only
  cases hline : (editorLines text.toList)[count]? with
  | none => exact String.length_toList
  | some line =>
      -- the line is there, but empty, and it is the last one
      have hmem : line ∈ (editorLines text.toList).drop count :=
        List.mem_of_getElem? (i := 0) (by rwa [List.getElem?_drop, Nat.add_zero])
      obtain rfl : line = [] := List.flatten_eq_nil_iff.mp hbehind line hmem
      have hwhole : ((editorLines text.toList).take count).flatten = text.toList := by
        have hsplit := flatten_editorLines text.toList
        rw [← List.take_append_drop count (editorLines text.toList), List.flatten_append, hbehind,
          List.append_nil] at hsplit
        exact hsplit
      rw [hwhole, String.length_toList]
      rfl

/-! ### The edit -/

/-- **An edit from the first character to the last.** Where a document has a tree, there is
no edit if and only if its text is the canonical one already. Otherwise there is one, and for an
editor it begins with the text and ends with it, and makes the canonical text of it. -/
theorem formatEdit_replaces_document {document : Document} {program : Program Offset}
    (htree : document.tree = some program) :
    (document.formatEdit? = none ↔ program.format = document.text)
      ∧ (program.format ≠ document.text → ∃ edit, document.formatEdit? = some edit
        ∧ edit.range.start = ⟨0, 0⟩
        ∧ ∀ encoding,
          edit.range.stop.offset encoding document.text.toList = document.text.length
            ∧ edit.apply encoding document.text = program.format) := by
  by_cases hsame : program.format = document.text
  · simp [Document.formatEdit?, htree, hsame]
  · let last := ((Text.lines document.text).getLast?.getD "").length
    let edit : TextEdit :=
      ⟨⟨⟨0, 0⟩, ⟨(Text.lines document.text).length, last⟩⟩, program.format⟩
    have hedit : document.formatEdit? = some edit := by
      simp [Document.formatEdit?, htree, hsame, edit, last]
    refine ⟨by simp [hedit, hsame], fun _ => ⟨edit, hedit, rfl, fun encoding => ?_⟩⟩
    have hstop : edit.range.stop.offset encoding document.text.toList = document.text.length :=
      offset_length_lines encoding document.text last
    refine ⟨hstop, ?_⟩
    have hstart : edit.range.start.offset encoding document.text.toList = 0 :=
      offset_start encoding document.text.toList
    unfold TextEdit.apply
    dsimp only
    rw [hstart, hstop, List.take_zero, ← String.length_toList, List.drop_length]
    simp [edit]

/-- A text that ends with a carriage return has one more line in an editor than it has by
`Text.lines`. The edit covers it all the same. -/
theorem formatEdit_replaces_document_with_return :
    ∃ program edit, (Document.ofText "LET x=1;\r").tree = some program
      ∧ program.format = "LET x = 1;\n" ∧ program.format ≠ (Document.ofText "LET x=1;\r").text
      ∧ (Document.ofText "LET x=1;\r").formatEdit? = some edit
      ∧ edit.apply .utf16 "LET x=1;\r" = "LET x = 1;\n" := by
  have hlex : tokenize "LET x=1;\r" = .ok
      [⟨.identifier, "LET", 0⟩, ⟨.identifier, "x", 4⟩, ⟨.operator, "=", 5⟩, ⟨.integer, "1", 6⟩,
        ⟨.operator, ";", 7⟩] := by
    rfl
  have hread : readProgram "LET x=1;\r" = .ok ⟨[⟨0, "x", none, some (.integer 6 1)⟩], []⟩ :=
    readProgram_eq_ok hlex rfl
  have htree : (Document.ofText "LET x=1;\r").tree
      = some ⟨[⟨0, "x", none, some (.integer 6 1)⟩], []⟩ := by
    rw [tree_ofText, hread]
    rfl
  have hformat : (⟨[⟨0, "x", none, some (.integer 6 1)⟩], []⟩ : Program Offset).format
      = "LET x = 1;\n" := by
    rfl
  have hchanged : (⟨[⟨0, "x", none, some (.integer 6 1)⟩], []⟩ : Program Offset).format
      ≠ (Document.ofText "LET x=1;\r").text := by
    rw [hformat, text_ofText]
    decide
  obtain ⟨edit, hedit, -, happly⟩ := (formatEdit_replaces_document htree).2 hchanged
  have hresult := (happly .utf16).2
  rw [hformat, text_ofText] at hresult
  exact ⟨_, edit, htree, hformat, hchanged, hedit, hresult⟩

end Proofs

end PlcLang
