import Mathlib.Data.List.GetD
import PlcLang.Proofs.Lexical.Scan
import PlcLang.Source

/-!
# `PlcLang.Proofs.Diagnostics.Lines`: lines and the places on them

`LineOf text before line after` says that `line` is a line of `text`, with `before` in front
of it and `after` behind. Every offset up to the end of the text is on a line or at the end
of one (`exists_lineOf`). There its position is the number of the line, counted by the newlines
in front, and the distance to the line's first character (`position_eq`); and the line of
that number is the line (`lineAt_eq`).

Positions may also be searched for among the places where lines begin. The search halves
its range in every step, and what it finds is the position (`locate_eq_position`).
-/

set_option autoImplicit false

namespace PlcLang.Proofs

variable {text before line after : List Char}

/-! ### Lines -/

/-- A line of a text, what is in front of it and what is behind it. What is in front
ends with a newline, and what is behind begins with one, unless there is nothing. -/
structure LineOf (text before line after : List Char) : Prop where
  parts : text = before ++ (line ++ after)
  unbroken : '\n' ∉ line
  starts : ∀ c ∈ before.getLast?, c = '\n'
  ends : ∀ c ∈ after.head?, c = '\n'

/-- What ends a run of characters other than newlines is a newline. -/
theorem eq_newline_of_not_run {c : Char} (h : (c != '\n') = false) : c = '\n' := by
  simpa using h

/-- An offset up to the end of the text is on a line, or at the end of one. The line
is what stands between the last newline in front of it and the next one behind. -/
theorem exists_lineOf {place : Nat} (h : place ≤ text.length) :
    ∃ before line after, LineOf text before line after
      ∧ before.length ≤ place ∧ place ≤ before.length + line.length := by
  -- the line reaches back to the last newline in front of the place, and on to the next one
  obtain ⟨left, front, hback, hleft, hfront, -⟩ :=
    exists_run (· != '\n') (text.take place).reverse
  obtain ⟨right, after, hon, hright, hafter, -⟩ := exists_run (· != '\n') (text.drop place)
  have htake : text.take place = front.reverse ++ left.reverse := by
    rw [← List.reverse_append, ← hback, List.reverse_reverse]
  have hlength : front.length + left.length = place := by
    have htaken := congrArg List.length htake
    rw [List.length_take, List.length_append, List.length_reverse, List.length_reverse,
      Nat.min_eq_left h] at htaken
    exact htaken.symm
  refine ⟨front.reverse, left.reverse ++ right, after, ⟨?_, ?_, ?_, ?_⟩, ?_, ?_⟩
  · calc text = text.take place ++ text.drop place := (List.take_append_drop place text).symm
      _ = front.reverse ++ (left.reverse ++ right ++ after) := by
        rw [htake, hon]
        simp only [List.append_assoc]
  · intro hmem
    rcases List.mem_append.mp hmem with hmem | hmem
    · exact absurd (hleft '\n' (List.mem_reverse.mp hmem)) (by decide)
    · exact absurd (hright '\n' hmem) (by decide)
  · intro c hc
    rw [List.getLast?_reverse] at hc
    exact eq_newline_of_not_run (hfront c hc)
  · intro c hc
    exact eq_newline_of_not_run (hafter c hc)
  · rw [List.length_reverse]
    omega
  · rw [List.length_reverse, List.length_append, List.length_reverse]
    omega

namespace LineOf

/-- What is in front of a line and of a place on it. -/
theorem take_eq (h : LineOf text before line after) {column : Nat}
    (hcolumn : column ≤ line.length) :
    text.take (before.length + column) = before ++ line.take column := by
  rw [h.parts, List.take_length_add_append, List.take_append_of_le_length hcolumn]

/-- A text is as long as its three parts. -/
theorem length_eq (h : LineOf text before line after) :
    text.length = before.length + (line.length + after.length) := by
  rw [h.parts, List.length_append, List.length_append]

/-- The number of a line, and how far a place on it is from its first character.
Both are counted from one. -/
theorem positionAfter_eq (h : LineOf text before line after) {column : Nat}
    (hcolumn : column ≤ line.length) :
    Source.positionAfter (text.take (before.length + column))
      = ⟨before.count '\n' + 1, column + 1⟩ := by
  have hunbroken : ∀ c ∈ (line.take column).reverse, (c != '\n') = true := by
    intro c hc
    have hmem : c ∈ line := List.mem_of_mem_take (List.mem_reverse.mp hc)
    exact bne_iff_ne.mpr fun heq => h.unbroken (heq ▸ hmem)
  have hcount : (line.take column).count '\n' = 0 :=
    List.count_eq_zero_of_not_mem fun hmem => h.unbroken (List.mem_of_mem_take hmem)
  have hbefore : before.reverse.takeWhile (· != '\n') = [] := by
    cases hlast : before.reverse with
    | nil => rfl
    | cons c more =>
        have hc : c ∈ before.getLast? := by
          rw [← List.head?_reverse, hlast]
          rfl
        rw [h.starts c hc]
        rfl
  rw [h.take_eq hcolumn, Source.positionAfter, List.count_append, hcount, List.reverse_append,
    List.takeWhile_append_of_pos hunbroken, hbefore, List.append_nil, List.length_reverse,
    List.length_take, Nat.min_eq_left hcolumn]

end LineOf

/-! ### Pieces -/

/-- There is always a first piece, which may be empty. -/
theorem splitOnChar_ne_nil (mark : Char) (text : List Char) : Text.splitOnChar mark text ≠ [] := by
  cases text with
  | nil => exact List.cons_ne_nil _ _
  | cons c rest =>
      rw [Text.splitOnChar]
      by_cases h : c = mark
      · rw [if_pos h]
        exact List.cons_ne_nil _ _
      · rw [if_neg h]
        cases Text.splitOnChar mark rest with
        | nil => exact List.cons_ne_nil _ _
        | cons piece more => exact List.cons_ne_nil _ _

/-- The first piece goes up to the first mark, or to the end if there is none. -/
theorem splitOnChar_head (mark : Char) {first rest : List Char} (h : mark ∉ first)
    (hrest : ∀ c ∈ rest.head?, c = mark) :
    (Text.splitOnChar mark (first ++ rest))[0]? = some first := by
  induction first with
  | nil =>
      cases rest with
      | nil => rfl
      | cons c more =>
          rw [List.nil_append, Text.splitOnChar, if_pos (hrest c rfl)]
          rfl
  | cons c first ih =>
      have hc : ¬ c = mark := (List.ne_of_not_mem_cons h).symm
      have hhead := ih (List.not_mem_of_not_mem_cons h)
      rw [List.cons_append, Text.splitOnChar, if_neg hc]
      cases hpieces : Text.splitOnChar mark (first ++ rest) with
      | nil => exact absurd hpieces (splitOnChar_ne_nil mark _)
      | cons piece more =>
          rw [hpieces] at hhead
          obtain rfl := Option.some.inj hhead
          rfl

/-- In front of a mark there are as many pieces as marks, so the pieces behind it
are counted from there on. -/
theorem splitOnChar_append (mark : Char) {front : List Char} (rest : List Char)
    (h : ∀ c ∈ front.getLast?, c = mark) (index : Nat) :
    (Text.splitOnChar mark (front ++ rest))[front.count mark + index]?
      = (Text.splitOnChar mark rest)[index]? := by
  induction front with
  | nil => rw [List.nil_append, List.count_nil, Nat.zero_add]
  | cons c front ih =>
      have hfront : ∀ d ∈ front.getLast?, d = mark := by
        intro d hd
        cases front with
        | nil => cases hd
        | cons e more => exact h d (by rwa [List.getLast?_cons_cons])
      rw [List.cons_append, Text.splitOnChar]
      by_cases hc : c = mark
      · rw [if_pos hc, hc, List.count_cons_self, Nat.add_right_comm, List.getElem?_cons_succ]
        exact ih hfront
      · -- the piece that `c` belongs to is not the last one in front
        have hmark : mark ∈ front := by
          cases front with
          | nil => exact absurd (h c rfl) hc
          | cons e more =>
              have hlast := List.getLast?_eq_some_getLast (List.cons_ne_nil e more)
              rw [← hfront _ hlast]
              exact List.getLast_mem _
        have hpositive : 0 < front.count mark := List.count_pos_iff.mpr hmark
        rw [if_neg hc, List.count_cons_of_ne hc, ← ih hfront]
        cases Text.splitOnChar mark (front ++ rest) with
        | nil =>
            obtain ⟨more, hmore⟩ : ∃ more, front.count mark + index = more + 1 :=
              ⟨front.count mark + index - 1, by omega⟩
            rw [hmore]
            rfl
        | cons piece more =>
            obtain ⟨number, hnumber⟩ : ∃ number, front.count mark + index = number + 1 :=
              ⟨front.count mark + index - 1, by omega⟩
            rw [hnumber]
            rfl

/-- The piece of a line's number is the line. -/
theorem LineOf.splitOnNewline_eq {text : List Char} (h : LineOf text before line after) :
    (Text.splitOnNewline text)[before.count '\n']? = some line := by
  rw [Text.splitOnNewline, h.parts]
  exact (splitOnChar_append '\n' (line ++ after) h.starts 0).trans
    (splitOnChar_head '\n' h.unbroken h.ends)

/-! ### Sources -/

section

variable {source : Source} (h : LineOf source.chars before line after)

include h

/-- The position of a place on a line, as a source gives it. -/
theorem position_eq {column : Nat} (hcolumn : column ≤ line.length) :
    source.position ((before.length + column : Nat) : Int)
      = ⟨before.count '\n' + 1, column + 1⟩ := by
  have hlength := h.length_eq
  have hclamp : source.clamp ((before.length + column : Nat) : Int) = before.length + column := by
    rw [Source.clamp, Int.toNat_natCast]
    omega
  rw [Source.position, hclamp, h.positionAfter_eq hcolumn]

/-- The line of a line's number is the line, without the newline that ends it. -/
theorem lineAt_eq : source.lineAt ((before.count '\n' + 1 : Nat) : Int) = String.ofList line := by
  have hindex : (((before.count '\n' + 1 : Nat) : Int) - 1).toNat = before.count '\n' := by
    omega
  have hpositive : ¬ ((before.count '\n' + 1 : Nat) : Int) ≤ 0 := by
    omega
  rw [Source.lineAt, if_neg hpositive, hindex, Source.lines, List.getElem?_map, h.splitOnNewline_eq]
  rfl

end

/-! ### Searching -/

/-- Where the lines of a text begin that begins at `offset`, without the first one:
behind each newline. -/
def laterStarts (offset : Nat) : List Char → List Nat
  | [] => []
  | c :: rest =>
    if c = '\n' then (offset + 1) :: laterStarts (offset + 1) rest
    else laterStarts (offset + 1) rest

/-- Where the lines of a text begin: at its beginning, and behind each newline. -/
def lineStarts (text : List Char) : List Nat :=
  0 :: laterStarts 0 text

/-- The last index from `low` to `high` whose entry is not behind `place`, searched for by
halving. -/
def searchLast (entries : List Nat) (place low high : Nat) : Nat :=
  if low < high then
    if entries.getD ((low + high + 1) / 2) 0 ≤ place then
      searchLast entries place ((low + high + 1) / 2) high
    else searchLast entries place low ((low + high + 1) / 2 - 1)
  else low
termination_by high - low

/-- The position of an offset, by a search among the places where lines begin. An
offset outside of the text counts as the nearest one in it. -/
def locate (source : Source) (offset : Int) : Position :=
  let place := source.clamp offset
  let starts := lineStarts source.chars
  let index := searchLast starts place 0 (starts.length - 1)
  ⟨index + 1, place - starts.getD index 0 + 1⟩

/-- The search finds the index where the entries pass the place. The target stays
between the two ends, and each step halves what is between them. -/
theorem searchLast_eq {entries : List Nat} {place target low high : Nat} (hlow : low ≤ target)
    (hhigh : target ≤ high)
    (h : ∀ index, index ≤ high → (entries.getD index 0 ≤ place ↔ index ≤ target)) :
    searchLast entries place low high = target := by
  fun_induction searchLast entries place low high with
  | case1 low high hlt hle ih =>
      have hmiddle : (low + high + 1) / 2 ≤ target := (h _ (by omega)).mp hle
      exact ih hmiddle hhigh h
  | case2 low high hlt hle ih =>
      have hmiddle : ¬ (low + high + 1) / 2 ≤ target := fun hmiddle =>
        hle ((h _ (by omega)).mpr hmiddle)
      exact ih hlow (by omega) fun index hindex => h index (by omega)
  | case3 low high hlt => omega

/-- Newlines of a front and of what is behind it, at the places that they have in
the whole. -/
theorem laterStarts_append (offset : Nat) (front back : List Char) :
    laterStarts offset (front ++ back)
      = laterStarts offset front ++ laterStarts (offset + front.length) back := by
  induction front generalizing offset with
  | nil => rfl
  | cons c front ih =>
      have hlength : offset + 1 + front.length = offset + (c :: front).length := by
        rw [List.length_cons]
        omega
      rw [List.cons_append, laterStarts, laterStarts, ih, hlength]
      by_cases hc : c = '\n'
      · rw [if_pos hc, if_pos hc, List.cons_append]
      · rw [if_neg hc, if_neg hc]

/-- There are as many later lines as newlines. -/
theorem length_laterStarts (offset : Nat) (text : List Char) :
    (laterStarts offset text).length = text.count '\n' := by
  induction text generalizing offset with
  | nil => rfl
  | cons c rest ih =>
      rw [laterStarts]
      by_cases hc : c = '\n'
      · rw [if_pos hc, hc, List.count_cons_self, List.length_cons, ih]
      · rw [if_neg hc, List.count_cons_of_ne hc, ih]

/-- Later lines begin behind the beginning, and not behind the end. -/
theorem bounds_of_mem_laterStarts {offset start : Nat} {text : List Char}
    (h : start ∈ laterStarts offset text) : offset < start ∧ start ≤ offset + text.length := by
  induction text generalizing offset with
  | nil => cases h
  | cons c rest ih =>
      rw [laterStarts] at h
      rw [List.length_cons]
      by_cases hc : c = '\n'
      · rw [if_pos hc] at h
        rcases List.mem_cons.mp h with rfl | h
        · omega
        · have hbounds := ih h
          omega
      · rw [if_neg hc] at h
        have hbounds := ih h
        omega

namespace LineOf

variable (h : LineOf text before line after)

include h

/-- The beginnings of the lines in front of a line, its own among them, and of those
behind it. -/
theorem lineStarts_eq :
    lineStarts text
      = (0 :: laterStarts 0 before) ++ laterStarts (before.length + line.length) after := by
  have hline : laterStarts (0 + before.length) line = [] := by
    rw [← List.length_eq_zero_iff, length_laterStarts]
    exact List.count_eq_zero_of_not_mem h.unbroken
  rw [lineStarts, h.parts, laterStarts_append, laterStarts_append, hline, Nat.zero_add,
    List.nil_append, List.cons_append]

/-- The line begins where the text in front of it ends, and its number is its index
there. -/
theorem getD_lineStarts : (lineStarts text).getD (before.count '\n') 0 = before.length := by
  have hstart : (0 :: laterStarts 0 before).getD (before.count '\n') 0 = before.length := by
    rcases List.eq_nil_or_concat before with hnil | ⟨front, c, hfront⟩
    · rw [hnil]
      rfl
    · rw [List.concat_eq_append] at hfront
      have hc : c = '\n' := h.starts c (by rw [hfront, List.getLast?_concat]; rfl)
      subst hfront hc
      rw [List.count_append, List.count_singleton_self, laterStarts_append, List.getD_cons_succ,
        List.getD_append_right _ _ _ _ (Nat.le_of_eq (length_laterStarts 0 front)),
        length_laterStarts, Nat.sub_self, List.length_append, Nat.zero_add]
      rfl
  rw [h.lineStarts_eq, List.getD_append _ _ _ _ ?_, hstart]
  rw [List.length_cons, length_laterStarts]
  exact Nat.lt_succ_self _

/-- The lines that begin up to a place on the line are the line and those before it,
so the search ends at the line. -/
theorem getD_lineStarts_le_iff {place index : Nat} (hbefore : before.length ≤ place)
    (hplace : place ≤ before.length + line.length) (hindex : index ≤ (lineStarts text).length - 1) :
    (lineStarts text).getD index 0 ≤ place ↔ index ≤ before.count '\n' := by
  have hlength : (0 :: laterStarts 0 before).length = before.count '\n' + 1 := by
    rw [List.length_cons, length_laterStarts]
  rw [h.lineStarts_eq] at hindex ⊢
  by_cases hlt : index ≤ before.count '\n'
  · have hmem : index < (0 :: laterStarts 0 before).length := by omega
    rw [List.getD_append _ _ _ _ hmem, List.getD_eq_getElem _ _ hmem]
    have hle : (0 :: laterStarts 0 before)[index] ≤ before.length := by
      rcases List.mem_cons.mp (List.getElem_mem hmem) with hzero | hlater
      · omega
      · have hbounds := bounds_of_mem_laterStarts hlater
        omega
    exact iff_of_true (Nat.le_trans hle hbefore) hlt
  · rw [List.getD_append_right _ _ _ _ (by omega)]
    rw [List.length_append] at hindex
    have hmem : index - (0 :: laterStarts 0 before).length
        < (laterStarts (before.length + line.length) after).length := by
      omega
    rw [List.getD_eq_getElem _ _ hmem]
    have hbounds := bounds_of_mem_laterStarts (List.getElem_mem hmem)
    exact iff_of_false (by omega) hlt

end LineOf

/-- The search finds the position, whatever the offset. So the two ways of finding
it may be used for each other. -/
theorem locate_eq_position (source : Source) (offset : Int) :
    locate source offset = source.position offset := by
  have hclamp : source.clamp offset ≤ source.chars.length := Nat.min_le_right _ _
  obtain ⟨before, line, after, hline, hbefore, hplace⟩ := exists_lineOf hclamp
  have hcolumn : source.clamp offset = before.length + (source.clamp offset - before.length) := by
    omega
  have hcount : before.count '\n' ≤ (lineStarts source.chars).length - 1 := by
    rw [hline.lineStarts_eq, List.length_append, List.length_cons, length_laterStarts]
    omega
  have hsearch := searchLast_eq (Nat.zero_le _) hcount fun index hindex =>
    hline.getD_lineStarts_le_iff hbefore hplace hindex
  have hposition : source.position offset
      = ⟨before.count '\n' + 1, source.clamp offset - before.length + 1⟩ := by
    rw [Source.position, hcolumn, hline.positionAfter_eq (by omega), Nat.add_sub_cancel_left]
  rw [hposition]
  show (⟨searchLast _ _ _ _ + 1, _ - (lineStarts source.chars).getD (searchLast _ _ _ _) 0 + 1⟩ :
    Position) = _
  rw [hsearch, hline.getD_lineStarts]

end PlcLang.Proofs
