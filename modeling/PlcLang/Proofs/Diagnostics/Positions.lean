import PlcLang.Proofs.Diagnostics.Lines

/-!
# `PlcLang.Proofs.Diagnostics.Positions`: the positions of a text

`StartsLine text start place` says that `start` is where the line of a place begins: behind
the last newline in front of the place, or at the beginning of the text. There is exactly one
such start (`exists_startsLine`, `StartsLine.unique`).

So a position is the number of newlines in front of the place and the distance to the start,
both counted from one (`position_of_startsLine`), and the line of that number has what is
between the start and the place at its beginning (`lineAt_of_startsLine`). Two places have
newlines between them, or they have one start (`StartsLine.eq_of_count_eq`), which is why
positions are in the order of the places: `position_before_of_lt`.
-/

set_option autoImplicit false

namespace PlcLang

/-- A position is before another if its line is, or its column on the same line.
This is the order in which a reader meets them. -/
def Position.Before (first second : Position) : Prop :=
  first.line < second.line ∨ first.line = second.line ∧ first.column < second.column

namespace Proofs

variable {text before line after : List Char} {start place : Nat}

/-- The line of a place begins at `start`: there is no newline from there to the place, and
one in front of it, unless the text begins there. -/
structure StartsLine (text : List Char) (start place : Nat) : Prop where
  le : start ≤ place
  behindBreak : start = 0 ∨ text[start - 1]? = some '\n'
  unbroken : ∀ index, start ≤ index → index < place → text[index]? ≠ some '\n'

/-! ### Where lines begin -/

/-- The line of a place has one beginning: of two, the later one would have a
newline in front of it that the earlier one does not allow for. -/
theorem StartsLine.unique {other : Nat} (h : StartsLine text start place)
    (hother : StartsLine text other place) : start = other := by
  -- the later one of two has a newline in front of it, where the line of the other goes on
  have hle {first second : Nat} (hfirst : StartsLine text first place)
      (hsecond : StartsLine text second place) : second ≤ first := by
    rcases hsecond.behindBreak with hzero | hbreak
    · omega
    · have hplace := hsecond.le
      refine Nat.le_of_not_lt fun hlt => ?_
      exact hfirst.unbroken (second - 1) (by omega) (by omega) hbreak
  exact Nat.le_antisymm (hle hother h) (hle h hother)

/-- What is in front of the last newline in front of a place does not matter to places on the
way from there to the place. -/
theorem StartsLine.earlier {earlier : Nat} (h : StartsLine text start place)
    (hstart : start ≤ earlier) (hle : earlier ≤ place) : StartsLine text start earlier where
  le := hstart
  behindBreak := h.behindBreak
  unbroken index hindex hlt := h.unbroken index hindex (by omega)

/-- A line of a text is the line of every place on it, and of the place behind its
last character. -/
theorem LineOf.startsLine (h : LineOf text before line after) (hbefore : before.length ≤ place)
    (hplace : place ≤ before.length + line.length) : StartsLine text before.length place where
  le := hbefore
  behindBreak := by
    rcases List.eq_nil_or_concat before with hnil | ⟨front, c, hfront⟩
    · exact .inl (by rw [hnil]; rfl)
    · rw [List.concat_eq_append] at hfront
      have hc : c = '\n' := h.starts c (by rw [hfront, List.getLast?_concat]; rfl)
      right
      rw [h.parts, hfront, hc]
      simp
  unbroken index hindex hlt hbreak := by
    have hinside : index - before.length < line.length := by omega
    rw [h.parts, List.getElem?_append_right hindex, List.getElem?_append_left hinside] at hbreak
    exact h.unbroken (List.mem_of_getElem? hbreak)

/-- The line of every place up to the end of the text begins somewhere. -/
theorem exists_startsLine (h : place ≤ text.length) : ∃ start, StartsLine text start place := by
  obtain ⟨before, line, after, hline, hbefore, hplace⟩ := exists_lineOf h
  exact ⟨before.length, hline.startsLine hbefore hplace⟩

/-- As many newlines are in front of a later place as in front of an earlier one and
between the two. -/
theorem count_take_of_le (text : List Char) {first second : Nat} (h : first ≤ second) :
    (text.take second).count '\n'
      = (text.take first).count '\n' + ((text.take second).drop first).count '\n' := by
  have hsplit := List.take_append_drop first (text.take second)
  rw [List.take_take, Nat.min_eq_left h] at hsplit
  rw [← List.count_append, hsplit]

/-- Two places with the same number of newlines in front of them are on one line. -/
theorem StartsLine.eq_of_count_eq {first second firstStart : Nat} (hlt : first ≤ second)
    (hfirst : StartsLine text firstStart first) (hsecond : StartsLine text start second)
    (hcount : (text.take first).count '\n' = (text.take second).count '\n') :
    firstStart = start := by
  have hnone : '\n' ∉ (text.take second).drop first := by
    have hsplit := count_take_of_le text hlt
    exact List.count_eq_zero.mp (by omega)
  have hstart : start ≤ first := by
    rcases hsecond.behindBreak with hzero | hbreak
    · omega
    · -- the newline in front of the start would be between the two places
      refine Nat.le_of_not_lt fun hbetween => ?_
      have hle := hsecond.le
      have hmem : '\n' ∈ (text.take second).drop first := by
        refine List.mem_of_getElem? (i := start - 1 - first) ?_
        rw [List.getElem?_drop, List.getElem?_take_of_lt (by omega), ← hbreak]
        congr 1
        omega
      exact hnone hmem
  exact hfirst.unique (hsecond.earlier hstart hlt)

/-! ### Positions -/

section

variable {source : Source} {offset : Int}

/-- The offset that counts is in the text, or at its end. -/
theorem clamp_le (source : Source) (offset : Int) : source.clamp offset ≤ source.chars.length :=
  Nat.min_le_right _ _

/-- The nearest offset is what is left of a number between the two ends of the text. -/
theorem cast_clamp (source : Source) (offset : Int) :
    (source.clamp offset : Int) = max 0 (min offset source.chars.length) := by
  rw [Source.clamp]
  omega

/-- A place on a line has the position that is counted from the beginning of the
line. -/
theorem position_of_startsLine (h : StartsLine source.chars start (source.clamp offset)) :
    source.position offset
      = ⟨1 + (source.chars.take (source.clamp offset)).count '\n',
          1 + source.clamp offset - start⟩ := by
  obtain ⟨before, line, after, hline, hbefore, hplace⟩ := exists_lineOf (clamp_le source offset)
  obtain rfl := h.unique (hline.startsLine hbefore hplace)
  obtain ⟨column, hcolumn⟩ := Nat.exists_eq_add_of_le hbefore
  have hle : column ≤ line.length := by omega
  have hcount : (line.take column).count '\n' = 0 :=
    List.count_eq_zero_of_not_mem fun hmem => hline.unbroken (List.mem_of_mem_take hmem)
  rw [Source.position, hcolumn, hline.positionAfter_eq hle, hline.take_eq hle, List.count_append,
    hcount]
  congr 1 <;> omega

/-- The line of a place is there, and it begins with what is between its beginning and the
place. -/
theorem lineAt_of_startsLine (h : StartsLine source.chars start (source.clamp offset)) :
    (source.position offset).line ≤ source.lines.length
      ∧ (source.lineAt (source.position offset).line).toList.take
          ((source.position offset).column - 1)
        = (source.chars.take (source.clamp offset)).drop start
      ∧ (source.position offset).column - 1
        ≤ (source.lineAt (source.position offset).line).length := by
  obtain ⟨before, line, after, hline, hbefore, hplace⟩ := exists_lineOf (clamp_le source offset)
  obtain rfl := h.unique (hline.startsLine hbefore hplace)
  obtain ⟨column, hcolumn⟩ := Nat.exists_eq_add_of_le hbefore
  have hle : column ≤ line.length := by omega
  have hposition : source.position offset = ⟨before.count '\n' + 1, column + 1⟩ := by
    rw [Source.position, hcolumn, hline.positionAfter_eq hle]
  rw [hposition, hcolumn, hline.take_eq hle, List.drop_left]
  dsimp only
  rw [lineAt_eq hline, String.toList_ofList, String.length_ofList, Nat.add_sub_cancel]
  refine ⟨?_, rfl, hle⟩
  rw [Source.lines, List.length_map]
  exact (List.getElem?_eq_some_iff.mp hline.splitOnNewline_eq).1

/-- Of two places the later one has the later position: on the same line by its
column, and otherwise by the newlines in between. -/
theorem position_before_of_lt {other : Int} (h : source.clamp offset < source.clamp other) :
    (source.position offset).Before (source.position other) := by
  obtain ⟨first, hfirst⟩ := exists_startsLine (clamp_le source offset)
  obtain ⟨second, hsecond⟩ := exists_startsLine (clamp_le source other)
  have hcount := count_take_of_le source.chars (Nat.le_of_lt h)
  rw [position_of_startsLine hfirst, position_of_startsLine hsecond]
  by_cases hsame : (source.chars.take (source.clamp offset)).count '\n'
      = (source.chars.take (source.clamp other)).count '\n'
  · -- on one line the distance to its beginning decides
    obtain rfl := hfirst.eq_of_count_eq (Nat.le_of_lt h) hsecond hsame
    have hle := hfirst.le
    exact .inr ⟨congrArg (1 + ·) hsame, by dsimp only; omega⟩
  · exact .inl (by dsimp only; omega)

end

/-- Lines and columns are exact. Wherever an offset is, it counts as the nearest one in the
text, and its position is one more than the number of newlines in front of it, and one more
than the distance to the place behind the last of these. A search among the places where
lines begin finds the same position. The text has a line of that number, and it begins with
the characters in front of the offset, so it has one for each column but the last.

Positions are in the order of the offsets in the text, and different offsets there have
different positions. -/
theorem positions_are_exact (source : Source) :
    (∀ offset : Int, ∃ place start : Nat,
        (place : Int) = max 0 (min offset source.chars.length)
          ∧ StartsLine source.chars start place
          ∧ source.position offset
            = ⟨1 + (source.chars.take place).count '\n', 1 + place - start⟩
          ∧ locate source offset = source.position offset
          ∧ (source.position offset).line ≤ source.lines.length
          ∧ (source.lineAt (source.position offset).line).toList.take
              ((source.position offset).column - 1)
            = (source.chars.take place).drop start
          ∧ (source.position offset).column - 1
            ≤ (source.lineAt (source.position offset).line).length)
      ∧ ∀ offset other : Int,
          (source.clamp offset < source.clamp other
            ↔ (source.position offset).Before (source.position other))
          ∧ (source.clamp offset = source.clamp other
            ↔ source.position offset = source.position other) := by
  refine ⟨fun offset => ?_, fun offset other => ?_⟩
  · obtain ⟨start, hstart⟩ := exists_startsLine (clamp_le source offset)
    exact ⟨source.clamp offset, start, cast_clamp source offset, hstart,
      position_of_startsLine hstart, locate_eq_position source offset,
      lineAt_of_startsLine hstart⟩
  · -- one of three holds of the places, and what it says of the positions excludes the others
    have hforward := @position_before_of_lt source offset other
    have hbackward := @position_before_of_lt source other offset
    have hequal : source.clamp offset = source.clamp other
        → source.position offset = source.position other := fun h => by
      rw [Source.position, Source.position, h]
    constructor
    · refine ⟨hforward, fun hbefore => ?_⟩
      rcases Nat.lt_trichotomy (source.clamp offset) (source.clamp other) with hlt | heq | hgt
      · exact hlt
      · rw [hequal heq, Position.Before] at hbefore
        omega
      · have hafter := hbackward hgt
        rw [Position.Before] at hbefore hafter
        omega
    · refine ⟨hequal, fun hposition => ?_⟩
      rcases Nat.lt_trichotomy (source.clamp offset) (source.clamp other) with hlt | heq | hgt
      · have hbefore := hforward hlt
        rw [hposition, Position.Before] at hbefore
        omega
      · exact heq
      · have hbefore := hbackward hgt
        rw [hposition, Position.Before] at hbefore
        omega

example : (Source.mk "t" "ab\ncd\n").position 99 = ⟨3, 1⟩ := by
  decide

end Proofs

end PlcLang
