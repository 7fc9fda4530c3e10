import Mathlib.Data.List.TakeWhile
import PlcLang.Document
import PlcLang.Proofs.Diagnostics.Anchors
import PlcLang.Proofs.Printing.Lines

/-!
# `PlcLang.Proofs.Editing.Hovering`: the word under the cursor

Where an editor points at a character of a name, `Document.wordAt` is to find the name. It looks
for it in two steps that the lexer does not make. It takes the line of the position's number
from `Text.lines`, though positions count newlines only; and in this line it takes all characters
of words on both sides, though a name neither begins with a digit or a hyphen nor has a numeral of
another script in it.

* `exists_cut`: how far the two ways to count lines agree. If every line end in front is a newline,
  alone or behind a return (`newlinesEndLines`), the lines are as many, and the one that is
  being read is the same. Otherwise there are more lines than newlines.
* `wordAt_eq_run`: so in the first case the word is the name with the characters of words that
  touch it.
* `wordAt_eq_of_stray`: and in the second it is looked for in front of the name, and the same
  whether the name is there or not.
* `wordAt_eq_literal_iff` puts both together: when the word is the name.
-/

set_option autoImplicit false

namespace PlcLang

/-- Whether every line end is a newline, alone or behind a carriage return. Only
then are there as many lines as positions count. -/
def newlinesEndLines : List Char → Bool
  | [] => true
  | '\r' :: '\n' :: rest => newlinesEndLines rest
  | c :: rest => (c == '\n' || !Text.isLineBreak c) && newlinesEndLines rest

namespace Proofs

open Document Lexer

variable {front name back : List Char}

/-! ### Lines up to a place -/

/-- Cutting goes through `front` like this: behind a piece of the first line, which is given last
character first as `line`, it completes the lines `closed` and has then read `opened` of the
next. -/
structure Cut (front line : List Char) (closed : List (List Char)) (opened : List Char) :
    Prop where
  continues : ∀ rest : List Char, (∀ c ∈ rest.head?, c ≠ '\n') →
    Text.cutLines (front ++ rest) line = closed ++ Text.cutLines rest opened
  unbroken : ∀ c ∈ opened, Text.isLineBreak c = false
  agrees : newlinesEndLines front = true →
    closed.length = front.count '\n' ∧ opened = (front.reverse ++ line).takeWhile (· != '\n')
  exceeds : newlinesEndLines front = false → front.count '\n' < closed.length

/-- A newline ends a line. -/
theorem ne_newline_of_unbroken {c : Char} (h : Text.isLineBreak c = false) :
    (c != '\n') = true := by
  rw [bne_iff_ne]
  rintro rfl
  exact absurd h (by decide)

/-- What is behind the first newline does not count for the characters in front of
it. -/
theorem takeWhile_append_newline (text rest : List Char) :
    (text ++ '\n' :: rest).takeWhile (· != '\n') = text.takeWhile (· != '\n') := by
  induction text with
  | nil => rfl
  | cons c text ih =>
      rw [List.cons_append, List.takeWhile_cons, List.takeWhile_cons, ih]

/-- At a character that makes no pair with the next one, this one decides by itself. -/
theorem newlinesEndLines_cons {c : Char} {rest : List Char}
    (hpair : ∀ more, c = '\r' → rest = '\n' :: more → False) :
    newlinesEndLines (c :: rest)
      = ((c == '\n' || !Text.isLineBreak c) && newlinesEndLines rest) := by
  simp [newlinesEndLines]

/-- A character that ends no line makes no difference. -/
theorem newlinesEndLines_plain {c : Char} (hc : Text.isLineBreak c = false) (rest : List Char) :
    newlinesEndLines (c :: rest) = newlinesEndLines rest := by
  have hpair : ∀ more, c = '\r' → rest = '\n' :: more → False := by
    rintro more rfl -
    exact absurd hc (by decide)
  simp [newlinesEndLines_cons hpair, hc]

/-- A return in front of what has no newline at its beginning makes no pair with it. -/
theorem not_pair_append {c : Char} {rest more : List Char}
    (hpair : ∀ other, c = '\r' → rest = '\n' :: other → False)
    (hmore : ∀ d ∈ more.head?, d ≠ '\n') :
    ∀ other, c = '\r' → rest ++ more = '\n' :: other → False := by
  intro other hc heq
  cases rest with
  | nil => exact hmore '\n' (by rw [← List.nil_append more, heq]; rfl) rfl
  | cons d rest => exact hpair rest hc (by rw [(List.cons.inj heq).1])

namespace Cut

variable {rest line : List Char} {closed : List (List Char)} {opened : List Char}

/-- There are never fewer lines than newlines. -/
theorem count_le (h : Cut front line closed opened) : front.count '\n' ≤ closed.length := by
  cases hends : newlinesEndLines front with
  | true => exact (h.agrees hends).1.ge
  | false => exact (h.exceeds hends).le

/-- Nothing has been cut yet: no line is complete, and the open one is what it was. -/
theorem nil (h : ∀ c ∈ line, Text.isLineBreak c = false) : Cut [] line [] line where
  continues _ _ := rfl
  unbroken := h
  agrees _ := by
    refine ⟨rfl, ?_⟩
    exact (List.takeWhile_eq_self_iff.mpr fun c hc => ne_newline_of_unbroken (h c hc)).symm
  exceeds hends := by simp [newlinesEndLines] at hends

/-- A return and the newline behind it end a line together. -/
theorem pair (h : Cut rest [] closed opened) (line : List Char) :
    Cut ('\r' :: '\n' :: rest) line (('\n' :: '\r' :: line).reverse :: closed) opened where
  continues more hmore := by simpa [Text.cutLines] using h.continues more hmore
  unbroken := h.unbroken
  agrees hends := by
    obtain ⟨hcount, hopened⟩ := h.agrees (by simpa [newlinesEndLines] using hends)
    refine ⟨by simp [hcount], ?_⟩
    rw [List.append_nil] at hopened
    have hreverse : ('\r' :: '\n' :: rest).reverse ++ line
        = rest.reverse ++ '\n' :: '\r' :: line := by simp
    rw [hreverse, takeWhile_append_newline, hopened]
  exceeds hends := by
    have hmore := h.exceeds (by simpa [newlinesEndLines] using hends)
    simpa using hmore

/-- Any other line end ends its line alone. The newline of a pair must not come behind it, be it
of `front` or of what follows. -/
theorem single {c : Char} (h : Cut rest [] closed opened) (hc : Text.isLineBreak c = true)
    (hpair : ∀ more, c = '\r' → rest = '\n' :: more → False) (line : List Char) :
    Cut (c :: rest) line ((c :: line).reverse :: closed) opened where
  continues more hmore := by
    have hpair := not_pair_append hpair hmore
    simpa [Text.cutLines, hc] using h.continues more hmore
  unbroken := h.unbroken
  agrees hends := by
    -- of all that ends a line only the newline is let through
    rw [newlinesEndLines_cons hpair] at hends
    simp only [hc, Bool.not_true, Bool.or_false, Bool.and_eq_true, beq_iff_eq] at hends
    obtain ⟨rfl, hends⟩ := hends
    obtain ⟨hcount, hopened⟩ := h.agrees hends
    refine ⟨by simp [hcount], ?_⟩
    rw [List.append_nil] at hopened
    rw [List.reverse_cons, List.append_assoc, List.singleton_append, takeWhile_append_newline,
      hopened]
  exceeds hends := by
    rw [newlinesEndLines_cons hpair] at hends
    have hcount := h.count_le
    -- a newline adds a line to both counts, and anything else to the lines only
    by_cases hnewline : c = '\n'
    · obtain rfl := hnewline
      have hmore := h.exceeds (by simpa using hends)
      simpa using hmore
    · rw [List.count_cons_of_ne hnewline, List.length_cons]
      omega

/-- No other character ends a line, so it comes to the open one. -/
theorem plain {c : Char} (h : Cut rest (c :: line) closed opened)
    (hc : Text.isLineBreak c = false) : Cut (c :: rest) line closed opened where
  continues more hmore := by
    rw [List.cons_append, ← h.continues more hmore]
    have hc : ∀ d ∈ [c], Text.isLineBreak d = false := by simpa using hc
    exact cutLines_append hc (rest ++ more) line
  unbroken := h.unbroken
  agrees hends := by
    have hne : c ≠ '\n' := bne_iff_ne.mp (ne_newline_of_unbroken hc)
    obtain ⟨hcount, hopened⟩ := h.agrees (by simpa [newlinesEndLines_plain hc] using hends)
    rw [List.count_cons_of_ne hne, List.reverse_cons, List.append_assoc, List.singleton_append]
    exact ⟨hcount, hopened⟩
  exceeds hends := by
    have hne : c ≠ '\n' := bne_iff_ne.mp (ne_newline_of_unbroken hc)
    rw [List.count_cons_of_ne hne]
    exact h.exceeds (by simpa [newlinesEndLines_plain hc] using hends)

end Cut

/-- Cutting goes through any text. The cases are those of the function that cuts. -/
theorem exists_cut (front line : List Char) (hline : ∀ c ∈ line, Text.isLineBreak c = false) :
    ∃ closed opened, Cut front line closed opened := by
  induction front, line using Text.cutLines.induct with
  | case1 => exact ⟨[], [], .nil hline⟩
  | case2 line hne => exact ⟨[], line, .nil hline⟩
  | case3 rest line ih =>
      obtain ⟨closed, opened, hcut⟩ := ih (by simp)
      exact ⟨_, opened, hcut.pair line⟩
  | case4 c rest line hpair hc ih =>
      obtain ⟨closed, opened, hcut⟩ := ih (by simp)
      exact ⟨_, opened, hcut.single hc hpair line⟩
  | case5 c rest line hpair hc ih =>
      have hplain : Text.isLineBreak c = false := Bool.eq_false_iff.mpr hc
      obtain ⟨closed, opened, hcut⟩ := ih (List.forall_mem_cons.mpr ⟨hplain, hline⟩)
      exact ⟨closed, opened, hcut.plain hplain⟩

/-- The line that has been opened goes on to the next line end. -/
theorem head_cutLines (rest opened : List Char)
    (hopened : ∀ c ∈ opened, Text.isLineBreak c = false) (h : opened ≠ [] ∨ rest ≠ []) :
    ((Text.cutLines rest opened).head?).map (List.takeWhile (!Text.isLineBreak ·))
      = some (opened.reverse ++ rest.takeWhile (!Text.isLineBreak ·)) := by
  have hreverse : ∀ c ∈ opened.reverse, Text.isLineBreak c = false := fun c hc =>
    hopened c (List.mem_reverse.mp hc)
  induction rest, opened using Text.cutLines.induct with
  | case1 => simp at h
  | case2 opened hne =>
      have hline := takeWhile_line hreverse [] (by simp)
      simpa [Text.cutLines] using hline
  | case3 rest opened ih =>
      have hline := takeWhile_line hreverse ['\r', '\n'] (by simp [Text.isLineBreak])
      simpa [Text.cutLines, Text.isLineBreak] using hline
  | case4 c rest opened hpair hc ih =>
      have hline := takeWhile_line hreverse [c] (by simpa using hc)
      simpa [Text.cutLines, hc] using hline
  | case5 c rest opened hpair hc ih =>
      have hplain : Text.isLineBreak c = false := Bool.eq_false_iff.mpr hc
      have hmore : ∀ d ∈ c :: opened, Text.isLineBreak d = false :=
        List.forall_mem_cons.mpr ⟨hplain, hopened⟩
      have hhead := ih hmore (.inl (List.cons_ne_nil c opened))
        fun d hd => hmore d (List.mem_reverse.mp hd)
      simpa [Text.cutLines, hplain] using hhead

/-! ### Characters of words -/

/-- The characters of a name are characters of words. Not all characters of words
can be in a name. -/
theorem isWordPart_of_isNameChar {c : Char} (h : isNameChar c = true) : isWordPart c = true := by
  simp only [isNameChar, Bool.or_eq_true] at h
  simp only [isWordPart, Bool.or_eq_true]
  rcases h with ((hletter | hdigit) | hscore) | hhyphen
  · refine .inl (.inl ?_)
    unfold Text.isLetter at hletter
    unfold Text.isAlphanumeric
    split at hletter
    · next hascii => rw [if_pos hascii, Char.isAlphanum, hletter, Bool.true_or]
    · next hascii => rw [if_neg hascii, hletter, Bool.true_or]
  · refine .inl (.inl ?_)
    obtain ⟨_, _⟩ := isDigit_iff.mp hdigit
    have hascii : c.toNat < 128 := by omega
    unfold Text.isAlphanumeric
    rw [if_pos hascii, Char.isAlphanum, Bool.or_eq_true]
    exact .inr hdigit
  · exact .inl (.inr hscore)
  · exact .inr hhyphen

/-- A character of a word ends no line, so a word is on one line. -/
theorem isLineBreak_of_isWordPart {c : Char} (h : isWordPart c = true) :
    Text.isLineBreak c = false := by
  rw [Bool.eq_false_iff]
  intro hbreak
  simp only [Text.isLineBreak, Bool.or_eq_true, beq_iff_eq] at hbreak
  rcases hbreak with ((((((((rfl | rfl) | rfl) | rfl) | rfl) | rfl) | rfl) | rfl) | rfl) | rfl <;>
    exact absurd h (by decide +kernel)

/-- A text that begins with a word does not begin with a newline. -/
theorem head_ne_newline (hname : ∀ c ∈ name, isWordPart c = true) (hne : name ≠ [])
    (back : List Char) : ∀ c ∈ (name ++ back).head?, c ≠ '\n' := by
  obtain ⟨c, more, rfl⟩ := List.exists_cons_of_ne_nil hne
  rintro d ⟨⟩
  have hunbroken := isLineBreak_of_isWordPart (hname c List.mem_cons_self)
  exact bne_iff_ne.mp (ne_newline_of_unbroken hunbroken)

/-- Up to where a weaker property ends, a stronger one holds as long as in the whole
text. -/
theorem takeWhile_takeWhile_of_imp {p q : Char → Bool} (h : ∀ c, p c = true → q c = true)
    (text : List Char) : (text.takeWhile q).takeWhile p = text.takeWhile p := by
  have hboth : (fun c => decide (p c = true ∧ q c = true)) = p := by
    funext c
    cases hp : p c with
    | true => simp [h c hp]
    | false => simp
  rw [List.takeWhile_takeWhile, hboth]

/-- Nothing touches a word if the first character next to it is no character of
words. -/
theorem takeWhile_isWordPart_eq_nil_iff {text : List Char} :
    text.takeWhile isWordPart = [] ↔ ∀ c ∈ text.head?, isWordPart c = false := by
  cases text with
  | nil => simp
  | cons c rest =>
      cases hc : isWordPart c with
      | true => simp [hc]
      | false => simp [hc]

/-- Around a place in a word, the word is found with all that touches it. -/
theorem wordAround_append (before : List Char) {name : List Char} (behind : List Char)
    (hname : ∀ c ∈ name, isWordPart c = true) {index : Nat} (hindex : index ≤ name.length) :
    wordAround (before ++ (name ++ behind)) (before.length + index)
      = String.ofList ((before.reverse.takeWhile isWordPart).reverse
          ++ (name ++ behind.takeWhile isWordPart)) := by
  have htake : (before ++ (name ++ behind)).take (before.length + index)
      = before ++ name.take index := by
    rw [List.take_length_add_append, List.take_append_of_le_length hindex]
  have hdrop : (before ++ (name ++ behind)).drop (before.length + index)
      = name.drop index ++ behind := by
    rw [List.drop_length_add_append, List.drop_append_of_le_length hindex]
  have hfront : ∀ c ∈ (name.take index).reverse, isWordPart c = true := fun c hc =>
    hname c (List.mem_of_mem_take (List.mem_reverse.mp hc))
  have hback : ∀ c ∈ name.drop index, isWordPart c = true := fun c hc =>
    hname c (List.mem_of_mem_drop hc)
  unfold wordAround
  rw [htake, hdrop, List.reverse_append, List.takeWhile_append_of_pos hfront,
    List.takeWhile_append_of_pos hback, List.reverse_append, List.reverse_reverse]
  simp only [List.append_assoc]
  rw [← List.append_assoc (name.take index), List.take_append_drop]

/-! ### Words at positions -/

/-- The position of a place in a name without newlines: the name's own line, and its
own distance from where that begins. -/
theorem editorPosition_append (file : String) {text : String}
    (htext : text.toList = front ++ (name ++ back)) (hname : '\n' ∉ name) {index : Nat}
    (hindex : index ≤ name.length) :
    (Source.mk file text).editorPosition ((front.length + index : Nat) : Int)
      = ⟨front.count '\n', (front.reverse.takeWhile (· != '\n')).length + index⟩ := by
  have hclamp : (Source.mk file text).clamp ((front.length + index : Nat) : Int)
      = front.length + index := by
    rw [Source.clamp, Source.chars, htext, Int.toNat_natCast]
    simp only [List.length_append]
    omega
  have htake : (Source.mk file text).chars.take (front.length + index)
      = front ++ name.take index := by
    rw [Source.chars, htext, List.take_length_add_append, List.take_append_of_le_length hindex]
  have hnone : '\n' ∉ name.take index := fun hmem => hname (List.mem_of_mem_take hmem)
  have hrun : ∀ c ∈ (name.take index).reverse, (c != '\n') = true := fun c hc =>
    bne_iff_ne.mpr fun heq => hnone (heq ▸ List.mem_reverse.mp hc)
  unfold Source.editorPosition Source.position
  rw [hclamp, htake, Source.positionAfter]
  simp only [List.count_append, List.count_eq_zero_of_not_mem hnone, List.reverse_append,
    List.takeWhile_append_of_pos hrun, List.length_append, List.length_reverse, List.length_take]
  congr 1
  omega

/-- In a line that there is, the word at one of its characters is the word around
it. -/
theorem wordAt_of_getElem? {text found : String} {line character : Nat}
    (hline : (Text.lines text)[line]? = some found) (hcharacter : character < found.length) :
    wordAt text line character = wordAround found.toList character := by
  unfold wordAt
  rw [if_neg (by omega), Int.toNat_natCast, hline]
  have hinside : (0 : Int) ≤ character ∧ (character : Int) < found.toList.length := by
    rw [String.length_toList]
    omega
  dsimp only
  rw [if_pos hinside, Int.toNat_natCast]

/-- Texts with the same line of a number have the same words on it. -/
theorem wordAt_congr {text other : String} {line : Nat}
    (h : (Text.lines text)[line]? = (Text.lines other)[line]?) (character : Int) :
    wordAt text line character = wordAt other line character := by
  unfold wordAt
  rw [Int.toNat_natCast, h]

/-- The lines behind a cut: those it has completed, and then the one that is open. -/
theorem getElem?_lines_cut {closed : List (List Char)} {opened rest : List Char} {text : String}
    (hcut : Cut front [] closed opened) (htext : text.toList = front ++ rest)
    (hrest : ∀ c ∈ rest.head?, c ≠ '\n') (index : Nat) :
    (Text.lines text)[index]?
      = (closed ++ Text.cutLines rest opened)[index]?.map
          fun line => String.ofList (line.takeWhile (!Text.isLineBreak ·)) := by
  rw [Text.lines, htext, hcut.continues rest hrest, List.getElem?_map]

/-- If lines end at newlines only, the word at a place in a name is the name with the characters
of words around it. -/
theorem wordAt_eq_run {text : String} (htext : text.toList = front ++ (name ++ back))
    (hends : newlinesEndLines front = true) (hname : ∀ c ∈ name, isWordPart c = true) {index : Nat}
    (hindex : index < name.length) :
    wordAt text (front.count '\n' : Nat)
        ((front.reverse.takeWhile (· != '\n')).length + index : Nat)
      = String.ofList ((front.reverse.takeWhile isWordPart).reverse
          ++ (name ++ back.takeWhile isWordPart)) := by
  obtain ⟨closed, opened, hcut⟩ := exists_cut front [] (by simp)
  obtain ⟨hcount, hopened⟩ := hcut.agrees hends
  rw [List.append_nil] at hopened
  have hne : name ≠ [] := List.length_pos_iff.mp (Nat.zero_lt_of_lt hindex)
  -- the line goes on through the name to the first line end behind it
  have hline : (Text.lines text)[closed.length]? = some (String.ofList
      (opened.reverse ++ (name ++ back.takeWhile (!Text.isLineBreak ·)))) := by
    have hopen := head_cutLines (name ++ back) opened hcut.unbroken
      (.inr (List.append_ne_nil_of_left_ne_nil hne back))
    rw [List.takeWhile_append_of_pos fun d hd => by simp [isLineBreak_of_isWordPart (hname d hd)]]
      at hopen
    obtain ⟨line, hfirst, hline⟩ := Option.map_eq_some_iff.mp hopen
    rw [getElem?_lines_cut hcut htext (head_ne_newline hname hne back),
      List.getElem?_append_right (Nat.le_refl _), Nat.sub_self, ← List.head?_eq_getElem?, hfirst,
      Option.map_some, hline]
  have hfront : opened.takeWhile isWordPart = front.reverse.takeWhile isWordPart := by
    rw [hopened]
    exact takeWhile_takeWhile_of_imp
      (fun d h => ne_newline_of_unbroken (isLineBreak_of_isWordPart h)) _
  have hback : (back.takeWhile (!Text.isLineBreak ·)).takeWhile isWordPart
      = back.takeWhile isWordPart :=
    takeWhile_takeWhile_of_imp (fun d h => by simp [isLineBreak_of_isWordPart h]) back
  have hlength : opened.length = opened.reverse.length := List.length_reverse.symm
  rw [← hcount, ← hopened, wordAt_of_getElem? hline, String.toList_ofList, hlength,
    wordAround_append _ _ hname hindex.le, List.reverse_reverse, hfront, hback]
  rw [String.length_ofList, List.length_append, List.length_append, List.length_reverse]
  omega

/-- If another character ends a line too, the word is one in front of the name: the same as in the
text that ends there. -/
theorem wordAt_eq_of_stray {text : String} (htext : text.toList = front ++ (name ++ back))
    (hends : newlinesEndLines front = false) (hname : ∀ c ∈ name, isWordPart c = true)
    (hne : name ≠ []) (character : Int) :
    wordAt text (front.count '\n' : Nat) character
      = wordAt (String.ofList front) (front.count '\n' : Nat) character := by
  obtain ⟨closed, opened, hcut⟩ := exists_cut front [] (by simp)
  have hcount : front.count '\n' < closed.length := hcut.exceeds hends
  have halone : (String.ofList front).toList = front ++ [] := by
    rw [String.toList_ofList, List.append_nil]
  refine wordAt_congr ?_ character
  rw [getElem?_lines_cut hcut htext (head_ne_newline hname hne back),
    getElem?_lines_cut hcut halone (by simp), List.getElem?_append_left hcount,
    List.getElem?_append_left hcount]

/-! ### Names under the cursor -/

variable {text : String} {tokens : List Token} {token : Token}

/-- All characters of a name are characters of words. -/
theorem isWordPart_of_tokenClass {literal : List Char} (h : TokenClass .identifier literal) :
    ∀ c ∈ literal, isWordPart c = true := by
  cases h with
  | identifier hstart hmore =>
      exact List.forall_mem_cons.mpr
        ⟨isWordPart_of_isNameChar (isNameChar_of_isNameStart hstart),
          fun d hd => isWordPart_of_isNameChar (hmore d hd)⟩

/-- What is in front of a list and behind it is nothing, if the whole is the list. -/
theorem append_append_eq_self_iff {α : Type} {before middle after : List α} :
    before ++ (middle ++ after) = middle ↔ before = [] ∧ after = [] := by
  constructor
  · intro h
    have hlength := congrArg List.length h
    simp only [List.length_append] at hlength
    exact ⟨List.length_eq_zero_iff.mp (by omega), List.length_eq_zero_iff.mp (by omega)⟩
  · rintro ⟨rfl, rfl⟩
    rw [List.nil_append, List.append_nil]

/-- Pointing at a character of a name finds the name if lines in front of it end at newlines and no
character of a word touches it. If lines end otherwise too, what is found does not depend on
the name. -/
theorem wordAt_eq_literal_iff (file : String) (hlex : tokenize text = .ok tokens)
    (htoken : token ∈ tokens) (hkind : token.kind = .identifier) {index : Nat}
    (hindex : index < token.literal.length) :
    let place := (Source.mk file text).editorPosition ((token.offset + index : Nat) : Int)
    let before := text.toList.take token.offset
    let behind := text.toList.drop token.stop
    wordAt text place.line place.character = token.literal ↔
      if newlinesEndLines before then
        (∀ c ∈ before.getLast?, isWordPart c = false) ∧ ∀ c ∈ behind.head?, isWordPart c = false
      else wordAt (String.ofList before) place.line place.character = token.literal := by
  intro place before behind
  obtain ⟨htext, hoffset⟩ := toList_eq_of_mem hlex htoken
  have hname : ∀ c ∈ token.literal.toList, isWordPart c = true := by
    have hclass := Segmentation.tokenClass (tokensFrom_eq_ok_iff.mp hlex) token htoken
    rw [hkind] at hclass
    exact isWordPart_of_tokenClass hclass
  have hnewline : '\n' ∉ token.literal.toList := fun hmem =>
    absurd (hname '\n' hmem) (by decide)
  have hwithin : index < token.literal.toList.length := by rwa [String.length_toList]
  have hne : token.literal.toList ≠ [] := List.length_pos_iff.mp (Nat.zero_lt_of_lt hwithin)
  have hplace : place
      = ⟨before.count '\n', (before.reverse.takeWhile (· != '\n')).length + index⟩ := by
    have hposition := editorPosition_append file htext hnewline hwithin.le
    rwa [hoffset] at hposition
  rw [hplace]
  cases hends : newlinesEndLines before with
  | true =>
      rw [if_pos rfl, wordAt_eq_run htext hends hname hwithin, ← String.toList_inj,
        String.toList_ofList, append_append_eq_self_iff, List.reverse_eq_nil_iff,
        takeWhile_isWordPart_eq_nil_iff, takeWhile_isWordPart_eq_nil_iff, List.head?_reverse]
  | false => rw [if_neg (by decide), wordAt_eq_of_stray htext hends hname hne]

/-- A name behind a return and a newline is found at its second character. -/
theorem wordAt_second_character :
    tokenize "x =\r\nbc;" = .ok [⟨.identifier, "x", 0⟩, ⟨.operator, "=", 2⟩,
        ⟨.identifier, "bc", 5⟩, ⟨.operator, ";", 7⟩]
      ∧ (Source.mk "" "x =\r\nbc;").editorPosition ((5 + 1 : Nat) : Int) = ⟨1, 1⟩
      ∧ wordAt "x =\r\nbc;" 1 1 = "bc" := by
  have hlex : tokenize "x =\r\nbc;" = .ok [⟨.identifier, "x", 0⟩, ⟨.operator, "=", 2⟩,
      ⟨.identifier, "bc", 5⟩, ⟨.operator, ";", 7⟩] := by rfl
  have hmem : (⟨.identifier, "bc", 5⟩ : Token) ∈ [⟨.identifier, "x", 0⟩, ⟨.operator, "=", 2⟩,
      ⟨.identifier, "bc", 5⟩, ⟨.operator, ";", 7⟩] := by decide
  have hindex : 1 < "bc".length := by decide
  have hends : newlinesEndLines ("x =\r\nbc;".toList.take 5) = true := by rfl
  refine ⟨hlex, rfl, (wordAt_eq_literal_iff "" hlex hmem rfl hindex).mpr ?_⟩
  rw [if_pos hends]
  constructor
  · rintro c ⟨⟩
    rfl
  · rintro c ⟨⟩
    rfl

/-- A hyphen in front of a name is taken for a part of it, and behind a return alone the name is
looked for where it is not. -/
theorem wordAt_ne_literal :
    (tokenize "1 -x;" = .ok [⟨.integer, "1", 0⟩, ⟨.operator, "-", 2⟩, ⟨.identifier, "x", 3⟩,
        ⟨.operator, ";", 4⟩]
      ∧ (Source.mk "" "1 -x;").editorPosition 3 = ⟨0, 3⟩ ∧ wordAt "1 -x;" 0 3 = "-x")
    ∧ tokenize "a;\rb;" = .ok [⟨.identifier, "a", 0⟩, ⟨.operator, ";", 1⟩, ⟨.identifier, "b", 3⟩,
        ⟨.operator, ";", 4⟩]
      ∧ (Source.mk "" "a;\rb;").editorPosition 3 = ⟨0, 3⟩ ∧ wordAt "a;\rb;" 0 3 = "" :=
  ⟨⟨rfl, rfl, rfl⟩, rfl, rfl, rfl⟩

end Proofs

end PlcLang
