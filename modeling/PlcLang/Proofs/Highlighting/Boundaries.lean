import PlcLang.Highlight
import PlcLang.Proofs.Lexical.Segmentation

/-!
# `PlcLang.Proofs.Highlighting.Boundaries`: where pieces begin

The highlighter and the lexer cut a text by rules of their own. They need not cut it at the same
places, but some cuts of the lexer are cuts of the highlighter as well: at an identifier and at a
literal between quotes a piece begins whatever the highlighter has made of the text in front
(`separates_of_segmentation`).

What carries this is how far a rule can look ahead (`Modest`). Outside of strings a piece goes on,
behind its first character, with white space, digits, points and equals signs only, unless it is a
word; none of these begins an identifier. A word goes on into an identifier only if it is written
directly in front of it, and the lexer would have made one identifier of both. So between two
literals in quotes nothing reaches over the beginning of an identifier
(`separates_of_boundary`), and over a literal in quotes the highlighter goes as the lexer does
(`separates_string`, `separates_character`).
-/

set_option autoImplicit false

namespace PlcLang

open Lexer

namespace Highlight

/-- The piece that begins at an offset, if one does. Pieces have no offsets of their
own, so their lengths are counted off. -/
def pieceAt? : Nat → List Piece → Option Piece
  | _, [] => none
  | offset, piece :: rest =>
    if offset = 0 then some piece
    else if offset < piece.text.length then none
    else pieceAt? (offset - piece.text.length) rest

end Highlight

namespace Proofs

open Highlight

/-! ### One piece after the other -/

/-- The characters that belong to a piece already taken are passed over, whether a
string is open or not. -/
theorem piecesFrom_skip (inside : Bool) (skip : Nat) (text : List Char) :
    piecesFrom inside skip text = piecesFrom inside 0 (text.drop skip) := by
  -- The pieces are counted down one character at a time, so the induction is on the text.
  induction text generalizing skip with
  | nil => simp [piecesFrom]
  | cons c rest ih =>
      cases skip with
      | zero => rfl
      | succ skip => rw [piecesFrom, ih, List.drop_succ_cons]

variable {inside : Bool} {c : Char} {rest : List Char} {kind : PieceKind} {length : Nat}

/-- The first piece is what the first rule takes that fits, and the rest is cut
behind it. A quote opens or closes a string. -/
theorem piecesFrom_cons
    (h : firstMatch (if inside then insideRules else outsideRules) (c :: rest) = (kind, length))
    (hpos : 0 < length) :
    piecesFrom inside 0 (c :: rest)
      = ⟨kind, String.ofList ((c :: rest).take length)⟩
        :: piecesFrom (inside != (c == '"')) 0 ((c :: rest).drop length) := by
  obtain ⟨length, rfl⟩ := Nat.exists_eq_succ_of_ne_zero (Nat.pos_iff_ne_zero.mp hpos)
  rw [piecesFrom]
  dsimp only
  rw [h]
  dsimp only
  rw [piecesFrom_skip, Nat.succ_sub_one, List.drop_succ_cons]

/-- The first piece begins at the front. -/
theorem pieceAt?_zero (inside : Bool)
    (h : firstMatch (if inside then insideRules else outsideRules) (c :: rest) = (kind, length))
    (hpos : 0 < length) :
    pieceAt? 0 (piecesFrom inside 0 (c :: rest))
      = some ⟨kind, String.ofList ((c :: rest).take length)⟩ := by
  rw [piecesFrom_cons h hpos, pieceAt?, if_pos rfl]

/-- Behind the first piece the others begin, at offsets that are larger by its
length. -/
theorem pieceAt?_add (inside : Bool)
    (h : firstMatch (if inside then insideRules else outsideRules) (c :: rest) = (kind, length))
    (hpos : 0 < length) (hle : length ≤ (c :: rest).length) (n : Nat) :
    pieceAt? (length + n) (piecesFrom inside 0 (c :: rest))
      = pieceAt? n (piecesFrom (inside != (c == '"')) 0 ((c :: rest).drop length)) := by
  have hlength : (String.ofList ((c :: rest).take length)).length = length := by
    rw [String.length_ofList, List.length_take, Nat.min_eq_left hle]
  rw [piecesFrom_cons h hpos, pieceAt?, if_neg (by omega), hlength, if_neg (by omega),
    Nat.add_sub_cancel_left]

/-- The pieces that begin in `front` end there, and what is behind is cut as if
`front` were not there. -/
def Separates (front back : List Char) : Prop :=
  ∀ n, pieceAt? (front.length + n) (piecesFrom false 0 (front ++ back))
    = pieceAt? n (piecesFrom false 0 back)

/-- In front of nothing there is nothing to go on from. -/
theorem Separates.nil (back : List Char) : Separates [] back := fun n => by
  rw [List.length_nil, Nat.zero_add, List.nil_append]

/-- Two parts in front, each of them cut off from what is behind it. -/
theorem Separates.trans {first second back : List Char} (h : Separates first (second ++ back))
    (h' : Separates second back) : Separates (first ++ second) back := by
  intro n
  rw [List.length_append, Nat.add_assoc, List.append_assoc, h, h']

/-! ### How far the rules look ahead -/

/-- A character that may belong to a piece that is no word, behind the first
character of it: white space, a backspace, a digit, a point or an equals sign. -/
def isSoft (c : Char) : Bool :=
  Text.isBlank c || c == '\x08' || Text.isDigit c || c == '.' || c == '='

/-- With what a piece that begins with `c` goes on: with soft characters, or, if `c`
begins a name, with characters of a name. -/
inductive GoesOnWith (c : Char) (more : List Char) : Prop where
  | soft (hmore : ∀ d ∈ more, isSoft d = true)
  | word (hstart : isNameStart c = true) (hmore : ∀ d ∈ more, isNameChar d = true)

/-- Where no quote is in front, the rule takes one character and what may go on
behind it. Rules for literals between quotes take more, but they begin at a quote. -/
def Modest (rule : List Char → Option Nat) : Prop :=
  ∀ c rest length, c ≠ '"' → c ≠ '\'' → rule (c :: rest) = some length →
    ∃ more back, rest = more ++ back ∧ length = more.length + 1 ∧ GoesOnWith c more

/-- A piece of one character goes on with nothing. -/
theorem GoesOnWith.nil (c : Char) : GoesOnWith c [] :=
  .soft fun _ h => absurd h List.not_mem_nil

/-- A rule that needs at least one character has taken one, and all that were
counted. -/
theorem atLeastOne_eq_some {n m : Nat} (h : atLeastOne n = some m) : n = m ∧ 0 < m := by
  unfold atLeastOne at h
  by_cases hn : n = 0
  · rw [if_pos hn] at h
    cases h
  · rw [if_neg hn] at h
    cases h
    exact ⟨rfl, Nat.pos_of_ne_zero hn⟩

/-- A run at the front has the first character in it, and goes on as far as the
characters are of the same sort. -/
theorem atLeastOne_countWhile {p : Char → Bool} {c : Char} {rest : List Char} {length : Nat}
    (h : atLeastOne (countWhile p (c :: rest)) = some length) :
    p c = true ∧ length = (rest.takeWhile p).length + 1 := by
  obtain ⟨rfl, hpos⟩ := atLeastOne_eq_some h
  unfold countWhile at hpos ⊢
  rw [List.takeWhile_cons] at hpos ⊢
  by_cases hc : p c = true
  · rw [if_pos hc, List.length_cons]
    exact ⟨hc, rfl⟩
  · rw [if_neg hc] at hpos
    exact absurd hpos (Nat.lt_irrefl 0)

/-- All characters of a run are of one sort. -/
theorem mem_takeWhile {p : Char → Bool} {text : List Char} {d : Char}
    (h : d ∈ text.takeWhile p) : p d = true :=
  List.all_eq_true.mp (List.all_takeWhile) d h

/-- White space goes on with white space. -/
theorem modest_space : Modest matchSpace := by
  intro c rest length _ _ h
  obtain ⟨-, rfl⟩ := atLeastOne_countWhile h
  refine ⟨_, _, List.takeWhile_append_dropWhile.symm, rfl, .soft fun d hd => ?_⟩
  unfold isSoft
  rw [mem_takeWhile hd]
  rfl

/-- An integer is a digit or a sign, and digits behind it. -/
theorem matchInteger_eq_some {c : Char} {rest : List Char} {length : Nat}
    (h : matchInteger (c :: rest) = some length) :
    ∃ digits back, rest = digits ++ back ∧ length = digits.length + 1
      ∧ ∀ d ∈ digits, Text.isDigit d = true := by
  refine ⟨_, _, List.takeWhile_append_dropWhile.symm, ?_, fun d hd => mem_takeWhile hd⟩
  obtain ⟨digits, hdigits, rfl⟩ := Option.map_eq_some_iff.mp h
  by_cases hsign : c = '+' ∨ c = '-'
  · have hone : signLength (c :: rest) = 1 := if_pos hsign
    rw [hone] at hdigits ⊢
    obtain ⟨rfl, -⟩ := atLeastOne_eq_some hdigits
    exact Nat.add_comm 1 _
  · have hzero : signLength (c :: rest) = 0 := if_neg hsign
    rw [hzero] at hdigits ⊢
    rw [Nat.zero_add]
    exact (atLeastOne_countWhile hdigits).2

/-- A digit may go on a piece that is no word. -/
theorem isSoft_of_isDigit {c : Char} (h : Text.isDigit c = true) : isSoft c = true := by
  simp [isSoft, h]

/-- An integer goes on with digits. -/
theorem modest_integer : Modest matchInteger := by
  intro c rest length _ _ h
  obtain ⟨digits, back, hrest, hlength, hdigits⟩ := matchInteger_eq_some h
  exact ⟨digits, back, hrest, hlength, .soft fun d hd => isSoft_of_isDigit (hdigits d hd)⟩

/-- A decimal goes on with digits and one point. -/
theorem modest_decimal : Modest matchDecimal := by
  intro c rest length _ _ h
  obtain ⟨whole, hwhole, h⟩ := Option.bind_eq_some_iff.mp h
  obtain ⟨digits, back, rfl, rfl, hdigits⟩ := matchInteger_eq_some hwhole
  rw [List.drop_succ_cons, List.drop_left] at h
  split at h
  · next fraction _ =>
      obtain ⟨places, hplaces, hlength⟩ := Option.bind_eq_some_iff.mp h
      obtain ⟨rfl, -⟩ := atLeastOne_eq_some hplaces
      obtain rfl := Option.some.inj hlength
      refine ⟨digits ++ '.' :: fraction.takeWhile Text.isDigit, fraction.dropWhile Text.isDigit,
        ?_, ?_, .soft ?_⟩
      · rw [List.append_assoc, List.cons_append, List.takeWhile_append_dropWhile]
      · rw [List.length_append, List.length_cons, countWhile]
        omega
      · rw [List.forall_mem_append, List.forall_mem_cons]
        exact ⟨fun d hd => isSoft_of_isDigit (hdigits d hd), rfl,
          fun d hd => isSoft_of_isDigit (mem_takeWhile hd)⟩
  · cases h

/-- A word from a list goes on with characters of names, as all words of the lists
are made of letters. -/
theorem modest_word {words : List String}
    (hwords : ∀ word ∈ words, word.toList ≠ [] ∧ word.toList.all isNameStart = true) :
    Modest (wordIn words) := by
  intro c rest length _ _ h
  unfold wordIn at h
  dsimp only at h
  split at h
  · next hcontains =>
      obtain rfl := Option.some.inj h
      obtain ⟨hne, hall⟩ := hwords _ (List.contains_iff_mem.mp hcontains)
      rw [String.toList_ofList] at hne hall
      rw [List.takeWhile_cons] at hne hall ⊢
      by_cases hc : Text.isWordChar c = true
      · rw [if_pos hc] at hall ⊢
        obtain ⟨hstart, hmore⟩ := List.forall_mem_cons.mp (List.all_eq_true.mp hall)
        exact ⟨_, _, List.takeWhile_append_dropWhile.symm, rfl,
          .word hstart fun d hd => isNameChar_of_isNameStart (hmore d hd)⟩
      · rw [if_neg hc] at hne
        exact absurd rfl hne
  · cases h

/-- Letters of ASCII by their codes. -/
theorem isAlpha_iff {c : Char} :
    c.isAlpha = true ↔ 65 ≤ c.toNat ∧ c.toNat ≤ 90 ∨ 97 ≤ c.toNat ∧ c.toNat ≤ 122 := by
  show (decide ('A'.val ≤ c.val ∧ c.val ≤ 'Z'.val)
    || (decide ('a'.val ≤ c.val) && decide (c.val ≤ 'z'.val))) = true ↔ _
  simp only [Bool.or_eq_true, Bool.and_eq_true, decide_eq_true_eq, UInt32.le_iff_toNat_le]
  exact Iff.rfl

/-- Letters and digits of ASCII are in ASCII. -/
theorem toNat_lt_of_isAlphanum {c : Char} (h : c.isAlphanum = true) : c.toNat < 128 := by
  rcases Bool.or_eq_true_iff.mp h with halpha | hdigit
  · have hcodes := isAlpha_iff.mp halpha
    omega
  · have hcodes := isDigit_iff.mp hdigit
    omega

/-- In ASCII a name goes on with letters, digits, underscores and hyphens, to the
lexer as to the highlighter. Their predicates differ only beyond it. -/
theorem isNameChar_eq_of_lt {c : Char} (h : c.toNat < 128) :
    isNameChar c = (c.isAlphanum || c == '_' || c == '-') := by
  unfold isNameChar Text.isLetter
  rw [if_pos h]
  rfl

/-- In ASCII a name begins with a letter or an underscore. -/
theorem isNameStart_eq_of_lt {c : Char} (h : c.toNat < 128) :
    isNameStart c = (c.isAlpha || c == '_') := by
  unfold isNameStart Text.isLetter
  rw [if_pos h]

/-- What begins a name to the highlighter is in ASCII, and begins one to the lexer. -/
theorem isNameStart_of_isAlpha {c : Char} (h : (c.isAlpha || c == '_') = true) :
    c.toNat < 128 ∧ isNameStart c = true := by
  have hascii : c.toNat < 128 := by
    rcases Bool.or_eq_true_iff.mp h with halpha | hscore
    · exact toNat_lt_of_isAlphanum (by rw [Char.isAlphanum, halpha, Bool.true_or])
    · rw [beq_iff_eq.mp hscore]
      decide
  exact ⟨hascii, by rwa [isNameStart_eq_of_lt hascii]⟩

/-- What goes on a name to the highlighter is in ASCII, and goes on one to the
lexer. -/
theorem isNameChar_of_isAlphanum {c : Char}
    (h : (c.isAlphanum || c == '_' || c == '-') = true) :
    c.toNat < 128 ∧ isNameChar c = true := by
  have hascii : c.toNat < 128 := by
    rcases Bool.or_eq_true_iff.mp h with h | hhyphen
    · rcases Bool.or_eq_true_iff.mp h with halphanum | hscore
      · exact toNat_lt_of_isAlphanum halphanum
      · rw [beq_iff_eq.mp hscore]
        decide
    · rw [beq_iff_eq.mp hhyphen]
      decide
  exact ⟨hascii, by rwa [isNameChar_eq_of_lt hascii]⟩

/-- A name of the highlighter is one to the lexer as well, as far as it goes. -/
theorem modest_name : Modest matchName := by
  intro c rest length _ _ h
  unfold matchName at h
  dsimp only at h
  by_cases hc : (c.isAlpha || c == '_') = true
  · rw [if_pos hc] at h
    obtain rfl := Option.some.inj h
    exact ⟨_, _, List.takeWhile_append_dropWhile.symm, Nat.add_comm 1 _,
      .word (isNameStart_of_isAlpha hc).2 fun d hd =>
        (isNameChar_of_isAlphanum (mem_takeWhile hd)).2⟩
  · rw [if_neg hc] at h
    cases h

/-- A rule that takes one character is modest. -/
theorem modest_one {rule : List Char → Option Nat}
    (h : ∀ c rest length, rule (c :: rest) = some length → length = 1) : Modest rule :=
  fun c rest length _ _ hrule => ⟨[], rest, rfl, h c rest length hrule, .nil c⟩

/-- So is a rule for single signs. -/
theorem modest_oneOf (chars : List Char) : Modest (matchOneOf chars) :=
  modest_one fun c rest length h => by
    unfold matchOneOf at h
    dsimp only at h
    split at h
    · exact (Option.some.inj h).symm
    · cases h

/-- So is the rule for any character, the last one. -/
theorem modest_any : Modest matchAny :=
  modest_one fun c rest length h => by
    unfold matchAny at h
    dsimp only at h
    split at h
    · cases h
    · exact (Option.some.inj h).symm

/-- An operator of two characters goes on with an equals sign. -/
theorem modest_longOperator : Modest matchLongOperator := by
  intro c rest length _ _ h
  unfold matchLongOperator at h
  split at h
  · next d more heq =>
      obtain ⟨rfl, rfl⟩ := List.cons.inj heq
      split at h
      · obtain rfl := Option.some.inj h
        exact ⟨['='], more, rfl, rfl, .soft (List.all_eq_true.mp (by decide))⟩
      · cases h
  · cases h

/-- A character literal begins at a quote, and of that nothing is asked. -/
theorem modest_character : Modest matchCharacter := by
  intro c rest length _ hquote h
  unfold matchCharacter at h
  split at h
  · next heq => exact absurd (List.cons.inj heq).1 hquote
  · next heq => exact absurd (List.cons.inj heq).1 hquote
  · cases h

/-- All rules outside of strings are modest. This goes through the list of them
once. -/
theorem modest_of_mem {entry : PieceKind × (List Char → Option Nat)}
    (h : entry ∈ outsideRules) : Modest entry.2 := by
  have hall : ∀ entry ∈ outsideRules, Modest entry.2 := by
    unfold outsideRules
    simp only [List.forall_mem_cons]
    exact ⟨modest_space, modest_oneOf _, modest_character, modest_decimal, modest_integer,
      modest_word (by decide), modest_word (by decide), modest_word (by decide),
      modest_word (by decide), modest_word (by decide), modest_word (by decide), modest_name,
      modest_longOperator, modest_oneOf _, modest_oneOf _, modest_any,
      fun _ h => absurd h List.not_mem_nil⟩
  exact hall entry h

/-- The first piece of a text without a quote in front is one character and what may
go on behind it. -/
theorem exists_of_firstMatch {c : Char} {rest : List Char} {kind : PieceKind} {length : Nat}
    (h : firstMatch outsideRules (c :: rest) = (kind, length)) (hstring : c ≠ '"')
    (hquote : c ≠ '\'') :
    ∃ more back, rest = more ++ back ∧ length = more.length + 1 ∧ GoesOnWith c more := by
  rcases Option.getD_eq_iff.mp h with hfind | ⟨-, heq⟩
  · obtain ⟨entry, hentry, hrule⟩ := List.exists_of_findSome?_eq_some hfind
    obtain ⟨other, hother, heq⟩ := Option.map_eq_some_iff.mp hrule
    obtain ⟨-, rfl⟩ := Prod.mk.inj heq
    exact modest_of_mem hentry c rest other hstring hquote hother
  · -- where no rule matches, the piece is the one character
    obtain ⟨-, rfl⟩ := Prod.mk.inj heq
    exact ⟨[], rest, rfl, rfl, .nil c⟩

/-! ### Where nothing reaches over -/

/-- At the end of the text no name is written that could go on: nothing that begins
a name is followed by characters of names only. -/
def NoOpenName (text : List Char) : Prop :=
  ∀ front c more, text = front ++ c :: more → isNameStart c = true →
    ¬ ∀ d ∈ more, isNameChar d = true

/-- At the end of nothing there is no name. -/
theorem NoOpenName.nil : NoOpenName [] := fun front c more h =>
  absurd h.symm (List.append_ne_nil_of_right_ne_nil front (List.cons_ne_nil c more))

/-- What is at the end of the text is at the end of its last part. -/
theorem NoOpenName.of_append {front back : List Char} (h : NoOpenName (front ++ back)) :
    NoOpenName back := fun start c more heq =>
  h (front ++ start) c more (by rw [heq, List.append_assoc])

/-- In a text without quotes no piece reaches over a character that is nothing to go
on with, unless there is a name that it goes on. By induction on the length of the
text, one piece after the other. -/
theorem separates_of_boundary {front rest : List Char} {d : Char}
    (hfront : ∀ c ∈ front, c ≠ '"' ∧ c ≠ '\'') (hsoft : isSoft d = false)
    (hname : isNameChar d = true → NoOpenName front) : Separates front (d :: rest) := by
  -- A piece takes several characters at once, so the induction is on the length.
  induction hn : front.length using Nat.strongRecOn generalizing front with
  | ind n ih =>
      subst hn
      cases front with
      | nil => exact .nil _
      | cons c front =>
          obtain ⟨⟨hstring, hquote⟩, hfront⟩ := List.forall_mem_cons.mp hfront
          cases hfirst : firstMatch outsideRules (c :: (front ++ d :: rest)) with
          | mk kind length =>
              obtain ⟨more, back, hsplit, rfl, hmore⟩ :=
                exists_of_firstMatch hfirst hstring hquote
              -- the piece ends in `front`
              obtain ⟨between, rfl, rfl⟩ : ∃ between, front = more ++ between
                  ∧ back = between ++ d :: rest := by
                rcases List.append_eq_append_iff.mp hsplit with
                  ⟨beyond, rfl, hbeyond⟩ | ⟨between, hbetween, hback⟩
                · cases beyond with
                  | nil => exact ⟨[], by simp, hbeyond.symm⟩
                  | cons e beyond =>
                      obtain ⟨rfl, -⟩ := List.cons.inj hbeyond
                      exfalso
                      cases hmore with
                      | soft hmore =>
                          rw [hmore d (by simp)] at hsoft
                          cases hsoft
                      | word hstart hmore =>
                          rw [List.forall_mem_append, List.forall_mem_cons] at hmore
                          exact hname hmore.2.1 [] c front rfl hstart hmore.1
                · exact ⟨between, hbetween, hback⟩
              have hseparates : Separates between (d :: rest) := by
                refine ih between.length ?_ (fun e he => ?_) (fun h => ?_) rfl
                · rw [List.length_cons, List.length_append]
                  omega
                · exact hfront e (List.mem_append_right more he)
                · have hopen := hname h
                  rw [← List.cons_append] at hopen
                  exact hopen.of_append
              have hdrop : (c :: (more ++ between ++ d :: rest)).drop (more.length + 1)
                  = between ++ d :: rest := by
                rw [List.drop_succ_cons, List.append_assoc, List.drop_left]
              intro n
              have hlength : (c :: (more ++ between)).length + n
                  = more.length + 1 + (between.length + n) := by
                rw [List.length_cons, List.length_append]
                omega
              have hle : more.length + 1 ≤ (c :: (more ++ between ++ d :: rest)).length := by
                rw [List.length_cons, List.length_append, List.length_append]
                omega
              rw [hlength, List.cons_append,
                pieceAt?_add false hfirst (Nat.succ_pos _) hle, hdrop,
                beq_eq_false_iff_ne.mpr hstring]
              exact hseparates n

/-! ### Literals between quotes -/

/-- A character that a plain piece inside a string takes: no quote and no backslash. -/
def isPlain (c : Char) : Bool :=
  c != '"' && c != '\\'

/-- What a plain piece takes may be taken off the body of a string, and the rest is
a body still. -/
theorem quotedBody_dropWhile {body text : List Char} (h : QuotedBody '"' body text) :
    ∃ text', QuotedBody '"' (body.dropWhile isPlain) text' := by
  induction h with
  | nil => exact ⟨[], .nil⟩
  | @plain c body text hmark hslash rest ih =>
      rw [List.dropWhile_cons_of_pos (by simp [isPlain, hmark, hslash])]
      exact ih
  | @escape letter c body text hletter rest ih =>
      rw [List.dropWhile_cons_of_neg (by decide)]
      exact ⟨_, .escape hletter rest⟩

/-- A plain piece does not take the quote at the end. -/
theorem takeWhile_isPlain (body back : List Char) :
    (body ++ '"' :: back).takeWhile isPlain = body.takeWhile isPlain := by
  induction body with
  | nil => rfl
  | cons c body ih => rw [List.cons_append, List.takeWhile_cons, List.takeWhile_cons, ih]

/-- Inside of a string an escape of the lexer is a piece of two characters. -/
theorem firstMatch_escape {letter : Char} (h : Text.isEscapeLetter letter = true)
    (rest : List Char) : firstMatch insideRules ('\\' :: letter :: rest) = (.escape, 2) := by
  simp [firstMatch, insideRules, matchEscape, h]

/-- Inside of a string plain characters are one piece, as far as they go. -/
theorem firstMatch_plain {c : Char} (h : isPlain c = true) (rest : List Char) :
    firstMatch insideRules (c :: rest) = (.string, (rest.takeWhile isPlain).length + 1) := by
  have hescape : matchEscape (c :: rest) = none := by
    unfold matchEscape
    split
    · next heq =>
        rw [(List.cons.inj heq).1] at h
        exact absurd h (by decide)
    · rfl
  have hplain : matchPlain (c :: rest) = some ((rest.takeWhile isPlain).length + 1) := by
    show atLeastOne (countWhile isPlain (c :: rest)) = _
    rw [countWhile, List.takeWhile_cons_of_pos h]
    rfl
  simp [firstMatch, insideRules, hescape, hplain]

/-- Inside a string the pieces end with the string, and behind it the highlighter is
outside again. By induction on the length of the body, one piece after the other. -/
theorem pieceAt?_body {body text : List Char} (h : QuotedBody '"' body text) (back : List Char)
    (n : Nat) :
    pieceAt? (body.length + 1 + n) (piecesFrom true 0 (body ++ '"' :: back))
      = pieceAt? n (piecesFrom false 0 back) := by
  -- One piece takes a whole run of plain characters, so what is left is no tail of the body in
  -- one step: the induction is on the length.
  induction hn : body.length using Nat.strongRecOn generalizing body text with
  | ind m ih =>
      subst hn
      cases h with
      | nil =>
          have hfirst : firstMatch insideRules ('"' :: back) = (.string, 1) := rfl
          rw [List.nil_append, List.length_nil, Nat.zero_add,
            pieceAt?_add true hfirst Nat.one_pos (by simp)]
          rfl
      | @escape letter c body text hletter hrest =>
          have hescape : Text.isEscapeLetter letter = true := by
            rw [Text.isEscapeLetter, hletter]
            rfl
          have hfirst := firstMatch_escape hescape (body ++ '"' :: back)
          have hlength : ('\\' :: letter :: body).length + 1 + n = 2 + (body.length + 1 + n) := by
            simp only [List.length_cons]
            omega
          rw [hlength, List.cons_append, List.cons_append,
            pieceAt?_add true hfirst Nat.two_pos (by simp)]
          exact ih body.length (by simp only [List.length_cons]; omega) hrest rfl
      | @plain c body text hmark hslash hrest =>
          have hfirst := firstMatch_plain (c := c) (by simp [isPlain, hmark, hslash])
            (body ++ '"' :: back)
          rw [takeWhile_isPlain] at hfirst
          obtain ⟨text', hbody⟩ := quotedBody_dropWhile hrest
          have hsplit : body = body.takeWhile isPlain ++ body.dropWhile isPlain :=
            List.takeWhile_append_dropWhile.symm
          generalize body.takeWhile isPlain = run at hsplit hfirst
          generalize body.dropWhile isPlain = left at hsplit hbody
          subst hsplit
          have hlength : (c :: (run ++ left)).length + 1 + n
              = run.length + 1 + (left.length + 1 + n) := by
            simp only [List.length_cons, List.length_append]
            omega
          have hle : run.length + 1 ≤ (c :: (run ++ left ++ '"' :: back)).length := by
            simp only [List.length_cons, List.length_append]
            omega
          have hdrop : (c :: (run ++ left ++ '"' :: back)).drop (run.length + 1)
              = left ++ '"' :: back := by
            rw [List.drop_succ_cons, List.append_assoc, List.drop_left]
          rw [hlength, List.cons_append, pieceAt?_add true hfirst (Nat.succ_pos _) hle,
            hdrop, beq_eq_false_iff_ne.mpr hmark]
          refine ih left.length ?_ hbody rfl
          simp only [List.length_cons, List.length_append]
          omega

/-- A string of the lexer is one of the highlighter, so what is behind it is cut as
if it were not there. -/
theorem separates_string {literal text : List Char} (h : QuotedText '"' literal text)
    (back : List Char) : Separates literal back := by
  cases h with
  | @mk body _ hbody =>
      intro n
      have hfirst : firstMatch outsideRules ('"' :: (body ++ '"' :: back)) = (.string, 1) := by
        rfl
      have hlength : ('"' :: (body ++ ['"'])).length + n = 1 + (body.length + 1 + n) := by
        simp only [List.length_cons, List.length_append, List.length_nil]
        omega
      rw [hlength, List.cons_append, List.append_assoc, List.singleton_append,
        pieceAt?_add false hfirst Nat.one_pos (by simp)]
      exact pieceAt?_body hbody back n

/-- A character literal is a piece. Only the rule for these and the last one begin
at its quote. -/
theorem firstMatch_character {rest : List Char} {length : Nat}
    (h : matchCharacter ('\'' :: rest) = some length) :
    firstMatch outsideRules ('\'' :: rest) = (.character, length) := by
  have hspace : matchSpace ('\'' :: rest) = none := rfl
  have hstring : matchOneOf ['"'] ('\'' :: rest) = none := rfl
  simp [firstMatch, outsideRules, hspace, hstring, h]

/-- A character literal of the lexer is a piece, so what is behind it is cut as if
it were not there. -/
theorem separates_character {literal : List Char} {c : Char} (h : QuotedText '\'' literal [c])
    (back : List Char) : Separates literal back := by
  intro n
  cases h with
  | mk hbody =>
      cases hbody with
      | plain hmark hslash hrest =>
          cases hrest
          have hmatch : matchCharacter ('\'' :: c :: '\'' :: back) = some 3 := by
            simp [matchCharacter, hmark, hslash]
          exact pieceAt?_add false (firstMatch_character hmatch) (by decide) (by simp) n
      | @escape letter _ _ _ hletter hrest =>
          cases hrest
          have hmatch : matchCharacter ('\'' :: '\\' :: letter :: '\'' :: back) = some 4 := by
            simp [matchCharacter, Text.isEscapeLetter, hletter]
          exact pieceAt?_add false (firstMatch_character hmatch) (by decide) (by simp) n

/-! ### The cuts of the lexer -/

/-- A name that might go on is at the end of the text only if what is there now
could belong to one. -/
theorem NoOpenName.append {front : List Char} {c : Char} {more : List Char}
    (hstart : ∀ d ∈ c :: more, isNameStart d = false)
    (hopen : isNameChar c = false ∨ NoOpenName front) : NoOpenName (front ++ c :: more) := by
  intro start d rest heq hd hrest
  rcases List.append_eq_append_iff.mp heq with ⟨between, -, hback⟩ | ⟨between, hfront, hback⟩
  · -- the name would begin in what is there now
    have hmem : d ∈ c :: more := by
      rw [hback]
      exact List.mem_append_right between List.mem_cons_self
    rw [hstart d hmem] at hd
    cases hd
  · cases between with
    | nil =>
        obtain rfl := (List.cons.inj hback).1
        rw [hstart d List.mem_cons_self] at hd
        cases hd
    | cons e between =>
        obtain ⟨rfl, htail⟩ := List.cons.inj hback
        rw [show rest = between ++ c :: more from htail, List.forall_mem_append,
          List.forall_mem_cons] at hrest
        rcases hopen with hc | hopen
        · rw [hrest.2.1] at hc
          cases hc
        · exact hopen start d between hfront hd hrest.1

/-- No white space is a letter. -/
theorem isBlank_of_isLetter {c : Char} (h : Text.isLetter c = true) : Text.isBlank c = false := by
  have htable : ∀ n ∈ [0x85, 0xa0, 0x1680, 0x2000, 0x2001, 0x2002, 0x2003, 0x2004, 0x2005, 0x2006,
      0x2007, 0x2008, 0x2009, 0x200a, 0x2028, 0x2029, 0x202f, 0x205f, 0x3000],
      Text.inRanges Text.UnicodeTable.letters n = false := by
    decide +kernel
  rw [Bool.eq_false_iff]
  intro hblank
  simp only [Text.isBlank, Bool.or_eq_true, Bool.and_eq_true, decide_eq_true_eq, beq_iff_eq]
    at hblank
  unfold Text.isLetter at h
  by_cases hascii : c.toNat < 128
  · rw [if_pos hascii] at h
    have hcodes := isAlpha_iff.mp h
    omega
  · rw [if_neg hascii, htable c.toNat] at h
    · cases h
    · simp only [List.mem_cons, List.not_mem_nil, or_false]
      omega

/-- A character that begins an identifier does not go on a piece that is no word. -/
theorem isSoft_of_isNameStart {c : Char} (h : isNameStart c = true) : isSoft c = false := by
  have hblank : Text.isBlank c = false := by
    rcases Bool.or_eq_true_iff.mp h with hletter | hscore
    · exact isBlank_of_isLetter hletter
    · rw [beq_iff_eq.mp hscore]
      decide
  have hothers : c ≠ '\x08' ∧ c ≠ '.' ∧ c ≠ '=' := by
    refine ⟨?_, ?_, ?_⟩ <;>
    · rintro rfl
      exact absurd h (by decide)
  simp [isSoft, hblank, isDigit_of_isNameStart h, hothers]

/-- No quote goes on a name. -/
theorem ne_quote_of_isNameChar {c : Char} (h : isNameChar c = true) : c ≠ '"' ∧ c ≠ '\'' := by
  refine ⟨?_, ?_⟩ <;>
  · rintro rfl
    exact absurd h (by decide)

/-- All characters of an identifier are those of names. -/
theorem TokenClass.isNameChar_of_mem {literal : List Char} (h : TokenClass .identifier literal)
    {c : Char} (hc : c ∈ literal) : isNameChar c = true := by
  cases h with
  | identifier hstart hmore =>
      rcases List.mem_cons.mp hc with rfl | hc
      · exact isNameChar_of_isNameStart hstart
      · exact hmore c hc

/-- A character with which a number or an operator is written. It begins no name and
is no quote. -/
def isBare (c : Char) : Bool :=
  !isNameStart c && c != '"' && c != '\''

/-- Digits are such characters. -/
theorem isBare_of_isDigit {c : Char} (h : Text.isDigit c = true) : isBare c = true := by
  have hquotes : c ≠ '"' ∧ c ≠ '\'' := by
    refine ⟨?_, ?_⟩ <;>
    · rintro rfl
      exact absurd h (by decide)
  simp [isBare, isNameStart_of_isDigit h, hquotes]

/-- Symbols are such characters. -/
theorem isBare_of_isSymbol {c : Char} (h : isSymbol c = true) : isBare c = true := by
  simp only [isSymbol, Bool.and_eq_true, Bool.not_eq_true'] at h
  simp [isBare, h.1.1.1.2, bne_iff_ne.mp h.1.2, bne_iff_ne.mp h.2]

/-- A sign in front of a number is such a character, where there is one. -/
theorem isBare_of_optionalSign {negative : Bool} {sign : List Char}
    (h : OptionalSign negative sign) : ∀ c ∈ sign, isBare c = true := by
  cases h <;> exact List.all_eq_true.mp (by decide)

/-- A token is an identifier, or between quotes, or written without them. These are
the three cases of `separates_of_segmentation`: a literal between quotes cuts off
what is behind it. -/
theorem TokenClass.cases_quotes {kind : TokenKind} {literal : List Char}
    (h : TokenClass kind literal) :
    kind = .identifier
      ∨ (∀ c ∈ literal.head?, isSoft c = false ∧ isNameChar c = false)
          ∧ (∀ back, Separates literal back)
      ∨ ∀ c ∈ literal, isBare c = true := by
  cases h with
  | identifier => exact .inl rfl
  | integer h =>
      cases h with
      | mk hsign hdigits =>
          refine .inr (.inr ?_)
          rw [List.forall_mem_append]
          exact ⟨isBare_of_optionalSign hsign, fun c hc => isBare_of_isDigit (hdigits.all c hc)⟩
  | decimal h =>
      cases h with
      | mk hsign hwhole hfraction =>
          refine .inr (.inr ?_)
          rw [List.forall_mem_append, List.forall_mem_append, List.forall_mem_cons]
          exact ⟨isBare_of_optionalSign hsign, fun c hc => isBare_of_isDigit (hwhole.all c hc),
            by decide, fun c hc => isBare_of_isDigit (hfraction.all c hc)⟩
  | character h =>
      refine .inr (.inl ⟨?_, separates_character h⟩)
      cases h
      rintro c ⟨⟩
      decide
  | string h =>
      refine .inr (.inl ⟨?_, separates_string h⟩)
      cases h
      rintro c ⟨⟩
      decide
  | comparison h =>
      refine .inr (.inr ?_)
      rw [List.forall_mem_cons, List.forall_mem_singleton]
      exact ⟨isBare_of_isSymbol (isSymbol_of_isComparison h), by decide⟩
  | symbol h =>
      refine .inr (.inr ?_)
      rw [List.forall_mem_singleton]
      exact isBare_of_isSymbol h

/-- The token is in the text, which begins at the offset and has the given text in front of it, with
the boundary that its kind asks for behind it; and at the token a piece begins. -/
def SeparatedAt (front : List Char) (offset : Nat) (text : List Char) (token : Token) : Prop :=
  ∃ before behind, text = before ++ (token.literal.toList ++ behind)
    ∧ token.offset = offset + before.length
    ∧ Ends token.kind token.literal.toList behind
    ∧ Separates (front ++ before) (token.literal.toList ++ behind)

/-- What is passed over without a quote is in front of the token from then on. -/
theorem SeparatedAt.passed {front piece : List Char} {offset : Nat} {text : List Char}
    {token : Token} (h : SeparatedAt (front ++ piece) (offset + piece.length) text token) :
    SeparatedAt front offset (piece ++ text) token := by
  obtain ⟨before, behind, rfl, hoffset, hends, hseparates⟩ := h
  refine ⟨piece ++ before, behind, ?_, ?_, hends, ?_⟩
  · rw [List.append_assoc]
  · rw [hoffset, List.length_append, Nat.add_assoc]
  · rwa [List.append_assoc] at hseparates

/-- Behind a literal between quotes the pieces begin anew, whatever is in front of
it. -/
theorem SeparatedAt.over {front literal : List Char} {offset : Nat} {text : List Char}
    {token : Token} (hfront : Separates front (literal ++ text))
    (hliteral : ∀ back, Separates literal back)
    (h : SeparatedAt [] (offset + literal.length) text token) :
    SeparatedAt front offset (literal ++ text) token := by
  obtain ⟨before, behind, rfl, hoffset, hends, hseparates⟩ := h
  refine ⟨literal ++ before, behind, ?_, ?_, hends, ?_⟩
  · rw [List.append_assoc]
  · rw [hoffset, List.length_append, Nat.add_assoc]
  · rw [← List.append_assoc]
    exact (hfront.trans (hliteral _)).trans hseparates

/-- At every identifier of the lexer a piece begins, and the highlighter is outside
of strings there. By induction on the segmentation, with the text since the last
literal between quotes in `front`. -/
theorem separates_of_segmentation {offset : Nat} {text : List Char} {tokens : List Token}
    (h : Segmentation offset text tokens) {token : Token} (htoken : token ∈ tokens)
    (hkind : token.kind = .identifier) (front : List Char)
    (hfront : ∀ c ∈ front, c ≠ '"' ∧ c ≠ '\'')
    (hopen : (∀ d ∈ text.head?, isNameChar d = false) ∨ NoOpenName front) :
    SeparatedAt front offset text token := by
  induction h generalizing front with
  | nil => cases htoken
  | @space offset c text tokens hspace rest ih =>
      obtain ⟨-, hstart, hname, hquote, hstring⟩ := not_start_of_isSpace hspace
      show SeparatedAt front offset ([c] ++ text) token
      refine .passed (ih htoken (front ++ [c]) ?_ (.inr ?_))
      · rw [List.forall_mem_append, List.forall_mem_singleton]
        exact ⟨hfront, hstring, hquote⟩
      · exact .append (by rwa [List.forall_mem_singleton]) (.inl hname)
  | @token offset kind literal text tokens hclass hends rest ih =>
      obtain ⟨c, more, rfl⟩ := List.exists_cons_of_ne_nil hclass.ne_nil
      have hhead : isNameChar c = false ∨ NoOpenName front := by
        refine hopen.imp_left fun h => h c ?_
        rfl
      rcases List.mem_cons.mp htoken with rfl | hlater
      · -- the identifier itself: what is in front of it leaves no name open
        obtain rfl : kind = .identifier := hkind
        refine ⟨[], text, ?_, rfl, ?_, ?_⟩ <;> rw [String.toList_ofList]
        · rfl
        · exact hends
        · cases hclass with
          | identifier hstart hmore =>
              rw [List.append_nil]
              refine separates_of_boundary hfront (isSoft_of_isNameStart hstart) fun hname => ?_
              exact hhead.resolve_left (by simp [hname])
      · -- a token in front of it: only one between quotes keeps the quotes behind it away
        rcases hclass.cases_quotes with rfl | ⟨hquote, hseparates⟩ | hbare
        · have hquotes : ∀ d ∈ c :: more, d ≠ '"' ∧ d ≠ '\'' :=
            fun d hd => ne_quote_of_isNameChar (hclass.isNameChar_of_mem hd)
          exact .passed (ih hlater (front ++ c :: more)
            (List.forall_mem_append.mpr ⟨hfront, hquotes⟩)
            (.inl fun d hd => Bool.eq_false_iff.mpr (hends d hd)))
        · obtain ⟨hsoft, hname⟩ := hquote c rfl
          have hover : Separates front (c :: more ++ text) :=
            separates_of_boundary hfront hsoft fun h => by rw [hname] at h; cases h
          exact .over hover hseparates
            (ih hlater [] (fun _ h => absurd h List.not_mem_nil) (.inr .nil))
        · have hparts : ∀ d ∈ c :: more, isNameStart d = false ∧ d ≠ '"' ∧ d ≠ '\'' :=
            fun d hd => by simpa [isBare, and_assoc] using hbare d hd
          exact .passed (ih hlater (front ++ c :: more)
            (List.forall_mem_append.mpr ⟨hfront, fun d hd => (hparts d hd).2⟩)
            (.inr (.append (fun d hd => (hparts d hd).1) hhead)))

end Proofs

end PlcLang
