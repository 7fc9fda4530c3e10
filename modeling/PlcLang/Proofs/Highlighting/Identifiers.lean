import PlcLang.Proofs.Highlighting.Boundaries

/-!
# `PlcLang.Proofs.Highlighting.Identifiers`: identifiers in colour

At an identifier of the lexer the highlighter begins a piece as well (`separates_of_segmentation`).
Which piece it is, its rules say, and it is not always the identifier (`highlighter_agrees_iff`):

* A name goes on with ASCII characters only, and an identifier with letters of any script. One such
  letter alone is a piece, if not one of a name.
* A keyword, a type name or `print` ends where a word ends, and to a word a hyphen does not belong.
  So an identifier that begins with one of these and a hyphen is cut there.
* To a word belong numerals of any script, and to an identifier the ten digits. So a keyword right
  in front of another numeral is none to the highlighter, but a name.

In all other cases the two agree.
-/

set_option autoImplicit false

namespace PlcLang

open Lexer

/-- The kinds of piece that keywords have. -/
def PieceKind.isKeyword : PieceKind → Bool
  | declarationWord | constantWord | operatorWord | keyword => true
  | _ => false

namespace Highlight

/-- The words of which the highlighter has lists, with the kinds of their pieces, in
the order in which it looks for them. -/
def wordLists : List (PieceKind × List String) :=
  [(.declarationWord, ["LET", "DEF"]),
    (.constantWord, ["NIL", "TRUE", "FALSE"]),
    (.operatorWord, ["AND", "OR"]),
    (.keyword, ["DO", "END", "IF", "ELSE", "FOR", "IN", "WHILE", "RETURN"]),
    (.typeName, ["Nil", "Boolean", "Integer", "Decimal", "Character", "String", "Comparable", "Any",
      "IntegerIterable"]),
    (.builtin, ["print"])]

/-- All words of the lists. Type names and `print` are among them, which are no
keywords. -/
def listedWords : List String :=
  wordLists.flatMap Prod.snd

/-- A piece begins where the token begins and is the token, and it has the kind of a keyword exactly
if the token is a keyword. -/
def Agrees (text : String) (token : Token) : Prop :=
  ∃ piece, pieceAt? token.offset (piecesFrom false 0 text.toList) = some piece
    ∧ piece.text = token.literal ∧ (piece.kind.isKeyword = true ↔ token.literal ∈ keywords)

/-- What an identifier and the text behind it have to be like for the highlighter: a single letter
of another script, or a text in ASCII that does not begin with a listed word and a hyphen, and, if
it is a keyword, is not right in front of a numeral of another script. -/
def Fits (literal : String) (behind : List Char) : Prop :=
  (∃ c : Char, 128 ≤ c.toNat ∧ literal.toList = [c])
    ∨ (∀ c ∈ literal.toList, c.toNat < 128)
      ∧ (∀ word ∈ listedWords, ¬ word.toList ++ ['-'] <+: literal.toList)
      ∧ (literal ∈ keywords → ∀ c ∈ behind.head?, Text.isWordChar c = false)

end Highlight

namespace Proofs

open Highlight

/-! ### Words -/

/-- Listed words are made of letters of ASCII. -/
theorem letters_of_listed : ∀ word ∈ listedWords, ∀ c ∈ word.toList,
    c.toNat < 128 ∧ isNameStart c = true ∧ Text.isWordChar c = true := by
  have hall : (listedWords.all fun word => word.toList.all fun c =>
      decide (c.toNat < 128) && (isNameStart c && Text.isWordChar c)) = true := by
    decide
  simpa only [List.all_eq_true, Bool.and_eq_true, decide_eq_true_eq] using hall

/-- Every keyword of the lexer is in one of the lists. -/
theorem listed_of_keyword : ∀ word ∈ keywords, word ∈ listedWords := by
  decide

/-- The kind of a list is one of keywords exactly if its words are keywords. -/
theorem isKeyword_of_mem_wordLists : ∀ entry ∈ wordLists, ∀ word ∈ entry.2,
    entry.1.isKeyword = keywords.contains word := by
  decide

/-- Of what goes on a name in ASCII, only the hyphen does not belong to a word. This
is where the two part on identifiers that begin with a listed word. -/
theorem isWordChar_of_isNameChar {c : Char} (hascii : c.toNat < 128) (h : isNameChar c = true) :
    Text.isWordChar c = true ∨ c = '-' := by
  rw [isNameChar_eq_of_lt hascii, Bool.or_eq_true, beq_iff_eq] at h
  refine h.imp_left fun h => ?_
  unfold Text.isWordChar Text.isAlphanumeric
  rwa [if_pos hascii]

/-! ### The first piece -/

/-- The rules of the lists together: the word at the front is looked for in one list
after the other, and the first one that has it gives the kind. -/
theorem findSome?_wordIn (lists : List (PieceKind × List String)) (text : List Char) :
    (lists.map fun entry => (entry.1, wordIn entry.2)).findSome?
        (fun (kind, rule) => (rule text).map (kind, ·))
      = (lists.find? (·.2.contains (String.ofList (text.takeWhile Text.isWordChar)))).map
        fun entry => (entry.1, (text.takeWhile Text.isWordChar).length) := by
  induction lists with
  | nil => rfl
  | cons entry lists ih =>
      rw [List.map_cons, List.findSome?_cons, List.find?_cons, ih]
      unfold wordIn
      dsimp only
      by_cases h : entry.2.contains (String.ofList (text.takeWhile Text.isWordChar)) = true
      · rw [if_pos h, h]
        rfl
      · rw [if_neg h, Bool.eq_false_iff.mpr h]
        rfl

/-- The rules for the words that are in no list. -/
def otherRules : List (PieceKind × (List Char → Option Nat)) :=
  [(.name, matchName), (.operator, matchLongOperator),
    (.operator, matchOneOf ['+', '-', '*', '/', '<', '>', '=', '.']),
    (.punctuation, matchOneOf ['(', ')', ',', ';', ':']), (.operator, matchAny)]

/-- What begins a name begins no space, no literal and no number: it is looked for in the lists, and
then by the other rules. -/
theorem firstMatch_of_isNameStart {c : Char} (h : isNameStart c = true) (rest : List Char) :
    firstMatch outsideRules (c :: rest)
      = ((wordLists.find?
            (·.2.contains (String.ofList ((c :: rest).takeWhile Text.isWordChar)))).map
          fun entry => (entry.1, ((c :: rest).takeWhile Text.isWordChar).length)).getD
        (firstMatch otherRules (c :: rest)) := by
  have hdigit := isDigit_of_isNameStart h
  obtain ⟨hstring, hquote⟩ := ne_quote_of_isNameChar (isNameChar_of_isNameStart h)
  have hsign : ¬ (c = '+' ∨ c = '-') := by
    rintro (rfl | rfl) <;> exact absurd h (by decide)
  have hspace : matchSpace (c :: rest) = none := by
    have hblank := isSoft_of_isNameStart h
    simp only [isSoft, Bool.or_eq_false_iff] at hblank
    simp [matchSpace, countWhile, hblank, atLeastOne]
  have hliteral : matchCharacter (c :: rest) = none := by
    unfold matchCharacter
    split
    · next heq => exact absurd (List.cons.inj heq).1 hquote
    · next heq => exact absurd (List.cons.inj heq).1 hquote
    · rfl
  have hinteger : matchInteger (c :: rest) = none := by
    simp [matchInteger, signLength, hsign, countWhile, hdigit, atLeastOne]
  have hdecimal : matchDecimal (c :: rest) = none := by
    simp [matchDecimal, hinteger]
  -- The rules come in three parts: five that do not match here, the lists of words, and the
  -- others.
  have hrules : outsideRules = [(.space, matchSpace), (.string, matchOneOf ['"']),
      (.character, matchCharacter), (.decimal, matchDecimal), (.integer, matchInteger)]
      ++ ((wordLists.map fun entry => (entry.1, wordIn entry.2)) ++ otherRules) := rfl
  have hfront : matchOneOf ['"'] (c :: rest) = none := by
    simp [matchOneOf, hstring]
  unfold firstMatch
  rw [hrules, List.findSome?_append, List.findSome?_append, findSome?_wordIn]
  simp only [List.findSome?_cons, List.findSome?_nil, hspace, hfront, hliteral, hdecimal, hinteger,
    Option.map_none, Option.none_or]
  cases wordLists.find? (·.2.contains (String.ofList ((c :: rest).takeWhile Text.isWordChar))) with
  | none => rfl
  | some entry => rfl

/-- A listed word is a piece of the kind of its list, and that is one of keywords if
the word is one. -/
theorem firstMatch_listed {c : Char} (h : isNameStart c = true) {rest : List Char}
    (hlisted : String.ofList ((c :: rest).takeWhile Text.isWordChar) ∈ listedWords) :
    ∃ kind, firstMatch outsideRules (c :: rest)
        = (kind, ((c :: rest).takeWhile Text.isWordChar).length)
      ∧ (kind.isKeyword = true
        ↔ String.ofList ((c :: rest).takeWhile Text.isWordChar) ∈ keywords) := by
  rw [firstMatch_of_isNameStart h]
  generalize (c :: rest).takeWhile Text.isWordChar = word at hlisted ⊢
  obtain ⟨list, hlist, hword⟩ := List.mem_flatMap.mp hlisted
  cases hfind : wordLists.find? (·.2.contains (String.ofList word)) with
  | none =>
      exact absurd (List.contains_iff_mem.mpr hword) (List.find?_eq_none.mp hfind list hlist)
  | some entry =>
      refine ⟨entry.1, rfl, ?_⟩
      have hcontains : entry.2.contains (String.ofList word) = true :=
        List.find?_some (p := fun entry : PieceKind × List String =>
          entry.2.contains (String.ofList word)) hfind
      have hmem := List.contains_iff_mem.mp hcontains
      rw [isKeyword_of_mem_wordLists entry (List.mem_of_find?_eq_some hfind) _ hmem,
        List.contains_iff_mem]

/-- For any other word the lists have nothing, and the rules behind them decide. -/
theorem firstMatch_unlisted {c : Char} (h : isNameStart c = true) {rest : List Char}
    (hlisted : String.ofList ((c :: rest).takeWhile Text.isWordChar) ∉ listedWords) :
    firstMatch outsideRules (c :: rest) = firstMatch otherRules (c :: rest) := by
  have hfind : wordLists.find?
      (·.2.contains (String.ofList ((c :: rest).takeWhile Text.isWordChar))) = none :=
    List.find?_eq_none.mpr fun entry hentry hcontains =>
      hlisted (List.mem_flatMap.mpr ⟨entry, hentry, List.contains_iff_mem.mp hcontains⟩)
  rw [firstMatch_of_isNameStart h, hfind]
  rfl

/-- Another name is a piece as far as it is written in ASCII. -/
theorem firstMatch_name {c : Char} (hc : (c.isAlpha || c == '_') = true) {rest : List Char}
    (hlisted : String.ofList ((c :: rest).takeWhile Text.isWordChar) ∉ listedWords) :
    firstMatch outsideRules (c :: rest) = (.name,
      (rest.takeWhile fun c => c.isAlphanum || c == '_' || c == '-').length + 1) := by
  rw [firstMatch_unlisted (isNameStart_of_isAlpha hc).2 hlisted, Nat.add_comm]
  simp [firstMatch, otherRules, matchName, hc, countWhile]

/-- A letter of another script is a piece of its own, by the last rule. -/
theorem firstMatch_foreign {c : Char} (h : isNameStart c = true) (hascii : 128 ≤ c.toNat)
    (rest : List Char) : firstMatch outsideRules (c :: rest) = (.operator, 1) := by
  have hne {d : Char} (hd : d.toNat < 128) : c ≠ d := by
    rintro rfl
    omega
  -- All the rules before the last are for words that are listed, for letters of ASCII, or for
  -- signs. So each of them fails at such a letter.
  have hlisted : String.ofList ((c :: rest).takeWhile Text.isWordChar) ∉ listedWords := by
    intro hmem
    have hletters := letters_of_listed _ hmem
    rw [String.toList_ofList, List.takeWhile_cons] at hletters
    by_cases hword : Text.isWordChar c = true
    · rw [if_pos hword] at hletters
      have := (hletters c List.mem_cons_self).1
      omega
    · rw [List.takeWhile_cons, if_neg hword] at hmem
      exact absurd hmem (by decide)
  have hname : (c.isAlpha || c == '_') = false := by
    rw [Bool.eq_false_iff]
    intro hc
    have := (isNameStart_of_isAlpha hc).1
    omega
  have honeOf (chars : List Char) (hchars : ∀ d ∈ chars, d.toNat < 128) :
      matchOneOf chars (c :: rest) = none := by
    have hnot : c ∉ chars := fun hmem => hne (hchars c hmem) rfl
    simp [matchOneOf, hnot]
  have hlong : matchLongOperator (c :: rest) = none := by
    unfold matchLongOperator
    split
    · next heq =>
        obtain ⟨rfl, -⟩ := List.cons.inj heq
        rw [if_neg]
        rintro (h | h | h | h) <;> exact hne (by decide) h
    · rfl
  have hany : matchAny (c :: rest) = some 1 := by
    simp [matchAny, hne (d := '\n') (by decide)]
  rw [firstMatch_unlisted h hlisted]
  simp [firstMatch, otherRules, matchName, hname, hlong, hany,
    honeOf ['+', '-', '*', '/', '<', '>', '=', '.'] (by simp),
    honeOf ['(', ')', ',', ';', ':'] (by simp)]

/-! ### Identifiers -/

/-- A run at the front is exactly what is in front, if all of that is of the sort
and the next character is not. -/
theorem takeWhile_append_eq_left_iff {p : Char → Bool} {front back : List Char} :
    (front ++ back).takeWhile p = front
      ↔ (∀ c ∈ front, p c = true) ∧ ∀ c ∈ back.head?, p c = false := by
  induction front with
  | nil => cases back <;> simp [List.takeWhile_cons]
  | cons c front ih =>
      rw [List.cons_append, List.takeWhile_cons, List.forall_mem_cons]
      by_cases hc : p c = true
      · rw [if_pos hc, List.cons.injEq, ih, and_assoc]
        simp [hc]
      · rw [if_neg hc]
        simp [hc]

/-- Either all characters are as they should be, or there is a first one that is
not. -/
theorem all_or_exists_first {p : Char → Bool} (text : List Char) :
    (∀ c ∈ text, p c = true)
      ∨ ∃ run c rest, text = run ++ c :: rest ∧ (∀ d ∈ run, p d = true) ∧ p c = false := by
  induction text with
  | nil => exact .inl fun _ h => absurd h List.not_mem_nil
  | cons c text ih =>
      cases hc : p c with
      | false => exact .inr ⟨[], c, text, rfl, fun _ h => absurd h List.not_mem_nil, hc⟩
      | true =>
          rcases ih with hall | ⟨run, d, rest, rfl, hrun, hd⟩
          · exact .inl (List.forall_mem_cons.mpr ⟨hc, hall⟩)
          · exact .inr ⟨c :: run, d, rest, rfl, List.forall_mem_cons.mpr ⟨hc, hrun⟩, hd⟩

/-- A listed word at an identifier in ASCII ends where the identifier does, or at a
hyphen in it. Without such a hyphen it is the identifier. -/
theorem takeWhile_eq_of_listed {name behind : List Char}
    (hname : ∀ d ∈ name, isNameChar d = true) (hends : ∀ d ∈ behind.head?, isNameChar d = false)
    (hascii : ∀ d ∈ name, d.toNat < 128)
    (hlisted : String.ofList ((name ++ behind).takeWhile Text.isWordChar) ∈ listedWords)
    (hhyphen : ∀ word ∈ listedWords, ¬ word.toList ++ ['-'] <+: name) :
    (name ++ behind).takeWhile Text.isWordChar = name := by
  rcases all_or_exists_first (p := Text.isWordChar) name with
    hall | ⟨run, d, rest, rfl, hrun, hd⟩
  · refine takeWhile_append_eq_left_iff.mpr ⟨hall, fun d hd => ?_⟩
    -- the word would go on with a letter, and then the identifier would
    rw [Bool.eq_false_iff]
    intro hword
    obtain ⟨rest, rfl⟩ : ∃ rest, behind = d :: rest := by
      cases behind with
      | nil => cases hd
      | cons e rest => exact ⟨rest, by rw [Option.some.inj hd]⟩
    have hmem : d ∈ (name ++ d :: rest).takeWhile Text.isWordChar := by
      rw [List.takeWhile_append_of_pos hall, List.takeWhile_cons_of_pos hword]
      exact List.mem_append_right _ List.mem_cons_self
    have hstart := (letters_of_listed _ hlisted d (by rwa [String.toList_ofList])).2.1
    have hnot := hends d rfl
    rw [isNameChar_of_isNameStart hstart] at hnot
    cases hnot
  · have hmem : d ∈ run ++ d :: rest := List.mem_append_right run List.mem_cons_self
    obtain rfl : d = '-' := (isWordChar_of_isNameChar (hascii d hmem) (hname d hmem)).resolve_left
      (by rw [hd]; exact Bool.false_ne_true)
    rw [List.append_assoc, List.takeWhile_append_of_pos hrun, List.cons_append,
      List.takeWhile_cons_of_neg (by rw [hd]; exact Bool.false_ne_true), List.append_nil] at hlisted
    refine absurd ⟨rest, ?_⟩ (hhyphen _ hlisted)
    rw [String.toList_ofList, List.append_assoc, List.singleton_append]

variable {literal : String} {behind : List Char}

/-- Where the word at an identifier is in a list, it has to be the identifier for
the two to agree. -/
theorem takeWhile_eq_iff_of_listed (hname : ∀ d ∈ literal.toList, isNameChar d = true)
    (hends : ∀ d ∈ behind.head?, isNameChar d = false)
    (hascii : ∀ c ∈ literal.toList.head?, c.toNat < 128)
    (hlisted : String.ofList ((literal.toList ++ behind).takeWhile Text.isWordChar)
      ∈ listedWords) :
    (literal.toList ++ behind).takeWhile Text.isWordChar = literal.toList
      ↔ Fits literal behind := by
  constructor
  · intro hword
    rw [hword] at hlisted
    have hletters := letters_of_listed _ hlisted
    rw [String.toList_ofList] at hletters
    refine .inr ⟨fun d hd => (hletters d hd).1, fun word _ hbegins => ?_, fun _ => ?_⟩
    · have hhyphen := hletters '-' (hbegins.subset (List.mem_append_right _ List.mem_cons_self))
      exact absurd hhyphen.2.1 (by decide)
    · exact (takeWhile_append_eq_left_iff.mp hword).2
  · rintro (⟨c, hforeign, hsingle⟩ | ⟨hall, hhyphen, -⟩)
    · have := hascii c (by rw [hsingle]; rfl)
      omega
    · exact takeWhile_eq_of_listed hname hends hall hlisted hhyphen

/-- Where it is in no list, the identifier has to be in ASCII and no keyword. -/
theorem ascii_iff_of_not_listed (hascii : ∀ c ∈ literal.toList.head?, c.toNat < 128)
    (hlisted : String.ofList ((literal.toList ++ behind).takeWhile Text.isWordChar)
      ∉ listedWords) :
    (∀ c ∈ literal.toList, c.toNat < 128) ∧ literal ∉ keywords ↔ Fits literal behind := by
  constructor
  · rintro ⟨hall, hkeyword⟩
    refine .inr ⟨hall, fun word hword hbegins => hlisted ?_, fun h => absurd h hkeyword⟩
    obtain ⟨rest, hrest⟩ := hbegins
    have hletters := letters_of_listed word hword
    rw [← hrest, List.append_assoc, List.append_assoc,
      List.takeWhile_append_of_pos fun d hd => (hletters d hd).2.2, List.singleton_append,
      List.takeWhile_cons_of_neg (by decide), List.append_nil, String.ofList_toList]
    exact hword
  · rintro (⟨c, hforeign, hsingle⟩ | ⟨hall, -, hbehind⟩)
    · have := hascii c (by rw [hsingle]; rfl)
      omega
    · refine ⟨hall, fun hkeyword => hlisted ?_⟩
      have hletters := letters_of_listed _ (listed_of_keyword _ hkeyword)
      rw [takeWhile_append_eq_left_iff.mpr
        ⟨fun d hd => (hletters d hd).2.2, hbehind hkeyword⟩, String.ofList_toList]
      exact listed_of_keyword _ hkeyword

/-- A text up to the length of its first run is that run. -/
theorem take_length_takeWhile (p : Char → Bool) (text : List Char) :
    text.take (text.takeWhile p).length = text.takeWhile p :=
  (List.prefix_iff_eq_take.mp (List.takeWhile_prefix p)).symm

/-- In ASCII the highlighter takes the whole of a name, and otherwise only a part of
it. -/
theorem takeWhile_name_iff {more : List Char} (hmore : ∀ d ∈ more, isNameChar d = true)
    (hends : ∀ d ∈ behind.head?, isNameChar d = false) :
    ((more ++ behind).takeWhile fun c => c.isAlphanum || c == '_' || c == '-') = more
      ↔ ∀ d ∈ more, d.toNat < 128 := by
  rw [takeWhile_append_eq_left_iff]
  constructor
  · rintro ⟨hall, -⟩ d hd
    exact (isNameChar_of_isAlphanum (hall d hd)).1
  · intro hascii
    refine ⟨fun d hd => ?_, fun d hd => ?_⟩
    · rw [← isNameChar_eq_of_lt (hascii d hd)]
      exact hmore d hd
    · rw [Bool.eq_false_iff]
      intro hgoes
      have hnot := hends d hd
      rw [(isNameChar_of_isAlphanum hgoes).2] at hnot
      cases hnot

/-- The first piece at an identifier is the identifier, of the right kind, exactly
if it fits. A letter of another script is dealt with apart, as it is a piece alone. -/
theorem firstMatch_agrees_iff (hclass : TokenClass .identifier literal.toList)
    (hends : Ends .identifier literal.toList behind) {kind : PieceKind} {length : Nat}
    (hfirst : firstMatch outsideRules (literal.toList ++ behind) = (kind, length)) :
    (literal.toList ++ behind).take length = literal.toList
        ∧ (kind.isKeyword = true ↔ literal ∈ keywords)
      ↔ Fits literal behind := by
  have hname : ∀ d ∈ literal.toList, isNameChar d = true := fun d => hclass.isNameChar_of_mem
  have hends : ∀ d ∈ behind.head?, isNameChar d = false :=
    fun d hd => Bool.eq_false_iff.mpr (hends d hd)
  obtain ⟨c, more, hliteral⟩ := List.exists_cons_of_ne_nil hclass.ne_nil
  have hstart : isNameStart c = true := by
    rw [hliteral] at hclass
    cases hclass
    assumption
  -- Only a letter of ASCII begins a word for the rules of the highlighter, and of those a listed
  -- word comes before a name.
  by_cases hascii : c.toNat < 128
  · have hhead : ∀ d ∈ literal.toList.head?, d.toNat < 128 := by
      rw [hliteral]
      rintro d ⟨⟩
      exact hascii
    by_cases hlisted : String.ofList ((literal.toList ++ behind).takeWhile Text.isWordChar)
        ∈ listedWords
    · -- a listed word
      obtain ⟨listed, hmatch, hkeyword⟩ : ∃ listed,
          firstMatch outsideRules (literal.toList ++ behind)
            = (listed, ((literal.toList ++ behind).takeWhile Text.isWordChar).length)
          ∧ (listed.isKeyword = true
            ↔ String.ofList ((literal.toList ++ behind).takeWhile Text.isWordChar) ∈ keywords) := by
        rw [hliteral] at hlisted ⊢
        exact firstMatch_listed hstart hlisted
      obtain ⟨rfl, rfl⟩ := Prod.mk.inj (hfirst.symm.trans hmatch)
      rw [take_length_takeWhile, ← takeWhile_eq_iff_of_listed hname hends hhead hlisted]
      refine and_iff_left_of_imp fun hword => ?_
      rwa [hword, String.ofList_toList] at hkeyword
    · -- another name
      rw [← ascii_iff_of_not_listed hhead hlisted]
      rw [hliteral] at hname
      rw [hliteral, List.cons_append] at hfirst hlisted ⊢
      have halpha : (c.isAlpha || c == '_') = true := by rwa [← isNameStart_eq_of_lt hascii]
      obtain ⟨rfl, rfl⟩ := Prod.mk.inj (hfirst.symm.trans (firstMatch_name halpha hlisted))
      rw [List.take_succ_cons, take_length_takeWhile, List.cons.injEq,
        takeWhile_name_iff (List.forall_mem_cons.mp hname).2 hends, List.forall_mem_cons]
      simp [hascii, PieceKind.isKeyword]
  · -- a letter of another script
    have hforeign : 128 ≤ c.toNat := Nat.le_of_not_lt hascii
    have hkeyword : literal ∉ keywords := by
      intro hmem
      have hletters := letters_of_listed _ (listed_of_keyword _ hmem) c
      rw [hliteral] at hletters
      exact hascii (hletters List.mem_cons_self).1
    unfold Fits
    rw [hliteral] at hfirst ⊢
    obtain ⟨rfl, rfl⟩ := Prod.mk.inj (hfirst.symm.trans (firstMatch_foreign hstart hforeign _))
    rw [List.cons_append, List.take_succ_cons, List.take_zero]
    constructor
    · rintro ⟨htake, -⟩
      exact .inl ⟨c, hforeign, htake.symm⟩
    · rintro (⟨d, -, hsingle⟩ | ⟨hall, -⟩)
      · obtain ⟨rfl, rfl⟩ := List.cons.inj hsingle
        exact ⟨rfl, iff_of_false Bool.false_ne_true hkeyword⟩
      · exact absurd (hall c List.mem_cons_self) hascii

/-- The highlighter agrees with the lexer on an identifier exactly if the identifier fits what is
behind it. -/
theorem highlighter_agrees_iff {text : String} {tokens : List Token}
    (hlex : tokenize text = .ok tokens) {token : Token} (htoken : token ∈ tokens)
    (hkind : token.kind = .identifier) :
    Agrees text token ↔ Fits token.literal (text.toList.drop token.stop) := by
  obtain ⟨before, behind, htext, hoffset, hends, hseparates⟩ :=
    separates_of_segmentation (tokensFrom_eq_ok_iff.mp hlex) htoken hkind []
      (fun _ h => absurd h List.not_mem_nil) (.inr .nil)
  have hclass := tokenClass_of_tokenize hlex token htoken
  rw [hkind] at hclass hends
  have hbehind : text.toList.drop token.stop = behind := by
    have hstop : token.stop = (before ++ token.literal.toList).length := by
      rw [Token.stop, hoffset, List.length_append, String.length_toList, Nat.zero_add]
    rw [htext, ← List.append_assoc, hstop, List.drop_left]
  rw [hbehind]
  cases hfirst : firstMatch outsideRules (token.literal.toList ++ behind) with
  | mk kind length =>
      rw [← firstMatch_agrees_iff hclass hends hfirst]
      have hpiece : pieceAt? token.offset (piecesFrom false 0 text.toList)
          = some ⟨kind, String.ofList ((token.literal.toList ++ behind).take length)⟩ := by
        have hhere := hseparates 0
        rw [List.nil_append, ← htext, Nat.add_zero] at hhere
        rw [hoffset, Nat.zero_add, hhere]
        obtain ⟨c, more, hliteral⟩ := List.exists_cons_of_ne_nil hclass.ne_nil
        rw [hliteral] at hfirst hclass ⊢
        obtain ⟨hstring, hquote⟩ :=
          ne_quote_of_isNameChar (hclass.isNameChar_of_mem List.mem_cons_self)
        obtain ⟨_, _, _, hlength, _⟩ := exists_of_firstMatch hfirst hstring hquote
        exact pieceAt?_zero false hfirst (by omega)
      -- there is one piece at the place of the token, so this is the one to agree
      unfold Agrees
      rw [hpiece]
      constructor
      · rintro ⟨piece, hpiece, hsame, hkeyword⟩
        obtain rfl := Option.some.inj hpiece
        have htake := congrArg String.toList hsame
        rw [String.toList_ofList] at htake
        exact ⟨htake, hkeyword⟩
      · rintro ⟨htake, hkeyword⟩
        exact ⟨_, rfl, by rw [htake, String.ofList_toList], hkeyword⟩

/-- The two agree on a keyword, on a name with a hyphen and on a single letter of
another script. -/
theorem highlighter_agrees_on_words :
    Agrees "LET a-b=é" ⟨.identifier, "LET", 0⟩ ∧ Agrees "LET a-b=é" ⟨.identifier, "a-b", 4⟩
      ∧ Agrees "LET a-b=é" ⟨.identifier, "é", 8⟩ := by
  have hlex : tokenize "LET a-b=é" = .ok [⟨.identifier, "LET", 0⟩, ⟨.identifier, "a-b", 4⟩,
      ⟨.operator, "=", 7⟩, ⟨.identifier, "é", 8⟩] := by
    rfl
  have hspace : ("LET a-b=é".toList.drop 3).head? = some ' ' := rfl
  refine ⟨?_, ?_, ?_⟩
  · refine (highlighter_agrees_iff hlex (by decide) rfl).mpr (.inr ⟨?_, ?_, fun _ => ?_⟩)
    · exact fun c hc => (letters_of_listed "LET" (by decide) c hc).1
    · decide
    · show ∀ c ∈ ("LET a-b=é".toList.drop 3).head?, Text.isWordChar c = false
      rw [hspace]
      rintro c ⟨⟩
      rfl
  · refine (highlighter_agrees_iff hlex (by decide) rfl).mpr (.inr ⟨?_, ?_, ?_⟩)
    · simp
    · decide
    · exact fun h => absurd h (by decide)
  · exact (highlighter_agrees_iff hlex (by decide) rfl).mpr (.inl ⟨'é', by decide, rfl⟩)

/-- It does not agree on a keyword with a hyphen, on a name with letters of another script, and on a
keyword in front of a numeral. -/
theorem highlighter_disagrees :
    (tokenize "IN-x" = .ok [⟨.identifier, "IN-x", 0⟩] ∧ ¬ Agrees "IN-x" ⟨.identifier, "IN-x", 0⟩)
      ∧ (tokenize "é2" = .ok [⟨.identifier, "é2", 0⟩] ∧ ¬ Agrees "é2" ⟨.identifier, "é2", 0⟩)
      ∧ tokenize "NIL²" = .ok [⟨.identifier, "NIL", 0⟩, ⟨.operator, "²", 3⟩]
        ∧ ¬ Agrees "NIL²" ⟨.identifier, "NIL", 0⟩ := by
  have htokens : Segmentation 0 "NIL²".toList [⟨.identifier, "NIL", 0⟩, ⟨.operator, "²", 3⟩] := by
    have hends : Ends .identifier ['N', 'I', 'L'] ['²'] := by
      rintro c ⟨⟩
      exact Bool.eq_false_iff.mp (by decide +kernel)
    have hsymbol : isSymbol '²' = true := by decide +kernel
    exact .token (.identifier (c := 'N') (by decide) (List.all_eq_true.mp (by decide))) hends
      (.token (.symbol hsymbol) (fun _ h => by cases h) .nil)
  have hhyphen : pieceAt? 0 (piecesFrom false 0 "IN-x".toList) = some ⟨.keyword, "IN"⟩ := by
    decide
  have hletter : pieceAt? 0 (piecesFrom false 0 "é2".toList) = some ⟨.operator, "é"⟩ := by
    decide
  have hnumeral : pieceAt? 0 (piecesFrom false 0 "NIL²".toList) = some ⟨.name, "NIL"⟩ := by
    decide +kernel
  refine ⟨⟨rfl, ?_⟩, ⟨rfl, ?_⟩, htokens.tokensFrom_eq, ?_⟩
  · rintro ⟨piece, hpiece, hsame, -⟩
    obtain rfl := Option.some.inj (hhyphen.symm.trans hpiece)
    exact absurd hsame (by decide)
  · rintro ⟨piece, hpiece, hsame, -⟩
    obtain rfl := Option.some.inj (hletter.symm.trans hpiece)
    exact absurd hsame (by decide)
  · rintro ⟨piece, hpiece, -, hkeyword⟩
    obtain rfl := Option.some.inj (hnumeral.symm.trans hpiece)
    exact absurd hkeyword (by decide)

end Proofs

end PlcLang
