import PlcLang.Proofs.Grammar.Derivation
import PlcLang.Proofs.Layout.Parsing
import PlcLang.Proofs.Relabelling.Sessions

/-!
# `PlcLang.Proofs.Layout.Independence`: layout means nothing

Two texts with the same words, however they are laid out, come to the same in every
stage (`layout_means_nothing`): to the same tree with the same types and symbols, to
the same output and value, or to the same error. Places are those of the words: what
stands at the offset of some token for the one text stands at the offset of the token
with the same index for the other.

The two texts are never compared directly. Both are the text whose tokens stand at
`0`, `1`, `2` and so on, put in other places, and parser, checker and interpreter are
known to do the same in other places. That no offset comes from anywhere but a token
is shown in the same way: a shift of what is behind the last token changes nothing.
-/

set_option autoImplicit false

namespace PlcLang

variable {α β γ : Type}

/-! ### The same up to places -/

/-- The trees are the same but for their marks, which are related one by one. -/
structure Program.Alike (R : α → β → Prop) (program : Program α) (program' : Program β) :
    Prop where
  bare : program.bare = program'.bare
  marks : List.Forall₂ R program.marks program'.marks

/-- The symbols are the same but for their places: a symbol of the host has none,
and one of the program has the place of its name. -/
inductive Symbol.Alike (R : Offset → Offset → Prop) : Symbol → Symbol → Prop where
  | ofVariable (name : String) (type : Ty) {offset offset' : Option Offset}
      (h : Option.Rel R offset offset') :
      Alike R (.variable ⟨name, type, offset⟩) (.variable ⟨name, type, offset'⟩)
  | ofFunction (name : String) (parameters : List Ty) (result : Ty)
      {offset offset' : Option Offset} (h : Option.Rel R offset offset') :
      Alike R (.function ⟨name, parameters, result, offset⟩)
        (.function ⟨name, parameters, result, offset'⟩)

/-- The notes are the same but for their places: where they stand, and where their
symbols are declared. -/
structure Note.Alike (R : Offset → Offset → Prop) (note note' : Note) : Prop where
  offset : R note.offset note'.offset
  type : note.type = note'.type
  symbol : Option.Rel (Symbol.Alike R) note.symbol note'.symbol

namespace Proofs

/-- The offsets are those of the tokens with some index. -/
def SamePlace (tokens others : List Token) (offset offset' : Offset) : Prop :=
  ∃ (index : Nat) (token other : Token), tokens[index]? = some token
    ∧ others[index]? = some other ∧ token.offset = offset ∧ other.offset = offset'

end Proofs

open Proofs

/-- The failures are the same but for their places: they have none, or those of the
tokens with some index, or the ends. -/
structure Failure.Alike (tokens others : List Token) (failure failure' : Failure) : Prop where
  stage : failure.stage = failure'.stage
  code : failure.code = failure'.code
  message : failure.message = failure'.message
  length : failure.length = failure'.length
  place : failure.offset = none ∧ failure'.offset = none
    ∨ (∃ offset offset' : Offset, SamePlace tokens others offset offset'
        ∧ failure.offset = some (offset : Int) ∧ failure'.offset = some (offset' : Int))
    ∨ failure.offset = some (endOffset tokens : Int)
        ∧ failure'.offset = some (endOffset others : Int)

/-- The errors are the same but for their places: their failures are. -/
def ProgramError.Alike (tokens others : List Token) (e e' : ProgramError) : Prop :=
  e.failure.Alike tokens others e'.failure

/-- The runs fail for the same reason, up to places. What the host reports, a number
that is out of range and a limit that is reached have no place. -/
inductive RunError.Alike (tokens others : List Token) : RunError → RunError → Prop where
  | program {e e' : ProgramError} (h : e.Alike tokens others e') :
      Alike tokens others (.program e) (.program e')
  | fault {f f' : Fault} (h : f.failure.Alike tokens others f'.failure) :
      Alike tokens others (.stopped (.fault f)) (.stopped (.fault f'))
  | host (e : HostError) : Alike tokens others (.stopped (.host e)) (.stopped (.host e))
  | number (e : NumberError) : Alike tokens others (.stopped (.number e)) (.stopped (.number e))
  | tooDeep : Alike tokens others (.stopped .tooDeep) (.stopped .tooDeep)
  | tooLong : Alike tokens others (.stopped .tooLong) (.stopped .tooLong)

/-- One tree with its marks changed in two ways gives two that are the same but for
their marks. -/
theorem Program.alike_map {R : β → γ → Prop} {f : α → β} {g : α → γ} {tree : Program α}
    (h : ∀ mark ∈ tree.marks, R (f mark) (g mark)) : (tree.map f).Alike R (tree.map g) where
  bare := by
    unfold Program.bare
    rw [Program.map_map, Program.map_map]
    rfl
  marks := by
    rw [Program.marks_map, Program.marks_map, List.forall₂_map_left_iff,
      List.forall₂_map_right_iff]
    exact List.forall₂_same.mpr h

namespace Proofs

/-! ### Positions -/

/-- Moves what is behind the first `count` positions, and nothing else. What it
leaves unchanged is among the first ones. -/
def shiftAfter (count position : Nat) : Nat :=
  if position < count then position else position + 1

/-- A position that the shift leaves where it is is among the first ones. -/
theorem lt_of_shiftAfter_eq {count position : Nat} (h : shiftAfter count position = position) :
    position < count := by
  unfold shiftAfter at h
  split at h <;> omega

/-- The shift moves none of the numbered tokens, as their offsets are positions of
theirs. -/
theorem map_shiftAfter_numbered (tokens : List Token) :
    (numbered tokens).map (Token.moveTo (shiftAfter tokens.length)) = numbered tokens := by
  have hfixed (token : Token) (h : token ∈ numbered tokens) :
      token.moveTo (shiftAfter tokens.length) = token := by
    have hlt := offset_lt_of_mem_numbered h
    unfold Token.moveTo shiftAfter
    rw [if_pos hlt]
  rw [List.map_congr_left hfixed, List.map_id']

variable {tokens others : List Token}

/-- A position of both lists has the same place in both. -/
theorem samePlace_placeOf (hlength : tokens.length = others.length) {position : Nat}
    (h : position < tokens.length) :
    SamePlace tokens others (placeOf tokens position) (placeOf others position) := by
  have htoken : tokens[position]? = some tokens[position] := List.getElem?_eq_getElem h
  have hother : others[position]? = some others[position] :=
    List.getElem?_eq_getElem (hlength ▸ h)
  refine ⟨position, tokens[position], others[position], htoken, hother, ?_, ?_⟩
  · rw [placeOf, htoken, Option.elim_some]
  · rw [placeOf, hother, Option.elim_some]

/-- A place that may be missing is missing in both, or is that of one position. -/
theorem rel_placeOf (hlength : tokens.length = others.length) {offset : Option Nat}
    (h : offset.map (shiftAfter tokens.length) = offset) :
    Option.Rel (SamePlace tokens others) (offset.map (placeOf tokens))
      (offset.map (placeOf others)) := by
  cases offset with
  | none => exact .none
  | some position =>
      exact .some (samePlace_placeOf hlength (lt_of_shiftAfter_eq (Option.some.inj h)))

/-- Two failures with the place of one position are the same but for their places. -/
theorem failure_alike (hlength : tokens.length = others.length) (offset : Option Nat)
    (h : offset.map (shiftAfter tokens.length) = offset) (stage : Stage) (code message : String)
    (length : Int) :
    Failure.Alike tokens others
      ⟨stage, code, message, (offset.map (placeOf tokens)).map Int.ofNat, length⟩
      ⟨stage, code, message, (offset.map (placeOf others)).map Int.ofNat, length⟩ where
  stage := rfl
  code := rfl
  message := rfl
  length := rfl
  place := by
    cases offset with
    | none => exact .inl ⟨rfl, rfl⟩
    | some position =>
        have hplace := samePlace_placeOf hlength (lt_of_shiftAfter_eq (Option.some.inj h))
        exact .inr (.inl ⟨_, _, hplace, rfl, rfl⟩)

/-- What a list of positions or notes is left unchanged by leaves each of them
unchanged. -/
theorem eq_self_of_map_eq_self {α : Type} {f : α → α} {list : List α} (h : list.map f = list)
    {a : α} (ha : a ∈ list) : f a = a :=
  List.map_inj_left.mp (h.trans (List.map_id list).symm) a ha

/-! ### Stage by stage -/

/-- The error of a list of tokens with positions for offsets, put in the places of
two lists. -/
theorem parseError_alike (hlength : tokens.length = others.length) {e : ParseError} {stop : Offset}
    (h : e.moveTo (shiftAfter tokens.length) stop = e) :
    (e.moveTo (placeOf tokens) (endOffset tokens)).failure.Alike tokens others
      (e.moveTo (placeOf others) (endOffset others)).failure := by
  have hat (token : Token) (htoken : token.moveTo (shiftAfter tokens.length) = token) :
      some (shiftAfter tokens.length token.offset) = some token.offset :=
    congrArg (some ∘ Token.offset) htoken
  cases e with
  | unexpected what token =>
      injection h with _ htoken
      exact failure_alike hlength (some token.offset) (hat token htoken) _ _ _ _
  | unfinished what offset => exact ⟨rfl, rfl, rfl, rfl, .inr (.inr ⟨rfl, rfl⟩)⟩
  | malformedNumber token =>
      injection h with htoken
      exact failure_alike hlength (some token.offset) (hat token htoken) _ _ _ _

/-- Tokens with the same words make one tree, put in the places of the ones and of the
others, or errors at the same tokens. -/
theorem parse_sameWords (h : SameWords tokens others) :
    (∃ tree : Program Nat, tree.map (shiftAfter tokens.length) = tree
        ∧ parse tokens = .ok (tree.map (placeOf tokens))
        ∧ parse others = .ok (tree.map (placeOf others)))
      ∨ ∃ e e' : ParseError, parse tokens = .error e ∧ parse others = .error e'
        ∧ e.failure.Alike tokens others e'.failure := by
  -- Both lists are parsed as their positions are. That a shift of what is behind the last
  -- position changes nothing says that only positions of tokens come up.
  have hshifted := parse_map_moveTo (shiftAfter tokens.length) (numbered tokens)
  have htokens := parse_map_moveTo (placeOf tokens) (numbered tokens)
  have hothers := parse_map_moveTo (placeOf others) (numbered others)
  rw [map_moveTo_numbered] at htokens hothers
  rw [map_shiftAfter_numbered] at hshifted
  rw [← numbered_congr h] at hothers
  cases hresult : parse (numbered tokens) with
  | ok tree =>
      rw [hresult] at hshifted htokens hothers
      generalize parse tokens = answer at htokens ⊢
      generalize parse others = answer' at hothers ⊢
      cases hshifted with
      | ok hfixed =>
      cases htokens with
      | ok htree =>
      cases hothers with
      | ok htree' => exact .inl ⟨tree, hfixed.symm, congrArg _ htree, congrArg _ htree'⟩
  | error e =>
      rw [hresult] at hshifted htokens hothers
      generalize parse tokens = answer at htokens ⊢
      generalize parse others = answer' at hothers ⊢
      cases hshifted with
      | error hfixed =>
      cases htokens with
      | error he =>
      cases hothers with
      | error he' =>
          refine .inr ⟨_, _, rfl, rfl, ?_⟩
          rw [he, he']
          exact parseError_alike h.length_eq hfixed.symm

section

variable (hlength : tokens.length = others.length) {tree : Program Nat}
  (htree : tree.map (shiftAfter tokens.length) = tree)

include hlength htree

/-- A tree whose marks are positions, put in the places of two lists. -/
theorem tree_alike : (tree.map (placeOf tokens)).Alike (SamePlace tokens others)
    (tree.map (placeOf others)) := by
  refine Program.alike_map fun position hposition => samePlace_placeOf hlength ?_
  have hmarks : tree.marks.map (shiftAfter tokens.length) = tree.marks := by
    rw [← Program.marks_map, htree]
  exact lt_of_shiftAfter_eq (eq_self_of_map_eq_self hmarks hposition)

omit htree in
/-- A symbol at a position, put in the places of two lists. -/
theorem symbol_alike {symbol : Symbol}
    (h : symbol.relabel (shiftAfter tokens.length) .same = symbol) :
    Symbol.Alike (SamePlace tokens others) (symbol.relabel (placeOf tokens) .same)
      (symbol.relabel (placeOf others) .same) := by
  match symbol, h with
  | .variable symbol, h =>
      injection h with h
      exact .ofVariable _ _ (rel_placeOf hlength (congrArg VariableSymbol.offset h))
  | .function symbol, h =>
      injection h with h
      exact .ofFunction _ _ _ (rel_placeOf hlength (congrArg FunctionSymbol.offset h))

omit htree in
/-- A note at a position, put in the places of two lists. -/
theorem note_alike {note : Note} (h : note.relabel (shiftAfter tokens.length) .same = note) :
    Note.Alike (SamePlace tokens others) (note.relabel (placeOf tokens) .same)
      (note.relabel (placeOf others) .same) where
  offset := samePlace_placeOf hlength (lt_of_shiftAfter_eq (congrArg Note.offset h))
  type := rfl
  symbol := by
    obtain ⟨offset, type, symbol⟩ := note
    cases symbol with
    | none => exact .none
    | some symbol =>
        exact .some (symbol_alike hlength (Option.some.inj (congrArg Note.symbol h)))

omit htree in
/-- A checker's error at a position, put in the places of two lists. -/
theorem checkError_alike {e : CheckError}
    (h : e.relabel (shiftAfter tokens.length) .same = e) :
    (e.relabel (placeOf tokens) .same).failure.Alike tokens others
      (e.relabel (placeOf others) .same).failure := by
  have hoffset : e.offset.map (shiftAfter tokens.length) = e.offset :=
    congrArg CheckError.offset h
  unfold CheckError.relabel
  rw [CheckCause.rename_same]
  exact failure_alike hlength e.offset hoffset .checking e.cause.code e.cause.message 1

/-- A tree whose marks are positions is checked to one tree of notes, put in the
places of two lists, or to one error, put in them. -/
theorem check_alike :
    EndsAlike (fun e e' => e.failure.Alike tokens others e'.failure)
      (Program.Alike (Note.Alike (SamePlace tokens others)))
      (check (tree.map (placeOf tokens))) (check (tree.map (placeOf others))) := by
  have hrelabel (place : Nat → Nat) :=
    check_relabel place Naming.faithful_same tree
  have hshifted := hrelabel (shiftAfter tokens.length)
  have htokens := hrelabel (placeOf tokens)
  have hothers := hrelabel (placeOf others)
  rw [Program.relabel_same] at hshifted htokens hothers
  -- Behind the last token nothing has a place, so moving what is there changes nothing in the
  -- tree, and then nothing in the answer. That is how the marks of the answer are known to be
  -- places of tokens.
  rw [htree] at hshifted
  generalize check (tree.map (placeOf tokens)) = answer at htokens ⊢
  generalize check (tree.map (placeOf others)) = answer' at hothers ⊢
  generalize check tree = origin at hshifted htokens hothers
  cases origin with
  | ok checked =>
      cases hshifted with
      | ok hfixed =>
      cases htokens with
      | ok hchecked =>
      cases hothers with
      | ok hchecked' =>
          rw [Program.relabel_same] at hfixed hchecked hchecked'
          rw [hchecked, hchecked']
          refine .ok (Program.alike_map fun note hnote => note_alike hlength ?_)
          have hmarks := congrArg Program.marks hfixed.symm
          rw [Program.marks_map] at hmarks
          exact eq_self_of_map_eq_self hmarks hnote
  | error e =>
      cases hshifted with
      | error hfixed =>
      cases htokens with
      | error he =>
      cases hothers with
      | error he' =>
          rw [he, he']
          exact .error (checkError_alike hlength hfixed.symm)

omit htree in
/-- A stop at a position, put in the places of two lists. -/
theorem stop_alike {stop stop₁ stop₂ : Stop}
    (hfixed : stop.Relabelled (shiftAfter tokens.length) .same stop)
    (h₁ : stop.Relabelled (placeOf tokens) .same stop₁)
    (h₂ : stop.Relabelled (placeOf others) .same stop₂) :
    RunError.Alike tokens others (.stopped stop₁) (.stopped stop₂) := by
  have hsame {cause cause' : FaultCause} (h : cause' = cause ∨ cause' = cause.rename .same) :
      cause' = cause := by
    rwa [FaultCause.rename_same, or_self] at h
  -- Only a fault has a place. Any other stop is the same wherever the tokens stand.
  cases hfixed with
  | fault _ hoffset =>
      cases h₁ with
      | fault hcause₁ hoffset₁ =>
      cases h₂ with
      | fault hcause₂ hoffset₂ =>
          refine .fault ?_
          unfold Fault.failure
          rw [hsame hcause₁, hsame hcause₂, hoffset₁, hoffset₂]
          exact failure_alike hlength _ hoffset.symm _ _ _ _
  | host e =>
      cases h₁
      cases h₂
      exact .host e
  | number e =>
      cases h₁
      cases h₂
      exact .number e
  | tooDeep =>
      cases h₁
      cases h₂
      exact .tooDeep
  | tooLong =>
      cases h₁
      cases h₂
      exact .tooLong

omit htree in
/-- A failure at a position, put in the places of two lists. -/
theorem runError_alike {e e₁ e₂ : RunError}
    (hfixed : e.Relabelled (shiftAfter tokens.length) .same e)
    (h₁ : e.Relabelled (placeOf tokens) .same e₁) (h₂ : e.Relabelled (placeOf others) .same e₂) :
    e₁.Alike tokens others e₂ := by
  cases hfixed with
  | typing hfixed =>
      cases h₁ with
      | typing he₁ =>
      cases h₂ with
      | typing he₂ =>
          rw [he₁, he₂]
          exact .program (checkError_alike hlength hfixed.symm)
  | stopped hfixed =>
      cases h₁ with
      | stopped hstop₁ =>
      cases h₂ with
      | stopped hstop₂ => exact stop_alike hlength hfixed hstop₁ hstop₂

/-- The tree runs to the same value or error and with the same output, wherever its
tokens stand. -/
theorem perform_alike (limits : Limits) (analyze : Bool) :
    EndsAlike (RunError.Alike tokens others) (· = ·)
        (Session.initial.perform limits analyze (tree.map (placeOf tokens))).1
        (Session.initial.perform limits analyze (tree.map (placeOf others))).1
      ∧ (Session.initial.perform limits analyze (tree.map (placeOf tokens))).2.output
        = (Session.initial.perform limits analyze (tree.map (placeOf others))).2.output := by
  have hrelabel (place : Nat → Nat) :=
    Session.perform_initial_relabel place Naming.faithful_same limits analyze tree
  obtain ⟨hshifted, -⟩ := hrelabel (shiftAfter tokens.length)
  obtain ⟨htokens, houtput⟩ := hrelabel (placeOf tokens)
  obtain ⟨hothers, houtput'⟩ := hrelabel (placeOf others)
  rw [Program.relabel_same] at hshifted htokens hothers houtput houtput'
  rw [htree] at hshifted
  -- Both runs are compared with the one in which a place is the number of a token.
  refine ⟨?_, houtput.trans houtput'.symm⟩
  generalize (Session.initial.perform limits analyze (tree.map (placeOf tokens))).1 = answer
    at htokens ⊢
  generalize (Session.initial.perform limits analyze (tree.map (placeOf others))).1 = answer'
    at hothers ⊢
  generalize (Session.initial.perform limits analyze tree).1 = origin
    at hshifted htokens hothers
  cases origin with
  | ok value =>
      cases htokens with
      | ok hvalue =>
      cases hothers with
      | ok hvalue' => exact .ok (hvalue.symm.trans hvalue')
  | error e =>
      cases hshifted with
      | error hfixed =>
      cases htokens with
      | error he =>
      cases hothers with
      | error he' => exact .error (runError_alike hlength hfixed he he')

end

/-! ### Texts -/

/-- Texts with the same words come to the same, however they are laid out: to the same
tree, to the same checked tree, and in a run of them alone, checked before or not, to the
same output and the same value. Or they come to the same error at the same word.

Runs are compared under all limits. So one that reaches no end under any limit has a
counterpart that reaches none, and both have printed the same wherever they are cut off. -/
theorem layout_means_nothing {text text' : String} (hlex : tokenize text = .ok tokens)
    (hlex' : tokenize text' = .ok others) (hwords : SameWords tokens others) :
    EndsAlike (ProgramError.Alike tokens others) (Program.Alike (SamePlace tokens others))
        (readProgram text) (readProgram text')
      ∧ EndsAlike (ProgramError.Alike tokens others)
        (Program.Alike (Note.Alike (SamePlace tokens others)))
        (checkText text) (checkText text')
      ∧ ∀ limits analyze,
        EndsAlike (RunError.Alike tokens others) (· = ·) (runText limits analyze text).1
            (runText limits analyze text').1
          ∧ (runText limits analyze text).2 = (runText limits analyze text').2 := by
  have hlength := hwords.length_eq
  rcases parse_sameWords hwords with ⟨tree, htree, hparse, hparse'⟩ | ⟨e, e', he, he', halike⟩
  · have hread := readProgram_eq_ok hlex hparse
    have hread' := readProgram_eq_ok hlex' hparse'
    rw [hread, hread', checkText_of_ok hread, checkText_of_ok hread']
    refine ⟨.ok (tree_alike hlength htree), ?_, fun limits analyze => ?_⟩
    · have hchecked := check_alike hlength htree
      generalize check (tree.map (placeOf tokens)) = answer at hchecked ⊢
      generalize check (tree.map (placeOf others)) = answer' at hchecked ⊢
      cases hchecked with
      | ok hnotes => exact .ok hnotes
      | error he => exact .error he
    · rw [runText_of_ok hread, runText_of_ok hread']
      exact perform_alike hlength htree limits analyze
  · have hread := readProgram_eq_error hlex he
    have hread' := readProgram_eq_error hlex' he'
    have hprogram : ProgramError.Alike tokens others (.grammar e) (.grammar e') := halike
    rw [hread, hread', checkText_of_error hread, checkText_of_error hread']
    refine ⟨.error hprogram, .error hprogram, fun limits analyze => ?_⟩
    rw [runText_of_error hread, runText_of_error hread']
    exact ⟨.error (.program hprogram), rfl⟩

/-- So it is with a division by zero on one line and on three: both runs fail at the
ninth word. -/
theorem layout_means_nothing_in_division :
    ∃ tokens others : List Token,
      tokenize "DEF main(): Integer DO RETURN 1/0; END" = .ok tokens
        ∧ tokenize "DEF main(): Integer DO\n  RETURN 1 / 0;\nEND" = .ok others
        ∧ SameWords tokens others
        ∧ EndsAlike (RunError.Alike tokens others) (· = ·)
          (runText ⟨10, 10⟩ true "DEF main(): Integer DO RETURN 1/0; END").1
          (runText ⟨10, 10⟩ true "DEF main(): Integer DO\n  RETURN 1 / 0;\nEND").1
        ∧ SamePlace tokens others 30 32 := by
  have hlex : tokenize "DEF main(): Integer DO RETURN 1/0; END" = .ok
      [⟨.identifier, "DEF", 0⟩, ⟨.identifier, "main", 4⟩, ⟨.operator, "(", 8⟩,
        ⟨.operator, ")", 9⟩, ⟨.operator, ":", 10⟩, ⟨.identifier, "Integer", 12⟩,
        ⟨.identifier, "DO", 20⟩, ⟨.identifier, "RETURN", 23⟩, ⟨.integer, "1", 30⟩,
        ⟨.operator, "/", 31⟩, ⟨.integer, "0", 32⟩, ⟨.operator, ";", 33⟩,
        ⟨.identifier, "END", 35⟩] := by
    rfl
  have hlex' : tokenize "DEF main(): Integer DO\n  RETURN 1 / 0;\nEND" = .ok
      [⟨.identifier, "DEF", 0⟩, ⟨.identifier, "main", 4⟩, ⟨.operator, "(", 8⟩,
        ⟨.operator, ")", 9⟩, ⟨.operator, ":", 10⟩, ⟨.identifier, "Integer", 12⟩,
        ⟨.identifier, "DO", 20⟩, ⟨.identifier, "RETURN", 25⟩, ⟨.integer, "1", 32⟩,
        ⟨.operator, "/", 34⟩, ⟨.integer, "0", 36⟩, ⟨.operator, ";", 37⟩,
        ⟨.identifier, "END", 39⟩] := by
    rfl
  obtain ⟨-, -, hrun⟩ := layout_means_nothing hlex hlex' rfl
  exact ⟨_, _, hlex, hlex', rfl, (hrun ⟨10, 10⟩ true).1, 8, _, _, rfl, rfl, rfl, rfl⟩

end Proofs

end PlcLang
