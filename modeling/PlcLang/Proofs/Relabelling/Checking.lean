import PlcLang.Proofs.Relabelling.Arenas
import PlcLang.Proofs.Typing.Likeness

/-!
# `PlcLang.Proofs.Relabelling.Checking`: the checker under other labels

Places and names go through the checker into its notes, its symbols and its errors, and it
decides nothing by a place, and by a name only whether it is the same as another. So the checker
does with a relabelled program what it does with the program, and relabels what it answers:
`relabels_program`. It is one of the comparisons of two checks (`likeness_relabel`), here of the
checker with itself.
-/

set_option autoImplicit false

namespace PlcLang

/-- The symbols correspond under the new labels. -/
def Symbols.Relabelled (labels : Offset → Offset) (names : Naming)
    (symbols symbols' : Symbols) : Prop :=
  symbols.Renamed names (VariableSymbol.relabel labels names) (FunctionSymbol.relabel labels names)
    symbols'

namespace Checker

open Proofs

variable {α β : Type} {labels : Offset → Offset} {names : Naming}

/-- The second computation does what the first does, under the new labels: it
answers alike, it fails with the relabelled error, and it leaves corresponding
symbols. -/
abbrev Relabels (labels : Offset → Offset) (names : Naming) (f : α → β) (x : Check α)
    (y : Check β) : Prop :=
  Simulates (Symbols.Relabelled labels names) (fun e e' => e' = e.relabel labels names) f x y

/-! ### Scopes -/

/-- A check is rejected for the relabelled cause at the new place. -/
theorem relabels_reject {f : α → β} (cause : CheckCause) (offset : Option Offset) :
    Relabels labels names f (reject cause offset)
      (reject (cause.rename names) (offset.map labels)) :=
  .throw rfl

/-- What is checked in a scope of its own corresponds if the bodies do. -/
theorem relabels_withScope {f : α → β} {scope : ScopeId} {body : ScopeId → Check α}
    {body' : ScopeId → Check β} (h : ∀ inner, Relabels labels names f (body inner) (body' inner)) :
    Relabels labels names f (plain.withScope scope body) (plain.withScope scope body') := by
  intro symbols symbols' hsymbols
  have hbody := h symbols.size (symbols.push scope) (symbols'.push scope)
    (Arena.Renamed.push hsymbols scope)
  have hsize : symbols'.size = symbols.size := Arena.Renamed.size_eq hsymbols
  rw [marking_withScope_apply, marking_withScope_apply, hsize]
  cases hresult : body symbols.size (symbols.push scope) with
  | ok a after =>
      rw [hresult] at hbody
      obtain ⟨after', hbody', hafter⟩ := hbody
      rw [hbody']
      exact ⟨_, rfl, Arena.Renamed.release hafter symbols.size⟩
  | error e after =>
      rw [hresult] at hbody
      obtain ⟨e', after', hbody', he, hafter⟩ := hbody
      rw [hbody']
      exact ⟨e', _, rfl, he, Arena.Renamed.release hafter symbols.size⟩

section Faithful

variable (hnames : names.Faithful)

include hnames

/-- A variable is defined under its new name, or is there already on both sides. -/
theorem relabels_defineVariable (scope : ScopeId) (symbol : VariableSymbol) (cause : CheckCause)
    (offset : Offset) :
    Relabels labels names id (plain.defineVariable scope symbol cause offset)
      (plain.defineVariable scope (symbol.relabel labels names) (cause.rename names)
        (labels offset)) := by
  intro symbols symbols' hsymbols
  have hdefine := Arena.Renamed.defineVariable hsymbols hnames scope symbol.name symbol
  simp only [marking_defineVariable_apply, VariableSymbol.relabel] at hdefine ⊢
  generalize symbols.defineVariable scope symbol.name symbol = answer at hdefine ⊢
  generalize symbols'.defineVariable scope _ _ = answer' at hdefine ⊢
  cases hdefine with
  | error e => exact ⟨_, symbols', rfl, rfl, hsymbols⟩
  | @ok found after after' hafter =>
      cases found with
      | none => exact ⟨after', rfl, hafter⟩
      | some existing => exact ⟨_, after', rfl, rfl, hafter⟩

/-- A function is defined under its new name, or is there already on both sides. -/
theorem relabels_defineFunction (symbol : FunctionSymbol) (offset : Offset) :
    Relabels labels names id (plain.defineFunction symbol offset)
      (plain.defineFunction (symbol.relabel labels names) (labels offset)) := by
  intro symbols symbols' hsymbols
  have hdefine := Arena.Renamed.defineFunction hsymbols hnames Arena.root symbol.key symbol
  have hkey : (symbol.relabel labels names).key = names.key symbol.key := rfl
  simp only [marking_defineFunction_apply, hkey]
  generalize symbols.defineFunction Arena.root symbol.key symbol = answer at hdefine ⊢
  generalize symbols'.defineFunction Arena.root (names.key symbol.key) _ = answer' at hdefine ⊢
  cases hdefine with
  | error e => exact ⟨_, symbols', rfl, rfl, hsymbols⟩
  | @ok found after after' hafter =>
      cases found with
      | none => exact ⟨after', rfl, hafter⟩
      | some existing => exact ⟨_, after', rfl, rfl, hafter⟩

end Faithful

/-- A variable is found under its new name. -/
theorem relabels_findVariable (scope : ScopeId) (name : String) (offset : Offset) :
    Relabels labels names (VariableSymbol.relabel labels names)
      (plain.findVariable scope name offset)
      (plain.findVariable scope (names.ofVariable name) (labels offset)) := by
  rw [marking_findVariable, marking_findVariable]
  refine .get_bind fun symbols symbols' hsymbols => ?_
  rw [Arena.Renamed.boundVariable? hsymbols scope name]
  cases symbols.boundVariable? scope name with
  | some symbol => exact .pure symbol
  | none => exact relabels_reject (.undefinedVariable name) offset

/-- A function is found under its new name. -/
theorem relabels_findFunction (scope : ScopeId) (key : FunctionKey) (offset : Offset) :
    Relabels labels names (FunctionSymbol.relabel labels names)
      (plain.findFunction scope key offset)
      (plain.findFunction scope (names.key key) (labels offset)) := by
  rw [marking_findFunction, marking_findFunction]
  refine .get_bind fun symbols symbols' hsymbols => ?_
  rw [Arena.Renamed.boundFunction? hsymbols scope key]
  cases symbols.boundFunction? scope key with
  | some symbol => exact .pure symbol
  | none => exact relabels_reject (.undefinedFunction key) offset

/-! ### The whole -/

/-- The checker is compared with itself, on a program with other labels. Names come
into it where something is defined or looked for, and places where something is
noted or rejected. -/
theorem likeness_relabel {types : TypeTable} (htypes : types.Unlabelled labels names)
    (hnames : names.Faithful) :
    Likeness plain plain id (Note.relabel labels names) labels names types (fun _ => True)
      fun _ {_ _} f x y => Relabels labels names f x y where
  translating _ := Simulates.translating
  ofExpression h := h
  root := rfl
  deeper _ := rfl
  faithful := hnames
  members := htypes
  expression h := h
  statement h := h
  look _ _ h := h id id fun _ => rfl
  withScope h := relabels_withScope h
  reject _ cause offset _ := relabels_reject cause offset
  wideInteger _ m value _ := relabels_reject (.wideInteger value) m
  unsupported _ _ kind _ offset _ := relabels_reject (.unsupported kind) offset
  defineVariable scope symbol cause offset _ :=
    relabels_defineVariable hnames scope symbol cause offset
  defineFunction := relabels_defineFunction hnames
  findVariable := relabels_findVariable
  findFunction := relabels_findFunction
  pair _ := .pure ()

section

variable {types : TypeTable} (htypes : types.Unlabelled labels names) (hnames : names.Faithful)

include htypes hnames

/-- The body of a relabelled method is checked as that of the method. -/
theorem relabels_checkMethod (method : Method Offset) (symbol : FunctionSymbol) :
    Relabels labels names (Method.relabel (Note.relabel labels names) names)
      (plain.checkMethod types method symbol)
      (plain.checkMethod types (method.relabel labels names) (symbol.relabel labels names)) :=
  (likeness_relabel htypes hnames).checkMethod method symbol fun _ _ => trivial

/-- A relabelled program is accepted as the program is, with relabelled notes, or
rejected for the same reason, relabelled; and the symbols correspond afterwards. -/
theorem relabels_program (tree : Program Offset) :
    Relabels labels names (Program.relabel (Note.relabel labels names) names)
      (plain.program types tree) (plain.program types (tree.relabel labels names)) :=
  (likeness_relabel htypes hnames).program tree fun _ _ => trivial

end

end Checker

end PlcLang
