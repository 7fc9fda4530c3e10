import PlcLang.Proofs.Scoping.Chains
import PlcLang.Proofs.Syntax.Marks
import PlcLang.Proofs.Typing.Likeness

/-!
# `PlcLang.Proofs.Typing.Watched`: the checker, watched

To say what the checker sees at a node, its moments have to be kept. The watched checker
(`Checker.watched`) is the checker, except that the mark of each node also holds the scope and the
symbols of the moment at which the node was come upon.

That is all the difference: leaving the moments out of its tree gives the tree of the checker, and
where one fails the other fails alike (`erases_program`). It is one of the comparisons of two
checks (`likeness_watched`).
-/

set_option autoImplicit false

namespace PlcLang

/-- The mark of a node as the checker comes upon it: what it finds out about the
node, and the scope and the symbols at that moment. -/
structure Sight where
  note : Note
  scope : ScopeId
  symbols : Symbols

namespace Sight

/-- What the checker sees from the node. -/
def chain (sight : Sight) : List (Frame VariableSymbol FunctionSymbol) :=
  sight.symbols.chain sight.scope

/-- Where the node is. -/
def offset (sight : Sight) : Offset :=
  sight.note.offset

end Sight

namespace Checker

/-- How to mark what is noted at this moment. -/
def sightFrom (scope : ScopeId) : Check (Note → Sight) := do
  let symbols ← get
  pure fun note => ⟨note, scope, symbols⟩

/-- The checker that keeps its moments. -/
abbrev watched : Checker Sight ScopeId :=
  marking sightFrom

end Checker

namespace Proofs

open Checker

/-- A scope of its own hides nothing. -/
theorem erases_withScope {α β : Type} {f : α → β} {scope : ScopeId} {body : ScopeId → Check α}
    {body' : ScopeId → Check β} (h : ∀ inner, Erases View.same f (body inner) (body' inner)) :
    Erases View.same f (watched.withScope scope body) (plain.withScope scope body') := by
  intro symbols
  have hbody := h symbols.size (symbols.push scope)
  dsimp only [View.same, id] at hbody ⊢
  rw [marking_withScope_apply, marking_withScope_apply, hbody]
  cases body symbols.size (symbols.push scope) <;> rfl

/-- What is found among the symbols is found alike, and what is defined is defined alike. -/
theorem likeness_watched (types : TypeTable) :
    Likeness watched plain id Sight.note id .same types (fun _ => True)
      fun _ {_ _} f x y => Erases View.same f x y where
  translating _ := Erases.translating
  ofExpression h := h
  root := rfl
  deeper _ := rfl
  faithful := Naming.faithful_same
  members := types.unlabelled_same
  expression h := h
  statement h := h
  -- A watched node is marked with the symbols of the moment, too, and erasing leaves the note.
  look _ scope h := fun symbols =>
    h (fun note => ⟨note, scope, symbols⟩) id (fun note => (Note.relabel_same note).symm) symbols
  withScope h := erases_withScope h
  reject _ cause offset _ := by
    rw [CheckCause.rename_same, Option.map_id_apply]
    exact .throw _
  wideInteger _ _ _ _ := .throw _
  unsupported _ _ _ _ offset _ := by
    rw [Option.map_id_apply]
    exact .throw _
  defineVariable _ symbol cause _ _ := by
    rw [VariableSymbol.relabel_same, CheckCause.rename_same]
    exact .refl _
  defineFunction symbol _ := by
    rw [FunctionSymbol.relabel_same]
    exact .refl _
  findVariable _ _ _ := by
    rw [VariableSymbol.relabel_same]
    exact .refl _
  findFunction _ _ _ := by
    rw [FunctionSymbol.relabel_same]
    exact .refl _
  pair _ := .refl _

/-- Leaving the moments out of what the watched checker answers with gives what the checker
answers with, and both fail alike. -/
theorem erases_program (types : TypeTable) (program : Program Offset) :
    Erases View.same (Program.map Sight.note) (watched.program types program)
      (plain.program types program) := by
  have h := (likeness_watched types).program program fun _ _ => trivial
  rwa [Program.relabel_id, funext (Program.relabel_same Sight.note)] at h

end Proofs

/-- What the checker makes of a program in a session, with its moments. -/
def Session.sight (session : Session) (program : Program Offset) :
    Except CheckError (Program Sight) :=
  (session.checked (Checker.watched.program session.types program)).1

/-- A session checks a program as it is seen to. -/
theorem Session.check_eq_sight (session : Session) (program : Program Offset) :
    (session.check program).1 = (session.sight program).map (Program.map Sight.note) := by
  have h := Proofs.erases_program session.types program session.symbols
  rw [Session.check, Session.sight, Session.checked, Session.checked]
  rw [show Checker.plain.program session.types program session.symbols = _ from h]
  cases Checker.watched.program session.types program session.symbols <;> rfl

end PlcLang
