import PlcLang.Execution.Interpreter

/-!
# `PlcLang.Proofs.Execution.Watched`: the interpreter, watched

To say what happens at every moment of a run, the moments have to be kept. The watched
interpreter runs trees with marks of any kind, of which `place` tells where a node is. It does
what every interpreter does, and besides it

* keeps a list of events: which node is come upon in which scope, which value an expression
  has, which variable is looked up, which function is called;
* says of an operator that cannot be applied what the marks of its operands are.

A method is bound with its marks, so that a call can be told apart from another by more than
the method's text.
-/

set_option autoImplicit false

namespace PlcLang

/-- What is kept of a moment of a run. The scopes are kept as they are at that
moment. -/
inductive Event (α : Type) where
  /-- An expression or a statement is come upon in a scope. -/
  | enter (mark : α) (scope : ScopeId) (scopes : Arena Value (Callee α))
  /-- An expression has a value. -/
  | value (mark : α) (value : Value)
  /-- A variable is looked up from a scope, to be read or to be written. -/
  | access (mark : α) (name : String) (scope : ScopeId) (scopes : Arena Value (Callee α))
  /-- A function is called. -/
  | called (mark : α) (callee : Callee α)

/-- The state of a watched run: a machine, and the events so far, the latest first. -/
structure Scene (α : Type) extends MachineOf α where
  events : List (Event α) := []

/-- Why a watched run stops, and the marks of the operands if it stops at an
operator. -/
structure Halt (α : Type) where
  stop : Stop
  operands : Option (α × α) := none

/-- A watched computation on a machine: its state is the scene, and it stops by a
halt. -/
abbrev Watch (α : Type) := EStateM (Halt α) (Scene α)

namespace Interpreter

variable {α : Type}

/-- Adds an event in front of those before it. -/
def note (event : Event α) : Watch α Unit :=
  modify fun scene => { scene with events := event :: scene.events }

/-- Notes that a node is come upon, with the scopes of the moment. -/
def noteEnter (mark : α) (scope : ScopeId) : Watch α Unit := do
  note (.enter mark scope (← get).scopes)

/-- Notes that a variable is looked up, with the scopes of the moment. -/
def noteAccess (mark : α) (name : String) (scope : ScopeId) : Watch α Unit := do
  note (.access mark name scope (← get).scopes)

/-- Notes which value an expression has. If it has none, because the run stops,
nothing is noted. -/
def answer (mark : α) (x : Watch α Value) : Watch α Value := do
  let value ← x
  note (.value mark value)
  pure value

/-- The watched interpreter: the interpreter that notes what happens, and when it
stops at an operator the marks of the operands. -/
def watched (place : α → Offset) : Interpreter α (Halt α) (Scene α) where
  place := place
  machine := Scene.toMachineOf
  update f scene := { scene with toMachineOf := f scene.toMachineOf }
  stop stop operands := ⟨stop, operands⟩
  expression mark scope x := do
    noteEnter mark scope
    answer mark x
  statement mark scope x := do
    noteEnter mark scope
    x
  before
    | .access mark name scope => noteAccess mark name scope
    | .call mark callee => note (.called mark callee)
    | _ => pure ()

end Interpreter

end PlcLang
