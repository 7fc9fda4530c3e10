import PlcLang.Proofs.Scoping.SealedRuns
import PlcLang.Proofs.Scoping.Stack

/-!
# `PlcLang.Proofs.Scoping.Locals`: expressions leave local variables alone

To evaluate an expression can run any number of methods, which declare variables, assign
to them and call each other. Still only variables of the program's scope, fields of
objects and the output are different afterwards: `keepsLocals_evaluate` says so of every
machine whose scopes are in order.

In a session the scopes are in order whenever an expression is come upon, and while it is
evaluated no variable is bound in a scope that was live by then, but for the program's
scope. So it is not that local variables get their values back: their cells are not
touched (`Session.executeSealed`, `expressions_leave_locals_alone`).
-/

set_option autoImplicit false

namespace PlcLang

/-- The later machine has the local variables of the earlier one. What it can have of its
own are variables of the program's scope, fields of objects and the output. -/
structure Machine.KeepsLocals (before after : Machine) : Prop where
  locals : ∀ index, index ≠ Arena.root →
    after.scopes.scope? index = before.scopes.scope? index
  rest : ∃ globals heap output, after =
    { before with
      scopes := before.scopes.modify Arena.root fun scope => { scope with variableTable := globals }
      heap := heap
      output := output }

/-- Runs a program under seal: an alarm is raised if an expression is come upon while the
scopes are out of order, or if a variable is bound meanwhile in a scope that was live
when it was come upon, except for the program's. -/
def Session.executeSealed (session : Session) (alarm : Stop) (limits : Limits)
    (program : Program Offset) : Except Stop Value × Session :=
  match (Interpreter.sealed alarm).program limits program ⟨session.quiet.machine, 0⟩ with
  | .ok value after => (.ok value, { session with machine := after.machine })
  | .error stop after => (.error stop, { session with machine := after.machine })

namespace Proofs

open Interpreter

/-- A scope that looks like another one without variables has everything else of it. -/
theorem eq_of_outline {V F : Type} {scope scope' : Scope V F} (h : scope'.outline = scope.outline) :
    scope' = { scope with variableTable := scope'.variableTable } := by
  obtain ⟨parent, table, functions⟩ := scope
  obtain ⟨parent', table', functions'⟩ := scope'
  obtain ⟨rfl, -, rfl⟩ := Scope.mk.inj h
  rfl

/-- Arenas that differ in variables only, and in none but the first scope's. -/
theorem eq_modify_root {V F : Type} {scopes scopes' : List (Scope V F)}
    (houtlines : scopes'.map Scope.outline = scopes.map Scope.outline)
    (hlocals : ∀ index, index ≠ Arena.root → scopes'[index]? = scopes[index]?) :
    ∃ globals, scopes'
      = scopes.modify Arena.root fun scope => { scope with variableTable := globals } := by
  cases scopes with
  | nil =>
      rw [List.map_nil, List.map_eq_nil_iff] at houtlines
      exact ⟨.empty, houtlines⟩
  | cons scope rest =>
      cases scopes' with
      | nil => cases houtlines
      | cons scope' rest' =>
          have hscope : scope'.outline = scope.outline := (List.cons.inj houtlines).1
          obtain rfl : rest' = rest :=
            List.ext_getElem? fun index => hlocals (index + 1) (Nat.succ_ne_zero index)
          exact ⟨scope'.variableTable, congrArg (· :: rest') (eq_of_outline hscope)⟩

/-- Where all scopes are sealed, only the variables of the program's scope can be
others. -/
theorem keepsLocals_of_spared {before after : Machine}
    (h : before.Spared before.scopes.size after) : before.KeepsLocals after := by
  have hlocals : ∀ index, index ≠ Arena.root →
      after.scopes.scope? index = before.scopes.scope? index := by
    intro index hroot
    rcases Nat.lt_or_ge index before.scopes.size with hlt | hge
    · exact h.locals index hlt hroot
    · -- Behind the last scope there is none in either machine.
      have hsize : after.scopes.scopes.length = before.scopes.scopes.length := by
        simpa [Arena.parents] using congrArg List.length h.parents_eq
      unfold Arena.scope?
      rw [List.getElem?_eq_none hge, List.getElem?_eq_none (Nat.le_trans (Nat.le_of_eq hsize) hge)]
  obtain ⟨globals, hscopes⟩ := eq_modify_root h.outlines hlocals
  refine ⟨hlocals, globals, after.heap, after.output, ?_⟩
  obtain ⟨⟨scopes⟩, heap, methods, output⟩ := after
  obtain rfl : methods = before.methods := h.methods
  exact congrArg (fun scopes => MachineOf.mk ⟨scopes⟩ heap before.methods output) hscopes

/-- Whatever an expression is evaluated to, and also if it is not, the local variables of
all live scopes are as they were. -/
theorem keepsLocals_evaluate (rounds depth : Nat) {scope : ScopeId} (e : Expr Offset)
    {machine : Machine} (h : InOrder machine.scopes.parents scope) :
    Yields (plain.evaluate rounds depth scope e) machine
      (fun _ after => machine.KeepsLocals after) fun _ after => machine.KeepsLocals after := by
  have hspared := spared_evaluate rounds depth scope e h
  -- The current scope is the last one, so all scopes are sealed.
  rw [← InOrder.size_eq h] at hspared
  exact hspared.imp (fun _ _ => keepsLocals_of_spared) fun _ _ => keepsLocals_of_spared

/-- A session runs a program under seal as it runs it without. -/
theorem executeSealed_eq {session : Session} (h : session.AtRest) (alarm : Stop)
    (limits : Limits) (program : Program Offset) :
    session.executeSealed alarm limits program = session.execute limits program := by
  have horder : InOrder session.quiet.machine.scopes.parents Arena.root := by
    show InOrder session.machine.scopes.parents Arena.root
    rw [h.machine]
    exact inOrder_root
  unfold Session.executeSealed Session.execute Session.ran
  rw [sealed_program limits program horder]
  cases plain.program limits program session.quiet.machine <;> rfl

/-- Expressions never touch local variables. Begun with the scopes in order,
evaluation ends, with a value or without, with the same local variables in all live
scopes; it can have changed the program's variables, fields of objects and the
output. And in a session, whatever calls it has been through, a program runs under
seal as it runs without, whatever would be raised for an alarm: whenever an
expression is come upon, the scopes are in order, and until it is left no variable
of theirs is bound, but for the program's.

A function of the host is here a function of the objects and its arguments
(`HostFunction`). It is given no scope, so what it could change besides are objects
and its own state; the theorem is about the local variables, which neither of these
holds. -/
theorem expressions_leave_locals_alone :
    (∀ (rounds depth : Nat) (scope : ScopeId) (e : Expr Offset) (machine : Machine),
      InOrder machine.scopes.parents scope →
        Yields (plain.evaluate rounds depth scope e) machine
          (fun _ after => machine.KeepsLocals after) fun _ after => machine.KeepsLocals after) ∧
    ∀ (calls : List Session.Call) (alarm : Stop) (limits : Limits) (program : Program Offset),
      let session := Session.initial.afterAll calls
      session.executeSealed alarm limits program = session.execute limits program := by
  refine ⟨fun rounds depth scope e machine => keepsLocals_evaluate rounds depth e, ?_⟩
  intro calls alarm limits program session
  have hinitial : Session.initial.AtRest := ⟨rfl, rfl⟩
  exact executeSealed_eq (atRest_afterAll hinitial calls) alarm limits program

/-- The method `f(x)`, which assigns to its own `x` and to the `total` of the program, and
a scope with an `x` that can call it. -/
def callingMachine : Machine :=
  let assignments : List (Stmt Offset) :=
    [.assign 0 (.var 0 "x") (.integer 0 2), .assign 0 (.var 0 "total") (.var 0 "x")]
  let method : Method Offset := ⟨0, "f", ["x"], ["Integer"], none, assignments⟩
  let root := (Machine.initial.scopes.bindVariable Arena.root "total" (.integer 0)).bindFunction
    Arena.root ("f", 1) (.method method)
  { Machine.initial with
    scopes := (root.push Arena.root).bindVariable 1 "x" (.integer 1) }

/-- After a call of `f(x)` the `total` is another one, and the caller's `x` is the same. -/
theorem call_leaves_callers_variable_alone :
    InOrder callingMachine.scopes.parents 1 ∧
    ∃ after, plain.evaluate 5 5 1 (.call 0 "f" [.var 0 "x"]) callingMachine = .ok .nil after ∧
      after.scopes.boundVariable? 1 "total" = some (.integer 2) ∧
      after.scopes.boundVariable? 1 "x" = some (.integer 1) ∧
      callingMachine.KeepsLocals after := by
  have horder : InOrder callingMachine.scopes.parents 1 := by decide
  have hyields := expressions_leave_locals_alone.1 5 5 1 (.call 0 "f" [.var 0 "x"])
    callingMachine horder
  refine ⟨horder, _, rfl, rfl, rfl, ?_⟩
  exact hyields

end Proofs

end PlcLang
