import PlcLang.Proofs.Scoping.GuardedChecks
import PlcLang.Proofs.Scoping.GuardedRuns

/-!
# `PlcLang.Proofs.Scoping.Stack`: the scopes are a stack

A session goes through any number of calls: bindings of the host, programs that are
checked, also until the checker gives up for depth, and programs that are run, whether
they have been checked or not (`Session.Call`). After each of them, however it ended,
only the program's scope is live, in the checker and in the machine; and within each of
them the scopes are a stack, which is what guards find out (`scopes_form_a_stack`).
-/

set_option autoImplicit false

namespace PlcLang

namespace Session

/-- Checks a program under guard, and within a depth. -/
def checkGuarded (session : Session) (alarm exhausted : CheckError) (depth : Option Nat)
    (program : Program Offset) : Except CheckError (Program Note) × Session :=
  session.checked ((Checker.guarded alarm exhausted depth).program session.types program)

/-- Runs a program under guard. -/
def executeGuarded (session : Session) (alarm : Stop) (limits : Limits)
    (program : Program Offset) : Except Stop Value × Session :=
  session.ran ((Interpreter.guarded alarm).program limits program)

/-- What a session may be asked to do. -/
inductive Call where
  | registerType (name : String) (comparable : Bool)
  | declareVariable (name : String) (type : Ty)
  | declareFunction (name : String) (parameters : List Ty) (result : Ty)
  | bindVariable (name : String) (value : Value)
  | bindFunction (key : FunctionKey) (run : HostFunction)
  | newObject (typeName : String) (fields : List (String × Value))
      (methods : List (FunctionKey × HostFunction))
  | newFunction (key : FunctionKey)
  | check (program : Program Offset)
  /-- Checks a program, and gives up at a depth. -/
  | checkWithin (depth : Nat) (exhausted : CheckError) (program : Program Offset)
  | execute (limits : Limits) (program : Program Offset)

/-- The session after a call. -/
def after (session : Session) : Call → Session
  | .registerType name comparable =>
    (session.registerType name comparable).toOption.getD session
  | .declareVariable name type => session.declareVariable name type
  | .declareFunction name parameters result => session.declareFunction name parameters result
  | .bindVariable name value => session.bindVariable name value
  | .bindFunction key run => session.bindFunction key run
  | .newObject typeName fields methods => (session.newObject typeName fields methods).2
  | .newFunction key => (session.newFunction key).2
  | .check program => (session.check program).2
  | .checkWithin depth exhausted program =>
    (session.checkGuarded exhausted exhausted (some depth) program).2
  | .execute limits program => (session.execute limits program).2

/-- The session after calls in order. -/
def afterAll (session : Session) (calls : List Call) : Session :=
  calls.foldl after session

/-- Only the program's scope is live, in the checker and in the machine. -/
structure AtRest (session : Session) : Prop where
  symbols : session.symbols.parents = [none]
  machine : session.machine.scopes.parents = [none]

end Session

namespace Proofs

variable {session : Session}

/-! ### One call -/

/-- With no bound on the depth, a session checks a program under guard as it checks
it without: same verdict, same session afterwards. -/
theorem checkGuarded_none (h : session.AtRest) (alarm exhausted : CheckError)
    (program : Program Offset) :
    session.checkGuarded alarm exhausted none program = session.check program := by
  have horder : InOrder session.symbols.parents Arena.root := h.symbols ▸ inOrder_root
  have hkeeps : Checker.KeepsCheck exhausted ⟨Arena.root, none⟩
      (Checker.plain.program session.types program)
      ((Checker.guarded alarm exhausted none).program session.types program) :=
    Checker.keeps_guarded_program session.types program
  exact session.checked_congr (hkeeps.eq_of_none horder)

/-- With a bound, it can also give up, with the error that stands for that. No alarm
is raised on the way there. -/
theorem checkGuarded_some (h : session.AtRest) (alarm exhausted : CheckError) (depth : Nat)
    (program : Program Offset) :
    session.checkGuarded alarm exhausted (some depth) program = session.check program
      ∨ (session.checkGuarded alarm exhausted (some depth) program).1 = .error exhausted := by
  have horder : InOrder session.symbols.parents Arena.root := h.symbols ▸ inOrder_root
  have hkeeps : Checker.KeepsCheck exhausted ⟨Arena.root, some depth⟩
      (Checker.plain.program session.types program)
      ((Checker.guarded alarm exhausted (some depth)).program session.types program) :=
    Checker.keeps_guarded_program session.types program
  rcases (hkeeps session.symbols horder).1 with hsame | ⟨e, he, symbols, hcut⟩
  · exact .inl (session.checked_congr hsame)
  · right
    obtain rfl : exhausted = e := Option.some.inj he
    simp only [Session.checkGuarded, Session.checked, hcut]

/-- A session runs a program under guard as it runs it without. -/
theorem executeGuarded_eq (h : session.AtRest) (alarm : Stop) (limits : Limits)
    (program : Program Offset) :
    session.executeGuarded alarm limits program = session.execute limits program := by
  have horder : InOrder session.quiet.machine.parents Arena.root := by
    show InOrder session.machine.scopes.parents Arena.root
    rw [h.machine]
    exact inOrder_root
  have hkeeps : Interpreter.KeepsRun Arena.root (Interpreter.plain.program limits program)
      ((Interpreter.guarded alarm).program limits program) :=
    Interpreter.keeps_guarded_program limits program
  exact session.ran_congr (hkeeps.eq_of_none horder)

/-- The checker leaves the session at rest, and also when it gives up. -/
theorem atRest_checkGuarded (h : session.AtRest) (alarm exhausted : CheckError)
    (depth : Option Nat) (program : Program Offset) :
    (session.checkGuarded alarm exhausted depth program).2.AtRest := by
  have horder : InOrder session.symbols.parents Arena.root := h.symbols ▸ inOrder_root
  have hkeeps : Checker.KeepsCheck exhausted ⟨Arena.root, depth⟩
      (Checker.plain.program session.types program)
      ((Checker.guarded alarm exhausted depth).program session.types program) :=
    Checker.keeps_guarded_program session.types program
  have hparents := (hkeeps session.symbols horder).2
  unfold Yields at hparents
  unfold Session.checkGuarded Session.checked
  cases hresult : (Checker.guarded alarm exhausted depth).program session.types program
      session.symbols with
  | ok checked symbols =>
      rw [hresult] at hparents
      exact ⟨hparents.trans h.symbols, h.machine⟩
  | error e symbols =>
      rw [hresult] at hparents
      exact ⟨hparents.trans h.symbols, h.machine⟩

/-- After a call of whatever kind only the program's scope is live, in the checker
and in the machine. A check that gives up for depth drops the scopes that it has
entered, as any other that fails. -/
theorem atRest_after (h : session.AtRest) (call : Session.Call) : (session.after call).AtRest := by
  cases call with
  | registerType name comparable =>
      show ((session.registerType name comparable).toOption.getD session).AtRest
      unfold Session.registerType
      cases session.types.register name comparable with
      | ok types => exact ⟨h.symbols, h.machine⟩
      | error e => exact h
  | declareVariable name type =>
      exact ⟨(parents_bindVariable session.symbols Arena.root name _).trans h.symbols, h.machine⟩
  | declareFunction name parameters result =>
      exact ⟨(parents_bindFunction session.symbols Arena.root _ _).trans h.symbols, h.machine⟩
  | bindVariable name value =>
      exact ⟨h.symbols, Session.Settled.bindVariable h.machine name value⟩
  | bindFunction key run =>
      exact ⟨h.symbols, Session.Settled.bindFunction h.machine key run⟩
  | newObject typeName fields methods => exact ⟨h.symbols, h.machine⟩
  | newFunction key => exact ⟨h.symbols, h.machine⟩
  | check program =>
      have hrest := atRest_checkGuarded h ⟨.missingMain, none⟩ ⟨.missingMain, none⟩ none program
      rwa [checkGuarded_none h] at hrest
  | checkWithin depth exhausted program =>
      exact atRest_checkGuarded h exhausted exhausted (some depth) program
  | execute limits program =>
      refine ⟨?_, Session.Settled.execute h.machine limits program⟩
      show (session.execute limits program).2.symbols.parents = [none]
      unfold Session.execute Session.ran
      cases Interpreter.plain.program limits program session.quiet.machine <;> exact h.symbols

/-! ### Any number of calls -/

/-- The same after any number of calls, by induction on them. -/
theorem atRest_afterAll (h : session.AtRest) (calls : List Session.Call) :
    (session.afterAll calls).AtRest := by
  unfold Session.afterAll
  induction calls generalizing session with
  | nil => exact h
  | cons call rest ih => exact ih (atRest_after h call)

/-- Whatever calls a session has been through, only the program's scope is live. And to
check or to run a program under guard is the same as to do it without, whatever the
guards would raise for an alarm; or, within a depth, the checker gives up for the depth
and not for an alarm. So whenever an expression, a statement, a block or a method is
come upon, the current scope is the last one and every scope stands behind its parent,
and the scopes are the same when it is left, in whatever way. -/
theorem scopes_form_a_stack (calls : List Session.Call) :
    let session := Session.initial.afterAll calls
    session.symbols.parents = [none] ∧ session.machine.scopes.parents = [none]
      ∧ (∀ alarm limits program,
        session.executeGuarded alarm limits program = session.execute limits program)
      ∧ (∀ alarm exhausted program,
        session.checkGuarded alarm exhausted none program = session.check program)
      ∧ ∀ alarm exhausted depth program,
        session.checkGuarded alarm exhausted (some depth) program = session.check program
          ∨ (session.checkGuarded alarm exhausted (some depth) program).1 = .error exhausted := by
  intro session
  have hinitial : Session.initial.AtRest := ⟨rfl, rfl⟩
  have hrest : session.AtRest := atRest_afterAll hinitial calls
  refine ⟨hrest.symbols, hrest.machine, ?_, ?_, ?_⟩
  · intro alarm limits program
    exact executeGuarded_eq hrest alarm limits program
  · intro alarm exhausted program
    exact checkGuarded_none hrest alarm exhausted program
  · intro alarm exhausted depth program
    exact checkGuarded_some hrest alarm exhausted depth program

end Proofs

end PlcLang
