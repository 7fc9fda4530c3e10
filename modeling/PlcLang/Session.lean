import PlcLang.Execution.Interpreter
import PlcLang.Typing.Checker

/-!
# `PlcLang.Session`: programs one after another

A session is what lives on between programs that are checked and run
together: the types, the symbols of the program's scope, and the machine.
Before the first program a host may register types and bind variables and
functions, on both sides: what the checker believes of a name and what the
machine does about it. A single program is a session of one.

What is done with a text is said over the stages that the text goes through
(`Stages`). With those of the language it is `readProgram`, `checkText` and `runText`.
What a session is after a check or a run does not depend on whose check or run it is,
so it has definitions of its own, `Session.checked` and `Session.ran`.
-/

set_option autoImplicit false

namespace PlcLang

/-- What lives on between programs. Symbols and machine are apart: a variable may be
known to one of them alone. -/
structure Session where
  types : TypeTable
  symbols : Symbols
  machine : Machine
  /-- How many functions the host has made values of. -/
  functionCount : Nat

/-- Why a text is no program that may run: the stage that has failed, with its
error. -/
inductive ProgramError where
  | lexical (e : LexError)
  | grammar (e : ParseError)
  | typing (e : CheckError)
deriving DecidableEq, Repr

/-- The report of the error. -/
def ProgramError.failure : ProgramError → Failure
  | lexical e => e.failure
  | grammar e => e.failure
  | typing e => e.failure

/-- Why a program that was asked to run has no result: it is none, or it has run and
has stopped. -/
inductive RunError where
  | program (e : ProgramError)
  | stopped (stop : Stop)
deriving DecidableEq, Repr

namespace Limits

/-- The limits of a run whose evaluation may nest so many frames deep, where
an expression or statement takes two frames. Loops may go round as often as
any machine will. -/
def ofFrames (frames : Nat) : Limits :=
  ⟨frames / 2, Decimal.tenTo 15⟩

/-- The limits where nothing else is said. They are those that settings begin with. -/
def standard : Limits :=
  ofFrames 10000

end Limits

namespace Session

/-- The session before any program. Checker and machine know the built-in function,
and nothing besides. -/
def initial : Session :=
  ⟨.builtin, Checker.initialSymbols, .initial, 0⟩

/-! ### The host's bindings -/

/-- Registers a type without members. Its name may be none that is taken. -/
def registerType (session : Session) (name : String) (comparable : Bool) :
    Except TypeTableError Session := do
  pure { session with types := ← session.types.register name comparable }

/-- Declares a variable to the checker. Without `bindVariable` a program that uses
it is accepted and stops. -/
def declareVariable (session : Session) (name : String) (type : Ty) : Session :=
  { session with
    symbols := session.symbols.bindVariable Arena.root name ⟨name, type, none⟩ }

/-- Declares a function to the checker, under its name and arity. -/
def declareFunction (session : Session) (name : String) (parameters : List Ty) (result : Ty) :
    Session :=
  let symbol : FunctionSymbol := ⟨name, parameters, result, none⟩
  { session with symbols := session.symbols.bindFunction Arena.root symbol.key symbol }

/-- Binds a variable of the machine. What the checker believes of it is not asked. -/
def bindVariable (session : Session) (name : String) (value : Value) : Session :=
  let scopes := session.machine.scopes.bindVariable Arena.root name value
  { session with machine := { session.machine with scopes := scopes } }

/-- Binds a function of the machine, for a name and arity. -/
def bindFunction (session : Session) (key : FunctionKey) (run : HostFunction) : Session :=
  let scopes := session.machine.scopes.bindFunction Arena.root key (.host run)
  { session with machine := { session.machine with scopes := scopes } }

/-- A new object with fields and methods. Its identity is one that no other object
has had. -/
def newObject (session : Session) (typeName : String) (fields : List (String × Value))
    (methods : List (FunctionKey × HostFunction)) : Value × Session :=
  let machine := session.machine
  let heap : Heap := ⟨machine.heap.objects ++ [Bindings.ofList fields]⟩
  let methods := machine.methods ++ [Bindings.ofList methods]
  (.object ⟨machine.heap.objects.length, typeName⟩,
    { session with machine := { machine with heap := heap, methods := methods } })

/-- A new function as a value. Its identity is new, too, even if the name is not. -/
def newFunction (session : Session) (key : FunctionKey) : Value × Session :=
  (.function ⟨session.functionCount, key⟩,
    { session with functionCount := session.functionCount + 1 })

/-! ### Programs -/

/-- What a check comes to in a session. The symbols stay, also those before an error. -/
def checked {β : Type} (session : Session) (x : Check β) : Except CheckError β × Session :=
  match x session.symbols with
  | .ok value symbols => (.ok value, { session with symbols := symbols })
  | .error e symbols => (.error e, { session with symbols := symbols })

/-- What a check comes to depends on what it does with the session's symbols. -/
theorem checked_congr {β : Type} (session : Session) {x y : Check β}
    (h : x session.symbols = y session.symbols) : session.checked x = session.checked y := by
  unfold checked
  rw [h]

/-- Checks a program. The next program may use its symbols, and may not define them
again. -/
def check (session : Session) (program : Program Offset) :
    Except CheckError (Program Note) × Session :=
  session.checked (Checker.plain.program session.types program)

/-- Forgets what the last run printed. -/
def quiet (session : Session) : Session :=
  { session with machine := { session.machine with output := "" } }

/-- What a run comes to in a session. The bindings stay, and the output is that of this
run alone. -/
def ran {β : Type} (session : Session) (x : Run β) : Except Stop β × Session :=
  match x session.quiet.machine with
  | .ok value machine => (.ok value, { session with machine := machine })
  | .error stop machine => (.error stop, { session with machine := machine })

/-- What a run comes to depends on what it does with the session's machine. -/
theorem ran_congr {β : Type} (session : Session) {x y : Run β}
    (h : x session.quiet.machine = y session.quiet.machine) : session.ran x = session.ran y := by
  unfold ran
  rw [h]

/-- Runs a program. -/
def execute (session : Session) (limits : Limits) (program : Program Offset) :
    Except Stop Value × Session :=
  session.ran (Interpreter.plain.program limits program)

/-- Runs a program with `execute`, and checks it before with `check` if `analyze` says so.
One that is rejected does not run and prints nothing. -/
def performed (check : Session → Except CheckError (Program Note) × Session)
    (execute : Session → Except Stop Value × Session) (analyze : Bool) (session : Session) :
    Except RunError Value × Session :=
  let run (session : Session) :=
    let (result, session) := execute session
    (result.mapError RunError.stopped, session)
  if analyze then
    match check session with
    | (.error e, session) => (.error (.program (.typing e)), session.quiet)
    | (.ok _, session) => run session
  else run session

/-- Runs a program, and checks it before if `analyze` says so. -/
def perform (session : Session) (limits : Limits) (analyze : Bool) (program : Program Offset) :
    Except RunError Value × Session :=
  session.performed (·.check program) (·.execute limits program) analyze

/-- What the last run printed, up to where it stopped. -/
def output (session : Session) : String :=
  session.machine.output

/-- The machine's variables in the program's scope, by name. Others are gone when no
program runs. -/
def cells (session : Session) : List (String × Value) :=
  (session.machine.scopes.scope? Arena.root).elim [] Scope.sortedVariables

/-- The machine's functions in the program's scope, by name and arity. -/
def callables (session : Session) : List FunctionKey :=
  (session.machine.scopes.scope? Arena.root).elim [] fun scope =>
    scope.sortedFunctions.map (·.1)

end Session

/-- The stages that a text goes through: it is cut into tokens, these are made a tree, and the
tree is checked, or performed in a session. They are a record, so that a stage can be put in
the place of the language's own and be compared with it on whole texts. -/
structure Stages where
  cut : String → Except LexError (List Token)
  build : List Token → Except ParseError (Program Offset)
  judge : Program Offset → Except CheckError (Program Note)
  act : Session → Limits → Bool → Program Offset → Except RunError Value × Session

namespace Stages

/-- The stages of the language. -/
def standard : Stages :=
  ⟨tokenize, parse, PlcLang.check, Session.perform⟩

variable (stages : Stages)

/-- The tree of a text, or the error of the first stage that has one. -/
def read (text : String) : Except ProgramError (Program Offset) :=
  match stages.cut text with
  | .error e => .error (.lexical e)
  | .ok tokens => (stages.build tokens).mapError .grammar

/-- The checked tree of a text, in a session without a host. -/
def examine (text : String) : Except ProgramError (Program Note) :=
  match stages.read text with
  | .error e => .error e
  | .ok program => (stages.judge program).mapError .typing

/-- The result of a text that is run alone, and what it prints. A text that is no
program prints nothing. -/
def play (limits : Limits) (analyze : Bool) (text : String) : Except RunError Value × String :=
  match stages.read text with
  | .error e => (.error (.program e), "")
  | .ok program =>
    let (result, session) := stages.act .initial limits analyze program
    (result, session.output)

end Stages

/-- The tree of a text, by the stages of the language. -/
def readProgram (text : String) : Except ProgramError (Program Offset) :=
  Stages.standard.read text

/-- The checked tree of a text, in a session without a host. -/
def checkText (text : String) : Except ProgramError (Program Note) :=
  Stages.standard.examine text

/-- The result of a text that is run alone, and what it prints. -/
def runText (limits : Limits) (analyze : Bool) (text : String) :
    Except RunError Value × String :=
  Stages.standard.play limits analyze text

section

variable {text : String}

/-- A text that is no list of tokens is not read. -/
theorem readProgram_eq_lexical {e : LexError} (h : tokenize text = .error e) :
    readProgram text = .error (.lexical e) := by
  rw [readProgram, Stages.read, show Stages.standard.cut text = _ from h]

/-- A text whose tokens are parsed is read. -/
theorem readProgram_eq_ok {tokens : List Token} {program : Program Offset}
    (hlex : tokenize text = .ok tokens) (hparse : parse tokens = .ok program) :
    readProgram text = .ok program := by
  rw [readProgram, Stages.read, show Stages.standard.cut text = _ from hlex]
  exact congrArg (Except.mapError ProgramError.grammar) hparse

/-- One whose tokens are not is not. -/
theorem readProgram_eq_error {tokens : List Token} {e : ParseError}
    (hlex : tokenize text = .ok tokens) (hparse : parse tokens = .error e) :
    readProgram text = .error (.grammar e) := by
  rw [readProgram, Stages.read, show Stages.standard.cut text = _ from hlex]
  exact congrArg (Except.mapError ProgramError.grammar) hparse

/-- A text that is not read is not checked. -/
theorem checkText_of_error {e : ProgramError} (h : readProgram text = .error e) :
    checkText text = .error e := by
  rw [checkText, Stages.examine, show Stages.standard.read text = _ from h]

/-- A text that is read is checked as its tree is. -/
theorem checkText_of_ok {program : Program Offset} (h : readProgram text = .ok program) :
    checkText text = (check program).mapError .typing := by
  rw [checkText, Stages.examine, show Stages.standard.read text = _ from h]
  rfl

/-- A text that is not read is not run. -/
theorem runText_of_error {e : ProgramError} (h : readProgram text = .error e) (limits : Limits)
    (analyze : Bool) : runText limits analyze text = (.error (.program e), "") := by
  rw [runText, Stages.play, show Stages.standard.read text = _ from h]

/-- A text that is read is run as its tree is, in a session of its own. -/
theorem runText_of_ok {program : Program Offset} (h : readProgram text = .ok program)
    (limits : Limits) (analyze : Bool) :
    runText limits analyze text
      = ((Session.initial.perform limits analyze program).1,
          (Session.initial.perform limits analyze program).2.output) := by
  rw [runText, Stages.play, show Stages.standard.read text = _ from h]
  rfl

end

namespace Symbols

/-- The variables of the program's scope, by name. -/
def allVariables (symbols : Symbols) : List VariableSymbol :=
  (symbols.scope? Arena.root).elim [] fun scope => scope.sortedVariables.map (·.2)

/-- The functions of the program's scope, by name and arity. -/
def allFunctions (symbols : Symbols) : List FunctionSymbol :=
  (symbols.scope? Arena.root).elim [] fun scope => scope.sortedFunctions.map (·.2)

end Symbols

end PlcLang
