import PlcLang.Execution.Operators

/-!
# `PlcLang.Execution.Interpreter`: running programs

The interpreter walks over the tree. Its state has a machine: the scopes in
their arena, the heap of the host's objects and the output so far. Branches,
rounds of a loop and bodies of methods each run in a fresh scope, which is
released however they end; a method's scope has the program's scope as its
parent, not the caller's.

Two limits make every run finite. `depth` bounds how deeply evaluation is
nested, and with it recursion; it goes down by one from an expression or
statement to its parts. `rounds` bounds how often one loop on a condition
goes round.

How a program is run is written once, for every `Interpreter`: a record of
what is done besides around expressions, statements and scopes, and before
the machine is used. `Interpreter.plain` does nothing besides; it is the one
that runs programs. The others are for statements about runs: they note what
happens, or raise an alarm where something must not happen.
-/

set_option autoImplicit false

namespace PlcLang

/-- What a function's name is bound to. The nodes of a method have marks of
the type `α`. -/
inductive Callee (α : Type) where
  | method (method : Method α)
  | print
  | host (run : HostFunction)

/-- What a function's name is bound to in programs that are run. The body of a
method is in the machine itself, so a method of an earlier program can still be
called. -/
abbrev Callable := Callee Offset

/-- The state of a run of programs with marks of the type `α`. -/
structure MachineOf (α : Type) where
  scopes : Arena Value (Callee α)
  heap : Heap
  /-- The methods of the host's objects, by the identity of the object. -/
  methods : List MethodTable
  output : String

/-- The state of a run. -/
abbrev Machine := MachineOf Offset

/-- How far a run may go. The two are apart because a loop does not nest: no bound
on depth ends one. -/
structure Limits where
  depth : Nat
  rounds : Nat
deriving DecidableEq, Repr

/-- The machine before any program: the built-in function, and nothing else in the
program's scope. -/
def Machine.initial : Machine where
  scopes := Arena.initial.bindFunction Arena.root ("print", 1) .print
  heap := ⟨[]⟩
  methods := []
  output := ""

namespace MachineOf

variable {α : Type}

/-- The machine with a fresh scope below `parent`, behind all others. Its index is
the number of scopes that were there. -/
def enter (parent : ScopeId) (machine : MachineOf α) : MachineOf α :=
  { machine with scopes := machine.scopes.push parent }

/-- The machine without a scope and those pushed after it. The program's scope
cannot be left, and asking for it changes nothing. -/
def leave (index : ScopeId) (machine : MachineOf α) : MachineOf α :=
  { machine with scopes := (machine.scopes.release index).toOption.getD machine.scopes }

/-- The machine with a variable bound in a scope, whether it was bound there before
or not. -/
def bind (scope : ScopeId) (name : String) (value : Value) (machine : MachineOf α) :
    MachineOf α :=
  { machine with scopes := machine.scopes.bindVariable scope name value }

/-- The machine with a method bound in the program's scope, in place of an
earlier one. -/
def define (method : Method α) (machine : MachineOf α) : MachineOf α :=
  let key : FunctionKey := (method.name, method.parameters.length)
  { machine with scopes := machine.scopes.bindFunction Arena.root key (.method method) }

/-- The machine with a line more of output. What has been printed is never taken
back. -/
def print (text : String) (machine : MachineOf α) : MachineOf α :=
  { machine with output := machine.output ++ text ++ "\n" }

/-- The method of an object of a name and arity. Its receiver is not counted among
the parameters. -/
def method? (machine : MachineOf α) (ref : ObjectRef) (key : FunctionKey) : Option HostFunction :=
  (machine.methods[ref.id]?).bind (·.get? key)

end MachineOf

/-- What is about to be done with the machine. It is seen before it is done, so an
alarm can keep it from being done. -/
inductive Moment (α : Type) where
  /-- A variable or a function is bound in a scope. -/
  | bind (scope : ScopeId)
  /-- A scope is released. -/
  | release (scope : ScopeId)
  /-- A variable is looked up from a scope, to be read or to be written. -/
  | access (mark : α) (name : String) (scope : ScopeId)
  /-- A function is looked up from a scope. -/
  | find (key : FunctionKey) (scope : ScopeId)
  /-- What has been found is called. -/
  | call (mark : α) (callee : Callee α)
  /-- A function of the host is run. -/
  | host (run : HostFunction)
  /-- The built-in function is run on arguments. -/
  | print (arguments : List Value)

/-- What is done in a run besides what every run does. The states `σ` have a
machine in them, and a run stops early with an error `ε`. -/
structure Interpreter (α ε σ : Type) where
  /-- Where a node with this mark is. -/
  place : α → Offset
  /-- The machine of a state. -/
  machine : σ → MachineOf α
  /-- The state with its machine changed. -/
  update : (MachineOf α → MachineOf α) → σ → σ
  /-- The error of a run that stops. Where an operator does not apply, the
  marks of its operands are known, too. -/
  stop : Stop → Option (α × α) → ε
  /-- What the evaluation of an expression becomes, which has this mark and
  is seen from this scope. -/
  expression : α → ScopeId → EStateM ε σ Value → EStateM ε σ Value := fun _ _ x => x
  /-- What the execution of a statement becomes. -/
  statement : α → ScopeId → EStateM ε σ (Option Value) → EStateM ε σ (Option Value) :=
    fun _ _ x => x
  /-- What a part of a run becomes that has a scope of its own: seen from
  outside, where the scope before it is the current one, and from inside,
  where its own scope is. -/
  block : {β : Type} → ScopeId → EStateM ε σ β → EStateM ε σ β := fun _ x => x
  /-- What is done first. -/
  before : Moment α → EStateM ε σ Unit := fun _ => pure ()

namespace Interpreter

variable {α ε σ β : Type} (i : Interpreter α ε σ)

/-! ### Stops -/

/-- Stops. What has been done to the machine by then stays. -/
def halt (stop : Stop) : EStateM ε σ β :=
  throw (i.stop stop none)

/-- Stops with a fault. It points at a node, unless the fault is about the program
as a whole. -/
def fault (cause : FaultCause) (offset : Option Offset) : EStateM ε σ β :=
  i.halt (.fault ⟨cause, offset⟩)

/-- What comes of numbers, unless one is out of range. -/
def inRange (answer : Except NumberError β) : EStateM ε σ β :=
  match answer with
  | .ok b => pure b
  | .error e => i.halt (.number e)

/-! ### The machine -/

/-- Binds a variable in a scope, in place of what it was bound to there. -/
def bind (scope : ScopeId) (name : String) (value : Value) : EStateM ε σ Unit := do
  i.before (.bind scope)
  modify (i.update (·.bind scope name value))

/-- Binds variables in order. Of two with one name the later counts. -/
def bindAll (scope : ScopeId) : List (String × Value) → EStateM ε σ Unit
  | [] => pure ()
  | (name, value) :: rest => do
    i.bind scope name value
    bindAll scope rest

/-- Releases a scope and those pushed after it. -/
def leave (index : ScopeId) : EStateM ε σ Unit := do
  i.before (.release index)
  modify (i.update (·.leave index))

/-- Runs `body` in a fresh scope below `parent`, which is gone afterwards,
however `body` ends. -/
def withScope (current parent : ScopeId) (body : ScopeId → EStateM ε σ β) : EStateM ε σ β :=
  i.block current do
    let index := (i.machine (← get)).scopes.size
    modify (i.update (·.enter parent))
    always (i.block index (body index)) (i.leave index)

/-- The value of a variable, seen from a scope: of the nearest one of that name, up
the chain of scopes. -/
def readVariable (scope : ScopeId) (name : String) (mark : α) : EStateM ε σ Value := do
  i.before (.access mark name scope)
  match (i.machine (← get)).scopes.boundVariable? scope name with
  | some value => pure value
  | none => i.fault (.undefinedVariable name) (i.place mark)

/-- Puts a value into the nearest variable of that name. -/
def writeVariable (scope : ScopeId) (name : String) (value : Value) (mark : α) :
    EStateM ε σ Unit := do
  i.before (.access mark name scope)
  match (i.machine (← get)).scopes.ownerOfVariable? scope name with
  | some owner => i.bind owner name value
  | none => i.fault (.undefinedVariable name) (i.place mark)

/-- The value of an object's field. What an object may have is for the host to say,
so a field that is not there is a fault only here. -/
def readField (ref : ObjectRef) (name : String) (offset : Offset) : EStateM ε σ Value := do
  match ((i.machine (← get)).heap.fields ref).get? name with
  | some value => pure value
  | none => i.fault (.undefinedField name) offset

/-- Puts a value into a field that the object has. It is not added: a field that is
not there is a fault, as a variable would be. -/
def writeField (ref : ObjectRef) (name : String) (value : Value) (offset : Offset) :
    EStateM ε σ Unit := do
  if ((i.machine (← get)).heap.fields ref).contains name then
    modify (i.update fun machine => { machine with heap := machine.heap.setField ref name value })
  else i.fault (.undefinedVariable name) offset

/-- The object that a value must be. The fault is at the expression that has the
value, not at the member. -/
def requireObject (value : Value) (offset : Offset) : EStateM ε σ ObjectRef :=
  match value with
  | .object ref => pure ref
  | _ => i.fault (.noMembers value.tag) offset

/-- The truth value that a value must be. No other value counts as one. -/
def requireBoolean (value : Value) (offset : Offset) : EStateM ε σ Bool :=
  match value with
  | .boolean truth => pure truth
  | _ => i.fault (.notBoolean value.tag) offset

/-- The elements of a sequence that a value must be. They are taken as they are now:
what a round does to variables does not change what is gone through. -/
def requireSequence (value : Value) (offset : Offset) : EStateM ε σ (List Value) :=
  match value with
  | .sequence elements => pure elements
  | _ => i.fault (.notIterable value.tag) offset

/-! ### Control -/

/-- Runs statements in order until one returns. A value that is returned goes up
through all blocks to the method. -/
def runAll (execute : Stmt α → EStateM ε σ (Option Value)) :
    List (Stmt α) → EStateM ε σ (Option Value)
  | [] => pure none
  | s :: rest => do
    match ← execute s with
    | some result => pure (some result)
    | none => runAll execute rest

/-- Runs `body` for each element, in a fresh scope that binds it, until a
round returns. -/
def forEach (scope : ScopeId) (name : String) (body : ScopeId → EStateM ε σ (Option Value)) :
    List Value → EStateM ε σ (Option Value)
  | [] => pure none
  | element :: rest => do
    let outcome ← i.withScope scope scope fun inner => do
      i.bind inner name element
      body inner
    match outcome with
    | some result => pure (some result)
    | none => forEach scope name body rest

/-- Runs `body` as long as `test` says so, until a round returns. -/
def whileTrue (test : EStateM ε σ Bool) (body : EStateM ε σ (Option Value)) :
    Nat → EStateM ε σ (Option Value)
  -- The only bound on a loop: a round does not go deeper, so `depth` does not end it.
  | 0 => i.halt .tooLong
  | rounds + 1 => do
    if ← test then
      match ← body with
      | some result => pure (some result)
      | none => whileTrue test body rounds
    else pure none

/-- Runs the body of a method on arguments. A body that returns nothing gives nil. -/
def runMethod (current : ScopeId) (execute : ScopeId → Stmt α → EStateM ε σ (Option Value))
    (method : Method α) (arguments : List Value) : EStateM ε σ Value :=
  -- The parent is the program's scope: a method sees nothing of who calls it.
  i.withScope current Arena.root fun scope => do
    i.bindAll scope (method.parameters.zip arguments)
    let outcome ← runAll (execute scope) method.body
    pure (outcome.getD .nil)

/-- Calls a function of the host, which sees the heap as it is. Its error is no
fault of the program. -/
def callHost (run : HostFunction) (arguments : List Value) : EStateM ε σ Value := do
  i.before (.host run)
  match run (i.machine (← get)).heap arguments with
  | .ok result => pure result
  | .error e => i.halt (.host e)

/-- Prints the textual form of the first argument on a line of its own. A value that
has no textual form is not printed at all. -/
def printLine (arguments : List Value) : EStateM ε σ Value := do
  i.before (.print arguments)
  let text ← i.inRange (arguments.headD .nil).display
  modify (i.update (·.print text))
  pure .nil

/-- Calls what a function's name is bound to. Only a method runs in a scope of its
own. -/
def call (current : ScopeId) (execute : ScopeId → Stmt α → EStateM ε σ (Option Value))
    (callee : Callee α) (arguments : List Value) : EStateM ε σ Value :=
  match callee with
  | .method method => i.runMethod current execute method arguments
  | .host run => i.callHost run arguments
  | .print => i.printLine arguments

/-! ### Expressions and statements -/

/-- The function of a name and arity, seen from a scope. Functions of one name and
different arities are different functions. -/
def findFunction (scope : ScopeId) (key : FunctionKey) (offset : Offset) :
    EStateM ε σ (Callee α) := do
  i.before (.find key scope)
  match (i.machine (← get)).scopes.boundFunction? scope key with
  | some callee => pure callee
  | none => i.fault (.undefinedFunction key) offset

/-- The method of an object of a name and arity. No scope is looked at: a member is
found at its object. -/
def findMethod (ref : ObjectRef) (key : FunctionKey) (offset : Offset) :
    EStateM ε σ HostFunction := do
  match (i.machine (← get)).method? ref key with
  | some run => pure run
  | none => i.fault (.undefinedMethod key) offset

/-- What an operator makes of the values of its operands, whose marks are
`left` and `right`. -/
def applyOperator (mark : α) (op : BinaryOp) (left right : α) (leftValue rightValue : Value) :
    EStateM ε σ Value :=
  match op.apply leftValue rightValue with
  | .ok value => pure value
  | .error refusal => throw (i.stop (refusal.stop (i.place mark)) (some (left, right)))

mutual

/-- The value of an expression, seen from a scope. Operands and arguments are
evaluated from left to right, and the first thing that goes wrong ends it. -/
def evaluate (rounds : Nat) : Nat → ScopeId → Expr α → EStateM ε σ Value
  | 0, scope, e => i.expression e.mark scope (i.halt .tooDeep)
  | depth + 1, scope, e =>
    i.expression e.mark scope <|
    match e with
    | .nil _ => pure .nil
    | .boolean _ value => pure (.boolean value)
    | .integer _ value => pure (.integer value)
    | .decimal _ value => pure (.decimal value)
    | .character _ text => pure (.character text)
    | .string _ text => pure (.string text)
    | .group _ inner => evaluate rounds depth scope inner
    | .binary _ .or left right => do
      match ← evaluate rounds depth scope left with
      -- Only `OR` leaves its right side out. It asks nothing of its left side but whether it is
      -- `TRUE`; anything else, also what is no truth value, leaves the answer to the right side.
      | .boolean true => pure (.boolean true)
      | _ => do
        let value ← evaluate rounds depth scope right
        let truth ← i.requireBoolean value (i.place right.mark)
        pure (.boolean truth)
    | .binary m op left right => do
      let leftValue ← evaluate rounds depth scope left
      let rightValue ← evaluate rounds depth scope right
      i.applyOperator m op left.mark right.mark leftValue rightValue
    | .var m name => i.readVariable scope name m
    | .field m receiver name => do
      let value ← evaluate rounds depth scope receiver
      let ref ← i.requireObject value (i.place receiver.mark)
      i.readField ref name (i.place m)
    -- The function is looked up first and its arguments are worked out before it is called, left
    -- to right; what they do to the program's variables, the function sees.
    | .call m name arguments => do
      let callee ← i.findFunction scope (name, arguments.length) (i.place m)
      let values ← arguments.mapM (evaluate rounds depth scope)
      i.before (.call m callee)
      i.call scope (execute rounds depth) callee values
    | .methodCall m receiver name arguments => do
      let value ← evaluate rounds depth scope receiver
      let ref ← i.requireObject value (i.place receiver.mark)
      let run ← i.findMethod ref (name, arguments.length) (i.place m)
      let values ← arguments.mapM (evaluate rounds depth scope)
      i.callHost run (.object ref :: values)
    | .foreign m kind written =>
      i.fault (.notEvaluable kind) ((Expr.foreign m kind written).place?.map i.place)

/-- Runs a statement in a scope. A returned value ends the method; none lets the
next statement run. -/
def execute (rounds : Nat) : Nat → ScopeId → Stmt α → EStateM ε σ (Option Value)
  | 0, scope, s => i.statement s.mark scope (i.halt .tooDeep)
  | depth + 1, scope, s =>
    i.statement s.mark scope <|
    match s with
    | .expression _ value => do
      let _ ← evaluate rounds depth scope value
      pure none
    | .declare _ d => do
      let value ←
        match d.value with
        | some value => evaluate rounds depth scope value
        | none => pure .nil
      i.bind scope d.name value
      pure none
    | .assign _ (.var m name) value => do
      let value ← evaluate rounds depth scope value
      i.writeVariable scope name value m
      pure none
    -- The value comes before the object whose field is written, as it does for a variable.
    | .assign _ (.field m receiver name) value => do
      let value ← evaluate rounds depth scope value
      let target ← evaluate rounds depth scope receiver
      let ref ← i.requireObject target (i.place receiver.mark)
      i.writeField ref name value (i.place m)
      pure none
    | .assign _ target _ => i.fault .notAssignable (target.place?.map i.place)
    | .cond _ condition thenBody elseBody => do
      let value ← evaluate rounds depth scope condition
      let truth ← i.requireBoolean value (i.place condition.mark)
      i.withScope scope scope fun inner =>
        runAll (execute rounds depth inner) (if truth then thenBody else elseBody)
    | .forIn _ name value body => do
      let iterated ← evaluate rounds depth scope value
      let elements ← i.requireSequence iterated (i.place value.mark)
      i.forEach scope name (fun inner => runAll (execute rounds depth inner) body) elements
    | .whileDo _ condition body =>
      i.whileTrue
        (do
          let value ← evaluate rounds depth scope condition
          i.requireBoolean value (i.place condition.mark))
        (i.withScope scope scope fun inner => runAll (execute rounds depth inner) body)
        rounds
    | .result _ value => some <$> evaluate rounds depth scope value
    | .foreign .. => pure none

end

/-! ### Programs -/

/-- Evaluates the fields in order and binds them in the program's scope, where each
one can use those before it. -/
def defineFields (limits : Limits) : List (Field α) → EStateM ε σ Unit
  | [] => pure ()
  | field :: rest => do
    let value ←
      match field.declaration.value with
      | some value => i.evaluate limits.rounds limits.depth Arena.root value
      | none => pure .nil
    i.bind Arena.root field.declaration.name value
    defineFields limits rest

/-- Binds a method in the program's scope, in place of an earlier one of its name
and arity. Running asks less than checking here: there nothing may be bound twice. -/
def defineMethod (method : Method α) : EStateM ε σ Unit := do
  i.before (.bind Arena.root)
  modify (i.update (·.define method))

/-- The method to start with. A function of the host will do, too, if it is bound by
that name. -/
def findMain : EStateM ε σ (Callee α) := do
  i.before (.find ("main", 0) Arena.root)
  match (i.machine (← get)).scopes.boundFunction? Arena.root ("main", 0) with
  | some main => pure main
  | none => i.fault .missingMain none

/-- Runs the method to start with. -/
def runMain (limits : Limits) : EStateM ε σ Value := do
  let main ← i.findMain
  i.call Arena.root (i.execute limits.rounds limits.depth) main []

/-- Runs a program: its fields, the definition of its methods, and then the
method to start with. -/
def program (limits : Limits) (program : Program α) : EStateM ε σ Value := do
  i.defineFields limits program.fields
  -- The values of the fields were worked out when the program's own methods were not bound yet: a
  -- field can call only what was there before.
  program.methods.forM i.defineMethod
  let result ← i.runMain limits
  -- The result is written out for a record of the run, which fails if it has too many digits.
  let _ ← i.inRange result.display
  pure result

/-! ### The interpreter that runs programs -/

/-- The interpreter that does nothing besides. It is the one that runs programs, and
what is proved of it is proved of them. -/
def plain : Interpreter Offset Stop Machine where
  place := id
  machine := id
  update := id
  stop stop _ := stop

end Interpreter

/-- A computation on a machine. One that stops early leaves the machine as it is at
that moment. -/
abbrev Run := EStateM Stop Machine

end PlcLang
