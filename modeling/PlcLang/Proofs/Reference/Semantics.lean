import PlcLang.Session

/-!
# `PlcLang.Proofs.Reference.Semantics`: what running a program means

A semantics of programs that knows neither an arena nor limits. An environment is a
chain of frames, innermost first, and a frame maps names to cells of a memory. A branch, a
round of a loop and the body of a method see the chain with one fresh frame on top, and
whatever comes after them sees the chain as it was; a method's body sees only the frame of
the program below its own. A declaration binds a fresh cell in the innermost frame, and an
assignment puts a value into the cell that the nearest frame binds the name to.

What an expression or a statement does is a judgement: begun with one memory, it ends with
an outcome and another memory. The outcome is an answer, or tells why there is none. One of
the reasons is the *cut*: the run is looked at before it is over. A derivation with a cut is
a run as far as it has come, and what it has printed has been printed for good; a run that
never ends has no derivation without a cut.
-/

set_option autoImplicit false

namespace PlcLang.Reference

/-! ### Environments and memory -/

/-- A place in the memory for the value of one variable. -/
abbrev Cell := Nat

/-- What names stand for: the frames of the running method, innermost first, below them the
frame of the program, and the functions, which only the program binds. -/
structure Environment where
  locals : List (Bindings String Cell)
  globals : Bindings String Cell
  functions : Bindings FunctionKey Callable

namespace Environment

/-- The cell of a variable: the nearest frame answers for it. -/
def cell? (env : Environment) (name : String) : Option Cell :=
  (env.locals ++ [env.globals]).findSome? (·.get? name)

/-- The chain with a fresh frame on top. -/
def enter (env : Environment) : Environment :=
  { env with locals := .empty :: env.locals }

/-- The frame of the program alone. -/
def outermost (env : Environment) : Environment :=
  { env with locals := [] }

/-- The environment with a name bound in the innermost frame, whatever the frame bound it to
before. -/
def bind (env : Environment) (name : String) (cell : Cell) : Environment :=
  match env.locals with
  | [] => { env with globals := env.globals.set name cell }
  | frame :: rest => { env with locals := frame.set name cell :: rest }

/-- The environment with a function bound, whatever its name was bound to before. -/
def define (env : Environment) (key : FunctionKey) (callable : Callable) : Environment :=
  { env with functions := env.functions.set key callable }

end Environment

/-- Everything that a run can change: the cells, the host's objects and the output. The
methods of objects stay as they are. -/
structure Memory where
  cells : List Value
  heap : Heap
  methods : List MethodTable
  output : String

namespace Memory

/-- The cell that has not been used yet. No cell is used twice. -/
def fresh (mem : Memory) : Cell :=
  mem.cells.length

/-- The memory with a value in its fresh cell. -/
def alloc (mem : Memory) (value : Value) : Memory :=
  { mem with cells := mem.cells ++ [value] }

/-- The memory with another value in a cell. -/
def write (mem : Memory) (cell : Cell) (value : Value) : Memory :=
  { mem with cells := mem.cells.set cell value }

/-- The memory with another value in a field of an object. -/
def setField (mem : Memory) (ref : ObjectRef) (name : String) (value : Value) : Memory :=
  { mem with heap := mem.heap.setField ref name value }

/-- The memory with a line printed. -/
def print (mem : Memory) (text : String) : Memory :=
  { mem with output := mem.output ++ text ++ "\n" }

/-- The value of a variable: what is in the cell that the environment has for it. -/
def lookup? (mem : Memory) (env : Environment) (name : String) : Option Value :=
  (env.cell? name).bind (mem.cells[·]?)

/-- The method of an object of a name and arity. -/
def method? (mem : Memory) (ref : ObjectRef) (key : FunctionKey) : Option HostFunction :=
  (mem.methods[ref.id]?).bind (·.get? key)

end Memory

/-- Environment and memory after variables are declared in order, each with a fresh
cell. -/
def declareAll (env : Environment) (mem : Memory) :
    List (String × Value) → Environment × Memory
  | [] => (env, mem)
  | (name, value) :: rest => declareAll (env.bind name mem.fresh) (mem.alloc value) rest

/-! ### Outcomes -/

/-- Why there is no answer. The first three are ends of the program, and the last
one is none. -/
inductive Break where
  /-- The program has done something wrong. -/
  | fault (fault : Fault)
  /-- A number is out of range. -/
  | number (e : NumberError)
  /-- A function of the host has failed. -/
  | host (e : HostError)
  /-- The run is looked at before it is over. -/
  | cut
deriving DecidableEq, Repr

/-- How a part of a program ends. -/
inductive Outcome (α : Type) where
  | done (a : α)
  | broken (why : Break)

namespace Outcome

variable {α β : Type}

/-- The outcome of going on where there is an answer. -/
def bind (o : Outcome α) (k : α → Outcome β) : Outcome β :=
  match o with
  | done a => k a
  | broken why => broken why

/-- The outcome with its answer changed. -/
def map (f : α → β) (o : Outcome α) : Outcome β :=
  o.bind fun a => done (f a)

/-- An answer, or a fault at a place. -/
def ofExcept (offset : Offset) : Except FaultCause α → Outcome α
  | .ok a => done a
  | .error cause => broken (.fault ⟨cause, some offset⟩)

/-- What comes of numbers, unless one is out of range. -/
def inRange : Except NumberError α → Outcome α
  | .ok a => done a
  | .error e => broken (.number e)

/-- What an operator makes of its operands, unless it refuses them. -/
def ofOperator (offset : Offset) : Except Refusal α → Outcome α
  | .ok a => done a
  | .error (.fault cause) => broken (.fault ⟨cause, some offset⟩)
  | .error (.number e) => broken (.number e)

/-- What is there, or a fault at a place. -/
def ofOption (cause : FaultCause) (offset : Offset) : Option α → Outcome α
  | some a => done a
  | none => broken (.fault ⟨cause, some offset⟩)

/-- The answer of a function of the host. -/
def ofHost : Except HostError α → Outcome α
  | .ok a => done a
  | .error e => broken (.host e)

/-- The value of an expression where only some values will do. Any other is a fault
at the expression. -/
def demand (o : Outcome Value) (want : Value → Except FaultCause α) (e : Expr Offset) :
    Outcome α :=
  o.bind fun value => ofExcept e.mark (want value)

/-- The value of a program, which is written out for a record of the run. That fails for one
with too many digits. -/
def written (o : Outcome Value) : Outcome Value :=
  o.bind fun value => (inRange value.display).map fun _ => value

end Outcome

/-- The truth value that a value must be. -/
def wantBoolean : Value → Except FaultCause Bool
  | .boolean truth => .ok truth
  | value => .error (.notBoolean value.tag)

/-- The object that a value must be. -/
def wantObject : Value → Except FaultCause ObjectRef
  | .object ref => .ok ref
  | value => .error (.noMembers value.tag)

/-- The elements of a sequence that a value must be. -/
def wantSequence : Value → Except FaultCause (List Value)
  | .sequence elements => .ok elements
  | value => .error (.notIterable value.tag)

/-- The value of a literal, and nothing for any other expression. -/
def literal? : Expr Offset → Option Value
  | .nil _ => some .nil
  | .boolean _ value => some (.boolean value)
  | .integer _ value => some (.integer value)
  | .decimal _ value => some (.decimal value)
  | .character _ text => some (.character text)
  | .string _ text => some (.string text)
  | _ => none

/-- What a value can be assigned to: a variable or a field. -/
def assignable : Expr Offset → Bool
  | .var .. | .field .. => true
  | _ => false

/-! ### Expressions and statements -/

mutual

/-- The value of an expression. Its parts are evaluated from left to right, and
where one of them breaks off the others are not come to. -/
inductive Evaluates :
    Environment → Memory → Expr Offset → Outcome Value → Memory → Prop where
  | literal {env : Environment} {mem : Memory} {e : Expr Offset} {value : Value}
      (value_eq : literal? e = some value) : Evaluates env mem e (.done value) mem
  | group {env : Environment} {mem after : Memory} {m : Offset} {inner : Expr Offset}
      {o : Outcome Value} (run : Evaluates env mem inner o after) :
      Evaluates env mem (.group m inner) o after
  /-- An `OR` whose left side is true does not come to its right side. -/
  | orTrue {env : Environment} {mem after : Memory} {m : Offset} {left right : Expr Offset}
      (run : Evaluates env mem left (.done (.boolean true)) after) :
      Evaluates env mem (.binary m .or left right) (.done (.boolean true)) after
  | orRight {env : Environment} {mem between after : Memory} {m : Offset}
      {left right : Expr Offset} {value : Value} {o : Outcome Value}
      (first : Evaluates env mem left (.done value) between)
      (value_ne : value ≠ .boolean true) (second : Evaluates env between right o after) :
      Evaluates env mem (.binary m .or left right)
        ((o.demand wantBoolean right).map .boolean) after
  | binary {env : Environment} {mem between after : Memory} {m : Offset} {op : BinaryOp}
      {left right : Expr Offset} {value : Value} {o : Outcome Value} (op_ne : op ≠ .or)
      (first : Evaluates env mem left (.done value) between)
      (second : Evaluates env between right o after) :
      Evaluates env mem (.binary m op left right)
        (o.bind fun other => .ofOperator m (op.apply value other)) after
  | binaryBroken {env : Environment} {mem after : Memory} {m : Offset} {op : BinaryOp}
      {left right : Expr Offset} {why : Break} (run : Evaluates env mem left (.broken why) after) :
      Evaluates env mem (.binary m op left right) (.broken why) after
  | var {env : Environment} {mem : Memory} {m : Offset} {name : String} :
      Evaluates env mem (.var m name)
        (.ofOption (.undefinedVariable name) m (mem.lookup? env name)) mem
  | field {env : Environment} {mem after : Memory} {m : Offset} {receiver : Expr Offset}
      {name : String} {o : Outcome Value} (run : Evaluates env mem receiver o after) :
      Evaluates env mem (.field m receiver name)
        ((o.demand wantObject receiver).bind fun ref =>
          .ofOption (.undefinedField name) m ((after.heap.fields ref).get? name)) after
  /-- The function is looked up before its arguments are evaluated. -/
  | call {env : Environment} {mem between after : Memory} {m : Offset} {name : String}
      {arguments : List (Expr Offset)} {callable : Callable} {values : List Value}
      {o : Outcome Value}
      (callable_eq : env.functions.get? (name, arguments.length) = some callable)
      (run : EvaluatesAll env mem arguments (.done values) between)
      (called : Calls env between callable values o after) :
      Evaluates env mem (.call m name arguments) o after
  | callBroken {env : Environment} {mem after : Memory} {m : Offset} {name : String}
      {arguments : List (Expr Offset)} {callable : Callable} {why : Break}
      (callable_eq : env.functions.get? (name, arguments.length) = some callable)
      (run : EvaluatesAll env mem arguments (.broken why) after) :
      Evaluates env mem (.call m name arguments) (.broken why) after
  | callUndefined {env : Environment} {mem : Memory} {m : Offset} {name : String}
      {arguments : List (Expr Offset)}
      (callable_eq : env.functions.get? (name, arguments.length) = none) :
      Evaluates env mem (.call m name arguments)
        (.broken (.fault ⟨.undefinedFunction (name, arguments.length), some m⟩)) mem
  | methodCall {env : Environment} {mem between after : Memory} {m : Offset}
      {receiver : Expr Offset} {name : String} {arguments : List (Expr Offset)}
      {ref : ObjectRef} {run : HostFunction} {o : Outcome (List Value)}
      (first : Evaluates env mem receiver (.done (.object ref)) between)
      (run_eq : between.method? ref (name, arguments.length) = some run)
      (second : EvaluatesAll env between arguments o after) :
      Evaluates env mem (.methodCall m receiver name arguments)
        (o.bind fun values => .ofHost (run after.heap (.object ref :: values))) after
  | methodBroken {env : Environment} {mem after : Memory} {m : Offset}
      {receiver : Expr Offset} {name : String} {arguments : List (Expr Offset)}
      {o : Outcome Value} {why : Break} (first : Evaluates env mem receiver o after)
      (why_eq : ((o.demand wantObject receiver).bind fun ref =>
        .ofOption (.undefinedMethod (name, arguments.length)) m
          (after.method? ref (name, arguments.length))) = .broken why) :
      Evaluates env mem (.methodCall m receiver name arguments) (.broken why) after
  | foreign {env : Environment} {mem : Memory} {m : Offset} {kind : NodeKind}
      {written : String} :
      Evaluates env mem (.foreign m kind written)
        (.broken (.fault ⟨.notEvaluable kind, (Expr.foreign m kind written).place?⟩)) mem
  | cut {env : Environment} {mem : Memory} {e : Expr Offset} :
      Evaluates env mem e (.broken .cut) mem

/-- The values of expressions, from left to right. -/
inductive EvaluatesAll :
    Environment → Memory → List (Expr Offset) → Outcome (List Value) → Memory → Prop where
  | nil {env : Environment} {mem : Memory} : EvaluatesAll env mem [] (.done []) mem
  | cons {env : Environment} {mem between after : Memory} {e : Expr Offset}
      {rest : List (Expr Offset)} {value : Value} {o : Outcome (List Value)}
      (first : Evaluates env mem e (.done value) between)
      (second : EvaluatesAll env between rest o after) :
      EvaluatesAll env mem (e :: rest) (o.map (value :: ·)) after
  | broken {env : Environment} {mem after : Memory} {e : Expr Offset}
      {rest : List (Expr Offset)} {why : Break}
      (first : Evaluates env mem e (.broken why) after) :
      EvaluatesAll env mem (e :: rest) (.broken why) after

/-- Calling a function. A method runs in a fresh frame on top of the program's, a
function of the host answers or fails, and `print` writes its argument out. -/
inductive Calls : Environment → Memory → Callable → List Value → Outcome Value → Memory → Prop
    where
  | method {env : Environment} {mem after : Memory} {method : Method Offset}
      {arguments : List Value} {inner : Environment × Memory} {o : Outcome (Option Value)}
      (inner_eq : inner
        = declareAll env.outermost.enter mem (method.parameters.zip arguments))
      (run : ExecutesAll inner.1 inner.2 method.body o after) :
      Calls env mem (.method method) arguments (o.map (·.getD .nil)) after
  | print {env : Environment} {mem : Memory} {arguments : List Value} {text : String}
      (text_eq : (arguments.headD .nil).display = .ok text) :
      Calls env mem .print arguments (.done .nil) (mem.print text)
  | printBroken {env : Environment} {mem : Memory} {arguments : List Value} {e : NumberError}
      (text_eq : (arguments.headD .nil).display = .error e) :
      Calls env mem .print arguments (.broken (.number e)) mem
  | host {env : Environment} {mem : Memory} {run : HostFunction} {arguments : List Value} :
      Calls env mem (.host run) arguments (.ofHost (run mem.heap arguments)) mem

/-- The first value of what is declared: nil if nothing is said of it. -/
inductive Initializes :
    Environment → Memory → Option (Expr Offset) → Outcome Value → Memory → Prop where
  | none {env : Environment} {mem : Memory} : Initializes env mem none (.done .nil) mem
  | some {env : Environment} {mem after : Memory} {e : Expr Offset} {o : Outcome Value}
      (run : Evaluates env mem e o after) : Initializes env mem (some e) o after

/-- A statement: it returns a value or does not, and leaves an environment to the
statements after it. -/
inductive Executes :
    Environment → Memory → Stmt Offset → Outcome (Option Value × Environment) → Memory → Prop
    where
  | expression {env : Environment} {mem after : Memory} {m : Offset} {e : Expr Offset}
      {o : Outcome Value} (run : Evaluates env mem e o after) :
      Executes env mem (.expression m e) (o.map fun _ => (none, env)) after
  | declare {env : Environment} {mem after : Memory} {m : Offset} {d : Declaration Offset}
      {value : Value} (run : Initializes env mem d.value (.done value) after) :
      Executes env mem (.declare m d) (.done (none, env.bind d.name after.fresh))
        (after.alloc value)
  | declareBroken {env : Environment} {mem after : Memory} {m : Offset}
      {d : Declaration Offset} {why : Break}
      (run : Initializes env mem d.value (.broken why) after) :
      Executes env mem (.declare m d) (.broken why) after
  | assign {env : Environment} {mem after : Memory} {m place : Offset} {name : String}
      {e : Expr Offset} {value : Value} {cell : Cell}
      (run : Evaluates env mem e (.done value) after) (cell_eq : env.cell? name = some cell) :
      Executes env mem (.assign m (.var place name) e) (.done (none, env))
        (after.write cell value)
  | assignUndefined {env : Environment} {mem after : Memory} {m place : Offset}
      {name : String} {e : Expr Offset} {value : Value}
      (run : Evaluates env mem e (.done value) after) (cell_eq : env.cell? name = none) :
      Executes env mem (.assign m (.var place name) e)
        (.broken (.fault ⟨.undefinedVariable name, some place⟩)) after
  /-- The object is evaluated after the value. -/
  | assignField {env : Environment} {mem between after : Memory} {m place : Offset}
      {receiver : Expr Offset} {name : String} {e : Expr Offset} {value : Value}
      {ref : ObjectRef} (first : Evaluates env mem e (.done value) between)
      (second : Evaluates env between receiver (.done (.object ref)) after)
      (contains_eq : (after.heap.fields ref).contains name = true) :
      Executes env mem (.assign m (.field place receiver name) e) (.done (none, env))
        (after.setField ref name value)
  | assignFieldBroken {env : Environment} {mem between after : Memory} {m place : Offset}
      {receiver : Expr Offset} {name : String} {e : Expr Offset} {value : Value}
      {o : Outcome Value} {why : Break} (first : Evaluates env mem e (.done value) between)
      (second : Evaluates env between receiver o after)
      (why_eq : ((o.demand wantObject receiver).bind fun ref =>
        .ofOption (.undefinedVariable name) place ((after.heap.fields ref).get? name))
          = .broken why) :
      Executes env mem (.assign m (.field place receiver name) e) (.broken why) after
  | assignBroken {env : Environment} {mem after : Memory} {m : Offset}
      {target e : Expr Offset} {why : Break} (target_eq : assignable target = true)
      (run : Evaluates env mem e (.broken why) after) :
      Executes env mem (.assign m target e) (.broken why) after
  | assignOther {env : Environment} {mem : Memory} {m : Offset} {target e : Expr Offset}
      (target_eq : assignable target = false) :
      Executes env mem (.assign m target e)
        (.broken (.fault ⟨.notAssignable, target.place?⟩)) mem
  | cond {env : Environment} {mem between after : Memory} {m : Offset} {c : Expr Offset}
      {thenBody elseBody : List (Stmt Offset)} {truth : Bool} {o : Outcome (Option Value)}
      (first : Evaluates env mem c (.done (.boolean truth)) between)
      (second : ExecutesAll env.enter between (if truth then thenBody else elseBody) o after) :
      Executes env mem (.cond m c thenBody elseBody) (o.map (·, env)) after
  | condBroken {env : Environment} {mem after : Memory} {m : Offset} {c : Expr Offset}
      {thenBody elseBody : List (Stmt Offset)} {o : Outcome Value} {why : Break}
      (run : Evaluates env mem c o after) (why_eq : o.demand wantBoolean c = .broken why) :
      Executes env mem (.cond m c thenBody elseBody) (.broken why) after
  | forIn {env : Environment} {mem between after : Memory} {m : Offset} {name : String}
      {e : Expr Offset} {body : List (Stmt Offset)} {elements : List Value}
      {o : Outcome (Option Value)}
      (first : Evaluates env mem e (.done (.sequence elements)) between)
      (second : ExecutesFor env between name body elements o after) :
      Executes env mem (.forIn m name e body) (o.map (·, env)) after
  | forBroken {env : Environment} {mem after : Memory} {m : Offset} {name : String}
      {e : Expr Offset} {body : List (Stmt Offset)} {o : Outcome Value} {why : Break}
      (run : Evaluates env mem e o after) (why_eq : o.demand wantSequence e = .broken why) :
      Executes env mem (.forIn m name e body) (.broken why) after
  | whileDo {env : Environment} {mem after : Memory} {m : Offset} {c : Expr Offset}
      {body : List (Stmt Offset)} {o : Outcome (Option Value)}
      (run : ExecutesWhile env mem c body o after) :
      Executes env mem (.whileDo m c body) (o.map (·, env)) after
  | result {env : Environment} {mem after : Memory} {m : Offset} {e : Expr Offset}
      {o : Outcome Value} (run : Evaluates env mem e o after) :
      Executes env mem (.result m e) (o.map fun value => (some value, env)) after
  | foreign {env : Environment} {mem : Memory} {m : Offset} {kind : NodeKind}
      {written : String} : Executes env mem (.foreign m kind written) (.done (none, env)) mem
  | cut {env : Environment} {mem : Memory} {s : Stmt Offset} :
      Executes env mem s (.broken .cut) mem

/-- Statements one after the other, until one returns. -/
inductive ExecutesAll :
    Environment → Memory → List (Stmt Offset) → Outcome (Option Value) → Memory → Prop where
  | nil {env : Environment} {mem : Memory} : ExecutesAll env mem [] (.done none) mem
  | next {env env' : Environment} {mem between after : Memory} {s : Stmt Offset}
      {rest : List (Stmt Offset)} {o : Outcome (Option Value)}
      (first : Executes env mem s (.done (none, env')) between)
      (second : ExecutesAll env' between rest o after) :
      ExecutesAll env mem (s :: rest) o after
  | returned {env env' : Environment} {mem after : Memory} {s : Stmt Offset}
      {rest : List (Stmt Offset)} {value : Value}
      (first : Executes env mem s (.done (some value, env')) after) :
      ExecutesAll env mem (s :: rest) (.done (some value)) after
  | broken {env : Environment} {mem after : Memory} {s : Stmt Offset}
      {rest : List (Stmt Offset)} {why : Break}
      (first : Executes env mem s (.broken why) after) :
      ExecutesAll env mem (s :: rest) (.broken why) after

/-- A loop over values: each round has a frame of its own, which binds the value. -/
inductive ExecutesFor :
    Environment → Memory → String → List (Stmt Offset) → List Value →
      Outcome (Option Value) → Memory → Prop where
  | finished {env : Environment} {mem : Memory} {name : String} {body : List (Stmt Offset)} :
      ExecutesFor env mem name body [] (.done none) mem
  | next {env : Environment} {mem between after : Memory} {name : String}
      {body : List (Stmt Offset)} {element : Value} {rest : List Value}
      {o : Outcome (Option Value)}
      (round : ExecutesAll (env.enter.bind name mem.fresh) (mem.alloc element) body (.done none)
        between)
      (others : ExecutesFor env between name body rest o after) :
      ExecutesFor env mem name body (element :: rest) o after
  | last {env : Environment} {mem after : Memory} {name : String}
      {body : List (Stmt Offset)} {element : Value} {rest : List Value}
      {o : Outcome (Option Value)}
      (round : ExecutesAll (env.enter.bind name mem.fresh) (mem.alloc element) body o after)
      (o_ne : o ≠ .done none) : ExecutesFor env mem name body (element :: rest) o after

/-- A loop on a condition: each round has a frame of its own. -/
inductive ExecutesWhile :
    Environment → Memory → Expr Offset → List (Stmt Offset) → Outcome (Option Value) →
      Memory → Prop where
  | finished {env : Environment} {mem after : Memory} {c : Expr Offset}
      {body : List (Stmt Offset)} (test : Evaluates env mem c (.done (.boolean false)) after) :
      ExecutesWhile env mem c body (.done none) after
  | next {env : Environment} {mem between before after : Memory} {c : Expr Offset}
      {body : List (Stmt Offset)} {o : Outcome (Option Value)}
      (test : Evaluates env mem c (.done (.boolean true)) between)
      (round : ExecutesAll env.enter between body (.done none) before)
      (others : ExecutesWhile env before c body o after) :
      ExecutesWhile env mem c body o after
  | last {env : Environment} {mem between after : Memory} {c : Expr Offset}
      {body : List (Stmt Offset)} {o : Outcome (Option Value)}
      (test : Evaluates env mem c (.done (.boolean true)) between)
      (round : ExecutesAll env.enter between body o after) (o_ne : o ≠ .done none) :
      ExecutesWhile env mem c body o after
  | broken {env : Environment} {mem after : Memory} {c : Expr Offset}
      {body : List (Stmt Offset)} {o : Outcome Value} {why : Break}
      (test : Evaluates env mem c o after) (why_eq : o.demand wantBoolean c = .broken why) :
      ExecutesWhile env mem c body (.broken why) after
  | cut {env : Environment} {mem : Memory} {c : Expr Offset} {body : List (Stmt Offset)} :
      ExecutesWhile env mem c body (.broken .cut) mem

end

/-! ### Programs -/

/-- The fields of a program, evaluated and bound in order. Each sees those before
it. -/
inductive Defines :
    Environment → Memory → List (Field Offset) → Outcome Environment → Memory → Prop where
  | nil {env : Environment} {mem : Memory} : Defines env mem [] (.done env) mem
  | next {env : Environment} {mem between after : Memory} {field : Field Offset}
      {rest : List (Field Offset)} {value : Value} {o : Outcome Environment}
      (first : Initializes env mem field.declaration.value (.done value) between)
      (second : Defines (env.bind field.declaration.name between.fresh) (between.alloc value)
        rest o after) : Defines env mem (field :: rest) o after
  | broken {env : Environment} {mem after : Memory} {field : Field Offset}
      {rest : List (Field Offset)} {why : Break}
      (first : Initializes env mem field.declaration.value (.broken why) after) :
      Defines env mem (field :: rest) (.broken why) after

/-- The environment with methods bound in order. -/
def Environment.defineAll (env : Environment) (methods : List (Method Offset)) : Environment :=
  methods.foldl (fun env method => env.define (method.name, method.parameters.length)
    (.method method)) env

/-- A whole program: its fields, its methods, and then the method to start with,
whose value is written out. -/
inductive Performs :
    Environment → Memory → Program Offset → Outcome Value → Memory → Prop where
  | fieldsBroken {env : Environment} {mem after : Memory} {program : Program Offset}
      {why : Break} (fields : Defines env mem program.fields (.broken why) after) :
      Performs env mem program (.broken why) after
  | noMain {env env' : Environment} {mem after : Memory} {program : Program Offset}
      (fields : Defines env mem program.fields (.done env') after)
      (main_eq : (env'.defineAll program.methods).functions.get? ("main", 0) = none) :
      Performs env mem program (.broken (.fault ⟨.missingMain, none⟩)) after
  | main {env env' : Environment} {mem between after : Memory} {program : Program Offset}
      {callable : Callable} {o : Outcome Value}
      (fields : Defines env mem program.fields (.done env') between)
      (main_eq : (env'.defineAll program.methods).functions.get? ("main", 0) = some callable)
      (called : Calls (env'.defineAll program.methods) between callable [] o after) :
      Performs env mem program o.written after

end PlcLang.Reference
