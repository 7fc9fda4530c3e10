import PlcLang.Failure
import PlcLang.Value

/-!
# `PlcLang.Execution.Fault`: how running a program fails

A fault is the program's own doing and points at the place of it. Running
may also stop because a function of the host fails, because a number leaves
the range in which numbers can be worked out and written down, or because a
limit is reached.
-/

set_option autoImplicit false

namespace PlcLang

/-- What a running program can do wrong. Checked programs do little of it: a
division by zero, and what depends on values that a type says nothing about. -/
inductive FaultCause where
  | notBoolean (found : Tag)
  | notIterable (found : Tag)
  | noMembers (found : Tag)
  | wrongOperands (op : BinaryOp) (left right : Tag)
  | notEvaluable (kind : NodeKind)
  | undefinedVariable (name : String)
  | undefinedField (name : String)
  | undefinedFunction (key : FunctionKey)
  | undefinedMethod (key : FunctionKey)
  | divisionByZero
  | notAssignable
  | missingMain
deriving DecidableEq, Repr

/-- A cause and the place of it, if it has one: that there is no method to start
with has none. -/
structure Fault where
  cause : FaultCause
  offset : Option Offset
deriving DecidableEq, Repr

namespace FaultCause

/-- The kind of fault that the cause makes. Several causes share a kind, and with it
a code. -/
def kind : FaultCause → FaultKind
  | notBoolean _ | notIterable _ | noMembers _ | wrongOperands .. | notEvaluable _ =>
    .typeMismatch
  | undefinedVariable _ | undefinedField _ | undefinedFunction _ | undefinedMethod _ =>
    .undefinedBinding
  | divisionByZero => .divisionByZero
  | notAssignable => .invalidAssignmentTarget
  | missingMain => .missingMain

/-- The wording. Values are named by their tags, names are quoted, and functions
have their arity with them. -/
def message : FaultCause → String
  | notBoolean found => "expected Boolean, found " ++ found.name
  | notIterable found => "cannot iterate over " ++ found.name
  | noMembers found => found.name ++ " has no members"
  | wrongOperands op left right =>
    "operator " ++ quoted op.symbol ++ " cannot be applied to " ++ left.name ++ " and "
      ++ right.name
  | notEvaluable kind => "cannot evaluate " ++ kind.name
  | undefinedVariable name => "undefined variable " ++ quoted name
  | undefinedField name => "undefined field " ++ quoted name
  | undefinedFunction key => "undefined function " ++ quoted (keyText key)
  | undefinedMethod key => "undefined method " ++ quoted (keyText key)
  | divisionByZero => "division by zero"
  | notAssignable => "assignment target must be a variable or field"
  | missingMain => "no main/0 method to run"

end FaultCause

/-- The report of a fault. It covers one character: that of the node that it points
at. -/
def Fault.failure (f : Fault) : Failure :=
  ⟨.running f.cause.kind, f.cause.kind.code, f.cause.message, f.offset.map Int.ofNat, 1⟩

/-- Why running a program stops before its end. Only a fault is the program's own
doing; all the others are met by the machine that runs it. -/
inductive Stop where
  | fault (fault : Fault)
  | host (e : HostError)
  /-- A number cannot be worked out or written down. That is no fault: no
  rule of the language says what becomes of the program. -/
  | number (e : NumberError)
  /-- Evaluation is nested more deeply than the limit allows. -/
  | tooDeep
  /-- A loop goes round more often than the limit allows. -/
  | tooLong
deriving DecidableEq, Repr

end PlcLang
