import PlcLang.Decimal.Notation
import PlcLang.Failure
import PlcLang.Typing.Types

/-!
# `PlcLang.Typing.CheckError`: why a program is rejected

Each rule that the checker enforces has a cause of its own. The code of a
cause says which family of rules it belongs to.
-/

set_option autoImplicit false

namespace PlcLang

/-- The rules that a program can break. Each cause has with it what its message
shows. -/
inductive CheckCause where
  | unknownType (name : String)
  | needsTypeOrValue (name : String)
  | alreadyDefined (name : String)
  | methodAlreadyDefined (key : FunctionKey)
  | duplicateParameter (name : String)
  | missingMain
  | wrongMainType (found : Ty)
  | notACall
  | notAssignable
  | emptyConditional
  | emptyForLoop
  | needlessGroup
  | mismatch (expected found : Ty)
  | undefinedVariable (name : String)
  | undefinedFunction (key : FunctionKey)
  | noField (type : Ty) (name : String)
  | noMethod (type : Ty) (key : FunctionKey)
  | wrongOperands (op : BinaryOp) (left right : Ty)
  | wideInteger (value : Int)
  | largeDecimal (value : Decimal)
  | unsupported (kind : NodeKind)
deriving DecidableEq, Repr

/-- A broken rule and the place of it, if it has one. Only that there is no method
to start with has none. -/
structure CheckError where
  cause : CheckCause
  offset : Option Offset
deriving DecidableEq, Repr

namespace CheckCause

/-- The code of the rule's family. -/
def code : CheckCause → String
  | unknownType _ | unsupported _ => "E300"
  | alreadyDefined _ | methodAlreadyDefined _ | duplicateParameter _ => "E301"
  | undefinedVariable _ => "E310"
  | undefinedFunction _ => "E311"
  | noField .. | noMethod .. => "E312"
  | wrongOperands .. => "E320"
  | mismatch .. => "E321"
  | missingMain | wrongMainType _ => "E330"
  | wideInteger _ | largeDecimal _ => "E340"
  | needsTypeOrValue _ | notACall | notAssignable | emptyConditional | emptyForLoop
  | needlessGroup => "E350"

/-- The wording. Types are named as programs name them. -/
def message : CheckCause → String
  | unknownType name => "unknown type " ++ quoted name
  | needsTypeOrValue name =>
    "declaration of " ++ quoted name ++ " needs a type or an initial value"
  | alreadyDefined name => quoted name ++ " is already defined in this scope"
  | methodAlreadyDefined key => "method " ++ quoted (keyText key) ++ " is already defined"
  | duplicateParameter name => "duplicate parameter " ++ quoted name
  | missingMain => "missing main/0 method"
  | wrongMainType found => "main/0 must return Integer, found " ++ found.name
  | notACall => "expression statement must be a function call"
  | notAssignable => "assignment target must be a variable or field"
  | emptyConditional => "if statement has an empty body"
  | emptyForLoop => "for loop has an empty body"
  | needlessGroup => "parentheses must enclose a binary expression"
  | mismatch expected found => "expected " ++ expected.name ++ ", found " ++ found.name
  | undefinedVariable name => "undefined variable " ++ quoted name
  | undefinedFunction key => "undefined function " ++ quoted (keyText key)
  | noField type name => "type " ++ type.name ++ " has no field " ++ quoted name
  | noMethod type key => "type " ++ type.name ++ " has no method " ++ quoted (keyText key)
  | wrongOperands op left right =>
    "operator " ++ quoted op.symbol ++ " cannot be applied to " ++ left.name ++ " and "
      ++ right.name
  | wideInteger value => "integer literal " ++ toString value ++ " does not fit in 32 bits"
  | largeDecimal value => "decimal literal " ++ value.scientific ++ " is out of range"
  | unsupported kind => "unsupported expression " ++ kind.name

end CheckCause

/-- The report of a broken rule. It covers the first character of the node. -/
def CheckError.failure (e : CheckError) : Failure :=
  ⟨.checking, e.cause.code, e.cause.message, e.offset.map Int.ofNat, 1⟩

end PlcLang
