import PlcLang.Execution.Fault

/-!
# `PlcLang.Execution.Operators`: the operators on values

What an operator makes of two values, or why it cannot be applied to them.
Equality holds between any values; an order only between values of one
ordered tag; arithmetic between two integers or two decimals. A plus sign
with a string on either side joins textual forms.
-/

set_option autoImplicit false

namespace PlcLang

/-- Why an operator makes no value of its operands. Only the first reason is the
program's fault, with a kind and a place. -/
inductive Refusal where
  /-- The operands are none that the operator may have. -/
  | fault (cause : FaultCause)
  /-- A number that would come of it, or be written out, is out of range. -/
  | number (e : NumberError)
deriving DecidableEq, Repr

/-- What stops a run where an operator at this place makes no value. -/
def Refusal.stop (offset : Offset) : Refusal → Stop
  | fault cause => .fault ⟨cause, offset⟩
  | number e => .number e

namespace BinaryOp

/-- Whether two values in some order compare as the operator says. Only
the four operators of order ask. -/
def holds : BinaryOp → Ordering → Bool
  | less, order => order == .lt
  | lessEqual, order => order != .gt
  | greater, order => order == .gt
  | greaterEqual, order => order != .lt
  | _, _ => false

/-- Arithmetic on integers, which have no bounds here: those of a literal are for
the checker. The quotient has its fraction cut off. -/
def onIntegers (op : BinaryOp) (a b : Int) : Except Refusal Int :=
  match op with
  | add => .ok (a + b)
  | sub => .ok (a - b)
  | mul => .ok (a * b)
  | div =>
    -- The divisor is looked at before anything is divided by it.
    if b = 0 then .error (.fault .divisionByZero)
    else (truncatedQuotient a b).mapError .number
  | _ => .error (.fault (.wrongOperands op .integer .integer))

/-- Arithmetic on decimals. A sum or product is exact, a quotient has the scale of
its dividend, and any of them can leave the range. -/
def onDecimals (op : BinaryOp) (a b : Decimal) : Except Refusal Decimal :=
  match op with
  | add => (a.add b).mapError .number
  | sub => (a.sub b).mapError .number
  | mul => (a.mul b).mapError .number
  | div => if b.isZero then .error (.fault .divisionByZero) else (a.divide b).mapError .number
  | _ => .error (.fault (.wrongOperands op .decimal .decimal))

/-- Arithmetic: both operands must be integers or both decimals. Nothing is
converted, so `1 + 1.0` is a fault. -/
def arithmetic (op : BinaryOp) : Value → Value → Except Refusal Value
  | .integer a, .integer b => (op.onIntegers a b).map .integer
  | .decimal a, .decimal b => (op.onDecimals a b).map .decimal
  | left, right => .error (.fault (.wrongOperands op left.tag right.tag))

/-- Comparison: both operands must have one ordered tag. Two strings are compared by
characters, two booleans with false first. -/
def ordering (op : BinaryOp) (left right : Value) : Except Refusal Value :=
  match left.compare? right with
  | some order => .ok (.boolean (op.holds order))
  | none => .error (.fault (.wrongOperands op left.tag right.tag))

/-- The textual forms of two values, one behind the other. Either may have none, if
it has too many digits. -/
def joined (left right : Value) : Except Refusal Value := do
  let leftText ← left.display.mapError .number
  let rightText ← right.display.mapError .number
  pure (.string (leftText ++ rightText))

/-- What an operator that evaluates both its operands makes of them. `OR` is none of
these: where its left operand is not enough the right one alone is looked at. -/
def apply (op : BinaryOp) (left right : Value) : Except Refusal Value :=
  match op with
  | equal => .ok (.boolean (left.equals right))
  | notEqual => .ok (.boolean (!left.equals right))
  | and =>
    match left, right with
    | .boolean a, .boolean b => .ok (.boolean (a && b))
    | _, _ => .error (.fault (.wrongOperands op left.tag right.tag))
  | less | lessEqual | greater | greaterEqual => op.ordering left right
  | add =>
    -- One string is enough, on whichever side it stands: the other operand is written out as it
    -- would be printed.
    if left.tag = .string ∨ right.tag = .string then joined left right
    else op.arithmetic left right
  | sub | mul | div => op.arithmetic left right
  | or | other _ => .error (.fault (.wrongOperands op left.tag right.tag))

end BinaryOp

end PlcLang
