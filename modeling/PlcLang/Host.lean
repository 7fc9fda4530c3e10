import PlcLang.Value

/-!
# `PlcLang.Host`: functions that a host may offer

A small set of functions for programs that run inside a host, each a map
from arguments to a result.
-/

set_option autoImplicit false

namespace PlcLang

/-- What a function of the host does. Each of them does one thing at the border
between programs and host. -/
inductive HostAction where
  /-- Nothing. -/
  | nothing
  /-- Answers with its first argument. -/
  | firstArgument
  /-- Answers with its last argument. -/
  | lastArgument
  /-- Answers with the number of its arguments. -/
  | countArguments
  /-- Answers with the sequence of its arguments. -/
  | collect
  /-- Answers with the textual form of its last argument. -/
  | displayLast
  /-- Answers with the name of the tag of its last argument. -/
  | tagOfLast
  /-- Answers with the integers from the first of two arguments up to the
  second. -/
  | integersBetween
  /-- Answers with a field of its first argument. -/
  | fieldOfFirst (name : String)
deriving DecidableEq, Repr

namespace HostAction

/-- The integers from `low` on, below `high`. There are none if the bounds are the
wrong way round. -/
def integers (low high : Int) : List Value :=
  (List.range (high - low).toNat).map fun (i : Nat) => Value.integer (low + i)

/-- The function that does it. A function that looks at an argument fails without
one; the others take any number. -/
def run : HostAction → HostFunction
  | nothing, _, _ => .ok .nil
  | firstArgument, _, argument :: _ => .ok argument
  | firstArgument, _, [] => .error .noArgument
  | lastArgument, _, arguments => arguments.getLast?.elim (.error .noArgument) .ok
  | countArguments, _, arguments => .ok (.integer arguments.length)
  | collect, _, arguments => .ok (.sequence arguments)
  | displayLast, _, arguments =>
    arguments.getLast?.elim (.error .noArgument) fun v =>
      (v.display.map Value.string).mapError .number
  | tagOfLast, _, arguments =>
    arguments.getLast?.elim (.error .noArgument) fun v => .ok (.string v.tag.name)
  | integersBetween, _, [low, high] =>
    match low, high with
    | .integer low, .integer high => .ok (.sequence (integers low high))
    | _, _ => .ok .nil
  | integersBetween, _, _ => .error .wrongCount
  | fieldOfFirst name, heap, .object ref :: _ =>
    ((heap.fields ref).get? name).elim (.error .noMember) .ok
  | fieldOfFirst _, _, _ :: _ => .error .noMember
  | fieldOfFirst _, _, [] => .error .noArgument

end HostAction

end PlcLang
