/-!
# `PlcLang.Text.Terminal`: control sequences of terminals

A control sequence tells a terminal about colours and the like. It begins
with an escape and a bracket, goes on with parameters and intermediate
characters, and one final character ends it. Texts for other readers have
none.
-/

set_option autoImplicit false

namespace PlcLang.Text

/-- Whether a character lies between two others, both included. -/
def isBetween (low high c : Char) : Bool :=
  low ≤ c && c ≤ high

/-- How many characters behind the escape and the bracket belong to the
control sequence, if it is one. -/
def sequenceTail? (text : List Char) : Option Nat :=
  let parameters := text.takeWhile (isBetween '0' '?')
  let rest := text.dropWhile (isBetween '0' '?')
  let between := rest.takeWhile (isBetween ' ' '/')
  match rest.dropWhile (isBetween ' ' '/') with
  | c :: _ =>
    if isBetween '@' '~' c then some (parameters.length + between.length + 1) else none
  | [] => none

/-- The characters that belong to no control sequence; the first `skip` do
belong to one. -/
def withoutSequences (skip : Nat) : List Char → List Char
  | [] => []
  | c :: rest =>
    match skip with
    | skip + 1 => withoutSequences skip rest
    | 0 =>
      match c, rest with
      | '\x1b', '[' :: tail =>
        match sequenceTail? tail with
        | some length => withoutSequences (length + 1) rest
        | none => c :: withoutSequences 0 rest
      | _, _ => c :: withoutSequences 0 rest

/-- `text` without control sequences. An escape that begins none stays. -/
def plain (text : String) : String :=
  String.ofList (withoutSequences 0 text.toList)

end PlcLang.Text
