import PlcLang.Diagnostic
import PlcLang.Syntax.Parser
import PlcLang.Token.Lexer

/-!
# `PlcLang.Failure`: what every stage's error has in common

Each stage of the toolchain has errors of its own that say what is wrong.
A failure is what is left of one for whoever reports it: the stage, a code,
the wording and the place.
-/

set_option autoImplicit false

namespace PlcLang

/-- The kinds of fault in a running program. A fault of the language is of one of
these; limits and numbers out of range are none. -/
inductive FaultKind where
  | typeMismatch
  | undefinedBinding
  | divisionByZero
  | invalidAssignmentTarget
  | missingMain
deriving DecidableEq, Repr

namespace FaultKind

/-- The code of a fault. -/
def code : FaultKind → String
  | typeMismatch => "E400"
  | undefinedBinding => "E401"
  | divisionByZero => "E402"
  | invalidAssignmentTarget => "E403"
  | missingMain => "E404"

/-- All kinds. -/
def all : List FaultKind :=
  [typeMismatch, undefinedBinding, divisionByZero, invalidAssignmentTarget, missingMain]

end FaultKind

/-- Where in the toolchain a failure comes from. An error that is raised as such,
and by no stage, is unspecified. -/
inductive Stage where
  | unspecified
  | lexing
  | parsing
  | checking
  | running (kind : FaultKind)
deriving DecidableEq, Repr

/-- The code of a stage's failures, where the failure has none of its own. Errors of
the checker have codes of their own, one for each rule. -/
def Stage.code : Stage → String
  | unspecified => "E000"
  | lexing => "E100"
  | parsing => "E200"
  | checking => "E300"
  | running kind => kind.code

/-- A stage's error as it is reported. An error that is about the program as a
whole, such as that nothing is there to start with, has no offset. -/
structure Failure where
  stage : Stage
  code : String
  message : String
  offset : Option Int
  length : Int
deriving DecidableEq, Repr

namespace Failure

/-- The offsets that the failure covers: at least one character, so that there is
something to point at even at the end of the text. -/
def range? (failure : Failure) : Option (Int × Int) :=
  failure.offset.map fun offset => (offset, offset + max 1 failure.length)

/-- The message, with the offset if there is one. It is what is said where there is
no text to show. -/
def text (failure : Failure) : String :=
  match failure.offset with
  | some offset => failure.message ++ " (offset " ++ toString offset ++ ")"
  | none => failure.message

/-- The failure as a diagnostic about the text named `file`. Its place becomes the
one label; a failure without a place has none. -/
def diagnostic (failure : Failure) (file : String) : Diagnostic where
  severity := .error
  code := failure.code
  message := failure.message
  labels :=
    match failure.range? with
    | some (start, stop) => [⟨⟨file, start, stop⟩, ""⟩]
    | none => []
  notes := []

end Failure

/-- The report of a lexical error. It is about the one character that fits nowhere. -/
def LexError.failure (e : LexError) : Failure :=
  ⟨.lexing, Stage.lexing.code, e.cause.message, some e.offset, 1⟩

/-- The report of a syntax error. It covers the token that fits nowhere, or one
character where the program ends too early. -/
def ParseError.failure (e : ParseError) : Failure :=
  ⟨.parsing, Stage.parsing.code, e.message, some e.offset, e.length⟩

end PlcLang
