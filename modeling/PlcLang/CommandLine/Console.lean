import PlcLang.Settings
import PlcLang.Text.Terminal

/-!
# `PlcLang.CommandLine.Console`: what commands read and leave behind

A command reads from its surroundings, which do not change while it runs,
and adds to a transcript: what it printed, what it complained about, and
the files that it wants written. It ends with an exit status, or breaks
down where it has no message for what went wrong; the transcript holds
everything up to there.

What a command says of its own goes through `say` and `complain`, which
keep control sequences from readers that are no terminals. `print` and
`log` let everything through.
-/

set_option autoImplicit false

namespace PlcLang.CommandLine

/-- What a command has to work with. Whether a stream goes to a terminal is known
here, as it decides what a command may say on it. -/
structure Surroundings where
  tree : FileTree
  /-- What comes in on the standard input. -/
  input : ByteArray := .empty
  /-- Whether the stages report their progress. -/
  verbose : Bool := false
  /-- Whether the output goes to a terminal. -/
  terminalOutput : Bool := false
  /-- Whether complaints go to a terminal. -/
  terminalErrors : Bool := false

/-- What a command leaves behind. The two streams are apart, so nothing is known of
how their lines alternate. -/
structure Transcript where
  output : String := ""
  errors : String := ""
  written : List FileWrite := []
deriving Repr

/-- Why a command breaks down. None of these is a problem of a program's text; they
are what the tools have no words of their own for. -/
inductive Breakdown where
  | file (cause : FileError)
  | settings (cause : SettingsError)
  /-- The recursion limit is not a number. -/
  | limitNotNumber
  /-- The recursion limit is a number that no machine can count to. -/
  | limitOutOfRange
  /-- The recursion limit leaves no room at all. -/
  | limitNotPositive
  /-- The recursion limit leaves no room for a program. -/
  | limitTooLow
  /-- A program has come to a number that is out of range. -/
  | number (e : NumberError)
deriving DecidableEq, Repr

/-- How a command ends before its last line: with a status that it has chosen, or
without having chosen any. -/
inductive Ending where
  | exit (status : Nat)
  | breakdown (cause : Breakdown)
deriving DecidableEq, Repr

/-- A command adds to the transcript and may end early. What has been added stays
when it does. -/
abbrev Command := EStateM Ending Transcript

/-- The text as its readers can make use of it: without control sequences, unless
the reader is a terminal. -/
def legible (terminal : Bool) (text : String) : String :=
  if terminal then text else Text.plain text

/-- Prints a text as it is. This is the output of programs and what other programs
read. -/
def print (text : String) : Command Unit :=
  modify fun transcript => { transcript with output := transcript.output ++ text }

/-- Says a line, for people to read. -/
def say (s : Surroundings) (line : String) : Command Unit :=
  print (legible s.terminalOutput (line ++ "\n"))

/-- Adds to the complaints as it is. -/
def printError (text : String) : Command Unit :=
  modify fun transcript => { transcript with errors := transcript.errors ++ text }

/-- Complains in a line, or several. The last line is ended, whatever the text ends
with. -/
def complain (s : Surroundings) (text : String) : Command Unit :=
  printError (legible s.terminalErrors (text ++ "\n"))

/-- Reports the progress of a stage with a file, to those who want to know. It goes
with the complaints, so that it does not get into the output. -/
def log (s : Surroundings) (stage file progress : String) : Command Unit :=
  if s.verbose then
    printError ("DEBUG plc." ++ stage ++ ": " ++ file ++ ": " ++ progress ++ "\n")
  else pure ()

/-- Wants a file written. A later write to the same place counts. -/
def write (place : Location) (text : String) : Command Unit :=
  modify fun transcript => { transcript with written := transcript.written ++ [⟨place, text⟩] }

/-- Ends the command with a status. Nothing behind it is done. -/
def exit {α : Type} (status : Nat) : Command α :=
  throw (.exit status)

/-- The outcome of a step that may fail for a reason that breaks the
command down. -/
def orBreakDown {ε α : Type} (breakdown : ε → Breakdown) : Except ε α → Command α
  | .ok value => pure value
  | .error cause => throw (.breakdown (breakdown cause))

/-- The text in a file. A file that cannot be read, or holds no text, breaks the
command down: its path has been looked at before, so this is not expected. -/
def readFile (s : Surroundings) (path : Path) : Command String :=
  orBreakDown .file (s.tree.readText path)

/-- The text that comes in on the standard input. -/
def readInput (s : Surroundings) : Command String :=
  orBreakDown .file (textOfBytes s.input)

/-- The settings that hold for a path. Settings that make no sense break the command
down, whatever it was about to do. -/
def readSettings (s : Surroundings) (path : Path) : Command Settings :=
  orBreakDown .settings (s.tree.settingsFor path)

end PlcLang.CommandLine
