import PlcLang.Files

/-!
# `PlcLang.CommandLine.Arguments`: what a command line asks for

Options for all commands come first, then the command, then its own
options and its arguments in any order. Behind two hyphens everything is an
argument.
-/

set_option autoImplicit false

namespace PlcLang.CommandLine

/-- What the tools can be asked for. -/
inductive Task where
  /-- Names the version. -/
  | version
  /-- Runs a program. -/
  | run (file : Path) (analyze : Bool)
  /-- Checks programs. -/
  | check (target : Path)
  /-- Lists the tokens of a program. -/
  | tokens (file : Path)
  /-- Shows the tree of a program. -/
  | view (file : Path) (types : Bool)
  /-- Formats programs, or says which would be changed. -/
  | format (target : Path) (checkOnly : Bool)
  /-- Formats what comes in on the standard input. -/
  | formatInput (checkOnly : Bool)
  /-- Prints a program in colours. -/
  | highlight (file : Path)
  /-- Makes a new project. -/
  | create (name : String)
deriving DecidableEq, Repr

/-- A task, and whether the stages report their progress. This is all that is left
of the words. -/
structure Invocation where
  verbose : Bool
  task : Task
deriving DecidableEq, Repr

/-- Why a command line asks for nothing. Only the first reason is given, in the
order of the words. -/
inductive UsageError where
  | noCommand
  | unknownCommand (name : String)
  | unknownOption (name : String)
  | missingArgument
  | extraArgument (text : String)
deriving DecidableEq, Repr

/-- The wording. -/
def UsageError.message : UsageError → String
  | noCommand => "Missing command."
  | unknownCommand name => "No such command '" ++ name ++ "'."
  | unknownOption name => "No such option: " ++ name
  | missingArgument => "Missing argument."
  | extraArgument text => "Got unexpected extra argument (" ++ text ++ ")"

/-- Whether a word of a command line is an option. A single hyphen is an argument. -/
def isOption (word : String) : Bool :=
  word.startsWith "-" && word != "-"

/-- The options and the arguments among the words behind a command, of which these
are the options it knows. Options may stand behind arguments; behind two hyphens
nothing is an option. -/
def sortWords (known : List String) :
    List String → Except UsageError (List String × List String)
  | [] => .ok ([], [])
  | word :: rest =>
    if word = "--" then .ok ([], rest)
    else if isOption word then
      if known.contains word then
        (sortWords known rest).map fun (options, arguments) => (word :: options, arguments)
      else .error (.unknownOption word)
    else (sortWords known rest).map fun (options, arguments) => (options, word :: arguments)

/-- The only argument. Where there are more, the second one is what is complained
about. -/
def onlyArgument : List String → Except UsageError String
  | [text] => .ok text
  | [] => .error .missingArgument
  | _ :: text :: _ => .error (.extraArgument text)

/-- The only argument, or the working directory if there is none: the commands that
take many files can do without. -/
def targetArgument (arguments : List String) : Except UsageError Path :=
  if arguments.isEmpty then .ok (Path.ofText ".") else (onlyArgument arguments).map Path.ofText

/-- The only argument as the path of a file. Whether there is such a file is not
looked at here. -/
def fileArgument (arguments : List String) : Except UsageError Path :=
  (onlyArgument arguments).map Path.ofText

/-- The task of a command with the words behind it. Each command knows its own
options, so an option of one is unknown to another. -/
def taskOf (command : String) (words : List String) : Except UsageError Task := do
  match command with
  | "run" =>
    let (options, arguments) ← sortWords ["--no-analyze"] words
    pure (.run (← fileArgument arguments) (!options.contains "--no-analyze"))
  | "check" =>
    let (_, arguments) ← sortWords [] words
    pure (.check (← targetArgument arguments))
  | "tokens" =>
    let (_, arguments) ← sortWords [] words
    pure (.tokens (← fileArgument arguments))
  | "view" =>
    let (options, arguments) ← sortWords ["--types"] words
    pure (.view (← fileArgument arguments) (options.contains "--types"))
  | "format" =>
    let (options, arguments) ← sortWords ["--check", "--stdin"] words
    let target ← targetArgument arguments
    let checkOnly := options.contains "--check"
    pure (if options.contains "--stdin" then .formatInput checkOnly else .format target checkOnly)
  | "highlight" =>
    let (_, arguments) ← sortWords [] words
    pure (.highlight (← fileArgument arguments))
  | "new" =>
    let (_, arguments) ← sortWords [] words
    pure (.create (← onlyArgument arguments))
  | _ => throw (.unknownCommand command)

/-- What a command line asks for, with the options read so far. The version is named
instead of any command that follows, and even without one. -/
def invocationOf (verbose version : Bool) : List String → Except UsageError Invocation
  | [] => if version then .ok ⟨verbose, .version⟩ else .error .noCommand
  | word :: rest =>
    if word = "--verbose" then invocationOf true version rest
    else if word = "--version" then invocationOf verbose true rest
    else if isOption word ∧ word ≠ "--" then .error (.unknownOption word)
    else if version then .ok ⟨verbose, .version⟩
    else
      let words := if word = "--" then rest else word :: rest
      match words with
      | [] => .error .noCommand
      | command :: words => (taskOf command words).map (⟨verbose, ·⟩)

/-- What a command line asks for. It begins with no option read. -/
def Invocation.ofArguments (words : List String) : Except UsageError Invocation :=
  invocationOf false false words

end PlcLang.CommandLine
