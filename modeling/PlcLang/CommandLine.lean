import PlcLang.CommandLine.Arguments
import PlcLang.CommandLine.Console
import PlcLang.Highlight
import PlcLang.Scaffold
import PlcLang.Session
import PlcLang.Syntax.Outline
import PlcLang.Syntax.Printer

/-!
# `PlcLang.CommandLine`: the commands

Every command takes programs through the stages that it needs and reports
the first problem of each with the place of it. Settings are read when they
are needed and not before: a command that has nothing to report and nothing
to run gets by without them.

Commands for one file end with its problem. Commands for many go on with
the next file; only `check` holds a problem against all of them.
-/

set_option autoImplicit false

namespace PlcLang.CommandLine

/-! ### Stages -/

/-- The tokens of a source. Progress is logged only for a stage that has come to its
end, here as in the stages below. -/
def readTokens (s : Surroundings) (source : Source) :
    Command (Except ProgramError (List Token)) := do
  match tokenize source.content with
  | .error e => pure (.error (.lexical e))
  | .ok tokens =>
    log s "lexer" source.name ("lexed " ++ toString tokens.length ++ " tokens")
    pure (.ok tokens)

/-- How many fields and methods a program has, in words. -/
def sizeText {α : Type} (program : Program α) : String :=
  toString program.fields.length ++ " fields and " ++ toString program.methods.length ++ " methods"

/-- The tree of a source, or the first problem of the two stages that make it. -/
def readTree (s : Surroundings) (source : Source) :
    Command (Except ProgramError (Program Offset)) := do
  match ← readTokens s source with
  | .error e => pure (.error e)
  | .ok tokens =>
    match parse tokens with
    | .error e => pure (.error (.grammar e))
    | .ok program =>
      log s "parser" source.name ("parsed " ++ sizeText program)
      pure (.ok program)

/-- The tree of a source, as it was read and as it was checked. The checker knows
the built-in types and functions only, since a command line has no host. -/
def readChecked (s : Surroundings) (source : Source) :
    Command (Except ProgramError (Program Offset × Program Note)) := do
  match ← readTree s source with
  | .error e => pure (.error e)
  | .ok program =>
    match PlcLang.check program with
    | .error e => pure (.error (.typing e))
    | .ok checked =>
      log s "analyzer" source.name ("analyzed " ++ sizeText program)
      pure (.ok (program, checked))

/-! ### Reporting -/

/-- Reports a problem of a source. The line that it is on can be shown, since this
source is at hand; a place in any other would only be named. -/
def report (s : Surroundings) (settings : Settings) (source : Source) (failure : Failure) :
    Command Unit :=
  let sources (name : String) := if name = source.name then some source else none
  complain s ((failure.diagnostic source.name).render settings.diagnostics.color.isYes sources)

/-- Reports a problem of the only source, with the settings that hold for
it, and ends the command. -/
def giveUp {α : Type} (s : Surroundings) (path : Path) (source : Source) (e : ProgramError) :
    Command α := do
  report s (← readSettings s path) source e.failure
  exit 1

/-- The source in a file, by the name that its path gives it. It is this name, as it
was typed, that problems are reported under. -/
def load (s : Surroundings) (path : Path) : Command Source := do
  pure ⟨path.text, ← readFile s path⟩

/-! ### Running -/

/-- The most and the least that a recursion limit may say. Anything beyond is no
number that the platform can take for one. -/
def limitBound : Int :=
  2147483647

/-- The frames that are in use before a program begins. A limit that leaves no more
than these is refused. -/
def framesBefore : Nat :=
  10

/-- The number of frames that a recursion limit allows. The reasons why a number
allows none are asked for in this order, so each number has one. -/
def framesFor (limit : Int) : Except Breakdown Nat :=
  if limit < -limitBound - 1 ∨ limitBound < limit then .error .limitOutOfRange
  else if limit ≤ 0 then .error .limitNotPositive
  else if limit ≤ framesBefore then .error .limitTooLow
  else .ok limit.toNat

/-- The number of frames that settings allow. A truth value counts as one
or zero. -/
def frameLimit (settings : Settings) : Except Breakdown Nat :=
  match settings.run.recursionLimit with
  | .integer limit => framesFor limit
  | .boolean truth => framesFor (if truth then 1 else 0)
  | _ => .error .limitNotNumber

/-- The most frames that a run gets, whatever the settings allow. This is what keeps
a program from running out of a stack that no setting speaks of. -/
def mostFrames : Nat :=
  10000

/-- The exit status that a result stands for: a number as far as a status can tell,
and success otherwise. A negative number counts from above, so minus one is 255. -/
def exitStatus : Value → Nat
  | .integer n => (n % 256).toNat
  | _ => 0

/-- Runs a program and ends with the status of its result. What the program has
printed comes out first, however the run has ended. A fault is reported with its
place; a run that a limit has stopped is reported without one, and a number out of
range has no report at all. -/
def runFile (s : Surroundings) (path : Path) (analyze : Bool) : Command Unit := do
  let source ← load s path
  let settings ← readSettings s path
  let frames ← orBreakDown id (frameLimit settings)
  let program ←
    if settings.run.analyze.isYes && analyze then
      pure ((← readChecked s source).map (·.1))
    else readTree s source
  match program with
  | .error e =>
    report s settings source e.failure
    exit 1
  | .ok program =>
    let (result, session) := Session.initial.execute (.ofFrames (min frames mostFrames)) program
    print session.output
    match result with
    | .ok value =>
      let text ← orBreakDown .number value.display
      log s "interpreter" source.name ("main returned " ++ text)
      exit (exitStatus value)
    | .error (.fault fault) =>
      report s settings source fault.failure
      exit 1
    | .error (.number e) => throw (.breakdown (.number e))
    | .error _ =>
      complain s ("error: maximum recursion depth exceeded (run.recursion_limit = "
        ++ toString frames ++ ")")
      exit 1

/-! ### Checking and showing -/

/-- Checks one file; says whether it is free of problems. A problem is reported and
does not end the command, which may have more files to check. -/
def checkFile (s : Surroundings) (settings : Settings) (path : Path) : Command Bool := do
  let source ← load s path
  match ← readChecked s source with
  | .ok _ => pure true
  | .error e =>
    report s settings source e.failure
    pure false

/-- The ending of a program's file name. -/
def programEnding : String :=
  ".plc"

/-- Checks all programs of a target. All of them are checked before any of them
decides about the status. -/
def check (s : Surroundings) (target : Path) : Command Unit := do
  let settings ← readSettings s target
  let files := s.tree.search target programEnding
  if files.isEmpty then complain s "warning: no .plc files found"
  else
    let sound ← files.mapM (checkFile s settings)
    if sound.all id then
      say s ("checked " ++ toString files.length ++ " file(s), no errors")
    else exit 1

/-- Lists the tokens of a file, one in a line. -/
def listTokens (s : Surroundings) (path : Path) : Command Unit := do
  let source ← load s path
  match ← readTokens s source with
  | .error e => giveUp s path source e
  | .ok tokens => tokens.forM fun token => say s token.listing

/-- The lines that show the tree of a source, with types or without. Types are only
known of a tree that the checker accepts, so a program with a type error is shown
without them or not at all. -/
def outlineOf (s : Surroundings) (source : Source) (types : Bool) :
    Command (Except ProgramError (List String)) := do
  if types then
    pure ((← readChecked s source).map fun (_, checked) =>
      checked.outline fun note => note.type.map Ty.name)
  else
    pure ((← readTree s source).map fun program => program.outline fun _ => none)

/-- Shows the tree of a file. Settings are read only if there is a problem to
report. -/
def view (s : Surroundings) (path : Path) (types : Bool) : Command Unit := do
  let source ← load s path
  match ← outlineOf s source types with
  | .error e => giveUp s path source e
  | .ok lines => lines.forM (say s)

/-- Prints a file in colours. The text need not be a program. -/
def highlightFile (s : Surroundings) (path : Path) : Command Unit := do
  print (Highlight.coloured (← readFile s path))

/-! ### Formatting -/

/-- Formats one file, or only says that it would be changed; answers whether
the file and its canonical form differ. A file with a problem has no such
form and counts as equal. -/
def formatFile (s : Surroundings) (settings : Settings) (checkOnly : Bool) (path : Path) :
    Command Bool := do
  let source ← load s path
  match ← readTree s source with
  | .error e =>
    report s settings source e.failure
    pure false
  | .ok program =>
    let formatted := program.format
    if formatted = source.content then pure false
    else if checkOnly then
      say s ("would reformat " ++ source.name)
      pure true
    else
      write (s.tree.resolve path) formatted
      say s ("formatted " ++ source.name)
      pure true

/-- Formats all programs of a target, or says which would be changed. Only a file
that differs from its canonical form makes the check fail: one that has no such form
has been reported by then, and is passed over. -/
def format (s : Surroundings) (target : Path) (checkOnly : Bool) : Command Unit := do
  let files := s.tree.search target programEnding
  if files.isEmpty then complain s "no .plc files found"
  else
    let settings ← readSettings s target
    let different ← files.mapM (formatFile s settings checkOnly)
    if checkOnly && different.any id then exit 1 else pure ()

/-- Prints the canonical form of what comes in on the standard input, or
only tells by the status whether this is it. -/
def formatInput (s : Surroundings) (checkOnly : Bool) : Command Unit := do
  let source : Source := ⟨"<stdin>", ← readInput s⟩
  match ← readTree s source with
  | .error e =>
    report s {} source e.failure
    exit 1
  | .ok program =>
    let formatted := program.format
    if !checkOnly then print formatted
    else if formatted = source.content then pure ()
    else exit 1

/-! ### Making projects -/

/-- Makes a new project, if nothing is in its place. Directories that are missing on
the way are made with it. -/
def create (s : Surroundings) (name : String) : Command Unit := do
  let path := Path.ofText name
  if s.tree.reaches path then
    complain s ("error: Directory '" ++ name ++ "' already exists")
    exit 1
  else
    let place ← orBreakDown .file (s.tree.makeWay path)
    (Scaffold.files place name).forM fun file => write file.place file.text
    say s ("created project '" ++ name ++ "' at " ++ (s.tree.fullPath path).text)

/-! ### All together -/

/-- The version of the tools. -/
def version : String :=
  "0.1.0"

/-- Complains about a use that makes no sense and ends the command. The status tells
this from a problem in a program. -/
def refuse (s : Surroundings) (message : String) : Command Unit := do
  complain s ("Error: " ++ message)
  exit 2

/-- A command for a path that has to lead to something, and to a file where
it says so. -/
def onPath (s : Surroundings) (path : Path) (fileOnly : Bool) (command : Command Unit) :
    Command Unit :=
  if !s.tree.reaches path then refuse s ("Path '" ++ path.text ++ "' does not exist.")
  else if fileOnly && s.tree.reachesDirectory path then
    refuse s ("File '" ++ path.text ++ "' is a directory.")
  else command

/-- The command for a task. Where a task is about a path, the path is looked at
before anything else. -/
def perform (s : Surroundings) : Task → Command Unit
  | .version => say s ("plc, version " ++ version)
  | .run file analyze => onPath s file true (runFile s file analyze)
  | .check target => onPath s target false (check s target)
  | .tokens file => onPath s file true (listTokens s file)
  | .view file types => onPath s file true (view s file types)
  | .format target checkOnly => onPath s target false (format s target checkOnly)
  | .formatInput checkOnly => formatInput s checkOnly
  | .highlight file => onPath s file true (highlightFile s file)
  | .create name => create s name

/-- How a command line ends and what it leaves behind. There is a transcript also
where the command breaks down: what was said before has been said. -/
structure Outcome where
  ending : Ending
  transcript : Transcript
deriving Repr

/-- The outcome of a command that begins with nothing said. A command that comes to
its last line has succeeded. -/
def outcomeOf (command : Command Unit) : Outcome :=
  match command.run {} with
  | .ok _ transcript => ⟨.exit 0, transcript⟩
  | .error ending transcript => ⟨ending, transcript⟩

/-- The outcome of a command line: of its task, or of the complaint about a line
that asks for none. -/
def run (s : Surroundings) (arguments : List String) : Outcome :=
  match Invocation.ofArguments arguments with
  | .ok invocation => outcomeOf (perform { s with verbose := invocation.verbose } invocation.task)
  | .error e => outcomeOf (refuse s e.message)

/-- The exit status of an ending; a breakdown has that of a failure. -/
def Ending.status : Ending → Nat
  | .exit status => status
  | .breakdown _ => 1

end PlcLang.CommandLine
