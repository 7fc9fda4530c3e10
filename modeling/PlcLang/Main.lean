import PlcLang.CommandLine

/-!
# `PlcLang.Main`: the program `plc`

Commands work on a tree of files that does not change under them. The
program takes from the disk the part of it that a command line leads to,
performs the command line on it, and then prints and writes what the
command leaves behind.
-/

set_option autoImplicit false

namespace PlcLang.Program

open PlcLang.CommandLine

/-- How deep the program looks for files. A tree of directories may have a loop in
it through a link. -/
def searchDepth : Nat :=
  100

/-- What stands at a place of the disk, if anything does. What cannot be read counts
as nothing. -/
def entryOnDisk? (place : Location) : IO (Option FileEntry) := do
  try
    let path ← IO.FS.realPath (Location.text place)
    if ← path.isDir then pure (some .directory)
    else pure (some (.file (← IO.FS.readBinFile path)))
  catch _ => pure none

/-- What stands at a place, as an entry of a tree. -/
def entriesAt (place : Location) : IO (List (Location × FileEntry)) := do
  pure ((← entryOnDisk? place).map (place, ·)).toList

/-- The programs and directories below a place, down to a depth. Other files are
left on the disk. -/
def entriesBelow : Nat → Location → IO (List (Location × FileEntry))
  | 0, _ => pure []
  | depth + 1, place => do
    match ← entryOnDisk? place with
    | some .directory =>
      let directory ← IO.FS.realPath (Location.text place)
      let found ← (← directory.readDir).toList.mapM fun item => do
        let next := place ++ [item.fileName]
        if ← item.path.isDir then
          pure ((next, FileEntry.directory) :: (← entriesBelow depth next))
        else if item.fileName.endsWith programEnding then entriesAt next
        else pure []
      pure found.flatten
    | _ => pure []

/-- The path that a task is about. Where there is none, nothing is read from the
disk. -/
def pathOf : Task → Option Path
  | .version | .formatInput _ => none
  | .run path _ | .check path | .tokens path | .view path _ | .format path _ | .highlight path =>
    some path
  | .create name => some (Path.ofText name)

/-- The part of the disk that a path leads to: what stands on the way, what
is below its end, and the settings of the directories around. -/
def treeFor (workingDirectory : Location) (path : Path) : IO FileTree := do
  let bare : FileTree := ⟨workingDirectory, .empty⟩
  let begin := bare.origin path
  let stops := path.names.foldl (fun stops name => stops ++ [(stops.getLastD begin).follow name]) []
  let place := bare.resolve path
  let settings := (Location.upwards place).map (· ++ [Settings.fileName])
  let around ← (stops ++ settings).mapM entriesAt
  pure ⟨workingDirectory, .ofList (around.flatten ++ (← entriesBelow searchDepth place))⟩

/-- The surroundings of a command line. The standard input is read to its end only
by the task that asks for it. -/
def surroundingsFor (arguments : List String) : IO Surroundings := do
  let workingDirectory := (Path.ofText (← IO.currentDir).toString).names
  let output ← IO.getStdout
  let errors ← IO.getStderr
  let bare : Surroundings :=
    { tree := ⟨workingDirectory, .empty⟩
      terminalOutput := ← output.isTty
      terminalErrors := ← errors.isTty }
  match Invocation.ofArguments arguments with
  | .error _ => pure bare
  | .ok invocation =>
    match invocation.task with
    | .formatInput _ => pure { bare with input := ← (← IO.getStdin).readBinToEnd }
    | task =>
      match pathOf task with
      | some path => pure { bare with tree := ← treeFor workingDirectory path }
      | none => pure bare

/-- What a breakdown says where nothing else can be said. None of this is a wording
that anything relies on. -/
def breakdownMessage : Breakdown → String
  | .file .missing => "no such file"
  | .file .notDirectory => "not a directory"
  | .file .isDirectory => "is a directory"
  | .file .notText => "not a text in UTF-8"
  | .settings (.unreadable _) => "the settings cannot be read"
  | .settings .malformed => "the settings are malformed"
  | .settings (.noTable name) => "the settings have no table '" ++ name ++ "'"
  | .limitNotNumber => "the recursion limit is not a number"
  | .limitOutOfRange => "the recursion limit is out of range"
  | .limitNotPositive => "the recursion limit is not positive"
  | .limitTooLow => "the recursion limit is too low"
  | .number .zeroDivisor => "a number is divided by zero"
  | .number .overflow => "a number is too large"
  | .number (.tooManyDigits _) => "a number has too many digits to be written out"

/-- Puts a text into a file and makes the directories that it needs. -/
def carryOut (file : FileWrite) : IO Unit := do
  IO.FS.createDirAll (Location.text file.place.dropLast)
  IO.FS.writeFile (Location.text file.place) file.text

end PlcLang.Program

/-- Performs a command line on the files it leads to. Files are written before
anything is said about them. -/
def main (arguments : List String) : IO UInt32 := do
  let surroundings ← PlcLang.Program.surroundingsFor arguments
  let outcome := PlcLang.CommandLine.run surroundings arguments
  outcome.transcript.written.forM PlcLang.Program.carryOut
  IO.print outcome.transcript.output
  IO.eprint outcome.transcript.errors
  match outcome.ending with
  | .breakdown cause => IO.eprintln ("error: " ++ PlcLang.Program.breakdownMessage cause)
  | .exit _ => pure ()
  pure outcome.ending.status.toUInt32
