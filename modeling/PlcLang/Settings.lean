import PlcLang.Files
import PlcLang.Toml.Reader

/-!
# `PlcLang.Settings`: what a project asks of the tools

A project keeps its settings in a file of a fixed name in its directory.
They hold for every path in this directory and below, as far as no other
such file is nearer. What a file leaves unsaid has a default.

Values are kept as the file has them: whoever uses one decides what it
means.
-/

set_option autoImplicit false

namespace PlcLang

/-- What the project is. No tool makes any use of it; it is for people and for what
a new project is made with. -/
structure PackageSettings where
  name : Toml := .string "untitled"
  version : Toml := .string "0.0.0"
  authors : Toml := .array []
  license : Toml := .string ""

/-- How programs are run: whether they are checked before, and how deeply they may
nest. -/
structure RunSettings where
  analyze : Toml := .boolean true
  recursionLimit : Toml := .integer 10000

/-- How diagnostics are shown. -/
structure DiagnosticsSettings where
  color : Toml := .boolean true

/-- The settings of a project, every one of them with a default. Without a settings
file these are the settings. -/
structure Settings where
  package : PackageSettings := {}
  run : RunSettings := {}
  diagnostics : DiagnosticsSettings := {}

/-- Why there are no settings to be had. Settings that are there and cannot be read
are never passed over for the defaults. -/
inductive SettingsError where
  | unreadable (cause : FileError)
  | malformed
  | noTable (name : String)
deriving DecidableEq, Repr

namespace Settings

/-- The name of a settings file. A directory of this name is found, too, and is one
that cannot be read. -/
def fileName : String :=
  "plc.toml"

/-- The message of a search that found nothing. -/
def notFoundMessage : String :=
  "No " ++ fileName ++ " found in any parent directory"

/-- The table of a section; one that is not there is empty. A section that is
something else makes the whole file unusable. -/
def sectionOf (root : Toml.Table) (name : String) : Except SettingsError Toml.Table :=
  match root.get? name with
  | none => .ok .empty
  | some (.table entries) => .ok entries
  | some _ => .error (.noTable name)

/-- The settings that a table says. Keys that nothing here knows are passed over. -/
def ofTable (root : Toml.Table) : Except SettingsError Settings := do
  let package ← sectionOf root "package"
  let run ← sectionOf root "run"
  let diagnostics ← sectionOf root "diagnostics"
  let defaults : Settings := {}
  pure
    { package :=
        { name := (package.get? "name").getD defaults.package.name
          version := (package.get? "version").getD defaults.package.version
          authors := (package.get? "authors").getD defaults.package.authors
          license := (package.get? "license").getD defaults.package.license }
      run :=
        { analyze := (run.get? "analyze").getD defaults.run.analyze
          recursionLimit := (run.get? "recursion_limit").getD defaults.run.recursionLimit }
      diagnostics :=
        { color := (diagnostics.get? "color").getD defaults.diagnostics.color } }

/-- The settings that a text says. -/
def read (text : String) : Except SettingsError Settings :=
  match Toml.Table.read? text with
  | some root => ofTable root
  | none => .error .malformed

end Settings

namespace FileTree

/-- The settings in a file. They are read as they were written, since line ends are
for their own rules to judge. -/
def settingsIn (tree : FileTree) (path : Path) : Except SettingsError Settings :=
  match tree.readExactly path with
  | .ok text => Settings.read text
  | .error cause => .error (.unreadable cause)

/-- The settings file that holds for a path: the nearest, looking in the
directory of the path and then upwards. -/
def settingsFile? (tree : FileTree) (path : Path) : Option Location :=
  let place := tree.resolve path
  let start := if tree.isFile place then place.dropLast else place
  ((Location.upwards start).map (· ++ [Settings.fileName])).find? fun place =>
    (tree.entry? place).isSome

/-- The settings that hold for a path. If no directory on the way up has a file, the
defaults hold. -/
def settingsFor (tree : FileTree) (path : Path) : Except SettingsError Settings :=
  match tree.settingsFile? path with
  | some place => tree.settingsIn ⟨true, place⟩
  | none => .ok {}

end FileTree

end PlcLang
