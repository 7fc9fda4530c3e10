import PlcLang.Bindings
import PlcLang.Text.Lines

/-!
# `PlcLang.Files`: a tree of files, and paths into it

The tools see files as data: a tree from which they read, and the texts
that they want written. A *location* is a place in the tree; a *path* is
what people write for one, from the root or from the working directory.

Every location on the way to an entry or to the working directory is a
directory, whether or not the tree lists it.
-/

set_option autoImplicit false

namespace PlcLang

/-- A place in a tree of files: the names on the way to it from the root. There are
no links, so a place has one way. -/
abbrev Location := List String

namespace Location

/-- The place that a name leads to. Two dots lead to the directory above,
and the root is above itself. -/
def follow (place : Location) (name : String) : Location :=
  if name = ".." then place.dropLast else place ++ [name]

/-- How the place is written. The root is a single slash. -/
def text (place : Location) : String :=
  "/" ++ "/".intercalate place

/-- The beginnings of a way, the shortest first, but the empty one. The last is the
way itself. -/
def beginnings : List String → List (List String)
  | [] => []
  | name :: rest => [name] :: (beginnings rest).map (name :: ·)

/-- The place and those above it, the root last. This is the order in which settings
are looked for. -/
def upwards (place : Location) : List Location :=
  (beginnings place).reverse ++ [[]]

end Location

/-- A way to a place: names to follow, from the root or from the working
directory. -/
structure Path where
  fromRoot : Bool
  names : List String
deriving DecidableEq, Repr

namespace Path

/-- The path that a text means. Empty names and single dots lead nowhere. -/
def ofText (text : String) : Path :=
  let names := (Text.splitOnChar '/' text.toList).map String.ofList
  ⟨text.toList.head? == some '/', names.filter fun name => !name.isEmpty && name != "."⟩

/-- How the path is written. The working directory is a dot; otherwise the names are
as they were read, without the dots and slashes that lead nowhere. -/
def text (path : Path) : String :=
  if path.fromRoot then Location.text path.names
  else if path.names.isEmpty then "."
  else "/".intercalate path.names

/-- The path that goes on from this one, by the names of an entry found below it. -/
def extend (path : Path) (names : List String) : Path :=
  { path with names := path.names ++ names }

end Path

/-- What stands at a place. Links, devices and rights are none of it. -/
inductive FileEntry where
  | file (bytes : ByteArray)
  | directory

/-- Why a file cannot be read. Which of these it is depends on the first step that
fails. -/
inductive FileError where
  | missing
  | notDirectory
  | isDirectory
  | notText
deriving DecidableEq, Repr

/-- The text that bytes hold, if they hold one, in the usual encoding. Line ends are
what they are. -/
def exactTextOfBytes (bytes : ByteArray) : Except FileError String :=
  match String.fromUTF8? bytes with
  | some text => .ok text
  | none => .error .notText

/-- What was written as a text is read as this text. -/
theorem exactTextOfBytes_toUTF8 (text : String) : exactTextOfBytes text.toUTF8 = .ok text := by
  have hdecoded : String.fromUTF8? text.toUTF8 = some text := dif_pos text.isValidUTF8
  rw [exactTextOfBytes, hdecoded]

/-- The text that bytes hold, every line end in it a newline. So the stages never
see a carriage return that ended a line. -/
def textOfBytes (bytes : ByteArray) : Except FileError String :=
  (exactTextOfBytes bytes).map fun text => String.ofList (Text.unifyNewlines text.toList)

/-- What was written as a text is read with newlines for its line ends. A text
without carriage returns is read as it is. -/
theorem textOfBytes_toUTF8 (text : String) :
    textOfBytes text.toUTF8 = .ok (String.ofList (Text.unifyNewlines text.toList)) := by
  rw [textOfBytes, exactTextOfBytes_toUTF8]
  rfl

/-- A tree of files, and where one stands in it. Directories need not be listed:
those on the way to an entry are known by it. -/
structure FileTree where
  workingDirectory : Location
  entries : Bindings Location FileEntry

/-- A text to be put into a file, in place of what is there. -/
structure FileWrite where
  place : Location
  text : String
deriving DecidableEq, Repr

namespace FileTree

/-- What stands at a place, if anything does. -/
def entry? (tree : FileTree) (place : Location) : Option FileEntry :=
  match tree.entries.get? place with
  | some entry => some entry
  | none =>
    let leadsOn := place.isPrefixOf tree.workingDirectory
      || tree.entries.entries.any fun entry => place.isPrefixOf entry.1
    if leadsOn then some .directory else none

/-- Whether a place is a directory, listed or not. -/
def isDirectory (tree : FileTree) (place : Location) : Bool :=
  match tree.entry? place with
  | some .directory => true
  | _ => false

/-- Whether a place is a file. Files are always listed. -/
def isFile (tree : FileTree) (place : Location) : Bool :=
  match tree.entry? place with
  | some (.file _) => true
  | _ => false

/-! ### Following paths -/

/-- Where a path begins: at the root or at the working directory. -/
def origin (tree : FileTree) (path : Path) : Location :=
  if path.fromRoot then [] else tree.workingDirectory

/-- The place that a path means by its names alone, whatever stands on the
way. -/
def resolve (tree : FileTree) (path : Path) : Location :=
  path.names.foldl Location.follow (tree.origin path)

/-- One step on the way to a file: from a directory to a name in it. Whether there
is such a name shows at the next step, or at the end. -/
def step (tree : FileTree) (place : Location) (name : String) : Except FileError Location :=
  match tree.entry? place with
  | some .directory => .ok (place.follow name)
  | some (.file _) => .error .notDirectory
  | none => .error .missing

/-- The place that a path leads to, every step made from a directory. -/
def locate (tree : FileTree) (path : Path) : Except FileError Location :=
  path.names.foldlM tree.step (tree.origin path)

/-- What stands where a path leads to, or why nothing does. -/
def lookup (tree : FileTree) (path : Path) : Except FileError FileEntry := do
  match tree.entry? (← tree.locate path) with
  | some entry => pure entry
  | none => throw .missing

/-- Whether a path leads to something. A way through a file leads nowhere. -/
def reaches (tree : FileTree) (path : Path) : Bool :=
  (tree.lookup path).toBool

/-- Whether a path leads to a directory. -/
def reachesDirectory (tree : FileTree) (path : Path) : Bool :=
  match tree.lookup path with
  | .ok .directory => true
  | _ => false

/-! ### Reading -/

/-- The contents of a file. A directory has none. -/
def readBytes (tree : FileTree) (path : Path) : Except FileError ByteArray := do
  match ← tree.lookup path with
  | .directory => throw .isDirectory
  | .file bytes => pure bytes

/-- The text in a file, as it was written. Settings are read so, since their own
rules say what ends a line. -/
def readExactly (tree : FileTree) (path : Path) : Except FileError String :=
  tree.readBytes path >>= exactTextOfBytes

/-- The text in a file, every line end in it a newline. Programs are read so. -/
def readText (tree : FileTree) (path : Path) : Except FileError String :=
  tree.readBytes path >>= textOfBytes

/-! ### Making directories -/

/-- The place that a path leads to when the directories missing on the way
are made; no file may stand in it. -/
def makeWay (tree : FileTree) (path : Path) : Except FileError Location :=
  let advance (place : Location) (name : String) : Except FileError Location :=
    if tree.isFile place then .error .notDirectory else .ok (place.follow name)
  path.names.foldlM advance (tree.origin path)

/-- The path with the working directory in front, its names as they are: two dots
are still two dots. -/
def fullPath (tree : FileTree) (path : Path) : Path :=
  if path.fromRoot then path else ⟨true, tree.workingDirectory ++ path.names⟩

/-! ### Searching -/

/-- The names that lead from a place to an entry below it and to the
directories between. -/
def waysBelow (place : Location) (entry : Location) : List (List String) :=
  if place.isPrefixOf entry then Location.beginnings (entry.drop place.length) else []

/-- The order of ways: name by name, a way before those that go on from it. -/
def wayLe (a b : List String) : Bool :=
  !decide (b < a)

/-- All ways on from a place, in order, each once. -/
def below (tree : FileTree) (place : Location) : List (List String) :=
  let ways := tree.entries.entries.flatMap fun entry => waysBelow place entry.1
  ways.eraseDups.mergeSort wayLe

/-- The paths below a directory whose last name ends so, in order; a path
that leads to no directory is the only one of its kind. -/
def search (tree : FileTree) (path : Path) (ending : String) : List Path :=
  match tree.reachesDirectory path, tree.locate path with
  | true, .ok place =>
    ((tree.below place).filter fun way => (way.getLast?.getD "").endsWith ending).map path.extend
  | _, _ => [path]

end FileTree

end PlcLang
