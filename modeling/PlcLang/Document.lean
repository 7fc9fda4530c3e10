import PlcLang.Session
import PlcLang.Syntax.Printer

/-!
# `PlcLang.Document`: texts open in an editor

What an editor asks about a text is answered from a document: the text
with everything that is known of it. A document is made from its text
alone and holds no history. Editors count lines and characters from zero.
-/

set_option autoImplicit false

namespace PlcLang

/-- A line and a character, both counted from zero. Characters are counted whole,
however an editor encodes them. -/
structure EditorPosition where
  line : Nat
  character : Nat
deriving DecidableEq, Repr

/-- A range in an editor, its end left out. -/
structure EditorRange where
  start : EditorPosition
  stop : EditorPosition
deriving DecidableEq, Repr

namespace Source

/-- The position of an offset, as editors count. Lines are those that newlines make. -/
def editorPosition (source : Source) (offset : Int) : EditorPosition :=
  let position := source.position offset
  ⟨position.line - 1, position.column - 1⟩

/-- The range between two offsets; an end before the start counts as the
start. -/
def editorRange (source : Source) (start stop : Int) : EditorRange :=
  ⟨source.editorPosition start, source.editorPosition (max start stop)⟩

end Source

/-- A problem that an editor shows. All of them are errors. -/
structure EditorDiagnostic where
  range : EditorRange
  code : String
  message : String
deriving DecidableEq, Repr

/-- What a completion stands for, so that an editor can set it off by a sign of its
own. -/
inductive CompletionKind where
  | keyword
  | variable
  | function
  | type
deriving DecidableEq, Repr

/-- A word that an editor offers, with a line about it if there is something to say:
a type or a signature. -/
structure Completion where
  label : String
  kind : CompletionKind
  detail : Option String
deriving DecidableEq, Repr

/-- An entry of a document's outline: a field or a method. A field shows the type
that was written, a method its parameters. -/
structure OutlineEntry where
  name : String
  isMethod : Bool
  range : EditorRange
  detail : Option String
deriving DecidableEq, Repr

/-- A range to be replaced by a text. What is outside the range stays. -/
structure TextEdit where
  range : EditorRange
  newText : String
deriving DecidableEq, Repr

/-- A text with what is known of it: its tokens if it has any, its tree if
it has one, the symbols of the program's scope as far as they could be
found, and the first problem. -/
structure Document where
  text : String
  tokens : List Token
  tree : Option (Program Offset)
  symbols : Option Symbols
  failure : Option Failure

namespace Document

/-- The document of a text. The stages go on as long as there is no problem, and
whatever they have found by then is kept. -/
def ofText (text : String) : Document :=
  match tokenize text with
  | .error e => ⟨text, [], none, none, some e.failure⟩
  | .ok tokens =>
    match parse tokens with
    | .error e => ⟨text, tokens, none, none, some e.failure⟩
    | .ok program =>
      match Checker.plain.program .builtin program Checker.initialSymbols with
      | .ok _ symbols => ⟨text, tokens, some program, some symbols, none⟩
      -- A rejected program still has its symbols, as far as the checker came: completion and
      -- hovering go on working while there is a problem.
      | .error e symbols => ⟨text, tokens, some program, some symbols, some e.failure⟩

/-- The text for looking up places. It needs no name here. -/
def source (document : Document) : Source :=
  ⟨"", document.text⟩

/-- The problems of the document, at most one. A problem that has no place is shown
at the beginning of the text, since an editor shows none without. -/
def diagnostics (document : Document) : List EditorDiagnostic :=
  match document.failure with
  | none => []
  | some failure =>
    let range :=
      match failure.range? with
      | some (start, stop) => document.source.editorRange start stop
      | none => ⟨⟨0, 0⟩, ⟨0, 0⟩⟩
    [⟨range, failure.code, "[" ++ failure.code ++ "] " ++ failure.message⟩]

/-! ### Hovering -/

/-- A character of a word under the cursor. Hyphens are among them, so what is
around the cursor may be more than a name: `y-x` is one word here. -/
def isWordPart (c : Char) : Bool :=
  Text.isAlphanumeric c || c == '_' || c == '-'

/-- The word around a place in a line: what comes before it and what goes
on from it. -/
def wordAround (line : List Char) (place : Nat) : String :=
  let before := ((line.take place).reverse.takeWhile isWordPart).reverse
  String.ofList (before ++ (line.drop place).takeWhile isWordPart)

/-- The word at a position. A position just behind the end of the line
counts as the one before it; anywhere else outside there is no word. -/
def wordAt (text : String) (line character : Int) : String :=
  if line < 0 then ""
  else
    match (Text.lines text)[line.toNat]? with
    | none => ""
    | some found =>
      let chars := found.toList
      if 0 ≤ character ∧ character < chars.length then wordAround chars character.toNat
      -- An editor's cursor stands between characters; behind the last one it still touches the
      -- word there.
      else if 0 < character ∧ character ≤ chars.length then
        wordAround chars (character.toNat - 1)
      else ""

/-- A heading in bold and a piece of code, in the markup that editors show. -/
def described (heading code : String) : String :=
  "**" ++ heading ++ "** " ++ String.ofList ['\x60'] ++ code ++ String.ofList ['\x60']

/-- What a name of the program's scope or a type is. A field comes before methods of
the same name, and these before a type; of methods all arities are shown. -/
def describe? (symbols : Symbols) (word : String) : Option String :=
  match symbols.boundVariable? Arena.root word with
  | some symbol => some (described "field" (symbol.name ++ ": " ++ symbol.type.name))
  | none =>
    match symbols.allFunctions.filter (·.name == word) with
    | [] => (TypeTable.builtin.resolve? word).map fun type => described "type" type.name
    | functions =>
      some ("\n\n".intercalate (functions.map fun symbol => described "method" symbol.signature))

/-- What to show about the word at a position. Without symbols nothing is shown, and
they are there as soon as the text has a tree. -/
def hover? (document : Document) (line character : Int) : Option String := do
  let symbols ← document.symbols
  let word := wordAt document.text line character
  if word.isEmpty then none else describe? symbols word

/-! ### Completion -/

/-- The keywords, in order. They are offered everywhere, also where none of them can
stand. -/
def keywordCompletions : List Completion :=
  (keywords.mergeSort nameLe).map (⟨·, .keyword, none⟩)

/-- Names of the program's scope and of types. Local variables are not among them. -/
def symbolCompletions (symbols : Symbols) : List Completion :=
  symbols.allVariables.map (fun symbol => ⟨symbol.name, .variable, some symbol.type.name⟩)
    ++ symbols.allFunctions.map (fun symbol => ⟨symbol.name, .function, some symbol.signature⟩)
    ++ TypeTable.builtin.names.map (⟨·, .type, none⟩)

/-- The first of all completions with one label. A method of several arities is
offered once, and a field comes before a method of its name. -/
def firstOfLabel : List String → List Completion → List Completion
  | _, [] => []
  | seen, item :: rest =>
    if seen.contains item.label then firstOfLabel seen rest
    else item :: firstOfLabel (item.label :: seen) rest

/-- The words to offer, with or without a document. Of a text that does not parse
only the keywords are known. -/
def completions (document? : Option Document) : List Completion :=
  let symbols := (document?.bind (·.symbols)).elim [] symbolCompletions
  firstOfLabel [] (keywordCompletions ++ symbols)

/-! ### Outline and formatting -/

/-- The fields and methods of the document, each at its first word: both begin with
a word of three letters. -/
def outline (document : Document) : List OutlineEntry :=
  match document.tree with
  | none => []
  | some program =>
    let range (offset : Offset) := document.source.editorRange offset (offset + 3)
    program.fields.map (fun field =>
        ⟨field.declaration.name, false, range field.mark, field.declaration.typeName⟩)
      ++ program.methods.map (fun method =>
        ⟨method.name, true, range method.mark, some ("(" ++ method.parameterText ++ ")")⟩)

/-- The edit that puts the document into canonical form: none at all where
there is no tree or nothing to change. Its range begins with the text and
goes as far behind it as an editor will go along. -/
def formatEdit? (document : Document) : Option TextEdit := do
  let program ← document.tree
  let formatted := program.format
  if formatted = document.text then none
  else
    let lines := Text.lines document.text
    let last := (lines.getLast?.getD "").length
    some ⟨⟨⟨0, 0⟩, ⟨lines.length, last⟩⟩, formatted⟩

end Document

/-- What an editor reports about its documents. A change comes with the
texts that the document had, one after the other, since the last report. -/
inductive EditorEvent where
  | opened (name text : String)
  | changed (name : String) (texts : List String)
  | closed (name : String)
deriving DecidableEq, Repr

/-- The document that the event is about. -/
def EditorEvent.name : EditorEvent → String
  | opened name _ | changed name _ | closed name => name

/-- The documents that are open, by name. A document that was closed leaves nothing
behind. -/
structure Workspace where
  documents : Bindings String Document := .empty

namespace Workspace

/-- Opens a document or replaces its text. All that was known of the old text goes
with it. -/
def put (workspace : Workspace) (name text : String) : Workspace :=
  ⟨workspace.documents.set name (.ofText text)⟩

/-- Replaces the text of a document by the last of some texts, or by the
empty text if there are none. -/
def change (workspace : Workspace) (name : String) (texts : List String) : Workspace :=
  workspace.put name (texts.getLast?.getD "")

/-- Closes a document. One that is not open may be closed, too. -/
def close (workspace : Workspace) (name : String) : Workspace :=
  ⟨workspace.documents.erase name⟩

/-- The document of that name, if it is open. -/
def document? (workspace : Workspace) (name : String) : Option Document :=
  workspace.documents.get? name

/-- The names of the open documents, in order. -/
def names (workspace : Workspace) : List String :=
  (workspace.documents.sortedBy nameLe).map (·.1)

/-! ### Events -/

/-- The workspace after an event. Only the document that it is about is another one. -/
def handle (workspace : Workspace) : EditorEvent → Workspace
  | .opened name text => workspace.put name text
  | .changed name texts => workspace.change name texts
  | .closed name => workspace.close name

/-- The workspace after a history of events, the first of which met an empty one. -/
def after (events : List EditorEvent) : Workspace :=
  events.foldl handle {}

/-! ### Answers -/

/-- What to show at a position of a document: nothing if it is not open. -/
def hover? (workspace : Workspace) (name : String) (line character : Int) : Option String :=
  (workspace.document? name).bind (·.hover? line character)

/-- The words to offer in a document. A name that is not open is offered the
keywords. -/
def completions (workspace : Workspace) (name : String) : List Completion :=
  Document.completions (workspace.document? name)

/-- The outline of a document: empty if it is not open. -/
def outline (workspace : Workspace) (name : String) : List OutlineEntry :=
  (workspace.document? name).elim [] Document.outline

/-- The edit that puts a document into canonical form, if it is open and there is
anything to edit. -/
def formatEdit? (workspace : Workspace) (name : String) : Option TextEdit :=
  (workspace.document? name).bind Document.formatEdit?

end Workspace

end PlcLang
