import PlcLang.Source

/-!
# `PlcLang.Diagnostic`: messages that show the place

A diagnostic is a message with labels, each of which points at a place in
a text. Rendered, a label shows the line that its span begins on, with
carets under the part of the span that is on this line. Where there is no
text to show the label only names its place.
-/

set_option autoImplicit false

namespace PlcLang

/-- How grave a diagnostic is. The stages of the language only ever report errors;
the others are for whoever makes a diagnostic by hand. -/
inductive Severity where
  | error
  | warning
  | note
deriving DecidableEq, Repr

/-- A place that a diagnostic points at, and what to say about it. The message may
be empty, and has no line then. -/
structure Label where
  span : Span
  message : String
deriving DecidableEq, Repr

/-- A message about a program: a code to look it up by, the wording, the places it
is about, and notes that are about no place. -/
structure Diagnostic where
  severity : Severity
  code : String
  message : String
  labels : List Label
  notes : List String
deriving DecidableEq, Repr

namespace Severity

/-- The word for the severity. -/
def name : Severity → String
  | error => "error"
  | warning => "warning"
  | note => "note"

/-- The terminal's code for the severity's colour, in bold. -/
def colour : Severity → String
  | error => "\x1b[1;31m"
  | warning => "\x1b[1;33m"
  | note => "\x1b[1;36m"

end Severity

/-- `text` between a terminal's code and the code that ends it, or as it is where
colours are off. Nothing is painted around: what is in the text already stays in it. -/
def paint (coloured : Bool) (code text : String) : String :=
  if coloured then code ++ text ++ "\x1b[0m" else text

namespace Label

/-- How many carets a label has: up to the end of its span or of the line,
and at least one. -/
def caretCount (source : Source) (span : Span) : Nat :=
  let start := source.position span.start
  -- The last character of the span, since the end itself may stand in the next line.
  let last := source.position (max span.start (span.stop - 1))
  let column :=
    if last.line = start.line then last.column
    else max start.column (source.lineAt start.line).length
  max 1 (column + 1 - start.column)

/-- A number right-aligned to four places. One with more digits is as long as it is,
and sets its line off from the lines around it, whose margins stay five wide. -/
def lineNumber (number : Nat) : String :=
  let digits := toString number
  "".pushn ' ' (4 - digits.length) ++ digits

/-- The line of carets without its margin. They go on in the colour of the severity
where there are colours. -/
def carets (source : Source) (span : Span) : String :=
  "".pushn '^' (caretCount source span)

/-- The lines of a label, given the text that it points into. -/
def render (coloured : Bool) (severity : Severity) (source? : Option Source) (label : Label) :
    List String :=
  let margin (text : String) := "  " ++ paint coloured "\x1b[1;34m" text
  match source? with
  | none => [margin "-->" ++ " " ++ label.span.text]
  | some source =>
    let start := source.position label.span.start
    let place :=
      label.span.file ++ ":" ++ toString start.line ++ ":" ++ toString start.column
    let line := source.lineAt start.line
    let padding := "".pushn ' ' (start.column - 1)
    let carets := paint coloured severity.colour (carets source label.span)
    let message :=
      if label.message.isEmpty then []
      else [margin "     |" ++ "   " ++ paint coloured severity.colour label.message]
    [margin "-->" ++ " " ++ place,
      margin "     |",
      margin (lineNumber start.line ++ " |") ++ " " ++ line,
      margin "     |" ++ " " ++ padding ++ carets] ++ message

end Label

namespace Diagnostic

/-- The first line: severity, code and message. It is there whether the diagnostic
has labels or not. -/
def header (coloured : Bool) (d : Diagnostic) : String :=
  paint coloured d.severity.colour (d.severity.name ++ "[" ++ d.code ++ "]")
    ++ paint coloured "\x1b[1m" (": " ++ d.message)

/-- The line of a note. Notes come after all labels, and are set off like them. -/
def renderNote (coloured : Bool) (note : String) : String :=
  "  " ++ paint coloured "\x1b[1;34m" "=" ++ " note: " ++ note

/-- The lines of a diagnostic, given the texts that its labels may point
into, joined by newlines. -/
def render (coloured : Bool) (sources : String → Option Source) (d : Diagnostic) : String :=
  let labels := d.labels.flatMap fun label =>
    label.render coloured d.severity (sources label.span.file)
  "\n".intercalate (d.header coloured :: labels ++ d.notes.map (renderNote coloured))

end Diagnostic

end PlcLang
