import PlcLang.Text.Lines

/-!
# `PlcLang.Source`: places in a text

A place is an offset, counted in characters; people count lines and
columns from one. Lines end at newlines only, and a text that ends with a
newline has an empty last line, so every offset up to the end of the text
has a position of its own. Offsets outside the text count as its nearest
end.
-/

set_option autoImplicit false

namespace PlcLang

/-- A text with the name it goes by in messages. The name is not looked at
otherwise. -/
structure Source where
  name : String
  content : String
deriving Repr, DecidableEq

/-- A line and a column, both counted from one. -/
structure Position where
  line : Nat
  column : Nat
deriving Repr, DecidableEq

/-- A range of offsets in a named text, its end left out. It may reach beyond the
text: a place at the end of it is one character long. -/
structure Span where
  file : String
  start : Int
  stop : Int
deriving Repr, DecidableEq

/-- The span's name for a reader without the text, who can do no more with it than
count. -/
def Span.text (span : Span) : String :=
  span.file ++ "@" ++ toString span.start

namespace Source

/-- The characters of the text. Offsets count these. -/
def chars (source : Source) : List Char :=
  source.content.toList

/-- The offset in the text that is nearest to a number. The end of the text is an
offset of it. -/
def clamp (source : Source) (offset : Int) : Nat :=
  min offset.toNat source.chars.length

/-- The position behind some characters at the beginning of a text: newlines before
it make the line, and what comes behind the last of them the column. -/
def positionAfter (before : List Char) : Position where
  line := before.count '\n' + 1
  column := (before.reverse.takeWhile (· != '\n')).length + 1

/-- The position of an offset. One outside the text has that of the nearest end. -/
def position (source : Source) (offset : Int) : Position :=
  positionAfter (source.chars.take (source.clamp offset))

/-- The lines of the text, without the newlines between them. There is always one. -/
def lines (source : Source) : List String :=
  (Text.splitOnNewline source.chars).map String.ofList

/-- The line of a number, or nothing if there is no such line. -/
def lineAt (source : Source) (number : Int) : String :=
  if number ≤ 0 then "" else (source.lines[(number - 1).toNat]?).getD ""

/-- The offset that a bound of a slice means: a negative one counts from
the end of the text. -/
def sliceBound (source : Source) (bound : Int) : Nat :=
  source.clamp (if bound < 0 then bound + source.chars.length else bound)

/-- The text between two bounds; none if they are in the wrong order. -/
def slice (source : Source) (start stop : Int) : String :=
  let first := source.sliceBound start
  String.ofList ((source.chars.take (source.sliceBound stop)).drop first)

end Source

end PlcLang
