import PlcLang.Text.Alphabet

/-!
# `PlcLang.Text.Lines`: cutting text into lines

Three notions of a line are in use. `splitOnNewline` knows the newline
alone and counts the empty line after a last one; positions in a source
are counted with it. `lines` breaks at every line boundary of Unicode and
has no empty last line; indenting and word lookup use it.
`unifyNewlines` is what reading a text file does to its line ends.
-/

set_option autoImplicit false

namespace PlcLang.Text

/-- Whether a character ends a line by itself. The carriage return does,
but together with a newline behind it. -/
def isLineBreak (c : Char) : Bool :=
  c == '\n' || c == '\r' || c == '\x0b' || c == '\x0c' || c == '\x1c' || c == '\x1d'
    || c == '\x1e' || c == '\x85' || c == '\u2028' || c == '\u2029'

/-- The lines of a text, each with the characters that end it. The second
argument is the line read so far, last character first. -/
def cutLines : List Char → List Char → List (List Char)
  | [], [] => []
  | [], line => [line.reverse]
  | '\r' :: '\n' :: rest, line => ('\n' :: '\r' :: line).reverse :: cutLines rest []
  | c :: rest, line =>
    if isLineBreak c then (c :: line).reverse :: cutLines rest []
    else cutLines rest (c :: line)

/-- The lines of `text`, each with the characters that end it. Put together they are
the text. -/
def linesWithEnds (text : String) : List String :=
  (cutLines text.toList []).map String.ofList

/-- The lines of `text` without the characters that end them. A text that ends with
a line break has no empty line behind it, and the empty text has no line at all. -/
def lines (text : String) : List String :=
  (cutLines text.toList []).map fun line => String.ofList (line.takeWhile (!isLineBreak ·))

/-- The pieces between the places where a character stands; one more than
there are such places. -/
def splitOnChar (mark : Char) : List Char → List (List Char)
  | [] => [[]]
  | c :: rest =>
    if c = mark then [] :: splitOnChar mark rest
    else
      match splitOnChar mark rest with
      | [] => [[c]]
      | piece :: more => (c :: piece) :: more

/-- The pieces between newlines, one more than there are newlines. -/
def splitOnNewline (text : List Char) : List (List Char) :=
  splitOnChar '\n' text

/-- Every line end, be it `\r\n`, `\r` or `\n`, as a newline. Other line breaks stay
what they are. -/
def unifyNewlines : List Char → List Char
  | [] => []
  | '\r' :: '\n' :: rest => '\n' :: unifyNewlines rest
  | '\r' :: rest => '\n' :: unifyNewlines rest
  | c :: rest => c :: unifyNewlines rest

/-- The lines of `text` with four spaces per level before each line that
is not empty, joined by newlines. -/
def indent (text : String) (levels : Nat) : String :=
  let margin := String.ofList (List.replicate (4 * levels) ' ')
  "\n".intercalate ((lines text).map fun line => if line.isEmpty then line else margin ++ line)

end PlcLang.Text
