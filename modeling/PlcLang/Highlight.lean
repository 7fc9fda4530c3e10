import PlcLang.Text.Escape
import PlcLang.Text.Lines

/-!
# `PlcLang.Highlight`: pieces of text to be coloured

A highlighter has to make something of every text, also of one that is no
program. It knows two states, inside and outside a string, and in each a
list of rules. At every place the first rule that matches there takes a
piece; a character that no rule takes is a piece of its own.

The pieces of a text, put together, are the text as `prepare` leaves it.
-/

set_option autoImplicit false

namespace PlcLang

/-- What a piece of text is. Kinds are finer than colours: several share one, and
some have none. -/
inductive PieceKind where
  | space
  | string
  | character
  | escape
  | decimal
  | integer
  | declarationWord
  | constantWord
  | operatorWord
  | keyword
  | typeName
  | builtin
  | name
  | operator
  | punctuation
  | error
deriving DecidableEq, Repr

/-- A piece of text with what it is. No piece is empty. -/
structure Piece where
  kind : PieceKind
  text : String
deriving DecidableEq, Repr

namespace PieceKind

/-- The kind's name in the common vocabulary of highlighters, by which a theme finds
its colour. -/
def className : PieceKind → String
  | space => "Text"
  | string => "Literal.String"
  | character => "Literal.String.Char"
  | escape => "Literal.String.Escape"
  | decimal => "Literal.Number.Float"
  | integer => "Literal.Number.Integer"
  | declarationWord => "Keyword.Declaration"
  | constantWord => "Keyword.Constant"
  | operatorWord => "Operator.Word"
  | keyword => "Keyword"
  | typeName => "Keyword.Type"
  | builtin => "Name.Builtin"
  | name => "Name"
  | operator => "Operator"
  | punctuation => "Punctuation"
  | error => "Error"

/-- The terminal's code for the kind's colour, if it has one. What has none is shown
as any other text. -/
def colour? : PieceKind → Option String
  | declarationWord | constantWord | keyword | decimal | integer => some "\x1b[34m"
  | typeName | builtin => some "\x1b[36m"
  | operatorWord => some "\x1b[35m"
  | string | character | escape => some "\x1b[33m"
  | error => some "\x1b[04m\x1b[91m"
  | space | name | operator | punctuation => none

end PieceKind

namespace Highlight

/-- How many characters at the front of a text have a property. It may be none. -/
def countWhile (p : Char → Bool) (text : List Char) : Nat :=
  (text.takeWhile p).length

/-- A count that must not be zero, since a rule that takes nothing does not match. -/
def atLeastOne (n : Nat) : Option Nat :=
  if n = 0 then none else some n

/-- The length of the word at the front of a text, if it is one of these.
A word ends where its letters, digits and underscores do. -/
def wordIn (words : List String) (text : List Char) : Option Nat :=
  -- A hyphen is no part of a word here although a name may have one, so `DO` is found at the
  -- front of `DO-it`.
  let word := text.takeWhile Text.isWordChar
  if words.contains (String.ofList word) then some word.length else none

/-- White space, to which the backspace belongs: the lexer passes over it, too. -/
def matchSpace (text : List Char) : Option Nat :=
  atLeastOne (countWhile (fun c => Text.isBlank c || c == '\x08') text)

/-- A character literal: a character or an escape between quotes. A quote that
begins none is left to the last rule. -/
def matchCharacter : List Char → Option Nat
  | '\'' :: '\\' :: c :: '\'' :: _ => if Text.isEscapeLetter c then some 4 else none
  | '\'' :: c :: '\'' :: _ => if c = '\'' ∨ c = '\\' then none else some 3
  | _ => none

/-- The length of an optional sign. A sign in front of no digits is an operator. -/
def signLength : List Char → Nat
  | c :: _ => if c = '+' ∨ c = '-' then 1 else 0
  | [] => 0

/-- An integer: an optional sign and digits. What stands behind the digits does not
matter. -/
def matchInteger (text : List Char) : Option Nat :=
  let sign := signLength text
  (atLeastOne (countWhile Text.isDigit (text.drop sign))).map (sign + ·)

/-- A decimal: an integer, a point and digits. A point without digits behind it is
left to the operators. -/
def matchDecimal (text : List Char) : Option Nat := do
  let whole ← matchInteger text
  match text.drop whole with
  | '.' :: fraction =>
    let places ← atLeastOne (countWhile Text.isDigit fraction)
    pure (whole + 1 + places)
  | _ => none

/-- A name of ASCII letters, digits, underscores and hyphens. It does not begin with
a digit or a hyphen. The lexer takes letters of other scripts, too; here they are
left to the last rule. -/
def matchName : List Char → Option Nat
  | c :: rest =>
    if c.isAlpha || c == '_' then
      some (1 + countWhile (fun c => c.isAlphanum || c == '_' || c == '-') rest)
    else none
  | [] => none

/-- An operator of two characters. Only the second one is always the same. -/
def matchLongOperator : List Char → Option Nat
  | c :: '=' :: _ => if c = '=' ∨ c = '!' ∨ c = '<' ∨ c = '>' then some 2 else none
  | _ => none

/-- One of these characters. -/
def matchOneOf (chars : List Char) : List Char → Option Nat
  | c :: _ => if chars.contains c then some 1 else none
  | [] => none

/-- Any character but a newline, which is white space and has been taken as such. -/
def matchAny : List Char → Option Nat
  | c :: _ => if c = '\n' then none else some 1
  | [] => none

/-- The rules outside a string. A double quote begins one. -/
def outsideRules : List (PieceKind × (List Char → Option Nat)) :=
  [(.space, matchSpace),
    (.string, matchOneOf ['"']),
    (.character, matchCharacter),
    -- Two rules may match at one place and the first one in the list takes the piece: a decimal
    -- before the integer that it begins with, the words before the names that they are, too.
    (.decimal, matchDecimal),
    (.integer, matchInteger),
    (.declarationWord, wordIn ["LET", "DEF"]),
    (.constantWord, wordIn ["NIL", "TRUE", "FALSE"]),
    (.operatorWord, wordIn ["AND", "OR"]),
    (.keyword, wordIn ["DO", "END", "IF", "ELSE", "FOR", "IN", "WHILE", "RETURN"]),
    (.typeName, wordIn ["Nil", "Boolean", "Integer", "Decimal", "Character", "String",
      "Comparable", "Any", "IntegerIterable"]),
    (.builtin, wordIn ["print"]),
    (.name, matchName),
    (.operator, matchLongOperator),
    (.operator, matchOneOf ['+', '-', '*', '/', '<', '>', '=', '.']),
    (.punctuation, matchOneOf ['(', ')', ',', ';', ':']),
    -- The lexer makes an operator of every character that it knows nothing else about.
    (.operator, matchAny)]

/-- An escape inside a string. A backslash that begins none is an error there. -/
def matchEscape : List Char → Option Nat
  | '\\' :: c :: _ => if Text.isEscapeLetter c then some 2 else none
  | _ => none

/-- Plain characters inside a string, line ends among them: a string goes on until
it is closed. -/
def matchPlain (text : List Char) : Option Nat :=
  atLeastOne (countWhile (fun c => c != '"' && c != '\\') text)

/-- The rules inside a string. A double quote ends it, unless it is part of an
escape. -/
def insideRules : List (PieceKind × (List Char → Option Nat)) :=
  [(.escape, matchEscape), (.string, matchPlain), (.string, matchOneOf ['"'])]

/-- The first rule that matches, and how many characters it takes. Where none does,
one character is an error. -/
def firstMatch (rules : List (PieceKind × (List Char → Option Nat))) (text : List Char) :
    PieceKind × Nat :=
  (rules.findSome? fun (kind, rule) => (rule text).map (kind, ·)).getD (.error, 1)

/-- The pieces of a text of which the first `skip` characters belong to a
piece already taken. -/
def piecesFrom (inside : Bool) (skip : Nat) : List Char → List Piece
  | [] => []
  | c :: rest =>
    match skip with
    | skip + 1 => piecesFrom inside skip rest
    | 0 =>
      let (kind, length) := firstMatch (if inside then insideRules else outsideRules) (c :: rest)
      let piece : Piece := ⟨kind, String.ofList ((c :: rest).take length)⟩
      -- A piece that begins with a double quote is the quote alone, so the quotes that are pieces
      -- are what switches between the two states.
      piece :: piecesFrom (inside != (c == '"')) (length - 1) rest

/-- A text as it is highlighted: without a byte order mark in front, with
newlines for line ends, and with one newline behind but none in front. -/
def prepare (text : List Char) : List Char :=
  let text := if text.head? = some '\ufeff' then text.drop 1 else text
  let body := (Text.unifyNewlines text).dropWhile (· == '\n')
  (body.reverse.dropWhile (· == '\n')).reverse ++ ['\n']

/-- The pieces of a text, from the state outside a string on. -/
def pieces (text : String) : List Piece :=
  piecesFrom false 0 (prepare text.toList)

/-- A line of a piece in colour, the newline behind it left plain. A terminal that
ended a line in colour would colour what comes next. -/
def paintLine (kind : PieceKind) (line : String) : String :=
  let chars := line.toList
  let ending := if chars.getLast? = some '\n' then "\n" else ""
  let body := String.ofList (chars.reverse.dropWhile (· == '\n')).reverse
  match kind.colour? with
  | some colour => colour ++ body ++ "\x1b[39;49;00m" ++ ending
  | none => body ++ ending

/-- A text with the terminal's colour codes. A piece of several lines is painted
line by line. -/
def coloured (text : String) : String :=
  String.join ((pieces text).flatMap fun piece =>
    (Text.linesWithEnds piece.text).map (paintLine piece.kind))

end Highlight

end PlcLang
