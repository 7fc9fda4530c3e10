import PlcLang.Text.Escape
import PlcLang.Token

/-!
# `PlcLang.Token.Lexer`: from text to tokens

`tokenize` cuts a text into tokens; white space between them is dropped.
The first character that cannot go on any token is an error, and the error
points at it.

A `scan` function is given the place of a token and the characters from
there on, and answers with the place behind the token. The token's text is
the slice between the two places, so nothing of the text is lost and
nothing is read twice.
-/

set_option autoImplicit false

namespace PlcLang

/-- What can be wrong with a text. Characters that no token begins with are not
among it: any character may be an operator. -/
inductive LexCause where
  | missingFraction
  | unterminatedEscape
  | invalidEscape (letter : Char)
  | unterminatedCharacter
  | emptyCharacter
  | unterminatedString
deriving DecidableEq, Repr

/-- A character that no token can have where it stands, or the end of the
text inside a token. -/
structure LexError where
  cause : LexCause
  offset : Nat
deriving DecidableEq, Repr

/-- The wording of each cause. -/
def LexCause.message : LexCause → String
  | missingFraction => "invalid decimal: expected a digit after '.'"
  | unterminatedEscape => "unterminated escape sequence"
  | invalidEscape letter => "invalid escape sequence: \\" ++ letter.toString
  | unterminatedCharacter => "unterminated character literal"
  | emptyCharacter => "empty character literal"
  | unterminatedString => "unterminated string literal"

namespace Lexer

/-- The characters that separate tokens. Other white space is not passed over: it is
an operator of one character, which no program can have. -/
def isSpace (c : Char) : Bool :=
  c == ' ' || c == '\t' || c == '\r' || c == '\n' || c == '\x08'

/-- A character that a name may begin with: a letter of any script, or an
underscore. -/
def isNameStart (c : Char) : Bool :=
  Text.isLetter c || c == '_'

/-- A character that a name may go on with. The hyphen is among them, so `y-x` is
one name, and a subtraction needs a space. -/
def isNameChar (c : Char) : Bool :=
  Text.isLetter c || Text.isDigit c || c == '_' || c == '-'

/-- A sign. It belongs to the number that follows it at once, whatever stands in
front: `x -1` is a name and a number. -/
def isSign (c : Char) : Bool :=
  c == '+' || c == '-'

/-- How many characters at the front of a text have a property. -/
def runLength (p : Char → Bool) (text : List Char) : Nat :=
  (text.takeWhile p).length

/-- A number without its sign: digits, and behind a point at least one
more. -/
def scanDigits (start : Nat) (text : List Char) : Except LexError (TokenKind × Nat) :=
  let whole := runLength Text.isDigit text
  match text.drop whole with
  -- A point right behind digits is always a decimal point, so `1.` is no integer with an operator
  -- behind it: it is an error, and the error points behind the point.
  | '.' :: fraction =>
    match runLength Text.isDigit fraction with
    | 0 => .error ⟨.missingFraction, start + whole + 1⟩
    | places + 1 => .ok (.decimal, start + whole + 1 + (places + 1))
  | _ => .ok (.integer, start + whole)

/-- A sign with its number. A sign before anything but a digit is an
operator. -/
def scanSigned (start : Nat) (rest : List Char) : Except LexError (TokenKind × Nat) :=
  match rest with
  | c :: _ =>
    if Text.isDigit c then scanDigits (start + 1) rest else .ok (.operator, start + 1)
  | [] => .ok (.operator, start + 1)

/-- The letter of an escape, given the characters behind the backslash at
`place - 1`. -/
def scanEscape (place : Nat) : List Char → Except LexError Unit
  | [] => .error ⟨.unterminatedEscape, place⟩
  | c :: _ => if Text.isEscapeLetter c then .ok () else .error ⟨.invalidEscape c, place⟩

/-- The closing quote of a character literal, which has to be right there: a literal
has one character. -/
def scanClosingQuote (place : Nat) : List Char → Except LexError (TokenKind × Nat)
  | '\'' :: _ => .ok (.character, place + 1)
  | _ => .error ⟨.unterminatedCharacter, place⟩

/-- A character literal behind its opening quote. A line end may be the character. -/
def scanCharacter (place : Nat) : List Char → Except LexError (TokenKind × Nat)
  | [] => .error ⟨.unterminatedCharacter, place⟩
  | '\\' :: rest => do
    scanEscape (place + 1) rest
    scanClosingQuote (place + 2) (rest.drop 1)
  | '\'' :: _ => .error ⟨.emptyCharacter, place⟩
  | _ :: rest => scanClosingQuote (place + 1) rest

/-- A string literal behind its opening quote. It may go over several lines. -/
def scanString (place : Nat) : List Char → Except LexError (TokenKind × Nat)
  | [] => .error ⟨.unterminatedString, place⟩
  | '"' :: _ => .ok (.string, place + 1)
  | ['\\'] => .error ⟨.unterminatedEscape, place + 1⟩
  | '\\' :: c :: rest =>
    if Text.isEscapeLetter c then scanString (place + 2) rest
    else .error ⟨.invalidEscape c, place + 1⟩
  | _ :: rest => scanString (place + 1) rest

/-- An operator: a comparison of two characters, or any one character. Whether the
language has such an operator is for the parser to say. -/
def scanOperator (start : Nat) (c : Char) (rest : List Char) : TokenKind × Nat :=
  let compares := c == '<' || c == '>' || c == '!' || c == '='
  if compares && rest.head? == some '=' then (.operator, start + 2) else (.operator, start + 1)

/-- The token that begins with `c` at `start`: its kind and the place behind it. The
first character decides what kind of token it can be. -/
def scan (start : Nat) (c : Char) (rest : List Char) : Except LexError (TokenKind × Nat) :=
  if isNameStart c then .ok (.identifier, start + 1 + runLength isNameChar rest)
  else if Text.isDigit c then scanDigits start (c :: rest)
  else if isSign c then scanSigned start rest
  else if c = '\'' then scanCharacter (start + 1) rest
  else if c = '"' then scanString (start + 1) rest
  else .ok (scanOperator start c rest)

/-- The tokens of a text that begins at `offset`, of which the first `skip`
characters belong to a token already read. -/
def tokensFrom (offset skip : Nat) : List Char → Except LexError (List Token)
  | [] => .ok []
  | c :: rest =>
    match skip with
    -- The recursion goes over characters and not over tokens, which makes it structural. This
    -- character is part of the token that was read last.
    | skip + 1 => tokensFrom (offset + 1) skip rest
    | 0 =>
      if isSpace c then tokensFrom (offset + 1) 0 rest
      else do
        let (kind, stop) ← scan offset c rest
        let literal := String.ofList ((c :: rest).take (stop - offset))
        let more ← tokensFrom (offset + 1) (stop - offset - 1) rest
        pure (⟨kind, literal, offset⟩ :: more)

end Lexer

/-- Cuts a text into tokens, or finds the first character that goes on none. -/
def tokenize (text : String) : Except LexError (List Token) :=
  Lexer.tokensFrom 0 0 text.toList

end PlcLang
