/-!
# `PlcLang.Token`: the words of a program

A token is a piece of the program's text with its kind and the place where
it begins, counted in characters. Keywords are identifiers to the lexer;
the parser knows them by their text.
-/

set_option autoImplicit false

namespace PlcLang

/-- The kinds of token. Punctuation is of the kind of the operators. -/
inductive TokenKind where
  | identifier
  | integer
  | decimal
  | character
  | string
  | operator
deriving DecidableEq, Repr

/-- A piece of the text of a program. A literal has its quotes and escapes in it as
they were written. -/
structure Token where
  kind : TokenKind
  literal : String
  offset : Nat
deriving DecidableEq, Repr

namespace TokenKind

/-- The kind's name in listings. -/
def name : TokenKind → String
  | identifier => "IDENTIFIER"
  | integer => "INTEGER"
  | decimal => "DECIMAL"
  | character => "CHARACTER"
  | string => "STRING"
  | operator => "OPERATOR"

/-- All kinds. -/
def all : List TokenKind :=
  [identifier, integer, decimal, character, string, operator]

end TokenKind

/-- The words that are no names. The names of types are none of them. -/
def keywords : List String :=
  ["LET", "DEF", "DO", "END", "IF", "ELSE", "FOR", "IN", "WHILE", "RETURN",
    "AND", "OR", "NIL", "TRUE", "FALSE"]

namespace Token

/-- The place behind the token's last character. -/
def stop (token : Token) : Nat :=
  token.offset + token.literal.length

/-- Whether the token can name something: an identifier but no keyword. -/
def isName (token : Token) : Bool :=
  token.kind == .identifier && !keywords.contains token.literal

/-- The line that lists the token: where it begins, its kind, its text. -/
def listing (token : Token) : String :=
  let place := toString token.offset
  let kind := token.kind.name
  "".pushn ' ' (6 - place.length) ++ place ++ "  " ++ kind.pushn ' ' (10 - kind.length)
    ++ "  " ++ token.literal

end Token

/-- The place behind the last token, or the beginning of the text if there is none. -/
def endOffset (tokens : List Token) : Nat :=
  match tokens.getLast? with
  | some token => token.stop
  | none => 0

end PlcLang
