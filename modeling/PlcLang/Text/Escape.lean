import PlcLang.Text.Alphabet

/-!
# `PlcLang.Text.Escape`: backslash escapes of literals

Character and string literals write control characters, quotes and
backslashes behind a backslash. `unescape` reads such a body, `escape`
writes one, and `quote` puts the quotes around it. The lexer accepts the
letters of `controlOf?` and the two quotes; `unescape` also reads the
doubled backslash that `escape` writes.
-/

set_option autoImplicit false

namespace PlcLang.Text

/-- The character that an escape letter stands for. The two quotes stand for
themselves. -/
def controlOf? : Char → Option Char
  | 'b' => some '\x08'
  | 'f' => some '\x0c'
  | 'n' => some '\n'
  | 'r' => some '\r'
  | 't' => some '\t'
  | '\'' => some '\''
  | '"' => some '"'
  | _ => none

/-- Whether a literal may have this character behind a backslash. A second backslash
is not among them: no literal of a program has one. -/
def isEscapeLetter (c : Char) : Bool :=
  (controlOf? c).isSome

/-- The characters that the body of a literal stands for. A backslash
that starts no known escape, or ends the body, stands for itself. -/
def unescapeChars : List Char → List Char
  | [] => []
  | '\\' :: '\\' :: rest => '\\' :: unescapeChars rest
  | '\\' :: c :: rest =>
    match controlOf? c with
    | some control => control :: unescapeChars rest
    | none => '\\' :: unescapeChars (c :: rest)
  | c :: rest => c :: unescapeChars rest

/-- `unescapeChars` on strings. -/
def unescape (body : String) : String :=
  String.ofList (unescapeChars body.toList)

/-- How one character is written in a literal between `mark`s. The other quote is
written as it is. -/
def escapeChar (mark : Char) : Char → List Char
  | '\x08' => ['\\', 'b']
  | '\x0c' => ['\\', 'f']
  | '\n' => ['\\', 'n']
  | '\r' => ['\\', 'r']
  | '\t' => ['\\', 't']
  | '\\' => ['\\', '\\']
  | c => if c = mark then ['\\', c] else [c]

/-- The body of a literal between `mark`s that stands for `text`. -/
def escape (mark : Char) (text : List Char) : List Char :=
  text.flatMap (escapeChar mark)

/-- A literal between `mark`s that stands for `text`. It may be one that the lexer
does not accept: a backslash is doubled. -/
def quote (mark : Char) (text : String) : String :=
  String.ofList (mark :: escape mark text.toList ++ [mark])

end PlcLang.Text
