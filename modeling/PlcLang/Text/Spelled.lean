import PlcLang.Text.Alphabet

/-!
# `PlcLang.Text.Spelled`: text spelled out for a message

Messages and tree listings show a text between quotes with every
character visible: what has no glyph is written by its code.
-/

set_option autoImplicit false

namespace PlcLang.Text

/-- One character of a text that is spelled out between `mark`s. The code has two,
four or eight digits, as few as will do. -/
def spellChar (mark c : Char) : String :=
  if c = '\\' ∨ c = mark then String.ofList ['\\', c]
  else if c = '\t' then "\\t"
  else if c = '\n' then "\\n"
  else if c = '\r' then "\\r"
  else if isPrintable c then c.toString
  else if c.toNat < 0x100 then "\\x" ++ hexPadded 2 c.toNat
  else if c.toNat < 0x10000 then "\\u" ++ hexPadded 4 c.toNat
  else "\\U" ++ hexPadded 8 c.toNat

/-- The mark that surrounds a spelled text: a double quote when that
avoids escaping, else a single one. -/
def spellMark (text : List Char) : Char :=
  if '\'' ∈ text ∧ '"' ∉ text then '"' else '\''

/-- `text` between quotes, with every character visible. -/
def spelled (text : String) : String :=
  let mark := spellMark text.toList
  mark.toString ++ String.join (text.toList.map (spellChar mark)) ++ mark.toString

/-- A list of texts, each spelled out, between brackets. -/
def spelledList (texts : List String) : String :=
  "[" ++ ", ".intercalate (texts.map spelled) ++ "]"

end PlcLang.Text
