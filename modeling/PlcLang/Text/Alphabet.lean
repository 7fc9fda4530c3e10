import PlcLang.Text.UnicodeTable

/-!
# `PlcLang.Text.Alphabet`: classes of characters

The character classes that the language and its tools consult. Each is
defined outright on ASCII and by a table of Unicode ranges above it, so
that a question about an ASCII character never looks at a table.
-/

set_option autoImplicit false

namespace PlcLang.Text

/-- Whether `n` lies in one of the closed ranges. They are looked through in order,
without a search for the right one. -/
def inRanges (ranges : List (Nat × Nat)) (n : Nat) : Bool :=
  ranges.any fun (low, high) => low ≤ n && n ≤ high

/-- A letter of any script. Marks that combine with letters are none. -/
def isLetter (c : Char) : Bool :=
  if c.toNat < 128 then c.isAlpha else inRanges UnicodeTable.letters c.toNat

/-- One of the digits `0` to `9`; digits of other scripts are not meant. These are
the digits of names and numbers in programs. -/
def isDigit (c : Char) : Bool :=
  '0' ≤ c && c ≤ '9'

/-- A letter or a numeral of any script, fractions and circled numbers
included. -/
def isAlphanumeric (c : Char) : Bool :=
  if c.toNat < 128 then c.isAlphanum
  else inRanges UnicodeTable.letters c.toNat || inRanges UnicodeTable.numerals c.toNat

/-- A character of a word: alphanumeric or the underscore. The boundary of such a
word is not that of a name of the language, which may have a hyphen. -/
def isWordChar (c : Char) : Bool :=
  isAlphanumeric c || c == '_'

/-- White space of Unicode, with the four ASCII separators and the line
controls. -/
def isBlank (c : Char) : Bool :=
  let n := c.toNat
  (9 ≤ n && n ≤ 13) || (28 ≤ n && n ≤ 32) || n == 0x85 || n == 0xa0 || n == 0x1680
    || (0x2000 ≤ n && n ≤ 0x200a) || n == 0x2028 || n == 0x2029 || n == 0x202f
    || n == 0x205f || n == 0x3000

/-- One of the four ASCII separators of files, groups, records and units. They are
white space to some readers of numbers and not to others. -/
def isSeparator (c : Char) : Bool :=
  28 ≤ c.toNat && c.toNat ≤ 31

/-- A character with a glyph of its own, or the plain space. White space of other
kinds has none. -/
def isPrintable (c : Char) : Bool :=
  if c.toNat < 128 then 32 ≤ c.toNat && c.toNat ≤ 126
  else !inRanges UnicodeTable.hidden c.toNat

/-- The value of a decimal digit of any script. Only numbers in hand-made tokens may
have digits of other scripts. -/
def decimalDigit? (c : Char) : Option Nat :=
  if c.toNat < 128 then
    if isDigit c then some (c.toNat - '0'.toNat) else none
  else
    (UnicodeTable.decimalZeros.find? fun first => first ≤ c.toNat && c.toNat < first + 10).map
      (c.toNat - ·)

/-- The text without the characters of a class at its ends. Those between others
stay. -/
def trim (inClass : Char → Bool) (text : List Char) : List Char :=
  ((text.dropWhile inClass).reverse.dropWhile inClass).reverse

/-- Lower-case hexadecimal digits of `n`, padded with zeros to `width`. A number
with more digits has them all. -/
def hexPadded (width n : Nat) : String :=
  let digits := Nat.toDigits 16 n
  String.ofList (List.replicate (width - digits.length) '0' ++ digits)

end PlcLang.Text
