import PlcLang.Toml
import PlcLang.Toml.Moment
import PlcLang.Text.Alphabet

/-!
# `PlcLang.Toml.Reader`: reading a settings file

Statements stand on lines of their own: a heading, or a key with its value.
Values are strings in four notations, numbers, booleans, dates and times,
arrays and inline tables. Control characters belong nowhere but the tab,
and the newline where a text may go over several lines.

A reader takes what it reads from the front of the text and returns it
with the rest, or nothing if the text is wrong.
-/

set_option autoImplicit false

namespace PlcLang.Toml

/-- Whether a character may stand in a line: the tab, and whatever is no control
character. -/
def isLineChar (c : Char) : Bool :=
  c == '\t' || (32 ≤ c.toNat && c.toNat != 127)

/-- Whether a character separates words in a line. -/
def isGap (c : Char) : Bool :=
  c == ' ' || c == '\t'

/-- The text without the gap in front. -/
def skipGap (text : List Char) : List Char :=
  text.dropWhile isGap

/-- The text without the comment in front, if there is one. The newline behind it
stays. Control characters are wrong in a comment, too. -/
def skipComment : List Char → Option (List Char)
  | '#' :: rest =>
    if (rest.takeWhile (· != '\n')).all isLineChar then some (rest.dropWhile (· != '\n'))
    else none
  | text => some text

/-- The text without gaps, newlines and comments in front. This is what may stand
between the items of an array. -/
def skipLayout (inComment : Bool) : List Char → Option (List Char)
  | [] => some []
  | c :: rest =>
    if c = '\n' then skipLayout false rest
    else if inComment then if isLineChar c then skipLayout true rest else none
    else if isGap c then skipLayout false rest
    else if c = '#' then skipLayout true rest
    else some (c :: rest)

/-! ### Strings -/

/-- The character that one letter behind a backslash means. -/
def shortEscape? : Char → Option Char
  | 'b' => some '\x08'
  | 't' => some '\t'
  | 'n' => some '\n'
  | 'f' => some '\x0c'
  | 'r' => some '\r'
  | '"' => some '"'
  | '\\' => some '\\'
  | _ => none

/-- The value of a digit in a base up to sixteen. Letters of both cases are digits
above nine. -/
def digitIn? (base : Nat) (c : Char) : Option Nat :=
  let value? :=
    if c.isDigit then some (c.toNat - '0'.toNat)
    else if 'a' ≤ c ∧ c ≤ 'f' then some (c.toNat - 'a'.toNat + 10)
    else if 'A' ≤ c ∧ c ≤ 'F' then some (c.toNat - 'A'.toNat + 10)
    else none
  value?.filter (· < base)

/-- The number that digits mean. It is none if one of them is no digit of the base. -/
def digitsValue? (base : Nat) (digits : List Char) : Option Nat :=
  digits.foldlM (fun value c => (digitIn? base c).map (value * base + ·)) 0

/-- The character with the code that hexadecimal digits mean. Not every number is
the code of one. -/
def codedChar? (digits : List Char) : Option Char := do
  let code ← digitsValue? 16 digits
  if code.isValidChar then some (Char.ofNat code) else none

/-- A string that a quote begins and ends and in which nothing is special.
The quote that begins it has been read. -/
def literalString : List Char → Option (String × List Char)
  | text =>
    match text.dropWhile (· != '\'') with
    | [] => none
    | _ :: rest =>
      let body := text.takeWhile (· != '\'')
      if body.all isLineChar then some (String.ofList body, rest) else none

/-- The part of a quoted string up to its end, before which `done` has been
read, the last character first. -/
def quotedTail (done : List Char) : List Char → Option (String × List Char)
  | [] => none
  | '"' :: rest => some (String.ofList done.reverse, rest)
  | '\\' :: 'u' :: a :: b :: c :: d :: rest =>
    match codedChar? [a, b, c, d] with
    | some char => quotedTail (char :: done) rest
    | none => none
  | '\\' :: 'U' :: a :: b :: c :: d :: e :: f :: g :: h :: rest =>
    match codedChar? [a, b, c, d, e, f, g, h] with
    | some char => quotedTail (char :: done) rest
    | none => none
  | '\\' :: letter :: rest =>
    match shortEscape? letter with
    | some char => quotedTail (char :: done) rest
    | none => none
  | c :: rest => if isLineChar c then quotedTail (c :: done) rest else none

/-- A string between double quotes, in which a backslash begins an escape.
The quote that begins it has been read. -/
def quotedString (text : List Char) : Option (String × List Char) :=
  quotedTail [] text

/-- What a backslash at the end of a line leaves out. -/
inductive Folding where
  /-- Nothing is being left out. -/
  | off
  /-- The gap up to the end of the line. -/
  | untilNewline
  /-- All gaps and newlines. -/
  | untilText
deriving DecidableEq

/-- The quotes that stand before the three at the end of a long string and
belong to it: at most two. -/
def spareQuotes (mark : Char) : List Char → List Char × List Char
  | c :: d :: rest =>
    if c = mark then if d = mark then ([c, d], rest) else ([c], d :: rest) else ([], c :: d :: rest)
  | [c] => if c = mark then ([c], []) else ([], [c])
  | [] => ([], [])

/-- The part of a long quoted string up to its end. -/
def longQuotedTail (folding : Folding) (done : List Char) : List Char → Option (String × List Char)
  | [] => none
  | c :: rest =>
    if folding = .untilNewline then
      if isGap c then longQuotedTail .untilNewline done rest
      else if c = '\n' then longQuotedTail .untilText done rest
      else none
    else if folding = .untilText ∧ (isGap c ∨ c = '\n') then longQuotedTail .untilText done rest
    else
      match c, rest with
      | '"', '"' :: '"' :: rest =>
        let (spare, rest) := spareQuotes '"' rest
        some (String.ofList (done.reverse ++ spare), rest)
      | '\\', 'u' :: a :: b :: c :: d :: rest =>
        match codedChar? [a, b, c, d] with
        | some char => longQuotedTail .off (char :: done) rest
        | none => none
      | '\\', 'U' :: a :: b :: c :: d :: e :: f :: g :: h :: rest =>
        match codedChar? [a, b, c, d, e, f, g, h] with
        | some char => longQuotedTail .off (char :: done) rest
        | none => none
      | '\\', '\n' :: rest => longQuotedTail .untilText done rest
      | '\\', letter :: rest =>
        if isGap letter then longQuotedTail .untilNewline done rest
        else
          match shortEscape? letter with
          | some char => longQuotedTail .off (char :: done) rest
          | none => none
      | c, rest =>
        if isLineChar c || c == '\n' then longQuotedTail .off (c :: done) rest else none

/-- The part of a long literal string up to its end. Nothing in it is special but
three quotes in a row. -/
def longLiteralTail (done : List Char) : List Char → Option (String × List Char)
  | [] => none
  | '\'' :: '\'' :: '\'' :: rest =>
    let (spare, rest) := spareQuotes '\'' rest
    some (String.ofList (done.reverse ++ spare), rest)
  | c :: rest =>
    if isLineChar c || c == '\n' then longLiteralTail (c :: done) rest else none

/-- The text without the newline in front. A long string may begin with
one. -/
def skipNewline : List Char → List Char
  | '\n' :: rest => rest
  | text => text

/-! ### Keys -/

/-- Whether a character may stand in a key without quotes. -/
def isKeyChar (c : Char) : Bool :=
  c.isAlphanum || c == '-' || c == '_'

/-- One name of a key, bare or between quotes. Only one between quotes may be empty. -/
def keyName : List Char → Option (String × List Char)
  | '\'' :: rest => literalString rest
  | '"' :: rest => quotedString rest
  | text =>
    let name := text.takeWhile isKeyChar
    if name.isEmpty then none else some (String.ofList name, text.dropWhile isKeyChar)

/-- A key of at most so many names, with the gap behind it. Gaps may stand around
its dots. -/
def keyOf : Nat → List Char → Option (Key × List Char)
  | 0, _ => none
  | fuel + 1, text => do
    let (name, rest) ← keyName text
    match skipGap rest with
    | '.' :: rest =>
      let (names, rest) ← keyOf fuel (skipGap rest)
      pure (name :: names, rest)
    | rest => pure ([name], rest)

/-- A key, with the gap behind it. It has no more names than the text has
characters. -/
def key (text : List Char) : Option (Key × List Char) :=
  keyOf text.length text

/-! ### Numbers -/

/-- The digits at the front of a text, of which single underscores may
stand between any two. -/
def digitRun (base : Nat) : List Char → List Char × List Char
  | '_' :: c :: rest =>
    if (digitIn? base c).isSome then
      let (digits, rest) := digitRun base rest
      (c :: digits, rest)
    else ([], '_' :: c :: rest)
  | c :: rest =>
    if (digitIn? base c).isSome then
      let (digits, rest) := digitRun base rest
      (c :: digits, rest)
    else ([], c :: rest)
  | [] => ([], [])

/-- A number of at least one digit. -/
def number (base : Nat) (text : List Char) : Option (Nat × List Char) :=
  match text with
  | c :: _ =>
    if (digitIn? base c).isSome then
      let (digits, rest) := digitRun base text
      (digitsValue? base digits).map (·, rest)
    else none
  | [] => none

/-- A decimal number without a sign; one that begins with zero is zero, and what
follows it is for others to read. -/
def decimalNumber : List Char → Option (Nat × List Char)
  | '0' :: rest => some (0, rest)
  | text => number 10 text

/-- A whole number without a sign in another base than ten. The letter behind the
zero says which. -/
def basedNumber : List Char → Option (Nat × List Char)
  | '0' :: 'x' :: rest => number 16 rest
  | '0' :: 'o' :: rest => number 8 rest
  | '0' :: 'b' :: rest => number 2 rest
  | _ => none

/-- The digits behind a point, if a point with digits comes first. -/
def fractionDigits : List Char → List Char × List Char
  | '.' :: c :: rest =>
    if (digitIn? 10 c).isSome then digitRun 10 (c :: rest) else ([], '.' :: c :: rest)
  | text => ([], text)

/-- The number behind the letter of an exponent, if an exponent comes first. It may
begin with zeros. -/
def exponent? : List Char → Option (Int × List Char)
  | letter :: rest =>
    if letter = 'e' ∨ letter = 'E' then
      match rest with
      | '-' :: rest => (number 10 rest).map fun (n, rest) => (-Int.ofNat n, rest)
      | '+' :: rest => (number 10 rest).map fun (n, rest) => (Int.ofNat n, rest)
      | rest => (number 10 rest).map fun (n, rest) => (Int.ofNat n, rest)
    else none
  | [] => none

/-- The magnitude from which on a real number counts as infinite. -/
def largestReal : Decimal :=
  ⟨false, 17976931348623158, 292⟩

/-- A real number, unless it is too large to be one. -/
def realOf (d : Decimal) : Toml :=
  if d.abs.compare largestReal == .gt then .real none else .real (some d)

/-- A number whose sign has been read: with a fraction or an exponent it is
a real one. -/
def signedNumber (negative : Bool) (text : List Char) : Option (Toml × List Char) := do
  match text with
  | 'i' :: 'n' :: 'f' :: rest => pure (.real none, rest)
  | 'n' :: 'a' :: 'n' :: rest => pure (.real none, rest)
  | _ =>
    let (whole, rest) ← decimalNumber text
    let (digits, rest) := fractionDigits rest
    let exponent := exponent? rest
    if digits.isEmpty ∧ exponent.isNone then
      pure (.integer (if negative then -whole else whole), rest)
    else
      let fraction := (digitsValue? 10 digits).getD 0
      let (power, rest) := exponent.getD (0, rest)
      let units := whole * Decimal.tenTo digits.length + fraction
      pure (realOf ⟨negative, units, power - digits.length⟩, rest)

/-- A number: signed and decimal, or unsigned in another base. -/
def numeral : List Char → Option (Toml × List Char)
  | '+' :: rest => signedNumber false rest
  | '-' :: rest => signedNumber true rest
  | text =>
    match basedNumber text with
    | some (n, rest) => some (.integer n, rest)
    | none => signedNumber false text

/-- A value that is written without marks around it and is no word: a date
or a time, or a number. -/
def plainValue (text : List Char) : Option (Toml × List Char) :=
  match Moment.read? text with
  | some (written, rest) => some (.moment written, rest)
  | none => numeral text

/-! ### Values -/

/-- An inline table as far as it has been read, with its closed keys. It has no
headings, so there is less to lock than in a file. -/
structure InlineDraft where
  entries : Table := .empty
  closed : List Key := []

/-- A key with its value in an inline table. -/
def InlineDraft.assign (key : Key) (value : Toml) (draft : InlineDraft) : Option InlineDraft :=
  if draft.closed.any (·.isPrefixOf key) then none
  else
    (draft.entries.bindAt false key value).map fun entries =>
      ⟨entries, if value.isCollection then key :: draft.closed else draft.closed⟩

mutual

/-- A value, read in at most so many steps. -/
def valueOf : Nat → List Char → Option (Toml × List Char)
  | 0, _ => none
  | fuel + 1, text =>
    match text with
    | '"' :: '"' :: '"' :: rest =>
      (longQuotedTail .off [] (skipNewline rest)).map fun (s, rest) => (.string s, rest)
    | '"' :: rest => (quotedString rest).map fun (s, rest) => (.string s, rest)
    | '\'' :: '\'' :: '\'' :: rest =>
      (longLiteralTail [] (skipNewline rest)).map fun (s, rest) => (.string s, rest)
    | '\'' :: rest => (literalString rest).map fun (s, rest) => (.string s, rest)
    | 't' :: 'r' :: 'u' :: 'e' :: rest => some (.boolean true, rest)
    | 'f' :: 'a' :: 'l' :: 's' :: 'e' :: rest => some (.boolean false, rest)
    | '[' :: rest => (itemsOf fuel rest).map fun (items, rest) => (.array items, rest)
    | '\x7b' :: rest =>
      match skipGap rest with
      | '\x7d' :: rest => some (.table .empty, rest)
      | rest => (pairsOf fuel {} rest).map fun (entries, rest) => (.table entries, rest)
    | text => plainValue text

/-- The items of an array up to its end. The bracket or comma before them
has been read. -/
def itemsOf : Nat → List Char → Option (List Toml × List Char)
  | 0, _ => none
  | fuel + 1, text => do
    match ← skipLayout false text with
    | ']' :: rest => pure ([], rest)
    | rest =>
      let (item, rest) ← valueOf fuel rest
      match ← skipLayout false rest with
      | ']' :: rest => pure ([item], rest)
      | ',' :: rest =>
        let (items, rest) ← itemsOf fuel rest
        pure (item :: items, rest)
      | _ => none

/-- The keys with values of an inline table up to its end. -/
def pairsOf : Nat → InlineDraft → List Char → Option (Table × List Char)
  | 0, _, _ => none
  | fuel + 1, draft, text => do
    let (names, rest) ← key text
    match rest with
    | '=' :: rest =>
      let (value, rest) ← valueOf fuel (skipGap rest)
      let draft ← draft.assign names value
      match skipGap rest with
      | '\x7d' :: rest => pure (draft.entries, rest)
      | ',' :: rest => pairsOf fuel draft (skipGap rest)
      | _ => none
    | _ => none

end

/-- A value. Of any two steps one takes a character, so twice their number
bounds the steps. -/
def value (text : List Char) : Option (Toml × List Char) :=
  valueOf (2 * text.length + 2) text

/-! ### Statements -/

/-- A heading, the first bracket of which has been read. A second one right behind
it makes it that of a table in an array. -/
def heading (draft : Draft) : List Char → Option (Draft × List Char)
  | '[' :: rest => do
    let (names, rest) ← key (skipGap rest)
    let draft ← draft.openItem names
    match rest with
    | ']' :: ']' :: rest => pure (draft, rest)
    | _ => none
  | text => do
    let (names, rest) ← key (skipGap text)
    let draft ← draft.openTable names
    match rest with
    | ']' :: rest => pure (draft, rest)
    | _ => none

/-- A key with its value. Both stand in one line, as far as the value does not have
newlines in it. -/
def assignment (draft : Draft) (text : List Char) : Option (Draft × List Char) := do
  let (names, rest) ← key text
  match rest with
  | '=' :: rest =>
    let (value, rest) ← value (skipGap rest)
    pure (← draft.assign names value, rest)
  | _ => none

/-- What a line says: a heading, a key with its value, or nothing. -/
def statement (draft : Draft) : List Char → Option (Draft × List Char)
  | [] => some (draft, [])
  | '[' :: rest => heading draft rest
  | c :: rest =>
    if c = '\n' ∨ c = '#' then some (draft, c :: rest)
    else if isKeyChar c ∨ c = '"' ∨ c = '\'' then assignment draft (c :: rest)
    else none

/-- The rest of a file of at most so many lines. -/
def statementsOf : Nat → Draft → List Char → Option Table
  | 0, _, _ => none
  | fuel + 1, draft, text => do
    let (draft, rest) ← statement draft (skipGap text)
    match ← skipComment (skipGap rest) with
    | [] => pure draft.root
    | '\n' :: rest => statementsOf fuel draft rest
    | _ => none

/-- A text with `\n` for every `\r\n`. A carriage return that ends no line stays,
and is wrong wherever it stands. -/
def unifyLineEnds : List Char → List Char
  | [] => []
  | '\r' :: '\n' :: rest => '\n' :: unifyLineEnds rest
  | c :: rest => c :: unifyLineEnds rest

/-- The table that a settings file says, if it is well formed. One wrong line is
enough for there to be none. -/
def Table.read? (text : String) : Option Table :=
  let chars := unifyLineEnds text.toList
  statementsOf (chars.length + 1) {} chars

end PlcLang.Toml
