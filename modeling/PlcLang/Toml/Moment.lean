/-!
# `PlcLang.Toml.Moment`: dates and times in a settings file

A moment is a date, a time of day, or both with or without the distance
from universal time. Nobody computes with one here, so all there is to a
moment is how far it goes: each reader answers with the text behind what it
reads, or with nothing where the text is no such thing.
-/

set_option autoImplicit false

namespace PlcLang.Toml.Moment

/-- The number that so many decimal digits at the front of a text mean, if
it lies between two bounds. -/
def field (width low high : Nat) (text : List Char) : Option (Nat × List Char) :=
  let digits := text.take width
  let value := digits.foldl (fun value c => 10 * value + (c.toNat - '0'.toNat)) 0
  if digits.length = width ∧ digits.all Char.isDigit ∧ low ≤ value ∧ value ≤ high then
    some (value, text.drop width)
  else none

/-- The text behind a character that it must begin with. -/
def behind (c : Char) : List Char → Option (List Char)
  | first :: rest => if first = c then some rest else none
  | [] => none

/-- Whether a year has a leap day: every fourth, of full centuries every fourth. -/
def isLeap (year : Nat) : Bool :=
  year % 4 == 0 && (year % 100 != 0 || year % 400 == 0)

/-- How many days a month has. Months are counted from one. -/
def daysIn (year month : Nat) : Nat :=
  if month = 2 then (if isLeap year then 29 else 28)
  else if month = 4 ∨ month = 6 ∨ month = 9 ∨ month = 11 then 30
  else 31

/-- The text behind a date of the calendar: year, month and day, each with all its
digits. -/
def date (text : List Char) : Option (List Char) := do
  let (year, rest) ← field 4 1 9999 text
  let (month, rest) ← field 2 1 12 (← behind '-' rest)
  let (_, rest) ← field 2 1 (daysIn year month) (← behind '-' rest)
  pure rest

/-- The text behind a fraction of a second, if there is one. It may have any number
of digits. -/
def skipFraction : List Char → List Char
  | '.' :: c :: rest => if c.isDigit then rest.dropWhile Char.isDigit else '.' :: c :: rest
  | text => text

/-- The text behind hours and minutes. -/
def clock (text : List Char) : Option (List Char) := do
  let (_, rest) ← field 2 0 23 text
  let (_, rest) ← field 2 0 59 (← behind ':' rest)
  pure rest

/-- The text behind a time of day. Seconds are not left out. -/
def time (text : List Char) : Option (List Char) := do
  let rest ← clock text
  let (_, rest) ← field 2 0 59 (← behind ':' rest)
  pure (skipFraction rest)

/-- The text behind the distance from universal time, if there is one. -/
def skipZone : List Char → List Char
  | c :: rest =>
    if c = 'Z' ∨ c = 'z' then rest
    else if c = '+' ∨ c = '-' then (clock rest).getD (c :: rest)
    else c :: rest
  | [] => []

/-- The text behind the time that follows a date, if one does. A space that no time
follows belongs to the line. -/
def skipTime : List Char → List Char
  | c :: rest =>
    if c = 'T' ∨ c = 't' ∨ c = ' ' then ((time rest).map skipZone).getD (c :: rest)
    else c :: rest
  | [] => []

/-- The text behind a moment: a date with or without a time, or a time alone. -/
def behindMoment (text : List Char) : Option (List Char) :=
  ((date text).map skipTime).or (time text)

/-- A moment as it is written, and the text behind it. -/
def read? (text : List Char) : Option (String × List Char) :=
  (behindMoment text).map fun rest =>
    (String.ofList (text.take (text.length - rest.length)), rest)

end PlcLang.Toml.Moment
