import PlcLang.Decimal
import PlcLang.Text.Alphabet

/-!
# `PlcLang.Decimal.Notation`: decimal and integer text

Two notations for a decimal. `plain` writes all its digits and is what
programs are written in; `scientific` falls back on an exponent where
plain notation would have to invent digits. Reading accepts both, and the
digits of any script.
-/

set_option autoImplicit false

namespace PlcLang

namespace Decimal

/-- The minus sign of a negative decimal. A positive one has none, and a negative
zero has one. -/
def signText (d : Decimal) : List Char :=
  if d.negative then ['-'] else []

/-- The digits with a point before the last `places` of them, zeros
supplied where digits are missing. -/
def pointed (digits : List Char) (places : Nat) : List Char :=
  if places = 0 then digits
  else
    let padded := List.replicate (places + 1 - digits.length) '0' ++ digits
    let whole := padded.length - places
    padded.take whole ++ '.' :: padded.drop whole

/-- All digits and no exponent. Zeros are supplied on either side, so a decimal of a
far exponent gets long; this is the notation of programs, which have no other. -/
def plain (d : Decimal) : String :=
  let body :=
    if d.exponent ≤ 0 then pointed (digits d.coefficient) (-d.exponent).toNat
    else if d.coefficient = 0 then ['0']
    else digits d.coefficient ++ List.replicate d.exponent.toNat '0'
  String.ofList (d.signText ++ body)

/-- An exponent, always with a sign: `E-7` and `E+3`. -/
def exponentText (e : Int) : List Char :=
  'E' :: (if e < 0 then '-' else '+') :: Nat.toDigits 10 e.natAbs

/-- Plain notation for a number that has no trailing zeros to invent and
begins within six places of the point; else one digit, the others behind
the point, and an exponent. -/
def scientific (d : Decimal) : String :=
  if d.exponent ≤ 0 ∧ -6 ≤ d.adjusted then d.plain
  else
    let body :=
      match digits d.coefficient with
      | [] => []
      | [digit] => [digit]
      | digit :: rest => digit :: '.' :: rest
    String.ofList (d.signText ++ body ++ exponentText d.adjusted)

end Decimal

/-! ### Integers -/

/-- The most digits of an integer that is written out. The limit is one of the
platform, not of the language; arithmetic goes on beyond it. -/
def digitLimit : Nat :=
  4300

/-- The integer has no more digits than are written out. Its sign is not counted. -/
def Showable (value : Int) : Prop :=
  value.natAbs < Decimal.tenTo digitLimit

/-- A power of ten in two steps. -/
theorem Decimal.tenTo_mul (power times : Nat) :
    Decimal.tenTo (power * times) = Nat.pow (Decimal.tenTo power) times :=
  Nat.pow_mul 10 power times

/-- The bound in two steps, with exponents that are small enough to be worked out while a proof
is checked. -/
theorem tenTo_digitLimit : Decimal.tenTo digitLimit = Nat.pow (Decimal.tenTo 215) 20 := by
  have hlimit : digitLimit = 215 * 20 := rfl
  rw [hlimit, Decimal.tenTo_mul]

/-- Whether an integer has too many digits is found out by comparing it with a power of ten, and
not by counting its digits. -/
instance (value : Int) : Decidable (Showable value) :=
  have hiff : value.natAbs < Nat.pow (Decimal.tenTo 215) 20 ↔ Showable value := by
    rw [Showable, tenTo_digitLimit]
  decidable_of_decidable_of_iff hiff

/-- An integer in decimal digits, unless it has too many. The error names the
integer, since this is all that there is to say of it. -/
def integerText (value : Int) : Except NumberError String :=
  if Showable value then .ok (toString value) else .error (.tooManyDigits value)

/-! ### Reading -/

/-- How many digits a literal has. Its sign and its point are not counted. -/
def digitCount (literal : List Char) : Nat :=
  literal.countP Text.isDigit

/-- The value of a run of digits, the first being the most significant. No digits
are zero. -/
def digitsValue (digits : List Nat) : Nat :=
  digits.foldl (fun value digit => 10 * value + digit) 0

/-- The digits at the front of a text, in whatever script, and what follows them. -/
def takeDigits : List Char → List Nat × List Char
  | [] => ([], [])
  | c :: rest =>
    match Text.decimalDigit? c with
    | some digit =>
      let (more, after) := takeDigits rest
      (digit :: more, after)
    | none => ([], c :: rest)

/-- A sign at the front of a text, and what follows it. Without one the number is
positive. -/
def takeSign : List Char → Bool × List Char
  | '-' :: rest => (true, rest)
  | '+' :: rest => (false, rest)
  | rest => (false, rest)

/-- Digits in groups: one underscore may stand between two digits. A text that
begins or ends with one, or has two in a row, is no number. -/
def groupedDigits? : List Char → Option (List Nat)
  | [] => none
  | [c] => (Text.decimalDigit? c).map ([·])
  | c :: '_' :: rest => do
    let digit ← Text.decimalDigit? c
    let more ← groupedDigits? rest
    pure (digit :: more)
  | c :: rest => do
    let digit ← Text.decimalDigit? c
    let more ← groupedDigits? rest
    pure (digit :: more)

/-- Reads an integer: an optional sign and digits, which may be grouped by
underscores, with white space around them. The ASCII separators are no
white space here. -/
def readInteger? (text : String) : Option Int := do
  let blank (c : Char) : Bool := Text.isBlank c && !Text.isSeparator c
  let (negative, body) := takeSign (Text.trim blank text.toList)
  let digits ← groupedDigits? body
  let value : Int := digitsValue digits
  pure (if negative then -value else value)

namespace Decimal

/-- Reads an exponent behind its letter: an optional sign and digits, at least one,
up to the end of the text. -/
def readExponent? (text : List Char) : Option Int :=
  let (negative, body) := takeSign text
  match takeDigits body with
  | (digit :: more, []) =>
    let value : Int := digitsValue (digit :: more)
    some (if negative then -value else value)
  | _ => none

/-- Reads what may follow the digits: nothing or an exponent, behind a letter of
either case. -/
def readScale? : List Char → Option Int
  | [] => some 0
  | c :: rest => if c = 'e' ∨ c = 'E' then readExponent? rest else none

/-- Reads a number without a sign. The point may stand in front of all digits or
behind them, but there has to be one digit. A number out of reach is not read: its
text is malformed like any other. -/
def readUnsigned? (negative : Bool) (text : List Char) : Option Decimal :=
  let (whole, rest) := takeDigits text
  let (fraction, rest) :=
    match rest with
    | '.' :: after => takeDigits after
    | _ => ([], rest)
  if whole.isEmpty && fraction.isEmpty then none
  else do
    let exponent ← readScale? rest
    let d : Decimal := ⟨negative, digitsValue (whole ++ fraction), exponent - fraction.length⟩
    if d.inReach then pure d else none

/-- Reads a decimal in plain or scientific notation. Underscores and white
space at the ends are passed over. -/
def read? (text : String) : Option Decimal :=
  let (negative, body) := takeSign ((Text.trim Text.isBlank text.toList).filter (· != '_'))
  readUnsigned? negative body

end Decimal

end PlcLang
