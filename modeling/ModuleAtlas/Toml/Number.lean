import ModuleAtlas.Toml.Text

/-! # Numbers, dates and times

Integers are read with their value.  Of fractions, dates and times only the form is checked: a
fraction must not be too large, and a date must exist.
-/
namespace ModuleAtlas.Toml

/-- Digits of a class, in which single underscores may stand between two digits. -/
def digitGroup (isDigit : Char → Bool) : Rule (List Char) := do
  let first ← Rule.char isDigit
  let rest ← Rule.many (Rule.char isDigit <|> (Rule.exactly ['_'] *> Rule.char isDigit))
  return first :: rest

/-- A sign; the answer is whether it is a minus. -/
def sign : Rule Bool := (· == '-') <$> Rule.char fun c => c == '+' || c == '-'

/-- A sign that may be missing. -/
def optionalSign : Rule Bool := do return (← Rule.optional sign).getD false

/-- Decimal digits without leading zeros. -/
def plainDigits : Rule (List Char) := do
  let digits ← digitGroup Char.isDigit
  if digits.head? = some '0' ∧ digits.length ≠ 1 then failure else return digits

/-- Integers have 64 bits, one of which is the sign. -/
def inIntegerRange (n : Int) : Bool :=
  decide (-0x8000000000000000 ≤ n ∧ n < 0x8000000000000000)

/-- An integer with a mark of its base. -/
def markedInteger (mark : Char) (base : Nat) (isDigit : Char → Bool) : Rule Int := do
  Rule.exactly ['0', mark]
  let digits ← digitGroup isDigit
  let n : Int := digitsValue base digits
  if inIntegerRange n then return n else failure

/-- A decimal integer. -/
def decimalInteger : Rule Int := do
  let negative ← optionalSign
  let digits ← plainDigits
  let n : Int := digitsValue 10 digits
  let value := if negative then -n else n
  if inIntegerRange value then return value else failure

/-- An integer. -/
def integer : Rule Int :=
  markedInteger 'x' 16 isHexDigit <|> markedInteger 'o' 8 (fun c => '0' ≤ c && c ≤ '7') <|>
    markedInteger 'b' 2 (fun c => c == '0' || c == '1') <|> decimalInteger

/-- The part of a fraction behind the mark of the exponent. -/
def exponent : Rule Int := do
  let _ ← Rule.char fun c => c == 'e' || c == 'E'
  let negative ← optionalSign
  let digits ← digitGroup Char.isDigit
  let n : Int := digitsValue 10 digits
  return if negative then -n else n

/-- The least number that is too large for a fraction: halfway from the greatest fraction of 53
binary digits below 2^1024 to 2^1024. -/
def fractionBound : Nat := Nat.pow 2 1024 - Nat.pow 2 970

/-- Whether the number `digits · 10^power` is too large for a fraction.  The number of digits
settles it unless the number is near the bound, so that no great powers are computed. -/
def isTooLarge (digits : List Char) (power : Int) : Bool :=
  let m := digitsValue 10 digits
  let size := (digits.dropWhile (· == '0')).length + power
  if m = 0 ∨ size < 300 then false
  else if 320 < size then true
  else if 0 ≤ power then fractionBound ≤ m * Nat.pow 10 power.toNat
  else fractionBound * Nat.pow 10 (-power).toNat ≤ m

/-- A fraction in digits. -/
def digitFraction : Rule Unit := do
  let negative ← optionalSign
  let whole ← plainDigits
  let places ← Rule.optional (Rule.exactly ['.'] *> digitGroup Char.isDigit)
  let power ← Rule.optional exponent
  if places.isNone ∧ power.isNone then failure
  let places := places.getD []
  if !negative && isTooLarge (whole ++ places) (power.getD 0 - places.length) then failure

/-- A fraction that is no number. -/
def namedFraction : Rule Unit := do
  let _ ← optionalSign
  Rule.exactly "inf".toList <|> Rule.exactly "nan".toList

/-- A fraction. -/
def fraction : Rule Unit := digitFraction <|> namedFraction

/-- A number of `n` digits in a range. -/
def fixedDigits (n low high : Nat) : Rule Nat := do
  let digits ← Rule.exactCount Char.isDigit n
  let value := digitsValue 10 digits
  if low ≤ value ∧ value ≤ high then return value else failure

/-- Whether a year has a leap day. -/
def isLeapYear (year : Nat) : Bool := year % 4 == 0 && (year % 100 != 0 || year % 400 == 0)

/-- The number of days in a month. -/
def daysInMonth (year month : Nat) : Nat :=
  if month = 2 then (if isLeapYear year then 29 else 28)
  else if month = 4 ∨ month = 6 ∨ month = 9 ∨ month = 11 then 30
  else 31

/-- A date. -/
def date : Rule Unit := do
  let year ← fixedDigits 4 0 9999
  Rule.exactly ['-']
  let month ← fixedDigits 2 1 12
  Rule.exactly ['-']
  let day ← fixedDigits 2 1 31
  if daysInMonth year month < day then failure

/-- An hour and a minute. -/
def hourAndMinute : Rule Unit := do
  let _ ← fixedDigits 2 0 23
  Rule.exactly [':']
  let _ ← fixedDigits 2 0 59

/-- A time of day.  A minute may have a leap second. -/
def time : Rule Unit := do
  hourAndMinute
  Rule.exactly [':']
  let _ ← fixedDigits 2 0 60
  let _ ← Rule.optional (Rule.exactly ['.'] *> Rule.span1 Char.isDigit)

/-- How far a time is from world time. -/
def timeOffset : Rule Unit :=
  (do let _ ← Rule.char fun c => c == 'Z' || c == 'z') <|> (do
    let _ ← sign
    hourAndMinute)

/-- A date, a time, or both. -/
def moment : Rule Unit :=
  (do
    date
    let _ ← Rule.optional (do
      let _ ← Rule.char fun c => c == 'T' || c == 't' || c == ' '
      time
      let _ ← Rule.optional timeOffset)) <|> time

end ModuleAtlas.Toml
