import BlobReplica.Binary64
import BlobReplica.Text.Hex
import BlobReplica.Toml.Value

/-! Numbers and times of configuration documents. -/

namespace BlobReplica.Toml

open Text (Reader)

/-- Digits, with single underscores between them. -/
def groupedDigits (isDigit : Char → Bool) : Reader (List Char) := do
  let first ← Reader.one isDigit
  let more ← Reader.many (Reader.one isDigit <|> (do Reader.mark '_'; Reader.one isDigit))
  return first :: more

def signed : Reader Bool := do
  return (← Reader.optional (Reader.one fun c => c == '+' || c == '-')) = some '-'

/-- Decimal digits that do not begin with a zero, or a single zero. -/
def wholeDigits : Reader (List Char) := do
  if (← Reader.next?) = some '0' then return [← Reader.one (· == '0')]
  else groupedDigits Char.isDigit

def word64 (n : Int) : Reader Value := do
  guard (-0x8000000000000000 ≤ n ∧ n < 0x8000000000000000)
  return .integer n

def decimalInteger : Reader Value := do
  let negative ← signed
  let n : Int := Text.digitsValue (← wholeDigits)
  word64 (if negative then -n else n)

def basedInteger (letter : Char) (base : Nat) : Reader Value := do
  Reader.word ['0', letter]
  let digits ← groupedDigits fun c => (Text.hexValue? c).any (· < base)
  word64 (digits.foldl (fun n c => n * base + (Text.hexValue? c).getD 0) 0 : Nat)

def integer : Reader Value :=
  basedInteger 'x' 16 <|> basedInteger 'o' 8 <|> basedInteger 'b' 2 <|> decimalInteger

def exponent : Reader Int := do
  let _ ← Reader.one fun c => c == 'e' || c == 'E'
  let negative ← signed
  let n : Int := Text.digitsValue (← groupedDigits Char.isDigit)
  return if negative then -n else n

/-- A number with a fraction or an exponent that is not too large for the format. -/
def decimalFraction : Reader Value := do
  let negative ← signed
  let whole ← wholeDigits
  let places ← Reader.optional (do Reader.mark '.'; groupedDigits Char.isDigit)
  let power ← Reader.optional exponent
  guard (places.isSome ∨ power.isSome)
  let digits := whole ++ places.getD []
  let value := Binary64.ofDecimal negative (Text.digitsValue digits)
    (power.getD 0 - (places.getD []).length)
  guard (value ≠ .infinite false)
  return .fractional

def namedFraction : Reader Value := do
  let _ ← signed
  Reader.word "inf".toList <|> Reader.word "nan".toList
  return .fractional

def field (digits low high : Nat) : Reader Nat := fun cs =>
  let front := cs.take digits
  let n := Text.digitsValue front
  if front.length = digits ∧ front.all Char.isDigit ∧ low ≤ n ∧ n ≤ high then
    some (n, cs.drop digits)
  else none

def daysOf (year month : Nat) : Nat :=
  if month = 2 then
    if year % 4 = 0 ∧ (year % 100 ≠ 0 ∨ year % 400 = 0) then 29 else 28
  else if month = 4 ∨ month = 6 ∨ month = 9 ∨ month = 11 then 30
  else 31

def date : Reader Unit := do
  let year ← field 4 0 9999
  Reader.mark '-'
  let month ← field 2 1 12
  Reader.mark '-'
  discard (field 2 1 (daysOf year month))

/-- A time of day; a minute may have a leap second. -/
def timeOfDay : Reader Unit := do
  let _ ← field 2 0 23
  Reader.mark ':'
  let _ ← field 2 0 59
  Reader.mark ':'
  let _ ← field 2 0 60
  discard (Reader.optional (do Reader.mark '.'; discard (Reader.someRun Char.isDigit)))

def timeZone : Reader Unit :=
  discard (Reader.one fun c => c == 'Z' || c == 'z') <|> (do
    let _ ← Reader.one fun c => c == '+' || c == '-'
    let _ ← field 2 0 23
    Reader.mark ':'
    discard (field 2 0 59))

def time : Reader Value := do
  let dated : Reader Unit := do
    date
    discard (Reader.optional (do
      let _ ← Reader.one fun c => c == 'T' || c == 't' || c == ' '
      timeOfDay
      discard (Reader.optional timeZone)))
  dated <|> timeOfDay
  return .time

def number : Reader Value :=
  time <|> decimalFraction <|> namedFraction <|> integer

end BlobReplica.Toml
