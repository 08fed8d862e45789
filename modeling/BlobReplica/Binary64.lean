import BlobReplica.Text.Reader
import BlobReplica.Text.Decimal

/-! Binary floating-point numbers with 53 significant bits, as exact dyadic values. A decimal is
read as the nearest number, of two the even one, and a number is written with the fewest digits
that read back. -/

namespace BlobReplica

/-- A number of the format; a finite one is its significand times a power of two. -/
inductive Binary64 where
  | nan
  | infinite (negative : Bool)
  | finite (negative : Bool) (significand : Nat) (exponent : Int)
deriving DecidableEq, Repr

namespace Binary64

def zero : Binary64 := .finite false 0 (-1074)

def minExponent : Int := -1074

def maxExponent : Int := 971

/-- Numerator and denominator of `num / den` times a power of `base`. -/
def scaled (base num den : Nat) (power : Int) : Nat × Nat :=
  if 0 ≤ power then (num * base.pow power.toNat, den) else (num, den * base.pow (-power).toNat)

/-- The quotient to the nearest whole number, of two the even one. -/
def roundQuotient (num den : Nat) : Nat :=
  let q := num / den
  let r := num % den
  if 2 * r < den then q
  else if den < 2 * r then q + 1
  else if q % 2 = 0 then q
  else q + 1

/-- The number nearest to a positive quotient. -/
def ofQuotient (negative : Bool) (num den : Nat) : Binary64 :=
  let guess : Int := (num.log2 : Int) - den.log2 - 52
  let (n, d) := scaled 2 num den (-guess)
  let exponent := max minExponent (if n < d * 1 <<< 52 then guess - 1 else guess)
  let (n, d) := scaled 2 num den (-exponent)
  let significand := roundQuotient n d
  let (significand, exponent) :=
    if significand = 1 <<< 53 then (1 <<< 52, exponent + 1) else (significand, exponent)
  if maxExponent < exponent then .infinite negative else .finite negative significand exponent

def digitCount (n : Nat) : Nat :=
  (Nat.toDigits 10 n).length

def ofDecimal (negative : Bool) (significand : Nat) (exponent : Int) : Binary64 :=
  let magnitude : Int := digitCount significand + exponent
  if significand = 0 ∨ magnitude < -330 then .finite negative 0 minExponent
  else if 310 < magnitude then .infinite negative
  else
    let (n, d) := scaled 10 significand 1 exponent
    ofQuotient negative n d

/-- Whether the decimal reads back as the number with this positive significand: it lies between
the two midpoints to the neighbours, ends included for an even significand. -/
def readsBack (significand : Nat) (exponent : Int) (digits : Nat) (power : Int) : Bool :=
  let (n, d) := scaled 10 digits 1 power
  let (n, d) := scaled 2 n d (2 - exponent)
  let gapBelow := if significand = 1 <<< 52 ∧ minExponent < exponent then 1 else 2
  let below := (4 * significand - gapBelow) * d
  let above := (4 * significand + 2) * d
  if significand % 2 = 0 then below ≤ n && n ≤ above else below < n && n < above

/-- The power of ten at or below a positive quotient. -/
def magnitudeOf (num den : Nat) : Int :=
  let guess : Int := (digitCount num : Int) - digitCount den
  let (n, d) := scaled 10 num den (-guess)
  if n < d then guess - 1 else guess

/-- The nearest decimal of `count` digits that reads back, with its power of ten. -/
def decimalOf? (significand : Nat) (exponent : Int) (count : Nat) : Option (Nat × Int) :=
  let (num, den) := scaled 2 significand 1 exponent
  let power := magnitudeOf num den - (count - 1)
  let (n, d) := scaled 10 num den (-power)
  let low := n / d
  let candidates := if 2 * (n % d) < d then [low, low + 1] else [low + 1, low]
  (candidates.find? fun c => readsBack significand exponent c power).map (·, power)

/-- The shortest decimal that reads back as a positive finite number; seventeen digits always do. -/
def shortest (significand : Nat) (exponent : Int) : Nat × Int :=
  ((List.range 17).findSome? fun i => decimalOf? significand exponent (i + 1)).getD (0, 0)

def positional (digits : List Char) (power : Int) : List Char :=
  if 0 ≤ power then digits ++ List.replicate power.toNat '0'
  else
    let places := (-power).toNat
    let padded := List.replicate (places + 1 - digits.length) '0' ++ digits
    padded.take (padded.length - places) ++ '.' :: padded.drop (padded.length - places)

def stripZeros (digits : Nat) (power : Int) : (fuel : Nat) → Nat × Int
  | 0 => (digits, power)
  | fuel + 1 => if digits % 10 = 0 then stripZeros (digits / 10) (power + 1) fuel else (digits, power)

/-- The text of a number, never with an exponent. -/
def text : Binary64 → String
  | .nan => "NaN"
  | .infinite negative => if negative then "-inf" else "inf"
  | .finite negative significand exponent =>
    let cs := if significand = 0 then ['0'] else
      let (digits, power) := shortest significand exponent
      let (digits, power) := stripZeros digits power 17
      positional (Nat.toDigits 10 digits) power
    String.ofList (if negative then '-' :: cs else cs)

open Text (Reader)

def sign : Reader Bool := do
  match ← Reader.optional (Reader.one fun c => c == '+' || c == '-') with
  | some c => return c == '-'
  | none => return false

def exponentPart : Reader Int := do
  let _ ← Reader.one fun c => c == 'e' || c == 'E'
  let negative ← sign
  let n := Text.digitsValue (← Reader.someRun Char.isDigit)
  return if negative then -n else n

def decimal (negative : Bool) : Reader Binary64 := do
  let whole ← Reader.run Char.isDigit
  let places ← (do Reader.mark '.'; Reader.run Char.isDigit) <|> pure []
  guard (whole ++ places ≠ [])
  let exponent ← exponentPart <|> pure 0
  return ofDecimal negative (Text.digitsValue (whole ++ places)) (exponent - places.length)

/-- Reads a number: a decimal, or one of the names of infinity and of no number in any case of
letters. -/
def parse? (s : String) : Option Binary64 :=
  let reader : Reader Binary64 := do
    let negative ← sign
    let name := String.map Char.toLower (String.ofList (← get))
    if name = "inf" ∨ name = "infinity" then do set ([] : List Char); return .infinite negative
    else if name = "nan" then do set ([] : List Char); return .nan
    else decimal negative
  reader.whole s

def isFraction : Binary64 → Bool
  | .finite negative significand exponent =>
    significand = 0 || (!negative &&
      (let (n, d) := scaled 2 significand 1 exponent
       decide (n ≤ d)))
  | _ => false

/-- The number times 2⁶⁴ without its fraction, for one that is not negative. -/
def timesWord : Binary64 → Nat
  | .finite false significand exponent =>
    let (n, d) := scaled 2 significand 1 (exponent + 64)
    n / d
  | _ => 0

end Binary64
end BlobReplica
