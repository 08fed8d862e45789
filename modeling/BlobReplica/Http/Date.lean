import BlobReplica.Validity

/-! Dates of HTTP headers: day of the week, day, month, year and time of day in the proleptic
Gregorian calendar, Greenwich time. -/

namespace BlobReplica.Http

structure CivilDate where
  year : Nat
  month : Nat
  day : Nat
deriving DecidableEq, Repr

/-- The date that comes `days` days after the first of January 1970. Years are counted from March,
so that a leap day ends its year; 719468 days lie between the first of March of year zero and that
date. -/
def CivilDate.ofDays (days : Nat) : CivilDate :=
  let z := days + 719468
  let era := z / 146097
  let dayOfEra := z % 146097
  let yearOfEra := (dayOfEra - dayOfEra / 1460 + dayOfEra / 36524 - dayOfEra / 146096) / 365
  let dayOfYear := dayOfEra - (365 * yearOfEra + yearOfEra / 4 - yearOfEra / 100)
  let shifted := (5 * dayOfYear + 2) / 153
  let month := if shifted < 10 then shifted + 3 else shifted - 9
  { year := era * 400 + yearOfEra + (if month ≤ 2 then 1 else 0)
    month
    day := dayOfYear - (153 * shifted + 2) / 5 + 1 }

def lastYear : Nat := 262142

def dayNames : List String := ["Thu", "Fri", "Sat", "Sun", "Mon", "Tue", "Wed"]

def monthNames : List String :=
  ["Jan", "Feb", "Mar", "Apr", "May", "Jun", "Jul", "Aug", "Sep", "Oct", "Nov", "Dec"]

def twoDigits (n : Nat) : String :=
  if n < 10 then s!"0{n}" else toString n

def yearText (year : Nat) : String :=
  if 9999 < year then s!"+{year}"
  else String.ofList (List.replicate (4 - (toString year).length) '0') ++ toString year

def date? (millis : Millis) : Option String :=
  let seconds := millis / 1000
  let days := seconds / 86400
  let d := CivilDate.ofDays days
  if lastYear < d.year then none
  else
    let second := seconds % 86400
    some (dayNames.getD (days % 7) "" ++ ", " ++ twoDigits d.day ++ " " ++
      monthNames.getD (d.month - 1) "" ++ " " ++ yearText d.year ++ " " ++
      twoDigits (second / 3600) ++ ":" ++ twoDigits (second / 60 % 60) ++ ":" ++
      twoDigits (second % 60) ++ " GMT")

end BlobReplica.Http
