/-! Unsigned decimal numbers. A number is one or more ASCII digits; a signed reading allows a plus
sign in front. Every reading has an upper bound, which is part of the answer: a larger number is
no number. -/

namespace BlobReplica.Text

/-- The largest 64-bit word, which stands for an unbounded time. -/
def maxWord : Nat := 0xffffffffffffffff

/-- The number that the digits of `cs` write in base ten. -/
def digitsValue (cs : List Char) : Nat :=
  cs.foldl (fun acc c => acc * 10 + (c.toNat - '0'.toNat)) 0

def readDigits (bound : Nat) (cs : List Char) : Option Nat :=
  if cs ≠ [] ∧ cs.all Char.isDigit then
    let n := digitsValue cs
    if n ≤ bound then some n else none
  else none

/-- Reads digits with an optional plus sign. -/
def readUnsigned (bound : Nat) (cs : List Char) : Option Nat :=
  match cs with
  | '+' :: rest => readDigits bound rest
  | _ => readDigits bound cs

def readWord (s : String) : Option Nat :=
  readUnsigned maxWord s.toList

theorem readDigits_le {bound n : Nat} {cs : List Char} (h : readDigits bound cs = some n) :
    n ≤ bound := by
  unfold readDigits at h
  split at h
  · simp only at h
    split at h
    · simp_all
    · contradiction
  · contradiction

theorem readUnsigned_le {bound n : Nat} {cs : List Char} (h : readUnsigned bound cs = some n) :
    n ≤ bound := by
  unfold readUnsigned at h
  split at h <;> exact readDigits_le h

end BlobReplica.Text
