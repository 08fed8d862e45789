import BlobReplica.Text.Blank
import BlobReplica.Text.Decimal
import BlobReplica.Text.Letters

/-! The `Content-Range` field: the first and last position of a slice and, unless unknown, the
length of the whole. -/

namespace BlobReplica.Http

structure ContentRange where
  first : Nat
  last : Nat
  /-- The length of the whole, when stated. -/
  total : Option Nat
deriving DecidableEq, Repr

namespace ContentRange

def position? (s : String) : Option Nat :=
  Text.readWord (Text.trim s)

/-- Reads `bytes first-last/total`, the total possibly `*`. -/
def parse? (value : String) : Option ContentRange := do
  let spec ← Text.dropStart "bytes" (Text.trim value)
  let (range, total) ← Text.cutAt '/' (String.ofList (Text.trimStartChars spec.toList))
  let (first, last) ← Text.cutAt '-' range
  let first ← position? first
  let last ← position? last
  if last < first then none
  else if Text.trim total = "*" then some ⟨first, last, none⟩
  else do
    let total ← position? total
    some ⟨first, last, some total⟩

/-- The number of positions, unless it exceeds a 64-bit word. -/
def length? (r : ContentRange) : Option Nat :=
  if r.first ≤ r.last ∧ r.last - r.first < Text.maxWord then some (r.last - r.first + 1) else none

def text (r : ContentRange) : String :=
  s!"bytes {r.first}-{r.last}"

end ContentRange
end BlobReplica.Http
