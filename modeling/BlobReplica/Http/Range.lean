import BlobReplica.Text.Blank
import BlobReplica.Text.Decimal
import BlobReplica.Text.Letters

/-! The `Range` field of a request against an object of known size. One item that does not fit
makes the whole request unsatisfiable. -/

namespace BlobReplica.Http

inductive RangeRequest where
  | full
  /-- First and last position of each slice, in the order asked for. -/
  | slices (slices : List (Nat × Nat))
  | unsatisfiable
deriving DecidableEq, Repr

namespace RangeRequest

/-- One of `a-b`, `a-` and `-n`, inside an object of `size` bytes. -/
def item? (size : Nat) (item : String) : Option (Nat × Nat) := do
  let (first, last) ← Text.cutAt '-' item
  let first := Text.trim first
  let last := Text.trim last
  if size = 0 then none
  else if first = "" then do
    let n ← Text.readWord last
    if n = 0 then none else some (size - min n size, size - 1)
  else if last = "" then do
    let first ← Text.readWord first
    if first < size then some (first, size - 1) else none
  else do
    let first ← Text.readWord first
    let last ← Text.readWord last
    if first ≤ last ∧ last < size then some (first, last) else none

/-- Reads a field value; without one the whole object is wanted. -/
def parse (header : Option String) (size : Nat) : RangeRequest :=
  match header with
  | none => .full
  | some header =>
    match Text.dropStart "bytes=" (Text.trim header) with
    | none => .unsatisfiable
    | some specs =>
      let items := ((Text.split ',' specs).map Text.trim).filter (· ≠ "")
      match items.mapM (item? size) with
      | none | some [] => .unsatisfiable
      | some found => .slices found

end RangeRequest
end BlobReplica.Http
