import BlobReplica.Bytes
import BlobReplica.RangeSet

/-! A section under assembly: its length, the positions that no slice has covered yet, and the
slices that brought something new. Where slices overlap, the later one counts. -/

namespace BlobReplica

structure Assembly where
  length : Nat
  missing : RangeSet
  /-- Offset and bytes of each accepted slice, the latest first. -/
  slices : List (Nat × Bytes) := []
deriving DecidableEq, Repr

namespace Assembly

def ofLength (length : Nat) : Assembly :=
  { length, missing := RangeSet.full length }

def ofBytes (bytes : Bytes) : Assembly :=
  { length := bytes.length, missing := RangeSet.empty, slices := [(0, bytes)] }

def isComplete (a : Assembly) : Bool :=
  a.missing.isEmpty

/-- Adds a slice and counts the positions that it covers first. A slice that brings nothing new
is left out. -/
def write (a : Assembly) (offset : Nat) (data : Bytes) : Assembly × Nat :=
  let range : ByteRange := ⟨offset, offset + data.length⟩
  if data = [] ∨ a.missing.intersects range = false then (a, 0)
  else
    let (missing, filled) := a.missing.remove range
    ({ a with missing, slices := (offset, data) :: a.slices }, filled)

/-- The section with zeros where nothing has arrived. -/
def bytes (a : Assembly) : Bytes :=
  a.slices.foldr (fun slice base => base.overlay slice.1 slice.2) (List.replicate a.length 0)

end Assembly
end BlobReplica
