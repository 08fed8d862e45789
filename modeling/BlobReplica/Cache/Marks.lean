import BlobReplica.Validity
import BlobReplica.VersionId

/-! Marks of versions that failed their checksum, with the time of each. Only so many are held: one
more drives out the oldest. -/

namespace BlobReplica.Cache

/-- Versions and times, the latest mark last. -/
abbrev Marks := List (VersionId × Millis)

namespace Marks

def bound : Nat := 4096

/-- The first of the marks with the smallest time. -/
def oldest? : Marks → Option (VersionId × Millis)
  | [] => none
  | m :: rest => some (rest.foldl (fun best n => if n.2 < best.2 then n else best) m)

def contains (marks : Marks) (v : VersionId) : Bool :=
  marks.any (·.1 == v)

def add (marks : Marks) (v : VersionId) (now : Millis) : Marks :=
  let marks := marks.filter (·.1 != v) ++ [(v, now)]
  if bound < marks.length then
    match oldest? marks with
    | some oldest => marks.filter (·.1 != oldest.1)
    | none => marks
  else marks

def since (marks : Marks) (cutoff : Millis) : Marks :=
  marks.filter fun m => cutoff ≤ m.2

end Marks
end BlobReplica.Cache
