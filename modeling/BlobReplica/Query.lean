import BlobReplica.Property
import BlobReplica.Query.Pattern
import BlobReplica.Validity
import BlobReplica.VersionId

/-! Queries: what a wanted version has to satisfy, and which versions a listing reports. -/

namespace BlobReplica

/-- Conditions on a version; an absent one is always met. -/
structure Constraints where
  version : Option VersionId := none
  time : Option Millis := none
  /-- Properties with exactly these values; names compare without regard to case. -/
  flags : Properties := .empty
  notAfter : Option Millis := none
  notBefore : Option Millis := none
deriving DecidableEq

namespace Constraints

instance : Inhabited Constraints := ⟨{}⟩

def isEmpty (c : Constraints) : Bool :=
  c.version.isNone && c.time.isNone && c.flags.isEmpty && c.notAfter.isNone && c.notBefore.isNone

def acceptsCreated (c : Constraints) (created : Millis) : Bool :=
  c.notAfter.all (created ≤ ·) && c.notBefore.all (· ≤ created)

end Constraints

/-- A listing of versions across keys, newest first. -/
structure Listing where
  pattern : KeyPattern
  constraints : Constraints := {}
  /-- Whether only the best version of each key is reported. -/
  latestOnly : Bool := false
  limit : Option Nat := none

end BlobReplica
