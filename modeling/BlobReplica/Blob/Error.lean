import BlobReplica.VersionId

/-! Why a blob or the cache refuses what it is given. -/

namespace BlobReplica.Blob

inductive Error where
  | wrongTarget (key : String) (version : VersionId)
  /-- The fragment declares another section length than the first one did. -/
  | lengthMismatch (version : VersionId) (sectionName : String) (established declared : Nat)
  | outOfBounds (version : VersionId) (offset stop size : Nat)
  /-- A slice has no place before the payload size is known. -/
  | sizeUnknown (version : VersionId)
  | checksumInvalid (version : VersionId)
  /-- The version was discarded and may not come back. -/
  | versionInvalid (version : VersionId)
deriving DecidableEq, Repr

def Error.message : Error → String
  | .wrongTarget key version => s!"fragment for {key}/{version.text} merged into the wrong blob"
  | .lengthMismatch version sectionName established declared =>
    s!"{sectionName} length mismatch for {version.text}: established {established}, " ++
      s!"fragment declares {declared}"
  | .outOfBounds version offset stop size =>
    s!"range [{offset}, {stop}) outside payload of {size} bytes for {version.text}"
  | .sizeUnknown version => s!"payload size of {version.text} is unknown"
  | .checksumInvalid version => "checksum mismatch for " ++ version.text
  | .versionInvalid version => s!"version {version.text} was discarded as invalid"

end BlobReplica.Blob
