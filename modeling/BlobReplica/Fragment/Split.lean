import BlobReplica.Datagram
import BlobReplica.Metadata

/-! Splitting an object into fragments. Each section is cut into pieces of one size; an empty
section is one empty fragment, so that its length is known to whoever receives it. -/

namespace BlobReplica.Fragment

/-- The size of a piece that fits a usual network frame. -/
def defaultSize : Nat := 1200

/-- The size that a request for pieces of `n` bytes gives. -/
def pieceSize (n : Nat) : Nat :=
  max n 1

theorem pieceSize_pos (n : Nat) : 0 < pieceSize n :=
  Nat.lt_of_lt_of_le Nat.one_pos (Nat.le_max_right ..)

/-- An object version as it is published. -/
structure Publication where
  key : String
  version : VersionId
  properties : Properties
  payload : Bytes

namespace Publication

def place (p : Publication) (sectionKind : Section) (length : Nat) :
    Nat → List Bytes → List Fragment
  | _, [] => []
  | offset, data :: rest =>
    { key := p.key, version := p.version, sectionKind, sectionLength := UInt32.ofNat length,
      offset := UInt32.ofNat offset, data } ::
      place p sectionKind length (offset + data.length) rest

def splitSection (p : Publication) (size : Nat) (sectionKind : Section) (bytes : Bytes) :
    Except Datagram.Error (List Fragment) :=
  if Datagram.maxSectionSize < bytes.length then .error (.sectionTooLarge bytes.length)
  else
    let pieces := if bytes = [] then [[]] else bytes.chunks (pieceSize size) (pieceSize_pos size)
    .ok (place p sectionKind bytes.length 0 pieces)

/-- All fragments, those of the metadata first. -/
def fragments (p : Publication) (size : Nat := defaultSize) :
    Except Datagram.Error (List Fragment) := do
  let metadata ← p.splitSection size .metadata (Metadata.encode p.properties)
  let payload ← p.splitSection size .payload p.payload
  return metadata ++ payload

def datagrams (p : Publication) (size : Nat := defaultSize) : Except Datagram.Error (List Bytes) := do
  (← p.fragments size).mapM fun f => Datagram.encode f

end Publication
end BlobReplica.Fragment
