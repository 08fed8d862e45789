import BlobReplica.Fragment.Split
import BlobReplica.Proofs.RangeSet

/-! True slices: fragments that carry what the publication has at their place. -/

namespace BlobReplica.Fragment

/-- The bytes of a section as they are published. -/
def Publication.bytes (p : Publication) : Section → Bytes
  | .metadata => Metadata.encode p.properties
  | .payload => p.payload

/-- The positions that a fragment covers. -/
def range (f : Fragment) : ByteRange :=
  ⟨f.offset.toNat, f.stop⟩

/-- A fragment of this publication with its section's own bytes, wherever it starts and ends. -/
structure SliceOf (f : Fragment) (p : Publication) : Prop where
  key : f.key = p.key
  version : f.version = p.version
  length : f.sectionLength.toNat = (p.bytes f.sectionKind).length
  inside : f.stop ≤ (p.bytes f.sectionKind).length
  data : f.data = (p.bytes f.sectionKind).slice f.offset.toNat f.stop

instance (f : Fragment) (p : Publication) : Decidable (f.SliceOf p) :=
  decidable_of_iff
    (f.key = p.key ∧ f.version = p.version ∧
      f.sectionLength.toNat = (p.bytes f.sectionKind).length ∧
      f.stop ≤ (p.bytes f.sectionKind).length ∧
      f.data = (p.bytes f.sectionKind).slice f.offset.toNat f.stop)
    ⟨fun ⟨key, version, length, inside, data⟩ => ⟨key, version, length, inside, data⟩,
      fun ⟨key, version, length, inside, data⟩ => ⟨key, version, length, inside, data⟩⟩

/-- Three bytes with their checksum. -/
def Publication.sample : Publication where
  key := "k"
  version := .ofNumber 7
  properties := { entries := [("Content-MD5", "900150983cd24fb0d6963f7d28e17f72")]
                  ascending := by simp }
  payload := [97, 98, 99]

end BlobReplica.Fragment
