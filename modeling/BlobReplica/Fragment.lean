import BlobReplica.Text.Quoted
import BlobReplica.VersionId

/-! Fragments: slices of the two sections that an object travels in. -/

namespace BlobReplica

/-- The parts an object is sent in: its encoded properties and its bytes. -/
inductive Section where
  | metadata
  | payload
deriving DecidableEq, Repr

namespace Section

/-- The byte that stands for a section in a datagram. -/
def tag : Section → UInt8
  | .metadata => 0
  | .payload => 1

def ofTag? (b : UInt8) : Option Section :=
  if b = 0 then some .metadata else if b = 1 then some .payload else none

def name : Section → String
  | .metadata => "metadata"
  | .payload => "payload"

def debug : Section → String
  | .metadata => "Metadata"
  | .payload => "Payload"

theorem ofTag?_eq_some {b : UInt8} {s : Section} : ofTag? b = some s ↔ b = s.tag := by
  unfold ofTag?
  cases s <;> grind [tag]

end Section

/-- A slice of one section of one version of an object. -/
structure Fragment where
  key : String
  version : VersionId
  sectionKind : Section
  /-- The declared length of the whole section. -/
  sectionLength : UInt32
  offset : UInt32
  data : Bytes
deriving DecidableEq, Repr

namespace Fragment

/-- Where the slice ends within its section. -/
def stop (f : Fragment) : Nat :=
  f.offset.toNat + f.data.length

/-- Whether the slice lies inside its section. -/
def WithinSection (f : Fragment) : Prop :=
  f.stop ≤ f.sectionLength.toNat

instance (f : Fragment) : Decidable f.WithinSection :=
  inferInstanceAs (Decidable (_ ≤ _))

def debug (f : Fragment) : String :=
  "Fragment \x7b key: " ++ Text.quote f.key ++ ", version: " ++ f.version.debug ++
    ", section: " ++ f.sectionKind.debug ++ s!", range: {f.offset.toNat}..{f.stop}" ++
    s!", section_len: {f.sectionLength.toNat}" ++ " \x7d"

end Fragment
end BlobReplica
