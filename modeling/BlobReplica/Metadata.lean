import BlobReplica.Property
import BlobReplica.Text.Utf8

/-! The metadata section: a count of properties, then name and value of each in ascending order of
the names. Counts and lengths are eight bytes, least significant first; what follows the last
property is not looked at. -/

namespace BlobReplica.Metadata

def encodeText (s : String) : Bytes :=
  Bytes.littleEndian 8 (Utf8.size s) ++ Utf8.encode s

def encodeEntry (entry : String × String) : Bytes :=
  encodeText entry.1 ++ encodeText entry.2

def encode (ps : Properties) : Bytes :=
  Bytes.littleEndian 8 ps.size ++ ps.entries.flatMap encodeEntry

def readLength (bytes : Bytes) : Option (Nat × Bytes) :=
  (Bytes.split? 8 bytes).map fun (front, rest) => (Bytes.numberLittle front, rest)

def readText (bytes : Bytes) : Option (String × Bytes) := do
  let (length, rest) ← readLength bytes
  let (front, rest) ← Bytes.split? length rest
  let s ← Utf8.decode? front
  return (s, rest)

/-- Reads `count` entries into a table; of two with one name the later stays. -/
def readEntries : Nat → Properties → Bytes → Option Properties
  | 0, ps, _ => some ps
  | count + 1, ps, bytes =>
    match readText bytes with
    | none => none
    | some (name, rest) =>
      match readText rest with
      | none => none
      | some (value, rest) => readEntries count (Table.insert ps name value) rest

def decode? (bytes : Bytes) : Option Properties :=
  match readLength bytes with
  | none => none
  | some (count, rest) => readEntries count .empty rest

end BlobReplica.Metadata
