import BlobReplica.Digest.Crc32
import BlobReplica.Fragment
import BlobReplica.Text.Utf8

/-! Datagrams: the written form of a fragment. A header of fixed width, the key, the data and a
checksum of everything before it; reading accepts exactly what writing produces, up to the bounds
that the reader sets. -/

namespace BlobReplica.Datagram

/-- What every datagram starts with. -/
def magic : Bytes := [0x52, 0x50, 0x43, 0x46]

/-- The layout that this module writes and reads. -/
def layout : UInt8 := 1

def headerSize : Nat := 36

def trailerSize : Nat := 4

def maxSize : Nat := 65507

def maxKeySize : Nat := 1024

/-- The longest section that a datagram can declare. -/
def maxSectionSize : Nat := 0xffffffff

/-- Why a fragment has no datagram, or a byte string is none. -/
inductive Error where
  | truncated (needed actual : Nat)
  | tooLarge (size bound : Nat)
  | wrongMagic (found : Bytes)
  | unknownLayout (found : UInt8)
  | unknownSection (tag : UInt8)
  | keyLength (length : Nat)
  | keyText (fault : Utf8.Fault)
  | outOfBounds (offset length sectionLength : Nat)
  | trailingBytes (count : Nat)
  | checksum (expected actual : UInt32)
  | sectionTooLarge (length : Nat)
  | sectionLimit (sectionLength bound : Nat)
  | unreadableMetadata
deriving Repr, DecidableEq

def hexWord (w : UInt32) : String :=
  "0x" ++ String.ofList (Text.hexPadded 8 w.toNat)

def Error.message : Error → String
  | .truncated needed actual => s!"truncated datagram: need {needed} bytes, have {actual}"
  | .tooLarge size bound => s!"datagram too large: {size} bytes (max {bound})"
  | .wrongMagic found =>
    "bad magic: [" ++ ", ".intercalate (found.map fun b => String.ofList (Text.hexByteChars b)) ++ "]"
  | .unknownLayout found => s!"unsupported header version {found}"
  | .unknownSection tag => s!"unknown section kind {tag}"
  | .keyLength length => s!"invalid key: length {length}"
  | .keyText fault => "invalid key: " ++ fault.message
  | .outOfBounds offset length sectionLength =>
    s!"fragment [{offset}, {offset}+{length}) exceeds section length {sectionLength}"
  | .trailingBytes count => s!"{count} trailing bytes after fragment"
  | .checksum expected actual => s!"CRC mismatch: expected {hexWord expected}, got {hexWord actual}"
  | .sectionTooLarge length => s!"section too large: {length} bytes"
  | .sectionLimit sectionLength bound =>
    s!"declared section length {sectionLength} exceeds limit {bound}"
  | .unreadableMetadata => "metadata encoding error"

/-- Everything that the checksum covers. -/
def body (f : Fragment) : Bytes :=
  let key := Utf8.encode f.key
  magic ++ layout :: f.sectionKind.tag :: Bytes.bigEndian 2 key.length ++ f.version.bytes ++
    Bytes.bigEndian 4 f.sectionLength.toNat ++ Bytes.bigEndian 4 f.offset.toNat ++
    Bytes.bigEndian 4 f.data.length ++ key ++ f.data

def trailer (body : Bytes) (checksum : Bytes → UInt32 := Digest.crc32) : Bytes :=
  Bytes.bigEndian 4 (checksum body).toNat

def encode (f : Fragment) (checksum : Bytes → UInt32 := Digest.crc32) : Except Error Bytes :=
  let keySize := Utf8.size f.key
  let size := headerSize + keySize + f.data.length + trailerSize
  if keySize = 0 ∨ maxKeySize < keySize then .error (.keyLength keySize)
  else if ¬ f.WithinSection then
    .error (.outOfBounds f.offset.toNat (f.data.length % (maxSectionSize + 1)) f.sectionLength.toNat)
  else if maxSize < size then .error (.tooLarge size maxSize)
  else .ok (body f ++ trailer (body f) checksum)

/-- The number in the `width` bytes from `start` on. -/
def field (d : Bytes) (start width : Nat) : Nat :=
  Bytes.number ((d.drop start).take width)

/-- Reads a datagram of at most `sizeBound` bytes whose section is at most `sectionBound` long and whose
trailer is the checksum of what stands before it. -/
def decode (d : Bytes) (sizeBound : Nat := maxSize) (sectionBound : Nat := maxSectionSize)
    (checksum : Bytes → UInt32 := Digest.crc32) : Except Error Fragment :=
  let least := headerSize + trailerSize
  let found := d.getD 4 0
  let tag := d.getD 5 0
  let keySize := field d 6 2
  let sectionLength := field d 24 4
  let offset := field d 28 4
  let length := field d 32 4
  let bodySize := headerSize + keySize + length
  let needed := bodySize + trailerSize
  if sizeBound < d.length then .error (.tooLarge d.length sizeBound)
  else if d.length < least then .error (.truncated least d.length)
  else if d.take 4 ≠ magic then .error (.wrongMagic (d.take 4))
  else if found ≠ layout then .error (.unknownLayout found)
  else match Section.ofTag? tag with
  | none => .error (.unknownSection tag)
  | some sectionKind =>
    if keySize = 0 ∨ maxKeySize < keySize then .error (.keyLength keySize)
    else if sectionBound < sectionLength then .error (.sectionLimit sectionLength sectionBound)
    else if d.length < needed then .error (.truncated needed d.length)
    else if needed < d.length then .error (.trailingBytes (d.length - needed))
    else
      let expected := UInt32.ofNat (field d bodySize 4)
      let actual := checksum (d.take bodySize)
      if expected ≠ actual then .error (.checksum expected actual)
      else if sectionLength < offset + length then
        .error (.outOfBounds offset length sectionLength)
      else match Utf8.decode ((d.drop headerSize).take keySize) with
      | .error fault => .error (.keyText fault)
      | .ok key => .ok {
          key, sectionKind
          version := VersionId.ofBytes ((d.drop 8).take 16)
          sectionLength := UInt32.ofNat sectionLength
          offset := UInt32.ofNat offset
          data := (d.drop (headerSize + keySize)).take length }

end BlobReplica.Datagram
