import BlobReplica.Datagram
import BlobReplica.Proofs.Bytes

/-! Reading a datagram with every access checked. The key and the data are as long as the header says,
so what is looked at depends on what has been read before; a checked access breaks off where it would
leave the datagram. -/

namespace BlobReplica

/-- The bytes of `[start, stop)`, if they are all there. -/
def Bytes.between? (bytes : Bytes) (start stop : Nat) : Option Bytes :=
  if start ≤ stop ∧ stop ≤ bytes.length then some (bytes.slice start stop) else none

theorem Bytes.between?_eq {bytes : Bytes} {start stop : Nat} (ordered : start ≤ stop)
    (inside : stop ≤ bytes.length) : bytes.between? start stop = some (bytes.slice start stop) :=
  if_pos ⟨ordered, inside⟩

theorem Bytes.between?_add {bytes : Bytes} {start width : Nat} (inside : start + width ≤ bytes.length) :
    bytes.between? start (start + width) = some ((bytes.drop start).take width) := by
  rw [between?_eq (Nat.le_add_right start width) inside, slice, Nat.add_sub_cancel_left]

theorem Bytes.between?_end {bytes : Bytes} {start : Nat} (inside : start ≤ bytes.length) :
    bytes.between? start bytes.length = some (bytes.drop start) := by
  rw [between?_eq inside (Nat.le_refl _), slice, ← List.length_drop, List.take_length]

namespace Datagram

def field? (d : Bytes) (start width : Nat) : Option Nat :=
  (d.between? start (start + width)).map Bytes.number

/-- What follows the fixed header, of which the lengths are known. -/
def decodeRest? (d : Bytes) (checksum : Bytes → UInt32) (sectionKind : Section) (version : Bytes)
    (keySize sectionLength offset length : Nat) : Option (Except Error Fragment) :=
  let bodySize := headerSize + keySize + length
  let needed := bodySize + trailerSize
  if d.length < needed then some (.error (.truncated needed d.length))
  else if needed < d.length then some (.error (.trailingBytes (d.length - needed)))
  else (field? d bodySize 4).bind fun word => (d.between? 0 bodySize).bind fun covered =>
    let expected := UInt32.ofNat word
    let actual := checksum covered
    if expected ≠ actual then some (.error (.checksum expected actual))
    else if sectionLength < offset + length then
      some (.error (.outOfBounds offset length sectionLength))
    else (d.between? headerSize (headerSize + keySize)).bind fun text =>
      match Utf8.decode text with
      | .error fault => some (.error (.keyText fault))
      | .ok key => (d.between? (headerSize + keySize) bodySize).map fun data => .ok {
          key, sectionKind
          version := VersionId.ofBytes version
          sectionLength := UInt32.ofNat sectionLength
          offset := UInt32.ofNat offset
          data }

/-- Reads a datagram whose bytes are looked at only where there are any. -/
def decode? (d : Bytes) (sizeBound sectionBound : Nat) (checksum : Bytes → UInt32 := Digest.crc32) :
    Option (Except Error Fragment) :=
  let least := headerSize + trailerSize
  if sizeBound < d.length then some (.error (.tooLarge d.length sizeBound))
  else if d.length < least then some (.error (.truncated least d.length))
  else (d.between? 0 4).bind fun known =>
    if known ≠ magic then some (.error (.wrongMagic known))
    else d[4]?.bind fun found =>
      if found ≠ layout then some (.error (.unknownLayout found))
      else d[5]?.bind fun tag => match Section.ofTag? tag with
      | none => some (.error (.unknownSection tag))
      | some sectionKind => (field? d 6 2).bind fun keySize =>
        if keySize = 0 ∨ maxKeySize < keySize then some (.error (.keyLength keySize))
        else (d.between? 8 24).bind fun version => (field? d 24 4).bind fun sectionLength =>
          (field? d 28 4).bind fun offset => (field? d 32 4).bind fun length =>
            if sectionBound < sectionLength then
              some (.error (.sectionLimit sectionLength sectionBound))
            else decodeRest? d checksum sectionKind version keySize sectionLength offset length

variable {d : Bytes}

theorem field?_eq {start width : Nat} (inside : start + width ≤ d.length) :
    field? d start width = some (field d start width) := by
  rw [field?, Bytes.between?_add inside]
  rfl

theorem getElem?_eq_getD {i : Nat} (inside : i < d.length) : d[i]? = some (d.getD i 0) := by
  rw [List.getD_eq_getElem?_getD, List.getElem?_eq_getElem inside, Option.getD_some]

theorem check_eq {α : Type} {fails : Prop} [Decidable fails] {e : Error}
    {checked : Option (Except Error α)} {read : Except Error α}
    (same : ¬ fails → checked = some read) :
    (if fails then some (.error e) else checked) = some (if fails then .error e else read) := by
  split
  next => rfl
  next passes => exact same passes

/-- No byte string makes the reader look beyond its end. -/
theorem decode?_eq (d : Bytes) (sizeBound sectionBound : Nat) (checksum : Bytes → UInt32) :
    decode? d sizeBound sectionBound checksum = some (decode d sizeBound sectionBound checksum) := by
  refine check_eq fun _ => check_eq fun short => ?_
  have least : 40 ≤ d.length := Nat.not_lt.mp short
  rw [Bytes.between?_eq (Nat.zero_le 4) (by omega), Option.bind_some]
  refine check_eq fun _ => ?_
  rw [getElem?_eq_getD (by omega), Option.bind_some]
  refine check_eq fun _ => ?_
  rw [getElem?_eq_getD (by omega), Option.bind_some]
  cases Section.ofTag? (d.getD 5 0) with
  | none => rfl
  | some sectionKind =>
    simp only
    rw [field?_eq (by omega), Option.bind_some]
    refine check_eq fun _ => ?_
    rw [Bytes.between?_eq (by decide) (by omega), Option.bind_some, field?_eq (by omega),
      Option.bind_some, field?_eq (by omega), Option.bind_some, field?_eq (by omega),
      Option.bind_some, decodeRest?]
    refine check_eq fun _ => check_eq fun truncated => check_eq fun _ => ?_
    have enough : headerSize + field d 6 2 + field d 32 4 + 4 ≤ d.length := Nat.not_lt.mp truncated
    rw [field?_eq enough, Option.bind_some, Bytes.between?_eq (Nat.zero_le _) (by omega),
      Option.bind_some]
    refine check_eq fun _ => check_eq fun _ => ?_
    rw [Bytes.between?_add (by omega), Option.bind_some]
    cases Utf8.decode ((d.drop headerSize).take (field d 6 2)) with
    | error fault => rfl
    | ok key =>
      simp only
      rw [Bytes.between?_add (by omega), Option.map_some]
      rfl

end Datagram
end BlobReplica
