import BlobReplica.Datagram
import BlobReplica.Proofs.Bytes
import BlobReplica.Proofs.Text.Utf8

/-! Reading a datagram gives the fragment that was written, within the bounds of the reader. -/

namespace BlobReplica

namespace Bytes

/-- Whether `part` stands in `bytes` from `start` on. -/
def StandsAt (bytes : Bytes) (start : Nat) (part : Bytes) : Prop :=
  ∃ front back, bytes = front ++ (part ++ back) ∧ front.length = start

variable {bytes part : Bytes} {start width : Nat}

theorem StandsAt.take_drop (stands : bytes.StandsAt start part) (long : part.length = width) :
    (bytes.drop start).take width = part := by
  obtain ⟨front, back, rfl, rfl⟩ := stands
  rw [List.drop_left, ← long, List.take_left]

theorem standsAt_flatten {parts : List Bytes} (whole : bytes = parts.flatten) (i : Nat)
    (here : parts[i]? = some part) (before : (parts.take i).flatten.length = start) :
    bytes.StandsAt start part := by
  obtain ⟨below, here⟩ := List.getElem?_eq_some_iff.mp here
  refine ⟨(parts.take i).flatten, (parts.drop (i + 1)).flatten, ?_, before⟩
  rw [← here, ← List.flatten_cons, ← List.drop_eq_getElem_cons below, ← List.flatten_append,
    List.take_append_drop, whole]

end Bytes

namespace VersionId

theorem ofBytes_bytes (v : VersionId) : ofBytes v.bytes = v := by
  have below : v.number < 256 ^ 16 := v.bits.isLt
  rw [ofBytes, bytes, Bytes.number_bigEndian, Nat.mod_eq_of_lt below, ofNumber, number,
    BitVec.ofNat_toNat, BitVec.setWidth_eq]

theorem length_bytes (v : VersionId) : v.bytes.length = 16 :=
  Bytes.length_bigEndian 16 _

end VersionId

namespace Datagram

variable {f : Fragment} {d : Bytes} {checksum : Bytes → UInt32}

/-- What is known of a fragment that has a datagram. -/
structure Written (checksum : Bytes → UInt32) (f : Fragment) (d : Bytes) : Prop where
  key : 0 < Utf8.size f.key ∧ Utf8.size f.key ≤ maxKeySize
  inside : f.WithinSection
  short : headerSize + Utf8.size f.key + f.data.length + trailerSize ≤ maxSize
  form : d = body f ++ trailer (body f) checksum

theorem encode_eq_ok : encode f checksum = .ok d ↔ Written checksum f d := by
  rw [encode]
  constructor
  · intro encoded
    split at encoded
    next => contradiction
    next key =>
      split at encoded
      next => contradiction
      next inside =>
        split at encoded
        next => contradiction
        next short =>
          exact ⟨by omega, Decidable.not_not.mp inside, Nat.not_lt.mp short,
            (Except.ok.inj encoded).symm⟩
  · intro written
    have key := written.key
    have short := written.short
    rw [if_neg (by omega), if_neg (not_not_intro written.inside), if_neg (by omega), written.form]

theorem length_body (f : Fragment) :
    (body f).length = headerSize + Utf8.size f.key + f.data.length := by
  simp only [body, magic, headerSize, Utf8.size, List.length_append, List.length_cons,
    List.length_nil, Bytes.length_bigEndian, VersionId.length_bytes]

theorem length_trailer (bytes : Bytes) : (trailer bytes checksum).length = 4 :=
  Bytes.length_bigEndian 4 _

theorem Written.length (written : Written checksum f d) :
    d.length = headerSize + Utf8.size f.key + f.data.length + trailerSize := by
  rw [written.form, List.length_append, length_body, length_trailer, trailerSize]

theorem field_eq {start width n : Nat} (stands : d.StandsAt start (Bytes.bigEndian width n))
    (fits : n < 256 ^ width) : field d start width = n := by
  rw [field, stands.take_drop (Bytes.length_bigEndian width n), Bytes.number_bigEndian,
    Nat.mod_eq_of_lt fits]

/-- Where the parts of a datagram stand. -/
structure Layout (checksum : Bytes → UInt32) (f : Fragment) (d : Bytes) : Prop where
  front : d.StandsAt 0 (magic ++ [layout, f.sectionKind.tag])
  keySize : d.StandsAt 6 (Bytes.bigEndian 2 (Utf8.size f.key))
  version : d.StandsAt 8 f.version.bytes
  sectionLength : d.StandsAt 24 (Bytes.bigEndian 4 f.sectionLength.toNat)
  offset : d.StandsAt 28 (Bytes.bigEndian 4 f.offset.toNat)
  length : d.StandsAt 32 (Bytes.bigEndian 4 f.data.length)
  key : d.StandsAt headerSize (Utf8.encode f.key)
  data : d.StandsAt (headerSize + Utf8.size f.key) f.data
  checksum : d.StandsAt (headerSize + Utf8.size f.key + f.data.length)
    (trailer (body f) checksum)

def parts (checksum : Bytes → UInt32) (f : Fragment) : List Bytes :=
  [magic ++ [layout, f.sectionKind.tag], Bytes.bigEndian 2 (Utf8.size f.key), f.version.bytes,
    Bytes.bigEndian 4 f.sectionLength.toNat, Bytes.bigEndian 4 f.offset.toNat,
    Bytes.bigEndian 4 f.data.length, Utf8.encode f.key, f.data,
    trailer (body f) checksum]

theorem Written.layout (written : Written checksum f d) : Layout checksum f d := by
  have whole : d = (parts checksum f).flatten := by
    rw [written.form]
    simp [parts, body, Utf8.size]
  have version := f.version.length_bytes
  have magic : magic.length = 4 := rfl
  have size : (Utf8.encode f.key).length = Utf8.size f.key := rfl
  constructor
  case front => exact Bytes.standsAt_flatten whole 0 rfl rfl
  case keySize => exact Bytes.standsAt_flatten whole 1 rfl rfl
  case version => exact Bytes.standsAt_flatten whole 2 rfl rfl
  case sectionLength => exact Bytes.standsAt_flatten whole 3 rfl (by simp [parts, magic, version])
  case offset => exact Bytes.standsAt_flatten whole 4 rfl (by simp [parts, magic, version])
  case length => exact Bytes.standsAt_flatten whole 5 rfl (by simp [parts, magic, version])
  case key => exact Bytes.standsAt_flatten whole 6 rfl (by simp [parts, magic, version, headerSize])
  case data =>
    refine Bytes.standsAt_flatten whole 7 rfl ?_
    simp [parts, magic, version, headerSize, size]
    omega
  case checksum =>
    refine Bytes.standsAt_flatten whole 8 rfl ?_
    simp [parts, magic, version, headerSize, size]
    omega

theorem Layout.lead (layout : Layout checksum f d) :
    d.take 4 = magic ∧ d.getD 4 0 = Datagram.layout ∧ d.getD 5 0 = f.sectionKind.tag := by
  have front : d.take 6 = magic ++ [Datagram.layout, f.sectionKind.tag] :=
    layout.front.take_drop rfl
  have lead (i : Nat) (below : i < 6) : d.getD i 0 = (d.take 6).getD i 0 := by
    simp [List.getD, List.getElem?_take_of_lt below]
  have part : d.take 4 = (d.take 6).take 4 := by
    rw [List.take_take]
    rfl
  refine ⟨?_, ?_, ?_⟩
  · rw [part, front]
    rfl
  · rw [lead 4 (by decide), front]
    rfl
  · rw [lead 5 (by decide), front]
    rfl

theorem Layout.version_eq (layout : Layout checksum f d) :
    VersionId.ofBytes ((d.drop 8).take 16) = f.version := by
  rw [layout.version.take_drop f.version.length_bytes, VersionId.ofBytes_bytes]

theorem Layout.key_eq (layout : Layout checksum f d) :
    Utf8.decode ((d.drop headerSize).take (Utf8.size f.key)) = .ok f.key := by
  rw [layout.key.take_drop (show _ = Utf8.size f.key from rfl), Utf8.decode_encode]

theorem Written.take_body (written : Written checksum f d) :
    d.take (headerSize + Utf8.size f.key + f.data.length) = body f := by
  rw [written.form, ← length_body, List.take_left]

/-- Reading undoes writing, within the bounds of the reader. -/
theorem decode_encode {sizeBound sectionBound : Nat} (encoded : encode f checksum = .ok d)
    (short : d.length ≤ sizeBound) (bounded : f.sectionLength.toNat ≤ sectionBound) :
    decode d sizeBound sectionBound checksum = .ok f := by
  have written := encode_eq_ok.mp encoded
  have layout := written.layout
  have size := written.length
  have key := written.key
  have limit := written.short
  have inside := written.inside
  have small : maxSize < 256 ^ 4 ∧ maxKeySize < 256 ^ 2 := by decide
  obtain ⟨known, found, tag⟩ := layout.lead
  have keySize : field d 6 2 = Utf8.size f.key := field_eq layout.keySize (by omega)
  have sectionLength : field d 24 4 = f.sectionLength.toNat :=
    field_eq layout.sectionLength f.sectionLength.toNat_lt
  have offset : field d 28 4 = f.offset.toNat := field_eq layout.offset f.offset.toNat_lt
  have length : field d 32 4 = f.data.length := field_eq layout.length (by omega)
  have check : field d (headerSize + Utf8.size f.key + f.data.length) 4 =
      (checksum (body f)).toNat := field_eq layout.checksum (UInt32.toNat_lt _)
  have data : (d.drop (headerSize + Utf8.size f.key)).take f.data.length = f.data :=
    layout.data.take_drop rfl
  simp only [Fragment.WithinSection, Fragment.stop] at inside
  simp only [decode, keySize, sectionLength, offset, length, check, written.take_body, known,
    found, tag, layout.version_eq, layout.key_eq, data, Section.ofTag?_eq_some.mpr rfl,
    UInt32.ofNat_toNat]
  rw [if_neg (by omega), if_neg (by omega), if_neg (by simp), if_neg (by simp),
    if_neg (by omega), if_neg (by omega), if_neg (by omega), if_neg (by omega), if_neg (by simp),
    if_neg (by omega)]

end Datagram
end BlobReplica
