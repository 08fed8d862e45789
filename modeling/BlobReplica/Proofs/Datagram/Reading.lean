import BlobReplica.Proofs.Datagram
import BlobReplica.Proofs.VersionId
import Mathlib.Data.List.GetD

/-! What a reader accepts: a byte string is read as a fragment only when it is the datagram of that
fragment, so reading and writing determine each other. -/

namespace BlobReplica

namespace VersionId

theorem bytes_ofBytes {bytes : Bytes} (width : bytes.length = 16) : (ofBytes bytes).bytes = bytes := by
  have below : Bytes.number bytes < 2 ^ 128 := by
    have := Bytes.number_lt bytes
    rw [width] at this
    omega
  rw [VersionId.bytes, ofBytes, number_ofNumber below, ← width, Bytes.bigEndian_number]

end VersionId

namespace Datagram

variable {f : Fragment} {d : Bytes} {sizeBound sectionBound : Nat} {checksum : Bytes → UInt32}

theorem field_lt (d : Bytes) (start width : Nat) : field d start width < 256 ^ width := by
  have spelled := Bytes.number_lt ((d.drop start).take width)
  refine Nat.lt_of_lt_of_le spelled (Nat.pow_le_pow_right (by decide) ?_)
  exact List.length_take_le _ _

theorem bigEndian_field {start width : Nat} (fits : start + width ≤ d.length) :
    Bytes.bigEndian width (field d start width) = (d.drop start).take width := by
  have long : ((d.drop start).take width).length = width := by
    rw [List.length_take, List.length_drop]
    omega
  have written := Bytes.bigEndian_number ((d.drop start).take width)
  rwa [long] at written

/-- What is known of a byte string that was read as a fragment. -/
structure Read (sizeBound sectionBound : Nat) (checksum : Bytes → UInt32) (d : Bytes) (f : Fragment) :
    Prop where
  short : d.length ≤ sizeBound
  known : d.take 4 = magic
  layout : d.getD 4 0 = layout
  tag : d.getD 5 0 = f.sectionKind.tag
  keySize : 0 < field d 6 2 ∧ field d 6 2 ≤ maxKeySize
  bounded : field d 24 4 ≤ sectionBound
  /-- Nothing is missing and nothing follows. -/
  length : d.length = headerSize + field d 6 2 + field d 32 4 + trailerSize
  check : UInt32.ofNat (field d (headerSize + field d 6 2 + field d 32 4) 4) =
    checksum (d.take (headerSize + field d 6 2 + field d 32 4))
  inside : field d 28 4 + field d 32 4 ≤ field d 24 4
  key : Utf8.decode ((d.drop headerSize).take (field d 6 2)) = .ok f.key
  version : f.version = VersionId.ofBytes ((d.drop 8).take 16)
  sectionLength : f.sectionLength = UInt32.ofNat (field d 24 4)
  offset : f.offset = UInt32.ofNat (field d 28 4)
  data : f.data = (d.drop (headerSize + field d 6 2)).take (field d 32 4)

theorem of_check {α : Type} {fails : Prop} [Decidable fails] {e : Error} {rest : Except Error α}
    {result : α} (h : (if fails then .error e else rest) = .ok result) :
    ¬ fails ∧ rest = .ok result := by
  split at h
  next => contradiction
  next passes => exact ⟨passes, h⟩

/-- Reading succeeds only after all its checks. -/
theorem read_of_decode (decoded : decode d sizeBound sectionBound checksum = .ok f) :
    Read sizeBound sectionBound checksum d f := by
  unfold decode at decoded
  obtain ⟨short, decoded⟩ := of_check decoded
  obtain ⟨least, decoded⟩ := of_check decoded
  obtain ⟨known, decoded⟩ := of_check decoded
  obtain ⟨layout, decoded⟩ := of_check decoded
  split at decoded
  next => contradiction
  next kind tag =>
    obtain ⟨keySize, decoded⟩ := of_check decoded
    obtain ⟨bounded, decoded⟩ := of_check decoded
    obtain ⟨enough, decoded⟩ := of_check decoded
    obtain ⟨full, decoded⟩ := of_check decoded
    obtain ⟨check, decoded⟩ := of_check decoded
    obtain ⟨inside, decoded⟩ := of_check decoded
    split at decoded
    next => contradiction
    next key text =>
      obtain rfl := Except.ok.inj decoded
      exact {
        short := by omega
        known := Decidable.not_not.mp known
        layout := Decidable.not_not.mp layout
        tag := Section.ofTag?_eq_some.mp tag
        keySize := by omega
        bounded := by omega
        length := by omega
        check := Decidable.not_not.mp check
        inside := by omega
        key := text
        version := rfl
        sectionLength := rfl
        offset := rfl
        data := rfl }

namespace Read

variable (read : Read sizeBound sectionBound checksum d f)
include read

theorem lengths : (Utf8.encode f.key).length = field d 6 2 ∧ f.data.length = field d 32 4 := by
  have whole := read.length
  rw [Utf8.encode_of_decode read.key, read.data, List.length_take, List.length_drop, List.length_take,
    List.length_drop]
  omega

theorem words : f.sectionLength.toNat = field d 24 4 ∧ f.offset.toNat = field d 28 4 := by
  rw [read.sectionLength, read.offset, UInt32.toNat_ofNat_of_lt' (field_lt d 24 4),
    UInt32.toNat_ofNat_of_lt' (field_lt d 28 4)]
  exact ⟨rfl, rfl⟩

theorem lead : (d.drop 4).take 2 = [Datagram.layout, f.sectionKind.tag] := by
  have whole := read.length
  have fits : 5 < d.length := by
    rw [whole, headerSize]
    omega
  have before : 4 < d.length := Nat.lt_of_succ_lt fits
  rw [← read.layout, ← read.tag, List.drop_eq_getElem_cons before, List.drop_eq_getElem_cons fits,
    List.getD_eq_getElem _ _ before, List.getD_eq_getElem _ _ fits]
  rfl

theorem header_eq : d.take headerSize = magic ++ [Datagram.layout, f.sectionKind.tag] ++
    Bytes.bigEndian 2 (field d 6 2) ++ f.version.bytes ++ Bytes.bigEndian 4 (field d 24 4) ++
    Bytes.bigEndian 4 (field d 28 4) ++ Bytes.bigEndian 4 (field d 32 4) := by
  have whole := read.length
  have fits : 36 ≤ d.length := by
    rw [whole, headerSize]
    omega
  have version : f.version.bytes = (d.drop 8).take 16 := by
    rw [read.version, VersionId.bytes_ofBytes]
    rw [List.length_take, List.length_drop]
    omega
  calc d.take headerSize
      = d.take 4 ++ (d.drop 4).take 2 ++ (d.drop 6).take 2 ++ (d.drop 8).take 16 ++
        (d.drop 24).take 4 ++ (d.drop 28).take 4 ++ (d.drop 32).take 4 := by
        simp only [← List.take_add, headerSize, Nat.reduceAdd]
    _ = _ := by
        rw [read.known, read.lead, version, bigEndian_field (by omega), bigEndian_field (by omega),
          bigEndian_field (by omega), bigEndian_field (by omega)]

theorem body_eq : body f = d.take (headerSize + field d 6 2 + field d 32 4) := by
  obtain ⟨keySize, length⟩ := read.lengths
  obtain ⟨sectionLength, offset⟩ := read.words
  calc body f
      = d.take headerSize ++ Utf8.encode f.key ++ f.data := by
        rw [read.header_eq]
        simp only [body, keySize, length, sectionLength, offset, List.append_assoc, List.cons_append,
          List.nil_append]
    _ = _ := by
        rw [Utf8.encode_of_decode read.key, read.data, ← List.take_add, ← List.take_add]

/-- The checksum of the body stands behind it, and nothing else does. -/
theorem drop_body : d.drop (headerSize + field d 6 2 + field d 32 4) = trailer (body f) checksum := by
  have whole := read.length
  rw [trailerSize] at whole
  have last : (d.drop (headerSize + field d 6 2 + field d 32 4)).length = 4 := by
    rw [List.length_drop]
    omega
  have check : (checksum (body f)).toNat =
      field d (headerSize + field d 6 2 + field d 32 4) 4 := by
    rw [read.body_eq, ← read.check, UInt32.toNat_ofNat_of_lt' (field_lt d _ 4)]
  rw [trailer, check, bigEndian_field (by omega), List.take_of_length_le (Nat.le_of_eq last)]

theorem written (within : sizeBound ≤ maxSize) : Written checksum f d := by
  obtain ⟨keySize, length⟩ := read.lengths
  obtain ⟨sectionLength, offset⟩ := read.words
  have bounds := read.keySize
  have inside := read.inside
  have whole := read.length
  have short := read.short
  constructor
  case key =>
    rw [Utf8.size, keySize]
    exact bounds
  case inside =>
    rw [Fragment.WithinSection, Fragment.stop]
    omega
  case short =>
    rw [Utf8.size]
    omega
  case form => rw [← read.drop_body, read.body_eq, List.take_append_drop]

end Read

theorem withinSection_of_decode (decoded : decode d sizeBound sectionBound checksum = .ok f) :
    f.WithinSection := by
  have read := read_of_decode decoded
  rw [Fragment.WithinSection, Fragment.stop, read.words.1, read.words.2, read.lengths.2]
  exact read.inside

theorem sectionLength_le_of_decode (decoded : decode d sizeBound sectionBound checksum = .ok f) :
    f.sectionLength.toNat ≤ sectionBound := by
  have read := read_of_decode decoded
  exact read.words.1 ▸ read.bounded

/-- A datagram that a fragment was written into is read as that fragment, or not at all. -/
theorem eq_of_decode_encoded {g : Fragment} (encoded : encode f checksum = .ok d)
    (decoded : decode d sizeBound sectionBound checksum = .ok g) : g = f := by
  have read := read_of_decode decoded
  have length : field d 24 4 = f.sectionLength.toNat :=
    field_eq (encode_eq_ok.mp encoded).layout.sectionLength f.sectionLength.toNat_lt
  have own := decode_encode encoded read.short (length ▸ read.bounded)
  exact Except.ok.inj (decoded.symm.trans own)

/-- Reading accepts exactly the datagrams of fragments that fit the reader's bounds, with whatever
checksum they are written. So what was written is read back, and no two datagrams are read as the same
fragment. -/
theorem decode_eq_ok_iff (within : sizeBound ≤ maxSize) (sectionBound : Nat)
    (checksum : Bytes → UInt32) :
    (∀ d f, decode d sizeBound sectionBound checksum = .ok f ↔
      encode f checksum = .ok d ∧ d.length ≤ sizeBound ∧ f.sectionLength.toNat ≤ sectionBound) ∧
    (∀ f d, encode f checksum = .ok d → decode d maxSize maxSectionSize checksum = .ok f) ∧
    ∀ d d' f, decode d sizeBound sectionBound checksum = .ok f →
      decode d' sizeBound sectionBound checksum = .ok f → d = d' := by
  have accepts (d : Bytes) (f : Fragment) : decode d sizeBound sectionBound checksum = .ok f ↔
      encode f checksum = .ok d ∧ d.length ≤ sizeBound ∧ f.sectionLength.toNat ≤ sectionBound := by
    constructor
    · intro decoded
      have read := read_of_decode decoded
      exact ⟨encode_eq_ok.mpr (read.written within), read.short, read.words.1 ▸ read.bounded⟩
    · rintro ⟨encoded, short, bounded⟩
      exact decode_encode encoded short bounded
  refine ⟨accepts, ?_, ?_⟩
  · intro f d encoded
    have written := encode_eq_ok.mp encoded
    exact decode_encode encoded (written.length ▸ written.short)
      (Nat.le_of_lt_succ f.sectionLength.toNat_lt)
  · intro d d' f first second
    have first := ((accepts d f).mp first).1
    have second := ((accepts d' f).mp second).1
    exact Except.ok.inj (first.symm.trans second)

def sample : Fragment := ⟨"k", .ofNumber 7, .payload, 3, 1, [98, 99]⟩

theorem decode_eq_ok_iff_sample :
    60 ≤ maxSize ∧ decode (body sample ++ trailer (body sample)) 60 3 = .ok sample := by
  refine ⟨by decide, ((decode_eq_ok_iff (by decide) 3 Digest.crc32).1 _ _).mpr ⟨?_, ?_, ?_⟩⟩
  · decide +kernel
  · decide +kernel
  · decide

end Datagram
end BlobReplica
