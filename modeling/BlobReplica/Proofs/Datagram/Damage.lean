import BlobReplica.Proofs.Datagram.Reading
import BlobReplica.Proofs.Digest.Crc32

/-! A datagram of which one byte has changed is refused, whatever byte it is. A change of the key's or
the data's length moves the end that they describe, any other change before the trailer makes another
checksum, and a changed trailer is not the checksum of what stands before it. -/

namespace BlobReplica

namespace Bytes

variable {bytes : Bytes} {i start stop : Nat} {old new : UInt8}

theorem number_inj {xs ys : Bytes} (same : xs.length = ys.length) (numbers : number xs = number ys) :
    xs = ys := by
  rw [← bigEndian_number xs, ← bigEndian_number ys, same, numbers]

theorem slice_set (outside : i < start ∨ stop ≤ i) (bytes : Bytes) (new : UInt8) :
    slice (bytes.set i new) start stop = bytes.slice start stop := by
  apply slice_congr
  intro j first last
  exact List.getElem?_set_ne (by omega)

theorem slice_set_ne (here : bytes[i]? = some old) (other : new ≠ old) (first : start ≤ i)
    (last : i < stop) : slice (bytes.set i new) start stop ≠ bytes.slice start stop := by
  intro same
  have place : start + (i - start) = i := by omega
  have byte : (slice (bytes.set i new) start stop)[i - start]? = (bytes.slice start stop)[i - start]? := by
    rw [same]
  rw [getElem?_slice (by omega), getElem?_slice (by omega), place, here,
    List.getElem?_set_self (List.getElem?_eq_some_iff.mp here).1] at byte
  exact other (Option.some.inj byte)

end Bytes

namespace Datagram

variable {f : Fragment} {d : Bytes} {i start width : Nat} {old new : UInt8}

theorem field_eq_slice (d : Bytes) (start width : Nat) :
    field d start width = Bytes.number (d.slice start (start + width)) := by
  rw [field, Bytes.slice, Nat.add_sub_cancel_left]

theorem field_set (outside : i < start ∨ start + width ≤ i) (d : Bytes) (new : UInt8) :
    field (d.set i new) start width = field d start width := by
  rw [field_eq_slice, field_eq_slice, Bytes.slice_set outside]

theorem field_set_ne (here : d[i]? = some old) (other : new ≠ old) (first : start ≤ i)
    (last : i < start + width) : field (d.set i new) start width ≠ field d start width := by
  intro same
  rw [field_eq_slice, field_eq_slice] at same
  refine Bytes.slice_set_ne here other first last (Bytes.number_inj ?_ same)
  simp only [Bytes.slice, List.length_take, List.length_drop, List.length_set]

def bodySize (d : Bytes) : Nat :=
  headerSize + field d 6 2 + field d 32 4

/-- Nothing is missing and nothing follows, and the trailer is the checksum of what stands before it. -/
structure Sealed (d : Bytes) : Prop where
  length : d.length = bodySize d + trailerSize
  check : field d (bodySize d) 4 = (Digest.crc32 (d.take (bodySize d))).toNat

theorem sealed_of_decode {sizeBound sectionBound : Nat}
    (decoded : decode d sizeBound sectionBound = .ok f) : Sealed d := by
  have read := read_of_decode decoded
  constructor
  · exact read.length
  · rw [bodySize, ← read.check, UInt32.toNat_ofNat_of_lt' (field_lt d _ 4)]

/-- Of the lengths a change can hit one only, so it shows in their sum. -/
theorem bodySize_set_ne (here : d[i]? = some old) (other : new ≠ old)
    (length : (6 ≤ i ∧ i < 8) ∨ (32 ≤ i ∧ i < 36)) : bodySize (d.set i new) ≠ bodySize d := by
  intro same
  rw [bodySize, bodySize] at same
  rcases length with ⟨first, last⟩ | ⟨first, last⟩
  · have keySize : field (d.set i new) 6 2 ≠ field d 6 2 := field_set_ne here other first last
    have dataSize : field (d.set i new) 32 4 = field d 32 4 := field_set (.inl (by omega)) d new
    omega
  · have keySize : field (d.set i new) 6 2 = field d 6 2 := field_set (.inr (by omega)) d new
    have dataSize : field (d.set i new) 32 4 ≠ field d 32 4 := field_set_ne here other first last
    omega

theorem bodySize_set (elsewhere : ¬ ((6 ≤ i ∧ i < 8) ∨ (32 ≤ i ∧ i < 36))) (d : Bytes) (new : UInt8) :
    bodySize (d.set i new) = bodySize d := by
  have keySize : field (d.set i new) 6 2 = field d 6 2 := field_set (by omega) d new
  have dataSize : field (d.set i new) 32 4 = field d 32 4 := field_set (by omega) d new
  rw [bodySize, bodySize, keySize, dataSize]

/-- One changed byte breaks the seal. -/
theorem Sealed.not_set (whole : Sealed d) (here : d[i]? = some old) (other : new ≠ old) :
    ¬ Sealed (d.set i new) := by
  intro altered
  have below := (List.getElem?_eq_some_iff.mp here).1
  have size := altered.length
  have check := altered.check
  rw [List.length_set, whole.length] at size
  by_cases length : (6 ≤ i ∧ i < 8) ∨ (32 ≤ i ∧ i < 36)
  · have := bodySize_set_ne here other length
    omega
  rw [bodySize_set length] at check
  by_cases inside : i < bodySize d
  · -- the trailer is as it was, and the body is not
    rw [field_set (.inl inside), whole.check, List.take_set] at check
    refine Digest.crc32_set_ne ?_ other (UInt32.toNat_inj.mp check.symm)
    rw [List.getElem?_take_of_lt inside, here]
  · -- the body is as it was, and the trailer is not
    have last : i < bodySize d + 4 := whole.length ▸ below
    rw [List.take_set_of_le (Nat.not_lt.mp inside), ← whole.check] at check
    exact field_set_ne here other (Nat.not_lt.mp inside) last check

/-- Whatever the bounds of the reader, it refuses a datagram in which one byte is not the one that was
written. -/
theorem decode_altered (encoded : encode f = .ok d) (here : d[i]? = some old) (other : new ≠ old)
    (sizeBound sectionBound : Nat) : ∃ e, decode (d.set i new) sizeBound sectionBound = .error e := by
  have written := encode_eq_ok.mp encoded
  have whole : Sealed d := sealed_of_decode (decode_encode encoded (Nat.le_refl _) (Nat.le_refl _))
  cases read : decode (d.set i new) sizeBound sectionBound with
  | error e => exact ⟨e, rfl⟩
  | ok g => exact absurd (sealed_of_decode read) (whole.not_set here other)

/-- The length of the data says three bytes for two, so the trailer would start a byte later. -/
theorem decode_altered_sample :
    encode sample = .ok (body sample ++ trailer (body sample)) ∧
    (body sample ++ trailer (body sample))[35]? = some 2 ∧ (3 : UInt8) ≠ 2 ∧
    ∃ e, decode ((body sample ++ trailer (body sample)).set 35 3) maxSize maxSectionSize = .error e := by
  have encoded : encode sample = .ok (body sample ++ trailer (body sample)) := by decide +kernel
  have here : (body sample ++ trailer (body sample))[35]? = some 2 := by decide +kernel
  exact ⟨encoded, here, by decide, decode_altered encoded here (by decide) _ _⟩

end Datagram
end BlobReplica
