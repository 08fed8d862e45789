import BlobReplica.Proofs.Blob.Identity
import BlobReplica.Proofs.Blob.Progress

/-! Decided blobs that have all of a publication, whether it came in fragments or at once. Spellings of a
name are one name to them, and their times are those that their properties tell. -/

namespace BlobReplica

open Fragment (Publication)

theorem Text.toLower_hexDigit : ∀ n < 16, (hexDigit n).toLower = hexDigit n ∧ hexDigit n ≠ '-' ∧
    isBlank (hexDigit n) = false := by
  decide

theorem Property.normalizeMd5_md5Hex (payload : Bytes) :
    normalizeMd5 (Digest.md5Hex payload) = Digest.md5Hex payload := by
  have digit {c : Char} (member : c ∈ (Digest.md5 payload).flatMap Text.hexByteChars) :
      c.toLower = c ∧ c ≠ '-' ∧ Text.isBlank c = false := by
    obtain ⟨b, _, made⟩ := List.mem_flatMap.mp member
    have high : b.toNat / 16 < 16 := by have := b.toNat_lt; omega
    have low : b.toNat % 16 < 16 := Nat.mod_lt _ (by decide)
    simp only [Text.hexByteChars, List.mem_cons, List.not_mem_nil, or_false] at made
    rcases made with rfl | rfl
    · exact Text.toLower_hexDigit _ high
    · exact Text.toLower_hexDigit _ low
  rw [normalizeMd5, Digest.md5Hex, Text.hex, String.toList_ofList,
    Text.trimChars_solid fun c member => (digit member).2.2]
  congr 1
  rw [List.filter_eq_self.mpr fun c member => by simpa using (digit member).2.1]
  exact (List.map_congr_left fun c member => (digit member).1).trans (List.map_id' _)

theorem Properties.declare_of_lookup? {ps : Properties} {payload : Bytes}
    (found : ps.lookup? Property.contentMd5 = some (Digest.md5Hex payload)) : ps.Declare payload := by
  rw [Declare, found, Option.map_some, Property.normalizeMd5_md5Hex]

/-- What a receiver reads are the last spellings. -/
theorem Fragment.Publication.lookup?_told (p : Publication) (name : String) :
    p.told.lookup? name = Properties.lastGiven? p.properties.entries name := by
  rw [told, Properties.lookup?_assignments]
  exact Option.or_none

namespace Blob

variable {b : Blob} {p : Publication} {n now : Millis} {name : String}

/-- A decided blob that has all of a publication, whose first piece came at `now`. -/
structure Received (b : Blob) (p : Publication) (now : Millis) : Prop where
  key : b.key = p.key
  version : b.version = p.version
  properties : b.properties = p.told
  arrived : b.arrived = now
  timed : b.refresh = b
  intact : p.told.Declare p.payload → b.status = .complete ∧ b.payload = .verified p.payload
  corrupt : ¬ p.told.Declare p.payload → b.status = .checksumInvalid ∧ b.payload = .discarded

theorem Received.isTerminal (received : b.Received p now) : b.isTerminal = true := by
  rw [isTerminal_iff]
  by_cases intact : p.told.Declare p.payload
  · exact .inl (received.intact intact).1
  · exact .inr (received.corrupt intact).1

theorem Received.property?_eq (received : b.Received p now) (name : String) :
    b.property? name = Properties.lastGiven? p.properties.entries name := by
  rw [property?, received.properties, Publication.lookup?_told]

theorem Received.copied (received : b.Received p now) (copy : Nat) : { b with copy }.Received p now :=
  ⟨received.key, received.version, received.properties, received.arrived,
    congrArg (fun b => { b with copy }) received.timed, received.intact, received.corrupt⟩

theorem Received.time (received : b.Received p now) (bound : n ≤ Millis.unbounded)
    (given : Properties.lastGiven? p.properties.entries name = some (toString n)) (fallback : Millis) :
    ((b.property? name).bind Millis.parse?).getD fallback = n := by
  rw [received.property?_eq, given, Option.bind_some, Millis.parse?_toString bound, Option.getD_some]

/-- An object that declares its checksum is received when it is made. -/
theorem received_ofObject (intact : p.told.Declare p.payload) (now : Millis) :
    ∃ b, ofObject p.key p.version p.properties p.payload now = .ok b ∧ b.Received p now := by
  let held := ((ofArrival p.key p.version now).applyHeaders p.properties.entries now).setPayload p.payload now
  have isOpen : held.isTerminal = false := rfl
  have readable : held.metadataCorrupt = false := rfl
  have payload : held.refresh.payload = .assembling (.ofBytes p.payload) := rfl
  have ready : ((Assembly.ofBytes p.payload).isComplete && held.refresh.metadataComplete) = true := rfl
  have declared : held.refresh.declaredMd5? = some (Digest.md5Hex p.payload) := intact
  have settled : held.settle.1 =
      { held.refresh with payload := .verified p.payload, status := .complete } := by
    rw [settle, if_neg (by simp [isOpen]), if_neg (by simp [readable])]
    simp only [payload, ready, Assembly.bytes_ofBytes, declared, if_true]
  refine ⟨held.settle.1, ?_, ?_⟩
  · have complete : held.settle.1.isComplete = true := by
      rw [settled]
      rfl
    exact if_pos complete
  · rw [settled]
    exact ⟨rfl, rfl, rfl, rfl, rfl, fun _ => ⟨rfl, rfl⟩, fun corrupt => absurd intact corrupt⟩

end Blob
end BlobReplica
