import BlobReplica.Proofs.Blob.Bounds
import BlobReplica.Proofs.Blob.Life

/-! Fragments that come twice in a row. The positions that the first one covers are no longer missing
when the second one comes, and metadata that has been read is not read again. Metadata that cannot be
read is given up instead, so that a repeated fragment begins the section anew. -/

namespace BlobReplica

theorem ByteRange.without_apart {r hole x : ByteRange} (member : x ∈ r.without hole) :
    x.overlaps hole = false := by
  rw [without] at member
  split at member
  next =>
    rcases List.mem_append.mp member with left | right
    · obtain ⟨_, rfl⟩ := List.mem_ite_nil_right.mp left |>.imp id List.mem_singleton.mp
      simp [overlaps]
    · obtain ⟨_, rfl⟩ := List.mem_ite_nil_right.mp right |>.imp id List.mem_singleton.mp
      simp [overlaps]
  next apart =>
    obtain rfl := List.mem_singleton.mp member
    exact Bool.eq_false_iff.mpr apart

theorem RangeSet.remove_apart (s : RangeSet) {hole : ByteRange} (solid : hole.start < hole.stop) :
    (s.remove hole).1.intersects hole = false := by
  rw [remove, if_neg (Nat.not_le.mpr solid), intersects, List.any_eq_false]
  intro x listed
  obtain ⟨r, _, member⟩ := List.mem_flatMap.mp listed
  exact Bool.eq_false_iff.mp (ByteRange.without_apart member)

namespace Assembly

variable {a : Assembly} {offset length : Nat} {data : Bytes}

/-- A slice that has just been written brings nothing new. -/
theorem write_again (a : Assembly) (offset : Nat) (data : Bytes) :
    (a.write offset data).1.write offset data = ((a.write offset data).1, 0) := by
  by_cases old : data = [] ∨ a.missing.intersects ⟨offset, offset + data.length⟩ = false
  · have unchanged : a.write offset data = (a, 0) := if_pos old
    rw [unchanged, unchanged]
  · have bytes : data ≠ [] := fun none => old (.inl none)
    have solid : offset < offset + data.length :=
      Nat.lt_add_of_pos_right (List.length_pos_iff.mpr bytes)
    refine if_pos (.inr ?_)
    rw [Assembly.write, if_neg old]
    exact a.missing.remove_apart solid

theorem write_ofLength (inside : offset + data.length ≤ length) :
    ((ofLength length).write offset data).2 = data.length := by
  by_cases nothing : data = []
  · rw [write, if_pos (.inl nothing), nothing]
    rfl
  · have some_ : 0 < data.length := List.length_pos_iff.mpr nothing
    have whole : (ofLength length).missing = ⟨[⟨0, length⟩]⟩ := by
      rw [ofLength, RangeSet.full, if_pos (by omega)]
    have meets : (⟨0, length⟩ : ByteRange).overlaps ⟨offset, offset + data.length⟩ = true :=
      ByteRange.overlaps_iff.mpr ⟨by simp only; omega, by simp only; omega⟩
    rw [write, if_neg (by simp [nothing, whole, RangeSet.intersects, meets]), whole, RangeSet.remove,
      if_neg (by simp only; omega)]
    simp only [List.foldr_cons, List.foldr_nil, ByteRange.shared, meets, if_true]
    omega

theorem whole_of_alone (inside : offset + data.length ≤ length)
    (alone : ((ofLength length).write offset data).1.isComplete = true) :
    offset = 0 ∧ data.length = length := by
  have all : (ofLength length).missing.covered = length := by
    rw [ofLength, RangeSet.full]
    split
    next => rfl
    next empty => exact (Nat.eq_zero_of_not_pos empty).symm
  have count := write_count (a := ofLength length) (RangeSet.canonical_full length) offset data
  have rest : ((ofLength length).write offset data).1.missing.covered = 0 := by
    rw [RangeSet.covered, List.isEmpty_iff.mp alone, List.foldr_nil]
  rw [write_ofLength inside, rest, all] at count
  omega

theorem lacking_ofLength (inside : offset + data.length ≤ length) :
    (ofLength length).isComplete = false ∨ data = [] := by
  rw [isComplete, ofLength, RangeSet.full]
  split
  next => exact .inl rfl
  next empty => exact .inr (List.length_eq_zero_iff.mp (by omega))

theorem bytes_write_whole (intact : a.Intact) (size : data.length = a.length)
    (lacking : a.isComplete = false ∨ data = []) : (a.write 0 data).1.bytes = data := by
  by_cases nothing : data = []
  · rw [write, if_pos (.inl nothing), nothing, ← List.length_eq_zero_iff, intact.size, ← size, nothing,
      List.length_nil]
  · obtain ⟨r, rest, some_⟩ := List.exists_cons_of_ne_nil (l := a.missing.ranges) fun none =>
      absurd (List.isEmpty_iff.mpr none) (Bool.eq_false_iff.mp (lacking.resolve_right nothing))
    have member : r ∈ a.missing.ranges := some_ ▸ List.mem_cons_self
    obtain ⟨solid, ends⟩ := intact.missing r member
    have meets : a.missing.intersects ⟨0, 0 + data.length⟩ = true :=
      List.any_eq_true.mpr
        ⟨r, member, ByteRange.overlaps_iff.mpr ⟨by simp only; omega, by simp only; omega⟩⟩
    have laid : (a.write 0 data).1.bytes = a.bytes.overlay 0 data := by
      rw [write, if_neg (not_or_intro nothing (Bool.not_eq_false _ ▸ meets))]
      rfl
    have end_ : a.bytes.drop (0 + data.length) = [] := by
      rw [List.drop_eq_nil_iff, intact.size, ← size, Nat.zero_add]
    rw [laid, Bytes.overlay, List.take_zero, List.nil_append, end_, List.append_nil]

end Assembly

namespace Blob

variable {b b' o : Blob} {f : Fragment} {now : Millis} {filled : Nat}

/-- The fragment has the metadata section complete, and it cannot be read. -/
def Spoils (b : Blob) (f : Fragment) : Prop :=
  b.isTerminal = false ∧ f.sectionKind = .metadata ∧ b.metadataDecoded = false ∧
    let written := (b.metadata.getD (.ofLength f.sectionLength.toNat)).write f.offset.toNat f.data
    written.1.isComplete = true ∧ Metadata.decode? written.1.bytes = none

/-- What is kept of a metadata section to which nothing but the fragment has come, unless it makes up
the section alone. -/
def renewed? (f : Fragment) : Option Assembly :=
  let written := (Assembly.ofLength f.sectionLength.toNat).write f.offset.toNat f.data
  if written.1.isComplete then none else some written.1

theorem begin_touch (begun : b.status ≠ .empty) (late : now ≤ b.lastTouched) :
    (b.touch now).begin = b := by
  have touched : b.touch now = b := by rw [touch, Nat.max_eq_left late]
  rw [touched, begin, if_neg begun]

theorem merge_of_isOpen (isOpen : b.isTerminal = false) (version : f.version = b.version)
    (key : f.key = b.key) (now : Millis) :
    b.merge f now = (b.mergeSection f).map fun (b, filled) => ((b.touch now).begin, filled) := by
  rw [merge, if_neg (by simp [version, key]), if_neg (by simp [isOpen])]

theorem mergePayload_again {w : Assembly} (held : b.payload = .assembling w)
    (length : w.length = f.sectionLength.toNat)
    (again : w.write f.offset.toNat f.data = (w, 0)) : b.mergePayload f = .ok (b, 0) := by
  rw [mergePayload]
  simp only [held, reduceCtorEq, if_false]
  rw [if_neg (not_not_intro length), again, ← held]

theorem mergeMetadata_again {w : Assembly} (unread : b.metadataDecoded = false)
    (held : b.metadata = some w) (partly : w.isComplete = false)
    (length : w.length = f.sectionLength.toNat)
    (again : w.write f.offset.toNat f.data = (w, 0)) : b.mergeMetadata f = .ok (b, 0) := by
  rw [mergeMetadata, if_neg (by simp [unread])]
  simp only [held, Option.getD_some]
  rw [if_neg (not_not_intro length), again, if_neg (by simp [partly]), ← held]

/-- Two states whose sections have come equally far. -/
structure SameSections (b b' : Blob) : Prop where
  payload : b'.payload = b.payload
  metadata : b'.metadata = b.metadata
  decoded : b'.metadataDecoded = b.metadataDecoded
  corrupt : b'.metadataCorrupt = b.metadataCorrupt
  recovered : b'.headersRecovered = b.headersRecovered

theorem sameSections_begin (o : Blob) (now : Millis) : o.SameSections (o.touch now).begin := by
  rw [begin]
  split <;> exact ⟨rfl, rfl, rfl, rfl, rfl⟩

theorem mergePayload_twice (contained : b.Contained) (inside : f.WithinSection)
    (merged : b.mergePayload f = .ok (o, filled)) (same : o.SameSections b') :
    b'.mergePayload f = .ok (b', 0) := by
  have checked := contained.mergePayload?_eq inside (Nat.le_refl _)
  rcases mergePayload?_eq_some (checked.trans (congrArg some merged)) with
    ⟨rfl, _, known, unlike⟩ | ⟨a, w, length, wrote, began⟩
  · rw [mergePayload, if_neg (same.payload ▸ known)]
    simp only
    split
    next a held => exact absurd (same.payload.symm.trans held) (unlike a)
    next => rfl
  · have held : b'.payload = .assembling w := by
      rw [same.payload]
      rcases began with ⟨_, rfl⟩ | ⟨_, _, rfl⟩ <;> rfl
    have written : w = (a.write f.offset.toNat f.data).1 :=
      congrArg Prod.fst (Assembly.write?_eq_some wrote).1
    exact mergePayload_again held ((Assembly.length_of_write? wrote).trans length)
      (written ▸ Assembly.write_again a _ _)

theorem readMetadata_none {bytes : Bytes} (unreadable : Metadata.decode? bytes = none) :
    b.readMetadata bytes = { b with metadata := none, metadataCorrupt := !b.headersRecovered } := by
  rw [readMetadata, unreadable]

/-- A section that a fragment is written into lacks something, or there is nothing to write. -/
theorem Contained.lacking (contained : b.Contained) (inside : f.WithinSection) :
    (b.metadata.getD (.ofLength f.sectionLength.toNat)).isComplete = false ∨ f.data = [] := by
  cases held : b.metadata with
  | none => exact Assembly.lacking_ofLength inside
  | some kept => exact .inl (contained.unread kept held)

/-- A fragment that makes up its section alone is all that is read. -/
theorem bytes_of_alone {a : Assembly} (intact : a.Intact) (length : a.length = f.sectionLength.toNat)
    (lacking : a.isComplete = false ∨ f.data = []) (inside : f.WithinSection)
    (alone : ((Assembly.ofLength f.sectionLength.toNat).write f.offset.toNat f.data).1.isComplete
      = true) : (a.write f.offset.toNat f.data).1.bytes = f.data := by
  obtain ⟨start, all⟩ := Assembly.whole_of_alone inside alone
  rw [start]
  exact Assembly.bytes_write_whole intact (all.trans length.symm) lacking

theorem mergeMetadata_anew (unread : b.metadataDecoded = false) (gone : b.metadata = none)
    (corrupt : b.metadataCorrupt = !b.headersRecovered) (inside : f.WithinSection)
    (unreadable : ((Assembly.ofLength f.sectionLength.toNat).write f.offset.toNat f.data).1.isComplete
      = true → Metadata.decode? f.data = none) :
    b.mergeMetadata f = .ok ({ b with metadata := renewed? f }, f.data.length) := by
  have length : (Assembly.ofLength f.sectionLength.toNat).length = f.sectionLength.toNat := rfl
  rw [mergeMetadata, if_neg (by simp [unread])]
  simp only [gone, Option.getD_none]
  rw [if_neg (not_not_intro length), Assembly.write_ofLength inside, renewed?]
  split
  next alone =>
    have whole := bytes_of_alone (Assembly.intact_ofSection f.sectionLength) length
      (Assembly.lacking_ofLength inside) inside alone
    rw [readMetadata_none ((congrArg Metadata.decode? whole).trans (unreadable alone)), ← corrupt]
  next => rfl

theorem mergeMetadata_twice (contained : b.Contained) (inside : f.WithinSection)
    (isOpen : b.isTerminal = false) (kind : f.sectionKind = .metadata)
    (merged : b.mergeMetadata f = .ok (o, filled)) (same : o.SameSections b') :
    (¬ b.Spoils f → b'.mergeMetadata f = .ok (b', 0)) ∧
    (b.Spoils f → b'.mergeMetadata f = .ok ({ b' with metadata := renewed? f }, f.data.length)) := by
  have checked := contained.mergeMetadata?_eq inside (Nat.le_refl _)
  rcases mergeMetadata?_eq_some (checked.trans (congrArg some merged)) with
    ⟨rfl, _, decoded⟩ | ⟨a, w, unread, begun, length, wrote, rfl⟩
  · refine ⟨fun _ => ?_, ?_⟩
    · rw [mergeMetadata, if_pos (same.decoded.trans decoded)]
    · rintro ⟨_, _, unread, _⟩
      cases decoded.symm.trans unread
  · have written : w = (a.write f.offset.toNat f.data).1 :=
      congrArg Prod.fst (Assembly.write?_eq_some wrote).1
    cases complete : w.isComplete with
    | false =>
      simp only [complete, Bool.false_eq_true, if_false] at same
      refine ⟨fun _ => ?_, ?_⟩
      · exact mergeMetadata_again (same.decoded.trans unread) same.metadata complete
          ((Assembly.length_of_write? wrote).trans length) (written ▸ Assembly.write_again a _ _)
      · rintro ⟨_, _, _, full, _⟩
        rw [begun, ← written, complete] at full
        contradiction
    | true =>
      simp only [complete, if_true] at same
      have spoils : b.Spoils f ↔ Metadata.decode? w.bytes = none := by
        simp only [Spoils, begun, ← written]
        exact ⟨fun h => h.2.2.2.2, fun unreadable => ⟨isOpen, kind, unread, complete, unreadable⟩⟩
      refine ⟨fun readable => ?_, fun spoilt => ?_⟩
      · rw [spoils] at readable
        obtain ⟨ps, read⟩ := Option.ne_none_iff_exists'.mp readable
        rw [mergeMetadata, if_pos]
        rw [same.decoded, readMetadata, read]
        rfl
      · have unreadable := spoils.mp spoilt
        rw [readMetadata_none unreadable] at same
        refine mergeMetadata_anew (same.decoded.trans unread) same.metadata ?_ inside fun alone => ?_
        · rw [same.corrupt, same.recovered]
        · rw [← bytes_of_alone (begun ▸ contained.section_ f.sectionLength) length
            (begun ▸ contained.lacking inside) inside alone, ← written]
          exact unreadable

/-- Merging the same fragment again at the same time brings nothing and leaves the blob as it is, unless
the first of the two has completed metadata that cannot be read. Then the second begins the section anew,
and says that all of its bytes are new. -/
theorem merge_again (arises : b.Arises) (inside : f.WithinSection)
    (merged : b.merge f now = .ok (b', filled)) :
    (¬ b.Spoils f → b'.merge f now = .ok (b', 0)) ∧
    (b.Spoils f → b'.merge f now = .ok ({ b' with metadata := renewed? f }, f.data.length)) := by
  have own : ¬ (f.version ≠ b.version ∨ f.key ≠ b.key) := by
    intro foreign
    rw [merge, if_pos foreign] at merged
    contradiction
  obtain ⟨version, key⟩ := not_or.mp own
  have version := Decidable.not_not.mp version
  have key := Decidable.not_not.mp key
  cases decided : b.isTerminal with
  | true =>
    rw [merge_decided decided key version] at merged
    cases merged
    refine ⟨fun _ => merge_decided decided key version now, ?_⟩
    rintro ⟨isOpen, _⟩
    cases decided.symm.trans isOpen
  | false =>
    have advances := advances_merge merged
    have begun : b'.status ≠ .empty := by
      rw [status_merge decided merged]
      exact Status.noConfusion
    have late : now ≤ b'.lastTouched := lastTouched_merge decided merged ▸ Nat.le_max_right _ _
    obtain ⟨o, written, alike⟩ := merge_open decided merged
    have same : o.SameSections b' := alike ▸ sameSections_begin o now
    rw [merge_of_isOpen (advances.isTerminal.trans decided) (version.trans advances.version.symm)
      (key.trans advances.key.symm)]
    cases kind : f.sectionKind with
    | payload =>
      have into (o : Blob) : o.mergeSection f = o.mergePayload f := by rw [mergeSection, kind]
      rw [into] at written
      refine ⟨fun _ => ?_, ?_⟩
      · rw [into, mergePayload_twice arises.contained inside written same]
        exact congrArg (fun b => Except.ok (b, 0)) (begin_touch begun late)
      · rintro ⟨_, other, _⟩
        cases kind.symm.trans other
    | metadata =>
      have into (o : Blob) : o.mergeSection f = o.mergeMetadata f := by rw [mergeSection, kind]
      rw [into] at written
      obtain ⟨readable, spoilt⟩ :=
        mergeMetadata_twice arises.contained inside decided kind written same
      refine ⟨fun h => ?_, fun h => ?_⟩
      · rw [into, readable h]
        exact congrArg (fun b => Except.ok (b, 0)) (begin_touch begun late)
      · rw [into, spoilt h]
        exact congrArg (fun b => Except.ok (b, f.data.length))
          (begin_touch (b := { b' with metadata := renewed? f }) begun late)

/-- One of the two bytes of a metadata section that is too short to be read. -/
def sampleHalf (offset : UInt32) : Fragment :=
  ⟨"k", .ofNumber 7, .metadata, 2, offset, [255]⟩

/-- A blob to which the first of them has come. -/
def sampleBegun : Blob :=
  ((ofArrival "k" (.ofNumber 7) 0).perform (.merge (sampleHalf 0) 10)).1

theorem arises_sampleBegun : sampleBegun.Arises :=
  .perform (.arrival "k" (.ofNumber 7) 0) (show (sampleHalf 0).WithinSection by decide)

/-- The first byte is new once. -/
theorem merge_again_sample :
    (ofArrival "k" (.ofNumber 7) 0).Arises ∧ (sampleHalf 0).WithinSection ∧
    ¬ (ofArrival "k" (.ofNumber 7) 0).Spoils (sampleHalf 0) ∧
    (ofArrival "k" (.ofNumber 7) 0).merge (sampleHalf 0) 10 = .ok (sampleBegun, 1) ∧
    sampleBegun.merge (sampleHalf 0) 10 = .ok (sampleBegun, 0) := by
  have arises : (ofArrival "k" (.ofNumber 7) 0).Arises := .arrival "k" (.ofNumber 7) 0
  have inside : (sampleHalf 0).WithinSection := by decide
  have partly : ¬ (ofArrival "k" (.ofNumber 7) 0).Spoils (sampleHalf 0) := by
    rintro ⟨_, _, _, full, _⟩
    exact absurd full (by decide +kernel)
  have first : (ofArrival "k" (.ofNumber 7) 0).merge (sampleHalf 0) 10 = .ok (sampleBegun, 1) := by
    decide +kernel
  exact ⟨arises, inside, partly, first, (merge_again arises inside first).1 partly⟩

/-- The second byte completes the section, which cannot be read. The same fragment then fills a position
again, and a section is there that refuses metadata of another length, which was accepted before. -/
theorem merge_again_fills :
    sampleBegun.Arises ∧ (sampleHalf 1).WithinSection ∧
    ∃ b' b'', sampleBegun.merge (sampleHalf 1) 20 = .ok (b', 1) ∧
      b'.merge (sampleHalf 1) 20 = .ok (b'', 1) ∧
      (b'.merge { sampleHalf 0 with sectionLength := 3 } 30).isOk = true ∧
      (b''.merge { sampleHalf 0 with sectionLength := 3 } 30).isOk = false :=
  ⟨arises_sampleBegun, by decide, (sampleBegun.perform (.merge (sampleHalf 1) 20)).1,
    ((sampleBegun.perform (.merge (sampleHalf 1) 20)).1.perform (.merge (sampleHalf 1) 20)).1,
    by decide +kernel, by decide +kernel, by decide +kernel, by decide +kernel⟩

end Blob
end BlobReplica
