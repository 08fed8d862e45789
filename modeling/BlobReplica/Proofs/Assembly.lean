import BlobReplica.Blob.Assembly
import BlobReplica.Proofs.Bytes
import BlobReplica.Proofs.RangeSet

/-! Assemblies that take in slices of one section. Whatever the order of the slices and however
they overlap, the positions outside the missing set hold the section's bytes, and the counts of
newly covered positions add up. -/

namespace BlobReplica.Assembly

variable {a : Assembly} {whole data : Bytes} {S : Nat → Prop} {offset : Nat}

/-- An assembly of the section `whole` in which the positions of `S` have arrived. -/
structure Holds (a : Assembly) (whole : Bytes) (S : Nat → Prop) : Prop where
  length : a.length = whole.length
  canonical : a.missing.Canonical
  missing : ∀ i, i ∈ a.missing ↔ i < whole.length ∧ ¬ S i
  size : a.bytes.length = whole.length
  same : ∀ i < whole.length, S i → a.bytes[i]? = whole[i]?

theorem holds_ofLength (whole : Bytes) : (ofLength whole.length).Holds whole fun _ => False where
  length := rfl
  canonical := RangeSet.canonical_full _
  missing i := by simp [ofLength]
  size := by simp [ofLength, bytes]
  same i _ arrived := arrived.elim

theorem Holds.congr (holds : a.Holds whole S) {T : Nat → Prop} (same : ∀ i, S i ↔ T i) :
    a.Holds whole T := by
  obtain rfl : S = T := funext fun i => propext (same i)
  exact holds

theorem write_count (canonical : a.missing.Canonical) (offset : Nat) (data : Bytes) :
    (a.write offset data).2 + (a.write offset data).1.missing.covered = a.missing.covered := by
  simp only [write]
  split
  · exact Nat.zero_add _
  · exact RangeSet.remove_count canonical _

theorem Holds.arrived (holds : a.Holds whole S) {r : ByteRange} (inside : r.stop ≤ whole.length)
    (apart : a.missing.intersects r = false) {i : Nat} (has : r.Has i) : S i := by
  have solid : r.start < r.stop := Nat.lt_of_le_of_lt has.1 has.2
  by_contra absent
  have lacking : i ∈ a.missing :=
    (holds.missing i).mpr ⟨Nat.lt_of_lt_of_le has.2 inside, absent⟩
  have meets := (RangeSet.intersects_iff holds.canonical solid).mpr ⟨i, lacking, has⟩
  simp [apart] at meets

/-- The bytes after a write, whether the slice brought something new or was left out. -/
theorem Holds.write (holds : a.Holds whole S) (inside : offset + data.length ≤ whole.length)
    (slice : data = whole.slice offset (offset + data.length)) :
    (a.write offset data).1.Holds whole
      fun i => S i ∨ (⟨offset, offset + data.length⟩ : ByteRange).Has i := by
  simp only [Assembly.write]
  split
  next old =>
    refine holds.congr fun i => ⟨.inl, ?_⟩
    rintro (here | has)
    · exact here
    · rcases old with rfl | apart
      · exact absurd has (by simp [ByteRange.Has])
      · exact holds.arrived inside apart has
  next =>
    have fits : offset + data.length ≤ a.bytes.length := holds.size ▸ inside
    refine ⟨holds.length, holds.canonical.remove _, fun i => ?_, ?_, fun i below arrived => ?_⟩
    · rw [RangeSet.mem_remove, holds.missing, not_or, and_assoc]
    · exact (Bytes.length_overlay fits).trans holds.size
    · refine (Bytes.getElem?_overlay fits).trans ?_
      split
      next has =>
        rw [slice, Bytes.getElem?_slice (by omega)]
        congr 1
        omega
      next outside =>
        rcases arrived with here | has
        · exact holds.same i below here
        · exact absurd has outside

theorem Holds.isComplete_iff (holds : a.Holds whole S) :
    a.isComplete = true ↔ ∀ i < whole.length, S i := by
  rw [isComplete, RangeSet.isEmpty_iff holds.canonical]
  constructor
  · intro none i below
    by_contra absent
    exact none i ((holds.missing i).mpr ⟨below, absent⟩)
  · intro all i listed
    obtain ⟨below, absent⟩ := (holds.missing i).mp listed
    exact absent (all i below)

theorem Holds.bytes_eq (holds : a.Holds whole S) (all : ∀ i < whole.length, S i) :
    a.bytes = whole := by
  refine List.ext_getElem? fun i => ?_
  by_cases below : i < whole.length
  · exact holds.same i below (all i below)
  · have size := holds.size
    rw [List.getElem?_eq_none (Nat.not_lt.mp below), List.getElem?_eq_none (by omega)]

theorem bytes_ofBytes (bytes : Bytes) : (ofBytes bytes).bytes = bytes := by
  simp [Assembly.bytes, ofBytes, Bytes.overlay]

/-- The missing intervals are the maximal runs of what has not arrived. -/
theorem Holds.mem_ranges_iff (holds : a.Holds whole S) {r : ByteRange} :
    r ∈ a.missing.ranges ↔ r.IsMaximalRun fun i => i < whole.length ∧ ¬ S i := by
  rw [RangeSet.mem_ranges_iff holds.canonical, funext fun i => propext (holds.missing i)]

theorem Holds.covered_missing (holds : a.Holds whole S) [DecidablePred S] :
    a.missing.covered + ((Finset.range whole.length).filter S).card = whole.length := by
  have bound : ∀ i ∈ a.missing, i < whole.length := fun i listed => ((holds.missing i).mp listed).1
  have lacking : (Finset.range whole.length).filter (· ∈ a.missing) =
      (Finset.range whole.length).filter (¬ S ·) := by
    refine Finset.filter_congr fun i below => ?_
    simp [holds.missing, Finset.mem_range.mp below]
  rw [RangeSet.covered_eq_card holds.canonical bound, lacking, Nat.add_comm,
    Finset.card_filter_add_card_filter_not, Finset.card_range]

end BlobReplica.Assembly
