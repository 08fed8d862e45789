import BlobReplica.Proofs.RangeSet.Removals

/-! When a range is found to meet a set. A range with positions meets it exactly when they share one,
which is when removal would take something. A range without positions shares none, and nothing is
taken; it meets the set all the same where it lies inside a stored interval. -/

namespace BlobReplica.RangeSet

variable {s : RangeSet} {hole : ByteRange} {first last : Nat}

theorem Canonical.exists_around (canonical : s.Canonical) (order : first ≤ last)
    (listed : ∀ i, first ≤ i → i ≤ last → i ∈ s) :
    ∃ r ∈ s.ranges, r.start ≤ first ∧ last < r.stop := by
  induction last, order using Nat.le_induction with
  | base =>
    obtain ⟨r, member, has⟩ := mem_iff.mp (listed first (Nat.le_refl _) (Nat.le_refl _))
    exact ⟨r, member, has⟩
  | succ last order ih =>
    obtain ⟨r, member, before, below⟩ := ih fun i later earlier => listed i later (Nat.le_succ_of_le earlier)
    refine ⟨r, member, before, Nat.lt_of_le_of_ne below fun same => ?_⟩
    -- An interval that stopped here would not be followed by a position of the set.
    have ends := ((mem_ranges_iff canonical).mp member).right
    exact ends (same ▸ listed (last + 1) (Nat.le_succ_of_le order) (Nat.le_refl _))

/-- A range without positions meets the set where both its ends lie inside one stored interval. -/
theorem intersects_hollow (canonical : s.Canonical) (hollow : hole.stop ≤ hole.start) :
    s.intersects hole = true ↔
      0 < hole.stop ∧ ∀ i, hole.stop ≤ i + 1 → i ≤ hole.start → i ∈ s := by
  simp only [intersects, List.any_eq_true, ByteRange.overlaps_iff]
  constructor
  · rintro ⟨r, member, before, after⟩
    refine ⟨Nat.zero_lt_of_lt before, fun i later earlier => mem_iff.mpr ⟨r, member, ?_, ?_⟩⟩
    · exact Nat.le_of_lt_succ (Nat.lt_of_lt_of_le before later)
    · exact Nat.lt_of_le_of_lt earlier after
  · rintro ⟨positive, listed⟩
    obtain ⟨r, member, before, after⟩ := canonical.exists_around
      (show hole.stop - 1 ≤ hole.start by omega) fun i later => listed i (by omega)
    exact ⟨r, member, by omega, after⟩

theorem remove_pos_iff (canonical : s.Canonical) {length : Nat} (bound : ∀ i ∈ s, i < length)
    (hole : ByteRange) : 0 < (s.remove hole).2 ↔ ∃ i, i ∈ s ∧ hole.Has i := by
  rw [remove_card canonical bound, Finset.card_pos]
  constructor
  · rintro ⟨i, taken⟩
    exact ⟨i, (Finset.mem_filter.mp taken).2⟩
  · rintro ⟨i, listed, has⟩
    exact ⟨i, Finset.mem_filter.mpr ⟨Finset.mem_range.mpr (bound i listed), listed, has⟩⟩

/-- Of a set that was full and then had holes taken out, a removal takes something exactly if the set
and the range share a position, whatever the range. If the range has positions, this is when it meets the
set. If it has none, it meets the set where it lies inside a stored interval. -/
theorem intersects_exact (length : Nat) (holes : List ByteRange) (range : ByteRange) :
    (0 < (((full length).removeAll holes).remove range).2 ↔
      ∃ i, i ∈ (full length).removeAll holes ∧ range.Has i) ∧
    (range.start < range.stop →
      (((full length).removeAll holes).intersects range = true ↔
        ∃ i, i ∈ (full length).removeAll holes ∧ range.Has i)) ∧
    (range.stop ≤ range.start →
      (((full length).removeAll holes).intersects range = true ↔
        0 < range.stop ∧
          ∀ i, range.stop ≤ i + 1 → i ≤ range.start → i ∈ (full length).removeAll holes)) := by
  have canonical := (canonical_full length).removeAll holes
  have bound : ∀ i ∈ (full length).removeAll holes, i < length := fun i listed =>
    mem_full.mp (mem_removeAll.mp listed).1
  exact ⟨remove_pos_iff canonical bound range, intersects_iff canonical, intersects_hollow canonical⟩

/-- Ranges at the edges of a hole: with one position of the set, and without any position but inside an
interval that is left. -/
theorem intersects_exact_edges :
    (79 < 81 ∧ ((full 100).removeAll [⟨20, 80⟩]).intersects ⟨79, 81⟩ = true) ∧
    (19 < 20 ∧ ∃ i, i ∈ (full 100).removeAll [⟨20, 80⟩] ∧ ByteRange.Has ⟨19, 20⟩ i) ∧
    (85 ≤ 90 ∧ ∀ i, 85 ≤ i + 1 → i ≤ 90 → i ∈ (full 100).removeAll [⟨20, 80⟩]) := by
  obtain ⟨_, solid, _⟩ := intersects_exact 100 [⟨20, 80⟩] ⟨79, 81⟩
  obtain ⟨_, edge, _⟩ := intersects_exact 100 [⟨20, 80⟩] ⟨19, 20⟩
  obtain ⟨_, _, hollow⟩ := intersects_exact 100 [⟨20, 80⟩] ⟨90, 85⟩
  refine ⟨⟨by decide, ?_⟩, ⟨by decide, ?_⟩, by decide, ?_⟩
  · exact (solid (by decide)).mpr ⟨80, by decide, by decide⟩
  · exact (edge (by decide)).mp (by decide)
  · exact ((hollow (by decide)).mp (by decide)).2

/-- The empty range at five has no position, a removal takes none, and the ten positions are met. -/
theorem intersects_without_position :
    (full 10).intersects ⟨5, 5⟩ = true ∧ (∀ i, ¬ ByteRange.Has ⟨5, 5⟩ i) ∧
      ((full 10).remove ⟨5, 5⟩).2 = 0 := by
  refine ⟨by decide, fun i has => ?_, by decide⟩
  simp only [ByteRange.Has] at has
  omega

end BlobReplica.RangeSet
