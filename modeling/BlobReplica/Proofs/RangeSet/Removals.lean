import BlobReplica.RangeSet.Entries
import BlobReplica.Proofs.RangeSet

/-! Removals one after the other, whatever they take. The set holds the positions that none of them
took, each removal counts those it took, and the order does not show. Removal interval by interval, in
a map from starts to stops, comes to the same. -/

namespace BlobReplica.RangeSet

variable {s s' : RangeSet} {r hole : ByteRange} {front back rest holes : List ByteRange}
  {i length : Nat}

/-! ### Interval by interval -/

theorem enter_between (below : ∀ x ∈ front, x.start < r.start) (above : ∀ x ∈ back, r.start < x.start) :
    enter r (front ++ back) = front ++ r :: back := by
  induction front with
  | nil =>
    cases back with
    | nil => rfl
    | cons x rest => exact if_pos (above x List.mem_cons_self)
  | cons x front ih =>
    have before := below x List.mem_cons_self
    rw [List.cons_append, enter, if_neg (Nat.lt_asymm before), if_neg (Nat.ne_of_gt before),
      ih fun y member => below y (List.mem_cons_of_mem x member)]
    rfl

theorem leave_between (below : ∀ x ∈ front, x.start < r.start) (above : ∀ x ∈ back, r.start < x.start) :
    leave r.start (front ++ r :: back) = front ++ back := by
  have before : front.filter (·.start != r.start) = front :=
    List.filter_eq_self.mpr fun x member => bne_iff_ne.mpr (Nat.ne_of_lt (below x member))
  have after : back.filter (·.start != r.start) = back :=
    List.filter_eq_self.mpr fun x member => bne_iff_ne.mpr (Nat.ne_of_gt (above x member))
  rw [leave, List.filter_append, List.filter_cons_of_neg (by simp), before, after]

theorem Canonical.between (canonical : Canonical ⟨front ++ r :: back⟩) :
    (∀ x ∈ front, x.start < x.stop ∧ x.stop < r.start) ∧ r.start < r.stop ∧
      ∀ x ∈ back, r.stop < x.start := by
  obtain ⟨_, own, across⟩ := List.pairwise_append.mp canonical.apart
  refine ⟨fun x member => ⟨?_, across x member r List.mem_cons_self⟩, ?_,
    (List.pairwise_cons.mp own).1⟩
  · exact canonical.nonempty x (List.mem_append_left _ member)
  · exact canonical.nonempty r (List.mem_append_right _ List.mem_cons_self)

theorem Canonical.leave_between (canonical : Canonical ⟨front ++ r :: back⟩) :
    leave r.start (front ++ r :: back) = front ++ back := by
  obtain ⟨before, full, after⟩ := canonical.between
  apply RangeSet.leave_between
  · exact fun x member => Nat.lt_trans (before x member).1 (before x member).2
  · exact fun x member => Nat.lt_trans full (after x member)

theorem Canonical.enter_between (canonical : Canonical ⟨front ++ r :: back⟩) {kept : List ByteRange}
    {part : ByteRange} (lower : r.start ≤ part.start) (upper : part.start < r.stop)
    (later : ∀ x ∈ kept, x.start < part.start) :
    enter part ((front ++ kept) ++ back) = (front ++ kept) ++ part :: back := by
  obtain ⟨before, _, after⟩ := canonical.between
  apply RangeSet.enter_between
  · intro x member
    rcases List.mem_append.mp member with member | member
    · have := before x member
      omega
    · exact later x member
  · exact fun x member => Nat.lt_trans upper (after x member)

theorem cutOut_between (canonical : Canonical ⟨front ++ r :: back⟩) (solid : hole.start < hole.stop)
    (meets : r.overlaps hole = true) (n : Nat) :
    cutOut hole (front ++ r :: back, n) r =
      (front ++ r.without hole ++ back, n + r.shared hole) := by
  obtain ⟨_, full, _⟩ := canonical.between
  obtain ⟨starts, _⟩ := ByteRange.overlaps_iff.mp meets
  simp only [cutOut, canonical.leave_between, ByteRange.without, if_pos meets, ByteRange.shared]
  by_cases low : r.start < hole.start
  · have lower : enter ⟨r.start, hole.start⟩ (front ++ [] ++ back) = _ :=
      canonical.enter_between (Nat.le_refl r.start) full (by simp)
    rw [List.append_nil] at lower
    rw [if_pos low, if_pos low, lower]
    by_cases high : hole.stop < r.stop
    · have upper : enter ⟨hole.stop, r.stop⟩ (front ++ [⟨r.start, hole.start⟩] ++ back) = _ :=
        canonical.enter_between (Nat.le_of_lt starts) high (by simpa using Nat.lt_trans low solid)
      rw [List.append_assoc, List.singleton_append] at upper
      rw [if_pos high, if_pos high, upper]
      simp
    · simp [high]
  · rw [if_neg low, if_neg low]
    by_cases high : hole.stop < r.stop
    · have upper : enter ⟨hole.stop, r.stop⟩ (front ++ [] ++ back) = _ :=
        canonical.enter_between (Nat.le_of_lt starts) high (by simp)
      rw [List.append_nil] at upper
      rw [if_pos high, if_pos high, upper]
      simp
    · simp [high]

theorem Canonical.without_between (canonical : Canonical ⟨front ++ r :: back⟩)
    (solid : hole.start < hole.stop) : Canonical ⟨front ++ r.without hole ++ back⟩ := by
  obtain ⟨before, full, after⟩ := canonical.between
  obtain ⟨fronts, own, across⟩ := List.pairwise_append.mp canonical.apart
  have part {x : ByteRange} (member : x ∈ r.without hole) := ByteRange.mem_without member full
  constructor
  · rw [List.append_assoc]
    refine List.pairwise_append.mpr ⟨fronts, ?_, fun x hx y hy => ?_⟩
    · refine List.pairwise_append.mpr
        ⟨ByteRange.without_pairwise solid, (List.pairwise_cons.mp own).2, fun x hx y hy => ?_⟩
      exact Nat.lt_of_le_of_lt (part hx).2.2 (after y hy)
    · rcases List.mem_append.mp hy with hy | hy
      · exact Nat.lt_of_lt_of_le (before x hx).2 (part hy).2.1
      · exact across x hx y (List.mem_cons_of_mem r hy)
  · intro x member
    simp only [List.mem_append] at member
    rcases member with (member | member) | member
    · exact (before x member).1
    · exact (part member).1
    · exact canonical.nonempty x (List.mem_append_right _ (List.mem_cons_of_mem r member))

/-- The intervals still to go through stand unchanged behind those that are done. -/
theorem foldl_cutOut (canonical : Canonical ⟨front ++ rest⟩) (solid : hole.start < hole.stop) (n : Nat) :
    (rest.filter (·.overlaps hole)).foldl (cutOut hole) (front ++ rest, n) =
      (front ++ rest.flatMap (·.without hole),
        n + rest.foldr (fun r n => r.shared hole + n) 0) := by
  induction rest generalizing front n with
  | nil => simp
  | cons r rest ih =>
    by_cases meets : r.overlaps hole = true
    · have next : (r :: rest).filter (·.overlaps hole) = r :: rest.filter (·.overlaps hole) :=
        List.filter_cons_of_pos meets
      rw [next, List.foldl_cons, cutOut_between canonical solid meets,
        ih (canonical.without_between solid)]
      simp [Nat.add_assoc]
    · have passed : (r :: rest).filter (·.overlaps hole) = rest.filter (·.overlaps hole) :=
        List.filter_cons_of_neg meets
      have kept : r.without hole = [r] := if_neg meets
      have nothing : r.shared hole = 0 := if_neg meets
      rw [List.append_cons] at canonical ⊢
      rw [passed, ih canonical]
      simp [kept, nothing]

/-- Removal interval by interval is removal at once. -/
theorem removeInPlace_eq (canonical : s.Canonical) (hole : ByteRange) :
    s.removeInPlace hole = s.remove hole := by
  rw [removeInPlace, RangeSet.remove]
  split
  next => rfl
  next solid =>
    have cut := foldl_cutOut (show Canonical ⟨[] ++ s.ranges⟩ from canonical) (Nat.not_le.mp solid) 0
    simp only [List.nil_append, Nat.zero_add] at cut
    simp only [cut]

/-! ### What a set is told by -/

theorem Canonical.ext (canonical : s.Canonical) (canonical' : s'.Canonical)
    (same : ∀ i, i ∈ s ↔ i ∈ s') : s = s' := by
  have ordered {s : RangeSet} (canonical : s.Canonical) :
      s.ranges.Pairwise fun a b => a.start < b.start :=
    canonical.apart.imp_of_mem fun {a b} ha _ apart => Nat.lt_trans (canonical.nonempty a ha) apart
  have distinct {s : RangeSet} (canonical : s.Canonical) : s.ranges.Nodup := by
    refine (ordered canonical).imp fun {a b} below => ?_
    rintro rfl
    exact Nat.lt_irrefl _ below
  have members (r : ByteRange) : r ∈ s.ranges ↔ r ∈ s'.ranges := by
    rw [mem_ranges_iff canonical, mem_ranges_iff canonical', funext fun i => propext (same i)]
  have perm := (List.perm_ext_iff_of_nodup (distinct canonical) (distinct canonical')).mpr members
  have ranges : s.ranges = s'.ranges := by
    refine perm.eq_of_pairwise ?_ (ordered canonical) (ordered canonical')
    intro a b _ _ below above
    exact absurd above (Nat.lt_asymm below)
  cases s
  cases s'
  exact congrArg RangeSet.mk ranges

theorem remove_card (canonical : s.Canonical) (bound : ∀ i ∈ s, i < length) (hole : ByteRange) :
    (s.remove hole).2 = ((Finset.range length).filter fun i => i ∈ s ∧ hole.Has i).card := by
  have whole := covered_eq_card canonical bound
  have kept := covered_eq_card (canonical.remove hole) fun i listed => bound i (mem_remove.mp listed).1
  have split := Finset.card_filter_add_card_filter_not
    (s := (Finset.range length).filter (· ∈ s)) (hole.Has ·)
  simp only [Finset.filter_filter] at split
  simp only [mem_remove] at kept
  have count := remove_count canonical hole
  omega

/-! ### One removal after the other -/

/-- The positions below a length that none of these holes has. -/
def spared (length : Nat) (holes : List ByteRange) : Finset Nat :=
  (Finset.range length).filter fun i => ∀ hole ∈ holes, ¬ hole.Has i

theorem Canonical.removeAll (canonical : s.Canonical) (holes : List ByteRange) :
    (s.removeAll holes).Canonical := by
  induction holes generalizing s with
  | nil => exact canonical
  | cons hole rest ih => exact ih (canonical.remove hole)

theorem mem_removeAll : i ∈ s.removeAll holes ↔ i ∈ s ∧ ∀ hole ∈ holes, ¬ hole.Has i := by
  induction holes generalizing s with
  | nil => simp [removeAll]
  | cons hole rest ih =>
    have step : s.removeAll (hole :: rest) = (s.remove hole).1.removeAll rest := rfl
    rw [step, ih, mem_remove, List.forall_mem_cons, and_assoc]

theorem mem_removeAll_full : i ∈ (full length).removeAll holes ↔ i ∈ spared length holes := by
  rw [mem_removeAll, mem_full, spared, Finset.mem_filter, Finset.mem_range]

/-- A set that was full, or is new as the full set of no length, and then had holes taken out: its
intervals are not empty, ascend and do not touch; it has the positions that the holes spare, and its
covered length is their number; a further removal, in the map interval by interval, counts the positions
that it takes; and the holes may be taken in any order. -/
theorem removals_exact (length : Nat) (holes : List ByteRange) :
    full 0 = empty ∧
    ((full length).removeAll holes).Canonical ∧
    (∀ i, i ∈ (full length).removeAll holes ↔ i ∈ spared length holes) ∧
    ((full length).removeAll holes).covered = (spared length holes).card ∧
    (∀ hole, ((full length).removeAll holes).removeInPlace hole =
        ((full length).removeAll holes).remove hole ∧
      (((full length).removeAll holes).remove hole).2 = ((spared length holes).filter hole.Has).card) ∧
    ∀ others, holes.Perm others → (full length).removeAll others = (full length).removeAll holes := by
  have canonical := (canonical_full length).removeAll holes
  have bound : ∀ i ∈ (full length).removeAll holes, i < length := fun i listed =>
    mem_full.mp (mem_removeAll.mp listed).1
  have members : (Finset.range length).filter (· ∈ (full length).removeAll holes) =
      spared length holes := by
    simp only [spared, mem_removeAll, mem_full, ← Finset.mem_range, ← Finset.filter_filter,
      Finset.filter_mem_eq_inter, Finset.inter_self]
  refine ⟨rfl, canonical, fun i => mem_removeAll_full, ?_, fun hole => ⟨?_, ?_⟩, fun others perm => ?_⟩
  · rw [covered_eq_card canonical bound, members]
  · exact removeInPlace_eq canonical hole
  · rw [remove_card canonical bound, ← Finset.filter_filter, members]
  · apply ((canonical_full length).removeAll others).ext canonical
    intro i
    simp only [mem_removeAll, perm.mem_iff]

/-- Three holes of which the last one spans the others, in both orders. -/
theorem removals_exact_spanning :
    ([⟨50, 100⟩, ⟨150, 200⟩, ⟨25, 250⟩] : List ByteRange).Perm [⟨25, 250⟩, ⟨150, 200⟩, ⟨50, 100⟩] ∧
    (full 300).removeAll [⟨50, 100⟩, ⟨150, 200⟩, ⟨25, 250⟩] = ⟨[⟨0, 25⟩, ⟨250, 300⟩]⟩ ∧
    (full 300).removeAll [⟨25, 250⟩, ⟨150, 200⟩, ⟨50, 100⟩] = ⟨[⟨0, 25⟩, ⟨250, 300⟩]⟩ := by
  have perm : ([⟨50, 100⟩, ⟨150, 200⟩, ⟨25, 250⟩] : List ByteRange).Perm
      [⟨25, 250⟩, ⟨150, 200⟩, ⟨50, 100⟩] := by decide
  have taken : (full 300).removeAll [⟨50, 100⟩, ⟨150, 200⟩, ⟨25, 250⟩] =
      ⟨[⟨0, 25⟩, ⟨250, 300⟩]⟩ := by decide
  obtain ⟨_, _, _, _, _, order⟩ := removals_exact 300 [⟨50, 100⟩, ⟨150, 200⟩, ⟨25, 250⟩]
  exact ⟨perm, taken, (order _ perm).trans taken⟩

end BlobReplica.RangeSet
