import BlobReplica.RangeSet
import Mathlib.Data.Finset.Card
import Mathlib.Order.Interval.Finset.Nat

/-! Range sets as sets of positions. Stored intervals are not empty and do not touch, which
removal keeps; so the stored intervals are the maximal runs of the set, and the counts that
removal reports add up to numbers of positions. -/

namespace BlobReplica

namespace ByteRange

/-- Whether a position lies in the interval. -/
def Has (r : ByteRange) (i : Nat) : Prop :=
  r.start ≤ i ∧ i < r.stop

instance (r : ByteRange) (i : Nat) : Decidable (r.Has i) :=
  inferInstanceAs (Decidable (_ ∧ _))

/-- An interval inside a set of positions that cannot be extended on either side. -/
structure IsMaximalRun (S : Nat → Prop) (r : ByteRange) : Prop where
  nonempty : r.start < r.stop
  inside : ∀ i, r.Has i → S i
  left : ∀ i, i + 1 = r.start → ¬ S i
  right : ¬ S r.stop

theorem IsMaximalRun.unique {S : Nat → Prop} {a b : ByteRange} (ha : IsMaximalRun S a)
    (hb : IsMaximalRun S b) {i : Nat} (ia : a.Has i) (ib : b.Has i) : a = b := by
  have starts {a b : ByteRange} (ha : IsMaximalRun S a) (hb : IsMaximalRun S b) (ia : a.Has i)
      (ib : b.Has i) : a.start ≤ b.start := by
    by_contra later
    simp only [Has] at ia ib
    exact ha.left (a.start - 1) (by omega) (hb.inside _ ⟨by omega, by omega⟩)
  have stops {a b : ByteRange} (ha : IsMaximalRun S a) (hb : IsMaximalRun S b) (ia : a.Has i)
      (ib : b.Has i) : b.stop ≤ a.stop := by
    by_contra longer
    simp only [Has] at ia ib
    exact ha.right (hb.inside _ ⟨by omega, by omega⟩)
  cases a
  cases b
  congr 1
  · exact Nat.le_antisymm (starts ha hb ia ib) (starts hb ha ib ia)
  · exact Nat.le_antisymm (stops hb ha ib ia) (stops ha hb ia ib)

variable {r hole : ByteRange} {i : Nat}

theorem overlaps_iff : r.overlaps hole = true ↔ r.start < hole.stop ∧ hole.start < r.stop := by
  simp [overlaps]

theorem overlaps_iff_has (full : r.start < r.stop) (solid : hole.start < hole.stop) :
    r.overlaps hole = true ↔ ∃ i, r.Has i ∧ hole.Has i := by
  rw [overlaps_iff]
  constructor
  · intro h
    exact ⟨max r.start hole.start, by simp only [Has]; omega, by simp only [Has]; omega⟩
  · rintro ⟨i, hr, hh⟩
    simp only [Has] at hr hh
    omega

theorem mem_without {x : ByteRange} (member : x ∈ r.without hole) (full : r.start < r.stop) :
    x.start < x.stop ∧ r.start ≤ x.start ∧ x.stop ≤ r.stop := by
  simp only [without] at member
  split at member
  next meets =>
    rw [overlaps_iff] at meets
    simp only [List.mem_append, List.mem_ite_nil_right, List.mem_singleton] at member
    rcases member with ⟨h, rfl⟩ | ⟨h, rfl⟩ <;> simp only <;> omega
  next =>
    obtain rfl := List.mem_singleton.mp member
    omega

theorem has_without : (∃ x ∈ r.without hole, x.Has i) ↔ r.Has i ∧ ¬ hole.Has i := by
  simp only [without]
  split
  next meets =>
    rw [overlaps_iff] at meets
    simp only [List.mem_append, List.mem_ite_nil_right, List.mem_singleton, or_and_right,
      exists_or, and_assoc, exists_and_left, exists_eq_left, Has]
    omega
  next apart =>
    rw [overlaps_iff] at apart
    simp only [List.mem_singleton, exists_eq_left, Has]
    omega

theorem without_pairwise (solid : hole.start < hole.stop) :
    (r.without hole).Pairwise (fun a b => a.stop < b.start) := by
  simp only [without]
  split
  · split <;> split <;> simp [solid]
  · simp

end ByteRange

namespace RangeSet

variable {s : RangeSet} {hole : ByteRange} {i : Nat}

theorem mem_iff : i ∈ s ↔ ∃ r ∈ s.ranges, r.Has i :=
  Iff.rfl

instance : Decidable (i ∈ s) :=
  inferInstanceAs (Decidable (∃ r ∈ s.ranges, r.Has i))

/-- Ascending intervals that are not empty and do not touch. -/
structure Canonical (s : RangeSet) : Prop where
  apart : s.ranges.Pairwise (fun a b => a.stop < b.start)
  nonempty : ∀ r ∈ s.ranges, r.start < r.stop

theorem canonical_empty : empty.Canonical := by
  constructor <;> simp [empty]

theorem not_mem_empty : i ∉ empty := by
  simp [mem_iff, empty]

theorem canonical_full (length : Nat) : (full length).Canonical := by
  simp only [full]
  split
  next positive => constructor <;> simp [positive]
  next => exact canonical_empty

@[simp] theorem mem_full {length : Nat} : i ∈ full length ↔ i < length := by
  simp only [full]
  split
  next positive => simp [mem_iff, ByteRange.Has]
  next zero => simp [not_mem_empty]; omega

theorem Canonical.remove (canonical : s.Canonical) (hole : ByteRange) :
    (s.remove hole).1.Canonical := by
  simp only [RangeSet.remove]
  split
  next => exact canonical
  next solid =>
    have solid : hole.start < hole.stop := by omega
    constructor
    · refine List.pairwise_flatMap.mpr ⟨fun r _ => ByteRange.without_pairwise solid, ?_⟩
      refine canonical.apart.imp_of_mem fun {a b} ha hb apart x hx y hy => ?_
      have left := ByteRange.mem_without hx (canonical.nonempty a ha)
      have right := ByteRange.mem_without hy (canonical.nonempty b hb)
      omega
    · intro x listed
      obtain ⟨r, member, listed⟩ := List.mem_flatMap.mp listed
      exact (ByteRange.mem_without listed (canonical.nonempty r member)).1

theorem mem_remove : i ∈ (s.remove hole).1 ↔ i ∈ s ∧ ¬ hole.Has i := by
  simp only [RangeSet.remove]
  split
  next hollow =>
    have none : ¬ hole.Has i := by simp only [ByteRange.Has]; omega
    simp [none]
  next solid =>
    simp only [mem_iff, List.mem_flatMap]
    constructor
    · rintro ⟨x, ⟨r, member, listed⟩, has⟩
      obtain ⟨inside, outside⟩ := ByteRange.has_without.mp ⟨x, listed, has⟩
      exact ⟨⟨r, member, inside⟩, outside⟩
    · rintro ⟨⟨r, member, inside⟩, outside⟩
      obtain ⟨x, listed, has⟩ := ByteRange.has_without.mpr ⟨inside, outside⟩
      exact ⟨x, ⟨r, member, listed⟩, has⟩

theorem intersects_iff (canonical : s.Canonical) (solid : hole.start < hole.stop) :
    s.intersects hole = true ↔ ∃ i, i ∈ s ∧ hole.Has i := by
  simp only [intersects, List.any_eq_true, mem_iff]
  constructor
  · rintro ⟨r, member, meets⟩
    obtain ⟨i, has, inHole⟩ :=
      (ByteRange.overlaps_iff_has (canonical.nonempty r member) solid).mp meets
    exact ⟨i, ⟨r, member, has⟩, inHole⟩
  · rintro ⟨i, ⟨r, member, has⟩, inHole⟩
    exact ⟨r, member,
      (ByteRange.overlaps_iff_has (canonical.nonempty r member) solid).mpr ⟨i, has, inHole⟩⟩

theorem isEmpty_iff (canonical : s.Canonical) : s.isEmpty = true ↔ ∀ i, i ∉ s := by
  simp only [isEmpty, List.isEmpty_iff, mem_iff]
  constructor
  · intro none
    simp [none]
  · intro none
    refine List.eq_nil_iff_forall_not_mem.mpr fun r member => none r.start ⟨r, member, ?_⟩
    exact ⟨Nat.le_refl _, canonical.nonempty r member⟩

theorem covered_append (a b : List ByteRange) :
    (⟨a ++ b⟩ : RangeSet).covered = (⟨a⟩ : RangeSet).covered + (⟨b⟩ : RangeSet).covered := by
  induction a with
  | nil => simp [covered]
  | cons r rest ih =>
    simp only [covered, List.cons_append, List.foldr_cons] at ih ⊢
    omega

theorem shared_add_without {r : ByteRange} (full : r.start < r.stop)
    (solid : hole.start < hole.stop) :
    r.shared hole + (⟨r.without hole⟩ : RangeSet).covered = r.stop - r.start := by
  simp only [ByteRange.shared, ByteRange.without, covered]
  split
  next meets =>
    rw [ByteRange.overlaps_iff] at meets
    split <;> split <;> simp <;> omega
  next => simp

/-- What is removed and what remains make up the whole. -/
theorem remove_count (canonical : s.Canonical) (hole : ByteRange) :
    (s.remove hole).2 + (s.remove hole).1.covered = s.covered := by
  obtain ⟨ranges⟩ := s
  simp only [RangeSet.remove]
  split
  next => simp
  next solid =>
    induction ranges with
    | nil => rfl
    | cons r rest ih =>
      have one := shared_add_without (canonical.nonempty r List.mem_cons_self)
        (show hole.start < hole.stop by omega)
      have others := ih ⟨(List.pairwise_cons.mp canonical.apart).2,
        fun x member => canonical.nonempty x (List.mem_cons_of_mem _ member)⟩
      have whole : (⟨r :: rest⟩ : RangeSet).covered =
          r.stop - r.start + (⟨rest⟩ : RangeSet).covered := rfl
      simp only [List.flatMap_cons, covered_append, whole, List.foldr_cons] at others ⊢
      omega

theorem covered_eq_card (canonical : s.Canonical) {length : Nat} (bound : ∀ i ∈ s, i < length) :
    s.covered = ((Finset.range length).filter (· ∈ s)).card := by
  obtain ⟨ranges⟩ := s
  induction ranges with
  | nil => simp [mem_iff, covered]
  | cons r rest ih =>
    obtain ⟨apart, restApart⟩ := List.pairwise_cons.mp canonical.apart
    have full := canonical.nonempty r List.mem_cons_self
    have inside : ∀ i, r.Has i → i < length := fun i has =>
      bound i ⟨r, List.mem_cons_self, has⟩
    have last := inside (r.stop - 1) (by simp only [ByteRange.Has]; omega)
    have split : (Finset.range length).filter (· ∈ (⟨r :: rest⟩ : RangeSet)) =
        Finset.Ico r.start r.stop ∪ (Finset.range length).filter (· ∈ (⟨rest⟩ : RangeSet)) := by
      ext i
      simp only [Finset.mem_filter, Finset.mem_range, Finset.mem_union, Finset.mem_Ico, mem_iff,
        List.mem_cons, exists_eq_or_imp]
      constructor
      · rintro ⟨below, has | has⟩
        · exact .inl has
        · exact .inr ⟨below, has⟩
      · rintro (has | ⟨below, has⟩)
        · exact ⟨inside i has, .inl has⟩
        · exact ⟨below, .inr has⟩
    have disjoint : Disjoint (Finset.Ico r.start r.stop)
        ((Finset.range length).filter (· ∈ (⟨rest⟩ : RangeSet))) := by
      refine Finset.disjoint_left.mpr fun i first second => ?_
      obtain ⟨x, member, has⟩ := (Finset.mem_filter.mp second).2
      have := apart x member
      rw [Finset.mem_Ico] at first
      omega
    rw [split, Finset.card_union_of_disjoint disjoint, Nat.card_Ico,
      ← ih ⟨restApart, fun x member => canonical.nonempty x (List.mem_cons_of_mem _ member)⟩
        fun i ⟨x, member, has⟩ => bound i ⟨x, List.mem_cons_of_mem _ member, has⟩]
    rfl

theorem remove_le (canonical : s.Canonical) {length : Nat} (bound : ∀ i ∈ s, i < length)
    (hole : ByteRange) : (s.remove hole).2 ≤ hole.stop - hole.start := by
  have within : (Finset.range length).filter (· ∈ s) ⊆
      (Finset.range length).filter (· ∈ (s.remove hole).1) ∪ Finset.Ico hole.start hole.stop := by
    intro i listed
    simp only [Finset.mem_union, Finset.mem_filter, Finset.mem_Ico, mem_remove] at listed ⊢
    by_cases has : hole.Has i
    · exact .inr has
    · exact .inl ⟨listed.1, listed.2, has⟩
  have cards := (Finset.card_le_card within).trans (Finset.card_union_le _ _)
  rw [← covered_eq_card canonical bound,
    ← covered_eq_card (canonical.remove hole) fun i listed => bound i (mem_remove.mp listed).1,
    Nat.card_Ico] at cards
  have count := remove_count canonical hole
  omega

theorem Canonical.separate (canonical : s.Canonical) {a b : ByteRange} (ha : a ∈ s.ranges)
    (hb : b ∈ s.ranges) (other : a ≠ b) : a.stop < b.start ∨ b.stop < a.start := by
  have either : s.ranges.Pairwise fun a b => a.stop < b.start ∨ b.stop < a.start :=
    canonical.apart.imp .inl
  have : Std.Symm fun a b : ByteRange => a.stop < b.start ∨ b.stop < a.start :=
    ⟨fun _ _ => Or.symm⟩
  exact either.forall ha hb other

/-- The stored intervals are exactly the maximal runs of the set. -/
theorem mem_ranges_iff (canonical : s.Canonical) {r : ByteRange} :
    r ∈ s.ranges ↔ r.IsMaximalRun (· ∈ s) := by
  have runs : ∀ x ∈ s.ranges, x.IsMaximalRun (· ∈ s) := by
    intro x member
    have full := canonical.nonempty x member
    refine ⟨full, fun i has => ⟨x, member, has⟩, ?_, ?_⟩
    · rintro i next ⟨y, member', has⟩
      by_cases same : y = x
      · subst same
        omega
      · rcases canonical.separate member' member same with before | after <;> omega
    · rintro ⟨y, member', has⟩
      by_cases same : y = x
      · subst same
        omega
      · rcases canonical.separate member' member same with before | after <;> omega
  refine ⟨runs r, fun run => ?_⟩
  have first : r.Has r.start := ⟨Nat.le_refl _, run.nonempty⟩
  obtain ⟨x, member, has⟩ := run.inside r.start first
  exact run.unique (runs x member) first has ▸ member

end RangeSet
end BlobReplica
