import BlobReplica.Proofs.Cache.Changes
import Mathlib.Data.Prod.Lex

/-! The order of version lists. A list is put in order when a blob comes in and when one takes a new
place. In between, open blobs may change where they stand, so only some blobs are sure to stand in
their places: all of them by start of validity, and those that are `settled` by the whole place. -/

namespace BlobReplica

/-- A version is told by its number. -/
theorem VersionId.ext_number {v w : VersionId} (same : v.number = w.number) : v = w := by
  cases v
  cases w
  exact congrArg VersionId.mk (BitVec.eq_of_toNat_eq same)

namespace Blob

variable {a b : Blob}

/-- Where a blob stands in a list: by start of validity, then creation, then version. -/
def place (b : Blob) : ℕ ×ₗ ℕ ×ₗ ℕ :=
  toLex (b.validity.start, toLex (b.created, b.version.number))

theorem comesBefore_iff : a.comesBefore b = true ↔ a.place ≤ b.place := by
  simp only [comesBefore, place, Prod.Lex.toLex_le_toLex, Bool.or_eq_true, Bool.and_eq_true,
    decide_eq_true_eq, beq_iff_eq]
  rfl

theorem comesBefore_total (a b : Blob) : (a.comesBefore b || b.comesBefore a) = true := by
  rw [Bool.or_eq_true, comesBefore_iff, comesBefore_iff]
  exact le_total a.place b.place

theorem comesBefore_trans (a b c : Blob) (ab : a.comesBefore b = true) (bc : b.comesBefore c = true) :
    a.comesBefore c = true := by
  rw [comesBefore_iff] at *
  exact ab.trans bc

theorem start_le_of_comesBefore (ab : a.comesBefore b = true) :
    a.validity.start ≤ b.validity.start := by
  rcases Prod.Lex.toLex_le_toLex.mp (comesBefore_iff.mp ab) with earlier | ⟨same, _⟩
  · exact Nat.le_of_lt earlier
  · exact Nat.le_of_eq same

theorem version_eq_of_place (same : a.place = b.place) : a.version = b.version :=
  VersionId.ext_number (congrArg (fun p => (ofLex (ofLex p).2).2) same)

end Blob

namespace Cache

variable {c c' : Cache} {b b' o x : Blob} {key k : String} {version v : VersionId}
  {settled : Blob → Bool} {blobs : List Blob} {now : Millis} {policy : SweepPolicy}
  {l : List Marks.Marking}

/-! ### Lists -/

/-- Ascending by start of validity; the settled blobs, also by creation and version. -/
structure InOrder (settled : Blob → Bool) (blobs : List Blob) : Prop where
  starts : blobs.Pairwise fun a b => a.validity.start ≤ b.validity.start
  places : blobs.Pairwise fun a b => settled a = true → settled b = true → a.comesBefore b = true

theorem inOrder_nil (settled : Blob → Bool) : InOrder settled [] where
  starts := .nil
  places := .nil

theorem inOrder_sorted (settled : Blob → Bool) (blobs : List Blob) :
    InOrder settled (sorted blobs) := by
  have ascending : (sorted blobs).Pairwise fun a b => a.comesBefore b = true :=
    List.pairwise_mergeSort Blob.comesBefore_trans Blob.comesBefore_total blobs
  constructor
  · exact ascending.imp Blob.start_le_of_comesBefore
  · exact ascending.imp fun before _ _ => before

theorem InOrder.sublist {fewer : List Blob} (inOrder : InOrder settled blobs)
    (sublist : fewer.Sublist blobs) : InOrder settled fewer where
  starts := inOrder.starts.sublist sublist
  places := inOrder.places.sublist sublist

theorem InOrder.map {f : Blob → Blob} (inOrder : InOrder settled blobs)
    (starts : ∀ o ∈ blobs, (f o).validity.start = o.validity.start)
    (places : ∀ o ∈ blobs, settled (f o) = true → settled o = true ∧ (f o).place = o.place) :
    InOrder settled (blobs.map f) := by
  constructor
  · rw [List.pairwise_map]
    apply inOrder.starts.imp_of_mem
    intro a b ha hb before
    rwa [starts a ha, starts b hb]
  · rw [List.pairwise_map]
    apply inOrder.places.imp_of_mem
    intro a b ha hb before sa sb
    obtain ⟨former, place⟩ := places a ha sa
    obtain ⟨former', place'⟩ := places b hb sb
    have placed := before former former'
    rw [Blob.comesBefore_iff] at placed ⊢
    rwa [place, place']

theorem InOrder.filter (inOrder : InOrder settled blobs) :
    (blobs.filter settled).Pairwise fun a b => a.comesBefore b = true :=
  List.pairwise_filter.mpr inOrder.places

theorem InOrder.comesBefore_last (inOrder : InOrder settled blobs)
    (last : (blobs.filter settled).getLast? = some b) (listed : x ∈ blobs.filter settled) :
    x = b ∨ x.comesBefore b = true := by
  obtain ⟨front, split⟩ := List.getLast?_eq_some_iff.mp last
  have ascending := inOrder.filter
  rw [split] at ascending listed
  rcases List.mem_append.mp listed with former | here
  · exact .inr ((List.pairwise_append.mp ascending).2.2 x former b List.mem_cons_self)
  · exact .inl (List.mem_singleton.mp here)

theorem sorted_pair (a b : Blob) : sorted [a, b] = if a.comesBefore b then [a, b] else [b, a] := by
  simp [sorted, List.mergeSort, List.MergeSort.Internal.splitInTwo, List.merge]

/-! ### Caches -/

theorem insert_eq_ok (absent : c.find? b.key b.version = none)
    (unmarked : c.isInvalid b.version = false) :
    c.insert b = .ok
      ({ c with copies := c.copies + 1 }.setVersions b.key
        (sorted (c.versions b.key ++ [{ b with copy := c.copies }])),
      { b with copy := c.copies }, true) := by
  rw [Cache.insert, absent]
  exact if_neg (Bool.eq_false_iff.mp unmarked)

/-- Every key's list is in order. -/
def Ordered (settled : Blob → Bool) (c : Cache) : Prop :=
  ∀ k, InOrder settled (c.versions k)

theorem ordered_empty (settled : Blob → Bool) : empty.Ordered settled :=
  fun _ => inOrder_nil settled

namespace Ordered

theorem of_lists (ordered : c.Ordered settled) (key : String)
    (here : ∃ blobs, c'.versions key = sorted blobs)
    (elsewhere : ∀ k, k ≠ key → (c'.versions k).Sublist (c.versions k)) : c'.Ordered settled := by
  intro k
  by_cases same : k = key
  · obtain ⟨blobs, list⟩ := here
    rw [same, list]
    exact inOrder_sorted settled blobs
  · exact (ordered k).sublist (elsewhere k same)

theorem insert {isNew : Bool} (ordered : c.Ordered settled)
    (inserted : c.insert b = .ok (c', x, isNew)) : c'.Ordered settled := by
  rw [Cache.insert] at inserted
  split at inserted
  next =>
    cases inserted
    exact ordered
  next =>
    split at inserted
    next => contradiction
    next =>
      cases inserted
      apply ordered.of_lists b.key
      · exact ⟨_, by rw [versions_setVersions, if_pos rfl]⟩
      · intro k other
        rw [versions_setVersions, if_neg other]
        exact .refl _

theorem resort (ordered : c.Ordered settled) (key : String) : (c.resort key).Ordered settled := by
  apply ordered.of_lists key
  · exact ⟨_, by rw [versions_resort, if_pos rfl]⟩
  · intro k other
    rw [versions_resort, if_neg other]

/-- A changed blob takes its place, whatever place it had. -/
theorem place (ordered : c.Ordered settled) (b : Blob) :
    ((c.update b).resort b.key).Ordered settled := by
  apply ordered.of_lists b.key
  · exact ⟨_, by rw [versions_resort, if_pos rfl]⟩
  · intro k other
    rw [versions_resort, if_neg other, versions_update, if_neg other]

/-- A changed blob may keep its place if its start is the same and it has not just been settled. -/
theorem keep (ordered : c.Ordered settled) (sound : c.Sound) (shows : c.Shows b) (same : b.Same b')
    (start : b'.validity.start = b.validity.start)
    (place : settled b' = true → settled b = true ∧ b'.created = b.created) :
    (c.update b').Ordered settled := by
  intro k
  rw [sound.versions_update shows same]
  apply (ordered k).map
  · intro o listed
    rw [replaced]
    split
    next copy => rw [shows o ⟨k, listed⟩ (copy.trans same.copy), start]
    next => rfl
  · intro o listed now
    rw [replaced] at now ⊢
    split at now
    next copy =>
      obtain rfl := shows o ⟨k, listed⟩ (copy.trans same.copy)
      obtain ⟨former, created⟩ := place now
      rw [if_pos copy, Blob.place, start, created, same.version]
      exact ⟨former, rfl⟩
    next apart =>
      rw [if_neg apart]
      exact ⟨now, rfl⟩

theorem remove (ordered : c.Ordered settled) (sound : c.Sound) (key : String)
    (version : VersionId) : (c.remove key version).1.Ordered settled := by
  intro k
  rw [sound.versions_remove]
  split
  next => exact (ordered key).sublist List.filter_sublist
  next => exact ordered k

theorem sweep (ordered : c.Ordered settled) (now : Millis) (policy : SweepPolicy) :
    (c.sweep now policy).1.Ordered settled := by
  intro k
  rw [versions_sweep]
  exact (ordered k).sublist (swept_sublist policy now _)

/-- Complete blobs stay in their places: what changes where it stands is not complete. -/
theorem change (ordered : c.Ordered Blob.isComplete) (sound : c.Sound) (change : c.Change l c') :
    c'.Ordered Blob.isComplete := by
  cases change with
  | takeIn inserted => exact ordered.insert inserted
  | keep shows same _ lacking start =>
    apply ordered.keep sound shows same start
    intro complete
    exact absurd (of_decide_eq_true complete) (Blob.status_of_isOpen lacking).1
  | place => exact ordered.place _
  | resort key => exact ordered.resort key
  | remove key version => exact ordered.remove sound key version
  | mark => exact ordered
  | sweep now policy => exact ordered.sweep now policy

theorem changes (ordered : c.Ordered Blob.isComplete) (tidy : c.Tidy) (changes : c.Changes l c') :
    c'.Ordered Blob.isComplete := by
  induction changes with
  | refl => exact ordered
  | tail first last ih => exact ih.change (first.tidy tidy).toSound last

end Ordered
end Cache
end BlobReplica
