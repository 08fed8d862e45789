import BlobReplica.Proofs.Cache.Order
import BlobReplica.Proofs.Node.Changes

/-! The order of version lists in all runs, and what it means for sweeps: the complete blob that a
sweep spares is the last one by start of validity, creation and version. -/

namespace BlobReplica

namespace Cache

variable {b : Blob} {blobs : List Blob} {policy : SweepPolicy} {now : Millis}

theorem last_mem_swept
    (last : ((retained policy now blobs).filter Blob.isComplete).getLast? = some b) :
    b ∈ swept policy now blobs :=
  mem_swept.mpr ⟨mem_retained.mp (List.mem_of_mem_filter (List.mem_of_getLast? last)),
    .inr (.inr last)⟩

theorem last_retained (last : (blobs.filter Blob.isComplete).getLast? = some b)
    (lasting : b.validity.expiredAt now = false) :
    ((retained policy now blobs).filter Blob.isComplete).getLast? = some b := by
  obtain ⟨front, split⟩ := List.getLast?_eq_some_iff.mp last
  have complete : b.isComplete = true := by
    have listed : b ∈ blobs.filter Blob.isComplete := by simp [split]
    exact (List.mem_filter.mp listed).2
  have spared : (sweepReason? policy now b).isNone = true := by
    rw [sweepReason?, of_decide_eq_true complete]
    simp [lasting]
  have same : (retained policy now blobs).filter Blob.isComplete =
      (blobs.filter Blob.isComplete).filter fun b => (sweepReason? policy now b).isNone := by
    rw [retained, List.filter_filter, List.filter_filter]
    exact List.filter_congr fun x _ => Bool.and_comm _ _
  have alone : [b].filter (fun b => (sweepReason? policy now b).isNone) = [b] := by
    rw [List.filter_singleton, spared]
    rfl
  rw [same, split, List.filter_append, alone]
  exact List.getLast?_concat

end Cache

namespace Node

variable {n : Node} {h : History}

theorem ordered_run {grace : Millis} (run : Run Regular (.empty grace) h n) :
    n.cache.Ordered Blob.isComplete :=
  (Cache.ordered_empty _).changes Cache.tidy_empty (changes_run Cache.tidy_empty run)

/-- The last complete blob of a list, or of a part of it, is the greatest one. -/
theorem lt_last_complete {grace : Millis} {key : String} {blobs : List Blob} {b : Blob}
    (run : Run Regular (.empty grace) h n) (part : blobs.Sublist (n.cache.versions key))
    (last : (blobs.filter Blob.isComplete).getLast? = some b) :
    ∀ x ∈ blobs, x.isComplete = true → x = b ∨ x.place < b.place := by
  intro x listed complete
  have here := List.mem_filter.mp (List.mem_of_getLast? last)
  refine or_iff_not_imp_left.mpr fun other => lt_of_le_of_ne ?_ fun same => other ?_
  · have before := ((ordered_run run key).sublist part).comesBefore_last last
      (List.mem_filter.mpr ⟨listed, complete⟩)
    exact Blob.comesBefore_iff.mp (before.resolve_left other)
  · exact (tidy_run run).same_version (part.subset listed) (part.subset here.1)
      (Blob.version_eq_of_place same)

/-- Whatever is done to a node, each version list is ascending by start of validity and its complete
blobs by start, creation and version. So the last complete blob is the greatest, and unless it has ended
a sweep spares it; in any case a sweep spares the greatest of those that have not. -/
theorem versions_ordered {grace : Millis} (run : Run Regular (.empty grace) h n) (key : String) :
    ((n.cache.versions key).Pairwise fun a b => a.validity.start ≤ b.validity.start) ∧
    (((n.cache.versions key).filter Blob.isComplete).Pairwise fun a b => a.place ≤ b.place) ∧
    (∀ b, ((n.cache.versions key).filter Blob.isComplete).getLast? = some b →
      (∀ x ∈ n.cache.versions key, x.isComplete = true → x = b ∨ x.place < b.place) ∧
      ∀ now policy, b.validity.expiredAt now = false → b ∈ (n.cache.sweep now policy).1.versions key) ∧
    ∀ now policy b,
      ((Cache.retained policy now (n.cache.versions key)).filter Blob.isComplete).getLast? = some b →
      (∀ x ∈ Cache.retained policy now (n.cache.versions key), x.isComplete = true →
        x = b ∨ x.place < b.place) ∧
      b ∈ (n.cache.sweep now policy).1.versions key := by
  have ordered := ordered_run run key
  refine ⟨ordered.starts, ?_, fun b last => ⟨lt_last_complete run (.refl _) last, ?_⟩,
    fun now policy b last => ⟨lt_last_complete run List.filter_sublist last, ?_⟩⟩
  · exact ordered.filter.imp Blob.comesBefore_iff.mp
  · intro now policy lasting
    rw [Cache.versions_sweep]
    exact Cache.last_mem_swept (Cache.last_retained last lasting)
  · rw [Cache.versions_sweep]
    exact Cache.last_mem_swept last

def sampleComplete (number created : Nat) : Blob :=
  { Blob.ofArrival "k" (.ofNumber number) 10 with
    status := .complete, created, size := some 2, payload := .verified [97, 98] }

/-- Of two blobs that were taken in, the one with the earlier creation stands before the other. -/
theorem versions_ordered_sample :
    Regular (empty 10000) (.insert (sampleComplete 1 5)) ∧
    Regular ((empty 10000).perform (.insert (sampleComplete 1 5))) (.insert (sampleComplete 2 3)) ∧
    let n := ((empty 10000).perform (.insert (sampleComplete 1 5))).perform (.insert (sampleComplete 2 3))
    n.cache.versions "k" = [{ sampleComplete 2 3 with copy := 1 }, sampleComplete 1 5] ∧
    sampleComplete 1 5 ∈ (n.cache.sweep 1000000 {}).1.versions "k" := by
  have first : ((empty 10000).perform (.insert (sampleComplete 1 5))).cache.versions "k" =
      [sampleComplete 1 5] := by
    decide +kernel
  have taken := Cache.insert_eq_ok (b := sampleComplete 2 3)
    (c := ((empty 10000).perform (.insert (sampleComplete 1 5))).cache)
    (by decide +kernel) (by decide +kernel)
  have list : (((empty 10000).perform (.insert (sampleComplete 1 5))).perform
      (.insert (sampleComplete 2 3))).cache.versions "k" =
        [{ sampleComplete 2 3 with copy := 1 }, sampleComplete 1 5] := by
    rw [perform, taken]
    change (Cache.setVersions _ "k" (Cache.sorted (((empty 10000).perform
      (.insert (sampleComplete 1 5))).cache.versions "k" ++ [_]))).versions "k" = _
    rw [Cache.versions_setVersions, if_pos rfl, first, List.singleton_append, Cache.sorted_pair]
    rfl
  have run : Run Regular (.empty 10000) _ (((empty 10000).perform
      (.insert (sampleComplete 1 5))).perform (.insert (sampleComplete 2 3))) :=
    .step (.step .start trivial) trivial
  obtain ⟨_, _, last, _⟩ := versions_ordered run "k"
  rw [list] at last
  exact ⟨trivial, trivial, list, (last _ rfl).2 1000000 {} (by decide)⟩

end Node
end BlobReplica
