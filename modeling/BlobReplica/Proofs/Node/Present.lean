import BlobReplica.Proofs.Cache.Queries
import BlobReplica.Proofs.Node.Order

/-! What a sweep leaves of the answers for a time. It spares the last complete version of a key, which
may start later or end just then, and of those before it only the young ones. -/

namespace BlobReplica

namespace Cache

variable {c : Cache} {b : Blob} {blobs : List Blob} {key : String} {now : Millis}
  {policy : SweepPolicy}

theorem satisfies_time : b.satisfies { time := some now } = b.validity.covers now := by
  simp [Blob.satisfies, Constraints.acceptsCreated, Table.empty]

theorem isSome_lookupBest : (c.lookupBest key { time := some now }).isSome = true ↔
    ∃ b ∈ c.versions key, b.isComplete = true ∧ b.validity.covers now = true := by
  simp only [isSome_lookupBest_iff, Answers, satisfies_time]

theorem sweepReason?_of_isComplete (complete : b.isComplete = true) :
    sweepReason? policy now b = none ↔ b.validity.expiredAt now = false := by
  rw [sweepReason?, of_decide_eq_true complete]
  simp

theorem mem_retained_complete (complete : b.isComplete = true) :
    b ∈ retained policy now blobs ↔ b ∈ blobs ∧ b.validity.expiredAt now = false :=
  mem_retained.trans (and_congr_right' (sweepReason?_of_isComplete complete))

theorem lasting_of_covers {v : Validity} (covers : v.covers now = true) :
    v.expiredAt now = false := by
  simp only [Validity.covers, Bool.and_eq_true, decide_eq_true_eq] at covers
  exact decide_eq_false (Nat.not_lt.mpr covers.2.le)

/-- What has not ended covers a time unless it starts later or ends just then. -/
theorem covers_of_lasting {v : Validity} (lasting : v.expiredAt now = false) :
    v.covers now = true ∨ now < v.start ∨ now = v.stop := by
  have notEnded := Nat.not_lt.mp (of_decide_eq_false lasting)
  rw [Validity.covers, Bool.and_eq_true, decide_eq_true_eq, decide_eq_true_eq]
  rcases Nat.lt_or_ge now v.start with before | started
  · exact .inr (.inl before)
  · exact notEnded.lt_or_eq.imp (⟨started, ·⟩) .inr

end Cache

namespace Node

variable {n : Node} {h : History} {grace now : Millis} {key : String}

/-- A sweep at a time that a key answers spares the greatest complete version that has not ended. The
time is answered afterwards if that version covers it, or another one that covers it is young enough; so
it is lost only to a version that starts later or ends just then. -/
theorem present_after_sweep (run : Run Regular (.empty grace) h n) (policy : Cache.SweepPolicy)
    (answered : (n.cache.lookupBest key { time := some now }).isSome = true) :
    ∃ newest ∈ (n.cache.sweep now policy).1.versions key,
      newest.isComplete = true ∧ newest.validity.expiredAt now = false ∧
      (∀ x ∈ n.cache.versions key, x.isComplete = true → x.validity.expiredAt now = false →
        x = newest ∨ x.place < newest.place) ∧
      (((n.cache.sweep now policy).1.lookupBest key { time := some now }).isSome = true ↔
        newest.validity.covers now = true ∨
          ∃ x ∈ n.cache.versions key, x.isComplete = true ∧ x.validity.covers now = true ∧
            now - x.validity.start ≤ policy.supersedeAfter) ∧
      (newest.validity.covers now = true ∨ now < newest.validity.start ∨
        now = newest.validity.stop) := by
  obtain ⟨b, listed, complete, covers⟩ := Cache.isSome_lookupBest.mp answered
  have candidate : b ∈ (Cache.retained policy now (n.cache.versions key)).filter Blob.isComplete :=
    List.mem_filter.mpr ⟨(Cache.mem_retained_complete complete).mpr
      ⟨listed, Cache.lasting_of_covers covers⟩, complete⟩
  obtain ⟨newest, last⟩ := Option.isSome_iff_exists.mp
    (List.getLast?_isSome.mpr (List.ne_nil_of_mem candidate))
  obtain ⟨retained, newestComplete⟩ := List.mem_filter.mp (List.mem_of_getLast? last)
  have lasting := ((Cache.mem_retained_complete newestComplete).mp retained).2
  have spared := Cache.last_mem_swept last
  refine ⟨newest, Cache.versions_sweep .. ▸ spared, newestComplete, lasting, ?_, ?_,
    Cache.covers_of_lasting lasting⟩
  · intro x listed complete lasting
    exact lt_last_complete run List.filter_sublist last x
      ((Cache.mem_retained_complete complete).mpr ⟨listed, lasting⟩) complete
  · rw [Cache.isSome_lookupBest, Cache.versions_sweep]
    constructor
    · rintro ⟨x, kept, complete, covers⟩
      obtain ⟨⟨listed, _⟩, incomplete | young | here⟩ := Cache.mem_swept.mp kept
      · simp [complete] at incomplete
      · exact .inr ⟨x, listed, complete, covers, young⟩
      · obtain rfl := Option.some.inj (last.symm.trans here)
        exact .inl covers
    · rintro (covers | ⟨x, listed, complete, covers, young⟩)
      · exact ⟨newest, spared, newestComplete, covers⟩
      · refine ⟨x, Cache.mem_swept.mpr ⟨⟨listed, ?_⟩, .inr (.inl young)⟩, complete, covers⟩
        exact (Cache.sweepReason?_of_isComplete complete).mpr (Cache.lasting_of_covers covers)

theorem versions_insertObject {b : Blob} {properties : Properties} {payload : Bytes}
    (made : (Blob.ofObject b.key b.version properties payload now).toOption = some b)
    (absent : n.cache.find? b.key b.version = none)
    (unmarked : n.cache.isInvalid b.version = false) :
    (n.perform (.insertObject b.key b.version properties payload now)).cache.versions b.key =
      Cache.sorted (n.cache.versions b.key ++ [{ b with copy := n.cache.copies }]) := by
  cases given : Blob.ofObject b.key b.version properties payload now with
  | error e => rw [given] at made; contradiction
  | ok x =>
    rw [given] at made
    obtain rfl := Option.some.inj made
    rw [perform, Cache.insertObject, given]
    simp only [Cache.insert_eq_ok absent unmarked, bind, Except.bind, pure, Except.pure]
    rw [withCache, Cache.versions_setVersions, if_pos rfl]

/-- The properties of one byte that is valid from a time on. -/
def sampleTold (start : Millis) : Properties :=
  .ofList [(Property.contentMd5, "0cc175b9c0f1b6a831c399e269772661"),
    (Property.validFrom, toString start)]

def sampleObject (number : Nat) (start : Millis) : Blob where
  key := "k"
  version := .ofNumber number
  arrived := 10
  status := .complete
  validity := ⟨start, Millis.unbounded⟩
  created := 10
  lastTouched := 10
  size := some 1
  properties := sampleTold start
  headersRecovered := true
  payload := .verified [97]

/-- A node that has taken in a version for the present. -/
def samplePresent : Node :=
  (empty 10000).perform (.insertObject "k" (.ofNumber 1) (sampleTold 0) [97] 10)

/-- The same with one for later. -/
def sampleTimeline : Node :=
  samplePresent.perform (.insertObject "k" (.ofNumber 2) (sampleTold 2000000) [97] 10)

theorem versions_sampleTimeline : sampleTimeline.cache.versions "k" =
    [sampleObject 1 0, { sampleObject 2 2000000 with copy := 1 }] := by
  have present : samplePresent.cache.versions "k" = [sampleObject 1 0] ∧
      samplePresent.cache.copies = 1 := by
    decide +kernel
  have list : sampleTimeline.cache.versions "k" = Cache.sorted (samplePresent.cache.versions "k" ++
      [{ sampleObject 2 2000000 with copy := samplePresent.cache.copies }]) :=
    versions_insertObject (b := sampleObject 2 2000000) (by decide +kernel) (by decide +kernel)
      (by decide +kernel)
  rw [list, present.1, present.2, List.singleton_append, Cache.sorted_pair]
  rfl

/-- The spared version may start later, and the one that covers the present be too old to stay. -/
theorem present_lost :
    Run Regular (.empty 10000)
      [(empty 10000, .insertObject "k" (.ofNumber 1) (sampleTold 0) [97] 10),
        (samplePresent, .insertObject "k" (.ofNumber 2) (sampleTold 2000000) [97] 10)]
      sampleTimeline ∧
    (sampleTimeline.cache.lookupBest "k" { time := some 1000000 }).isSome = true ∧
    ((sampleTimeline.cache.sweep 1000000 {}).1.lookupBest "k" { time := some 1000000 }).isSome =
      false := by
  refine ⟨.step (.step .start trivial) trivial, ?_⟩
  rw [Cache.lookupBest, Cache.lookupBest, Cache.versions_sweep, versions_sampleTimeline]
  decide +kernel

/-- A sweep that spares versions for longer leaves the one for the present. -/
theorem present_after_sweep_sample :
    (sampleTimeline.cache.lookupBest "k" { time := some 1000000 }).isSome = true ∧
    ((sampleTimeline.cache.sweep 1000000 { supersedeAfter := 1000000 }).1.lookupBest "k"
      { time := some 1000000 }).isSome = true := by
  have run : Run Regular (.empty 10000) _ sampleTimeline := .step (.step .start trivial) trivial
  have answered : (sampleTimeline.cache.lookupBest "k" { time := some 1000000 }).isSome = true := by
    rw [Cache.lookupBest, versions_sampleTimeline]
    decide +kernel
  obtain ⟨_, _, _, _, _, answers, _⟩ :=
    present_after_sweep run { supersedeAfter := 1000000 } answered
  refine ⟨answered, answers.mpr (.inr ⟨sampleObject 1 0, ?_, by decide, by decide, by decide⟩)⟩
  rw [versions_sampleTimeline]
  exact List.mem_cons_self

end Node
end BlobReplica
