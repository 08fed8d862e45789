import BlobReplica.Proofs.Node.Events

/-! Tickets and the cache. A ticket's blob is open and stored, just as its ticket has it, until a sweep
gives the blob up for stale: that takes it out of the cache and leaves its ticket. -/

namespace BlobReplica

namespace Cache

variable {b : Blob}

theorem sweepReason?_of_isOpen (policy : SweepPolicy) (now : Millis) (isOpen : b.isTerminal = false) :
    sweepReason? policy now b = none ∨ sweepReason? policy now b = some .stale := by
  obtain ⟨incomplete, uncorrupt⟩ := Blob.status_of_isOpen isOpen
  rw [sweepReason?]
  split
  next corrupt => exact absurd corrupt uncorrupt
  next complete => exact absurd complete incomplete
  next =>
    split
    next => exact .inr rfl
    next => exact .inl rfl

end Cache

namespace Node

variable {n n' : Node} {b b' s x : Blob} {c : Cache} {e : Event} {h : History} {i : Intake}
  {f : Fragment} {v : VersionId} {start now : Millis} {o : Outcome} {gone : Nat → Prop}

/-- What a node does to keep its blobs up with those of others: it takes in fragments and queues
incomplete blobs, sweeps, polls, and attempts recovery of blobs as it has them. -/
def Replicates (n : Node) : Event → Prop
  | .fragment i _ _ | .datagram i _ _ => i.recovers = true
  | .sweep _ _ | .poll _ => True
  | .recover b _ _ => n.Shows b
  | _ => False

/-- A sweep takes the blob of that number out of the cache for stale. -/
def Abandons : Node × Event → Nat → Prop
  | (n, .sweep now policy), copy => ∃ b, n.cache.Stores b ∧ b.copy = copy ∧
      Cache.sweepReason? policy now b = some .stale
  | _, _ => False

def History.Abandoned (h : History) (copy : Nat) : Prop :=
  ∃ step ∈ h, Abandons step copy

/-- Tickets have open blobs that are stored, those apart whose numbers are `gone` from the cache. -/
structure Tied (n : Node) (gone : Nat → Prop) : Prop extends n.Consistent where
  isOpen : ∀ t ∈ n.queue.tickets, t.blob.isTerminal = false
  stored : ∀ t ∈ n.queue.tickets, n.cache.Stores t.blob ∨ gone t.blob.copy
  present : ∀ b, n.cache.Stores b → ¬ gone b.copy
  past : ∀ copy, gone copy → copy < n.cache.copies

theorem tied_empty (grace : Millis) : (empty grace).Tied fun _ => False where
  toConsistent := consistent_empty grace
  isOpen _ waits := by contradiction
  stored _ waits := by contradiction
  present _ _ := id
  past _ := False.elim

theorem version_of_mem_dequeue {t : Recovery.Ticket} (waits : t ∈ (n.dequeue v).queue.tickets) :
    t.blob.version ≠ v := by
  simpa using (List.mem_filter.mp waits).2

namespace Tied

theorem narrow (tied : n.Tied gone) (narrows : n.Narrows n')
    (tickets : n'.queue.tickets ⊆ n.queue.tickets)
    (stores : ∀ b, n'.cache.Stores b → n.cache.Stores b)
    (kept : ∀ t ∈ n'.queue.tickets, n.cache.Stores t.blob → n'.cache.Stores t.blob) :
    n'.Tied gone where
  toConsistent := tied.toConsistent.narrow narrows
  isOpen t waits := tied.isOpen t (tickets waits)
  stored t waits := (tied.stored t (tickets waits)).imp_left (kept t waits)
  present b here := tied.present b (stores b here)
  past copy away := narrows.copies ▸ tied.past copy away

theorem dequeue (tied : n.Tied gone) (v : VersionId) : (n.dequeue v).Tied gone :=
  tied.narrow (narrows_dequeue tied.cache v) (List.filter_subset_self _) (fun _ => id) fun _ _ => id

theorem poll (tied : n.Tied gone) (now : Millis) :
    ({ n with queue := (n.queue.poll now).1 } : Node).Tied gone :=
  tied.narrow (narrows_poll tied.cache now) (Recovery.Queue.poll_tickets _ _) (fun _ => id)
    fun _ _ => id

theorem counted (tied : n.Tied gone) (counters : Counters) :
    ({ n with counters } : Node).Tied gone :=
  tied.narrow (narrows_counted tied.cache counters) (List.Subset.refl _) (fun _ => id) fun _ _ => id

theorem resort (tied : n.Tied gone) (key : String) : (n.resort key).Tied gone :=
  tied.narrow (narrows_resort tied.cache key) (List.Subset.refl _)
    (fun _ => (tied.cache.stores_resort key).mp) fun _ _ => (tied.cache.stores_resort key).mpr

theorem discardInvalid (tied : n.Tied gone) (b : Blob) (now : Millis)
    (unqueued : ∀ t ∈ n.queue.tickets, t.blob.version ≠ b.version) :
    (n.discardInvalid b now).Tied gone := by
  have stores (x : Blob) := tied.cache.stores_discardInvalid (x := x) b.key b.version now
  refine tied.narrow (narrows_discardInvalid tied.cache b.key b.version now) (List.Subset.refl _)
    (fun x here => ((stores x).mp here).1) fun t waits here => ?_
  exact (stores t.blob).mpr ⟨here, fun same => unqueued t waits same.2⟩

theorem enqueue (tied : n.Tied gone) (stored : n.cache.Stores b) (isOpen : b.isTerminal = false) :
    (n.enqueue b).Tied gone where
  toConsistent := tied.toConsistent.narrow (narrows_enqueue tied.cache stored)
  isOpen t waits := by
    rcases Recovery.Queue.tickets_enqueue waits with former | rfl
    · exact tied.isOpen t former
    · exact isOpen
  stored t waits := by
    rcases Recovery.Queue.tickets_enqueue waits with former | rfl
    · exact tied.stored t former
    · exact .inl stored
  present := tied.present
  past := tied.past

theorem update (tied : n.Tied gone) (shows : n.Shows b) (same : b.Same b')
    (free : b'.isTerminal = false ∨ ∀ t ∈ n.queue.tickets, t.blob.version ≠ b.version) :
    (n.update b').Tied gone := by
  have stores := (tied.cache.change shows.cache same).2
  have number {o : Blob} (held : n.Holds o) : (Cache.replaced b' o).copy = o.copy :=
    (Consistent.same_replaced shows same held).copy
  have origin {t' : Recovery.Ticket} (waits : t' ∈ (n.update b').queue.tickets) :
      ∃ t ∈ n.queue.tickets, t'.blob = Cache.replaced b' t.blob := by
    rw [tickets_update] at waits
    obtain ⟨t, former, rfl⟩ := List.mem_map.mp waits
    exact ⟨t, former, rfl⟩
  constructor
  case toConsistent => exact (tied.toConsistent.update shows same).1
  case isOpen =>
    intro t' waits
    obtain ⟨t, former, state⟩ := origin waits
    rw [state, Cache.replaced]
    split
    next copy =>
      refine free.resolve_right fun unqueued => unqueued t former ?_
      rw [shows t.blob (.inr ⟨t, former, rfl⟩) (copy.trans same.copy)]
    next => exact tied.isOpen t former
  case stored =>
    intro t' waits
    obtain ⟨t, former, state⟩ := origin waits
    rw [state, number (.inr ⟨t, former, rfl⟩)]
    exact (tied.stored t former).imp_left fun here => (stores _).mpr ⟨t.blob, here, rfl⟩
  case present =>
    intro x here
    obtain ⟨o, former, rfl⟩ := (stores x).mp here
    rw [number (.inl former)]
    exact tied.present o former
  case past =>
    intro copy away
    show copy < (n.cache.update b').copies
    rw [Cache.copies_update]
    exact tied.past copy away

theorem decide (tied : n.Tied gone) (shows : n.Shows b) (same : b.Same b') :
    ((n.update b').dequeue b'.version).Tied gone := by
  rw [dequeue_update shows same]
  refine (tied.dequeue b'.version).update (shows.narrow (narrows_dequeue tied.cache _)) same (.inr ?_)
  intro t waits
  rw [← same.version]
  exact version_of_mem_dequeue waits

theorem opens {key : String} {isNew : Bool} (tied : n.Tied gone)
    (opened : n.cache.getOrCreate key v now = .ok (c, b, isNew)) :
    (n.withCache c).Tied gone ∧ c.Stores b := by
  obtain ⟨consistent, _, here, _⟩ := tied.toConsistent.insert opened
  refine ⟨?_, here⟩
  rcases tied.cache.insert_cases opened with ⟨rfl, _⟩ | ⟨taken, _⟩
  · exact tied
  · constructor
    case toConsistent => exact consistent
    case isOpen => exact tied.isOpen
    case stored =>
      intro t waits
      exact (tied.stored t waits).imp_left fun former => (taken.stores _).mpr (.inl former)
    case present =>
      intro x stored
      rcases (taken.stores x).mp stored with former | rfl
      · exact tied.present x former
      · intro away
        exact Nat.lt_irrefl _ (taken.next ▸ tied.past _ away)
    case past =>
      intro copy away
      show copy < c.copies
      rw [taken.copies]
      exact Nat.lt_succ_of_lt (tied.past copy away)

theorem concludes (tied : n.Tied gone) (recovers : i.recovers = true) (stored : n.cache.Stores b)
    (same : b.Same s) (concludes : i.Concludes n s start now n' o) : n'.Tied gone := by
  have shows := tied.single b (.inl stored)
  cases concludes with
  | pending lacking =>
    have here := tied.toConsistent.stores_update stored same
    have updated := tied.update shows same (.inl lacking)
    simp only [Intake.await, recovers, if_true]
    split
    next => exact updated.enqueue here lacking
    next =>
      have placed := (updated.cache.stores_resort s.key).mpr here
      exact (updated.resort s.key).enqueue placed lacking
  | completed complete =>
    simp only [Intake.leave, recovers, if_true]
    exact (tied.decide shows same).resort s.key
  | invalid corrupt =>
    simp only [Intake.leave, recovers, if_true]
    exact (tied.decide shows same).discardInvalid s now fun t => version_of_mem_dequeue

theorem takes (tied : n.Tied gone) (recovers : i.recovers = true) (takes : i.Takes n f now n' o) :
    n'.Tied gone := by
  cases takes with
  | refused => exact tied
  | late opened | rejected opened => exact (tied.opens opened).1
  | merged opened isOpen merged concludes =>
    obtain ⟨opened, stored⟩ := tied.opens opened
    exact opened.concludes recovers stored (Blob.advances_merge merged).same_settle concludes

theorem attempts {response : Option Recovery.FetchResponse} {a : Recovery.Achievement}
    (tied : n.Tied gone) (shows : n.Shows b) (attempts : Recovery.Attempts n b response now n' b' a) :
    n'.Tied gone := by
  cases attempts with
  | alreadyComplete => exact tied.dequeue b.version
  | alreadyCorrupt =>
    exact (tied.dequeue b.version).discardInvalid b now fun t => version_of_mem_dequeue
  | unanswered => exact tied
  | broken asked _ refused =>
    have changed := (Recovery.receives_of_apply refused).advances
    have still := changed.isTerminal.trans (Recovery.isOpen_of_request? asked)
    exact tied.update shows changed.toSame (.inl still)
  | incomplete _ _ applied lacking =>
    have same := (Recovery.receives_of_apply applied).advances.same_settle
    exact (tied.update shows same (.inl lacking)).resort _
  | completed _ _ applied =>
    have same := (Recovery.receives_of_apply applied).advances.same_settle
    exact (tied.decide shows same).resort _
  | corrupt _ _ applied =>
    have same := (Recovery.receives_of_apply applied).advances.same_settle
    exact (tied.decide shows same).discardInvalid _ now fun t => version_of_mem_dequeue

/-- A sweep leaves the tickets of the blobs that it abandons. -/
theorem sweep (tied : n.Tied gone) (now : Millis) (policy : Cache.SweepPolicy) :
    (n.perform (.sweep now policy)).Tied
      fun copy => gone copy ∨ Abandons (n, .sweep now policy) copy := by
  have list (k : String) := Cache.versions_sweep n.cache now policy k
  have former {x : Blob} (here : (n.cache.sweep now policy).1.Stores x) :
      n.cache.Stores x ∧ Cache.sweepReason? policy now x = none := by
    obtain ⟨k, listed⟩ := here
    rw [list] at listed
    exact ⟨⟨k, (Cache.swept_sublist policy now _).subset listed⟩,
      (Cache.mem_swept.mp listed).1.2⟩
  constructor
  case toConsistent => exact tied.toConsistent.narrow (narrows_sweep tied.cache now policy)
  case isOpen => exact tied.isOpen
  case stored =>
    intro t waits
    have isOpen := tied.isOpen t waits
    rcases tied.stored t waits with ⟨k, listed⟩ | away
    · rcases Cache.sweepReason?_of_isOpen policy now isOpen with spared | stale
      · refine .inl ⟨k, ?_⟩
        show t.blob ∈ (n.cache.sweep now policy).1.versions k
        rw [list]
        exact Cache.mem_swept.mpr ⟨⟨listed, spared⟩,
          .inl (decide_eq_false (Blob.status_of_isOpen isOpen).1)⟩
      · exact .inr (.inr ⟨t.blob, ⟨k, listed⟩, rfl, stale⟩)
    · exact .inr (.inl away)
  case present =>
    intro x here
    obtain ⟨stored, spared⟩ := former here
    rintro (away | ⟨b, stored', copy, stale⟩)
    · exact tied.present x stored away
    · rw [tied.single x (.inl stored) b (.inl stored') copy, spared] at stale
      contradiction
  case past =>
    rintro copy (away | ⟨b, stored, rfl, _⟩)
    · exact tied.past copy away
    · exact tied.numbered b (.inl stored)

theorem perform (tied : n.Tied gone) (permitted : Replicates n e) :
    (n.perform e).Tied fun copy => gone copy ∨ Abandons (n, e) copy := by
  have quiet (none : ∀ copy, ¬ Abandons (n, e) copy) (kept : (n.perform e).Tied gone) :
      (n.perform e).Tied fun copy => gone copy ∨ Abandons (n, e) copy := by
    simpa only [none, or_false] using kept
  cases e with
  | fragment i f now => exact quiet (fun _ => id) (tied.takes permitted (i.takes_fragment n f now))
  | datagram i d now =>
    refine quiet (fun _ => id) ?_
    obtain ⟨counters, same | ⟨f, _, same⟩⟩ := i.datagram_cases n d now
    · rw [Node.perform, same]
      exact tied.counted counters
    · rw [Node.perform, same]
      exact (tied.takes permitted (i.takes_fragment n f now)).counted counters
  | sweep now policy => exact tied.sweep now policy
  | poll now => exact quiet (fun _ => id) (tied.poll now)
  | recover b response now =>
    exact quiet (fun _ => id) (tied.attempts permitted (Recovery.attempts_attempt n b response now))
  | operate | insert | insertObject | remove | discardInvalid | markInvalid | resort =>
    exact permitted.elim

theorem run {grace : Millis} (run : Run Replicates (.empty grace) h n) : n.Tied h.Abandoned := by
  induction run with
  | start =>
    have nothing : History.Abandoned [] = fun _ => False := by
      funext copy
      simp [History.Abandoned]
    rw [nothing]
    exact tied_empty grace
  | @step h n e _ permitted ih =>
    have grown : History.Abandoned (h ++ [(n, e)]) =
        fun copy => h.Abandoned copy ∨ Abandons (n, e) copy := by
      funext copy
      simp [History.Abandoned, or_and_right, exists_or]
    rw [grown]
    exact ih.perform permitted

end Tied

/-- However fragments, sweeps, polls and attempts follow on each other: the blob of every ticket is
open, and the cache finds it as the ticket has it, unless a sweep has abandoned it. -/
theorem tickets_stored {grace : Millis} (run : Run Replicates (.empty grace) h n) :
    ∀ t ∈ n.queue.tickets, t.blob.isTerminal = false ∧
      (n.cache.find? t.blob.key t.blob.version = some t.blob ↔ ¬ h.Abandoned t.blob.copy) := by
  intro t waits
  have tied := Tied.run run
  refine ⟨tied.isOpen t waits, ?_⟩
  rw [← tied.cache.stores_iff_find?]
  exact ⟨tied.present t.blob, (tied.stored t waits).resolve_right⟩

theorem replicates_sampleFragment : Replicates (empty 10000) (.fragment {} sampleFragment 10) :=
  rfl

/-- A sweep that comes in time leaves the ticket its blob. -/
theorem tickets_stored_sample : Replicates (empty 10000) (.fragment {} sampleFragment 10) ∧
    Replicates sampleNode (.sweep 20 {}) ∧
    ⟨0, sampleBlob⟩ ∈ (sampleNode.perform (.sweep 20 {})).queue.tickets ∧
    ∀ t ∈ (sampleNode.perform (.sweep 20 {})).queue.tickets, t.blob.isTerminal = false ∧
      ((sampleNode.perform (.sweep 20 {})).cache.find? t.blob.key t.blob.version = some t.blob ↔
        ¬ History.Abandoned
          [(empty 10000, .fragment {} sampleFragment 10), (sampleNode, .sweep 20 {})] t.blob.copy) :=
  ⟨replicates_sampleFragment, trivial, by decide +kernel,
    tickets_stored (.step (.step .start replicates_sampleFragment) trivial)⟩

/-- A blob that was swept out of the cache keeps its ticket. -/
theorem ticket_outlives_blob : ∃ h n, Run Replicates (.empty 10000) h n ∧
    ∃ t ∈ n.queue.tickets, n.cache.find? t.blob.key t.blob.version ≠ some t.blob := by
  refine ⟨_, sampleNode.perform (.sweep 60011 {}),
    .step (.step .start replicates_sampleFragment) trivial, ⟨0, sampleBlob⟩, ?_, ?_⟩
  · decide +kernel
  · decide +kernel

end Node
end BlobReplica
