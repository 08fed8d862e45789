import BlobReplica.Proofs.Blob.Life
import BlobReplica.Proofs.Node.Tickets
import BlobReplica.Proofs.Recovery.QueueRuns

/-! Blobs that lack pieces wait. A queue stays in working order as the blobs of its tickets are touched,
so it hands out in time what a fragment leaves pending, unless its version waited already for another
blob. -/

namespace BlobReplica

theorem Blob.Receives.onward {b b' : Blob} (receives : b.Receives b') : b.Onward b' := by
  induction receives with
  | refl => exact .refl b
  | tail _ step ih =>
    obtain ⟨op, supplies, rfl⟩ := step
    refine ih.trans (onward_perform _ ?_)
    cases op <;> trivial

/-- The state in which a fragment leaves the blob that it is merged into. -/
def Intake.Merges (n : Node) (f : Fragment) (now : Millis) (s : Blob) : Prop :=
  ∃ c b isNew m filled, n.cache.getOrCreate f.key f.version now = .ok (c, b, isNew) ∧
    b.isTerminal = false ∧ b.merge f now = .ok (m, filled) ∧ m.settle.1 = s

namespace Node

variable {n n' : Node} {b b' s : Blob} {e : Event} {h : History} {i : Intake} {f : Fragment}
  {grace start now : Millis} {o : Outcome} {gone : Nat → Prop}

theorem timely_update (timely : n.queue.Timely grace) (shows : n.Shows b) (same : b.Same b')
    (onward : b.Onward b') : (n.update b').queue.Timely grace := by
  refine timely.step (.change fun t waits copy => ?_)
  rw [shows t.blob (.inr ⟨t, waits, rfl⟩) (copy.trans same.copy)]
  exact ⟨same.version.symm, onward.touched⟩

theorem timely_leave (timely : n.queue.Timely grace) (i : Intake) (v : VersionId) :
    (i.leave n v).queue.Timely grace := by
  rw [Intake.leave]
  split
  next => exact timely.step (.remove v)
  next => exact timely

theorem timely_await (timely : n.queue.Timely grace) (i : Intake) (b : Blob) (start : Millis) :
    (i.await n b start).queue.Timely grace := by
  simp only [Intake.await]
  split <;> split
  · exact timely.step (.enqueue b)
  · exact timely.step (.enqueue b)
  · exact timely
  · exact timely

theorem timely_concludes (timely : n.queue.Timely grace) (shows : n.Shows b) (same : b.Same s)
    (onward : b.Onward s) (concludes : i.Concludes n s start now n' o) :
    n'.queue.Timely grace := by
  have updated := timely_update timely shows same onward
  cases concludes with
  | pending lacking => exact timely_await updated i s start
  | completed complete => exact timely_leave updated i s.version
  | invalid corrupt => exact timely_leave updated i s.version

theorem timely_takes (timely : n.queue.Timely grace) (tied : n.Tied gone)
    (takes : i.Takes n f now n' o) : n'.queue.Timely grace := by
  cases takes with
  | refused | late | rejected => exact timely
  | @merged c b m _ _ _ _ opened isOpen merged concludes =>
    obtain ⟨tied', stored⟩ := tied.opens opened
    have onward : b.Onward m := by
      have works : (Blob.Operation.merge f now).Works := trivial
      have step := Blob.onward_perform b works
      rwa [Blob.perform, merged] at step
    exact timely_concludes (n := n.withCache c) timely (tied'.single b (.inl stored))
      (Blob.advances_merge merged).same_settle (onward.trans (Blob.onward_settle m)) concludes

theorem timely_attempts {response : Option Recovery.FetchResponse} {a : Recovery.Achievement}
    (timely : n.queue.Timely grace) (shows : n.Shows b)
    (attempts : Recovery.Attempts n b response now n' b' a) : n'.queue.Timely grace := by
  have answered {m : Blob} (received : b.Receives m) : (n.update m.settle.1).queue.Timely grace :=
    timely_update timely shows received.advances.same_settle
      (received.onward.trans (Blob.onward_settle m))
  cases attempts with
  | unanswered => exact timely
  | alreadyComplete | alreadyCorrupt => exact timely.step (.remove b.version)
  | broken _ _ refused =>
    have received := Recovery.receives_of_apply refused
    exact timely_update timely shows received.advances.toSame received.onward
  | incomplete _ _ applied => exact answered (Recovery.receives_of_apply applied)
  | completed _ _ applied | corrupt _ _ applied =>
    exact (answered (Recovery.receives_of_apply applied)).step (.remove _)

theorem timely_perform (timely : n.queue.Timely grace) (tied : n.Tied gone)
    (permitted : Replicates n e) : (n.perform e).queue.Timely grace := by
  cases e with
  | fragment i f now => exact timely_takes timely tied (i.takes_fragment n f now)
  | datagram i d now =>
    obtain ⟨counters, same | ⟨f, _, same⟩⟩ := i.datagram_cases n d now
    · rw [perform, same]
      exact timely
    · have taken := timely_takes timely tied (i.takes_fragment n f now)
      rw [perform, same]
      exact taken
  | sweep now policy => exact timely
  | poll now => exact timely.step (.poll now)
  | recover b response now =>
    exact timely_attempts timely permitted (Recovery.attempts_attempt n b response now)
  | operate | insert | insertObject | remove | discardInvalid | markInvalid | resort =>
    exact permitted.elim

theorem timely_run (run : Run Replicates (.empty grace) h n) : n.queue.Timely grace := by
  induction run with
  | start => exact Recovery.Queue.timely_start grace
  | step run permitted ih => exact timely_perform ih (.run run) permitted

/-! ### Pending blobs -/

theorem queue_await (recovers : i.recovers = true) (n : Node) (b : Blob) (start : Millis) :
    (i.await n b start).queue = (n.queue.enqueue b).1 := by
  simp only [Intake.await, recovers, if_true]
  split <;> rfl

theorem stores_await (sound : n.cache.Sound) (i : Intake) (b : Blob) (start : Millis) :
    (i.await n b start).cache.Stores s ↔ n.cache.Stores s := by
  rw [Intake.cache_await]
  split
  next => rfl
  next => exact sound.stores_resort b.key

theorem waits_of_enqueue {q : Recovery.Queue} (same : b.Same s)
    (alone : ∀ t ∈ q.tickets, t.blob.version = b.version → t.blob = b) :
    ∃ t ∈ ((q.update s).enqueue s).1.tickets, t.blob = s := by
  rw [Recovery.Queue.enqueue]
  split
  next queued =>
    obtain ⟨_, waits, version⟩ := Recovery.Queue.contains_iff.mp queued
    obtain ⟨t, former, rfl⟩ := List.mem_map.mp waits
    refine ⟨_, waits, ?_⟩
    by_cases copy : t.blob.copy = s.copy
    · rw [if_pos copy]
    · rw [if_neg copy] at version
      exact absurd (alone t former (version.trans same.version) ▸ same.copy.symm) copy
  next => exact ⟨_, List.mem_append_right _ (List.mem_singleton.mpr rfl), rfl⟩

/-- A blob that changes and is queued is found, and one ticket is left for its version. That is its own,
unless the version waited before for a blob of another key or one that is gone. -/
theorem awaits (tied : n.Tied gone) (recovers : i.recovers = true) (stored : n.cache.Stores b)
    (same : b.Same s) (timely : (i.await (n.update s) s start).queue.Timely grace) :
    (i.await (n.update s) s start).cache.find? b.key b.version = some s ∧
    (∃! t, t ∈ (i.await (n.update s) s start).queue.tickets ∧ t.blob.version = b.version) ∧
    ((∀ t ∈ n.queue.tickets, t.blob.version = b.version →
        t.blob.key = b.key ∧ ¬ gone t.blob.copy) →
      ∃ t ∈ (i.await (n.update s) s start).queue.tickets, t.blob = s) := by
  have updated := (tied.toConsistent.update (tied.single b (.inl stored)) same).1.cache
  have queue := queue_await recovers (n.update s) s start
  refine ⟨?_, ?_, fun alone => ?_⟩
  · have sound : (i.await (n.update s) s start).cache.Sound := by
      rw [Intake.cache_await]
      split
      next => exact updated
      next => exact (updated.resort s.key).1
    have here := (stores_await updated i s start).mpr (tied.toConsistent.stores_update stored same)
    rw [← same.key, ← same.version]
    exact sound.stores_iff_find?.mp here
  · obtain ⟨t, waits, named⟩ := Recovery.Queue.contains_iff.mp
      (Recovery.Queue.contains_enqueue (q := n.queue.update s).mpr (.inr rfl))
    refine ⟨t, ⟨queue ▸ waits, named.trans same.version⟩, fun u ⟨waits', named'⟩ => ?_⟩
    exact List.inj_on_of_nodup_map timely.valid.versions waits' (queue ▸ waits)
      (named'.trans (named.trans same.version).symm)
  · rw [queue]
    refine waits_of_enqueue same fun t waits named => ?_
    obtain ⟨place, present⟩ := alone t waits named
    have here := tied.cache.stores_iff_find?.mp ((tied.stored t waits).resolve_right present)
    rw [place, named, tied.cache.stores_iff_find?.mp stored] at here
    exact (Option.some.inj here).symm

/-- A fragment that leaves its blob pending leaves one ticket for its version. If no blob of another
key waited under that version, and none that a sweep had abandoned, the ticket is that of the blob as
the cache has it, which from its grace after the last touch on is handed out by polls. -/
theorem pending_waits (run : Run Replicates (.empty grace) h n) (recovers : i.recovers = true)
    (pending : (i.fragment n f now).2 = .pending) :
    ∃ s, Intake.Merges n f now s ∧
      (i.fragment n f now).1.cache.find? f.key f.version = some s ∧
      (∃! t, t ∈ (i.fragment n f now).1.queue.tickets ∧ t.blob.version = f.version) ∧
      ((∀ t ∈ n.queue.tickets, t.blob.version = f.version →
          t.blob.key = f.key ∧ ¬ h.Abandoned t.blob.copy) →
        (∃ t ∈ (i.fragment n f now).1.queue.tickets, t.blob = s) ∧
        ∀ later, s.lastTouched.later grace ≤ later →
          (i.fragment n f now).1.queue.HandsOut later s) := by
  have tied := Tied.run run
  have takes := i.takes_fragment n f now
  have timely := timely_takes (timely_run run) tied takes
  rw [pending] at takes
  generalize (i.fragment n f now).1 = n' at takes timely ⊢
  cases takes with
  | @merged c b m isNew filled _ _ opened isOpen merged concludes =>
    cases concludes with
    | pending lacking =>
      obtain ⟨opens, stored⟩ := tied.opens opened
      obtain ⟨key, version⟩ : b.key = f.key ∧ b.version = f.version :=
        (tied.cache.insert_stores opened).2
      have same := (Blob.advances_merge merged).same_settle
      obtain ⟨found, single, own⟩ := awaits opens recovers stored same timely
      rw [key, version] at found own
      rw [version] at single
      refine ⟨m.settle.1, ⟨c, b, isNew, m, filled, opened, isOpen, merged, rfl⟩, found, single,
        fun alone => ?_⟩
      obtain ⟨t, waits, state⟩ := own alone
      refine ⟨⟨t, waits, state⟩, fun later due => ?_⟩
      rw [← state] at due
      have handed := timely.handsOut waits due
      rwa [state] at handed

def sampleStray : Fragment :=
  { sampleFragment with key := "j" }

/-- A version waits once, whatever its key, so a pending blob may be left without a ticket. -/
theorem pending_unqueued :
    Run Replicates (.empty 10000) [(empty 10000, .fragment {} sampleFragment 10)] sampleNode ∧
    (({} : Intake).fragment sampleNode sampleStray 20).2 = .pending ∧
    (({} : Intake).fragment sampleNode sampleStray 20).1.cache.find? "j" (.ofNumber 7) =
      some { sampleBlob with key := "j", copy := 1, arrived := 20, created := 20, lastTouched := 20 } ∧
    ∀ t ∈ (({} : Intake).fragment sampleNode sampleStray 20).1.queue.tickets, t.blob = sampleBlob :=
  ⟨.step .start replicates_sampleFragment, by decide +kernel, by decide +kernel, by decide +kernel⟩

def sampleSequel : Fragment :=
  ⟨"k", .ofNumber 7, .payload, 10, 0, [97, 98]⟩

def sampleLonger : Blob :=
  { sampleBlob with
    lastTouched := 30
    payload := .assembling ⟨10, ⟨[⟨6, 10⟩]⟩, [(0, [97, 98]), (2, [99, 100, 101, 102])]⟩ }

/-- A blob that waits already is handed out as the next fragment leaves it. -/
theorem pending_waits_sample :
    Replicates (empty 10000) (.fragment {} sampleFragment 10) ∧
    (({} : Intake).fragment sampleNode sampleSequel 30).2 = .pending ∧
    (∃ t ∈ (({} : Intake).fragment sampleNode sampleSequel 30).1.queue.tickets,
      t.blob = sampleLonger) ∧
    (({} : Intake).fragment sampleNode sampleSequel 30).1.queue.HandsOut 10030 sampleLonger := by
  have run : Run Replicates (.empty 10000) [(empty 10000, .fragment {} sampleFragment 10)]
      sampleNode :=
    .step .start replicates_sampleFragment
  have pending : (({} : Intake).fragment sampleNode sampleSequel 30).2 = .pending := by
    decide +kernel
  have stored : (({} : Intake).fragment sampleNode sampleSequel 30).1.cache.find?
      sampleSequel.key sampleSequel.version = some sampleLonger := by
    decide +kernel
  have tickets : sampleNode.queue.tickets = [⟨0, sampleBlob⟩] := by decide +kernel
  obtain ⟨s, _, found, _, own⟩ := pending_waits run rfl pending
  obtain rfl := Option.some.inj (stored.symm.trans found)
  obtain ⟨waits, handed⟩ := own fun t waits _ => by
    rw [tickets, List.mem_singleton] at waits
    subst waits
    exact ⟨rfl, by simp [History.Abandoned, Abandons]⟩
  exact ⟨replicates_sampleFragment, pending, waits, handed 10030 (by decide)⟩

end Node
end BlobReplica
