import BlobReplica.Proofs.Cache.Changes
import BlobReplica.Proofs.Cache.Entry
import BlobReplica.Proofs.Recovery.Failure

/-! What events do to the cache of a node, as changes one after the other. What every change keeps
holds of the caches of all runs. -/

namespace BlobReplica

open Cache (Change Changes Becomes Discard)

variable {n n' : Node} {b b' s : Blob} {e : Node.Event} {h : Node.History} {i : Intake} {f : Fragment}
  {start now : Millis} {o : Outcome}

namespace Intake

/-- The version that is discarded because a fragment filled it and it failed its checksum. -/
def discarded? (i : Intake) (n : Node) (f : Fragment) (now : Millis) : Option Discard :=
  if (i.fragment n f now).2 = .invalid then some ⟨f.key, f.version, now⟩ else none

/-- A blob that a fragment was merged into stays, takes its place, or goes. -/
theorem Concludes.becomes (concludes : i.Concludes n s b.validity.start now n' o)
    (tidy : n.cache.Tidy) (shows : n.cache.Shows b) (same : b.Same s) (isOpen : b.isTerminal = false) :
    n.cache.Becomes (if o = .invalid then some ⟨b.key, b.version, now⟩ else none) n'.cache := by
  cases concludes with
  | pending lacking =>
    show n.cache.Becomes none (i.await (n.update s) s b.validity.start).cache
    rw [cache_await]
    split
    next start => exact (Change.keep shows same isOpen lacking start).becomes
    next => exact (Change.place shows same).becomes
  | completed complete =>
    show n.cache.Becomes none ((i.leave (n.update s) s.version).cache.resort s.key)
    rw [cache_leave]
    exact (Change.place shows same).becomes
  | invalid corrupt =>
    refine ⟨n.cache, .refl, ?_⟩
    show ((i.leave (n.update s) s.version).cache.discardInvalid s.key s.version now).1 = _
    rw [cache_leave, same.key, same.version]
    exact tidy.discard_update shows same now

theorem Takes.becomes (takes : i.Takes n f now n' o) (tidy : n.cache.Tidy) :
    n.cache.Becomes (if o = .invalid then some ⟨f.key, f.version, now⟩ else none) n'.cache := by
  cases takes with
  | refused => exact Changes.refl.becomes
  | late opened => exact (Change.takeIn opened).becomes
  | rejected opened => exact (Change.takeIn opened).becomes
  | merged opened isOpen merged concludes =>
    apply Becomes.after (.takeIn opened)
    have tidy' := tidy.insert opened
    obtain ⟨stored, key, version⟩ := tidy.toSound.insert_stores opened
    have same := (Blob.advances_merge merged).same_settle
    have becomes := concludes.becomes tidy' (tidy'.toSound.shows stored) same isOpen
    rwa [key, version] at becomes

end Intake

namespace Recovery

variable {response : Option FetchResponse} {a : Achievement}

theorem Attempts.becomes (attempts : Attempts n b response now n' b' a) (tidy : n.cache.Tidy)
    (shows : n.cache.Shows b) :
    n.cache.Becomes (if a = .invalid then some ⟨b.key, b.version, now⟩ else none) n'.cache := by
  cases attempts with
  | alreadyComplete => exact Changes.refl.becomes
  | alreadyCorrupt => exact ⟨n.cache, .refl, rfl⟩
  | unanswered => exact Changes.refl.becomes
  | broken asked answered refused =>
    have isOpen := isOpen_of_request? asked
    have advances := (receives_of_apply refused).advances
    -- What was written of the answer is payload, so the blob keeps its place.
    have start : b'.validity.start = b.validity.start := by
      rcases apply_refused asked answered refused with rfl | interrupted
      · rfl
      · cases interrupted
        rfl
    exact (Change.keep shows advances.toSame isOpen (advances.isTerminal.trans isOpen) start).becomes
  | incomplete _ _ applied | completed _ _ applied =>
    exact (Change.place shows (receives_of_apply applied).advances.same_settle).becomes
  | corrupt _ _ applied =>
    have same := (receives_of_apply applied).advances.same_settle
    refine ⟨n.cache, .refl, ?_⟩
    show ((n.cache.update _).discardInvalid _ _ now).1 = _
    rw [same.key, same.version]
    exact tidy.discard_update shows same now

end Recovery

namespace Node

/-- Blobs change by fragments and by answers of the authority only, and an attempt at recovery has its
blob as the cache does, if it is stored. -/
def Regular (n : Node) : Event → Prop
  | .recover b _ _ => n.cache.Shows b
  | .operate _ _ => False
  | _ => True

/-- The version that an event discards because it failed its checksum. -/
def discarded? (n : Node) : Event → Option Discard
  | .fragment i f now => i.discarded? n f now
  | .datagram i d now =>
    match Datagram.decode d i.maxPacketSize i.maxObjectSize with
    | .ok f => i.discarded? n f now
    | .error _ => none
  | .recover b response now =>
    if (Recovery.attempt n b response now).2.2 = .invalid then some ⟨b.key, b.version, now⟩ else none
  | .discardInvalid key version now => some ⟨key, version, now⟩
  | _ => none

/-- What an event does to the marks, in order. -/
def markings (n : Node) : Event → List Cache.Marks.Marking
  | .sweep now policy => n.cache.sweepMarkings now policy
  | .markInvalid version now => [.set version now]
  | e => (discarded? n e).toList.map fun d => .set d.version d.now

def History.markings (h : History) : List Cache.Marks.Marking :=
  h.flatMap fun step => Node.markings step.1 step.2

theorem becomes_datagram (tidy : n.cache.Tidy) (i : Intake) (d : Bytes) (now : Millis) :
    n.cache.Becomes (discarded? n (.datagram i d now)) (n.perform (.datagram i d now)).cache := by
  rw [discarded?, perform, Intake.datagram]
  cases Datagram.decode d i.maxPacketSize i.maxObjectSize with
  | error e => exact Changes.refl.becomes
  | ok f => exact (i.takes_fragment n f now).becomes tidy

/-- An event that discards a version does so after other changes, which mark none. -/
theorem becomes_perform {d : Discard} (tidy : n.cache.Tidy) (regular : Regular n e)
    (discards : discarded? n e = some d) : n.cache.Becomes (some d) (n.perform e).cache := by
  rw [← discards]
  cases e with
  | fragment i f now => exact (i.takes_fragment n f now).becomes tidy
  | datagram i d now => exact becomes_datagram tidy i d now
  | recover b response now =>
    exact (Recovery.attempts_attempt n b response now).becomes tidy regular
  | discardInvalid key version now => exact ⟨n.cache, .refl, rfl⟩
  | sweep | poll | operate | insert | insertObject | remove | markInvalid | resort => contradiction

theorem changes_perform (tidy : n.cache.Tidy) (regular : Regular n e) :
    n.cache.Changes (markings n e) (n.perform e).cache := by
  cases e with
  | fragment i f now => exact ((i.takes_fragment n f now).becomes tidy).changes
  | datagram i d now => exact (becomes_datagram tidy i d now).changes
  | sweep now policy => exact .single (.sweep now policy)
  | poll now => exact .refl
  | recover b response now =>
    exact ((Recovery.attempts_attempt n b response now).becomes tidy regular).changes
  | operate b op => contradiction
  | insert b =>
    rw [perform]
    split
    next inserted => exact .single (.takeIn inserted)
    next => exact .refl
  | insertObject key version properties payload now =>
    rw [perform]
    split
    next inserted =>
      obtain ⟨b, isNew, _, inserted⟩ := Cache.insertObject_eq_ok inserted
      exact .single (.takeIn inserted)
    next => exact .refl
  | remove key version => exact .single (.remove key version)
  | discardInvalid key version now => exact Changes.refl.discard key version now
  | markInvalid version now => exact .single (.mark version now)
  | resort key => exact .single (.resort key)

/-- A run of regular events changes the cache one change at a time. -/
theorem changes_run {start : Node} (tidy : start.cache.Tidy) (run : Run Regular start h n) :
    start.cache.Changes h.markings n.cache := by
  induction run with
  | start => exact .refl
  | step _ regular ih =>
    have last := changes_perform (ih.tidy tidy) regular
    simpa [History.markings] using ih.trans last

theorem tidy_run {grace : Millis} (run : Run Regular (.empty grace) h n) : n.cache.Tidy :=
  (changes_run Cache.tidy_empty run).tidy Cache.tidy_empty

/-- Whatever is done to a node, no key is without versions, every key lists blobs of its own, one for
each version, and there are no more marks than are held, one for each version. A blob that the cache
refuses, as an arrival or as an object, leaves it as it was, down to its keys. -/
theorem cache_tidy {grace : Millis} (run : Run Regular (.empty grace) h n) :
    (∀ key blobs, (key, blobs) ∈ n.cache.lists.entries →
      blobs ≠ [] ∧ (∀ b ∈ blobs, b.key = key) ∧ (blobs.map (·.version)).Nodup) ∧
    (n.cache.marks.map (·.1)).Nodup ∧ n.cache.marks.length ≤ Cache.Marks.bound ∧
    (∀ b e, (n.cache.offer b).2 = .error e → (n.cache.offer b).1 = n.cache) ∧
    (∀ key version now e, (n.cache.offerArrival key version now).2 = .error e →
      (n.cache.offerArrival key version now).1 = n.cache) ∧
    ∀ key version properties payload now e,
      (n.cache.offerObject key version properties payload now).2 = .error e →
        (n.cache.offerObject key version properties payload now).1 = n.cache := by
  have tidy := tidy_run run
  refine ⟨?_, tidy.proper.distinct, tidy.proper.short, fun _ _ => Cache.offer_refused,
    fun _ _ _ _ => Cache.offerArrival_refused, fun _ _ _ _ _ _ => Cache.offerObject_refused⟩
  intro key blobs entry
  have found := Table.get?_eq_some.mpr entry
  have listed : n.cache.versions key = blobs := by
    rw [Cache.versions, found]
    rfl
  refine ⟨?_, ?_, ?_⟩
  · rintro rfl
    exact tidy.filled key found
  · exact listed ▸ tidy.keyed key
  · exact listed ▸ tidy.distinct key

/-- One version is stored and another is marked, which is refused under a key of its own. -/
theorem cache_tidy_sample :
    Regular (empty 10000) (.fragment {} sampleFragment 10) ∧
    Regular sampleNode (.markInvalid (.ofNumber 8) 20) ∧
    ("k", [sampleBlob]) ∈ (sampleNode.perform (.markInvalid (.ofNumber 8) 20)).cache.lists.entries ∧
    (sampleNode.perform (.markInvalid (.ofNumber 8) 20)).cache.marks.length ≤ Cache.Marks.bound ∧
    ((sampleNode.perform (.markInvalid (.ofNumber 8) 20)).cache.offer
      (.ofArrival "j" (.ofNumber 8) 30)).2 = .error (.versionInvalid (.ofNumber 8)) ∧
    ((sampleNode.perform (.markInvalid (.ofNumber 8) 20)).cache.offer
      (.ofArrival "j" (.ofNumber 8) 30)).1 =
        (sampleNode.perform (.markInvalid (.ofNumber 8) 20)).cache := by
  have run : Run Regular (.empty 10000)
      [(empty 10000, .fragment {} sampleFragment 10), (sampleNode, .markInvalid (.ofNumber 8) 20)]
      (sampleNode.perform (.markInvalid (.ofNumber 8) 20)) :=
    .step (.step .start trivial) trivial
  obtain ⟨_, _, short, offers, _⟩ := cache_tidy run
  have refused : ((sampleNode.perform (.markInvalid (.ofNumber 8) 20)).cache.offer
      (.ofArrival "j" (.ofNumber 8) 30)).2 = .error (.versionInvalid (.ofNumber 8)) := by
    rw [Cache.offer_eq, Cache.insert_eq_error (by decide +kernel) (by decide +kernel)]
    rfl
  exact ⟨trivial, trivial, by decide +kernel, short, refused, offers _ _ refused⟩

end Node
end BlobReplica
