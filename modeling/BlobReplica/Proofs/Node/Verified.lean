import BlobReplica.Proofs.Blob.Coherent
import BlobReplica.Proofs.Node.Discarded
import BlobReplica.Proofs.Node.Present

/-! Complete blobs and what takes them out of the cache. Nothing changes them. They leave by sweeps and
by requests that name them, and in one other way: a blob that the cache has given up may still be
recovered, and when that fails its version is discarded by name, with the complete blob that has come in
its place. -/

namespace BlobReplica

variable {n n' : Node} {b x x' : Blob} {c c' : Cache} {i : Intake} {f : Fragment} {start now : Millis}
  {outcome : Outcome}

namespace Cache

variable {copy : Nat} {isNew : Bool} {l : List Marks.Marking}

/-- No blob of that number is stored, and none will be: the number has been given. -/
def Gone (c : Cache) (copy : Nat) : Prop :=
  copy < c.copies ∧ ∀ b, c.Stores b → b.copy ≠ copy

theorem Gone.changes (gone : c.Gone copy) (tidy : c.Tidy) (changes : c.Changes l c') :
    c'.Gone copy := by
  refine ⟨gone.1.trans_le (changes.copies_le tidy), fun x stored => ?_⟩
  rcases changes.origin tidy stored with ⟨o, former, same⟩ | new
  · rw [same.copy]
    exact gone.2 o former
  · exact (gone.1.trans_le new).ne'

/-- The blob started too long ago to stay beside a later complete one of its key, which has not ended. -/
def Superseded (c : Cache) (now : Millis) (policy : SweepPolicy) (b : Blob) : Prop :=
  policy.supersedeAfter < now - b.validity.start ∧ ∃ x ∈ c.versions b.key,
    x.isComplete = true ∧ x.validity.expiredAt now = false ∧ b.place < x.place

theorem Shows.copy_ne (shows : c.Shows x) (stored : c.Stores b) (decided : b.isTerminal = true)
    (isOpen : x.isTerminal = false) : b.copy ≠ x.copy := by
  intro copy
  rw [shows b stored copy, isOpen] at decided
  contradiction

namespace Sound

theorem eq_of_stores (sound : c.Sound) (stored : c.Stores b) (stored' : c.Stores x)
    (key : b.key = x.key) (version : b.version = x.version) : b = x :=
  sound.same_version (sound.stores_iff.mp stored) (key ▸ sound.stores_iff.mp stored') version

theorem stores_insert (sound : c.Sound) (inserted : c.insert x = .ok (c', x', isNew))
    (stored : c.Stores b) : c'.Stores b := by
  rcases sound.insert_cases inserted with ⟨rfl, _⟩ | ⟨taken, _⟩
  · exact stored
  · exact (taken.stores b).mpr (.inl stored)

theorem stores_update_other (sound : c.Sound) (shows : c.Shows x) (same : x.Same x')
    (stored : c.Stores b) (other : b.copy ≠ x.copy) : (c.update x').Stores b :=
  ((sound.change shows same).2 b).mpr ⟨b, stored, if_neg (same.copy ▸ other)⟩

end Sound
end Cache

/-! ### Fragments -/

namespace Intake

theorem Concludes.keeps (concludes : i.Concludes n x' start now n' outcome) (sound : n.cache.Sound)
    (opened : n.cache.Stores x) (isOpen : x.isTerminal = false) (same : x.Same x')
    (stored : n.cache.Stores b) (decided : b.isTerminal = true) : n'.cache.Stores b := by
  have shows := sound.shows opened
  have other := shows.copy_ne stored decided isOpen
  have changed := (sound.change shows same).1
  have kept := sound.stores_update_other shows same stored other
  cases concludes with
  | pending =>
    show (i.await (n.update x') x' start).cache.Stores b
    rw [cache_await]
    split
    next => exact kept
    next => exact (changed.stores_resort _).mpr kept
  | completed =>
    show ((i.leave (n.update x') x'.version).cache.resort x'.key).Stores b
    rw [cache_leave]
    exact (changed.stores_resort _).mpr kept
  | invalid =>
    show ((i.leave (n.update x') x'.version).cache.discardInvalid x'.key x'.version now).1.Stores b
    rw [cache_leave]
    refine (changed.stores_discardInvalid _ _ _).mpr ⟨kept, fun ⟨key, version⟩ => other ?_⟩
    -- The blob that failed is stored, so no other one has its key and version.
    rw [sound.eq_of_stores stored opened (key.trans same.key) (version.trans same.version)]

theorem Takes.keeps (takes : i.Takes n f now n' outcome) (sound : n.cache.Sound)
    (stored : n.cache.Stores b) (decided : b.isTerminal = true) : n'.cache.Stores b := by
  cases takes with
  | refused => exact stored
  | late opened | rejected opened => exact sound.stores_insert opened stored
  | merged opened isOpen merged concludes =>
    have same := (Blob.advances_merge merged).same_settle
    have kept := sound.stores_insert opened stored
    rcases sound.insert_cases opened with ⟨rfl, found, _⟩ | ⟨taken, _⟩
    · exact concludes.keeps sound found isOpen same kept decided
    · exact concludes.keeps taken.sound ((taken.stores _).mpr (.inr rfl)) isOpen same kept decided

end Intake

/-! ### Attempts at recovery -/

namespace Recovery

variable {response : Option FetchResponse} {a : Achievement}

/-- An attempt removes a decided blob only if it fails for that key and version. -/
theorem Attempts.stores_iff (attempts : Attempts n x response now n' x' a) (sound : n.cache.Sound)
    (shows : n.cache.Shows x) (stored : n.cache.Stores b) (decided : b.isTerminal = true) :
    n'.cache.Stores b ↔ ¬ (a = .invalid ∧ b.key = x.key ∧ b.version = x.version) := by
  have updated {m : Blob} (asked : request? x ≠ none) (same : x.Same m) :
      (n.cache.update m).Sound ∧ (n.cache.update m).Stores b := by
    obtain ⟨request, asked⟩ := Option.ne_none_iff_exists'.mp asked
    have other := shows.copy_ne stored decided (isOpen_of_request? asked)
    exact ⟨(sound.change shows same).1, sound.stores_update_other shows same stored other⟩
  cases attempts with
  | alreadyComplete | unanswered => exact iff_of_true stored (by simp)
  | alreadyCorrupt =>
    exact (sound.stores_discardInvalid _ _ now).trans (by simp [stored])
  | broken asked _ refused =>
    have changed := updated (by simp [asked]) (receives_of_apply refused).advances.toSame
    exact iff_of_true changed.2 (by simp)
  | incomplete asked _ applied | completed asked _ applied =>
    have changed := updated (by simp [asked]) (receives_of_apply applied).advances.same_settle
    exact iff_of_true ((changed.1.stores_resort _).mpr changed.2) (by simp)
  | corrupt asked _ applied =>
    have same := (receives_of_apply applied).advances.same_settle
    have changed := updated (by simp [asked]) same
    refine (changed.1.stores_discardInvalid _ _ now).trans ?_
    rw [same.key, same.version]
    simp [changed.2]

theorem Attempts.not_complete (attempts : Attempts n x response now n' x' .invalid) :
    x.status ≠ .complete := by
  cases attempts with
  | alreadyCorrupt corrupt => simp [corrupt]
  | corrupt asked => exact (Blob.status_of_isOpen (isOpen_of_request? asked)).1

end Recovery

/-! ### Runs -/

namespace Node

variable {h before after : History} {e : Event} {grace : Millis}

/-- What takes a complete blob out of the cache: a sweep when it has ended or is superseded, a request
that names it, or the failure of another blob with its key and version, which is not stored itself. -/
def Ends (b : Blob) : Node × Event → Prop
  | (n, .sweep now policy) => b.validity.expiredAt now = true ∨ n.cache.Superseded now policy b
  | (n, .recover x response now) => ¬ n.cache.Stores x ∧
      (Recovery.attempt n x response now).2.2 = .invalid ∧ b.key = x.key ∧ b.version = x.version
  | (_, .remove key version) | (_, .discardInvalid key version _) => b.key = key ∧ b.version = version
  | _ => False

theorem stores_sweep (reached : Run Regular (.empty grace) h n) (stored : n.cache.Stores b)
    (complete : b.isComplete = true) (now : Millis) (policy : Cache.SweepPolicy) :
    (n.cache.sweep now policy).1.Stores b ↔ ¬ Ends b (n, .sweep now policy) := by
  have sound := (tidy_run reached).toSound
  have listed := sound.stores_iff.mp stored
  have later {x : Blob} (last : ((Cache.retained policy now (n.cache.versions b.key)).filter
      Blob.isComplete).getLast? = some x) := lt_last_complete reached List.filter_sublist last
  rw [(sound.sweep now policy).stores_iff, Cache.versions_sweep, Cache.mem_swept,
    Cache.sweepReason?_of_isComplete complete, Ends, not_or, Bool.not_eq_true]
  constructor
  · rintro ⟨⟨_, lasting⟩, incomplete | young | last⟩
    · simp [complete] at incomplete
    · exact ⟨lasting, fun superseded => Nat.not_lt.mpr young superseded.1⟩
    · refine ⟨lasting, fun ⟨_, x, listed', complete', lasting', after⟩ => ?_⟩
      rcases later last x ((Cache.mem_retained_complete complete').mpr ⟨listed', lasting'⟩)
        complete' with rfl | before
      · exact lt_irrefl _ after
      · exact lt_asymm before after
  · rintro ⟨lasting, alone⟩
    refine ⟨⟨listed, lasting⟩, .inr (or_iff_not_imp_left.mpr fun old => ?_)⟩
    have retained : b ∈ Cache.retained policy now (n.cache.versions b.key) :=
      (Cache.mem_retained_complete complete).mpr ⟨listed, lasting⟩
    obtain ⟨x, last⟩ := Option.isSome_iff_exists.mp (List.getLast?_isSome.mpr
      (List.ne_nil_of_mem (List.mem_filter.mpr ⟨retained, complete⟩)))
    obtain ⟨retained', complete'⟩ := List.mem_filter.mp (List.mem_of_getLast? last)
    obtain ⟨listed', lasting'⟩ := (Cache.mem_retained_complete complete').mp retained'
    rcases later last b retained complete with rfl | after
    · exact last
    · exact absurd ⟨Nat.not_le.mp old, x, listed', complete', lasting', after⟩ alone

/-- An event leaves a complete blob just as it is, or ends it. -/
theorem stores_perform (reached : Run Regular (.empty grace) h n) (regular : Regular n e)
    (stored : n.cache.Stores b) (complete : b.isComplete = true) :
    (n.perform e).cache.Stores b ↔ ¬ Ends b (n, e) := by
  have sound := (tidy_run reached).toSound
  have decided := Blob.isTerminal_of_isComplete complete
  have takes (i : Intake) (f : Fragment) (now : Millis) : (i.fragment n f now).1.cache.Stores b :=
    (i.takes_fragment n f now).keeps sound stored decided
  cases e with
  | fragment i f now => exact iff_of_true (takes i f now) id
  | datagram i d now =>
    refine iff_of_true ?_ id
    obtain ⟨counters, same | ⟨f, _, same⟩⟩ := i.datagram_cases n d now
    · rw [perform, same]
      exact stored
    · rw [perform, same]
      exact takes i f now
  | sweep now policy => exact stores_sweep reached stored complete now policy
  | poll | markInvalid => exact iff_of_true stored id
  | recover x response now =>
    have attempts := Recovery.attempts_attempt n x response now
    refine (attempts.stores_iff sound regular stored decided).trans (not_congr ?_)
    refine ⟨fun failed => ⟨fun stored' => ?_, failed⟩, And.right⟩
    obtain ⟨invalid, key, version⟩ := failed
    obtain rfl := sound.eq_of_stores stored stored' key version
    rw [invalid] at attempts
    exact attempts.not_complete (of_decide_eq_true complete)
  | operate => contradiction
  | insert x =>
    refine iff_of_true ?_ id
    rw [perform]
    split
    next inserted => exact sound.stores_insert inserted stored
    next => exact stored
  | insertObject key version properties payload now =>
    refine iff_of_true ?_ id
    rw [perform]
    split
    next inserted =>
      obtain ⟨_, _, _, inserted⟩ := Cache.insertObject_eq_ok inserted
      exact sound.stores_insert inserted stored
    next => exact stored
  | remove key version => exact (sound.stores_remove key version).trans (and_iff_right stored)
  | discardInvalid key version now =>
    exact (sound.stores_discardInvalid key version now).trans (and_iff_right stored)
  | resort key => exact iff_of_true ((sound.stores_resort key).mpr stored) id

theorem not_stores_of_ends (tidy : n.cache.Tidy) (regular : Regular n e) (stored : n.cache.Stores b)
    (ends : Ends b (n, e)) (left : ¬ (n.perform e).cache.Stores b)
    (here : (n.perform e).cache.Stores x) : ¬ (x.key = b.key ∧ x.version = b.version) := by
  have discarded {d : Cache.Discard} (discards : discarded? n e = some d) :
      ¬ (x.key = d.key ∧ x.version = d.version) := by
    obtain ⟨c, changes, same⟩ := becomes_perform tidy regular discards
    rw [same] at here
    exact (((changes.tidy tidy).stores_discardInvalid d.key d.version d.now).mp here).2
  cases e with
  | sweep now policy =>
    rintro ⟨key, version⟩
    obtain ⟨k, listed⟩ := id here
    rw [perform, withCache, Cache.versions_sweep] at listed
    have former : n.cache.Stores x := ⟨k, (Cache.swept_sublist _ _ _).subset listed⟩
    exact left (tidy.eq_of_stores former stored key version ▸ here)
  | recover y response now =>
    obtain ⟨_, invalid, key, version⟩ := ends
    rw [key, version]
    exact discarded (if_pos invalid)
  | discardInvalid key version now =>
    rw [ends.1, ends.2]
    exact discarded rfl
  | remove key version =>
    rw [ends.1, ends.2]
    exact ((tidy.stores_remove key version).mp here).2
  | fragment | datagram | poll | operate | insert | insertObject | markInvalid | resort =>
    exact ends.elim

/-- A complete blob that is stored stays or is gone for good. -/
theorem stays_or_gone (reached : Run Regular (.empty grace) h n) (regular : Regular n e)
    (stored : n.cache.Stores b) (complete : b.isComplete = true) :
    (n.perform e).cache.Stores b ∨ (n.perform e).cache.Gone b.copy := by
  refine or_iff_not_imp_left.mpr fun left => ?_
  have tidy := tidy_run reached
  have ends := not_not.mp (mt (stores_perform reached regular stored complete).mpr left)
  have changes := changes_perform tidy regular
  obtain ⟨k, listed⟩ := id stored
  have numbered := tidy.numbered k b listed
  refine ⟨numbered.trans_le (changes.copies_le tidy), fun x here copy => ?_⟩
  rcases changes.origin tidy here with ⟨o, former, same⟩ | new
  · obtain rfl := tidy.shows stored o former (same.copy.symm.trans copy)
    exact not_stores_of_ends tidy regular stored ends left here ⟨same.key, same.version⟩
  · exact new.not_gt (copy ▸ numbered)

/-- Once a complete blob is stored it stays, unchanged, through every run until a step ends it: a sweep
in which it has ended or is superseded, a request that names it, or the failed recovery of another blob
with its key and version that the cache does not store. After such a step it is gone for good. -/
theorem complete_stays (reached : Run Regular (.empty grace) before n) (stored : n.cache.Stores b)
    (complete : b.isComplete = true) (run : Run Regular n after n') :
    n'.cache.Stores b ↔ ∀ step ∈ after, ¬ Ends b step := by
  have tidy := tidy_run reached
  suffices stays : (n'.cache.Stores b ∨ n'.cache.Gone b.copy) ∧
      (n'.cache.Stores b ↔ ∀ step ∈ after, ¬ Ends b step) from stays.2
  induction run with
  | start => exact ⟨.inl stored, iff_of_true stored (by simp)⟩
  | @step h m e run regular ih =>
    obtain ⟨state, here⟩ := ih
    rw [List.forall_mem_append, List.forall_mem_singleton, ← here]
    rcases state with stored | gone
    · have stays := stores_perform (reached.trans run) regular stored complete
      exact ⟨stays_or_gone (reached.trans run) regular stored complete,
        stays.trans (and_iff_right stored).symm⟩
    · have tidy' := (changes_run tidy run).tidy tidy
      have gone' := gone.changes tidy' (changes_perform tidy' regular)
      exact ⟨.inr gone', iff_of_false (fun stored => gone'.2 b stored rfl)
        fun both => gone.2 b both.1 rfl⟩

/-- An object, and beside it a fragment for another key under the same version. -/
def sampleBeside : Node :=
  ((empty 10000).perform (.insertObject "k" (.ofNumber 7) (sampleTold 0) [97] 10)).perform
    (.fragment {} { sampleFragment with key := "j" } 20)

def sampleOther : Blob :=
  { sampleBlob with key := "j", copy := 1, arrived := 20, created := 20, lastTouched := 20 }

/-- The failure of that blob leaves the object. -/
theorem complete_stays_sample :
    Regular sampleBeside (.recover sampleOther (some unsignedAnswer) 40) ∧
    (Recovery.attempt sampleBeside sampleOther (some unsignedAnswer) 40).2.2 = .invalid ∧
    (sampleBeside.perform (.recover sampleOther (some unsignedAnswer) 40)).cache.Stores
      (sampleObject 7 0) := by
  have reached : Run Regular (.empty 10000) _ sampleBeside := .step (.step .start trivial) trivial
  have listed : sampleOther ∈ sampleBeside.cache.versions "j" := by decide +kernel
  have regular : Regular sampleBeside (.recover sampleOther (some unsignedAnswer) 40) :=
    (tidy_run reached).shows ⟨"j", listed⟩
  have stored : sampleObject 7 0 ∈ sampleBeside.cache.versions "k" := by decide +kernel
  refine ⟨regular, by decide +kernel, (complete_stays reached ⟨"k", stored⟩ (by decide)
    (.step .start regular)).mpr ?_⟩
  intro step member
  cases List.mem_singleton.mp member
  rintro ⟨_, _, key, _⟩
  exact absurd key (by decide)

/-- The sample blob was swept for stale, and an object came in its place. -/
def sampleReplaced : Node :=
  (sampleNode.perform (.sweep 60011 {})).perform
    (.insertObject "k" (.ofNumber 7) (sampleTold 0) [97] 60020)

theorem poll_sampleReplaced : (sampleReplaced.queue.poll 70000).2 = .ready sampleBlob := by
  have agenda : sampleReplaced.queue.agenda = [⟨10010, 0, .ofNumber 7⟩] := by decide +kernel
  have waits : sampleReplaced.queue.ticket? (.ofNumber 7) = some ⟨0, sampleBlob⟩ := by decide +kernel
  have current : sampleReplaced.queue.current? ⟨10010, 0, .ofNumber 7⟩ = some 10010 := by
    decide +kernel
  rw [Recovery.Queue.poll, agenda, Recovery.Queue.pollFrom]
  split
  next absent => simp [current] at absent
  next due found =>
    obtain rfl := Option.some.inj (current.symm.trans found)
    simp [waits]

def samplePolled : Node :=
  sampleReplaced.perform (.poll 70000)

def sampleVerified : Blob :=
  { sampleObject 7 0 with copy := 1, arrived := 60020, created := 60020, lastTouched := 60020 }

theorem entries_samplePolled :
    samplePolled.cache.lists.entries = [("k", [sampleVerified])] := by
  decide +kernel

/-- The failure of the swept blob removes the object, which is complete and lasts. -/
theorem complete_lost :
    Run Regular (.empty 10000)
      [(empty 10000, .fragment {} sampleFragment 10), (sampleNode, .sweep 60011 {}),
        (sampleNode.perform (.sweep 60011 {}),
          .insertObject "k" (.ofNumber 7) (sampleTold 0) [97] 60020),
        (sampleReplaced, .poll 70000)]
      samplePolled ∧
    (sampleReplaced.queue.poll 70000).2 = .ready sampleBlob ∧
    Regular samplePolled (.recover sampleBlob (some unsignedAnswer) 70000) ∧
    samplePolled.cache.find? "k" (.ofNumber 7) = some sampleVerified ∧
    sampleVerified.isComplete = true ∧ sampleVerified.validity.stop = Millis.unbounded ∧
    (samplePolled.perform (.recover sampleBlob (some unsignedAnswer) 70000)).cache.find? "k"
      (.ofNumber 7) = none := by
  have shows : samplePolled.cache.Shows sampleBlob := by
    rintro o ⟨k, listed⟩ copy
    obtain ⟨blobs, entry, member⟩ := Cache.mem_versions.mp listed
    rw [entries_samplePolled] at entry
    cases List.mem_singleton.mp entry
    cases List.mem_singleton.mp member
    contradiction
  exact ⟨.step (.step (.step (.step .start trivial) trivial) trivial) trivial, poll_sampleReplaced,
    shows, by decide +kernel, by decide, rfl, by decide +kernel⟩

end Node
end BlobReplica
