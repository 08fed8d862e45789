import BlobReplica.Proofs.Blob.Identity
import BlobReplica.Proofs.Intake.Transmission
import BlobReplica.Proofs.Node

/-! Streams of datagrams from several transmissions, in any order, with repeats and losses. The
node keeps for each publication what its own datagrams have brought, whatever comes for others. -/

namespace BlobReplica

open Fragment (Publication)

namespace Transmission

variable {i : Intake} {t : Transmission i} {n n' : Node} {before : List Bytes} {d : Bytes}
  {f : Fragment} {b : Blob} {now : Millis}

/-- Where a publication stands in a node after some datagrams. -/
inductive Stands (t : Transmission i) (n : Node) (before : List Bytes) : Prop where
  /-- Nothing of it has come. -/
  | absent (nothing : ∀ d ∈ before, d ∉ t.datagrams)
      (unstored : n.cache.find? t.publication.key t.publication.version = none)
      (unmarked : ¬ n.cache.isInvalid t.publication.version = true)
      (unqueued : ¬ n.queue.contains t.publication.version = true)
  /-- The blob holds what has come and waits for recovery if the intake recovers. -/
  | ongoing (lacking : ¬ t.datagrams ⊆ before) {b : Blob}
      (stored : n.cache.find? t.publication.key t.publication.version = some b)
      (tracks : b.Tracks t.publication (t.progress before))
      (unmarked : ¬ n.cache.isInvalid t.publication.version = true)
      (queued : n.queue.contains t.publication.version = true ↔ i.recovers = true)
  /-- All has come and the checksum was right. -/
  | kept (all : t.datagrams ⊆ before) (intact : t.publication.Intact) {b : Blob}
      (stored : n.cache.find? t.publication.key t.publication.version = some b)
      (decides : b.Decides t.publication)
      (unmarked : ¬ n.cache.isInvalid t.publication.version = true)
      (unqueued : ¬ n.queue.contains t.publication.version = true)
  /-- All has come and the checksum was wrong or missing. -/
  | discarded (all : t.datagrams ⊆ before) (corrupt : ¬ t.publication.Intact)
      (unstored : n.cache.find? t.publication.key t.publication.version = none)
      (marked : n.cache.isInvalid t.publication.version = true)
      (unqueued : ¬ n.queue.contains t.publication.version = true)

/-- Datagrams of other publications change nothing. -/
theorem Stands.frame {v : VersionId} (stands : t.Stands n before) (agree : n.AgreeBut v n')
    (other : t.publication.version ≠ v) (foreign : d ∉ t.datagrams) :
    t.Stands n' (before ++ [d]) := by
  have found := agree.found t.publication.key t.publication.version other
  have queued := agree.queued t.publication.version other
  have marked := agree.marked t.publication.version other
  cases stands with
  | absent nothing unstored unmarked unqueued =>
    refine .absent (fun x came => ?_) (found.trans unstored) (marked.not.mpr unmarked)
      (queued.not.mpr unqueued)
    rcases List.mem_append.mp came with came | last
    · exact nothing x came
    · exact List.mem_singleton.mp last ▸ foreign
  | ongoing lacking stored tracks unmarked waits =>
    exact .ongoing ((subset_foreign foreign).not.mpr lacking) (found.trans stored)
      (by rw [progress_foreign foreign]; exact tracks) (marked.not.mpr unmarked)
      (queued.trans waits)
  | kept all intact stored decides unmarked unqueued =>
    exact .kept ((subset_foreign foreign).mpr all) intact (found.trans stored) decides
      (marked.not.mpr unmarked) (queued.not.mpr unqueued)
  | discarded all corrupt unstored isMarked unqueued =>
    exact .discarded ((subset_foreign foreign).mpr all) corrupt (found.trans unstored)
      (marked.mpr isMarked) (queued.not.mpr unqueued)

/-- A publication that is still open has a blob that tracks it, an old one or a new one. -/
theorem open_blob (sound : n.Sound) (stands : t.Stands n before)
    (lacking : ¬ t.datagrams ⊆ before) (now : Millis) :
    ∃ c b isNew, n.cache.getOrCreate t.publication.key t.publication.version now =
        .ok (c, b, isNew) ∧
      (n.withCache c).Sound ∧ n.AgreeBut t.publication.version (n.withCache c) ∧
      c.marks = n.cache.marks ∧
      c.find? t.publication.key t.publication.version = some b ∧
      b.Tracks t.publication (t.progress before) ∧
      ¬ n.cache.isInvalid t.publication.version = true ∧
      (n.queue.contains t.publication.version = true → i.recovers = true) := by
  cases stands with
  | absent nothing unstored unmarked unqueued =>
    obtain ⟨c, inserted, cache, marks, find⟩ := sound.cache.insert
      (b := .ofArrival t.publication.key t.publication.version now) unstored
      (Bool.eq_false_iff.mpr unmarked)
    have other (k : String) (w : VersionId) (differ : w ≠ t.publication.version) :
        c.find? k w = n.cache.find? k w := by
      rw [find, if_neg]
      exact fun same => differ same.2
    refine ⟨c, _, true, inserted, sound.withCache cache fun k w queued => other k w ?_,
      .withCache other marks, marks, ?_, ?_, unmarked, fun queued => absurd queued unqueued⟩
    · rintro rfl
      exact unqueued queued
    · rw [find, if_pos ⟨rfl, rfl⟩]
    · rw [progress_none nothing]
      exact Blob.tracks_ofArrival t.publication n.cache.copies now
  | @ongoing _ b stored tracks unmarked queued =>
    refine ⟨n.cache, b, false, ?_, sound, .refl _ n, rfl, stored, tracks, unmarked, queued.mp⟩
    rw [Cache.getOrCreate, Cache.insert]
    simp only [Blob.ofArrival, stored]
  | kept all => exact absurd all lacking
  | discarded all => exact absurd all lacking

section conclude

variable {p : Publication} {g : Progress} {m : Blob} {start : Millis}

theorem settled_update (sound : n.Sound) (stored : n.cache.find? p.key p.version = some b)
    (same : b.Same m) (key : m.settle.1.key = p.key) (version : m.settle.1.version = p.version) :
    (n.update m.settle.1).Sound ∧ n.AgreeBut p.version (n.update m.settle.1) ∧
      (n.update m.settle.1).cache.find? p.key p.version = some m.settle.1 ∧
      ((n.update m.settle.1).queue.contains p.version = true ↔
        n.queue.contains p.version = true) := by
  have copy : b.copy = m.settle.1.copy :=
    same.copy.symm.trans (Blob.same_settle m).copy.symm
  have found : n.cache.find? m.settle.1.key m.settle.1.version = some b := by
    rw [key, version, stored]
  obtain ⟨sound', find, queued⟩ := sound.update found copy
  refine ⟨sound', version ▸ sound.agree_update found copy, ?_, queued p.version⟩
  rw [find, if_pos ⟨key.symm, version.symm⟩]

theorem resort_unless (sound : n.Sound) (still : Prop) [Decidable still] (v : VersionId)
    (key : String) :
    let moved := if still then n else n.withCache (n.cache.resort key)
    moved.Sound ∧ n.AgreeBut v moved ∧ moved.cache.marks = n.cache.marks ∧ moved.queue = n.queue ∧
      ∀ k w, moved.cache.find? k w = n.cache.find? k w := by
  intro moved
  by_cases stands : still
  · have same : moved = n := if_pos stands
    rw [same]
    exact ⟨sound, .refl v n, rfl, rfl, fun _ _ => rfl⟩
  · have same : moved = n.withCache (n.cache.resort key) := if_neg stands
    rw [same]
    exact ⟨sound.resort key, sound.agree_resort v key, Cache.marks_resort _ _, rfl,
      (sound.cache.resort key).2⟩

theorem join_queue (sound : n.Sound) (stored : n.cache.find? m.key m.version = some m)
    (waits : n.queue.contains m.version = true → i.recovers = true) :
    let joined := if i.recovers then n.enqueue m else n
    joined.Sound ∧ n.AgreeBut m.version joined ∧ joined.cache = n.cache ∧
      (joined.queue.contains m.version = true ↔ i.recovers = true) := by
  cases recovers : i.recovers with
  | true =>
    exact ⟨sound.enqueue stored, .enqueue n m, rfl,
      iff_of_true (Recovery.Queue.contains_enqueue.mpr (.inr rfl)) rfl⟩
  | false => exact ⟨sound, .refl _ n, rfl, fun held => recovers ▸ waits held, fun h => by contradiction⟩

theorem leave_queue (sound : n.Sound)
    (waits : n.queue.contains p.version = true → i.recovers = true) :
    let left := if i.recovers then n.dequeue p.version else n
    left.Sound ∧ n.AgreeBut p.version left ∧ left.cache = n.cache ∧
      ¬ left.queue.contains p.version = true := by
  cases recovers : i.recovers with
  | true =>
    simp only [if_true]
    exact ⟨sound.dequeue _, .dequeue _ _, rfl,
      fun held => (Recovery.Queue.contains_remove.mp held).2 rfl⟩
  | false =>
    exact ⟨sound, .refl _ _, rfl, fun held => by simpa [recovers] using waits held⟩

/-- A blob that still lacks pieces stays. -/
theorem conclude_pending (sound : n.Sound) (stored : n.cache.find? p.key p.version = some b)
    (same : b.Same m) (tracks : m.Tracks p g) (lacking : ¬ g.Complete p)
    (waits : n.queue.contains p.version = true → i.recovers = true) (start now : Millis) :
    let r := i.conclude n m start now
    r.2 = .pending ∧ r.1.Sound ∧ n.AgreeBut p.version r.1 ∧ r.1.cache.marks = n.cache.marks ∧
      r.1.cache.find? p.key p.version = some m.refresh ∧
      (r.1.queue.contains p.version = true ↔ i.recovers = true) := by
  have settled := tracks.settle_open lacking
  have key := tracks.refresh.key
  have version := tracks.refresh.version
  obtain ⟨sound₁, agree₁, found, queued⟩ := settled_update sound stored same
    (by rw [settled]; exact key) (by rw [settled]; exact version)
  have concluded := Intake.conclude.eq_1 i n m start now
  simp only [settled] at sound₁ agree₁ found queued concluded
  obtain ⟨sound₂, agree₂, marks, queue, find⟩ :=
    resort_unless sound₁ (m.refresh.validity.start = start) p.version m.refresh.key
  generalize (if m.refresh.validity.start = start then n.update m.refresh
    else (n.update m.refresh).withCache ((n.update m.refresh).cache.resort m.refresh.key)) = moved
    at *
  obtain ⟨sound₃, agree₃, cache, joined⟩ := join_queue (i := i) (m := m.refresh) sound₂
    (by rw [find, key, version, found])
    (fun held => waits (queued.mp (by rwa [queue, version] at held)))
  have status : m.refresh.status.isTerminal = false := tracks.refresh.isOpen
  have pending : i.conclude n m start now =
      (if i.recovers then moved.enqueue m.refresh else moved, .pending) := by
    rw [concluded]
    split
    next complete => simp [complete, Status.isTerminal] at status
    next corrupt => simp [corrupt, Status.isTerminal] at status
    next => rfl
  rw [version] at agree₃ joined
  rw [pending]
  refine ⟨rfl, sound₃, (agree₁.trans agree₂).trans agree₃, ?_, ?_, joined⟩
  · rw [cache, marks]
    exact Cache.marks_update _ _
  · rw [cache, find, found]

/-- An intact blob with nothing missing is kept. -/
theorem conclude_complete (sound : n.Sound) (stored : n.cache.find? p.key p.version = some b)
    (same : b.Same m) (tracks : m.Tracks p g) (complete : g.Complete p) (intact : p.Intact)
    (waits : n.queue.contains p.version = true → i.recovers = true) (start now : Millis) :
    let r := i.conclude n m start now
    r.2 = .completed ∧ r.1.Sound ∧ n.AgreeBut p.version r.1 ∧ r.1.cache.marks = n.cache.marks ∧
      r.1.cache.find? p.key p.version = some m.settle.1 ∧
      ¬ r.1.queue.contains p.version = true := by
  obtain ⟨decided, decides⟩ := tracks.settle_complete complete
  obtain ⟨sound', agree, found, queued⟩ :=
    settled_update sound stored same decides.key decides.version
  obtain ⟨sound'', agree', cache, unqueued⟩ :=
    leave_queue (p := p) (i := i) sound' fun held => waits (queued.mp held)
  have concluded := Intake.conclude.eq_1 i n m start now
  simp only [decides.version, decides.key, (decides.intact intact).1, decided, if_true] at concluded
  rw [concluded]
  refine ⟨rfl, sound''.resort _, (agree.trans agree').trans (sound''.agree_resort _ _), ?_, ?_,
    unqueued⟩
  · refine (Cache.marks_resort _ _).trans ?_
    rw [cache]
    exact Cache.marks_update _ _
  · refine ((sound''.cache.resort _).2 _ _).trans ?_
    rw [cache]
    exact found

theorem discard (sound : n.Sound) (unqueued : ¬ n.queue.contains p.version = true)
    {versions : List VersionId} (within : n.cache.marks.Within versions)
    (room : versions.length ≤ Cache.Marks.bound) (known : p.version ∈ versions) (now : Millis) :
    let c := (n.cache.discardInvalid p.key p.version now).1
    (n.withCache c).Sound ∧ n.AgreeBut p.version (n.withCache c) ∧ c.marks.Within versions ∧
      c.find? p.key p.version = none ∧ c.isInvalid p.version = true := by
  obtain ⟨gone, find⟩ := sound.cache.discardInvalid p.key p.version now
  have marks := Cache.marks_discardInvalid n.cache p.key p.version now
  obtain ⟨within', contains⟩ := within.add room known now
  rw [← marks] at within' contains
  have other (k : String) (w : VersionId) (differ : w ≠ p.version) :
      (n.cache.discardInvalid p.key p.version now).1.find? k w = n.cache.find? k w := by
    rw [find, if_neg]
    exact fun same => differ same.2
  refine ⟨sound.withCache gone fun k w held => other k w ?_, ⟨other, fun _ _ => Iff.rfl, ?_⟩, within',
    (find _ _).trans (if_pos ⟨rfl, rfl⟩), (contains _).mpr (.inr rfl)⟩
  · rintro rfl
    exact unqueued held
  · exact fun w differ => (contains w).trans (or_iff_left differ)

/-- A blob with nothing missing that fails its checksum is gone and marked. -/
theorem conclude_corrupt (sound : n.Sound) (stored : n.cache.find? p.key p.version = some b)
    (same : b.Same m) (tracks : m.Tracks p g) (complete : g.Complete p) (corrupt : ¬ p.Intact)
    (waits : n.queue.contains p.version = true → i.recovers = true) {versions : List VersionId}
    (within : n.cache.marks.Within versions) (room : versions.length ≤ Cache.Marks.bound)
    (known : p.version ∈ versions) (start now : Millis) :
    let r := i.conclude n m start now
    r.2 = .invalid ∧ r.1.Sound ∧ n.AgreeBut p.version r.1 ∧ r.1.cache.marks.Within versions ∧
      r.1.cache.find? p.key p.version = none ∧ r.1.cache.isInvalid p.version = true ∧
      ¬ r.1.queue.contains p.version = true := by
  obtain ⟨decided, decides⟩ := tracks.settle_complete complete
  obtain ⟨sound₁, agree₁, found, queued⟩ :=
    settled_update sound stored same decides.key decides.version
  obtain ⟨sound₂, agree₂, cache, unqueued⟩ :=
    leave_queue (p := p) (i := i) sound₁ fun held => waits (queued.mp held)
  have concluded := Intake.conclude.eq_1 i n m start now
  simp only [decides.version, decides.key, (decides.corrupt corrupt).1, decided, if_true]
    at concluded
  rw [concluded]
  generalize (if i.recovers then (n.update m.settle.1).dequeue p.version
    else n.update m.settle.1) = left at *
  have marks : left.cache.marks = n.cache.marks := by
    rw [cache]
    exact Cache.marks_update _ _
  obtain ⟨sound₃, agree₃, within', gone, marked⟩ :=
    discard sound₂ unqueued (marks ▸ within) room known now
  exact ⟨rfl, sound₃, (agree₁.trans agree₂).trans agree₃, within', gone, marked, unqueued⟩

end conclude

/-- What a fragment of an open publication does. -/
theorem fragment_open {versions : List VersionId} (sound : n.Sound) (stands : t.Stands n before)
    (lacking : ¬ t.datagrams ⊆ before) (within : n.cache.marks.Within versions)
    (room : versions.length ≤ Cache.Marks.bound) (known : t.publication.version ∈ versions)
    (listed : d ∈ t.datagrams) (read : reads i d f) (slice : f.SliceOf t.publication)
    (now : Millis) :
    let r := i.fragment n f now
    r.2 = t.outcome before d ∧ r.1.Sound ∧ n.AgreeBut t.publication.version r.1 ∧
      r.1.cache.marks.Within versions ∧ t.Stands r.1 (before ++ [d]) := by
  obtain ⟨c, b, isNew, created, sound', agree, marks, stored, tracks, unmarked, waits⟩ :=
    open_blob sound stands lacking now
  obtain ⟨m, filled, merged, tracks', _⟩ := tracks.merge t.distinct slice now
  rw [← progress_own listed read] at tracks'
  have fragment : i.fragment n f now =
      i.conclude (n.withCache c) m b.validity.start now := by
    simp only [Intake.fragment, slice.key, slice.version, created, tracks.isOpen, merged]
    rfl
  have same := (Blob.advances_merge merged).toSame
  have still {n' : Node} (kept : n'.cache.marks = c.marks) :
      ¬ n'.cache.isInvalid t.publication.version = true := by
    rw [Cache.isInvalid, kept, marks]
    exact unmarked
  rw [fragment, outcome, if_neg lacking]
  by_cases all : t.datagrams ⊆ before ++ [d]
  · have complete := complete_iff.mpr all
    rw [if_pos all]
    by_cases intact : t.publication.Intact
    · rw [if_pos intact]
      obtain ⟨told, sound'', agree', kept, found, unqueued⟩ := conclude_complete (i := i) sound'
        stored same tracks' complete intact waits b.validity.start now
      have total := agree.trans agree'
      exact ⟨told, sound'', total, kept ▸ marks ▸ within, .kept all intact found
        (tracks'.settle_complete complete).2 (still kept) unqueued⟩
    · rw [if_neg intact]
      obtain ⟨told, sound'', agree', within', gone, marked, unqueued⟩ := conclude_corrupt (i := i)
        sound' stored same tracks' complete intact waits (marks ▸ within) room known
        b.validity.start now
      exact ⟨told, sound'', agree.trans agree', within',
        .discarded all intact gone marked unqueued⟩
  · rw [if_neg all]
    obtain ⟨told, sound'', agree', kept, found, queued⟩ := conclude_pending (i := i) sound' stored
      same tracks' (complete_iff.not.mpr all) waits b.validity.start now
    exact ⟨told, sound'', agree.trans agree', kept ▸ marks ▸ within,
      .ongoing all found tracks'.refresh (still kept) queued⟩

/-- Once all datagrams have come, further ones change nothing. -/
theorem fragment_closed (stands : t.Stands n before) (all : t.datagrams ⊆ before)
    (listed : d ∈ t.datagrams) (slice : f.SliceOf t.publication) (now : Millis) :
    i.fragment n f now = (n, .ignored) ∧ t.Stands n (before ++ [d]) := by
  have more : t.datagrams ⊆ before ++ [d] :=
    List.Subset.trans all (List.subset_append_left _ _)
  cases stands with
  | absent nothing => exact absurd listed (nothing d (all listed))
  | ongoing lacking => exact absurd all lacking
  | @kept _ intact b stored decides unmarked unqueued =>
    refine ⟨?_, .kept more intact stored decides unmarked unqueued⟩
    have created : n.cache.getOrCreate t.publication.key t.publication.version now =
        .ok (n.cache, b, false) := by
      rw [Cache.getOrCreate, Cache.insert]
      simp only [Blob.ofArrival, stored]
    simp only [Intake.fragment, slice.key, slice.version, created, decides.isTerminal, if_true]
    rfl
  | discarded _ corrupt unstored marked unqueued =>
    refine ⟨?_, .discarded more corrupt unstored marked unqueued⟩
    have refused : n.cache.getOrCreate t.publication.key t.publication.version now =
        .error (.versionInvalid t.publication.version) := by
      rw [Cache.getOrCreate, Cache.insert]
      simp only [Blob.ofArrival, unstored, marked, if_true]
    simp only [Intake.fragment, slice.key, slice.version, refused]

end Transmission

namespace Intake

variable {i : Intake} {family : List (Transmission i)} {t : Transmission i} {n : Node}
  {before : List Bytes} {d : Bytes} {now : Millis}

def versions (family : List (Transmission i)) : List VersionId :=
  family.map (·.publication.version)

/-- A node that has taken in some datagrams of a family of publications. -/
structure Consistent (family : List (Transmission i)) (n : Node) (before : List Bytes) : Prop where
  sound : n.Sound
  marks : n.cache.marks.Within (versions family)
  stands : ∀ t ∈ family, t.Stands n before

theorem consistent_empty (family : List (Transmission i)) (grace : Millis) :
    Consistent family (.empty grace) [] where
  sound := Node.sound_empty grace
  marks := Cache.Marks.within_nil _
  stands t _ := .absent (by simp) rfl (by simp [Node.empty, Cache.empty, Cache.isInvalid,
    Cache.Marks.contains])
    (by simp [Node.empty, Recovery.Queue.contains])

theorem Consistent.counted (consistent : Consistent family n before) (counters : Counters) :
    Consistent family { n with counters } before where
  sound := ⟨consistent.sound.cache, consistent.sound.queued⟩
  marks := consistent.marks
  stands t member := by
    cases consistent.stands t member with
    | absent nothing unstored unmarked unqueued => exact .absent nothing unstored unmarked unqueued
    | ongoing lacking stored tracks unmarked queued =>
      exact .ongoing lacking stored tracks unmarked queued
    | kept all intact stored decides unmarked unqueued =>
      exact .kept all intact stored decides unmarked unqueued
    | discarded all corrupt unstored marked unqueued =>
      exact .discarded all corrupt unstored marked unqueued

/-- One more datagram gives the outcome it has to give and leaves all others as they were. -/
theorem Consistent.datagram (consistent : Consistent family n before)
    (apart : (versions family).Nodup) (few : family.length ≤ Cache.Marks.bound) (member : t ∈ family)
    (listed : d ∈ t.datagrams) (now : Millis) :
    (i.datagram n d now).2 = t.outcome before d ∧
      Consistent family (i.datagram n d now).1 (before ++ [d]) := by
  obtain ⟨f, read, slice⟩ := Transmission.slice_of_mem listed
  have foreign {u : Transmission i} (other : u ∈ family) (differ : u ≠ t) :
      u.publication.version ≠ t.publication.version ∧ d ∉ u.datagrams := by
    have versions : t.publication.version ≠ u.publication.version := fun same =>
      differ (List.inj_on_of_nodup_map apart member other same).symm
    exact ⟨versions.symm, Transmission.apart versions listed⟩
  have step : (i.fragment n f now).2 = t.outcome before d ∧
      Consistent family (i.fragment n f now).1 (before ++ [d]) := by
    by_cases all : t.datagrams ⊆ before
    · obtain ⟨same, stands⟩ :=
        Transmission.fragment_closed (consistent.stands t member) all listed slice now
      rw [same, Transmission.outcome, if_pos all]
      refine ⟨rfl, consistent.sound, consistent.marks, fun u other => ?_⟩
      by_cases one : u = t
      · exact one ▸ stands
      · obtain ⟨versions, strange⟩ := foreign other one
        exact (consistent.stands u other).frame (.refl _ n) versions strange
    · have room : (versions family).length ≤ Cache.Marks.bound := by
        rw [versions, List.length_map]
        exact few
      obtain ⟨told, sound, agree, marks, stands⟩ := Transmission.fragment_open consistent.sound
        (consistent.stands t member) all consistent.marks room (List.mem_map_of_mem member) listed
        read slice now
      refine ⟨told, sound, marks, fun u other => ?_⟩
      by_cases one : u = t
      · exact one ▸ stands
      · obtain ⟨versions, strange⟩ := foreign other one
        exact (consistent.stands u other).frame agree versions strange
  simp only [Transmission.reads] at read
  simp only [Intake.datagram, read]
  exact ⟨step.1, step.2.counted _⟩

/-- Takes in datagrams one after the other and gives what became of each. -/
def feed (i : Intake) (now : Millis) (n : Node) (stream : List Bytes) : Node × List Outcome :=
  stream.foldl (fun s d => ((i.datagram s.1 d now).1, s.2 ++ [(i.datagram s.1 d now).2])) (n, [])

theorem feed_concat (i : Intake) (now : Millis) (n : Node) (stream : List Bytes) (d : Bytes) :
    i.feed now n (stream ++ [d]) = ((i.datagram (i.feed now n stream).1 d now).1,
      (i.feed now n stream).2 ++ [(i.datagram (i.feed now n stream).1 d now).2]) := by
  rw [feed, List.foldl_append]
  rfl

theorem length_feed (i : Intake) (now : Millis) (n : Node) (stream : List Bytes) :
    (i.feed now n stream).2.length = stream.length := by
  induction stream using List.reverseRecOn with
  | nil => rfl
  | append_singleton stream d ih => simp [feed_concat, ih]

theorem consistent_feed (apart : (versions family).Nodup) (few : family.length ≤ Cache.Marks.bound)
    (grace now : Millis) {stream : List Bytes} (own : ∀ d ∈ stream, ∃ t ∈ family, d ∈ t.datagrams) :
    Consistent family (i.feed now (.empty grace) stream).1 stream := by
  induction stream using List.reverseRecOn with
  | nil => exact consistent_empty family grace
  | append_singleton stream d ih =>
    obtain ⟨t, member, listed⟩ := own d (by simp)
    rw [feed_concat]
    exact ((ih fun x came => own x (by simp [came])).datagram apart few member listed now).2

/-- Whatever order the datagrams of a family come in, however often each, and whichever get lost:
every datagram has the outcome that its own publication's datagrams before it call for, and in the
end each publication stands as its own datagrams have it. -/
theorem feed_assembles (apart : (versions family).Nodup) (few : family.length ≤ Cache.Marks.bound)
    (grace now : Millis) {stream : List Bytes} (own : ∀ d ∈ stream, ∃ t ∈ family, d ∈ t.datagrams) :
    (∀ before d rest, stream = before ++ d :: rest → ∀ t ∈ family, d ∈ t.datagrams →
      (i.feed now (.empty grace) stream).2[before.length]? = some (t.outcome before d)) ∧
    ∀ t ∈ family, t.Stands (i.feed now (.empty grace) stream).1 stream := by
  refine ⟨?_, (consistent_feed apart few grace now own).stands⟩
  induction stream using List.reverseRecOn with
  | nil =>
    intro before d rest split
    simp at split
  | append_singleton stream last ih =>
    intro before d rest split t member listed
    have earlier : ∀ x ∈ stream, ∃ t ∈ family, x ∈ t.datagrams := fun x came =>
      own x (by simp [came])
    rw [feed_concat]
    -- Either the datagram in question is the last one, or it belongs to the stream before.
    rcases List.eq_nil_or_concat rest with rfl | ⟨rest, x, rfl⟩
    · obtain ⟨rfl, same⟩ := List.append_inj' split rfl
      obtain rfl := List.singleton_inj.mp same
      rw [← length_feed i now (.empty grace) stream, List.getElem?_concat_length]
      exact congrArg some
        ((consistent_feed apart few grace now earlier).datagram apart few member listed now).1
    · rw [List.concat_eq_append, ← List.cons_append, ← List.append_assoc] at split
      obtain ⟨rfl, _⟩ := List.append_inj' split rfl
      rw [List.getElem?_append_left (by rw [length_feed]; simp)]
      exact ih earlier before d rest rfl t member listed

/-- Two versions of one object, of which one has the bytes that its checksum says. -/
def samplePair : List (Transmission {}) :=
  [.ofShort .sample Transmission.short_sample (by decide),
    .ofShort Transmission.sampleAltered Transmission.short_altered (by decide)]

/-- The datagrams of both in turns, and then one of each again. -/
def sampleMixed : List Bytes :=
  [Publication.sample.single .metadata, Transmission.sampleAltered.single .payload,
    Publication.sample.single .payload, Transmission.sampleAltered.single .metadata,
    Transmission.sampleAltered.single .payload, Publication.sample.single .metadata]

theorem feed_assembles_sample :
    (versions samplePair).Nodup ∧ samplePair.length ≤ Cache.Marks.bound ∧
    (∀ d ∈ sampleMixed, ∃ t ∈ samplePair, d ∈ t.datagrams) ∧
    (feed {} 5 (.empty 10) sampleMixed).2[2]? = some .completed ∧
    (feed {} 5 (.empty 10) sampleMixed).2[3]? = some .invalid ∧
    ∀ t ∈ samplePair, t.Stands (feed {} 5 (.empty 10) sampleMixed).1 sampleMixed := by
  have apart : (versions samplePair).Nodup := by decide
  have few : samplePair.length ≤ Cache.Marks.bound := by decide
  have own : ∀ d ∈ sampleMixed, ∃ t ∈ samplePair, d ∈ t.datagrams := by
    simp [sampleMixed, samplePair, Transmission.ofShort]
  obtain ⟨told, stands⟩ := feed_assembles apart few 10 5 own
  have foreign (kind other : Section) :
      Publication.sample.single kind ≠ Transmission.sampleAltered.single other :=
    Transmission.short_sample.single_ne Transmission.short_altered (.inl (by decide))
  have differ {p : Publication} (short : p.Short) {kind other : Section} (apart : kind ≠ other) :
      p.single kind ≠ p.single other :=
    short.single_ne short (.inr apart)
  refine ⟨apart, few, own, ?_, ?_, stands⟩
  · apply (told [_, _] _ _ rfl _ List.mem_cons_self (Publication.mem_singles.mpr ⟨.payload, rfl⟩)).trans
    rw [Transmission.outcome_ofShort, if_pos (by decide +kernel)]
    · simp [foreign, differ Transmission.short_sample]
    · intro other early
      cases other with
      | metadata => simp
      | payload => exact absurd rfl early
  · apply (told [_, _, _] _ _ rfl _ (List.mem_cons_of_mem _ List.mem_cons_self)
      (Publication.mem_singles.mpr ⟨.metadata, rfl⟩)).trans
    rw [Transmission.outcome_ofShort, if_neg (by decide +kernel)]
    · simp [(foreign _ _).symm, differ Transmission.short_altered]
    · intro other early
      cases other with
      | metadata => exact absurd rfl early
      | payload => simp

end Intake
end BlobReplica
