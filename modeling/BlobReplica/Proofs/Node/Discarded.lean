import BlobReplica.Proofs.Node.Changes

/-! Versions that were discarded because they failed their checksum. As long as its mark is held, such a
version comes back on no path: not as an arrival, not as an object and not with a fragment. -/

namespace BlobReplica

namespace Blob

theorem same_ofObject {key : String} {version : VersionId} {properties : Properties}
    {payload : Bytes} {now : Millis} {b : Blob}
    (made : ofObject key version properties payload now = .ok b) :
    (ofArrival key version now).Same b := by
  rw [ofObject] at made
  split at made
  next =>
    cases made
    have headed := advances_applyHeaders (ofArrival key version now) properties.entries now
    exact (headed.trans (advances_setPayload _ payload now)).same_settle
  next => contradiction

theorem ofObject_eq_error {key : String} {version : VersionId} {properties : Properties}
    {payload : Bytes} {now : Millis} {e : Error}
    (refused : ofObject key version properties payload now = .error e) :
    e = .checksumInvalid version := by
  rw [ofObject] at refused
  split at refused
  next => contradiction
  next =>
    cases refused
    rfl

end Blob

namespace Cache

variable {c c' : Cache} {b : Blob} {key : String} {v : VersionId} {t : Millis}
  {others : Finset VersionId} {l : List Marks.Marking}

/-- A version that is not stored under its key, with a mark that was set at `t` or later. -/
structure Barred (c : Cache) (key : String) (v : VersionId) (t : Millis) (others : Finset VersionId) :
    Prop extends c.Tidy where
  absent : ∀ b, c.Stores b → b.key = key → b.version ≠ v
  bars : c.marks.Bars v t others

namespace Barred

theorem find?_eq_none (barred : c.Barred key v t others) : c.find? key v = none := by
  apply Sound.find?_eq_none.mpr
  intro b listed
  exact barred.absent b ⟨key, listed⟩ (barred.keyed key b listed)

theorem insert_eq_error (barred : c.Barred key v t others) (named : b.key = key)
    (versioned : b.version = v) : c.insert b = .error (.versionInvalid v) := by
  subst named versioned
  exact Cache.insert_eq_error barred.find?_eq_none barred.bars.contains

theorem insertObject_eq_error (barred : c.Barred key v t others) (properties : Properties)
    (payload : Bytes) (now : Millis) :
    c.insertObject key v properties payload now = .error (.versionInvalid v) ∨
      c.insertObject key v properties payload now = .error (.checksumInvalid v) := by
  rw [insertObject]
  cases made : Blob.ofObject key v properties payload now with
  | error e =>
    cases Blob.ofObject_eq_error made
    exact .inr rfl
  | ok b =>
    have same := Blob.same_ofObject made
    have refused := barred.insert_eq_error same.key same.version
    simp [bind, Except.bind, refused]

/-- Nothing brings the version back: what is stored under its key are other versions. -/
theorem absent_change (barred : c.Barred key v t others) (change : c.Change l c') :
    ∀ b, c'.Stores b → b.key = key → b.version ≠ v := by
  intro x stored
  rcases change.origin barred.toSound stored with ⟨o, former, same⟩ | ⟨b, isNew, inserted, rfl⟩
  · rw [same.key, same.version]
    exact barred.absent o former
  · intro named versioned
    have refused : c.insert b = .error (.versionInvalid v) :=
      barred.insert_eq_error named versioned
    rw [refused] at inserted
    contradiction

theorem change (barred : c.Barred key v t others) (few : others.card < Marks.bound)
    (change : c.Change l c') (spares : ∀ m ∈ l, Marks.Bars.Spares v t others m) :
    c'.Barred key v t others where
  toTidy := barred.toTidy.change change
  absent := barred.absent_change change
  bars := change.marks ▸ barred.bars.foldl_mark few spares

theorem changes (barred : c.Barred key v t others) (few : others.card < Marks.bound)
    (changes : c.Changes l c') (spares : ∀ m ∈ l, Marks.Bars.Spares v t others m) :
    c'.Barred key v t others := by
  induction changes with
  | refl => exact barred
  | tail _ last ih =>
    have former := ih fun m set => spares m (List.mem_append_left _ set)
    exact former.change few last fun m set => spares m (List.mem_append_right _ set)

end Barred

theorem Tidy.barred_discardInvalid (tidy : c.Tidy) (key : String)
    (earlier : ∀ m ∈ c.marks, m.1 ≠ v → m.2 < t) :
    (c.discardInvalid key v t).1.Barred key v t others where
  toTidy := tidy.discardInvalid key v t
  absent b stored named versioned :=
    ((tidy.toSound.stores_discardInvalid key v t).mp stored).2 ⟨named, versioned⟩
  bars := by
    rw [marks_discardInvalid]
    exact .of_latest tidy.proper earlier

end Cache

namespace Node

open Cache (Discard)

variable {n n' : Node} {e : Event} {h before after : History} {d : Discard}

/-- The versions that a history marks. -/
def History.marked (h : History) : List VersionId :=
  h.markings.filterMap fun
    | .set version _ => some version
    | .forget _ => none

theorem mem_marked {version : VersionId} {now : Millis} (set : .set version now ∈ h.markings) :
    version ∈ h.marked :=
  List.mem_filterMap.mpr ⟨.set version now, set, rfl⟩

/-- Only sweeps forget marks. -/
theorem exists_sweep {cutoff : Millis} (forgets : .forget cutoff ∈ h.markings) :
    ∃ step ∈ h, ∃ now policy, step.2 = .sweep now policy ∧ cutoff = now - policy.staleAfter := by
  obtain ⟨⟨n, e⟩, member, forgets⟩ := List.mem_flatMap.mp forgets
  refine ⟨(n, e), member, ?_⟩
  cases e with
  | sweep now policy =>
    refine ⟨now, policy, rfl, ?_⟩
    simpa [markings, Cache.sweepMarkings] using forgets
  | markInvalid | fragment | datagram | poll | recover | operate | insert | insertObject | remove
  | discardInvalid | resort => simp [markings] at forgets

/-- Marks are set at later and later times. A version was discarded, fewer other versions have been
marked since than marks are held, and no sweep has forgotten marks as late as the discard. However the
run went on, the version is not stored, it is refused as an arrival, as a blob and as an object, and a
fragment of it is ignored and leaves the node as it was. -/
theorem discarded_stays_away {grace : Millis}
    (reached : Run Regular (.empty grace) before n) (regular : Regular n e)
    (discards : discarded? n e = some d) (run : Run Regular (n.perform e) after n')
    (earlier : ∀ version now, .set version now ∈ before.markings → now < d.now)
    (later : ∀ version now, .set version now ∈ after.markings → d.now ≤ now)
    (few : (after.marked.toFinset.erase d.version).card < Cache.Marks.bound)
    (spared : ∀ step ∈ after, ∀ now policy, step.2 = .sweep now policy →
      now - policy.staleAfter ≤ d.now) :
    n'.cache.find? d.key d.version = none ∧
    (∀ now, n'.cache.getOrCreate d.key d.version now = .error (.versionInvalid d.version)) ∧
    (∀ b, b.key = d.key → b.version = d.version →
      n'.cache.insert b = .error (.versionInvalid d.version)) ∧
    (∀ properties payload now,
      n'.cache.insertObject d.key d.version properties payload now =
          .error (.versionInvalid d.version) ∨
        n'.cache.insertObject d.key d.version properties payload now =
          .error (.checksumInvalid d.version)) ∧
    ∀ i f now, f.key = d.key → f.version = d.version →
      Intake.fragment i n' f now = (n', .ignored) := by
  have tidy := tidy_run reached
  obtain ⟨c, changes, discarded⟩ := becomes_perform tidy regular discards
  have marks : c.marks = before.markings.foldl Cache.Marks.mark [] :=
    changes.marks.trans (changes_run Cache.tidy_empty reached).marks
  have start : (n.perform e).cache.Barred d.key d.version d.now
      (after.marked.toFinset.erase d.version) := by
    rw [discarded]
    apply (changes.tidy tidy).barred_discardInvalid
    intro m member _
    rw [marks] at member
    have set := (Cache.Marks.mem_foldl_mark member).resolve_left List.not_mem_nil
    exact earlier m.1 m.2 set
  have spares : ∀ m ∈ after.markings, Cache.Marks.Bars.Spares d.version d.now
      (after.marked.toFinset.erase d.version) m := by
    intro m member
    cases m with
    | set version now =>
      refine ⟨later version now member, ?_⟩
      rw [Finset.mem_erase, List.mem_toFinset]
      by_cases same : version = d.version
      · exact .inl same
      · exact .inr ⟨same, mem_marked member⟩
    | forget cutoff =>
      obtain ⟨step, here, now, policy, sweeps, rfl⟩ := exists_sweep member
      exact spared step here now policy sweeps
  have barred := start.changes few (changes_run start.toTidy run) spares
  refine ⟨barred.find?_eq_none, fun now => barred.insert_eq_error rfl rfl,
    fun b => barred.insert_eq_error, barred.insertObject_eq_error, ?_⟩
  intro i f now named versioned
  have refused : n'.cache.getOrCreate f.key f.version now = .error (.versionInvalid d.version) :=
    barred.insert_eq_error named versioned
  rw [Intake.fragment, refused]

/-- Both gaps of the sample blob, without a checksum. -/
def unsignedAnswer : Recovery.FetchResponse :=
  { sampleAnswer with headers := [("Content-Type", "multipart/byteranges; boundary=XX")] }

/-- A version that recovery discards stays away through a sweep, also for the fragment that began it. -/
theorem discarded_stays_away_sample :
    Regular (empty 10000) (.fragment {} sampleFragment 10) ∧
    Regular sampleNode (.recover sampleBlob (some unsignedAnswer) 40) ∧
    discarded? sampleNode (.recover sampleBlob (some unsignedAnswer) 40) =
      some ⟨"k", .ofNumber 7, 40⟩ ∧
    Regular (sampleNode.perform (.recover sampleBlob (some unsignedAnswer) 40)) (.sweep 50 {}) ∧
    let last := (sampleNode.perform (.recover sampleBlob (some unsignedAnswer) 40)).perform (.sweep 50 {})
    last.cache.find? "k" (.ofNumber 7) = none ∧
    last.cache.getOrCreate "k" (.ofNumber 7) 60 = .error (.versionInvalid (.ofNumber 7)) ∧
    Intake.fragment {} last sampleFragment 60 = (last, .ignored) := by
  have current : Regular sampleNode (.recover sampleBlob (some unsignedAnswer) 40) :=
    sampleNode_shows.cache
  have discards : discarded? sampleNode (.recover sampleBlob (some unsignedAnswer) 40) =
      some ⟨"k", .ofNumber 7, 40⟩ := by
    decide +kernel
  let before : History := [(empty 10000, .fragment {} sampleFragment 10)]
  let after : History :=
    [(sampleNode.perform (.recover sampleBlob (some unsignedAnswer) 40), .sweep 50 {})]
  have reached : Run Regular (.empty 10000) before sampleNode := .step .start trivial
  have run : Run Regular (sampleNode.perform (.recover sampleBlob (some unsignedAnswer) 40)) after
      ((sampleNode.perform (.recover sampleBlob (some unsignedAnswer) 40)).perform (.sweep 50 {})) :=
    .step .start trivial
  have unmarked : before.markings = [] := by decide +kernel
  have forgotten : after.markings = [.forget 0] := by decide +kernel
  have spared : ∀ step ∈ after, ∀ now policy, step.2 = .sweep now policy →
      now - policy.staleAfter ≤ 40 := by
    intro step member now policy sweeps
    cases List.mem_singleton.mp member
    cases sweeps
    decide
  obtain ⟨absent, arrival, _, _, ignored⟩ :=
    discarded_stays_away reached current discards run (by simp [unmarked]) (by simp [forgotten])
      (by simp [History.marked, forgotten, Cache.Marks.bound]) spared
  exact ⟨trivial, current, discards, trivial, absent, arrival 60, ignored {} sampleFragment 60 rfl rfl⟩

end Node
end BlobReplica
