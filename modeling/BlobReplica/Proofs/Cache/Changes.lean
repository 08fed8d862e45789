import BlobReplica.Proofs.Cache.Marks
import BlobReplica.Proofs.Cache.Stored

/-! What can be done to a cache, change by change, and what becomes of its marks. Lists that are
empty, blobs under a foreign key and second blobs of a version come about by none of the changes. -/

namespace BlobReplica.Cache

variable {c c' c'' : Cache} {b b' o x : Blob} {key k : String} {version v : VersionId}
  {blobs : List Blob} {now : Millis} {policy : SweepPolicy} {l l' : List Marks.Marking}

/-! ### Removal -/

theorem eraseP_eq_filter (distinct : (blobs.map (·.version)).Nodup) :
    blobs.eraseP (·.version = v) = blobs.filter (·.version ≠ v) := by
  induction blobs with
  | nil => rfl
  | cons b rest ih =>
    obtain ⟨other, distinct⟩ := List.nodup_cons.mp distinct
    by_cases named : b.version = v
    · have apart : ∀ x ∈ rest, decide (x.version ≠ v) = true := by
        intro x listed
        apply decide_eq_true
        rintro rfl
        exact other (List.mem_map.mpr ⟨x, listed, named.symm⟩)
      rw [List.eraseP_cons_of_pos (by simpa using named),
        List.filter_cons_of_neg (by simpa using named), List.filter_eq_self.mpr apart]
    · rw [List.eraseP_cons_of_neg (by simpa using named),
        List.filter_cons_of_pos (by simpa using named), ih distinct]

theorem Sound.versions_remove (sound : c.Sound) (key : String) (version : VersionId) (k : String) :
    (c.remove key version).1.versions k =
      if k = key then (c.versions key).filter (·.version ≠ version) else c.versions k := by
  rw [Cache.remove]
  split
  next absent =>
    split
    next same =>
      rw [same, List.filter_eq_self.mpr fun x listed =>
        decide_eq_true (Sound.find?_eq_none.mp absent x listed)]
    next => rfl
  next => rw [versions_setVersions, eraseP_eq_filter (sound.distinct key)]

theorem Sound.versions_discardInvalid (sound : c.Sound) (key : String) (version : VersionId)
    (now : Millis) (k : String) : (c.discardInvalid key version now).1.versions k =
      if k = key then (c.versions key).filter (·.version ≠ version) else c.versions k :=
  (sound.markInvalid version now).versions_remove key version k

/-! ### Lists that are not empty -/

/-- No key is kept without versions. -/
def Filled (c : Cache) : Prop :=
  ∀ k, c.lists.get? k ≠ some []

theorem filled_empty : empty.Filled := by
  intro k found
  contradiction

theorem Filled.get?_eq (filled : c.Filled) (k : String) :
    c.lists.get? k = if c.versions k = [] then none else some (c.versions k) := by
  rw [versions]
  cases found : c.lists.get? k with
  | none => rfl
  | some blobs =>
    have some : blobs ≠ [] := fun none => filled k (none ▸ found)
    rw [Option.getD_some, if_neg some]

theorem Filled.setVersions (filled : c.Filled) (key : String) (blobs : List Blob) :
    (c.setVersions key blobs).Filled := by
  intro k found
  simp only [Cache.setVersions] at found
  split at found
  next =>
    rw [Table.get?_erase] at found
    split at found
    next => contradiction
    next => exact filled k found
  next some =>
    rw [Table.get?_insert] at found
    split at found
    next => simp [Option.some.inj found] at some
    next => exact filled k found

theorem Filled.insert_list {former : List Blob} (filled : c.Filled)
    (found : c.lists.get? key = some former) (same : blobs = [] → former = []) :
    ({ c with lists := c.lists.insert key blobs } : Cache).Filled := by
  intro k here
  rw [Table.get?_insert] at here
  split at here
  next => exact filled key (found.trans (congrArg some (same (Option.some.inj here))))
  next => exact filled k here

theorem Filled.update (filled : c.Filled) (b : Blob) : (c.update b).Filled := by
  rw [Cache.update]
  split
  next => exact filled
  next blobs found => exact filled.insert_list found List.map_eq_nil_iff.mp

theorem Filled.resort (filled : c.Filled) (key : String) : (c.resort key).Filled := by
  rw [Cache.resort]
  split
  next => exact filled
  next blobs found =>
    refine filled.insert_list found fun none => ?_
    have same : (sorted blobs).length = blobs.length := List.length_mergeSort blobs
    rw [← List.length_eq_zero_iff, ← same, none, List.length_nil]

theorem Filled.remove (filled : c.Filled) (key : String) (version : VersionId) :
    (c.remove key version).1.Filled := by
  rw [Cache.remove]
  split
  next => exact filled
  next => exact filled.setVersions key _

theorem Filled.insert {isNew : Bool} (filled : c.Filled) (inserted : c.insert b = .ok (c', x, isNew)) :
    c'.Filled := by
  rw [Cache.insert] at inserted
  split at inserted
  next =>
    cases inserted
    exact filled
  next =>
    split at inserted
    next => contradiction
    next =>
      cases inserted
      exact Filled.setVersions (c := { c with copies := c.copies + 1 }) filled _ _

theorem filled_sweep (c : Cache) (now : Millis) (policy : SweepPolicy) :
    (c.sweep now policy).1.Filled := by
  intro k found
  change ((c.lists.map fun _ blobs => swept policy now blobs).filter
    fun _ blobs => !blobs.isEmpty).get? k = some [] at found
  rw [Table.get?_filter, Option.filter_eq_some_iff] at found
  exact absurd found.2 (by simp)

/-- A cache without empty lists is told by its versions, its marks and its count. -/
theorem ext_versions (filled : c.Filled) (filled' : c'.Filled)
    (versions : ∀ k, c.versions k = c'.versions k) (marks : c.marks = c'.marks)
    (copies : c.copies = c'.copies) : c = c' := by
  have lists : c.lists = c'.lists := by
    apply Table.ext_get?
    intro k
    rw [filled.get?_eq, filled'.get?_eq, versions]
  cases c
  cases c'
  cases lists
  cases marks
  cases copies
  rfl

/-! ### Marks -/

theorem insert_eq_error (absent : c.find? b.key b.version = none)
    (marked : c.isInvalid b.version = true) : c.insert b = .error (.versionInvalid b.version) := by
  rw [Cache.insert, absent]
  exact if_pos marked

theorem marks_insert {isNew : Bool} (inserted : c.insert b = .ok (c', x, isNew)) :
    c'.marks = c.marks := by
  rw [Cache.insert] at inserted
  split at inserted
  next =>
    cases inserted
    rfl
  next =>
    split at inserted
    next => contradiction
    next =>
      cases inserted
      rfl

/-- What a sweep does to marks: the invalid blobs that it finds are marked, the old marks go. -/
def sweepMarkings (c : Cache) (now : Millis) (policy : SweepPolicy) : List Marks.Marking :=
  ((c.blobs.filter fun b => b.status = .checksumInvalid).map fun b => .set b.version now) ++
    [.forget (now - policy.staleAfter)]

theorem marks_sweep (c : Cache) (now : Millis) (policy : SweepPolicy) :
    (c.sweep now policy).1.marks = (c.sweepMarkings now policy).foldl Marks.mark c.marks := by
  rw [sweepMarkings, List.foldl_append, List.foldl_map]
  rfl

/-! ### Tidy caches -/

/-- Every key lists blobs of its own, one for each version, and there are no more marks than are
held, one for each version. -/
structure Tidy (c : Cache) : Prop extends c.Sound where
  filled : c.Filled
  proper : c.marks.Proper

theorem tidy_empty : empty.Tidy where
  toSound := sound_empty
  filled := filled_empty
  proper := Marks.proper_nil

namespace Tidy

theorem insert {isNew : Bool} (tidy : c.Tidy) (inserted : c.insert b = .ok (c', x, isNew)) :
    c'.Tidy where
  toSound := by
    rcases tidy.toSound.insert_cases inserted with ⟨rfl, _⟩ | ⟨taken, _⟩
    · exact tidy.toSound
    · exact taken.sound
  filled := tidy.filled.insert inserted
  proper := marks_insert inserted ▸ tidy.proper

theorem update (tidy : c.Tidy) (shows : c.Shows b) (same : b.Same b') : (c.update b').Tidy where
  toSound := (tidy.toSound.change shows same).1
  filled := tidy.filled.update b'
  proper := marks_update c b' ▸ tidy.proper

theorem resort (tidy : c.Tidy) (key : String) : (c.resort key).Tidy where
  toSound := (tidy.toSound.resort key).1
  filled := tidy.filled.resort key
  proper := marks_resort c key ▸ tidy.proper

theorem remove (tidy : c.Tidy) (key : String) (version : VersionId) :
    (c.remove key version).1.Tidy where
  toSound := (tidy.toSound.remove key version).1
  filled := tidy.filled.remove key version
  proper := marks_remove c key version ▸ tidy.proper

theorem markInvalid (tidy : c.Tidy) (version : VersionId) (now : Millis) :
    (c.markInvalid version now).Tidy where
  toSound := tidy.toSound.markInvalid version now
  filled := tidy.filled
  proper := tidy.proper.add version now

theorem discardInvalid (tidy : c.Tidy) (key : String) (version : VersionId) (now : Millis) :
    (c.discardInvalid key version now).1.Tidy :=
  (tidy.markInvalid version now).remove key version

theorem sweep (tidy : c.Tidy) (now : Millis) (policy : SweepPolicy) :
    (c.sweep now policy).1.Tidy where
  toSound := tidy.toSound.sweep now policy
  filled := filled_sweep c now policy
  proper := marks_sweep c now policy ▸ tidy.proper.foldl_mark _

/-- What a blob became before it was discarded does not show. -/
theorem discard_update (tidy : c.Tidy) (shows : c.Shows b) (same : b.Same b') (now : Millis) :
    ((c.update b').discardInvalid b.key b.version now).1 =
      (c.discardInvalid b.key b.version now).1 := by
  have changed := tidy.update shows same
  apply ext_versions (changed.discardInvalid _ _ now).filled (tidy.discardInvalid _ _ now).filled
  · intro k
    rw [changed.toSound.versions_discardInvalid, tidy.toSound.versions_discardInvalid]
    split
    next =>
      have versions : ∀ o ∈ c.versions b.key, (replaced b' o).version = o.version :=
        fun o listed => (same_replaced (shows o ⟨_, listed⟩) same).version
      have kept : ∀ o ∈ (c.versions b.key).filter (·.version ≠ b.version), replaced b' o = o := by
        intro o listed
        obtain ⟨listed, other⟩ := List.mem_filter.mp listed
        refine if_neg fun copy => ?_
        rw [shows o ⟨_, listed⟩ (copy.trans same.copy)] at other
        simp at other
      have filtered := List.filter_congr (l := c.versions b.key)
        (p := (fun o => decide (o.version ≠ b.version)) ∘ replaced b')
        (q := fun o => decide (o.version ≠ b.version)) fun o listed => by simp [versions o listed]
      rw [tidy.toSound.versions_update shows same, List.filter_map, filtered, List.map_congr_left kept,
        List.map_id']
    next other =>
      rw [versions_update, if_neg (same.key ▸ other)]
  · rw [marks_discardInvalid, marks_discardInvalid, marks_update]
  · rw [copies_discardInvalid, copies_discardInvalid, copies_update]

end Tidy

/-! ### Changes -/

/-- A version that is discarded for its checksum, with its key and the time. -/
structure Discard where
  key : String
  version : VersionId
  now : Millis
deriving DecidableEq

def without (c : Cache) : Option Discard → Cache
  | none => c
  | some d => (c.discardInvalid d.key d.version d.now).1

/-- One change of a cache, with what it does to the marks. -/
inductive Change (c : Cache) : List Marks.Marking → Cache → Prop where
  | takeIn {b x : Blob} {isNew : Bool} {c' : Cache} (inserted : c.insert b = .ok (c', x, isNew)) :
      Change c [] c'
  /-- A blob that is and stays open changes where it stands. -/
  | keep {b b' : Blob} (shows : c.Shows b) (same : b.Same b') (isOpen : b.isTerminal = false)
      (lacking : b'.isTerminal = false) (start : b'.validity.start = b.validity.start) :
      Change c [] (c.update b')
  /-- A blob changes and takes the place that is then its own. -/
  | place {b b' : Blob} (shows : c.Shows b) (same : b.Same b') :
      Change c [] ((c.update b').resort b'.key)
  | resort (key : String) : Change c [] (c.resort key)
  | remove (key : String) (version : VersionId) : Change c [] (c.remove key version).1
  | mark (version : VersionId) (now : Millis) : Change c [.set version now] (c.markInvalid version now)
  | sweep (now : Millis) (policy : SweepPolicy) :
      Change c (c.sweepMarkings now policy) (c.sweep now policy).1

theorem Change.marks (change : c.Change l c') : c'.marks = l.foldl Marks.mark c.marks := by
  cases change with
  | takeIn inserted => exact marks_insert inserted
  | keep => exact marks_update c _
  | place => exact (marks_resort _ _).trans (marks_update c _)
  | resort key => exact marks_resort c key
  | remove key version => exact marks_remove c key version
  | mark => rfl
  | sweep now policy => exact marks_sweep c now policy

/-- Whatever is stored after a change was stored before in some state, or was taken in with the next
number. -/
theorem Change.origin (sound : c.Sound) (change : c.Change l c') (stored : c'.Stores x) :
    (∃ o, c.Stores o ∧ o.Same x) ∨
      ∃ b isNew, c.insert b = .ok (c', x, isNew) ∧ x = { b with copy := c.copies } := by
  have changed {b b' : Blob} (shows : c.Shows b) (same : b.Same b') (stored : (c.update b').Stores x) :
      ∃ o, c.Stores o ∧ o.Same x := by
    obtain ⟨o, former, rfl⟩ := ((sound.change shows same).2 x).mp stored
    exact ⟨o, former, same_replaced (shows o former) same⟩
  cases change with
  | @takeIn b _ isNew _ inserted =>
    rcases sound.insert_cases inserted with ⟨rfl, _⟩ | ⟨taken, new⟩
    · exact .inl ⟨x, stored, .refl x⟩
    · rcases (taken.stores x).mp stored with former | rfl
      · exact .inl ⟨x, former, .refl x⟩
      · exact .inr ⟨b, isNew, inserted, new⟩
  | keep shows same => exact .inl (changed shows same stored)
  | place shows same =>
    exact .inl (changed shows same (((sound.change shows same).1.stores_resort _).mp stored))
  | resort => exact .inl ⟨x, (sound.stores_resort _).mp stored, .refl x⟩
  | remove => exact .inl ⟨x, ((sound.stores_remove _ _).mp stored).1, .refl x⟩
  | mark => exact .inl ⟨x, stored, .refl x⟩
  | sweep =>
    obtain ⟨k, listed⟩ := stored
    rw [versions_sweep] at listed
    exact .inl ⟨x, ⟨k, (swept_sublist _ _ _).subset listed⟩, .refl x⟩

/-- Numbers that were given are not given again. -/
theorem Change.copies_le (sound : c.Sound) (change : c.Change l c') : c.copies ≤ c'.copies := by
  cases change with
  | takeIn inserted =>
    rcases sound.insert_cases inserted with ⟨rfl, _⟩ | ⟨taken, _⟩
    · exact Nat.le_refl _
    · exact taken.copies ▸ Nat.le_succ _
  | keep => rw [copies_update]
  | place => rw [copies_resort, copies_update]
  | resort => rw [copies_resort]
  | remove => rw [copies_remove]
  | mark | sweep => exact Nat.le_refl _

theorem Tidy.change (tidy : c.Tidy) (change : c.Change l c') : c'.Tidy := by
  cases change with
  | takeIn inserted => exact tidy.insert inserted
  | keep shows same => exact tidy.update shows same
  | place shows same => exact (tidy.update shows same).resort _
  | resort key => exact tidy.resort key
  | remove key version => exact tidy.remove key version
  | mark version now => exact tidy.markInvalid version now
  | sweep now policy => exact tidy.sweep now policy

/-- Changes one after the other. -/
inductive Changes (c : Cache) : List Marks.Marking → Cache → Prop where
  | refl : Changes c [] c
  | tail {l l' : List Marks.Marking} {c' c'' : Cache} (first : Changes c l c')
      (last : c'.Change l' c'') : Changes c (l ++ l') c''

namespace Changes

theorem single (change : c.Change l c') : c.Changes l c' :=
  .tail .refl change

theorem trans (first : c.Changes l c') (second : c'.Changes l' c'') : c.Changes (l ++ l') c'' := by
  induction second with
  | refl => rwa [List.append_nil]
  | tail _ last ih =>
    rw [← List.append_assoc]
    exact .tail ih last

theorem marks (changes : c.Changes l c') : c'.marks = l.foldl Marks.mark c.marks := by
  induction changes with
  | refl => rfl
  | tail _ last ih => rw [last.marks, ih, List.foldl_append]

theorem tidy (changes : c.Changes l c') (tidy : c.Tidy) : c'.Tidy := by
  induction changes with
  | refl => exact tidy
  | tail _ last ih => exact ih.change last

theorem copies_le (changes : c.Changes l c') (tidy : c.Tidy) : c.copies ≤ c'.copies := by
  induction changes with
  | refl => exact Nat.le_refl _
  | tail first last ih => exact ih.trans (last.copies_le (first.tidy tidy).toSound)

theorem origin (changes : c.Changes l c') (tidy : c.Tidy) (stored : c'.Stores x) :
    (∃ o, c.Stores o ∧ o.Same x) ∨ c.copies ≤ x.copy := by
  induction changes generalizing x with
  | refl => exact .inl ⟨x, stored, .refl x⟩
  | tail first last ih =>
    rcases last.origin (first.tidy tidy).toSound stored with ⟨o, former, same⟩ | ⟨_, _, _, rfl⟩
    · rcases ih former with ⟨p, stored, same'⟩ | new
      · exact .inl ⟨p, stored, same'.trans same⟩
      · exact .inr (same.copy ▸ new)
    · exact .inr (first.copies_le tidy)

theorem discard (changes : c.Changes l c') (key : String) (version : VersionId) (now : Millis) :
    c.Changes (l ++ [.set version now]) (c'.discardInvalid key version now).1 := by
  have removed := (changes.tail (.mark version now)).tail (.remove key version)
  rwa [List.append_nil] at removed

end Changes

/-- Changes that leave the marks alone, and then a version may be discarded. -/
def Becomes (c : Cache) (d? : Option Discard) (c'' : Cache) : Prop :=
  ∃ c', c.Changes [] c' ∧ c'' = c'.without d?

theorem Changes.becomes (changes : c.Changes [] c') : c.Becomes none c' :=
  ⟨c', changes, rfl⟩

theorem Change.becomes (change : c.Change [] c') : c.Becomes none c' :=
  (Changes.single change).becomes

theorem Becomes.after {d? : Option Discard} (change : c.Change [] c') (becomes : c'.Becomes d? c'') :
    c.Becomes d? c'' := by
  obtain ⟨last, changes, same⟩ := becomes
  exact ⟨last, (Changes.single change).trans changes, same⟩

theorem Becomes.changes {d? : Option Discard} (becomes : c.Becomes d? c'') :
    c.Changes (d?.toList.map fun d => .set d.version d.now) c'' := by
  obtain ⟨c', changes, rfl⟩ := becomes
  cases d? with
  | none => exact changes
  | some d => exact changes.discard d.key d.version d.now

end BlobReplica.Cache
