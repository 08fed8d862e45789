import BlobReplica.Proofs.Cache.Changes
import BlobReplica.Proofs.VersionId

/-! Discarding a version in any state of the marks and of the clock. The version is gone, and one mark at
most goes to make room, one with the smallest time. That may be the new mark itself, where no other is
older: then the version is not kept away. -/

namespace BlobReplica.Cache

namespace Marks

variable {marks marks' order rest : Marks} {m o : VersionId × Millis} {v : VersionId} {now : Millis}

/-- What may be held after a mark is set. A table is looked through in an order of its own, so of several
marks with the smallest time any one may go. -/
def Adds (marks : Marks) (v : VersionId) (now : Millis) (marks' : Marks) : Prop :=
  ∃ order : Marks, order.Perm (marks.replaced v now) ∧ marks' = order.evict

theorem adds_add (marks : Marks) (v : VersionId) (now : Millis) : marks.Adds v now (marks.add v now) :=
  ⟨marks.replaced v now, .refl _, rfl⟩

/-- All the marks that can be held are held, none of them is of the version, and none is older. -/
structure Crowd (marks : Marks) (v : VersionId) (now : Millis) : Prop where
  full : marks.length = bound
  unmarked : marks.contains v = false
  late : ∀ m ∈ marks, now ≤ m.2

theorem contains_eq_false : marks.contains v = false ↔ ∀ m ∈ marks, m.1 ≠ v := by
  simp [contains]

theorem replaced_eq (unmarked : marks.contains v = false) : marks.replaced v now = marks ++ [(v, now)] := by
  rw [replaced, List.filter_eq_self.mpr]
  intro m member
  exact bne_iff_ne.mpr (contains_eq_false.mp unmarked m member)

theorem filter_append_perm (distinct : (marks.map (·.1)).Nodup) (member : o ∈ marks) :
    (marks.filter (·.1 != o.1) ++ [o]).Perm marks := by
  have erased : marks.filter (·.1 != o.1) = marks.erase o := by
    rw [(List.Nodup.of_map _ distinct).erase_eq_filter]
    refine List.filter_congr fun m listed => ?_
    rw [Bool.eq_iff_iff, bne_iff_ne, bne_iff_ne, not_iff_not]
    exact ⟨fun same => List.inj_on_of_nodup_map distinct listed member same, fun same => same ▸ rfl⟩
  rw [erased]
  exact List.perm_append_comm.trans (List.perm_cons_erase member).symm

/-- Looked through first, a mark with the smallest time goes. -/
theorem evict_first (least : ∀ m ∈ rest, o.2 ≤ m.2) (full : bound < (o :: rest).length) :
    evict (o :: rest) = (o :: rest).filter (·.1 != o.1) := by
  have found : oldest? (o :: rest) = some o := by
    rw [oldest?, Option.some_inj]
    clear full
    induction rest with
    | nil => rfl
    | cons m rest ih =>
      rw [List.foldl_cons, if_neg (Nat.not_lt.mpr (least m List.mem_cons_self))]
      exact ih fun n listed => least n (List.mem_cons_of_mem m listed)
  rw [evict, if_pos full, found]

/-- Only in a full table a new mark is one too many. -/
theorem Proper.full_of_replaced (proper : marks.Proper) (excess : bound < (marks.replaced v now).length) :
    marks.length = bound ∧ marks.contains v = false := by
  have short := proper.short
  rw [replaced, List.length_append, List.length_singleton] at excess
  have kept := List.length_filter_le (·.1 != v) marks
  have all : (marks.filter (·.1 != v)).length = marks.length := by omega
  refine ⟨by omega, contains_eq_false.mpr fun m member => ?_⟩
  exact bne_iff_ne.mp (List.length_filter_eq_length_iff.mp all m member)

/-- The new mark and the others are held, but for one with the smallest time if they are too many. -/
theorem Adds.account (adds : marks.Adds v now marks') (proper : marks.Proper) :
    marks'.length ≤ bound ∧
    ∃ gone : Marks, (marks' ++ gone).Perm (marks.replaced v now) ∧ gone.length ≤ 1 ∧
      (∀ o ∈ gone, ∀ m ∈ marks.replaced v now, o.2 ≤ m.2) ∧
      (gone ≠ [] → marks.length = bound ∧ marks.contains v = false) := by
  obtain ⟨order, perm, rfl⟩ := adds
  have distinct : (order.map (·.1)).Nodup := (perm.map _).nodup_iff.mpr (proper.distinct_replaced v now)
  rcases evict_cases order with ⟨same, room⟩ | ⟨o, member, excess, least, less⟩
  · rw [same]
    exact ⟨room, [], by rwa [List.append_nil], Nat.zero_le 1, by simp, by simp⟩
  · have parts := filter_append_perm distinct member
    rw [less]
    refine ⟨?_, [o], parts.trans perm, Nat.le_refl 1, ?_, fun _ => ?_⟩
    · have count := parts.length_eq
      have most := proper.length_replaced v now
      rw [perm.length_eq, List.length_append, List.length_singleton] at count
      omega
    · intro x gone m listed
      rw [List.mem_singleton.mp gone]
      exact least m (perm.mem_iff.mpr listed)
    · exact proper.full_of_replaced (perm.length_eq ▸ excess)

theorem Proper.contains_iff {gone : Marks} (proper : marks.Proper)
    (account : (marks' ++ gone).Perm (marks.replaced v now)) :
    marks'.contains v = true ↔ (v, now) ∉ gone := by
  have whole : ((marks' ++ gone).map (·.1)).Nodup :=
    (account.map _).nodup_iff.mpr (proper.distinct_replaced v now)
  have fresh : (v, now) ∈ marks' ++ gone := account.mem_iff.mpr (mem_replaced.mpr (.inr rfl))
  rw [List.map_append, List.nodup_append] at whole
  rw [contains, List.any_eq_true]
  constructor
  · rintro ⟨m, member, named⟩ driven
    exact whole.2.2 _ (List.mem_map_of_mem member) _ (List.mem_map_of_mem driven) (beq_iff_eq.mp named)
  · intro spared
    exact ⟨(v, now), (List.mem_append.mp fresh).resolve_right spared, beq_self_eq_true v⟩

/-- A new mark stays, in whatever order the table is looked through, unless it joins a crowd. -/
theorem Adds.contains (adds : marks.Adds v now marks') (proper : marks.Proper)
    (apart : ¬ marks.Crowd v now) : marks'.contains v = true := by
  obtain ⟨_, gone, account, _, least, crowded⟩ := adds.account proper
  refine (proper.contains_iff account).mpr fun driven => apart ?_
  obtain ⟨full, unmarked⟩ := crowded (List.ne_nil_of_mem driven)
  refine ⟨full, unmarked, fun m member => least _ driven m (mem_replaced.mpr (.inl ⟨member, ?_⟩))⟩
  exact contains_eq_false.mp unmarked m member

/-- In a crowd of later marks a new one goes at once. -/
theorem Adds.perm_of_crowd (adds : marks.Adds v now marks') (proper : marks.Proper)
    (crowd : marks.Crowd v now) (later : ∀ m ∈ marks, m.2 ≠ now) : marks'.Perm marks := by
  obtain ⟨room, gone, account, most, least, _⟩ := adds.account proper
  rw [replaced_eq crowd.unmarked] at account least
  have count := account.length_eq
  simp only [List.length_append, List.length_singleton, crowd.full] at count
  obtain ⟨o, rfl⟩ := List.length_eq_one_iff.mp (show gone.length = 1 by omega)
  have driven : o ∈ marks ++ [(v, now)] :=
    account.mem_iff.mp (List.mem_append_right _ List.mem_cons_self)
  rcases List.mem_append.mp driven with member | fresh
  · have early : o.2 ≤ now := least o List.mem_cons_self (v, now) (by simp)
    exact absurd (Nat.le_antisymm early (crowd.late o member)) (later o member)
  · rw [List.mem_singleton.mp fresh] at account
    exact (List.perm_append_right_iff _).mp account

/-- In a crowd there is an order in which a given mark with the smallest time goes. -/
theorem Crowd.exists_adds (crowd : marks.Crowd v now) (member : o ∈ marks.replaced v now)
    (least : ∀ m ∈ marks.replaced v now, o.2 ≤ m.2) :
    ∃ marks', marks.Adds v now marks' ∧ ∀ m, m ∈ marks' ↔ m ∈ marks.replaced v now ∧ m.1 ≠ o.1 := by
  have perm := (List.perm_cons_erase member).symm
  have excess : bound < (o :: (marks.replaced v now).erase o).length := by
    rw [perm.length_eq, replaced_eq crowd.unmarked, List.length_append, crowd.full]
    exact Nat.lt_succ_self bound
  have first := evict_first (fun m listed => least m (List.mem_of_mem_erase listed)) excess
  refine ⟨_, ⟨_, perm, rfl⟩, fun m => ?_⟩
  rw [first, List.mem_filter, perm.mem_iff, bne_iff_ne]

/-- In a crowd a new mark may be the one to go. -/
theorem Crowd.exists_forgotten (crowd : marks.Crowd v now) :
    ∃ marks', marks.Adds v now marks' ∧ marks'.contains v = false := by
  have least : ∀ m ∈ marks.replaced v now, now ≤ m.2 := by
    intro m member
    rcases mem_replaced.mp member with ⟨member, _⟩ | rfl
    · exact crowd.late m member
    · exact Nat.le_refl now
  obtain ⟨marks', adds, held⟩ := crowd.exists_adds (mem_replaced.mpr (.inr rfl)) least
  exact ⟨marks', adds, contains_eq_false.mpr fun m member => ((held m).mp member).2⟩

theorem Crowd.exists_kept (crowd : marks.Crowd v now) (member : m ∈ marks) (tie : m.2 = now) :
    ∃ marks', marks.Adds v now marks' ∧ marks'.contains v = true := by
  have other := contains_eq_false.mp crowd.unmarked m member
  have least : ∀ n ∈ marks.replaced v now, m.2 ≤ n.2 := by
    intro n listed
    rw [tie]
    rcases mem_replaced.mp listed with ⟨listed, _⟩ | rfl
    · exact crowd.late n listed
    · exact Nat.le_refl now
  obtain ⟨marks', adds, held⟩ := crowd.exists_adds (mem_replaced.mpr (.inl ⟨member, other⟩)) least
  refine ⟨marks', adds, List.any_eq_true.mpr ⟨(v, now), (held _).mpr ?_, beq_self_eq_true v⟩⟩
  exact ⟨mem_replaced.mpr (.inr rfl), Ne.symm other⟩

end Marks

variable {c c' : Cache} {key : String} {version : VersionId} {now : Millis}

/-- A cache as discarding a version may leave it: marked, and without the version. -/
def Discards (c : Cache) (key : String) (version : VersionId) (now : Millis) (c' : Cache) : Prop :=
  ∃ marks, c.marks.Adds version now marks ∧ c' = ({ c with marks }.remove key version).1

theorem discards_discardInvalid (c : Cache) (key : String) (version : VersionId) (now : Millis) :
    c.Discards key version now (c.discardInvalid key version now).1 :=
  ⟨_, Marks.adds_add c.marks version now, rfl⟩

theorem Discards.adds (discards : c.Discards key version now c') :
    c.marks.Adds version now c'.marks := by
  obtain ⟨marks, adds, rfl⟩ := discards
  rwa [marks_remove]

theorem Discards.of_adds {marks : Marks} (adds : c.marks.Adds version now marks) (key : String) :
    ∃ c', c.Discards key version now c' ∧ c'.isInvalid version = marks.contains version :=
  ⟨_, ⟨marks, adds, rfl⟩, by rw [isInvalid, marks_remove]⟩

theorem Discards.sound (discards : c.Discards key version now c') (sound : c.Sound) :
    c'.Sound ∧ c'.find? key version = none := by
  obtain ⟨marks, _, rfl⟩ := discards
  have marked : ({ c with marks } : Cache).Sound :=
    ⟨sound.keyed, sound.distinct, sound.numbered, sound.single⟩
  obtain ⟨removed, found⟩ := marked.remove key version
  exact ⟨removed, by rw [found, if_pos ⟨rfl, rfl⟩]⟩

theorem Discards.forgotten (discards : c.Discards key version now c') (proper : c.marks.Proper)
    (crowd : c.marks.Crowd version now) (later : ∀ m ∈ c.marks, m.2 ≠ now) :
    c'.isInvalid version = false := by
  have perm := discards.adds.perm_of_crowd proper crowd later
  refine Marks.contains_eq_false.mpr fun m member => ?_
  exact Marks.contains_eq_false.mp crowd.unmarked m (perm.mem_iff.mp member)

/-- A version that is not stored is refused exactly if it is marked. -/
theorem Sound.getOrCreate_cases (sound : c.Sound) (absent : c.find? key version = none) (t : Millis) :
    (c.isInvalid version = true ∧ c.getOrCreate key version t = .error (.versionInvalid version)) ∨
      (c.isInvalid version = false ∧
        ∃ c' b, c.getOrCreate key version t = .ok (c', b, true) ∧ c'.find? key version = some b) := by
  cases marked : c.isInvalid version with
  | true => exact .inl ⟨rfl, insert_eq_error (b := Blob.ofArrival key version t) absent marked⟩
  | false =>
    obtain ⟨c', taken, _, _, found⟩ := sound.insert (b := Blob.ofArrival key version t) absent marked
    exact .inr ⟨rfl, c', _, taken, (found key version).trans (if_pos ⟨rfl, rfl⟩)⟩

/-- Discarding a version removes it, and at most one mark is no longer held, one with the smallest time
of all and of the new one; in whatever order the table of marks is looked through. Unless the new mark
joins a crowd, the version is marked then, the mark that went is another's, and the version is refused.
Exactly in a crowd there is an order in which the new mark itself goes, which leaves the version free to
come back, and in a crowd of later marks this happens in every order. -/
theorem discard_marks (tidy : c.Tidy) (key : String) (version : VersionId) (now : Millis) :
    c.Discards key version now (c.discardInvalid key version now).1 ∧
    (∀ c', c.Discards key version now c' →
      c'.find? key version = none ∧ c'.marks.length ≤ Marks.bound ∧
      (∃ gone : Marks, (c'.marks ++ gone).Perm (c.marks.replaced version now) ∧ gone.length ≤ 1 ∧
        (∀ o ∈ gone, ∀ m ∈ c.marks.replaced version now, o.2 ≤ m.2) ∧
        (c'.isInvalid version = true ↔ ∀ o ∈ gone, o.1 ≠ version)) ∧
      ∀ t, (c'.isInvalid version = true ∧
          c'.getOrCreate key version t = .error (.versionInvalid version)) ∨
        (c'.isInvalid version = false ∧ ∃ c'' b, c'.getOrCreate key version t = .ok (c'', b, true) ∧
          c''.find? key version = some b)) ∧
    ((∀ c', c.Discards key version now c' → c'.isInvalid version = true) ↔
      ¬ c.marks.Crowd version now) ∧
    ((∀ c', c.Discards key version now c' → c'.isInvalid version = false) ↔
      c.marks.Crowd version now ∧ ∀ m ∈ c.marks, m.2 ≠ now) := by
  have stays (apart : ¬ c.marks.Crowd version now) {c' : Cache} (discards : c.Discards key version now c') :
      c'.isInvalid version = true :=
    discards.adds.contains tidy.proper apart
  refine ⟨discards_discardInvalid c key version now, fun c' discards => ?_, ⟨fun always crowd => ?_,
    fun apart c' => stays apart⟩, ⟨fun never => ?_, fun ⟨crowd, later⟩ c' discards => ?_⟩⟩
  · obtain ⟨room, gone, account, most, least, _⟩ := discards.adds.account tidy.proper
    obtain ⟨sound, absent⟩ := discards.sound tidy.toSound
    refine ⟨absent, room, ⟨gone, account, most, least, ?_⟩, sound.getOrCreate_cases absent⟩
    rw [isInvalid, tidy.proper.contains_iff account]
    constructor
    · intro spared o driven named
      have old := account.mem_iff.mp (List.mem_append_right _ driven)
      rcases Marks.mem_replaced.mp old with ⟨_, other⟩ | fresh
      · exact other named
      · exact spared (fresh ▸ driven)
    · exact fun others driven => others _ driven rfl
  · obtain ⟨marks, adds, forgotten⟩ := crowd.exists_forgotten
    obtain ⟨c', discards, same⟩ := Discards.of_adds adds key
    exact Bool.false_ne_true ((same.trans forgotten).symm.trans (always c' discards))
  · have crowd : c.marks.Crowd version now := by
      by_contra apart
      have own := discards_discardInvalid c key version now
      exact Bool.false_ne_true ((never _ own).symm.trans (stays apart own))
    refine ⟨crowd, fun m member tie => ?_⟩
    obtain ⟨marks, adds, kept⟩ := crowd.exists_kept member tie
    obtain ⟨c', discards, same⟩ := Discards.of_adds adds key
    exact Bool.false_ne_true ((never c' discards).symm.trans (same.trans kept))
  · exact discards.forgotten tidy.proper crowd later

/-! ### A crowd -/

theorem Marks.foldl_add {marks new : Marks} (distinct : ((marks ++ new).map (·.1)).Nodup)
    (room : (marks ++ new).length ≤ bound) :
    new.foldl (fun marks m => marks.add m.1 m.2) marks = marks ++ new := by
  induction new generalizing marks with
  | nil => exact (List.append_nil marks).symm
  | cons m rest ih =>
    rw [List.append_cons] at distinct room
    have unmarked : marks.contains m.1 = false := by
      rw [List.map_append, List.map_append] at distinct
      refine contains_eq_false.mpr fun o member => ?_
      exact (List.nodup_append.mp distinct.of_append_left).2.2 _ (List.mem_map_of_mem member) _ (by simp)
    have added : marks.add m.1 m.2 = marks ++ [m] := by
      have short : ¬ bound < (marks.replaced m.1 m.2).length := by
        rw [replaced_eq unmarked]
        rw [List.length_append] at room
        exact Nat.not_lt.mpr (Nat.le_trans (Nat.le_add_right _ _) room)
      exact (if_neg short).trans (replaced_eq unmarked)
    rw [List.foldl_cons, added, ih distinct room, ← List.append_cons]

/-- A cache in which versions have been marked one after the other. -/
def marked (marks : Marks) : Cache :=
  marks.foldl (fun c m => c.markInvalid m.1 m.2) empty

theorem tidy_marked (marks : Marks) : (marked marks).Tidy := by
  suffices run : ∀ c : Cache, c.Tidy → (marks.foldl (fun c m => c.markInvalid m.1 m.2) c).Tidy from
    run empty tidy_empty
  induction marks with
  | nil => exact fun _ tidy => tidy
  | cons m rest ih => exact fun c tidy => ih _ (tidy.markInvalid m.1 m.2)

theorem marks_marked {marks : Marks} (proper : marks.Proper) : (marked marks).marks = marks := by
  have run : (marked marks).marks = marks.foldl (fun (held : Marks) m => held.add m.1 m.2) [] :=
    (List.foldl_hom Cache.marks fun _ _ => rfl).symm
  exact run.trans (Marks.foldl_add proper.distinct proper.short)

/-- As many marks as can be held, from the time 1000 on, each a millisecond after the one before. -/
def sampleCrowd : Marks :=
  (List.range Marks.bound).map fun i => (.ofNumber (16 + i), 1000 + i)

theorem mem_sampleCrowd {m : VersionId × Millis} :
    m ∈ sampleCrowd ↔ ∃ i < Marks.bound, m = (.ofNumber (16 + i), 1000 + i) := by
  simp [sampleCrowd, eq_comm]

theorem length_sampleCrowd : sampleCrowd.length = Marks.bound := by
  rw [sampleCrowd, List.length_map, List.length_range]

theorem number_of_mem_sampleCrowd {m : VersionId × Millis} (member : m ∈ sampleCrowd) :
    m.1.number + 984 = m.2 ∧ 16 ≤ m.1.number := by
  obtain ⟨i, below, rfl⟩ := mem_sampleCrowd.mp member
  rw [VersionId.number_ofNumber (by simp only [Marks.bound] at below; omega)]
  show 16 + i + 984 = 1000 + i ∧ 16 ≤ 16 + i
  omega

theorem proper_sampleCrowd : sampleCrowd.Proper where
  distinct := by
    rw [sampleCrowd, List.map_map]
    refine List.nodup_range.map_on fun i low j high same => ?_
    have numbers := congrArg VersionId.number same
    simp only [List.mem_range, Marks.bound] at low high
    simp only [Function.comp_apply] at numbers
    rw [VersionId.number_ofNumber (by omega), VersionId.number_ofNumber (by omega)] at numbers
    exact Nat.add_left_cancel numbers
  short := Nat.le_of_eq length_sampleCrowd

theorem crowd_sampleCrowd {now : Millis} (early : now ≤ 1000) : sampleCrowd.Crowd (.ofNumber 7) now where
  full := length_sampleCrowd
  unmarked := Marks.contains_eq_false.mpr fun m member same => by
    have late := (number_of_mem_sampleCrowd member).2
    rw [same, VersionId.number_ofNumber (by decide)] at late
    exact absurd late (by decide)
  late m member := by
    obtain ⟨time, number⟩ := number_of_mem_sampleCrowd member
    exact Nat.le_trans early (by omega)

/-- A version that is discarded while a mark is older is refused, though no more marks can be held. -/
theorem discard_marks_full :
    (marked sampleCrowd).Tidy ∧ (marked sampleCrowd).marks.length = Marks.bound ∧
    ∀ c', (marked sampleCrowd).Discards "k" (.ofNumber 7) 1500 c' →
      c'.isInvalid (.ofNumber 7) = true ∧
        c'.getOrCreate "k" (.ofNumber 7) 1500 = .error (.versionInvalid (.ofNumber 7)) := by
  have held := marks_marked proper_sampleCrowd
  have older : ((VersionId.ofNumber 16, 1000) : VersionId × Millis) ∈ sampleCrowd :=
    mem_sampleCrowd.mpr ⟨0, by decide, rfl⟩
  have apart : ¬ (marked sampleCrowd).marks.Crowd (.ofNumber 7) 1500 := fun crowd =>
    absurd (crowd.late _ (held.symm ▸ older)) (by decide)
  obtain ⟨_, after, always, _⟩ := discard_marks (tidy_marked sampleCrowd) "k" (.ofNumber 7) 1500
  refine ⟨tidy_marked sampleCrowd, held.symm ▸ length_sampleCrowd, fun c' discards => ?_⟩
  have invalid := always.mpr apart c' discards
  rcases (after c' discards).2.2.2 1500 with refused | ⟨valid, _⟩
  · exact refused
  · exact absurd (valid.symm.trans invalid) Bool.false_ne_true

/-- A version that is discarded by a clock that stepped back behind all the marks is not kept away. -/
theorem discard_forgotten :
    ((marked sampleCrowd).discardInvalid "k" (.ofNumber 7) 500).1.isInvalid (.ofNumber 7) = false ∧
    (∃ c' b, ((marked sampleCrowd).discardInvalid "k" (.ofNumber 7) 500).1.getOrCreate "k" (.ofNumber 7) 500 =
      .ok (c', b, true)) ∧
    ∀ c', (marked sampleCrowd).Discards "k" (.ofNumber 7) 500 c' →
      c'.isInvalid (.ofNumber 7) = false := by
  have tidy := tidy_marked sampleCrowd
  have held := marks_marked proper_sampleCrowd
  have forgotten (c' : Cache) (discards : (marked sampleCrowd).Discards "k" (.ofNumber 7) 500 c') :
      c'.isInvalid (.ofNumber 7) = false := by
    refine discards.forgotten tidy.proper (held.symm ▸ crowd_sampleCrowd (by decide)) fun m member => ?_
    obtain ⟨time, _⟩ := number_of_mem_sampleCrowd (held ▸ member)
    exact Nat.ne_of_gt (by omega)
  have own := discards_discardInvalid (marked sampleCrowd) "k" (.ofNumber 7) 500
  obtain ⟨sound, absent⟩ := own.sound tidy.toSound
  refine ⟨forgotten _ own, ?_, forgotten⟩
  rcases sound.getOrCreate_cases absent 500 with ⟨invalid, _⟩ | ⟨_, c', b, taken, _⟩
  · exact absurd ((forgotten _ own).symm.trans invalid) Bool.false_ne_true
  · exact ⟨c', b, taken⟩

end BlobReplica.Cache
