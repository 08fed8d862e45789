import BlobReplica.Proofs.Intake.Gathering

/-! Fragments of a family of publications that all come at one time: what each of them makes of a cache
that mirrors those before it. -/

namespace BlobReplica

open Fragment (Publication)

/-! ### Places -/

/-- Incomplete, valid from the beginning, and created at another time than it arrived. Such a blob has
learnt its creation where it stood. -/
def Brief.Loose (now : Millis) (x : Brief) : Prop :=
  x.status ≠ .complete ∧ x.start = 0 ∧ x.created ≠ now

instance (now : Millis) (x : Brief) : Decidable (x.Loose now) :=
  inferInstanceAs (Decidable (_ ∧ _ ∧ _))

namespace Blob

variable {b s : Blob} {now : Millis}

def placed (now : Millis) (b : Blob) : Bool :=
  !decide (b.brief.Loose now)

theorem placed_iff : b.placed now = true ↔ ¬ b.brief.Loose now := by
  simp [placed]

/-- A blob that learns its properties and keeps its start has kept its place, unless it is loose. -/
theorem placed_of_learnt (timed : b.Timed now) (timed' : s.Timed now)
    (incomplete : s.status ≠ .complete)
    (start : s.validity.start = b.validity.start)
    (learnt : b.properties = {} ∨ b.properties = s.properties) (placed : s.placed now = true) :
    b.placed now = true ∧ s.created = b.created := by
  have created : s.created = b.created := by
    rcases learnt with unread | same
    · have begun : b.validity.start = 0 := by rw [timed.start, unread]; rfl
      have arrived : b.created = now := by rw [timed.created, unread]; rfl
      rw [arrived]
      by_contra other
      exact placed_iff.mp placed ⟨incomplete, start.trans begun, other⟩
    · rw [timed'.created, timed.created, same]
  refine ⟨placed_iff.mpr fun loose => placed_iff.mp placed ?_, created⟩
  exact ⟨incomplete, start.trans loose.2.1, fun arrived => loose.2.2 (created.symm.trans arrived)⟩

end Blob

/-! ### Fragments -/

namespace Intake

variable {n : Node} {m : Blob} {start now : Millis}

theorem cache_conclude (isOpen : m.isTerminal = false) (i : Intake) (n : Node) (start now : Millis) :
    (m.settle.1.isTerminal = false → (i.conclude n m start now).1.cache =
      if m.settle.1.validity.start = start then n.cache.update m.settle.1
      else (n.cache.update m.settle.1).resort m.settle.1.key) ∧
    (m.settle.1.status = .complete → (i.conclude n m start now).1.cache =
      (n.cache.update m.settle.1).resort m.settle.1.key) ∧
    (m.settle.1.status = .checksumInvalid → (i.conclude n m start now).1.cache =
      ((n.cache.update m.settle.1).discardInvalid m.settle.1.key m.settle.1.version now).1) := by
  have concluded := i.concludes isOpen n start now
  generalize i.conclude n m start now = r at concluded
  obtain ⟨n', o⟩ := r
  cases concluded with
  | pending lacking =>
    obtain ⟨incomplete, uncorrupt⟩ := Blob.status_of_isOpen lacking
    refine ⟨fun _ => cache_await i _ _ start, ?_, ?_⟩
    · exact fun complete => absurd complete incomplete
    · exact fun corrupt => absurd corrupt uncorrupt
  | completed complete =>
    have decided : m.settle.1.isTerminal = true := Blob.isTerminal_iff.mpr (.inl complete)
    refine ⟨?_, ?_, ?_⟩
    · intro lacking
      simp [decided] at lacking
    · intro _
      show (i.leave (n.update m.settle.1) _).cache.resort _ = _
      rw [cache_leave]
      rfl
    · intro corrupt
      simp [complete] at corrupt
  | invalid corrupt =>
    have decided : m.settle.1.isTerminal = true := Blob.isTerminal_iff.mpr (.inr corrupt)
    refine ⟨?_, ?_, ?_⟩
    · intro lacking
      simp [decided] at lacking
    · intro complete
      simp [corrupt] at complete
    · intro _
      show ((i.leave (n.update m.settle.1) _).cache.discardInvalid _ _ now).1 = _
      rw [cache_leave]
      rfl

end Intake

namespace Cache

variable {c c' : Cache} {b m : Blob} {p : Publication} {now start : Millis} {came : List Fragment}
  {f : Fragment} {versions : List VersionId}

/-- A cache after one more fragment of a publication, in which others have what they had. -/
structure Advances (c : Cache) (p : Publication) (now : Millis) (came : List Fragment)
    (versions : List VersionId) (c' : Cache) : Prop where
  sets : ∃ r, c.Sets p.key p.version r c'
  within : c'.marks.Within versions
  marked : ∀ v, v ≠ p.version → c'.isInvalid v = c.isInvalid v
  reflects : c'.Reflects p now came
  ordered : c'.Ordered (Blob.placed now)

/-- A cache in which an undecided publication has a blob, an old one or a new one. -/
structure Opens (c : Cache) (p : Publication) (now : Millis) (came : List Fragment) (b : Blob)
    (c' : Cache) : Prop where
  sets : c.Sets p.key p.version (some b) c'
  marks : c'.marks = c.marks
  unmarked : c.isInvalid p.version = false
  gathers : b.Gathers p p.told (p.progress came)
  timed : b.Timed now
  ordered : c'.Ordered (Blob.placed now)

theorem Reflects.opens (reflects : c.Reflects p now came) (tidy : c.Tidy)
    (ordered : c.Ordered (Blob.placed now)) (lacking : ¬ (p.progress came).Complete p) :
    ∃ c' b isNew, c.getOrCreate p.key p.version now = .ok (c', b, isNew) ∧ c.Opens p now came b c' := by
  cases reflects with
  | absent unseen unstored unmarked =>
    obtain ⟨c', inserted, _, marks, find⟩ := tidy.toSound.insert
      (b := .ofArrival p.key p.version now) unstored unmarked
    refine ⟨c', _, true, inserted, ⟨tidy.insert inserted, find⟩, marks, unmarked, ?_,
      Blob.timed_ofArrival _ _ _ now, ordered.insert inserted⟩
    rw [Publication.progress_unseen unseen]
    exact Blob.gathers_ofArrival p p.told c.copies now
  | @ongoing _ _ b stored _ gathers timed unmarked =>
    refine ⟨c, b, false, ?_, stored ▸ tidy.sets_self _ _, rfl, unmarked, gathers, timed, ordered⟩
    rw [getOrCreate, Cache.insert]
    simp only [Blob.ofArrival, stored]
  | kept complete => exact absurd complete lacking
  | discarded complete => exact absurd complete lacking

namespace Opens

variable {n : Node} {filled : Nat}

theorem shows (opens : c.Opens p now came b c') : c'.Shows b :=
  opens.sets.toSound.shows ⟨p.key, List.mem_of_find?_eq_some opens.sets.find?⟩

theorem advances_of {s : Blob} {c'' : Cache} (opens : c.Opens p now came b c')
    (within : c.marks.Within versions) (sets : c'.Sets p.key p.version (some s) c'')
    (marks : c''.marks = c'.marks) (ordered : c''.Ordered (Blob.placed now))
    (reflects : c''.isInvalid p.version = false → c''.Reflects p now (came ++ [f])) :
    c.Advances p now (came ++ [f]) versions c'' := by
  have kept : c''.marks = c.marks := marks.trans opens.marks
  have unmarked (v : VersionId) : c''.isInvalid v = c.isInvalid v := by
    rw [isInvalid, kept]
    rfl
  exact ⟨⟨_, opens.sets.trans sets⟩, kept ▸ within, fun v _ => unmarked v,
    reflects ((unmarked _).trans opens.unmarked), ordered⟩

theorem advances_keep {s : Blob} (opens : c.Opens p now came b c') (within : c.marks.Within versions)
    (same : b.Same s) (start : s.validity.start = b.validity.start)
    (place : s.placed now = true → b.placed now = true ∧ s.created = b.created)
    (reflects : ∀ {c'' : Cache}, c''.find? p.key p.version = some s →
      c''.isInvalid p.version = false → c''.Reflects p now (came ++ [f])) :
    c.Advances p now (came ++ [f]) versions (c'.update s) := by
  have updated := opens.sets.toTidy.sets_update opens.sets.find? same
  exact opens.advances_of within updated (marks_update c' s)
    (opens.ordered.keep opens.sets.toSound opens.shows same start place) (reflects updated.find?)

theorem advances_place {s : Blob} (opens : c.Opens p now came b c') (within : c.marks.Within versions)
    (same : b.Same s)
    (reflects : ∀ {c'' : Cache}, c''.find? p.key p.version = some s →
      c''.isInvalid p.version = false → c''.Reflects p now (came ++ [f])) :
    c.Advances p now (came ++ [f]) versions ((c'.update s).resort s.key) := by
  have updated := opens.sets.toTidy.sets_update opens.sets.find? same
  have resorted := updated.toTidy.sets_resort p.key p.version s.key
  rw [updated.find?] at resorted
  exact opens.advances_of within (updated.trans resorted)
    ((marks_resort _ _).trans (marks_update c' s)) (opens.ordered.place s) (reflects resorted.find?)

theorem advances_discard {s : Blob} (opens : c.Opens p now came b c')
    (within : c.marks.Within versions) (room : versions.length ≤ Marks.bound)
    (known : p.version ∈ versions) (same : b.Same s)
    (complete : (p.progress (came ++ [f])).Complete p) (corrupt : ¬ p.told.Declare p.payload) :
    c.Advances p now (came ++ [f]) versions
      ((c'.update s).discardInvalid s.key s.version now).1 := by
  have tidy := opens.sets.toTidy
  have gone : ((c'.update s).discardInvalid s.key s.version now).1 =
      (c'.discardInvalid p.key p.version now).1 := by
    rw [same.key, same.version, tidy.discard_update opens.shows same,
      opens.gathers.key, opens.gathers.version]
  have sets := tidy.sets_discard p.key p.version now
  have marks : (c'.discardInvalid p.key p.version now).1.marks = c.marks.add p.version now := by
    rw [marks_discardInvalid, opens.marks]
  obtain ⟨within', contains⟩ := within.add room known now
  have marked (v : VersionId) : (c'.discardInvalid p.key p.version now).1.isInvalid v = true ↔
      c.isInvalid v = true ∨ v = p.version := by
    rw [isInvalid, marks]
    exact contains v
  rw [gone]
  refine ⟨⟨none, opens.sets.trans sets⟩, marks ▸ within', fun v other => ?_,
    .discarded complete corrupt sets.find? ((marked _).mpr (.inr rfl)), ?_⟩
  · exact Bool.eq_iff_iff.mpr ((marked v).trans (or_iff_left other))
  · have unmarked : (c'.markInvalid p.version now).Ordered (Blob.placed now) := opens.ordered
    exact unmarked.remove (tidy.toSound.markInvalid p.version now) p.key p.version

/-- A fragment of an undecided publication is merged into its blob. -/
theorem advances (opens : c.Opens p now came b c') (within : c.marks.Within versions)
    (room : versions.length ≤ Marks.bound) (known : p.version ∈ versions) (slice : f.SliceOf p)
    (merged : b.merge f now = .ok (m, filled)) (gathers : m.Gathers p p.told (p.progress (came ++ [f])))
    (i : Intake) (n : Node) (here : n.cache = c') :
    c.Advances p now (came ++ [f]) versions (i.conclude n m b.validity.start now).1.cache := by
  have same := (Blob.advances_merge merged).toSame
  have settled := same.trans (Blob.same_settle m)
  have timed : m.refresh.Timed now := Blob.timed_refresh (same.arrived.trans opens.timed.arrived)
  obtain ⟨pending, completed, invalid⟩ := Intake.cache_conclude gathers.isOpen i n b.validity.start now
  rw [here] at pending completed invalid
  by_cases complete : (p.progress (came ++ [f])).Complete p
  · obtain ⟨properties, verified, discarded⟩ := gathers.settle_complete complete
    by_cases intact : p.told.Declare p.payload
    · rw [verified intact] at completed settled
      rw [completed rfl]
      apply opens.advances_place within settled
      intro c'' stored _
      exact .kept complete intact stored rfl properties ⟨timed.arrived, timed.start, timed.created⟩
    · rw [discarded intact] at invalid settled
      rw [invalid rfl]
      exact opens.advances_discard within room known settled complete intact
  · have seen : ¬ p.Unseen (came ++ [f]) := fun unseen =>
      (Publication.unseen_concat.mp unseen).2 slice.version
    have begun := Blob.status_merge opens.gathers.isOpen merged
    have status : m.refresh.status = .partiallyReceived := begun
    have reflects {c'' : Cache} (stored : c''.find? p.key p.version = some m.refresh)
        (unmarked : c''.isInvalid p.version = false) : c''.Reflects p now (came ++ [f]) :=
      .ongoing seen complete stored status gathers.refresh timed unmarked
    rw [gathers.settle_open complete] at pending settled
    rw [pending gathers.isOpen]
    split
    next start =>
      apply opens.advances_keep within settled start _ reflects
      rw [Publication.progress_own slice.version] at gathers
      exact Blob.placed_of_learnt opens.timed timed (by simp [status]) start
        (opens.gathers.learnt gathers.refresh)
    next => exact opens.advances_place within settled reflects

end Opens

theorem Reflects.again (reflects : c.Reflects p now came) (slice : f.SliceOf p)
    (complete : (p.progress came).Complete p) (i : Intake) {n : Node} (here : n.cache = c) :
    (i.fragment n f now).1.cache = c ∧ c.Reflects p now (came ++ [f]) := by
  subst here
  have still : (p.progress (came ++ [f])).Complete p := by
    rw [Publication.progress_own slice.version]
    exact complete.add f
  rw [Intake.fragment, slice.key, slice.version, getOrCreate, Cache.insert]
  cases reflects with
  | absent unseen => exact absurd unseen (Publication.seen_of_complete complete)
  | ongoing _ lacking => exact absurd complete lacking
  | @kept _ intact b stored status properties timed =>
    have decided : b.isTerminal = true := Blob.isTerminal_iff.mpr (.inl status)
    refine ⟨?_, .kept still intact stored status properties timed⟩
    simp only [Blob.ofArrival, stored, decided, if_true]
    rfl
  | discarded _ corrupt unstored marked =>
    refine ⟨?_, .discarded still corrupt unstored marked⟩
    simp only [Blob.ofArrival, unstored, marked, if_true]

theorem Reflects.fragment (reflects : c.Reflects p now came) (tidy : c.Tidy)
    (ordered : c.Ordered (Blob.placed now)) (within : c.marks.Within versions)
    (room : versions.length ≤ Marks.bound) (known : p.version ∈ versions) (slice : f.SliceOf p)
    (i : Intake) {n : Node} (here : n.cache = c) :
    c.Advances p now (came ++ [f]) versions (i.fragment n f now).1.cache := by
  by_cases complete : (p.progress came).Complete p
  · obtain ⟨same, reflects'⟩ := reflects.again slice complete i here
    rw [same]
    exact ⟨⟨_, tidy.sets_self _ _⟩, within, fun _ _ => rfl, reflects', ordered⟩
  · obtain ⟨c', b, isNew, created, opens⟩ := reflects.opens tidy ordered complete
    obtain ⟨m, filled, merged, gathers, _⟩ := opens.gathers.merge slice now
    rw [← Publication.progress_own slice.version] at gathers
    have advances := opens.advances within room known slice merged gathers i (n.withCache c') rfl
    have concluded : i.fragment n f now = i.conclude (n.withCache c') m b.validity.start now := by
      subst here
      simp only [Intake.fragment, slice.key, slice.version, created, opens.gathers.isOpen, merged]
      rfl
    rwa [concluded]

/-! ### Families -/

variable {family : List Publication}

/-- A cache to which some fragments of a family of publications have come, all of them at `now`. -/
structure Mirrors (c : Cache) (family : List Publication) (now : Millis) (came : List Fragment) : Prop
    extends c.Tidy where
  within : c.marks.Within (family.map (·.version))
  reflects : ∀ p ∈ family, c.Reflects p now came
  own : ∀ k v, c.find? k v ≠ none → ∃ p ∈ family, k = p.key ∧ v = p.version
  ordered : c.Ordered (Blob.placed now)

namespace Mirrors

theorem empty (family : List Publication) (now : Millis) : Cache.empty.Mirrors family now [] where
  toTidy := tidy_empty
  within := Marks.within_nil _
  reflects p _ := .empty p now
  own _ _ found := absurd rfl found
  ordered := ordered_empty _

theorem fragment (mirrors : c.Mirrors family now came) (apart : (family.map (·.version)).Nodup)
    (few : family.length ≤ Marks.bound) (member : p ∈ family) (slice : f.SliceOf p) (i : Intake)
    {n : Node} (here : n.cache = c) :
    (i.fragment n f now).1.cache.Mirrors family now (came ++ [f]) := by
  have room : (family.map (·.version)).length ≤ Marks.bound := by rwa [List.length_map]
  have advances := (mirrors.reflects p member).fragment mirrors.toTidy mirrors.ordered mirrors.within
    room (List.mem_map_of_mem member) slice i here
  obtain ⟨r, sets⟩ := advances.sets
  refine ⟨sets.toTidy, advances.within, fun q other => ?_, fun k v found => ?_, advances.ordered⟩
  · by_cases same : q.version = p.version
    · exact List.inj_on_of_nodup_map apart other member same ▸ advances.reflects
    · have foreign : f.version ≠ q.version := fun own => same (own.symm.trans slice.version)
      refine (mirrors.reflects q other).frame ?_ (advances.marked q.version same) foreign
      rw [sets.found, if_neg fun here => same here.2]
  · by_cases same : k = p.key ∧ v = p.version
    · exact ⟨p, member, same⟩
    · rw [sets.found, if_neg same] at found
      exact mirrors.own k v found

end Mirrors
end Cache
end BlobReplica
