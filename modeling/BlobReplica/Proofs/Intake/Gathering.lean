import BlobReplica.Proofs.Cache.Order
import BlobReplica.Proofs.Datagram.Reading
import BlobReplica.Proofs.Fragment.Split
import BlobReplica.Proofs.Intake.Steps

/-! What a cache has of a publication after some of its fragments have come. All fragments come at one
time, in any order and however often; which of them have come tells whether the publication is stored,
how far it has got, and which times its blob has. -/

namespace BlobReplica

open Fragment (Publication)

/-! ### Times -/

/-- The time that a property tells. -/
def Properties.time? (ps : Properties) (name : String) : Option Millis :=
  (ps.lookup? name).bind Millis.parse?

/-- What a version list shows of a blob. -/
structure Brief where
  version : VersionId
  status : Status
  start : Millis
  created : Millis
deriving DecidableEq

/-- With the times that properties tell of a blob whose first piece came at `now`. -/
def Brief.of (version : VersionId) (status : Status) (ps : Properties) (now : Millis) : Brief :=
  ⟨version, status, (ps.time? Property.validFrom).getD 0, (ps.time? Property.created).getD now⟩

namespace Blob

variable {b m s : Blob} {p : Publication} {told : Properties} {g : Progress} {f : Fragment}
  {now : Millis} {filled : Nat}

def brief (b : Blob) : Brief :=
  ⟨b.version, b.status, b.validity.start, b.created⟩

/-- The first piece of the blob came at `now`, and its times are those that its properties tell. -/
structure Timed (b : Blob) (now : Millis) : Prop where
  arrived : b.arrived = now
  start : b.validity.start = (b.properties.time? Property.validFrom).getD 0
  created : b.created = (b.properties.time? Property.created).getD now

theorem Timed.brief_eq (timed : b.Timed now) : b.brief = .of b.version b.status b.properties now := by
  rw [brief, Brief.of, timed.start, timed.created]

theorem timed_refresh (arrived : b.arrived = now) : b.refresh.Timed now where
  arrived := arrived
  start := rfl
  created := arrived ▸ rfl

theorem timed_ofArrival (key : String) (version : VersionId) (copy : Nat) (now : Millis) :
    { ofArrival key version now with copy }.Timed now :=
  ⟨rfl, rfl, rfl⟩

theorem Gathers.properties_cases (gathers : b.Gathers p told g) :
    (g.MetadataComplete p ∧ b.properties = told) ∨ (¬ g.MetadataComplete p ∧ b.properties = {}) := by
  cases decoded : b.metadataDecoded with
  | true =>
    obtain ⟨same, all⟩ := gathers.decoded decoded
    exact .inl ⟨all, same⟩
  | false =>
    obtain ⟨empty, _, i, below, absent⟩ := gathers.reading decoded
    exact .inr ⟨fun all => absent (all i below), empty⟩

/-- With one more fragment an open blob learns its properties, or it has the same ones. -/
theorem Gathers.learnt (gathers : b.Gathers p told g) (gathers' : m.Gathers p told (g.add f)) :
    b.properties = {} ∨ b.properties = m.properties := by
  rcases gathers.properties_cases with ⟨all, same⟩ | ⟨_, unread⟩
  · rcases gathers'.properties_cases with ⟨_, same'⟩ | ⟨partly, _⟩
    · exact .inr (same.trans same'.symm)
    · exact absurd (all.add f) partly
  · exact .inl unread

end Blob

/-! ### Progress -/

namespace Fragment.Publication

variable {p : Publication} {came came' : List Fragment} {f : Fragment} {now : Millis}

def Unseen (p : Publication) (came : List Fragment) : Prop :=
  ∀ f ∈ came, f.version ≠ p.version

theorem unseen_concat : p.Unseen (came ++ [f]) ↔ p.Unseen came ∧ f.version ≠ p.version := by
  simp [Unseen, or_imp, forall_and]

/-- How far the publication has got after some fragments, its own and others. -/
def progress (p : Publication) (came : List Fragment) : Progress :=
  .ofSet fun f => f ∈ came ∧ f.version = p.version

theorem progress_own (own : f.version = p.version) :
    p.progress (came ++ [f]) = (p.progress came).add f := by
  rw [progress, progress, Progress.ofSet_add]
  refine Progress.ofSet_congr fun g => ?_
  rw [List.mem_append, List.mem_singleton, or_and_right]
  refine or_congr_right (and_iff_left_of_imp ?_)
  rintro rfl
  exact own

theorem progress_foreign (foreign : f.version ≠ p.version) :
    p.progress (came ++ [f]) = p.progress came := by
  rw [progress, progress]
  refine Progress.ofSet_congr fun g => ?_
  rw [List.mem_append, List.mem_singleton, or_and_right]
  refine or_iff_left ?_
  rintro ⟨rfl, own⟩
  exact foreign own

theorem progress_unseen (unseen : p.Unseen came) : p.progress came = .start := by
  rw [progress, ← Progress.ofSet_none]
  exact Progress.ofSet_congr fun f => ⟨fun ⟨member, own⟩ => unseen f member own, False.elim⟩

theorem seen_of_complete (complete : (p.progress came).Complete p) : ¬ p.Unseen came := by
  intro unseen
  obtain ⟨f, ⟨member, own⟩, _⟩ := complete.begun
  exact unseen f member own

theorem progress_congr (same : ∀ f, f ∈ came ↔ f ∈ came') : p.progress came = p.progress came' := by
  rw [progress, progress]
  refine Progress.ofSet_congr fun f => ?_
  rw [same]

open Classical in
/-- What a cache shows of the publication after some fragments: its times are known once its metadata
has come, and it is decided once all of it has. -/
noncomputable def shown (p : Publication) (now : Millis) (came : List Fragment) : Option Brief :=
  if p.Unseen came then none
  else if (p.progress came).Complete p then
    if p.told.Declare p.payload then some (.of p.version .complete p.told now) else none
  else some (.of p.version .partiallyReceived
    (if (p.progress came).MetadataComplete p then p.told else .empty) now)

theorem shown_congr (same : ∀ f, f ∈ came ↔ f ∈ came') : p.shown now came = p.shown now came' := by
  have unseen : p.Unseen came = p.Unseen came' := by simp only [Unseen, same]
  rw [shown, shown, progress_congr same, unseen]

end Fragment.Publication

/-! ### Caches -/

namespace Cache

variable {c c' c'' : Cache} {b b' : Blob} {p : Publication} {key : String} {version : VersionId}
  {r r' : Option Blob} {now : Millis} {came : List Fragment} {f : Fragment}

theorem version_of_find? (found : c.find? key version = some b) : b.version = version := by
  simpa using List.find?_some found

/-- A tidy cache that finds this under one key and version, and elsewhere what another one finds. -/
structure Sets (c : Cache) (key : String) (version : VersionId) (r : Option Blob) (c' : Cache) : Prop
    extends c'.Tidy where
  found : ∀ k v, c'.find? k v = if k = key ∧ v = version then r else c.find? k v

theorem Sets.find? (sets : c.Sets key version r c') : c'.find? key version = r := by
  rw [sets.found, if_pos ⟨rfl, rfl⟩]

theorem Sets.trans (first : c.Sets key version r c') (second : c'.Sets key version r' c'') :
    c.Sets key version r' c'' where
  toTidy := second.toTidy
  found k v := by
    rw [second.found, first.found]
    split <;> rfl

namespace Tidy

theorem sets_self (tidy : c.Tidy) (key : String) (version : VersionId) :
    c.Sets key version (c.find? key version) c where
  toTidy := tidy
  found k v := by
    split
    next here => rw [here.1, here.2]
    next => rfl

theorem sets_update (tidy : c.Tidy) (stored : c.find? key version = some b) (same : b.Same b') :
    c.Sets key version (some b') (c.update b') := by
  obtain ⟨listed, named⟩ := tidy.toSound.find?_eq_some.mp stored
  have keyed := tidy.keyed key b listed
  have place : c.find? b'.key b'.version = some b := by
    rw [same.key, same.version, keyed, named, stored]
  refine ⟨tidy.update (tidy.toSound.shows ⟨key, listed⟩) same, fun k v => ?_⟩
  rw [(tidy.toSound.update place same.copy.symm).2, same.key, same.version, keyed, named]

theorem sets_resort (tidy : c.Tidy) (key : String) (version : VersionId) (k : String) :
    c.Sets key version (c.find? key version) (c.resort k) where
  toTidy := tidy.resort k
  found k' v := by
    rw [(tidy.toSound.resort k).2]
    exact (tidy.sets_self key version).found k' v

theorem sets_discard (tidy : c.Tidy) (key : String) (version : VersionId) (now : Millis) :
    c.Sets key version none (c.discardInvalid key version now).1 where
  toTidy := tidy.discardInvalid key version now
  found := (tidy.toSound.discardInvalid key version now).2

end Tidy

/-- What a cache has of a publication of which some fragments have come, all of them at `now`. -/
inductive Reflects (c : Cache) (p : Publication) (now : Millis) (came : List Fragment) : Prop where
  | absent (unseen : p.Unseen came)
      (unstored : c.find? p.key p.version = none) (unmarked : c.isInvalid p.version = false)
  /-- Something is missing. -/
  | ongoing (seen : ¬ p.Unseen came) (lacking : ¬ (p.progress came).Complete p) {b : Blob}
      (stored : c.find? p.key p.version = some b) (status : b.status = .partiallyReceived)
      (gathers : b.Gathers p p.told (p.progress came)) (timed : b.Timed now)
      (unmarked : c.isInvalid p.version = false)
  /-- Nothing is missing, and the checksum was right. -/
  | kept (complete : (p.progress came).Complete p) (intact : p.told.Declare p.payload) {b : Blob}
      (stored : c.find? p.key p.version = some b) (status : b.status = .complete)
      (properties : b.properties = p.told) (timed : b.Timed now)
  /-- Nothing is missing, and the checksum was wrong. -/
  | discarded (complete : (p.progress came).Complete p) (corrupt : ¬ p.told.Declare p.payload)
      (unstored : c.find? p.key p.version = none) (marked : c.isInvalid p.version = true)

namespace Reflects

theorem empty (p : Publication) (now : Millis) : Cache.empty.Reflects p now [] :=
  .absent (by simp [Publication.Unseen]) rfl rfl

/-- Which fragments have come tells what the cache shows. -/
theorem shown (reflects : c.Reflects p now came) :
    (c.find? p.key p.version).map Blob.brief = p.shown now came := by
  rw [Publication.shown]
  cases reflects with
  | absent unseen unstored =>
    rw [if_pos unseen, unstored]
    rfl
  | ongoing seen lacking stored status gathers timed =>
    rw [if_neg seen, if_neg lacking, stored, Option.map_some, timed.brief_eq, status, gathers.version]
    rcases gathers.properties_cases with ⟨all, same⟩ | ⟨partly, same⟩
    · rw [if_pos all, same]
    · rw [if_neg partly, same]
      rfl
  | kept complete intact stored status properties timed =>
    rw [if_neg (Publication.seen_of_complete complete), if_pos complete, if_pos intact, stored,
      Option.map_some, timed.brief_eq, status, properties, version_of_find? stored]
  | discarded complete corrupt unstored =>
    rw [if_neg (Publication.seen_of_complete complete), if_pos complete, if_neg corrupt, unstored]
    rfl

theorem frame (reflects : c.Reflects p now came)
    (found : c'.find? p.key p.version = c.find? p.key p.version)
    (marked : c'.isInvalid p.version = c.isInvalid p.version) (foreign : f.version ≠ p.version) :
    c'.Reflects p now (came ++ [f]) := by
  have same : p.progress (came ++ [f]) = p.progress came := Publication.progress_foreign foreign
  have unseen : p.Unseen (came ++ [f]) ↔ p.Unseen came :=
    Publication.unseen_concat.trans (and_iff_left foreign)
  cases reflects with
  | absent nothing unstored unmarked =>
    exact .absent (unseen.mpr nothing) (found.trans unstored) (marked.trans unmarked)
  | ongoing seen lacking stored status gathers timed unmarked =>
    exact .ongoing (unseen.not.mpr seen) (same ▸ lacking) (found.trans stored) status (same ▸ gathers)
      timed (marked.trans unmarked)
  | kept complete intact stored status properties timed =>
    exact .kept (same ▸ complete) intact (found.trans stored) status properties timed
  | discarded complete corrupt unstored invalid =>
    exact .discarded (same ▸ complete) corrupt (found.trans unstored) (marked.trans invalid)

end Reflects
end Cache

end BlobReplica
