import BlobReplica.Proofs.Blob.Coherent
import BlobReplica.Proofs.Node
import BlobReplica.Proofs.Recovery.Answer
import BlobReplica.Proofs.Recovery.Properties

/-! One attempt completes a blob that the service of the object answers: every gap is filled by the
range that was asked for it, and the headers bring the checksum and the times. -/

namespace BlobReplica

open Fragment (Publication)

namespace Blob

/-- The object of a complete blob, as it is published. -/
def published (a : Blob) : Publication :=
  ⟨a.key, a.version, a.properties, a.payload?.getD []⟩

variable {a b : Blob} {payload : Bytes} {headers : Http.Headers} {now : Millis} {g : Progress}
  {p : Publication}

/-- A blob has the times and the checksum of an object among its properties. -/
structure Told (b a : Blob) : Prop where
  start : b.property? Property.validFrom = some (toString a.validity.start)
  stop : b.property? Property.validUntil = some (toString a.validity.stop)
  created : b.property? Property.created = some (toString a.created)
  checksum : ∀ v, a.property? Property.contentMd5 = some v →
    b.property? Property.contentMd5 = some v

theorem Told.refresh (told : b.Told a) (bounded : a.Bounded) :
    b.refresh.validity = a.validity ∧ b.refresh.created = a.created := by
  simp only [Blob.refresh, told.start, told.stop, told.created, Option.bind_some,
    Millis.parse?_toString bounded.start, Millis.parse?_toString bounded.stop,
    Millis.parse?_toString bounded.created, Option.getD_some, and_self]

theorem told_applyHeaders (describes : Service.Describes headers a) (isOpen : b.isTerminal = false)
    (now : Millis) : (b.applyHeaders (Recovery.recoveredProperties headers) now).Told a := by
  rw [applyHeaders, if_neg (by simp [isOpen])]
  constructor
  · exact Recovery.lookup?_recoveredProperties describes.start (by constructor <;> decide) _
  · exact Recovery.lookup?_recoveredProperties describes.stop (by constructor <;> decide) _
  · exact Recovery.lookup?_recoveredProperties describes.created (by constructor <;> decide) _
  · intro v declared
    exact Recovery.lookup?_recoveredProperties (describes.checksum v declared)
      (by constructor <;> decide) _

/-- All of an object is in, and nothing is decided yet. -/
structure Supplied (b a : Blob) (payload : Bytes) : Prop where
  isOpen : b.isTerminal = false
  readable : b.metadataCorrupt = false
  headed : b.headersRecovered = true
  told : b.Told a
  whole : ∃ s : Assembly, b.payload = .assembling s ∧ s.isComplete = true ∧ s.bytes = payload

theorem Supplied.settle (supplied : b.Supplied a payload) (bounded : a.Bounded)
    (declared : a.declaredMd5? = some (Digest.md5Hex payload)) :
    b.settle.1.status = .complete ∧ b.settle.1.payload? = some payload ∧
      b.settle.1.validity = a.validity ∧ b.settle.1.created = a.created := by
  obtain ⟨s, assembling, full, rfl⟩ := supplied.whole
  obtain ⟨v, found, normal⟩ := Option.map_eq_some_iff.mp declared
  obtain ⟨validity, created⟩ := supplied.told.refresh bounded
  have checked : b.refresh.declaredMd5? = some (Digest.md5Hex s.bytes) := by
    have kept : b.refresh.property? Property.contentMd5 = some v := supplied.told.checksum v found
    rw [declaredMd5?, kept, Option.map_some, normal]
  have ready : (s.isComplete && b.refresh.metadataComplete) = true := by
    have headed : b.refresh.headersRecovered = true := supplied.headed
    rw [full, metadataComplete, headed, Bool.or_true, Bool.and_true]
  have held : b.refresh.payload = .assembling s := assembling
  rw [Blob.settle, if_neg (by simp [supplied.isOpen]), if_neg (by simp [supplied.readable])]
  simp only [held, ready, if_true, checked]
  exact ⟨trivial, rfl, validity, created⟩

theorem supplied_applyHeaders (describes : Service.Describes headers a) (isOpen : b.isTerminal = false)
    (now : Millis)
    (whole : ∃ s : Assembly, b.payload = .assembling s ∧ s.isComplete = true ∧ s.bytes = payload) :
    (b.applyHeaders (Recovery.recoveredProperties headers) now).Supplied a payload where
  isOpen := (advances_applyHeaders b _ now).isTerminal.trans isOpen
  readable := by rw [applyHeaders, if_neg (by simp [isOpen])]; rfl
  headed := by rw [applyHeaders, if_neg (by simp [isOpen])]; rfl
  told := told_applyHeaders describes isOpen now
  whole := by rw [applyHeaders, if_neg (by simp [isOpen])]; exact whole

theorem supplied_setPayload (describes : Service.Describes headers a) (isOpen : b.isTerminal = false)
    (payload : Bytes) (now : Millis) :
    ((b.applyHeaders (Recovery.recoveredProperties headers) now).setPayload payload now).Supplied a
      payload := by
  have told := told_applyHeaders describes isOpen now
  have still : (b.applyHeaders (Recovery.recoveredProperties headers) now).isTerminal = false :=
    (advances_applyHeaders b _ now).isTerminal.trans isOpen
  rw [setPayload, if_neg (by simp [still])]
  rw [applyHeaders, if_neg (by simp [isOpen])] at told still ⊢
  exact ⟨still, rfl, rfl, ⟨told.start, told.stop, told.created, told.checksum⟩,
    _, rfl, rfl, Assembly.bytes_ofBytes payload⟩

theorem Gathers.gaps {told : Properties} (gathers : b.Gathers p told g) {ranges : List ByteRange}
    (listed : b.missingRanges = some ranges) : g.begun ∧
      (∀ r ∈ ranges, r.start < r.stop ∧ r.stop ≤ p.payload.length) ∧
      ∀ i < p.payload.length, g.payload i ∨ ∃ r ∈ ranges, r.Has i := by
  have begun : g.begun := by
    by_contra unbegun
    simp [gathers.missingRanges_eq_none.mpr unbegun] at listed
  obtain ⟨a, payload, holds⟩ := gathers.assembling begun
  obtain rfl : a.missing.ranges = ranges := by
    simpa [missingRanges, payload] using listed
  refine ⟨begun, fun r member => ?_, fun i below => ?_⟩
  · have solid := holds.canonical.nonempty r member
    have last := (holds.missing (r.stop - 1)).mp (RangeSet.mem_iff.mpr ⟨r, member, by omega, by omega⟩)
    omega
  · by_cases arrived : g.payload i
    · exact .inl arrived
    · exact .inr (RangeSet.mem_iff.mp ((holds.missing i).mpr ⟨below, arrived⟩))

end Blob

namespace Progress

variable {g : Progress} {ranges : List ByteRange} {i : Nat}

theorem begun_foldl_supply : (ranges.foldl supply g).begun ↔ g.begun := by
  induction ranges generalizing g with
  | nil => rfl
  | cons r rest ih => exact ih

theorem payload_foldl_supply :
    (ranges.foldl supply g).payload i ↔ g.payload i ∨ ∃ r ∈ ranges, r.Has i := by
  induction ranges generalizing g with
  | nil => simp
  | cons r rest ih => simp [ih, supply, or_assoc]

end Progress

namespace Recovery

variable {a b c : Blob} {p : Publication} {g : Progress} {n : Node} {payload : Bytes}
  {request : FetchRequest} {r : FetchResponse} {ranges : List ByteRange} {now : Millis}

/-- Parts of the payload are written one after the other, and none is refused. -/
theorem addParts_partsOf (tracks : b.Tracks p g) (begun : g.begun)
    (inside : ∀ r ∈ ranges, r.start < r.stop ∧ r.stop ≤ p.payload.length) (now : Millis) :
    ∃ b', addParts now b (partsOf p.payload ranges) = (b', none) ∧ b.Same b' ∧
      b'.Tracks p (ranges.foldl Progress.supply g) := by
  induction ranges generalizing b g with
  | nil => exact ⟨b, rfl, .refl b, tracks⟩
  | cons r rest ih =>
    obtain ⟨solid, below⟩ := inside r List.mem_cons_self
    have stop : r.start + (p.payload.slice r.start r.stop).length = r.stop := by
      rw [Bytes.length_slice below]
      omega
    obtain ⟨next, filled, added, tracks', _⟩ :=
      tracks.addByteRange begun (stop ▸ below) (by rw [stop]) now
    rw [stop] at tracks'
    obtain ⟨b', written, same, final⟩ :=
      ih tracks' begun fun x member => inside x (List.mem_cons_of_mem _ member)
    refine ⟨b', ?_, (Blob.advances_addByteRange added).toSame.trans same, final⟩
    simp only [partsOf, List.map_cons, addParts, added]
    exact written

theorem exists_request (isOpen : b.isTerminal = false) : ∃ request, request? b = some request := by
  rw [request?, if_neg (by simp [isOpen])]
  split <;> exact ⟨_, rfl⟩

theorem request?_cases (asked : request? b = some request) :
    (b.missingRanges = none ∧ request = .full) ∨ (b.missingRanges = some [] ∧ request = .head) ∨
      ∃ ranges, ranges ≠ [] ∧ b.missingRanges = some ranges ∧ request = .ranges ranges := by
  rw [request?] at asked
  split at asked
  next => contradiction
  next =>
    split at asked
    next unknown => exact .inl ⟨unknown, (Option.some.inj asked).symm⟩
    next nothing => exact .inr (.inl ⟨nothing, (Option.some.inj asked).symm⟩)
    next ranges nonempty listed =>
      exact .inr (.inr ⟨ranges, nonempty, listed, (Option.some.inj asked).symm⟩)

theorem wanted_request (tracks : b.Tracks p g) (fits : g.begun → p.payload.length ≤ Text.maxWord)
    (asked : request? b = some request) : Wanted p.payload.length request := by
  rcases request?_cases asked with ⟨_, rfl⟩ | ⟨_, rfl⟩ | ⟨ranges, nonempty, listed, rfl⟩
  · trivial
  · trivial
  · obtain ⟨begun, inside, _⟩ := tracks.gaps listed
    exact ⟨nonempty, fun r member => (inside r member).1, fun r member => (inside r member).2,
      fits begun⟩

/-- Whatever was missing, the answer to the request for it supplies it. -/
theorem apply_answer (tracks : b.Tracks p g) (asked : request? b = some request)
    (answers : Answers r a p.payload request) (now : Millis) :
    ∃ c, apply b request r now = (c, none) ∧ b.Same c ∧ c.Supplied a p.payload := by
  have described := answers.describes
  have carried := answers.carries
  simp only [apply, answers.status, ne_eq, not_true_eq_false, if_false]
  rcases request?_cases asked with ⟨_, rfl⟩ | ⟨nothing, rfl⟩ | ⟨ranges, nonempty, listed, rfl⟩
  · have body : r.body = p.payload := carried
    refine ⟨_, rfl, (Blob.advances_applyHeaders b _ now).toSame.trans
      (Blob.advances_setPayload _ _ now).toSame, ?_⟩
    rw [body]
    exact Blob.supplied_setPayload described tracks.isOpen p.payload now
  · obtain ⟨begun, _, all⟩ := tracks.gaps nothing
    obtain ⟨s, held, holds⟩ := tracks.assembling begun
    have arrived : ∀ i < p.payload.length, g.payload i := fun i below => (all i below).resolve_right (by simp)
    refine ⟨_, rfl, (Blob.advances_applyHeaders b _ now).toSame, ?_⟩
    exact Blob.supplied_applyHeaders described tracks.isOpen now
      ⟨s, held, holds.isComplete_iff.mpr arrived, holds.bytes_eq arrived⟩
  · obtain ⟨begun, inside, all⟩ := tracks.gaps listed
    obtain ⟨b', written, same, tracks'⟩ := addParts_partsOf tracks begun inside now
    obtain ⟨s, held, holds⟩ := tracks'.assembling (Progress.begun_foldl_supply.mpr begun)
    have arrived : ∀ i < p.payload.length, (ranges.foldl Progress.supply g).payload i :=
      fun i below => Progress.payload_foldl_supply.mpr (all i below)
    refine ⟨b'.applyHeaders (recoveredProperties r.headers) now, ?_,
      same.trans (Blob.advances_applyHeaders b' _ now).toSame, ?_⟩
    · have parts : slices ranges r = .ok (partsOf p.payload ranges) := carried
      simp only [parts, written]
    · exact Blob.supplied_applyHeaders described tracks'.isOpen now
        ⟨s, held, holds.isComplete_iff.mpr arrived, holds.bytes_eq arrived⟩

/-- An attempt that made the whole object of a blob, which is stored and waits no more. -/
structure Completes (result : Node × Blob × Achievement) (a b : Blob) : Prop where
  achieved : result.2.2 = .completed
  same : b.Same result.2.1
  payload : result.2.1.payload? = a.payload?
  validity : result.2.1.validity = a.validity
  created : result.2.1.created = a.created
  stored : result.2.1 ∈ result.1.cache.versions a.key
  unqueued : result.1.queue.contains a.version = false

theorem attempt_eq (asked : request? b = some request) (applied : apply b request r now = (c, none))
    (decided : c.settle.1.status = .complete) :
    attempt n b (some r) now = (let m := (n.update c.settle.1).dequeue c.settle.1.version
      (m.withCache (m.cache.resort c.settle.1.key), c.settle.1, .completed)) := by
  simp only [attempt, asked, applied, decided]

theorem mem_versions_resort {d : Blob} (same : b.Same d) (stored : b ∈ n.cache.versions d.key) :
    d ∈ (((n.update d).dequeue d.version).cache.resort d.key).versions d.key := by
  rw [Cache.versions_resort, if_pos rfl, Cache.mem_sorted]
  show d ∈ (n.cache.update d).versions d.key
  rw [Cache.versions_update, if_pos rfl, List.mem_map]
  exact ⟨b, stored, if_pos same.copy.symm⟩

/-- However the fragments of an object left its gaps, one answered attempt closes them all. -/
theorem attempt_converges (reached : a.Reached) (complete : a.isComplete = true)
    (printable : ∀ e ∈ a.properties.entries, Text.IsPrintable e.2)
    (plain : ¬ Http.IsByteRanges a.contentType) {h : Blob.History}
    (grown : Blob.GrownFrom a.published b h) (isOpen : b.isTerminal = false)
    (stored : b ∈ n.cache.versions a.key) (separator : VersionId) (target : String)
    (now : Millis) :
    ∃ request, request? b = some request ∧
      Completes (attempt n b (some (answer a separator target request)) now) a b := by
  have coherent := reached.coherent
  obtain ⟨payload, whole, declared⟩ := coherent.verified complete
  have published : a.published.payload = payload := by simp [Blob.published, whole]
  cases Blob.stage_run coherent.distinct grown with
  | decided decides => simp [decides.isTerminal] at isOpen
  | ongoing tracks =>
    obtain ⟨request, asked⟩ := exists_request isOpen
    have fits : h.progress.begun → a.published.payload.length ≤ Text.maxWord := fun begun =>
      Nat.le_trans (Nat.le_of_lt (grown.length_lt begun)) (by decide)
    have wanted := wanted_request tracks fits asked
    rw [published] at wanted
    have answers := answers_answer separator target coherent.distinct printable whole plain wanted
    rw [← published] at answers
    obtain ⟨c, applied, grew, supplied⟩ := apply_answer tracks asked answers now
    rw [published] at supplied
    obtain ⟨status, bytes, validity, created⟩ := supplied.settle coherent.bounded declared
    have same := grew.trans (Blob.same_settle c)
    have key : c.settle.1.key = a.key := same.key.trans tracks.key
    have version : c.settle.1.version = a.version := same.version.trans tracks.version
    refine ⟨request, asked, ?_⟩
    rw [attempt_eq asked applied status]
    refine ⟨rfl, same, bytes.trans whole.symm, validity, created, ?_, ?_⟩
    · rw [← key] at stored ⊢
      exact mem_versions_resort same stored
    · refine Bool.eq_false_iff.mpr fun queued => ?_
      exact (Queue.contains_remove.mp queued).2 version.symm

def sampleObject : Blob where
  key := "k"
  version := .ofNumber 7
  arrived := 20
  status := .complete
  created := 20
  lastTouched := 20
  size := some 3
  properties := Publication.sample.properties
  headersRecovered := true
  payload := .verified Publication.sample.payload

/-- The middle byte has arrived, so there are two gaps and no metadata. -/
def samplePieces : List Blob.Operation :=
  [.merge ⟨"k", .ofNumber 7, .payload, 3, 1, [98]⟩ 30]

def sampleReplica : Blob × Blob.History :=
  (Blob.ofArrival "k" (.ofNumber 7) 30).run samplePieces

theorem attempt_converges_sample :
    sampleObject.Reached ∧ sampleObject.isComplete = true ∧
    (∀ e ∈ sampleObject.properties.entries, Text.IsPrintable e.2) ∧
    ¬ Http.IsByteRanges sampleObject.contentType ∧
    Blob.GrownFrom sampleObject.published sampleReplica.1 sampleReplica.2 ∧
    sampleReplica.1.isTerminal = false ∧
    ∃ request, request? sampleReplica.1 = some request ∧
      Completes (attempt
        { cache := Cache.empty.setVersions "k" [sampleReplica.1], queue := { grace := 10 } }
        sampleReplica.1 (some (answer sampleObject .zero "download/7" request)) 50)
        sampleObject sampleReplica.1 := by
  have reached : sampleObject.Reached :=
    ⟨"k", .ofNumber 7, 0, 20, [.applyHeaders Publication.sample.properties.entries 20,
      .setPayload Publication.sample.payload 20, .settle], by decide, by decide +kernel⟩
  have printable : ∀ e ∈ sampleObject.properties.entries, Text.IsPrintable e.2 := by decide +kernel
  have plain : ¬ Http.IsByteRanges sampleObject.contentType := by decide +kernel
  have grown : Blob.GrownFrom sampleObject.published sampleReplica.1 sampleReplica.2 :=
    ⟨0, 30, samplePieces, by decide +kernel, rfl⟩
  have isOpen : sampleReplica.1.isTerminal = false := by decide +kernel
  have stored : sampleReplica.1 ∈
      (Cache.empty.setVersions "k" [sampleReplica.1]).versions sampleObject.key := by
    have key : sampleObject.key = "k" := rfl
    rw [Cache.versions_setVersions, if_pos key]
    exact List.mem_singleton_self _
  exact ⟨reached, rfl, printable, plain, grown, isOpen,
    attempt_converges reached rfl printable plain grown isOpen stored .zero "download/7" 50⟩

end Recovery
end BlobReplica
