import BlobReplica.Blob
import BlobReplica.Proofs.Assembly
import BlobReplica.Proofs.Fragment.Slice
import BlobReplica.Proofs.Property

/-! The progress of a blob that takes in true slices of one publication. While it is open its two
assemblies hold the publication's bytes at the positions that have arrived, the metadata is read
as soon as all of it is there, and settling decides the blob exactly when nothing is missing. -/

namespace BlobReplica

open Fragment (Publication)

/-- Whether the properties of a publication declare the checksum of its payload. -/
def Fragment.Publication.Intact (p : Publication) : Prop :=
  (p.properties.lookup? Property.contentMd5).map Property.normalizeMd5 =
    some (Digest.md5Hex p.payload)

instance (p : Publication) : Decidable p.Intact :=
  inferInstanceAs (Decidable (_ = _))

/-- The properties that reading the metadata of a publication gives. They are its own, unless two of its
names differ in nothing but the case of letters. -/
def Fragment.Publication.told (p : Publication) : Properties :=
  p.properties.entries.foldl (fun ps e => ps.assign e.1 e.2) {}

theorem Fragment.Publication.told_eq {p : Publication} (distinct : p.properties.DistinctNames) :
    p.told = p.properties :=
  Properties.foldl_assign_entries distinct

def Properties.Declare (ps : Properties) (payload : Bytes) : Prop :=
  (ps.lookup? Property.contentMd5).map Property.normalizeMd5 = some (Digest.md5Hex payload)

/-- What deciding a publication tells. -/
def Fragment.Publication.verdict (p : Publication) : String :=
  if p.Intact then "Complete" else "ChecksumInvalid"

/-- What has arrived of a publication. -/
structure Progress where
  /-- A fragment of the payload has come and told its length. -/
  begun : Prop
  payload : Nat → Prop
  metadata : Nat → Prop

namespace Progress

def start : Progress :=
  ⟨False, fun _ => False, fun _ => False⟩

/-- All of the metadata has arrived. -/
def MetadataComplete (g : Progress) (p : Publication) : Prop :=
  ∀ i < (Metadata.encode p.properties).length, g.metadata i

/-- Nothing of the publication is missing. -/
structure Complete (g : Progress) (p : Publication) : Prop where
  begun : g.begun
  payload : ∀ i < p.payload.length, g.payload i
  metadata : ∀ i < (Metadata.encode p.properties).length, g.metadata i

open Classical in
/-- The positions of the payload that have arrived. -/
noncomputable def arrived (g : Progress) (p : Publication) : Finset Nat :=
  (Finset.range p.payload.length).filter g.payload

theorem covered_missing {g : Progress} {p : Publication} {a : Assembly}
    (holds : a.Holds p.payload g.payload) :
    a.missing.covered + (g.arrived p).card = p.payload.length := by
  classical
  have count := holds.covered_missing
  exact count

/-- With a range of the payload that arrives after its length is known. -/
def supply (g : Progress) (r : ByteRange) : Progress :=
  { g with payload := fun i => g.payload i ∨ r.Has i }

theorem mem_arrived {g : Progress} {p : Publication} {i : Nat} :
    i ∈ g.arrived p ↔ i < p.payload.length ∧ g.payload i := by
  simp [arrived]

theorem arrived_start (p : Publication) : start.arrived p = ∅ :=
  Finset.eq_empty_of_forall_notMem fun _ member => (mem_arrived.mp member).2

def add (g : Progress) (f : Fragment) : Progress :=
  match f.sectionKind with
  | .metadata => { g with metadata := fun i => g.metadata i ∨ f.range.Has i }
  | .payload => { g.supply f.range with begun := True }

theorem arrived_add_metadata {f : Fragment} (kind : f.sectionKind = .metadata) (g : Progress)
    (p : Publication) : (g.add f).arrived p = g.arrived p := by
  rw [add, kind]
  rfl

theorem Complete.supply {g : Progress} {p : Publication} (complete : g.Complete p) (r : ByteRange) :
    (g.supply r).Complete p :=
  ⟨complete.begun, fun i below => .inl (complete.payload i below), complete.metadata⟩

theorem MetadataComplete.add {g : Progress} {p : Publication} (complete : g.MetadataComplete p)
    (f : Fragment) : (g.add f).MetadataComplete p := by
  rw [Progress.add]
  cases f.sectionKind with
  | metadata => exact fun i below => .inl (complete i below)
  | payload => exact complete

theorem Complete.add {g : Progress} {p : Publication} (complete : g.Complete p) (f : Fragment) :
    (g.add f).Complete p := by
  rw [Progress.add]
  cases f.sectionKind with
  | metadata => exact ⟨complete.begun, complete.payload, fun i below => .inl (complete.metadata i below)⟩
  | payload => exact ⟨trivial, (complete.supply f.range).payload, complete.metadata⟩

end Progress

namespace Blob

/-- An open blob that holds what has arrived of a publication and nothing else, where the metadata tells
these properties once it has been read. -/
structure Gathers (b : Blob) (p : Publication) (told : Properties) (g : Progress) : Prop where
  key : b.key = p.key
  version : b.version = p.version
  isOpen : b.isTerminal = false
  readable : b.metadataCorrupt = false
  unaided : b.headersRecovered = false
  unknown : ¬ g.begun → b.payload = .unknown ∧ ∀ i, ¬ g.payload i
  assembling : g.begun → ∃ a, b.payload = .assembling a ∧ a.Holds p.payload g.payload
  reading : b.metadataDecoded = false → b.properties = {} ∧
    (b.metadata.getD (Assembly.ofLength (Metadata.encode p.properties).length)).Holds
      (Metadata.encode p.properties) g.metadata ∧
    ∃ i < (Metadata.encode p.properties).length, ¬ g.metadata i
  decoded : b.metadataDecoded = true → b.properties = told ∧
    ∀ i < (Metadata.encode p.properties).length, g.metadata i

/-- An open blob that holds what has arrived of a publication and nothing else. -/
abbrev Tracks (b : Blob) (p : Publication) (g : Progress) : Prop :=
  b.Gathers p p.properties g

variable {b : Blob} {p : Publication} {told : Properties} {g : Progress} {f : Fragment}

theorem length_encode_pos (ps : Properties) : 0 < (Metadata.encode ps).length := by
  rw [Metadata.length_encode]
  omega

theorem gathers_ofArrival (p : Publication) (told : Properties) (copy : Nat) (now : Millis) :
    { ofArrival p.key p.version now with copy }.Gathers p told .start where
  key := rfl
  version := rfl
  isOpen := rfl
  readable := rfl
  unaided := rfl
  unknown _ := ⟨rfl, fun _ => id⟩
  assembling := False.elim
  reading _ := ⟨rfl, Assembly.holds_ofLength _, 0, length_encode_pos _, id⟩
  decoded h := by contradiction

theorem Gathers.touch (gathers : b.Gathers p told g) (now : Millis) : (b.touch now).Gathers p told g :=
  ⟨gathers.key, gathers.version, gathers.isOpen, gathers.readable, gathers.unaided, gathers.unknown,
    gathers.assembling, gathers.reading, gathers.decoded⟩

theorem Gathers.refresh (gathers : b.Gathers p told g) : b.refresh.Gathers p told g :=
  ⟨gathers.key, gathers.version, gathers.isOpen, gathers.readable, gathers.unaided, gathers.unknown,
    gathers.assembling, gathers.reading, gathers.decoded⟩

theorem Gathers.begin (gathers : b.Gathers p told g) : b.begin.Gathers p told g := by
  simp only [Blob.begin]
  split
  · exact ⟨gathers.key, gathers.version, rfl, gathers.readable, gathers.unaided, gathers.unknown,
      gathers.assembling, gathers.reading, gathers.decoded⟩
  · exact gathers

theorem foldl_addDecoded (unaided : b.headersRecovered = false) (entries : List (String × String)) :
    entries.foldl addDecoded b =
      { b with properties := entries.foldl (fun ps e => ps.assign e.1 e.2) b.properties } := by
  induction entries generalizing b with
  | nil => rfl
  | cons e rest ih =>
    have one : addDecoded b e = { b with properties := b.properties.assign e.1 e.2 } := by
      simp [addDecoded, unaided]
    rw [List.foldl_cons, one]
    exact ih (b := { b with properties := b.properties.assign e.1 e.2 }) unaided

theorem readMetadata_with (b : Blob) (left : Option Assembly) (bytes : Bytes) :
    { b with metadata := left }.readMetadata bytes = b.readMetadata bytes :=
  rfl

theorem Gathers.readMetadata (gathers : b.Gathers p p.told g)
    (fits : (Metadata.encode p.properties).length < 2 ^ 64) (undecoded : b.metadataDecoded = false)
    (T : Nat → Prop) (all : ∀ i < (Metadata.encode p.properties).length, T i) :
    (b.readMetadata (Metadata.encode p.properties)).Gathers p p.told { g with metadata := T } := by
  have empty := (gathers.reading undecoded).1
  have read : b.readMetadata (Metadata.encode p.properties) =
      { b with metadata := none, properties := p.told, metadataDecoded := true }.refresh := by
    simp only [Blob.readMetadata, Metadata.decode?_encode fits]
    rw [foldl_addDecoded (b := { b with metadata := none }) gathers.unaided]
    simp only [empty]
    rfl
  rw [read]
  refine Gathers.refresh ?_
  exact ⟨gathers.key, gathers.version, gathers.isOpen, gathers.readable, gathers.unaided, gathers.unknown,
    gathers.assembling, fun h => by contradiction, fun _ => ⟨rfl, all⟩⟩

theorem Gathers.mergeMetadata (gathers : b.Gathers p p.told g) (slice : f.SliceOf p)
    (kind : f.sectionKind = .metadata) :
    ∃ b' n, b.mergeMetadata f = .ok (b', n) ∧ b'.Gathers p p.told (g.add f) := by
  have added : g.add f = { g with metadata := fun i => g.metadata i ∨ f.range.Has i } := by
    rw [Progress.add, kind]
  have length := slice.length
  have inside := slice.inside
  have data := slice.data
  simp only [kind, Fragment.Publication.bytes] at length inside data
  rw [Blob.mergeMetadata, added]
  -- Once the section has been read, further slices of it are not looked at.
  split
  next done =>
    obtain ⟨same, all⟩ := gathers.decoded done
    refine ⟨b, 0, rfl, gathers.key, gathers.version, gathers.isOpen, gathers.readable, gathers.unaided,
      gathers.unknown, gathers.assembling, fun undecoded => ?_, fun _ => ⟨same, ?_⟩⟩
    · simp [done] at undecoded
    · exact fun i below => .inl (all i below)
  next undecoded =>
    have undecoded : b.metadataDecoded = false := by simpa using undecoded
    obtain ⟨empty, holds, _⟩ := gathers.reading undecoded
    simp only [length, holds.length, ne_eq, not_true_eq_false, if_false]
    have fits : f.offset.toNat + f.data.length ≤ (Metadata.encode p.properties).length := inside
    have written := holds.write fits data
    refine ⟨_, _, rfl, ?_⟩
    split
    next full =>
      have all := written.isComplete_iff.mp full
      have fits : (Metadata.encode p.properties).length < 2 ^ 64 := by
        have := f.sectionLength.toNat_lt
        omega
      rw [written.bytes_eq all, readMetadata_with]
      exact gathers.readMetadata fits undecoded _ all
    next partly =>
      rw [written.isComplete_iff] at partly
      obtain ⟨i, lacking⟩ := Classical.not_forall.mp partly
      obtain ⟨below, absent⟩ := Classical.not_imp.mp lacking
      exact ⟨gathers.key, gathers.version, gathers.isOpen, gathers.readable, gathers.unaided,
        gathers.unknown, gathers.assembling, fun _ => ⟨empty, written, i, below, absent⟩,
        fun decoded => by simp [undecoded] at decoded⟩

/-- A slice written into the assembly of the payload. -/
theorem Gathers.write {a : Assembly} {offset : Nat} {data : Bytes} (gathers : b.Gathers p told g)
    (holds : a.Holds p.payload g.payload) (inside : offset + data.length ≤ p.payload.length)
    (slice : data = p.payload.slice offset (offset + data.length)) (size : Option Nat) :
    { b with payload := .assembling (a.write offset data).1, size }.Gathers p told
        { g.supply ⟨offset, offset + data.length⟩ with begun := True } ∧
      (a.write offset data).2 + (g.arrived p).card =
        ((g.supply ⟨offset, offset + data.length⟩).arrived p).card := by
  have written := holds.write inside slice
  refine ⟨⟨gathers.key, gathers.version, gathers.isOpen, gathers.readable, gathers.unaided,
    fun h => absurd trivial h, fun _ => ⟨_, rfl, written⟩, gathers.reading, gathers.decoded⟩, ?_⟩
  have filled := Assembly.write_count holds.canonical offset data
  have before := Progress.covered_missing holds
  have after := Progress.covered_missing (g := g.supply _) written
  omega

theorem Gathers.mergePayload (gathers : b.Gathers p told g) (slice : f.SliceOf p)
    (kind : f.sectionKind = .payload) :
    ∃ b' n, b.mergePayload f = .ok (b', n) ∧ b'.Gathers p told (g.add f) ∧
      n + (g.arrived p).card = ((g.add f).arrived p).card := by
  have added : g.add f = { g.supply f.range with begun := True } := by
    rw [Progress.add, kind]
  have length := slice.length
  have inside := slice.inside
  have data := slice.data
  simp only [kind, Fragment.Publication.bytes] at length inside data
  rw [added]
  by_cases begun : g.begun
  · obtain ⟨a, payload, holds⟩ := gathers.assembling begun
    obtain ⟨gathers', filled⟩ := gathers.write holds inside data b.size
    refine ⟨_, _, ?_, gathers', filled⟩
    simp [Blob.mergePayload, payload, holds.length, length]
  · obtain ⟨payload, none⟩ := gathers.unknown begun
    have holds : (Assembly.ofLength p.payload.length).Holds p.payload g.payload :=
      (Assembly.holds_ofLength p.payload).congr fun i => ⟨False.elim, none i⟩
    obtain ⟨gathers', filled⟩ := gathers.write holds inside data (some p.payload.length)
    refine ⟨_, _, ?_, gathers', filled⟩
    simp [Blob.mergePayload, payload, length, Assembly.ofLength]

/-- Merging a true slice into an open blob takes it in. -/
theorem Gathers.merge (gathers : b.Gathers p p.told g) (slice : f.SliceOf p) (now : Millis) :
    ∃ b' n, b.merge f now = .ok (b', n) ∧ b'.Gathers p p.told (g.add f) ∧
      (f.sectionKind = .payload → n + (g.arrived p).card = ((g.add f).arrived p).card) := by
  have target : ¬ (f.version ≠ b.version ∨ f.key ≠ b.key) := by
    simp [slice.version, slice.key, gathers.version, gathers.key]
  rw [Blob.merge, if_neg target, if_neg (by simp [gathers.isOpen])]
  cases kind : f.sectionKind with
  | metadata =>
    obtain ⟨b', n, merged, gathers'⟩ := gathers.mergeMetadata slice kind
    refine ⟨(b'.touch now).begin, n, ?_, (gathers'.touch now).begin, by simp⟩
    simp [mergeSection, kind, merged, Except.map]
  | payload =>
    obtain ⟨b', n, merged, gathers', filled⟩ := gathers.mergePayload slice kind
    refine ⟨(b'.touch now).begin, n, ?_, (gathers'.touch now).begin, fun _ => filled⟩
    simp [mergeSection, kind, merged, Except.map]

/-- A decided blob of a publication: all of it if its checksum is right, none of it otherwise. -/
structure Decides (b : Blob) (p : Publication) : Prop where
  key : b.key = p.key
  version : b.version = p.version
  properties : b.properties = p.properties
  intact : p.Intact → b.status = .complete ∧ b.payload = .verified p.payload
  corrupt : ¬ p.Intact → b.status = .checksumInvalid ∧ b.payload = .discarded

theorem Decides.isTerminal (decides : b.Decides p) : b.isTerminal = true := by
  by_cases intact : p.Intact
  · rw [Blob.isTerminal, (decides.intact intact).1]
    rfl
  · rw [Blob.isTerminal, (decides.corrupt intact).1]
    rfl

theorem Gathers.isComplete_iff {a : Assembly} (gathers : b.Gathers p told g)
    (payload : b.payload = .assembling a) (holds : a.Holds p.payload g.payload) :
    (a.isComplete && b.metadataComplete) = true ↔ g.Complete p := by
  have begun : g.begun := by
    by_contra unbegun
    simp [(gathers.unknown unbegun).1] at payload
  have metadata : b.metadataComplete = b.metadataDecoded := by
    simp [Blob.metadataComplete, gathers.unaided]
  rw [Bool.and_eq_true, holds.isComplete_iff, metadata]
  constructor
  · rintro ⟨all, done⟩
    exact ⟨begun, all, (gathers.decoded done).2⟩
  · rintro ⟨_, all, metadata⟩
    refine ⟨all, ?_⟩
    by_contra undecoded
    obtain ⟨_, _, i, below, absent⟩ := gathers.reading (by simpa using undecoded)
    exact absent (metadata i below)

theorem Gathers.settle_open (gathers : b.Gathers p told g) (lacking : ¬ g.Complete p) :
    b.settle = (b.refresh, false) := by
  rw [Blob.settle, if_neg (by simp [gathers.isOpen]), if_neg (by simp [gathers.readable])]
  have gathers := gathers.refresh
  by_cases begun : g.begun
  · obtain ⟨a, payload, holds⟩ := gathers.assembling begun
    have partly : ¬ (a.isComplete && b.refresh.metadataComplete) = true := by
      rw [gathers.isComplete_iff payload holds]
      exact lacking
    simp only [payload, if_neg partly]
  · simp only [(gathers.unknown begun).1]

/-- With nothing missing, settling verifies the payload or discards it. -/
theorem Gathers.settle_complete (gathers : b.Gathers p told g) (complete : g.Complete p) :
    b.properties = told ∧
    (told.Declare p.payload → b.settle =
      ({ b.refresh with payload := .verified p.payload, status := .complete }, true)) ∧
    (¬ told.Declare p.payload → b.settle =
      ({ b.refresh with payload := .discarded, status := .checksumInvalid }, true)) := by
  rw [Blob.settle, if_neg (by simp [gathers.isOpen]), if_neg (by simp [gathers.readable])]
  have gathers := gathers.refresh
  obtain ⟨a, payload, holds⟩ := gathers.assembling complete.begun
  have full := (gathers.isComplete_iff payload holds).mpr complete
  have properties : b.refresh.properties = told := by
    cases decoded : b.refresh.metadataDecoded with
    | true => exact (gathers.decoded decoded).1
    | false =>
      simp [Blob.metadataComplete, decoded, gathers.unaided] at full
  have declared : b.refresh.declaredMd5? = some (Digest.md5Hex p.payload) ↔ told.Declare p.payload := by
    rw [declaredMd5?, property?, properties, Properties.Declare]
  simp only [payload, full, if_true, holds.bytes_eq complete.payload]
  refine ⟨properties, fun intact => ?_, fun corrupt => ?_⟩
  · rw [if_pos (declared.mpr intact)]
  · rw [if_neg (declared.not.mpr corrupt)]

theorem Gathers.addByteRange_unknown (gathers : b.Gathers p told g) (unbegun : ¬ g.begun)
    (offset : Nat) (data : Bytes) (now : Millis) :
    b.addByteRange offset data now = .error (.sizeUnknown b.version) := by
  simp [Blob.addByteRange, gathers.isOpen, (gathers.unknown unbegun).1]

theorem Gathers.addByteRange (gathers : b.Gathers p told g) (begun : g.begun) {offset : Nat}
    {data : Bytes} (inside : offset + data.length ≤ p.payload.length)
    (slice : data = p.payload.slice offset (offset + data.length)) (now : Millis) :
    ∃ b' n, b.addByteRange offset data now = .ok (b', n) ∧
      b'.Gathers p told (g.supply ⟨offset, offset + data.length⟩) ∧
      n + (g.arrived p).card = ((g.supply ⟨offset, offset + data.length⟩).arrived p).card := by
  obtain ⟨a, payload, holds⟩ := gathers.assembling begun
  obtain ⟨gathers', filled⟩ := gathers.write holds inside slice b.size
  have same : ({ g.supply ⟨offset, offset + data.length⟩ with begun := True } : Progress) =
      g.supply ⟨offset, offset + data.length⟩ := by
    simp [Progress.supply, begun]
  rw [same] at gathers'
  refine ⟨_, _, ?_, gathers'.touch now, filled⟩
  have fits : ¬ a.length < min (offset + data.length) Text.maxWord := by
    rw [holds.length]
    omega
  simp [Blob.addByteRange, gathers.isOpen, payload, fits]

/-! ### Publications whose names are distinct -/

theorem tracks_ofArrival (p : Publication) (copy : Nat) (now : Millis) :
    { ofArrival p.key p.version now with copy }.Tracks p .start :=
  gathers_ofArrival p p.properties copy now

theorem Tracks.merge (tracks : b.Tracks p g) (distinct : p.properties.DistinctNames)
    (slice : f.SliceOf p) (now : Millis) :
    ∃ b' n, b.merge f now = .ok (b', n) ∧ b'.Tracks p (g.add f) ∧
      (f.sectionKind = .payload → n + (g.arrived p).card = ((g.add f).arrived p).card) := by
  have gathers : b.Gathers p p.told g := by
    rw [Fragment.Publication.told_eq distinct]
    exact tracks
  obtain ⟨b', n, merged, gathers', filled⟩ := gathers.merge slice now
  rw [Fragment.Publication.told_eq distinct] at gathers'
  exact ⟨b', n, merged, gathers', filled⟩

theorem Tracks.settle_complete (tracks : b.Tracks p g) (complete : g.Complete p) :
    b.settle.2 = true ∧ b.settle.1.Decides p := by
  obtain ⟨properties, verified, discarded⟩ := Gathers.settle_complete tracks complete
  by_cases intact : p.Intact
  · rw [verified intact]
    exact ⟨rfl, tracks.key, tracks.version, properties, fun _ => ⟨rfl, rfl⟩,
      fun corrupt => absurd intact corrupt⟩
  · rw [discarded intact]
    exact ⟨rfl, tracks.key, tracks.version, properties, fun good => absurd good intact,
      fun _ => ⟨rfl, rfl⟩⟩

end Blob
end BlobReplica
