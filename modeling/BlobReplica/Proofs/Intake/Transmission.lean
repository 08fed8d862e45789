import BlobReplica.Intake
import BlobReplica.Proofs.Except
import BlobReplica.Proofs.Fragment.Split

/-! Transmissions: publications as they were sent to an intake whose bounds they keep. Each
datagram gives back the fragment that it was written from, so the datagrams that have come tell
how far the publication has got. -/

namespace BlobReplica

open Fragment (Publication)

theorem Fragment.Publication.fragments_of_datagrams {p : Publication} {size : Nat} {ds : List Bytes}
    (sent : p.datagrams size = .ok ds) : ∃ fs, p.fragments size = .ok fs ∧
      (∀ f ∈ fs, ∃ d ∈ ds, Datagram.encode f = .ok d) ∧ ∀ d ∈ ds, ∃ f ∈ fs, Datagram.encode f = .ok d := by
  obtain ⟨fs, split, encoded⟩ := bind_eq_ok.mp sent
  have paired := mapM_eq_ok.mp encoded
  exact ⟨fs, split, fun _ => exists_of_forall₂ paired, fun _ => exists_of_forall₂ paired.flip⟩

namespace Fragment.Publication

variable {p : Publication}

/-- The datagram of a section that travels in one. -/
def single (p : Publication) (kind : Section) : Bytes :=
  Datagram.body (p.whole kind) ++ Datagram.trailer (Datagram.body (p.whole kind))

theorem mem_singles {d : Bytes} :
    d ∈ [p.single .metadata, p.single .payload] ↔ ∃ kind, d = p.single kind := by
  constructor
  · intro listed
    rcases List.mem_pair.mp listed with rfl | rfl
    · exact ⟨.metadata, rfl⟩
    · exact ⟨.payload, rfl⟩
  · rintro ⟨kind, rfl⟩
    cases kind with
    | metadata => exact List.mem_cons_self
    | payload => exact List.mem_cons_of_mem _ List.mem_cons_self

/-- A publication with a payload, each of whose sections fits into one piece. -/
structure Short (p : Publication) : Prop where
  key : 0 < Utf8.size p.key ∧ Utf8.size p.key ≤ Datagram.maxKeySize
  nonempty : p.payload ≠ []
  metadata : (Metadata.encode p.properties).length ≤ defaultSize
  payload : p.payload.length ≤ defaultSize

theorem Short.sections (short : p.Short) (kind : Section) : (p.bytes kind).length ≤ defaultSize := by
  cases kind with
  | metadata => exact short.metadata
  | payload => exact short.payload

theorem Short.written (short : p.Short) (kind : Section) :
    Datagram.Written Digest.crc32 (p.whole kind) (p.single kind) := by
  have key : Utf8.size p.key ≤ 1024 := short.key.2
  have bytes : (p.bytes kind).length ≤ 1200 := short.sections kind
  refine ⟨short.key, ?_, ?_, rfl⟩
  · have kept : (p.whole kind).sectionLength.toNat = (p.bytes kind).length :=
      UInt32.toNat_ofNat_of_lt' (bytes.trans_lt (by decide))
    rw [WithinSection, kept, Fragment.stop]
    simp [whole]
  · simp only [whole, Datagram.headerSize, Datagram.trailerSize, Datagram.maxSize]
    omega

theorem Short.datagrams (short : p.Short) :
    p.datagrams = .ok [p.single .metadata, p.single .payload] := by
  have fits (kind : Section) := (short.sections kind).trans (by decide : 1200 ≤ Datagram.maxSectionSize)
  have encoded (kind : Section) := Datagram.encode_eq_ok.mpr (short.written kind)
  apply bind_eq_ok.mpr
  refine ⟨_, fragments_whole short.nonempty short.sections fits, mapM_eq_ok.mpr ?_⟩
  exact .cons (encoded .metadata) (.cons (encoded .payload) .nil)

theorem Short.decode (short : p.Short) (kind : Section) {sectionBound : Nat}
    (room : defaultSize ≤ sectionBound) :
    Datagram.decode (p.single kind) Datagram.maxSize sectionBound = .ok (p.whole kind) := by
  have written := short.written kind
  apply Datagram.decode_encode (Datagram.encode_eq_ok.mpr written)
  · exact written.length.le.trans written.short
  · have kept : (p.whole kind).sectionLength.toNat ≤ (p.bytes kind).length :=
      Nat.mod_le _ _
    exact kept.trans ((short.sections kind).trans room)

/-- The datagram of a section tells whose it is and which section it brings. -/
theorem Short.single_ne {q : Publication} {kind other : Section} (short : p.Short) (short' : q.Short)
    (differ : p.version ≠ q.version ∨ kind ≠ other) : p.single kind ≠ q.single other := by
  intro same
  have read := short.decode kind (Nat.le_refl _)
  rw [same, short'.decode other (Nat.le_refl _)] at read
  have whole : q.whole other = p.whole kind := Except.ok.inj read
  rcases differ with version | sort
  · exact version (congrArg Fragment.version whole).symm
  · exact sort (congrArg Fragment.sectionKind whole).symm

end Fragment.Publication

/-- A publication as it was sent: split into pieces of some size, within the bounds of an intake. -/
structure Transmission (i : Intake) where
  publication : Publication
  size : Nat
  datagrams : List Bytes
  distinct : publication.properties.DistinctNames
  sent : publication.datagrams size = .ok datagrams
  sections : ∀ kind, (publication.bytes kind).length ≤ i.maxObjectSize
  packets : ∀ d ∈ datagrams, d.length ≤ i.maxPacketSize

namespace Transmission

variable {i : Intake} {t u : Transmission i} {before : List Bytes} {d : Bytes} {f : Fragment}

/-- What an intake reads from a datagram. -/
def reads (i : Intake) (d : Bytes) (f : Fragment) : Prop :=
  Datagram.decode d i.maxPacketSize i.maxObjectSize = .ok f

/-- The fragments that were split off, each with a datagram that is read as it. -/
theorem fragments_sent (t : Transmission i) : ∃ fs, t.publication.fragments t.size = .ok fs ∧
    (∀ f ∈ fs, ∃ d ∈ t.datagrams, Datagram.encode f = .ok d ∧ reads i d f) ∧
    ∀ d ∈ t.datagrams, ∃ f ∈ fs, Datagram.encode f = .ok d ∧ reads i d f := by
  obtain ⟨fs, split, forward, backward⟩ := Publication.fragments_of_datagrams t.sent
  have read {f : Fragment} {d : Bytes} (member : f ∈ fs) (listed : d ∈ t.datagrams)
      (encoded : Datagram.encode f = .ok d) : reads i d f := by
    refine Datagram.decode_encode encoded (t.packets d listed) ?_
    rw [(Publication.slice_of_mem_fragments split member).length]
    exact t.sections f.sectionKind
  refine ⟨fs, split, fun f member => ?_, fun d listed => ?_⟩
  · obtain ⟨d, listed, encoded⟩ := forward f member
    exact ⟨d, listed, encoded, read member listed encoded⟩
  · obtain ⟨f, member, encoded⟩ := backward d listed
    exact ⟨f, member, encoded, read member listed encoded⟩

theorem slice_of_mem (member : d ∈ t.datagrams) : ∃ f, reads i d f ∧ f.SliceOf t.publication := by
  obtain ⟨fs, split, _, backward⟩ := t.fragments_sent
  obtain ⟨f, listed, _, read⟩ := backward d member
  exact ⟨f, read, Publication.slice_of_mem_fragments split listed⟩

theorem apart (differ : t.publication.version ≠ u.publication.version) (member : d ∈ t.datagrams) :
    d ∉ u.datagrams := by
  intro shared
  obtain ⟨f, read, slice⟩ := slice_of_mem member
  obtain ⟨g, read', slice'⟩ := slice_of_mem shared
  obtain rfl := Except.ok.inj (read.symm.trans read')
  exact differ (slice.version.symm.trans slice'.version)

/-- The fragments of a transmission that have come in some datagrams. -/
def Arrived (t : Transmission i) (before : List Bytes) (f : Fragment) : Prop :=
  ∃ d ∈ before, d ∈ t.datagrams ∧ reads i d f

def progress (t : Transmission i) (before : List Bytes) : Progress :=
  .ofSet (t.Arrived before)

/-- Nothing is missing exactly when all distinct datagrams have come. -/
theorem complete_iff : (t.progress before).Complete t.publication ↔ t.datagrams ⊆ before := by
  obtain ⟨fs, split, forward, backward⟩ := t.fragments_sent
  have own (f : Fragment) (arrived : t.Arrived before f) : f ∈ fs := by
    obtain ⟨d, _, listed, read⟩ := arrived
    obtain ⟨g, member, _, read'⟩ := backward d listed
    exact Except.ok.inj (read.symm.trans read') ▸ member
  rw [progress, Progress.complete_ofSet_iff split own]
  constructor
  · intro all d listed
    obtain ⟨f, member, encoded, _⟩ := backward d listed
    obtain ⟨d', came, listed', read⟩ := all f member
    obtain ⟨g, _, encoded', read'⟩ := backward d' listed'
    obtain rfl := Except.ok.inj (read.symm.trans read')
    exact Except.ok.inj (encoded.symm.trans encoded') ▸ came
  · intro all f member
    obtain ⟨d, listed, _, read⟩ := forward f member
    exact ⟨d, all listed, listed, read⟩

theorem progress_none (nothing : ∀ d ∈ before, d ∉ t.datagrams) : t.progress before = .start := by
  rw [progress, ← Progress.ofSet_none]
  refine Progress.ofSet_congr fun f => ⟨?_, False.elim⟩
  rintro ⟨d, came, listed, _⟩
  exact nothing d came listed

theorem progress_own (listed : d ∈ t.datagrams) (read : reads i d f) :
    t.progress (before ++ [d]) = (t.progress before).add f := by
  rw [progress, progress, Progress.ofSet_add]
  refine Progress.ofSet_congr fun g => ⟨?_, ?_⟩
  · rintro ⟨d', came, listed', read'⟩
    rcases List.mem_append.mp came with came | last
    · exact .inl ⟨d', came, listed', read'⟩
    · obtain rfl := List.mem_singleton.mp last
      exact .inr (Except.ok.inj (read'.symm.trans read))
  · rintro (⟨d', came, rest⟩ | rfl)
    · exact ⟨d', List.mem_append_left _ came, rest⟩
    · exact ⟨d, by simp, listed, read⟩

theorem progress_foreign (foreign : d ∉ t.datagrams) :
    t.progress (before ++ [d]) = t.progress before := by
  rw [progress, progress]
  refine Progress.ofSet_congr fun g => ⟨?_, ?_⟩
  · rintro ⟨d', came, listed, read⟩
    rcases List.mem_append.mp came with came | last
    · exact ⟨d', came, listed, read⟩
    · exact absurd (List.mem_singleton.mp last ▸ listed) foreign
  · rintro ⟨d', came, rest⟩
    exact ⟨d', List.mem_append_left _ came, rest⟩

theorem subset_foreign (foreign : d ∉ t.datagrams) :
    t.datagrams ⊆ before ++ [d] ↔ t.datagrams ⊆ before := by
  refine ⟨fun all x listed => ?_, fun all => List.Subset.trans all (List.subset_append_left _ _)⟩
  rcases List.mem_append.mp (all listed) with came | last
  · exact came
  · exact absurd (List.mem_singleton.mp last ▸ listed) foreign

/-- What a datagram has to give after others: the publication is pending until its last distinct
datagram, which decides it, and later ones are ignored. -/
def outcome (t : Transmission i) (before : List Bytes) (d : Bytes) : Outcome :=
  if t.datagrams ⊆ before then .ignored
  else if t.datagrams ⊆ before ++ [d] then
    if t.publication.Intact then .completed else .invalid
  else .pending

/-- A short publication, as it is sent to an intake with its default bounds. -/
def ofShort (p : Publication) (short : p.Short) (distinct : p.properties.DistinctNames) :
    Transmission {} where
  publication := p
  size := Fragment.defaultSize
  datagrams := [p.single .metadata, p.single .payload]
  distinct
  sent := short.datagrams
  sections kind := (short.sections kind).trans (by decide)
  packets d sent := by
    obtain ⟨kind, rfl⟩ := Publication.mem_singles.mp sent
    exact (short.written kind).length.le.trans (short.written kind).short

section ofShort

variable {p : Publication} {short : p.Short} {distinct : p.properties.DistinctNames}

theorem subset_ofShort :
    (ofShort p short distinct).datagrams ⊆ before ↔ ∀ kind, p.single kind ∈ before := by
  constructor
  · exact fun all kind => all (Publication.mem_singles.mpr ⟨kind, rfl⟩)
  · intro all d sent
    obtain ⟨kind, rfl⟩ := Publication.mem_singles.mp sent
    exact all kind

/-- The datagram of the last section to come decides the publication. -/
theorem outcome_ofShort {kind : Section} (lacking : p.single kind ∉ before)
    (came : ∀ other, other ≠ kind → p.single other ∈ before) :
    (ofShort p short distinct).outcome before (p.single kind) =
      if p.Intact then .completed else .invalid := by
  have all : (ofShort p short distinct).datagrams ⊆ before ++ [p.single kind] := by
    refine subset_ofShort.mpr fun other => ?_
    by_cases last : other = kind
    · simp [last]
    · exact List.mem_append_left _ (came other last)
  rw [outcome, if_neg fun all => lacking (subset_ofShort.mp all kind), if_pos all]
  rfl

end ofShort

theorem short_sample : Publication.sample.Short :=
  ⟨by decide, by decide, by decide, by decide⟩

/-- Another version of the sample, with other bytes than its checksum says. -/
def sampleAltered : Publication :=
  { Publication.sample with version := .ofNumber 8, payload := [98, 99, 100] }

theorem short_altered : sampleAltered.Short :=
  ⟨by decide, by decide, by decide, by decide⟩

end Transmission
end BlobReplica
