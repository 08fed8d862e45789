import BlobReplica.Proofs.Blob.Writes
import BlobReplica.Proofs.Recovery.Requests

/-! Slices of a stored object on their way to a blob that lacks them. The content type of the object
stands among the headers of the response, or among those of each part, where the client reads how the
bytes are framed. -/

namespace BlobReplica

namespace Service

/-- Positions that are in one of the slices. -/
def Asked (slices : List (Nat × Nat)) (i : Nat) : Prop :=
  ∃ s ∈ slices, s.1 ≤ i ∧ i ≤ s.2

/-- A content type that cannot be taken for the framing of a response. A single slice comes as it is,
under the content type of the object, which may not announce several parts where the client can read it.
Each of several slices has the content type among its headers, which has to keep them as they are. -/
def Unframing (kind : String) : List (Nat × Nat) → Prop
  | [_] => Http.Headers.isReadable kind = true → Http.boundary? kind = none
  | _ => KeepsHeaders kind

variable {a : Blob} {payload : Bytes} {asked : Http.Headers} {slices : List (Nat × Nat)}

theorem gives_kind (distinct : a.properties.DistinctNames) (place : String) (status : Nat)
    (body : Bytes) : ∃ kind, (kind = a.contentType ∨ kind = Property.defaultContentType) ∧
      (withBytes status ((objectHeaders a).set "Content-Range" place) body).headers.Gives
        Property.contentType kind := by
  have other : Text.sameName "Content-Range" Property.contentType = false := by decide
  cases valid : Http.isHeaderValue a.contentType with
  | true =>
    exact ⟨a.contentType, .inl rfl,
      gives_withBytes_kind ((gives_contentType valid).set other place) valid status body⟩
  | false =>
    have absent : Http.Headers.get? ((objectHeaders a).set "Content-Range" place)
        Property.contentType = none :=
      Http.Headers.get?_set_none (contentType_absent distinct valid) (.inl other)
    have named : Http.isHeaderName Property.contentType = true := by decide
    have default : Http.isHeaderValue Property.defaultContentType = true := by decide
    refine ⟨Property.defaultContentType, .inr rfl, ?_⟩
    rw [withBytes, absent]
    exact Http.Headers.gives_set _ (Text.sameName_refl _) named default

end Service

namespace Recovery

open Fragment (Publication)
open Service (Asked Unframing serve)

variable {a b m : Blob} {payload whole : Bytes} {asked : Http.Headers} {slices : List (Nat × Nat)}
  {s t : Assembly} {S : Nat → Prop} {parts : List BytePart} {now : Millis}

/-- The slices as parts of the payload. -/
def partsAt (payload : Bytes) (slices : List (Nat × Nat)) : List BytePart :=
  slices.map fun s => ⟨s.1, payload.slice s.1 (s.2 + 1)⟩

section Received

variable {r : Http.Response} {kind value : String} {ranges : List ByteRange}

theorem received_single {range : Http.ContentRange}
    (typed : r.headers.Gives Property.contentType kind)
    (plain : Http.Headers.isReadable kind = true → Http.boundary? kind = none)
    (placed : r.headers.Gives "Content-Range" value) (printable : Text.IsPrintable value)
    (parsed : Http.ContentRange.parse? value = some range) :
    Recovery.slices ranges (.ofHttp r) = .ok [⟨range.first, r.body⟩] := by
  have typed' : Http.Headers.get? (FetchResponse.ofHttp r).headers "Content-Type" =
      (some kind).filter Http.Headers.isReadable := typed.readable
  have placed' : Http.Headers.get? (FetchResponse.ofHttp r).headers "Content-Range" = some value := by
    rw [FetchResponse.ofHttp, placed.readable, Option.filter_some,
      if_pos (Service.isReadable_of_printable printable)]
  refine slices_single ?_ placed' parsed
  rw [typed', Option.filter_some]
  split
  next readable => exact plain readable
  next => rfl

theorem received_several {boundary : String} (typed : r.headers.Gives Property.contentType kind)
    (readable : Http.Headers.isReadable kind = true) (several : Http.boundary? kind = some boundary) :
    Recovery.slices ranges (.ofHttp r) = BytePart.parse r.body boundary := by
  have announced : ((FetchResponse.ofHttp r).headers.get? "Content-Type").bind Http.boundary? =
      some boundary := by
    rw [show Http.Headers.get? (FetchResponse.ofHttp r).headers "Content-Type" = _ from typed.readable,
      Option.filter_some, if_pos readable, Option.bind_some, several]
  simp only [Recovery.slices, announced]
  rfl

end Received

theorem slices_one (distinct : a.properties.DistinctNames) (whole : a.payload? = some payload)
    {first last : Nat} (wanted : Http.RangeRequest.parse (asked.readable? "Range") payload.length =
      .slices [(first, last)]) (fits : payload.length ≤ Text.maxWord)
    (unframing : Unframing a.contentType [(first, last)]) (separator : VersionId)
    (ranges : List ByteRange) :
    Recovery.slices ranges (.ofHttp (serve a asked separator)) =
      .ok (partsAt payload [(first, last)]) := by
  obtain ⟨ordered, inside⟩ := (Http.RangeRequest.proper_parse wanted).2 _ List.mem_cons_self
  obtain ⟨kind, either, typed⟩ := Service.gives_kind distinct
    (Http.ContentRange.written first last payload.length) 206 (payload.slice first (last + 1))
  have placed := Service.gives_withBytes (Service.gives_place (Service.objectHeaders a) first last
    payload.length) (by decide) 206 (payload.slice first (last + 1))
  have plain : Http.Headers.isReadable kind = true → Http.boundary? kind = none := by
    rcases either with rfl | rfl
    · exact unframing
    · exact fun _ => by decide
  rw [Service.serve_slice separator whole wanted]
  exact received_single typed plain placed (Service.printable_written first last payload.length)
    (Http.ContentRange.parse?_written ordered inside fits)

theorem slices_several (whole : a.payload? = some payload) {first second : Nat × Nat}
    {rest : List (Nat × Nat)}
    (wanted : Http.RangeRequest.parse (asked.readable? "Range") payload.length =
      .slices (first :: second :: rest)) (separator : VersionId) (ranges : List ByteRange) :
    Recovery.slices ranges (.ofHttp (serve a asked separator)) =
      BytePart.parse (Service.multipartBody a (Service.boundaryText separator) payload
        (first :: second :: rest)) (Service.boundaryText separator) := by
  have printable := Service.printable_kind separator
  have valid := Service.isHeaderValue_of_printable printable
  have typed := Http.Headers.gives_set (Service.objectHeaders a)
    (Text.sameName_refl Property.contentType) (by decide) valid
  rw [Service.serve_slices separator whole wanted]
  exact received_several (Service.gives_withBytes_kind typed valid 206 _)
    (Service.isReadable_of_printable printable) (Service.boundary?_kindText separator)

theorem status_serve (whole : a.payload? = some payload)
    (wanted : Http.RangeRequest.parse (asked.readable? "Range") payload.length = .slices slices)
    (separator : VersionId) : (serve a asked separator).status = 206 := by
  match slices with
  | [] => exact absurd rfl (Http.RangeRequest.proper_parse wanted).1
  | [(first, last)] => rw [Service.serve_slice separator whole wanted, Service.withBytes]
  | first :: second :: rest => rw [Service.serve_slices separator whole wanted, Service.withBytes]

/-- The client reads the slices that a request asked for. -/
theorem slices_serve (distinct : a.properties.DistinctNames) (whole : a.payload? = some payload)
    (wanted : Http.RangeRequest.parse (asked.readable? "Range") payload.length = .slices slices)
    (fits : payload.length ≤ Text.maxWord) (unframing : Unframing a.contentType slices)
    (separator : VersionId) (ranges : List ByteRange) :
    Recovery.slices ranges (.ofHttp (serve a asked separator)) = .ok (partsAt payload slices) := by
  match slices with
  | [] => exact absurd rfl (Http.RangeRequest.proper_parse wanted).1
  | [(first, last)] => exact slices_one distinct whole wanted fits unframing separator ranges
  | first :: second :: rest =>
    exact (slices_several whole wanted separator ranges).trans
      (Service.parse_multipartBody unframing _ fits (Http.RangeRequest.proper_parse wanted).2)

theorem addParts_holds (isOpen : b.isTerminal = false) (held : b.payload = .assembling s)
    (holds : s.Holds whole S)
    (agree : ∀ p ∈ parts, p.offset + p.data.length ≤ whole.length ∧
      p.data = whole.slice p.offset (p.offset + p.data.length)) (now : Millis) :
    ∃ m t, addParts now b parts = (m, none) ∧ m.isTerminal = false ∧ m.payload = .assembling t ∧
      t.Holds whole fun i => S i ∨ ∃ p ∈ parts, p.offset ≤ i ∧ i < p.offset + p.data.length := by
  induction parts generalizing b s S with
  | nil => exact ⟨b, s, rfl, isOpen, held, holds.congr (by simp)⟩
  | cons p rest ih =>
    obtain ⟨inside, slice⟩ := agree p List.mem_cons_self
    have written := holds.write inside slice
    have room : ¬ s.length < min (p.offset + p.data.length) Text.maxWord := by
      have := holds.length
      omega
    have added : b.addByteRange p.offset p.data now =
        .ok ({ b with payload := .assembling (s.write p.offset p.data).1 }.touch now,
          (s.write p.offset p.data).2) := by
      simp only [Blob.addByteRange, isOpen, Bool.false_eq_true, held, room, if_false]
    obtain ⟨m, t, done, still, kept, final⟩ := ih
      (b := { b with payload := .assembling (s.write p.offset p.data).1 }.touch now) isOpen rfl written
      fun x member => agree x (List.mem_cons_of_mem _ member)
    refine ⟨m, t, ?_, still, kept, final.congr fun i => ?_⟩
    · simp only [addParts, added]
      exact done
    · simp [or_assoc, ByteRange.Has]

/-- A blob of which just the positions in the slices are missing, of an object of this size. -/
structure Awaits (b : Blob) (slices : List (Nat × Nat)) (size : Nat) : Prop where
  size : b.size = some size
  gaps : ∃ ranges, b.missingRanges = some ranges ∧ ∀ i, (∃ r ∈ ranges, r.Has i) ↔ Asked slices i

/-- The payload of `m` is whole. It has the object's bytes where they were asked for and what `b` had
before everywhere else. -/
def Fills (b m : Blob) (slices : List (Nat × Nat)) (payload : Bytes) : Prop :=
  ∃ s t, b.payload = .assembling s ∧ m.payload = .assembling t ∧ t.isComplete = true ∧
    t.bytes.length = payload.length ∧ (∀ i, Asked slices i → t.bytes[i]? = payload[i]?) ∧
      ∀ i, ¬ Asked slices i → t.bytes[i]? = s.bytes[i]?

/-- An assembly in which the positions in the slices are missing and no others. -/
structure Lacking (s : Assembly) (slices : List (Nat × Nat)) (size : Nat) : Prop where
  length : s.length = size
  bytes : s.bytes.length = size
  bounded : size < Text.maxWord
  canonical : s.missing.Canonical
  missing : ∀ i, i ∈ s.missing ↔ Asked slices i

theorem Awaits.assembling {size : Nat} (arises : b.Arises) (awaits : Awaits b slices size)
    (nonempty : ∃ i, Asked slices i) :
    ∃ s, b.payload = .assembling s ∧ b.isTerminal = false ∧ Lacking s slices size := by
  obtain ⟨ranges, listed, covers⟩ := awaits.gaps
  obtain ⟨i, wanted⟩ := nonempty
  have gap := (covers i).mpr wanted
  cases arises.gated with
  | @assembling s held isOpen size' sized =>
    obtain rfl : s.missing.ranges = ranges := by simpa [Blob.missingRanges, held] using listed
    have missing : ∀ i, i ∈ s.missing ↔ Asked slices i := fun i => RangeSet.mem_iff.trans (covers i)
    have canonical := (arises.assembles s held).canonical
    have incomplete : s.isComplete ≠ true := fun complete =>
      (RangeSet.isEmpty_iff canonical).mp complete i ((missing i).mpr wanted)
    obtain rfl := Option.some.inj (awaits.size.symm.trans size')
    exact ⟨s, held, isOpen, rfl, sized.size, sized.bounded.resolve_left incomplete, canonical, missing⟩
  | unknown held => simp [Blob.missingRanges, held] at listed
  | verified held | discarded held =>
    simp only [Blob.missingRanges, held, Option.some.injEq] at listed
    simp [← listed] at gap

/-- The slices of an object, written into a blob that lacks just them, make its payload whole. -/
theorem fills_addParts (isOpen : b.isTerminal = false) (held : b.payload = .assembling s)
    (lacking : Lacking s slices payload.length)
    (proper : ∀ x ∈ slices, Http.RangeRequest.Proper payload.length x) (now : Millis) :
    ∃ m, addParts now b (partsAt payload slices) = (m, none) ∧ m.isTerminal = false ∧
      Fills b m slices payload := by
  -- the text to be: the object's bytes where they were asked for, and elsewhere what is there already
  obtain ⟨whole, length, fresh, kept⟩ := Bytes.exists_choice lacking.bytes.symm (Asked slices)
  have below : ∀ i, Asked slices i → i < whole.length := by
    rintro i ⟨x, member, _, last⟩
    exact length ▸ Nat.lt_of_le_of_lt last (proper x member).2
  have holds : s.Holds whole fun i => ¬ Asked slices i := by
    refine ⟨lacking.length.trans length.symm, lacking.canonical, fun i => ?_,
      lacking.bytes.trans length.symm, fun i _ outside => (kept i outside).symm⟩
    rw [lacking.missing, not_not]
    exact ⟨fun wanted => ⟨below i wanted, wanted⟩, And.right⟩
  have size {x : Nat × Nat} (member : x ∈ slices) :
      x.1 + (payload.slice x.1 (x.2 + 1)).length = x.2 + 1 := by
    obtain ⟨ordered, inside⟩ := proper x member
    rw [Bytes.length_slice (by omega)]
    omega
  have agree : ∀ p ∈ partsAt payload slices, p.offset + p.data.length ≤ whole.length ∧
      p.data = whole.slice p.offset (p.offset + p.data.length) := by
    intro p listed
    obtain ⟨x, member, rfl⟩ := List.mem_map.mp listed
    obtain ⟨ordered, inside⟩ := proper x member
    simp only [size member]
    refine ⟨by omega, Bytes.slice_congr fun i first last => (fresh i ?_).symm⟩
    exact ⟨x, member, first, by omega⟩
  obtain ⟨m, t, done, still, held', final⟩ := addParts_holds isOpen held holds agree now
  have all : ∀ i < whole.length, ¬ Asked slices i ∨
      ∃ p ∈ partsAt payload slices, p.offset ≤ i ∧ i < p.offset + p.data.length := by
    intro i _
    by_cases wanted : Asked slices i
    · obtain ⟨x, member, first, last⟩ := wanted
      refine .inr ⟨_, List.mem_map_of_mem member, first, ?_⟩
      simp only [size member]
      omega
    · exact .inl wanted
  have bytes := final.bytes_eq all
  refine ⟨m, done, still, s, t, held, held', final.isComplete_iff.mpr all, ?_⟩
  rw [bytes]
  exact ⟨length, fresh, kept⟩

theorem covered_addParts (isOpen : b.isTerminal = false) (held : b.payload = .assembling s)
    (lacks : s.Lacks S) (done : addParts now b parts = (m, none)) :
    ∃ t, m.payload = .assembling t ∧ m.isTerminal = false ∧
      s.missing.covered ≤ t.missing.covered + BytePart.total parts := by
  induction parts generalizing b s S with
  | nil =>
    obtain rfl := (Prod.mk.inj done).1
    exact ⟨s, held, isOpen, Nat.le_add_right _ _⟩
  | cons p rest ih =>
    rw [addParts] at done
    cases added : b.addByteRange p.offset p.data now with
    | error e =>
      rw [added] at done
      cases done
    | ok result =>
      rw [added] at done
      have next := Blob.addByteRange_open isOpen held added
      obtain ⟨t, held', still, covered⟩ := ih (next ▸ isOpen) (next ▸ rfl)
        (lacks.write p.offset p.data) done
      have one := lacks.covered_write p.offset p.data
      refine ⟨t, held', still, ?_⟩
      simp only [BytePart.total, List.foldr_cons] at covered ⊢
      omega

theorem Lacking.lacks {size : Nat} (lacking : Lacking s slices size)
    (below : ∀ i, Asked slices i → i < size) : s.Lacks fun i => ¬ Asked slices i where
  canonical := lacking.canonical
  missing i := by
    rw [lacking.missing, lacking.length, not_not]
    exact ⟨fun wanted => ⟨below i wanted, wanted⟩, And.right⟩

theorem asked_one {first last i : Nat} : Asked [(first, last)] i ↔ first ≤ i ∧ i ≤ last := by
  simp [Asked]

theorem Lacking.covered {first last size : Nat} (lacking : Lacking s [(first, last)] size)
    (inside : last < size) : s.missing.covered = last + 1 - first := by
  have bound : ∀ i ∈ s.missing, i < size := fun i listed =>
    Nat.lt_of_le_of_lt (asked_one.mp ((lacking.missing i).mp listed)).2 inside
  have positions : (Finset.range size).filter (· ∈ s.missing) = Finset.Ico first (last + 1) := by
    ext i
    simp only [Finset.mem_filter, Finset.mem_range, Finset.mem_Ico, lacking.missing, asked_one]
    omega
  rw [RangeSet.covered_eq_card lacking.canonical bound, positions, Nat.card_Ico]

/-- The blob takes the response, and that fills just what it lacked. -/
def Feeds (r : FetchResponse) (b : Blob) (ranges : List ByteRange) (slices : List (Nat × Nat))
    (payload : Bytes) (now : Millis) : Prop :=
  ∃ m, apply b (.ranges ranges) r now = (m, none) ∧ Fills b m slices payload

/-- A response that is read as the slices of an object feeds a blob that lacks just them. -/
theorem feeds_of_slices {r : FetchResponse} {ranges : List ByteRange} (status : r.status = 206)
    (read : Recovery.slices ranges r = .ok (partsAt payload slices)) (isOpen : b.isTerminal = false)
    (held : b.payload = .assembling s) (lacking : Lacking s slices payload.length)
    (proper : ∀ x ∈ slices, Http.RangeRequest.Proper payload.length x) (now : Millis) :
    Feeds r b ranges slices payload now := by
  obtain ⟨m, written, still, s', t, before, after, filled⟩ :=
    fills_addParts isOpen held lacking proper now
  have expected : r.status = (FetchRequest.ranges ranges).expectedStatus := status
  refine ⟨m.applyHeaders (recoveredProperties r.headers) now, ?_, s', t, before, ?_, filled⟩
  · simp only [apply, expected, ne_eq, not_true_eq_false, if_false, read, written]
  · exact (Blob.headed_applyHeaders still _ now).2.payload.trans after

/-- What is read from a body that is taken for several parts has fewer bytes than the body, so it cannot
fill a slice that the body is. -/
theorem not_feeds_of_parse {r : FetchResponse} {ranges : List ByteRange} {first last : Nat}
    {boundary : String} (read : Recovery.slices ranges r = BytePart.parse r.body boundary)
    (body : r.body = payload.slice first (last + 1)) (inside : last < payload.length)
    (isOpen : b.isTerminal = false) (held : b.payload = .assembling s)
    (lacking : Lacking s [(first, last)] payload.length) (now : Millis) :
    ¬ Feeds r b ranges [(first, last)] payload now := by
  have lacks := lacking.lacks fun i within => Nat.lt_of_le_of_lt (asked_one.mp within).2 inside
  rintro ⟨m, done, s', t, _, held', complete, _⟩
  simp only [apply, read] at done
  split at done
  next => cases done
  next =>
    split at done
    next => cases done
    next parts parsed =>
      split at done
      next => cases done
      next m' written =>
        obtain ⟨t', held'', still, covered⟩ := covered_addParts isOpen held lacks written
        have few := BytePart.total_parse parsed
        obtain rfl : m'.applyHeaders _ now = m := (Prod.mk.inj done).1
        rw [(Blob.headed_applyHeaders still _ now).2.payload, held''] at held'
        obtain rfl := Payload.assembling.inj held'
        have nothing : t'.missing.covered = 0 := by
          rw [RangeSet.covered, List.isEmpty_iff.mp complete]
          rfl
        rw [body, Bytes.length_slice (by omega)] at few
        rw [lacking.covered inside] at covered
        omega

theorem unframing_of_feeds (whole : a.payload? = some payload) {first last : Nat}
    (wanted : Http.RangeRequest.parse (asked.readable? "Range") payload.length =
      .slices [(first, last)]) (isOpen : b.isTerminal = false) (held : b.payload = .assembling s)
    (lacking : Lacking s [(first, last)] payload.length) {separator : VersionId}
    {ranges : List ByteRange}
    (feeds : Feeds (.ofHttp (serve a asked separator)) b ranges [(first, last)] payload now) :
    Unframing a.contentType [(first, last)] := by
  intro readable
  by_contra announced
  obtain ⟨boundary, several⟩ := Option.ne_none_iff_exists'.mp announced
  have inside := ((Http.RangeRequest.proper_parse wanted).2 _ List.mem_cons_self).2
  have valid := Service.isHeaderValue_of_readable readable
  have typed := Service.gives_withBytes_kind ((Service.gives_contentType valid).set
    (show Text.sameName "Content-Range" Property.contentType = false by decide)
    (Http.ContentRange.written first last payload.length)) valid 206
    (payload.slice first (last + 1))
  rw [Service.serve_slice separator whole wanted] at feeds
  exact not_feeds_of_parse (received_several typed readable several) rfl inside isOpen held lacking
    now feeds

/-- Whatever a complete object has among its properties, the slices of it that a request asks for come
with status 206. They feed a blob that lacks just them if the content type of the object cannot be taken
for the framing of the response, and a single slice feeds it in no other case. -/
theorem feeds_serve (reached : a.Reached) (whole : a.payload? = some payload)
    (wanted : Http.RangeRequest.parse (asked.readable? "Range") payload.length = .slices slices)
    (arises : b.Arises) (awaits : Awaits b slices payload.length) (separator : VersionId)
    (ranges : List ByteRange) (now : Millis) :
    (serve a asked separator).status = 206 ∧
      (Unframing a.contentType slices →
        Feeds (.ofHttp (serve a asked separator)) b ranges slices payload now) ∧
      (slices.length = 1 → Feeds (.ofHttp (serve a asked separator)) b ranges slices payload now →
        Unframing a.contentType slices) := by
  obtain ⟨nonempty, proper⟩ := Http.RangeRequest.proper_parse wanted
  obtain ⟨x, others, rfl⟩ := List.exists_cons_of_ne_nil nonempty
  have first : Asked (x :: others) x.1 :=
    ⟨x, List.mem_cons_self, Nat.le_refl _, (proper x List.mem_cons_self).1⟩
  obtain ⟨s, held, isOpen, lacking⟩ := awaits.assembling arises ⟨x.1, first⟩
  have status := status_serve whole wanted separator
  refine ⟨status, fun unframing => ?_, fun single feeds => ?_⟩
  · have read := slices_serve reached.coherent.distinct whole wanted (Nat.le_of_lt lacking.bounded)
      unframing separator ranges
    exact feeds_of_slices status read isOpen held lacking proper now
  · obtain rfl : others = [] := List.length_eq_zero_iff.mp (Nat.succ.inj single)
    exact unframing_of_feeds whole wanted isOpen held lacking feeds

/-- A blob that has the middle byte of three asks for the two others. -/
theorem feeds_serve_sample :
    sampleObject.Reached ∧ sampleObject.payload? = some [97, 98, 99] ∧
    Http.RangeRequest.parse (Http.Headers.readable? [("range", "bytes=0-0,2-2")] "Range") 3 =
      .slices [(0, 0), (2, 2)] ∧
    sampleReplica.1.Arises ∧ Awaits sampleReplica.1 [(0, 0), (2, 2)] 3 ∧
    Unframing sampleObject.contentType [(0, 0), (2, 2)] ∧
    (serve sampleObject [("range", "bytes=0-0,2-2")] .zero).status = 206 ∧
    Feeds (.ofHttp (serve sampleObject [("range", "bytes=0-0,2-2")] .zero)) sampleReplica.1
      [⟨0, 1⟩, ⟨2, 3⟩] [(0, 0), (2, 2)] [97, 98, 99] 40 := by
  have reached : sampleObject.Reached :=
    ⟨"k", .ofNumber 7, 0, 20, [.applyHeaders Publication.sample.properties.entries 20,
      .setPayload Publication.sample.payload 20, .settle], by decide, by decide +kernel⟩
  have whole : sampleObject.payload? = some [97, 98, 99] := by decide
  have wanted : Http.RangeRequest.parse
      (Http.Headers.readable? [("range", "bytes=0-0,2-2")] "Range") 3 =
        .slices [(0, 0), (2, 2)] := by decide +kernel
  have arises : sampleReplica.1.Arises :=
    .perform (.arrival "k" (.ofNumber 7) 30) (show Fragment.WithinSection _ by decide)
  have awaits : Awaits sampleReplica.1 [(0, 0), (2, 2)] 3 := by
    refine ⟨by decide, [⟨0, 1⟩, ⟨2, 3⟩], by decide, fun i => ?_⟩
    simp [Asked, ByteRange.Has]
    omega
  have printable : Text.IsPrintable sampleObject.contentType := by decide +kernel
  have unframing : Unframing sampleObject.contentType [(0, 0), (2, 2)] :=
    Service.keepsHeaders_of_printable printable
  obtain ⟨status, feeds, _⟩ := feeds_serve reached whole wanted arises awaits .zero
    [⟨0, 1⟩, ⟨2, 3⟩] 40
  exact ⟨reached, whole, wanted, arises, awaits, unframing, status, feeds unframing⟩

def announcingObject : Blob :=
  { sampleObject with
    properties := sampleObject.properties.assign Property.contentType
      "multipart/byteranges;boundary=X" }

/-- All but the first byte has arrived. -/
def sampleRest : Blob :=
  ((Blob.ofArrival "k" (.ofNumber 7) 30).perform
    (.merge ⟨"k", .ofNumber 7, .payload, 3, 1, [98, 99]⟩ 30)).1

/-- The first byte of such an object does not reach a blob that lacks it. -/
theorem announced_not_fed :
    announcingObject.Reached ∧ announcingObject.isComplete = true ∧
    announcingObject.payload? = some [97, 98, 99] ∧
    Http.RangeRequest.parse (Http.Headers.readable? [("range", "bytes=0-0")] "Range") 3 =
      .slices [(0, 0)] ∧
    sampleRest.Arises ∧ Awaits sampleRest [(0, 0)] 3 ∧
    (serve announcingObject [("range", "bytes=0-0")] .zero).status = 206 ∧
    ¬ Feeds (.ofHttp (serve announcingObject [("range", "bytes=0-0")] .zero)) sampleRest [⟨0, 1⟩]
      [(0, 0)] [97, 98, 99] 40 := by
  have reached : announcingObject.Reached :=
    ⟨"k", .ofNumber 7, 0, 20, [.applyHeaders announcingObject.properties.entries 20,
      .setPayload Publication.sample.payload 20, .settle], by decide, by decide +kernel⟩
  have whole : announcingObject.payload? = some [97, 98, 99] := by decide
  have wanted : Http.RangeRequest.parse (Http.Headers.readable? [("range", "bytes=0-0")] "Range") 3 =
      .slices [(0, 0)] := by decide +kernel
  have arises : sampleRest.Arises :=
    .perform (.arrival "k" (.ofNumber 7) 30) (show Fragment.WithinSection _ by decide)
  have awaits : Awaits sampleRest [(0, 0)] 3 := by
    refine ⟨by decide, [⟨0, 1⟩], by decide, fun i => ?_⟩
    simp [Asked, ByteRange.Has]
  obtain ⟨s, held, isOpen, lacking⟩ :=
    awaits.assembling arises ⟨0, asked_one.mpr ⟨Nat.le_refl _, Nat.le_refl _⟩⟩
  refine ⟨reached, rfl, whole, wanted, arises, awaits, status_serve whole wanted .zero, fun feeds => ?_⟩
  have plain := unframing_of_feeds whole wanted isOpen held lacking feeds (by decide +kernel)
  have announced : Http.boundary? announcingObject.contentType = some "X" := by decide +kernel
  cases announced.symm.trans plain

/-- A content type with a blank line in it ends the headers of the first of several parts before its
range is told, and the client refuses the response. -/
theorem apply_ended (whole : a.payload? = some payload) {first second : Nat × Nat}
    {rest : List (Nat × Nat)}
    (wanted : Http.RangeRequest.parse (asked.readable? "Range") payload.length =
      .slices (first :: second :: rest)) (ends : Service.EndsHeaders a.contentType)
    (separator : VersionId) (b : Blob) (ranges : List ByteRange) (now : Millis) :
    apply b (.ranges ranges) (.ofHttp (serve a asked separator)) now =
      (b, some (.parts .noRange)) := by
  have expected : (FetchResponse.ofHttp (serve a asked separator)).status =
      (FetchRequest.ranges ranges).expectedStatus := status_serve whole wanted separator
  have read : Recovery.slices ranges (.ofHttp (serve a asked separator)) =
      .error (.parts .noRange) :=
    (slices_several whole wanted separator ranges).trans
      (Service.parse_ended ends _ payload first (second :: rest))
  simp only [apply, expected, ne_eq, not_true_eq_false, if_false, read]

/-- A line feed at the end is enough. -/
example : Service.EndsHeaders "text/plain\n" :=
  ⟨[], ['\r'], [], by decide, by simp, by decide⟩

end Recovery
end BlobReplica
