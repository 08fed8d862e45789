import BlobReplica.Proofs.Service.Object
import BlobReplica.Recovery.Attempt

/-! What the service answers to a request for missing pieces: the status that the recovering side
expects, headers that describe the object, and the bytes that were asked for. -/

namespace BlobReplica

def Http.IsByteRanges (contentType : String) : Prop :=
  Text.sameName (Text.trim ((Text.split ';' contentType).headD "")) "multipart/byteranges" = true

instance (contentType : String) : Decidable (Http.IsByteRanges contentType) :=
  inferInstanceAs (Decidable (_ = true))

theorem Http.boundary?_of_other {contentType : String} (other : ¬ IsByteRanges contentType) :
    boundary? contentType = none := by
  rw [boundary?]
  split
  next kind rest pieces =>
    rw [IsByteRanges, pieces, List.headD_cons] at other
    rw [if_neg other]
  next => rfl

namespace Recovery

variable {a : Blob} {payload : Bytes} {separator : VersionId} {target : String}
  {request : FetchRequest} {ranges : List ByteRange} {r : FetchResponse}

/-- What the service of an object answers to a request, as it reaches the one that asked. -/
def answer (a : Blob) (separator : VersionId) (target : String) (request : FetchRequest) :
    FetchResponse :=
  let response := Service.serve a (request.toHttp target).headers separator
  { status := response.status
    headers := response.headers
    body := if request = .head then [] else response.body }

/-- Non-empty intervals inside an object of this size. -/
structure Inside (ranges : List ByteRange) (size : Nat) : Prop where
  solid : ∀ r ∈ ranges, r.start < r.stop
  below : ∀ r ∈ ranges, r.stop ≤ size
  fits : size ≤ Text.maxWord

/-- The intervals as the parts of a response. -/
def partsOf (payload : Bytes) (ranges : List ByteRange) : List BytePart :=
  ranges.map fun r => ⟨r.start, payload.slice r.start r.stop⟩

/-- Whether a response has the bytes that a request asks for. -/
def Carries (r : FetchResponse) (payload : Bytes) : FetchRequest → Prop
  | .full => r.body = payload
  | .head => True
  | .ranges ranges => slices ranges r = .ok (partsOf payload ranges)

/-- A response that gives what was asked for. -/
structure Answers (r : FetchResponse) (a : Blob) (payload : Bytes) (request : FetchRequest) :
    Prop where
  status : r.status = request.expectedStatus
  describes : Service.Describes r.headers a
  carries : Carries r payload request

theorem parse_toHttp (nonempty : ranges ≠ []) {size : Nat} (inside : Inside ranges size)
    (target : String) :
    Http.RangeRequest.parse (((FetchRequest.ranges ranges).toHttp target).headers.readable? "Range")
      size = .slices (ranges.map fun r => (r.start, r.stop - 1)) := by
  have named : Text.sameName "range" "Range" = true := by decide
  have found : Http.Headers.readable? ((FetchRequest.ranges ranges).toHttp target).headers "Range" =
      some (FetchRequest.rangeHeader ranges) := by
    simp [FetchRequest.toHttp, Http.Headers.readable?, Http.Headers.get?, named,
      Http.RangeRequest.isReadable_rangeHeader inside.solid]
  rw [found]
  exact Http.RangeRequest.parse_rangeHeader nonempty inside.solid inside.below inside.fits

variable {status : Nat} {kind value : String} {headers : Http.Headers} {body : Bytes}
  {response : Http.Response}

theorem announced (typed : headers.Gives Property.contentType kind) :
    (headers.get? "Content-Type").bind Http.boundary? = Http.boundary? kind := by
  rw [show headers.get? "Content-Type" = some kind from typed.get?, Option.bind_some]

theorem slices_multipart {boundary : String} {parts : List BytePart}
    (several : (r.headers.get? "Content-Type").bind Http.boundary? = some boundary)
    (parsed : BytePart.parse r.body boundary = .ok parts) : slices ranges r = .ok parts := by
  simp only [slices, several, parsed]

theorem slices_single {range : Http.ContentRange}
    (plain : (r.headers.get? "Content-Type").bind Http.boundary? = none)
    (placed : r.headers.get? "Content-Range" = some value)
    (parsed : Http.ContentRange.parse? value = some range) :
    slices ranges r = .ok [⟨range.first, r.body⟩] := by
  simp only [slices, plain, placed, parsed]

theorem answers_of_delivers (delivers : Service.Delivers
      (Service.serve a (request.toHttp target).headers separator) a request.expectedStatus kind body)
    (carries : Carries ⟨request.expectedStatus,
      (Service.serve a (request.toHttp target).headers separator).headers, body⟩ payload request) :
    Answers (answer a separator target request) a payload request := by
  rw [answer]
  refine ⟨delivers.status, delivers.describes, ?_⟩
  cases request with
  | head => trivial
  | full | ranges => simpa only [reduceCtorEq, if_false, delivers.status, delivers.body] using carries

/-- Whether a request asks for positions inside an object of this size. -/
def Wanted (size : Nat) : FetchRequest → Prop
  | .ranges ranges => ranges ≠ [] ∧ Inside ranges size
  | _ => True

section Served

variable (separator : VersionId) (target : String) (distinct : a.properties.DistinctNames)
  (printable : ∀ e ∈ a.properties.entries, Text.IsPrintable e.2) (whole : a.payload? = some payload)

include distinct printable whole

theorem answers_slice {range : ByteRange} (plain : ¬ Http.IsByteRanges a.contentType)
    (inside : Inside [range] payload.length) :
    Answers (answer a separator target (.ranges [range])) a payload (.ranges [range]) := by
  have solid := inside.solid range List.mem_cons_self
  have below := inside.below range List.mem_cons_self
  obtain ⟨delivers, placed⟩ := Service.delivers_slice separator distinct printable whole
    (parse_toHttp (List.cons_ne_nil _ _) inside target)
  rw [Nat.sub_add_cancel (by omega)] at delivers
  have read : Http.ContentRange.parse?
      (Http.ContentRange.written range.start (range.stop - 1) payload.length) =
      some ⟨range.start, range.stop - 1, some payload.length⟩ :=
    Http.ContentRange.parse?_written (by omega) (by omega) inside.fits
  refine answers_of_delivers delivers ?_
  exact slices_single ((announced delivers.kind).trans (Http.boundary?_of_other plain)) placed.get? read

theorem answers_slices {first second : ByteRange} {rest : List ByteRange}
    (inside : Inside (first :: second :: rest) payload.length) :
    Answers (answer a separator target (.ranges (first :: second :: rest))) a payload
      (.ranges (first :: second :: rest)) := by
  have delivers := Service.delivers_slices separator distinct printable whole
    (parse_toHttp (List.cons_ne_nil _ _) inside target)
  have proper : ∀ s ∈ (first :: second :: rest).map fun r => (r.start, r.stop - 1),
      s.1 ≤ s.2 ∧ s.2 < payload.length := by
    intro s member
    obtain ⟨r, listed, rfl⟩ := List.mem_map.mp member
    have solid := inside.solid r listed
    have below := inside.below r listed
    exact ⟨by simp only; omega, by simp only; omega⟩
  have parsed := Service.parse_multipartBody
    (Service.keepsHeaders_of_printable (Service.printable_contentType printable))
    (Service.boundaryText separator) inside.fits proper
  have parts : ((first :: second :: rest).map fun r => (r.start, r.stop - 1)).map
      (fun s => (⟨s.1, payload.slice s.1 (s.2 + 1)⟩ : BytePart)) =
      partsOf payload (first :: second :: rest) := by
    rw [List.map_map, partsOf]
    refine List.map_congr_left fun r listed => ?_
    have solid := inside.solid r listed
    simp only [Function.comp_apply]
    rw [Nat.sub_add_cancel (by omega)]
  rw [parts] at parsed
  refine answers_of_delivers delivers ?_
  exact slices_multipart ((announced delivers.kind).trans (Service.boundary?_kindText separator)) parsed

/-- The service of an object answers whatever is asked for inside it. -/
theorem answers_answer (plain : ¬ Http.IsByteRanges a.contentType)
    (wanted : Wanted payload.length request) :
    Answers (answer a separator target request) a payload request := by
  cases request with
  | full =>
    exact answers_of_delivers (Service.delivers_whole separator distinct printable whole rfl) rfl
  | head =>
    exact answers_of_delivers (Service.delivers_whole separator distinct printable whole rfl) trivial
  | ranges ranges =>
    obtain ⟨nonempty, inside⟩ := wanted
    cases ranges with
    | nil => exact absurd rfl nonempty
    | cons first rest =>
      cases rest with
      | nil => exact answers_slice separator target distinct printable whole plain inside
      | cons second rest => exact answers_slices separator target distinct printable whole inside

end Served
end Recovery
end BlobReplica
