import BlobReplica.Proofs.Datagram.Bounds
import BlobReplica.Proofs.Service.Object

/-! What a request for a complete object is answered, by its range field. A field that asks for slices has
them cut out of the payload, inside its ends; any other field is unsatisfiable, and without one the whole
payload is sent. -/

namespace BlobReplica.Service

open Http (Headers RangeRequest)
open Http.RangeRequest (Asks Proper)

variable {b : Blob} {payload : Bytes} {asked : Headers} {slices : List (Nat × Nat)} {header : String}

/-- What stands before the bytes of one slice of several. -/
def partHead (b : Blob) (boundary : String) (size : Nat) (slice : Nat × Nat) : Bytes :=
  Utf8.encode (s!"\x0d\n--{boundary}\x0d\nContent-Type: {b.contentType}\x0d\n" ++
    s!"Content-Range: bytes {slice.1}-{slice.2}/{size}\x0d\n\x0d\n")

def part? (b : Blob) (boundary : String) (payload : Bytes) (slice : Nat × Nat) : Option Bytes :=
  (payload.between? slice.1 (slice.2 + 1)).map (partHead b boundary payload.length slice ++ ·)

/-- `serve`, with every slice cut out only where there is one. -/
def serve? (b : Blob) (requestHeaders : Headers) (separator : VersionId) : Option Http.Response :=
  match b.payload? with
  | none => some Error.notFound.response
  | some payload =>
    let size := payload.length
    let headers := objectHeaders b
    match RangeRequest.parse (requestHeaders.readable? "Range") size with
    | .full => some (withBytes 200 headers payload)
    | .unsatisfiable => some { status := 416, headers := [("content-range", s!"bytes */{size}")] }
    | .slices [(first, last)] =>
      (payload.between? first (last + 1)).map
        (withBytes 206 (headers.set "Content-Range" s!"bytes {first}-{last}/{size}"))
    | .slices slices =>
      let boundary := boundaryText separator
      (slices.mapM (part? b boundary payload)).map fun parts =>
        withBytes 206 (headers.set Property.contentType s!"multipart/byteranges; boundary={boundary}")
          (parts.flatten ++ Utf8.encode s!"\x0d\n--{boundary}--\x0d\n")

theorem between?_of_proper {slice : Nat × Nat} (proper : Proper payload.length slice) :
    payload.between? slice.1 (slice.2 + 1) = some (payload.slice slice.1 (slice.2 + 1)) :=
  Bytes.between?_eq (Nat.le_succ_of_le proper.1) proper.2

theorem mapM_part? (proper : ∀ s ∈ slices, Proper payload.length s) (b : Blob) (boundary : String) :
    slices.mapM (part? b boundary payload) = some (slices.map (part b boundary payload)) := by
  induction slices with
  | nil => rfl
  | cons s rest ih =>
    have cut : part? b boundary payload s = some (part b boundary payload s) := by
      rw [part?, between?_of_proper (proper s List.mem_cons_self)]
      rfl
    rw [List.mapM_cons, cut, ih fun x member => proper x (List.mem_cons_of_mem _ member)]
    rfl

/-- No slice that is served leaves the payload. -/
theorem serve?_eq (b : Blob) (asked : Headers) (separator : VersionId) :
    serve? b asked separator = some (serve b asked separator) := by
  rw [serve?, serve]
  cases b.payload? with
  | none => rfl
  | some payload =>
    simp only
    cases wanted : RangeRequest.parse (asked.readable? "Range") payload.length with
    | full => rfl
    | unsatisfiable => rfl
    | slices slices =>
      have proper := (RangeRequest.proper_parse wanted).2
      match slices with
      | [] => rfl
      | [(first, last)] =>
        simp only
        rw [between?_of_proper (proper (first, last) List.mem_cons_self), Option.map_some]
      | first :: second :: rest =>
        simp only
        rw [mapM_part? proper, Option.map_some, multipartBody, List.flatMap_def]

theorem serve_unsatisfiable (whole : b.payload? = some payload)
    (refused : RangeRequest.parse (asked.readable? "Range") payload.length = .unsatisfiable)
    (separator : VersionId) : (serve b asked separator).status = 416 := by
  simp only [serve, whole, refused]

/-- A field asks for slices by its grammar and is otherwise unsatisfiable. The slices that it asks for lie
inside the payload, and no cut leaves it; a single one is sent by itself under its place, the whole payload
where there is no field, and nothing where it is unsatisfiable. -/
theorem serve_ranges (whole : b.payload? = some payload) (separator : VersionId) :
    (∀ size header found,
      (RangeRequest.parse (some header) size = .slices found ↔ Asks size header found) ∧
      (RangeRequest.parse (some header) size = .unsatisfiable ↔ ∀ found, ¬ Asks size header found) ∧
      (Asks size header found → ∀ s ∈ found, s.1 ≤ s.2 ∧ s.2 < size)) ∧
    (∀ asked, serve? b asked separator = some (serve b asked separator)) ∧
    (∀ asked, asked.readable? "Range" = none →
      (serve b asked separator).status = 200 ∧ (serve b asked separator).body = payload) ∧
    ∀ asked header, asked.readable? "Range" = some header →
      (∀ first last, Asks payload.length header [(first, last)] →
        (serve b asked separator).status = 206 ∧
        (serve b asked separator).body = payload.slice first (last + 1) ∧
        (serve b asked separator).headers.Gives "Content-Range"
          s!"bytes {first}-{last}/{payload.length}") ∧
      ((∀ found, ¬ Asks payload.length header found) → (serve b asked separator).status = 416) := by
  refine ⟨fun size header found => ⟨RangeRequest.parse_eq_slices_iff,
    RangeRequest.parse_eq_unsatisfiable_iff, fun asks => asks.proper.2⟩,
    fun asked => serve?_eq b asked separator, ?_, ?_⟩
  · intro asked unranged
    rw [serve_whole separator whole unranged]
    exact ⟨rfl, rfl⟩
  · intro asked header ranged
    constructor
    · intro first last asks
      have wanted : RangeRequest.parse (asked.readable? "Range") payload.length =
          .slices [(first, last)] := by
        rw [ranged]
        exact RangeRequest.parse_eq_slices_iff.mpr asks
      rw [serve_slice separator whole wanted]
      exact ⟨rfl, rfl, gives_withBytes (gives_place _ first last _) (by decide +kernel) 206 _⟩
    · intro none
      apply serve_unsatisfiable whole
      rw [ranged]
      exact RangeRequest.parse_eq_unsatisfiable_iff.mpr none

def threeBytes : Blob :=
  { Blob.ofArrival "k" (.ofNumber 7) 20 with
    status := .complete, size := some 3, payload := .verified [97, 98, 99]
    properties := .ofList [(Property.contentMd5, "900150983cd24fb0d6963f7d28e17f72")] }

/-- A blank item is left out, and the other asks for the last two bytes. -/
theorem serve_ranges_sample :
    threeBytes.payload? = some [97, 98, 99] ∧
    Headers.readable? [("range", "bytes= , -2")] "Range" = some "bytes= , -2" ∧
    Asks 3 "bytes= , -2" [(1, 2)] ∧
    (serve threeBytes [("range", "bytes= , -2")] .zero).status = 206 ∧
    (serve threeBytes [("range", "bytes= , -2")] .zero).body = [98, 99] := by
  have whole : threeBytes.payload? = some [97, 98, 99] := rfl
  have ranged : Headers.readable? [("range", "bytes= , -2")] "Range" = some "bytes= , -2" := by
    decide +kernel
  obtain ⟨reads, _, _, answers⟩ := serve_ranges whole .zero
  have asks : Asks 3 "bytes= , -2" [(1, 2)] := (reads 3 _ _).1.mp (by decide +kernel)
  obtain ⟨status, body, _⟩ := (answers _ _ ranged).1 1 2 asks
  exact ⟨whole, ranged, asks, status, body⟩

end BlobReplica.Service
