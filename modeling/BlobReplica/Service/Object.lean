import BlobReplica.Blob
import BlobReplica.Http.Date
import BlobReplica.Http.Range
import BlobReplica.Service.Error

/-! Objects as responses: their headers and their bytes, whole or in slices. -/

namespace BlobReplica.Service

/-- Properties that never become headers. -/
def withheldProperties : List String :=
  [Property.fileName, "Content-Length", "Content-Range", "Transfer-Encoding", "Connection"]

def etag (b : Blob) : String :=
  "\"" ++ b.version.text ++ "\""

/-- The properties that can be headers, then what the object itself determines. An object is taken to
have fewer properties than a table of headers has room for, see `Http.Headers.set`. -/
def objectHeaders (b : Blob) : Http.Headers :=
  let shown := b.properties.entries.filter fun p => !withheldProperties.any (Text.sameName p.1)
  let headers := shown.foldl (fun (hs : Http.Headers) p => hs.set p.1 p.2) []
  let headers := headers.set Property.validFrom (toString b.validity.start)
  let headers := headers.set Property.validUntil (toString b.validity.stop)
  let headers := headers.set Property.created (toString b.created)
  let headers :=
    if (headers.get? Property.lastModified).isSome then headers
    else match Http.date? b.created with
      | some date => headers.set Property.lastModified date
      | none => headers
  let name := String.ofList (b.fileName.toList.map fun c => if c == '"' then '\'' else c)
  let headers := headers.set "Content-Disposition" ("inline;filename=\"" ++ name ++ "\"")
  let headers := headers.set Property.contentType b.contentType
  let headers := headers.set "ETag" (etag b)
  headers.set "Accept-Ranges" "bytes"

/-- A response with bytes; they count as binary data unless the headers say otherwise. -/
def withBytes (status : Nat) (headers : Http.Headers) (body : Bytes) : Http.Response :=
  let kind := (headers.get? Property.contentType).getD Property.defaultContentType
  { status, headers := headers.set Property.contentType kind, body }

def part (b : Blob) (boundary : String) (payload : Bytes) (slice : Nat × Nat) : Bytes :=
  Utf8.encode (s!"\x0d\n--{boundary}\x0d\nContent-Type: {b.contentType}\x0d\n" ++
    s!"Content-Range: bytes {slice.1}-{slice.2}/{payload.length}\x0d\n\x0d\n") ++
    payload.slice slice.1 (slice.2 + 1)

/-- All slices and the closing delimiter. -/
def multipartBody (b : Blob) (boundary : String) (payload : Bytes) (slices : List (Nat × Nat)) :
    Bytes :=
  slices.flatMap (part b boundary payload) ++ Utf8.encode s!"\x0d\n--{boundary}--\x0d\n"

/-- What stands between several slices; `separator` tells responses apart. -/
def boundaryText (separator : VersionId) : String :=
  "THIS_STRING_SEPARATES_" ++ separator.text

/-- The response that carries a complete blob, or those slices of it that a request asks for. -/
def serve (b : Blob) (requestHeaders : Http.Headers) (separator : VersionId) : Http.Response :=
  match b.payload? with
  | none => Error.notFound.response
  | some payload =>
    let size := payload.length
    let headers := objectHeaders b
    match Http.RangeRequest.parse (requestHeaders.readable? "Range") size with
    | .full => withBytes 200 headers payload
    | .unsatisfiable => { status := 416, headers := [("content-range", s!"bytes */{size}")] }
    | .slices [(first, last)] =>
      withBytes 206 (headers.set "Content-Range" s!"bytes {first}-{last}/{size}")
        (payload.slice first (last + 1))
    | .slices slices =>
      let boundary := boundaryText separator
      withBytes 206 (headers.set Property.contentType s!"multipart/byteranges; boundary={boundary}")
        (multipartBody b boundary payload slices)

end BlobReplica.Service
