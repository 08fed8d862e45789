import BlobReplica.ObjectRequest
import BlobReplica.Service.Object
import BlobReplica.Service.Summary

/-! What the service does with a request whose route is known: it serves, describes, stores or
removes objects of the cache. -/

namespace BlobReplica.Service

/-- What a response needs besides cache and request. -/
structure Occasion where
  clock : Millis
  /-- The version that an upload gets. -/
  fresh : VersionId
  /-- Tells the delimiter of one response from that of others. -/
  separator : VersionId

def jsonResponse (status : Nat) (document : Document) : Http.Response :=
  { status, headers := [("content-type", "application/json")], body := Utf8.encode document.render }

/-- Adds a location to a response. A location that no header can hold is reported in place of the
response, under the status `failing`. -/
def withLocation (r : Http.Response) (failing : Nat) (location : String) : Http.Response :=
  if Http.isHeaderValue location then { r with headers := r.headers.set "Location" location }
  else Http.Response.text failing "failed to parse header value"

/-- Where an object is found again. -/
def objectLocation (b : Blob) : String :=
  s!"/{b.key}/{b.validity.start}/{b.version.text}"

def request (path : String) (headers : Http.Headers) (timeRequired : Bool) :
    Except Error ObjectRequest :=
  (ObjectRequest.parse path headers timeRequired).mapError fun e => .badRequest e.message

def best (c : Cache) (r : ObjectRequest) : Except Error Blob :=
  match c.lookupBest r.key r.constraints with
  | some b => .ok b
  | none => .error .notFound

/-- Serves the first complete blob of a version. -/
def download (c : Cache) (id : String) (headers : Http.Headers) (separator : VersionId) :
    Except Error Http.Response :=
  match VersionId.parse? id with
  | none => .error (.badRequest ("invalid version id " ++ id))
  | some v =>
    match c.findVersion? v with
    | some b => if b.isComplete then .ok (serve b headers separator) else .error .notFound
    | none => .error .notFound

/-- Serves the best match of a path with a version, and redirects to that of one without. -/
def getObject (c : Cache) (path : String) (headers : Http.Headers) (separator : VersionId) :
    Except Error Http.Response := do
  let r ← request path headers true
  let b ← best c r
  if r.cachedVersion = some b.version then
    return { status := 304, headers := [("etag", etag b)] }
  else if r.version.isSome then return serve b headers separator
  else return withLocation { status := 302 } 302 (objectLocation b)

def deleteObject (c : Cache) (path : String) (headers : Http.Headers) :
    Except Error (Cache × Http.Response) := do
  let r ← request path headers true
  let b ← best c r
  match c.remove b.key b.version with
  | (c, some _) => return (c, { status := 204 })
  | (_, none) => throw .notFound

/-- Properties that an upload determines itself. -/
def reservedProperties : List String :=
  [Property.validFrom, Property.validUntil, Property.created, Property.contentMd5,
    Property.contentType]

/-- The properties of an upload: the path's flags, its times and what the body shows. -/
def uploadProperties (flags : Properties) (start : Millis) (stop : Option Millis) (clock : Millis)
    (contentType : Option String) (body : Bytes) : Properties :=
  let ps := flags.filter fun name _ => !reservedProperties.any (Text.sameName · name)
  let ps := Table.insert ps Property.validFrom (toString start)
  let ps := match stop with
    | some stop => Table.insert ps Property.validUntil (toString stop)
    | none => ps
  let ps := Table.insert ps Property.created (toString clock)
  let ps := Table.insert ps Property.contentMd5 (Digest.md5Hex body)
  match contentType with
  | some kind => Table.insert ps Property.contentType kind
  | none => ps

def upload (c : Cache) (path : String) (headers : Http.Headers) (body : Bytes) (o : Occasion) :
    Except Error (Cache × Http.Response) :=
  match request path headers true with
  | .error e => .error e
  | .ok r =>
    if r.version.isSome then .error (.badRequest "uploads are assigned a new version")
    else match r.startTime with
    | none => .error (.badRequest "missing start time")
    | some start =>
      match r.endTime.filter (· ≤ start) with
      | some stop => .error (.badRequest s!"end time {stop} is not after start time {start}")
      | none =>
        let properties := uploadProperties r.flags start r.endTime o.clock
          (headers.readable? Property.contentType) body
        match c.insertObject r.key o.fresh properties body o.clock with
        | .error e => .error (.cache e)
        | .ok (c, b) =>
          .ok (c, withLocation (jsonResponse 201 (objectSummary b)) 500 (objectLocation b))

/-- Lists the matching objects, and the folders below a path without wildcards. -/
def browse (c : Cache) (path : String) (headers : Http.Headers) : Except Error Http.Response := do
  let r ← request path headers false
  let listing := r.listing
  let objects := (c.findAll listing).map objectSummary
  let folders := match listing.pattern with
    | .wildcard _ => []
    | _ => [("subfolders", Document.object
        ((c.subfolders r.key).entries.map fun (n, s) => (n, folderSummary s)))]
  return jsonResponse 200 (.object
    ([("path", .string r.key), ("objects", .array objects)] ++ folders))

end BlobReplica.Service
