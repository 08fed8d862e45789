import BlobReplica.Service.Api

/-! Routes and methods of the service. -/

namespace BlobReplica.Service

/-- What a path addresses; texts are still percent-encoded. -/
inductive Route where
  | health
  | download (id : String)
  | browseRoot
  | browse (path : String)
  | object (path : String)
deriving DecidableEq, Repr

namespace Route

/-- Finds the route of what follows `/download/`. A single element is a version identifier, with a
slash behind it leads nowhere, and anything else belongs to the path of an object. -/
def ofDownload? (rest : String) : Option Route :=
  match rest.toList.dropWhile (· != '/') with
  | [] => some (if rest = "" then .object "download/" else .download rest)
  | [_] => none
  | _ => some (.object ("download/" ++ rest))

/-- Finds the route of a path. A slash behind the path of a narrower route leads nowhere. -/
def ofPath? (path : String) : Option Route :=
  if path = "/health" then some .health
  else if path = "/browse" then some .browseRoot
  else if path = "/health/" ∨ path = "/browse/" then none
  else match Text.dropStart "/browse/" path with
  | some rest => some (.browse rest)
  | none =>
    match Text.dropStart "/download/" path with
    | some rest => ofDownload? rest
    | none =>
      match Text.dropStart "/" path with
      | some rest => if rest = "" then none else some (.object rest)
      | none => none

def methods : Route → List String
  | .object _ => ["GET", "HEAD", "POST", "PUT", "DELETE"]
  | _ => ["GET", "HEAD"]

end Route

/-- How the service is set up. -/
structure Policy where
  maxUploadSize : Nat := 100 * 1024 * 1024
  /-- Whether pages of any origin may read responses. -/
  permissiveCors : Bool := false

/-- The text of a path element, or the refusal of one that is no text. -/
def decoded (name raw : String) (f : String → Except Error (Cache × Http.Response)) :
    Except Http.Response (Cache × Http.Response) :=
  match Http.decodedPath? raw with
  | none => .error (Http.Response.text 400 ("Invalid URL: Invalid UTF-8 in \x60" ++ name ++ "\x60"))
  | some text => (f text).mapError Error.response

def answer (p : Policy) (c : Cache) (r : Http.Request) (o : Occasion) (route : Route) :
    Except Http.Response (Cache × Http.Response) :=
  let unchanged (x : Except Error Http.Response) := x.map fun response => (c, response)
  match route, r.method with
  | .health, _ => .ok (c, jsonResponse 200 (healthSummary c))
  | .download raw, _ =>
    decoded "id" raw fun id => unchanged (download c id r.headers o.separator)
  | .browseRoot, _ => (unchanged (browse c "" r.headers)).mapError Error.response
  | .browse raw, _ => decoded "path" raw fun path => unchanged (browse c path r.headers)
  | .object _, "PUT" => .ok (c, { status := 501 })
  | .object raw, "POST" =>
    decoded "path" raw fun path =>
      if p.maxUploadSize < r.body.length then
        .ok (c, Http.Response.text 413 "Failed to buffer the request body: length limit exceeded")
      else upload c path r.headers r.body o
  | .object raw, "DELETE" => decoded "path" raw fun path => deleteObject c path r.headers
  | .object raw, _ =>
    decoded "path" raw fun path => unchanged (getObject c path r.headers o.separator)

/-- The answer to a request before its length is stated. -/
def routed (p : Policy) (c : Cache) (r : Http.Request) (o : Occasion) :
    Cache × Http.Response :=
  match Route.ofPath? (Http.pathOf r.target) with
  | none => (c, { status := 404 })
  | some route =>
    if r.method ∈ route.methods then
      match answer p c r o route with
      | .ok result => result
      | .error response => (c, response)
    else (c, { status := 405 })

def allowHeader (r : Http.Request) : Http.Headers :=
  match Route.ofPath? (Http.pathOf r.target) with
  | none => []
  | some route =>
    if r.method ∈ route.methods then [] else [("allow", ",".intercalate route.methods)]

def varyHeader : String × String :=
  ("vary", "origin, access-control-request-method, access-control-request-headers")

/-- Opens a response to pages of any origin; a request for what is allowed is answered as such. -/
def opened (r : Http.Request) (o : Cache × Http.Response) (unanswered : Cache) :
    Cache × Http.Response :=
  if r.method = "OPTIONS" then
    (unanswered, { status := 200, headers := [("access-control-allow-origin", "*"), varyHeader,
      ("access-control-allow-methods", "*"), ("access-control-allow-headers", "*")] })
  else
    let headers := (o.2.headers.set "access-control-allow-origin" "*").set
      "access-control-expose-headers" "*"
    (o.1, { o.2 with headers := headers ++ [varyHeader] })

/-- Answers a request, and gives the cache after it. -/
def handle (p : Policy) (c : Cache) (r : Http.Request) (o : Occasion) : Cache × Http.Response :=
  let result := routed p c r o
  let (c, response) := if p.permissiveCors then opened r result c else result
  let headers := response.headers ++ allowHeader r
  let headers := headers ++ [("content-length", toString response.body.length)]
  (c, { response with headers, body := if r.method = "HEAD" then [] else response.body })

end BlobReplica.Service
