import BlobReplica.Http.Message
import BlobReplica.RangeSet
import BlobReplica.Recovery.Error
import BlobReplica.Validity

/-! The authority: a server that holds every object and answers requests for missing pieces. -/

namespace BlobReplica.Recovery

inductive FetchRequest where
  /-- Headers and all bytes. -/
  | full
  /-- Headers only. -/
  | head
  | ranges (ranges : List ByteRange)
deriving DecidableEq, Repr

namespace FetchRequest

/-- The value of a `Range` header for the non-empty intervals among `ranges`. -/
def rangeHeader (ranges : List ByteRange) : String :=
  "bytes=" ++ ",".intercalate
    ((ranges.filter fun r => r.start < r.stop).map fun r => s!"{r.start}-{r.stop - 1}")

def text : FetchRequest → String
  | .full => "GET"
  | .head => "HEAD"
  | .ranges rs => "GET " ++ rangeHeader rs

def toHttp (r : FetchRequest) (target : String) : Http.Request :=
  match r with
  | .full => { method := "GET", target }
  | .head => { method := "HEAD", target }
  | .ranges rs => { method := "GET", target, headers := [("range", rangeHeader rs)] }

/-- The status of a response that carries what was asked for. -/
def expectedStatus : FetchRequest → Nat
  | .ranges _ => 206
  | _ => 200

end FetchRequest

structure FetchResponse where
  status : Nat
  headers : Http.Headers
  body : Bytes

/-- A response as it comes in over HTTP; headers with unreadable values are left out. -/
def FetchResponse.ofHttp (r : Http.Response) : FetchResponse :=
  { status := r.status
    headers := r.headers.filter fun h => Http.Headers.isReadable h.2
    body := r.body }

/-- Where the authority is and how patient recovery is. -/
structure Settings where
  /-- Recovery is off without one. -/
  baseUrl : Option String := none
  /-- Quiet time after the last touch before a blob is recovered. -/
  grace : Millis := 10000
  connectTimeout : Millis := 5000
  requestTimeout : Millis := 5000
deriving DecidableEq, Repr

namespace Settings

def isEnabled (s : Settings) : Bool :=
  s.baseUrl.any fun url => Text.trim url ≠ ""

end Settings

/-- The address of an authority, ending in a slash. -/
structure Authority where
  base : String
deriving DecidableEq, Repr

namespace Authority

def ofUrl (url : String) : Except Error Authority :=
  let url := Text.trim url
  let startsWith (start : String) := start.toList.isPrefixOf url.toList
  if startsWith "http://" || startsWith "https://" then
    .ok ⟨if url.toList.getLast? = some '/' then url else url ++ "/"⟩
  else .error (.baseUrl url)

def ofSettings (s : Settings) : Except Error (Option Authority) :=
  match s.baseUrl with
  | some url => if s.isEnabled then (ofUrl url).map some else .ok none
  | none => .ok none

/-- Where a version is downloaded from, below the base. -/
def target (version : VersionId) : String :=
  "download/" ++ version.text

def url (a : Authority) (version : VersionId) : String :=
  a.base ++ target version

end Authority
end BlobReplica.Recovery
