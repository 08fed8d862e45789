import BlobReplica.Text.Blank
import BlobReplica.Text.Letters

/-! Header fields of requests and responses. Names compare without regard to case; of several
fields with one name the first counts. -/

namespace BlobReplica.Http

abbrev Headers := List (String × String)

namespace Headers

def get? (headers : Headers) (name : String) : Option String :=
  (headers.find? fun h => Text.sameName h.1 name).map (·.2)

/-- Whether a value holds visible ASCII characters, spaces and tabs only. -/
def isReadable (value : String) : Bool :=
  value.toList.all fun c => c == '\t' || (0x20 ≤ c.toNat && c.toNat < 0x7f)

/-- The first field of that name, unless its value is unreadable. -/
def readable? (headers : Headers) (name : String) : Option String :=
  (headers.get? name).filter isReadable

end Headers

/-- The value of a parameter without the quotes around it. -/
def unquoted (raw : String) : String :=
  match raw.toList with
  | '"' :: rest =>
    if rest.getLast? = some '"' then String.ofList rest.dropLast else raw
  | _ => raw

/-- The value of the first parameter of that name among those after a semicolon-separated list's
first `skip` members. -/
def parameter? (skip : Nat) (value name : String) (usable : String → Bool) : Option String :=
  ((Text.split ';' value).drop skip).findSome? fun item => do
    let (key, raw) ← Text.cutAt '=' (Text.trim item)
    if Text.sameName (Text.trim key) name then
      let text := unquoted (Text.trim raw)
      if usable text then some text else none
    else none

def dispositionFileName? (value : String) : Option String :=
  parameter? 0 value "filename" (· ≠ "")

/-- The boundary of a content type for several byte ranges. -/
def boundary? (contentType : String) : Option String :=
  match Text.split ';' contentType with
  | kind :: _ =>
    if Text.sameName (Text.trim kind) "multipart/byteranges" then
      parameter? 1 contentType "boundary" fun _ => true
    else none
  | [] => none

end BlobReplica.Http
