import BlobReplica.Bytes
import BlobReplica.Http.Header
import BlobReplica.Text.Hex
import BlobReplica.Text.Search
import BlobReplica.Text.Utf8

/-! Requests and responses. Names of response headers are in lower case. -/

namespace BlobReplica.Http

structure Request where
  method : String
  /-- Path and query as they were sent, scheme and host possibly before them. -/
  target : String
  headers : Headers := []
  body : Bytes := []

structure Response where
  status : Nat
  headers : Headers := []
  body : Bytes := []

def isTokenChar (c : Char) : Bool :=
  c.isAlphanum || "!#$%&'*+-.^_\x60|~".toList.contains c

def isHeaderName (name : String) : Bool :=
  name ≠ "" && name.toList.all isTokenChar

/-- Whether a text can be a header value: no control characters but tabs. -/
def isHeaderValue (value : String) : Bool :=
  value.toList.all fun c => c == '\t' || (0x20 ≤ c.toNat && c != '\x7f')

namespace Headers

/-- Gives a header its only value; a name or value that no header can have changes nothing. There is
always room for one more: a table of headers that overflows, as it would past 2^15 names, is not
modelled. -/
def set (headers : Headers) (name value : String) : Headers :=
  if isHeaderName name && isHeaderValue value then
    headers.filter (fun h => !Text.sameName h.1 name) ++ [(Text.lower name, value)]
  else headers

end Headers

def endsPath (c : Char) : Bool :=
  c == '?' || c == '#'

/-- The path of a request target, without query and fragment. A target that starts with a scheme
has a host before the path, and then a path that is left out is a slash. -/
def pathOf (target : String) : String :=
  let path (cs : List Char) := String.ofList (cs.takeWhile fun c => !endsPath c)
  let cs := target.toList
  if cs.head? = some '/' then path cs
  else match Text.after? "://".toList cs with
  | none => path cs
  | some rest =>
    let behindHost := path (rest.dropWhile fun c => c != '/' && !endsPath c)
    if behindHost = "" then "/" else behindHost

/-- The bytes that a path stands for: each percent sign with two digits after it is one byte. -/
def percentDecode : Bytes → Bytes
  | [] => []
  | [b] => [b]
  | [b, c] => [b, c]
  | b :: c :: d :: rest =>
    if b = 0x25 then
      match Text.hexValue? (Char.ofNat c.toNat), Text.hexValue? (Char.ofNat d.toNat) with
      | some high, some low => UInt8.ofNat (high * 16 + low) :: percentDecode rest
      | _, _ => b :: percentDecode (c :: d :: rest)
    else b :: percentDecode (c :: d :: rest)

def decodedPath? (path : String) : Option String :=
  Utf8.decode? (percentDecode (Utf8.encode path))

namespace Response

def text (status : Nat) (message : String) : Response :=
  { status, headers := [("content-type", "text/plain; charset=utf-8")], body := Utf8.encode message }

end Response
end BlobReplica.Http
