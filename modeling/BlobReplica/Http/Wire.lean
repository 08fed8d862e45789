import BlobReplica.Http.Message
import BlobReplica.Text.Decimal
import BlobReplica.Text.Search

/-! Messages as they travel over a connection: a first line, header lines, an empty line, and a
body whose length a header states. -/

namespace BlobReplica.Http

structure Head where
  first : String
  headers : Headers

namespace Head

private def lineEnd : Bytes := [0x0d, 0x0a]

def field? (line : String) : Option (String × String) := do
  let (name, value) ← Text.cutAt ':' line
  if isHeaderName name then some (name, Text.trim value) else none

def ofText? (text : String) : Option Head := do
  match (Text.split '\n' text).map fun line =>
    String.ofList (Text.trimOf '\x0d' line.toList) with
  | [] => none
  | first :: fields => return ⟨first, ← fields.mapM field?⟩

/-- The head of what has been received, if it is all there, and the bytes behind it. A head that
cannot be read is none. -/
def read? (received : Bytes) : Option (Option Head × Bytes) := do
  let rest ← Text.after? (lineEnd ++ lineEnd) received
  let front := received.take (received.length - rest.length - 4)
  return ((Utf8.decode? front).bind ofText?, rest)

def bodyLength (h : Head) : Nat :=
  ((h.headers.get? "Content-Length").bind Text.readWord).getD 0

def write (h : Head) (body : Bytes) : Bytes :=
  let fields := h.headers.map fun (name, value) => s!"{name}: {value}\x0d\n"
  Utf8.encode (h.first ++ "\x0d\n" ++ String.join fields ++ "\x0d\n") ++ body

def request? (h : Head) (body : Bytes) : Option Request :=
  match Text.split ' ' h.first with
  | [method, target, _] => some ⟨method, target, h.headers, body⟩
  | _ => none

def response? (h : Head) (body : Bytes) : Option Response :=
  match Text.split ' ' h.first with
  | _ :: status :: _ =>
    (Text.readDigits 999 status.toList).map fun status => ⟨status, h.headers, body⟩
  | _ => none

end Head

/-- The bytes of a response after which the connection is closed. -/
def Response.write (r : Response) : Bytes :=
  Head.write ⟨s!"HTTP/1.1 {r.status} ", r.headers ++ [("connection", "close")]⟩ r.body

def Request.write (r : Request) (host : String) : Bytes :=
  let headers := ("host", host) :: r.headers ++ [("connection", "close")]
  Head.write ⟨s!"{r.method} {r.target} HTTP/1.1", headers⟩ []

end BlobReplica.Http
