import BlobReplica.Http.Wire
import BlobReplica.Recovery.Attempt
import BlobReplica.Shell.Sockets
import Std.Async.DNS

/-! HTTP over connections: one message each way on every connection. -/

namespace BlobReplica.Shell

open Std.Async

/-- The bytes that a connection carries up to a length, or up to its end. -/
partial def receiveUpTo (client : TCP.Socket.Client) (length : Option Nat) (received : ByteArray) :
    Async ByteArray := do
  if length.any (· ≤ received.size) then return received
  match ← client.recv? 65536 with
  | none => return received
  | some more => receiveUpTo client length (received ++ more)

/-- The head of a message and the bytes that came in behind it. -/
partial def receiveHead (client : TCP.Socket.Client) (received : ByteArray) :
    Async (Option (Http.Head × Bytes)) := do
  match Http.Head.read? received.toList with
  | some (head, rest) => return head.map (·, rest)
  | none =>
    match ← client.recv? 65536 with
    | none => return none
    | some more => receiveHead client (received ++ more)

def receiveRequest (client : TCP.Socket.Client) : Async (Option Http.Request) := do
  match ← receiveHead client .empty with
  | none => return none
  | some (head, rest) =>
    let body ← receiveUpTo client (some head.bodyLength) ⟨rest.toArray⟩
    return head.request? (body.toList.take head.bodyLength)

def receiveResponse (client : TCP.Socket.Client) (hasBody : Bool) : Async (Option Http.Response) := do
  match ← receiveHead client .empty with
  | none => return none
  | some (head, rest) =>
    let length := if hasBody then (head.headers.get? "Content-Length").map fun _ => head.bodyLength
      else some 0
    let body ← receiveUpTo client length ⟨rest.toArray⟩
    return head.response? (length.elim body.toList body.toList.take)

def endpoint? (a : Recovery.Authority) : Option (String × String × String) := do
  let rest ← Text.dropStart "http://" a.base
  let (host, path) ← Text.cutAt '/' rest
  let (name, service) := (Text.cutAt ':' host).getD (host, "80")
  return (name, service, "/" ++ path)

/-- Asks an authority; any failure is no response. -/
def fetch (a : Recovery.Authority) (s : Recovery.Settings) (version : VersionId)
    (request : Recovery.FetchRequest) : Async (Option Recovery.FetchResponse) := do
  let some (host, service, path) := endpoint? a | return none
  let ask : Async (Option Recovery.FetchResponse) := do
    let found ← DNS.getAddrInfo host service
    let some ip := found[0]? | return none
    let number := UInt16.ofNat ((Text.readDigits 0xffff service.toList).getD 80)
    let client ← TCP.Socket.Client.mk
    client.connect (match ip with
      | .v4 ip => .v4 ⟨ip, number⟩
      | .v6 ip => .v6 ⟨ip, number⟩)
    let message := request.toHttp (path ++ Recovery.Authority.target version)
    client.send ⟨(message.write host).toArray⟩
    let response ← receiveResponse client (request ≠ .head)
    return response.map .ofHttp
  let late : Async (Option Recovery.FetchResponse) := do
    sleep (s.connectTimeout + s.requestTimeout)
    return none
  try Async.race ask late catch _ => return none

end BlobReplica.Shell
