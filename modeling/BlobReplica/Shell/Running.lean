import BlobReplica.Receiver
import BlobReplica.Service.Router
import BlobReplica.Service.Settings
import BlobReplica.Shell.Connection

/-! The loops of a running node. All of them work on one state, which each changes in one step. -/

namespace BlobReplica.Shell

open Std.Async

abbrev SharedReceiver := IO.Ref Receiver

def changeNode (shared : SharedReceiver) (change : Node → Node) : IO Unit :=
  shared.modify fun r => { r with node := change r.node }

partial def receiveAll (shared : SharedReceiver) (s : DatagramSocket) (size : UInt64) :
    Async Unit := do
  try
    let (datagram, _) ← s.socket.recv size
    let time ← now
    shared.modify fun r => (r.deliver datagram.toList time).1
  catch _ => pure ()
  receiveAll shared s size

/-- Sweeps the cache, first at once and then at every interval. -/
partial def sweepAll (shared : SharedReceiver) (s : Receiver.Settings) : Async Unit := do
  let time ← now
  changeNode shared fun n => n.withCache (n.cache.sweep time s.sweepPolicy).1
  sleep s.sweepInterval
  sweepAll shared s

/-- How long recovery waits before it looks for due blobs again. -/
def recoveryPause : Millis := 50

/-- Recovers every blob that is due. Pieces that come in meanwhile are not lost: the response is
taken into the blob as it is by then. -/
partial def recoverAll (shared : SharedReceiver) (a : Recovery.Authority) (s : Recovery.Settings) :
    Async Unit := do
  let time ← now
  let poll ← shared.modifyGet fun r =>
    let (queue, poll) := r.node.queue.poll time
    (poll, { r with node := { r.node with queue } })
  match poll with
  | .ready b =>
    let response ← match Recovery.request? b with
      | some request => fetch a s b.version request
      | none => pure none
    let time ← now
    changeNode shared fun n =>
      let current := ((n.cache.find? b.key b.version).filter (·.copy = b.copy)).getD b
      (Recovery.attempt n current response time).1
  | _ => sleep recoveryPause
  recoverAll shared a s

def answer (shared : SharedReceiver) (policy : Service.Policy) (client : TCP.Socket.Client) :
    Async Unit := do
  let some request ← receiveRequest client | return ()
  let occasion : Service.Occasion := ⟨← now, ← freshVersion, ← freshVersion⟩
  let response ← shared.modifyGet fun r =>
    let (cache, response) := Service.handle policy r.node.cache request occasion
    (response, { r with node := r.node.withCache cache })
  client.send ⟨response.write.toArray⟩
  client.shutdown

partial def answerAll (shared : SharedReceiver) (policy : Service.Policy)
    (server : TCP.Socket.Server) : Async Unit := do
  let client ← server.accept
  background (do try answer shared policy client catch _ => pure ())
  answerAll shared policy server

end BlobReplica.Shell
