import BlobReplica.Intake
import BlobReplica.Receiver.Settings
import BlobReplica.Recovery.Attempt

/-! A running receiver: the sockets that a host grants it, and the node that its datagrams build. -/

namespace BlobReplica

/-- What a host grants a node. Where it refuses, it gives a reason. -/
structure Host where
  /-- Binds a datagram socket, and tells the address that it got. -/
  bind : Net.SocketAddress → Except String Net.SocketAddress
  join : (group interface : Net.Ipv4) → Except String Unit
  listen : Net.SocketAddress → Except String Unit
  send : Net.SocketAddress → Bytes → Except String Unit
  cores : Nat

structure Receiver where
  settings : Receiver.Settings
  groupAddress : Option Net.SocketAddress
  unicastAddress : Option Net.SocketAddress
  recovers : Bool
  node : Node

namespace Receiver

/-- Why a receiver does not start. -/
inductive StartError where
  | recovery (error : Recovery.Error)
  | settings (fault : Fault)
  | bind (address : Net.SocketAddress) (reason : String)
  | join (group : Net.Ipv4) (reason : String)
deriving DecidableEq, Repr

def StartError.message : StartError → String
  | .recovery error => "recovery setup failed: " ++ error.message
  | .settings fault => (SettingsError.invalid fault).message
  | .bind address reason => s!"failed to bind {address.text}: {reason}"
  | .join group reason => s!"failed to join multicast group {group.text}: {reason}"

/-- The reasons, the outermost first. -/
def StartError.reasons (e : StartError) : List String :=
  match e with
  | .recovery error => [e.message, error.message]
  | .settings _ => [e.message]
  | .bind _ reason | .join _ reason => [e.message, reason]

def listenToGroup (host : Host) (s : Settings) (group : Net.Ipv4) :
    Except StartError Net.SocketAddress := do
  let address := Net.SocketAddress.v4 .unspecified s.groupService
  let bound ← (host.bind address).mapError (.bind address)
  (host.join group s.groupInterface).mapError (.join group)
  return bound

/-- Starts a receiver with an authority to recover from, or without. Recovery runs only along with
a listener. -/
def startWith (host : Host) (s : Settings) (hasAuthority : Bool) : Except StartError Receiver := do
  let s ← s.validate.mapError .settings
  let groupAddress ← s.group.mapM (listenToGroup host s)
  let unicastAddress ← s.unicast.mapM fun address =>
    (host.bind address).mapError (.bind address)
  return {
    settings := s, groupAddress, unicastAddress
    recovers := hasAuthority && s.anyListener
    node := Node.empty s.recovery.grace }

def start (host : Host) (s : Settings) : Except StartError Receiver := do
  let authority ← (Recovery.Authority.ofSettings s.recovery).mapError .recovery
  startWith host s authority.isSome

def intake (r : Receiver) : Intake :=
  { recovers := r.recovers, maxPacketSize := r.settings.maxPacketSize,
    maxObjectSize := r.settings.maxObjectSize }

/-- Takes in a datagram; of a longer one than expected only the front arrives. -/
def deliver (r : Receiver) (datagram : Bytes) (now : Millis) : Receiver × Outcome :=
  let (node, outcome) :=
    r.intake.datagram r.node (datagram.take r.settings.maxPacketSize) now
  ({ r with node }, outcome)

def waiting? (r : Receiver) : Option Nat :=
  if r.recovers then some r.node.queue.length else none

end Receiver
end BlobReplica
