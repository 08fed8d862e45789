import BlobReplica.Bytes
import BlobReplica.Net.Address
import BlobReplica.Validity
import BlobReplica.VersionId
import Std.Async.TCP
import Std.Async.Timer
import Std.Async.UDP

/-! What the outer layer takes from the system: the clock, chance and sockets. -/

namespace BlobReplica.Shell

open Std.Async

def nativeIp (ip : Net.Ipv4) : Std.Net.IPv4Addr :=
  .ofParts ip.a ip.b ip.c ip.d

def native : Net.SocketAddress → Std.Net.SocketAddress
  | .v4 ip service => .v4 ⟨nativeIp ip, service⟩
  | .v6 ip _ service => .v6 ⟨⟨⟨ip.groups.toArray, by simp [ip.size]⟩⟩, service⟩

def address : Std.Net.SocketAddress → Net.SocketAddress
  | .v4 ⟨⟨octets⟩, service⟩ => .v4 ⟨octets.get 0, octets.get 1, octets.get 2, octets.get 3⟩ service
  | .v6 ⟨⟨segments⟩, service⟩ => .v6 ⟨segments.toList, by simp⟩ 0 service

/-- What an action gives, or the reason that the system gives for its failure. -/
def tried {α : Type} (action : IO α) : IO (Except String α) :=
  try return .ok (← action) catch e => return .error (toString e)

def now : IO Millis := do
  return (← Std.Time.Timestamp.now).toMillisecondsSinceUnixEpoch.val.toNat

def freshVersion : IO VersionId := do
  return VersionId.mint (← now) (← IO.rand 0 (1 <<< 62 - 1))

def sleep (span : Millis) : Async Unit :=
  Std.Async.sleep (.ofNat span)

structure DatagramSocket where
  socket : UDP.Socket
  bound : Net.SocketAddress

def DatagramSocket.bind (a : Net.SocketAddress) : IO DatagramSocket := do
  let socket ← UDP.Socket.mk
  socket.bind (native a)
  return ⟨socket, address (← socket.getSockName)⟩

def DatagramSocket.join (s : DatagramSocket) (group groupInterface : Net.Ipv4) : IO Unit :=
  s.socket.setMembership (.v4 (nativeIp group)) (some (.v4 (nativeIp groupInterface))) .enterGroup

def DatagramSocket.send (s : DatagramSocket) (target : Net.SocketAddress) (d : Bytes) : IO Unit :=
  (s.socket.send ⟨d.toArray⟩ (some (native target))).block

def listen (a : Net.SocketAddress) : IO TCP.Socket.Server := do
  let server ← TCP.Socket.Server.mk
  server.bind (native a)
  server.listen 128
  return server

end BlobReplica.Shell
