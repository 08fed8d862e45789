import BlobReplica.Command.CheckConfig
import BlobReplica.Command.Publish
import BlobReplica.Command.Serve
import BlobReplica.Shell.Running
import Std.Async.Signal
import Std.Async.System

/-! The program: it reads its arguments, runs the command and prints what comes of it. -/

namespace BlobReplica.Shell

open Std.Async CommandLine

def readFiles (name : Option String) : IO Files := do
  match name with
  | none => return fun _ => .error "no such file"
  | some name =>
    let content ← tried (IO.FS.readBinFile name)
    return fun _ => content.map ByteArray.toList

def finish (r : Command.Result) : IO UInt32 := do
  IO.print r.output
  match r.failure with
  | none => return 0
  | some reasons =>
    IO.eprintln ("Error: " ++ ": ".intercalate (reasons.filter (· ≠ "")))
    return 1

def idleHost : Host where
  bind a := .ok a
  join _ _ := .ok ()
  listen _ := .ok ()
  send _ _ := .ok ()
  cores := 1

def coreCount : IO Nat := do
  return max 1 (← System.getCPUInfo).size

/-- A number for each index out of one random number: the index in steps of an odd constant, with
its bits mixed. -/
def draw (seed : UInt64) (index : Nat) : UInt64 :=
  let z := seed + UInt64.ofNat (index + 1) * 0x9e3779b97f4a7c15
  let z := (z ^^^ (z >>> 30)) * 0xbf58476d1ce4e5b9
  let z := (z ^^^ (z >>> 27)) * 0x94d049bb133111eb
  z ^^^ (z >>> 31)

def publish (a : PublishArguments) : IO UInt32 := do
  let files ← readFiles (some a.file)
  let version ← freshVersion
  let seed := UInt64.ofNat (← IO.rand 0 Text.maxWord)
  let occasion : Command.PublishOccasion := ⟨← now, version, draw seed⟩
  match Command.prepare files a occasion with
  | .error reasons => finish (.failed reasons)
  | .ok shipment =>
    match ← tried (DatagramSocket.bind (Command.localAddress a.target)) with
    | .error reason => finish (.failed [reason])
    | .ok s =>
      if let .v4 ip _ := a.target then
        if ip.isMulticast then s.socket.setMulticastTTL (UInt32.ofNat a.timeToLive)
      let sent ← tried (shipment.kept.forM (s.send a.target))
      match sent with
      | .error reason => finish (.failed ["sending to " ++ a.target.text, reason])
      | .ok () => finish { lines := Command.publishedLines a version shipment }

/-- The sockets of a node, or the reason for which the host refuses one. -/
structure Sockets where
  group : Except String DatagramSocket
  joined : Except String Unit
  unicast : Except String DatagramSocket

def Sockets.open (s : Receiver.Settings) : IO Sockets := do
  let absent : Except String DatagramSocket := .error ""
  let group ← match s.group with
    | some _ => tried (DatagramSocket.bind (.v4 .unspecified s.groupService))
    | none => pure absent
  let joined ← match s.group, group with
    | some ip, .ok socket => tried (socket.join ip s.groupInterface)
    | _, _ => pure (.ok ())
  let unicast ← match s.unicast with
    | some a => tried (DatagramSocket.bind a)
    | none => pure absent
  return ⟨group, joined, unicast⟩

def Sockets.host (sockets : Sockets) (s : Receiver.Settings) : Host :=
  { idleHost with
    bind := fun a =>
      (if s.unicast = some a then sockets.unicast else sockets.group).map (·.bound)
    join := fun _ _ => sockets.joined }

def runNode (node : Command.Running) (sockets : Sockets) (server : TCP.Socket.Server) :
    IO Unit := do
  let s := node.settings
  let shared ← IO.mkRef node.receiver
  let size := UInt64.ofNat s.receiver.maxPacketSize
  let interrupt ← Signal.Waiter.mk .sigint false
  let interrupted ← interrupt.wait
  let loops : Async Unit := do
    for socket in [sockets.group, sockets.unicast] do
      if let .ok socket := socket then background (receiveAll shared socket size)
    background (sweepAll shared s.receiver)
    if let .ok (some authority) := Recovery.Authority.ofSettings s.receiver.recovery then
      if node.receiver.recovers then
        background (recoverAll shared authority s.receiver.recovery)
    background (answerAll shared s.service.policy server)
  loops.block
  let _ ← interrupted.block

def serve (a : ServeArguments) : IO UInt32 := do
  let files ← readFiles a.config
  match a.settings files with
  | .error reasons => finish (.failed reasons)
  | .ok settings =>
    let sockets ← Sockets.open settings.receiver
    match Command.begin (sockets.host settings.receiver) files a with
    | .error reasons => finish (.failed reasons)
    | .ok node =>
      let lines := Command.runningLines settings node.receiver
      match ← tried (listen settings.service.address) with
      | .error reason =>
        finish { lines, failure := some [(Service.Error.io reason).message, reason] }
      | .ok server =>
        let _ ← finish { lines }
        (← IO.getStdout).flush
        runNode node sockets server
        finish { lines := [Command.stoppedLine] }

def run (arguments : List String) : IO UInt32 := do
  match CommandLine.parse arguments with
  | .error refusal =>
    if refusal.exitStatus = 0 then IO.println ("replicast " ++ Service.release)
    else IO.eprintln "error: the arguments make no command"
    return UInt32.ofNat refusal.exitStatus
  | .ok invocation =>
    match invocation.command with
    | .serve a => serve a
    | .publish a => publish a
    | .checkConfig file =>
      finish (Command.checkConfig (← readFiles (some file)) (← coreCount) file invocation.format)

end BlobReplica.Shell

def main (arguments : List String) : IO UInt32 :=
  BlobReplica.Shell.run arguments
