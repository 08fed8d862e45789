import BlobReplica.Cache.Sweep
import BlobReplica.Datagram
import BlobReplica.Document
import BlobReplica.Net.Address
import BlobReplica.Recovery.Authority
import BlobReplica.Toml

/-! What a node is told about receiving: where to listen, how much to take in, when to sweep and
where to recover from. -/

namespace BlobReplica

namespace Recovery.Settings

def ofToml? (v : Toml.Value) : Option Settings := do
  let fields ← v.fields? ["base_url", "grace_ms", "connect_timeout_ms", "request_timeout_ms"]
  let span (name : String) (default : Millis) : Option Millis :=
    fields.field? name default (·.natural? Text.maxWord)
  let unset : Settings := {}
  return {
    baseUrl := ← fields.field? "base_url" none (·.string?.map some)
    grace := ← span "grace_ms" unset.grace
    connectTimeout := ← span "connect_timeout_ms" unset.connectTimeout
    requestTimeout := ← span "request_timeout_ms" unset.requestTimeout }

def document (s : Settings) : Document :=
  .object [
    ("base_url", .optional .string s.baseUrl),
    ("grace_ms", .number s.grace),
    ("connect_timeout_ms", .number s.connectTimeout),
    ("request_timeout_ms", .number s.requestTimeout)]

end Recovery.Settings

namespace Receiver

structure Settings where
  /-- The group to join; without one no group datagrams are received. -/
  group : Option Net.Ipv4 := none
  groupService : UInt16 := 3342
  groupInterface : Net.Ipv4 := .unspecified
  /-- Where datagrams for this node alone come in, if they do. -/
  unicast : Option Net.SocketAddress := none
  maxPacketSize : Nat := Datagram.maxSize
  maxObjectSize : Nat := 64 * 1024 * 1024
  /-- Zero for one worker on each core. -/
  workers : Nat := 0
  /-- Datagrams that may wait for a worker. -/
  queueDepth : Nat := 4096
  sweepInterval : Millis := 1000
  sweepPolicy : Cache.SweepPolicy := {}
  recovery : Recovery.Settings := {}

/-- Why settings cannot be used. -/
inductive Fault where
  | notMulticast (group : Net.Ipv4)
  | noGroupService
  | packetSize
  | objectSize
  | queueDepth
  | sweepInterval
deriving DecidableEq, Repr

def Fault.message : Fault → String
  | .notMulticast group => s!"{group.text} is not a multicast address"
  | .noGroupService => "multicast_port must be non-zero"
  | .packetSize => s!"max_packet_size must be in 1..={Datagram.maxSize}"
  | .objectSize => "max_object_size must be non-zero"
  | .queueDepth => "queue_depth must be non-zero"
  | .sweepInterval => "sweep_interval_ms must be non-zero"

namespace Settings

def fault? (s : Settings) : Option Fault :=
  let groupFault : Option Fault := s.group.bind fun group =>
    if !group.isMulticast then some (.notMulticast group)
    else if s.groupService = 0 then some .noGroupService
    else none
  groupFault <|>
    if s.maxPacketSize = 0 ∨ Datagram.maxSize < s.maxPacketSize then some .packetSize
    else if s.maxObjectSize = 0 then some .objectSize
    else if s.queueDepth = 0 then some .queueDepth
    else if s.sweepInterval = 0 then some .sweepInterval
    else none

def validate (s : Settings) : Except Fault Settings :=
  match s.fault? with
  | some f => .error f
  | none => .ok s

def anyListener (s : Settings) : Bool :=
  s.group.isSome || s.unicast.isSome

def workerCount (s : Settings) (cores : Nat) : Nat :=
  if s.workers = 0 then cores else s.workers

def fieldNames : List String :=
  ["multicast_group", "multicast_port", "multicast_interface", "unicast_bind", "max_packet_size",
    "max_object_size", "workers", "queue_depth", "sweep_interval_ms", "supersede_after_ms",
    "stale_after_ms", "recovery"]

def ofToml? (v : Toml.Value) : Option Settings := do
  let fields ← v.fields? fieldNames
  let number (name : String) (default : Nat) : Option Nat :=
    fields.field? name default (·.natural? Text.maxWord)
  let unset : Settings := {}
  return {
    group := ← fields.field? "multicast_group" none fun v => v.string?.bind (Net.Ipv4.parse? · |>.map some)
    groupService := UInt16.ofNat
      (← fields.field? "multicast_port" unset.groupService.toNat (·.natural? 0xffff))
    groupInterface := ← fields.field? "multicast_interface" unset.groupInterface
      fun v => v.string?.bind Net.Ipv4.parse?
    unicast := ← fields.field? "unicast_bind" none
      fun v => v.string?.bind (Net.SocketAddress.parse? · |>.map some)
    maxPacketSize := ← number "max_packet_size" unset.maxPacketSize
    maxObjectSize := ← number "max_object_size" unset.maxObjectSize
    workers := ← number "workers" unset.workers
    queueDepth := ← number "queue_depth" unset.queueDepth
    sweepInterval := ← number "sweep_interval_ms" unset.sweepInterval
    sweepPolicy := {
      supersedeAfter := ← number "supersede_after_ms" unset.sweepPolicy.supersedeAfter
      staleAfter := ← number "stale_after_ms" unset.sweepPolicy.staleAfter }
    recovery := ← fields.field? "recovery" unset.recovery Recovery.Settings.ofToml? }

def document (s : Settings) : Document :=
  .object [
    ("multicast_group", .optional (fun g => .string g.text) s.group),
    ("multicast_port", .number s.groupService.toNat),
    ("multicast_interface", .string s.groupInterface.text),
    ("unicast_bind", .optional (fun a => .string a.text) s.unicast),
    ("max_packet_size", .number s.maxPacketSize),
    ("max_object_size", .number s.maxObjectSize),
    ("workers", .number s.workers),
    ("queue_depth", .number s.queueDepth),
    ("sweep_interval_ms", .number s.sweepInterval),
    ("supersede_after_ms", .number s.sweepPolicy.supersedeAfter),
    ("stale_after_ms", .number s.sweepPolicy.staleAfter),
    ("recovery", s.recovery.document)]

end Settings

inductive SettingsError where
  /-- The text is no document, or a value is not of the kind that its field takes. -/
  | unreadable
  | invalid (fault : Fault)
deriving DecidableEq, Repr

def SettingsError.message : SettingsError → String
  | .unreadable => "invalid configuration"
  | .invalid fault => "invalid configuration: " ++ fault.message

def Settings.parse (text : String) : Except SettingsError Settings :=
  match (Toml.parse? text).bind Settings.ofToml? with
  | none => .error .unreadable
  | some s => s.validate.mapError .invalid

end Receiver
end BlobReplica
