import BlobReplica.Command
import BlobReplica.CommandLine
import BlobReplica.Digest.Md5
import BlobReplica.Fragment.Split
import BlobReplica.Receiver
import BlobReplica.Settings

/-! Publishing a file: its properties are derived from the arguments, and its datagrams are sent
but for those that are dropped on purpose. -/

namespace BlobReplica

/-- The last name in a path, if that is no step up. -/
def lastName? (path : String) : Option String :=
  ((Text.split '/' path).filter fun step => step ≠ "" ∧ step ≠ ".").getLast?.filter (· ≠ "..")

namespace CommandLine.PublishArguments

/-- The properties of the object that a file with these bytes is published as. -/
def objectProperties (a : PublishArguments) (payload : Bytes) (created : Millis) : Properties :=
  let enter (name : String) (value : Option String) (ps : Properties) : Properties :=
    match value with
    | some value => ps.insert name value
    | none => ps
  Table.ofList a.properties
    |> enter Property.validFrom (some (toString a.validFrom))
    |> enter Property.validUntil (a.validUntil.map toString)
    |> enter Property.created (some (toString created))
    |> enter Property.contentMd5 (some (Digest.md5Hex payload))
    |> enter Property.contentType a.contentType
    |> enter Property.fileName (lastName? a.file)

def publication (a : PublishArguments) (payload : Bytes) (created : Millis)
    (version : VersionId) : Fragment.Publication :=
  ⟨a.key, version, a.objectProperties payload created, payload⟩

def fault? (a : PublishArguments) : Option String :=
  if !a.dropRate.isFraction then some "--drop-rate must be between 0 and 1"
  else if a.validUntil.any (· ≤ a.validFrom) then
    some "--valid-until must be after --valid-from"
  else none

/-- Whether the datagram for which the 64-bit number `draw` was drawn is dropped. -/
def drops (a : PublishArguments) (draw : UInt64) : Bool :=
  draw.toNat < a.dropRate.timesWord

end CommandLine.PublishArguments

namespace Command

def localAddress : Net.SocketAddress → Net.SocketAddress
  | .v4 _ _ => .v4 .unspecified 0
  | .v6 _ _ _ => .v6 ⟨List.replicate 8 0, rfl⟩ 0 0

/-- What publishing needs from outside: the time, a new version id and random numbers. -/
structure PublishOccasion where
  now : Millis
  version : VersionId
  draws : Nat → UInt64

/-- The datagrams of a file and those of them that are to be sent, with the size of the file. -/
structure Shipment where
  size : Nat
  datagrams : List Bytes
  kept : List Bytes

open CommandLine (PublishArguments)

def prepare (files : Files) (a : PublishArguments) (o : PublishOccasion) :
    Except (List String) Shipment := do
  if let some fault := a.fault? then throw [fault]
  let payload ← (files a.file).mapError fun reason => ["reading " ++ a.file, reason]
  let publication := a.publication payload o.now o.version
  let datagrams ← (publication.datagrams a.fragmentSize).mapError fun e => [e.message]
  let kept := datagrams.zipIdx.filter fun d => !a.drops (o.draws d.2)
  return ⟨payload.length, datagrams, kept.map (·.1)⟩

def sendAll (host : Host) (target : Net.SocketAddress) (datagrams : List Bytes) :
    Except (List String) Unit :=
  datagrams.forM fun d =>
    (host.send target d).mapError fun reason => ["sending to " ++ target.text, reason]

def publishedLines (a : PublishArguments) (version : VersionId) (s : Shipment) : List String :=
  let dropped := s.datagrams.length - s.kept.length
  [s!"✓ Published {a.key}",
    "  Version:   " ++ version.text,
    s!"  Size:      {s.size} bytes",
    s!"  Datagrams: {s.kept.length}/{s.datagrams.length} sent to {a.target.text}"] ++
    (if dropped = 0 then [] else [s!"  ! {dropped} dropped on purpose"])

def publish (host : Host) (files : Files) (a : PublishArguments) (o : PublishOccasion) :
    Result × List Bytes :=
  match prepare files a o with
  | .error reasons => (.failed reasons, [])
  | .ok shipment =>
    let sent := do
      let _ ← (host.bind (localAddress a.target)).mapError fun reason => [reason]
      sendAll host a.target shipment.kept
    match sent with
    | .error reasons => (.failed reasons, [])
    | .ok () => ({ lines := publishedLines a o.version shipment }, shipment.kept)

end Command
end BlobReplica
