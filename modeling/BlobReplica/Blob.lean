import BlobReplica.Blob.Assembly
import BlobReplica.Blob.Error
import BlobReplica.Digest.Md5
import BlobReplica.Fragment
import BlobReplica.Metadata
import BlobReplica.Query

/-! Blobs: single versions of objects, possibly still under assembly. Fragments and recovered
slices fill the two sections in any order. Once both are in, the payload's checksum decides, and
nothing changes a decided blob. -/

namespace BlobReplica

/-- How far a blob has come; the last two are final. -/
inductive Status where
  | empty
  | partiallyReceived
  | complete
  | checksumInvalid
deriving DecidableEq, Repr

namespace Status

def isTerminal : Status → Bool
  | .complete | .checksumInvalid => true
  | _ => false

def text : Status → String
  | .empty => "empty"
  | .partiallyReceived => "partial"
  | .complete => "complete"
  | .checksumInvalid => "checksum-invalid"

def debug : Status → String
  | .empty => "Empty"
  | .partiallyReceived => "PartiallyReceived"
  | .complete => "Complete"
  | .checksumInvalid => "ChecksumInvalid"

def completeness : Status → String
  | .complete => "Complete"
  | .checksumInvalid => "ChecksumInvalid"
  | _ => "Incomplete"

end Status

inductive Payload where
  /-- No slice has arrived, so the size is open. -/
  | unknown
  | assembling (assembly : Assembly)
  /-- The checksum was right. -/
  | verified (bytes : Bytes)
  /-- The checksum was wrong. -/
  | discarded
deriving DecidableEq, Repr

structure Blob where
  key : String
  version : VersionId
  /-- Tells apart the blobs that one node has created for the same version. -/
  copy : Nat := 0
  /-- When the first piece arrived. -/
  arrived : Millis
  status : Status := .empty
  validity : Validity := .unbounded
  created : Millis
  lastTouched : Millis
  size : Option Nat := none
  properties : Properties := .empty
  /-- The metadata section until it is read. -/
  metadata : Option Assembly := none
  metadataDecoded : Bool := false
  /-- The metadata section was full and could not be read. -/
  metadataCorrupt : Bool := false
  /-- Properties have come from the authority, which win over the metadata section. -/
  headersRecovered : Bool := false
  payload : Payload := .unknown
deriving DecidableEq

namespace Blob

/-- A blob of which nothing has arrived; it counts as created on arrival until told otherwise. -/
def ofArrival (key : String) (version : VersionId) (now : Millis) : Blob :=
  { key, version, arrived := now, created := now, lastTouched := now }

def isTerminal (b : Blob) : Bool :=
  b.status.isTerminal

def isComplete (b : Blob) : Bool :=
  b.status = .complete

def metadataComplete (b : Blob) : Bool :=
  b.metadataDecoded || b.headersRecovered

def property? (b : Blob) (name : String) : Option String :=
  b.properties.lookup? name

def payload? (b : Blob) : Option Bytes :=
  match b.payload with
  | .verified bytes => some bytes
  | _ => none

/-- The payload positions still missing, unless the size is unknown. -/
def missingRanges (b : Blob) : Option (List ByteRange) :=
  match b.payload with
  | .unknown => none
  | .assembling a => some a.missing.ranges
  | .verified _ | .discarded => some []

/-- The file name that the object was given, or else the last element of its key. -/
def fileName (b : Blob) : String :=
  (b.property? Property.fileName).getD <|
    ((Text.split '/' b.key).reverse.find? (· ≠ "")).getD b.key

def contentType (b : Blob) : String :=
  (b.property? Property.contentType).getD Property.defaultContentType

/-- Takes times of validity and creation from the properties. -/
def refresh (b : Blob) : Blob :=
  let time (name : String) := (b.property? name).bind Millis.parse?
  { b with
    validity := ⟨(time Property.validFrom).getD 0, (time Property.validUntil).getD Millis.unbounded⟩
    created := (time Property.created).getD b.arrived }

/-- Notes an access; the time of the last access never goes back. -/
def touch (b : Blob) (now : Millis) : Blob :=
  { b with lastTouched := max b.lastTouched now }

/-- Takes a property of the metadata section, unless the authority has given it already. -/
def addDecoded (b : Blob) (entry : String × String) : Blob :=
  if b.headersRecovered && (b.property? entry.1).isSome then b
  else { b with properties := b.properties.assign entry.1 entry.2 }

def readMetadata (b : Blob) (section_ : Bytes) : Blob :=
  let b := { b with metadata := none }
  match Metadata.decode? section_ with
  | some decoded => { decoded.entries.foldl addDecoded b with metadataDecoded := true }.refresh
  | none => { b with metadataCorrupt := !b.headersRecovered }

def mergeMetadata (b : Blob) (f : Fragment) : Except Error (Blob × Nat) :=
  if b.metadataDecoded then .ok (b, 0)
  else
    let declared := f.sectionLength.toNat
    let a := b.metadata.getD (Assembly.ofLength declared)
    if a.length ≠ declared then .error (.lengthMismatch b.version "metadata" a.length declared)
    else
      let (a, filled) := a.write f.offset.toNat f.data
      let b := { b with metadata := some a }
      .ok (if a.isComplete then b.readMetadata a.bytes else b, filled)

def mergePayload (b : Blob) (f : Fragment) : Except Error (Blob × Nat) :=
  let declared := f.sectionLength.toNat
  let b := if b.payload = .unknown then
      { b with payload := .assembling (Assembly.ofLength declared), size := some declared }
    else b
  match b.payload with
  | .assembling a =>
    if a.length ≠ declared then .error (.lengthMismatch b.version "payload" a.length declared)
    else
      let (a, filled) := a.write f.offset.toNat f.data
      .ok ({ b with payload := .assembling a }, filled)
  | _ => .ok (b, 0)

def mergeSection (b : Blob) (f : Fragment) : Except Error (Blob × Nat) :=
  match f.sectionKind with
  | .metadata => b.mergeMetadata f
  | .payload => b.mergePayload f

def begin (b : Blob) : Blob :=
  if b.status = .empty then { b with status := .partiallyReceived } else b

/-- Writes a fragment into its section and counts the positions that it covers first. A decided
blob stays as it is. -/
def merge (b : Blob) (f : Fragment) (now : Millis) : Except Error (Blob × Nat) :=
  if f.version ≠ b.version ∨ f.key ≠ b.key then .error (.wrongTarget f.key f.version)
  else if b.isTerminal then .ok (b, 0)
  else (b.mergeSection f).map fun (b, filled) => ((b.touch now).begin, filled)

/-- Takes properties from the authority and holds the metadata section for complete. -/
def applyHeaders (b : Blob) (headers : List (String × String)) (now : Millis) : Blob :=
  if b.isTerminal then b
  else
    let properties := headers.foldl (fun ps h => ps.assign h.1 h.2) b.properties
    { b with properties, headersRecovered := true, metadataCorrupt := false }.refresh.touch now

/-- Takes all bytes from the authority. -/
def setPayload (b : Blob) (body : Bytes) (now : Millis) : Blob :=
  if b.isTerminal then b
  else { b with payload := .assembling (Assembly.ofBytes body), size := some body.length }.touch now

/-- Writes a recovered slice into a payload of known size. -/
def addByteRange (b : Blob) (offset : Nat) (data : Bytes) (now : Millis) :
    Except Error (Blob × Nat) :=
  if b.isTerminal then .ok (b, 0)
  else match b.payload with
  | .assembling a =>
    let stop := min (offset + data.length) Text.maxWord
    if a.length < stop then .error (.outOfBounds b.version offset stop a.length)
    else
      let (a, filled) := a.write offset data
      .ok ({ b with payload := .assembling a }.touch now, filled)
  | _ => .error (.sizeUnknown b.version)

/-- The checksum that the properties declare, as it is compared. -/
def declaredMd5? (b : Blob) : Option String :=
  (b.property? Property.contentMd5).map Property.normalizeMd5

/-- Decides a blob whose sections are both in, and tells whether this call decided it. -/
def settle (b : Blob) : Blob × Bool :=
  if b.isTerminal then (b, false)
  else if b.metadataCorrupt then
    ({ b with payload := .discarded, status := .checksumInvalid }, true)
  else
    let b := b.refresh
    match b.payload with
    | .assembling a =>
      if a.isComplete && b.metadataComplete then
        let bytes := a.bytes
        if b.declaredMd5? = some (Digest.md5Hex bytes) then
          ({ b with payload := .verified bytes, status := .complete }, true)
        else ({ b with payload := .discarded, status := .checksumInvalid }, true)
      else (b, false)
    | _ => (b, false)

def ofObject (key : String) (version : VersionId) (properties : Properties) (payload : Bytes)
    (now : Millis) : Except Error Blob :=
  let b := ((ofArrival key version now).applyHeaders properties.entries now).setPayload payload now
  let b := b.settle.1
  if b.isComplete then .ok b else .error (.checksumInvalid version)

/-- Whether a blob satisfies constraints, complete or not. -/
def satisfies (b : Blob) (c : Constraints) : Bool :=
  c.version.all (· = b.version) && c.time.all b.validity.covers && c.acceptsCreated b.created &&
    c.flags.entries.all fun (name, value) => b.property? name = some value

/-- The place in a version list: by start of validity, then creation, then version. -/
def comesBefore (a b : Blob) : Bool :=
  a.validity.start < b.validity.start ||
    (a.validity.start == b.validity.start &&
      (a.created < b.created || (a.created == b.created && a.version ≤ b.version)))

/-- The rank in answers to queries: by creation, then version. -/
def ranksBelow (a b : Blob) : Bool :=
  a.created < b.created || (a.created == b.created && a.version < b.version)

def debug (b : Blob) : String :=
  "Blob \x7b key: " ++ Text.quote b.key ++ ", version: " ++ b.version.debug ++ ", status: " ++
    b.status.debug ++ ", validity: " ++ b.validity.debug ++ s!", created: {b.created}" ++ " \x7d"

end Blob
end BlobReplica
