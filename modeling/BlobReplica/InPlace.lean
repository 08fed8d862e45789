import BlobReplica.Cache.Entry
import BlobReplica.Intake

/-! How slices change a blob, one step at a time. A blob is changed where it stands, in the cache and
in the queue: a section is opened before the length that a fragment declares is compared with its own,
and a new blob is stored before its first fragment is merged. What an error leaves behind is told
beside it. -/

namespace BlobReplica

namespace Blob

/-- The metadata section, opened for a length if none is open. -/
def openMetadata (b : Blob) (length : Nat) : Blob × Assembly :=
  match b.metadata with
  | some a => (b, a)
  | none => ({ b with metadata := some (Assembly.ofLength length) }, Assembly.ofLength length)

/-- The payload, opened for a length if its size is unknown. -/
def openPayload (b : Blob) (length : Nat) : Blob :=
  match b.payload with
  | .unknown => { b with payload := .assembling (Assembly.ofLength length), size := some length }
  | _ => b

/-- Writes into a section that is open, if the fragment has its length. -/
def writeInPlace (b : Blob) (a : Assembly) (f : Fragment) (put : Assembly → Blob) :
    Blob × Except Error Nat :=
  let declared := f.sectionLength.toNat
  if a.length ≠ declared then
    (b, .error (.lengthMismatch b.version f.sectionKind.name a.length declared))
  else
    let (a, filled) := a.write f.offset.toNat f.data
    (put a, .ok filled)

def mergeSectionInPlace (b : Blob) (f : Fragment) : Blob × Except Error Nat :=
  match f.sectionKind with
  | .metadata =>
    if b.metadataDecoded then (b, .ok 0)
    else
      let (b, a) := b.openMetadata f.sectionLength.toNat
      b.writeInPlace a f fun a =>
        let b := { b with metadata := some a }
        if a.isComplete then b.readMetadata a.bytes else b
  | .payload =>
    let b := b.openPayload f.sectionLength.toNat
    match b.payload with
    | .assembling a => b.writeInPlace a f fun a => { b with payload := .assembling a }
    | _ => (b, .ok 0)

/-- Merges a fragment; none but one that was merged counts as an access. -/
def mergeInPlace (b : Blob) (f : Fragment) (now : Millis) : Blob × Except Error Nat :=
  if f.version ≠ b.version ∨ f.key ≠ b.key then (b, .error (.wrongTarget f.key f.version))
  else if b.isTerminal then (b, .ok 0)
  else match b.mergeSectionInPlace f with
    | (b, .error e) => (b, .error e)
    | (b, .ok filled) => ((b.touch now).begin, .ok filled)

def addByteRangeInPlace (b : Blob) (offset : Nat) (data : Bytes) (now : Millis) :
    Blob × Except Error Nat :=
  if b.isTerminal then (b, .ok 0)
  else match b.payload with
  | .assembling a =>
    let stop := min (offset + data.length) Text.maxWord
    if a.length < stop then (b, .error (.outOfBounds b.version offset stop a.length))
    else
      let (a, filled) := a.write offset data
      ({ b with payload := .assembling a }.touch now, .ok filled)
  | _ => (b, .error (.sizeUnknown b.version))

end Blob

namespace Intake

/-- Merges a fragment into the blob that stands in the cache. -/
def fragmentInPlace (i : Intake) (n : Node) (f : Fragment) (now : Millis) : Node × Outcome :=
  match n.cache.offerArrival f.key f.version now with
  | (cache, .error _) => (n.withCache cache, .ignored)
  | (cache, .ok (b, _)) =>
    let n := n.withCache cache
    if b.isTerminal then (n, .ignored)
    else match b.mergeInPlace f now with
      | (left, .error _) => (n.update left, .rejected)
      | (merged, .ok _) => i.conclude n merged b.validity.start now

def datagramInPlace (i : Intake) (n : Node) (d : Bytes) (now : Millis) : Node × Outcome :=
  let (n, o) := match Datagram.decode d i.maxPacketSize i.maxObjectSize with
    | .error _ => (n, Outcome.malformed)
    | .ok f => i.fragmentInPlace n f now
  ({ n with counters := n.counters.record o }, o)

end Intake
end BlobReplica
