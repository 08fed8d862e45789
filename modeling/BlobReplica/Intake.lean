import BlobReplica.Datagram
import BlobReplica.Node

/-! Intake: each datagram is read, its fragment merged into the blob that it belongs to, and the
blob settled. Incomplete blobs are queued for recovery, failed ones discarded. -/

namespace BlobReplica

inductive Outcome where
  | malformed
  /-- The fragment contradicts its blob. -/
  | rejected
  /-- The blob was decided already, or its version is marked invalid. -/
  | ignored
  /-- The blob still lacks pieces. -/
  | pending
  | completed
  /-- The blob was full and failed its checksum. -/
  | invalid
deriving DecidableEq, Repr

def Outcome.text : Outcome → String
  | .malformed => "Malformed"
  | .rejected => "Rejected"
  | .ignored => "Ignored"
  | .pending => "Pending"
  | .completed => "Completed"
  | .invalid => "Invalid"

def Counters.record (c : Counters) (o : Outcome) : Counters :=
  let c := { c with datagrams := c.datagrams + 1 }
  match o with
  | .malformed => { c with malformed := c.malformed + 1 }
  | .rejected => { c with rejected := c.rejected + 1 }
  | .completed => { c with completed := c.completed + 1 }
  | .invalid => { c with invalid := c.invalid + 1 }
  | .ignored | .pending => c

/-- The bounds on what comes in, and whether incomplete blobs are queued for recovery. -/
structure Intake where
  recovers : Bool := true
  maxPacketSize : Nat := Datagram.maxSize
  maxObjectSize : Nat := 64 * 1024 * 1024

namespace Intake

/-- Settles the blob that a fragment was merged into; `start` is when it began before. -/
def conclude (i : Intake) (n : Node) (merged : Blob) (start now : Millis) :
    Node × Outcome :=
  let (b, decided) := merged.settle
  let n := n.update b
  let left := if i.recovers then n.dequeue b.version else n
  match b.status with
  | .complete =>
    if decided then (left.withCache (left.cache.resort b.key), .completed) else (n, .ignored)
  | .checksumInvalid =>
    if decided then (left.withCache (left.cache.discardInvalid b.key b.version now).1, .invalid)
    else (n, .ignored)
  | _ =>
    let n := if b.validity.start = start then n else n.withCache (n.cache.resort b.key)
    (if i.recovers then n.enqueue b else n, .pending)

/-- Merges a fragment into its blob, which comes into being with its first fragment. -/
def fragment (i : Intake) (n : Node) (f : Fragment) (now : Millis) : Node × Outcome :=
  match n.cache.getOrCreate f.key f.version now with
  | .error _ => (n, .ignored)
  | .ok (cache, b, _) =>
    let n := n.withCache cache
    if b.isTerminal then (n, .ignored)
    else match b.merge f now with
      | .error _ => (n, .rejected)
      | .ok (merged, _) => i.conclude n merged b.validity.start now

def datagram (i : Intake) (n : Node) (d : Bytes) (now : Millis) : Node × Outcome :=
  let (n, o) := match Datagram.decode d i.maxPacketSize i.maxObjectSize with
    | .error _ => (n, Outcome.malformed)
    | .ok f => i.fragment n f now
  ({ n with counters := n.counters.record o }, o)

end Intake
end BlobReplica
