import BlobReplica.Node
import BlobReplica.Recovery.Authority
import BlobReplica.Recovery.Parts
import BlobReplica.Recovery.Properties

/-! Recovery attempts: what a blob lacks is asked of the authority and written into it. -/

namespace BlobReplica.Recovery

inductive Achievement where
  /-- The blob had become complete before the attempt. -/
  | alreadyComplete
  | completed
  | stillIncomplete
  | invalid
  /-- There was no usable response. -/
  | failed
deriving DecidableEq, Repr

def Achievement.text : Achievement → String
  | .alreadyComplete => "already-complete"
  | .completed => "completed"
  | .stillIncomplete => "still-incomplete"
  | .invalid => "invalid"
  | .failed => "failed"

/-- What to ask for, unless the blob is decided. -/
def request? (b : Blob) : Option FetchRequest :=
  if b.isTerminal then none
  else match b.missingRanges with
    | none => some .full
    | some [] => some .head
    | some ranges => some (.ranges ranges)

/-- Writes parts one after the other and stops at the first that does not fit; the parts before it
stay. -/
def addParts (now : Millis) : Blob → List BytePart → Blob × Option Error
  | b, [] => (b, none)
  | b, part :: rest =>
    match b.addByteRange part.offset part.data now with
    | .error e => (b, some (.refused e.message))
    | .ok (b, _) => addParts now b rest

/-- The slices that a response to a request for `ranges` carries. -/
def slices (ranges : List ByteRange) (r : FetchResponse) : Except Error (List BytePart) :=
  match (r.headers.get? "Content-Type").bind Http.boundary? with
  | some boundary => BytePart.parse r.body boundary
  | none =>
    match r.headers.get? "Content-Range" with
    | some value =>
      match Http.ContentRange.parse? value with
      | some range => .ok [⟨range.first, r.body⟩]
      | none => .error (.contentRange value)
    | none => .ok [⟨(ranges.head?.map (·.start)).getD 0, r.body⟩]

/-- Takes a response into a blob; an error leaves what was written before it. -/
def apply (b : Blob) (request : FetchRequest) (r : FetchResponse) (now : Millis) :
    Blob × Option Error :=
  let properties := recoveredProperties r.headers
  if r.status ≠ request.expectedStatus then (b, some (.status request.expectedStatus r.status))
  else match request with
    | .full => ((b.applyHeaders properties now).setPayload r.body now, none)
    | .head => (b.applyHeaders properties now, none)
    | .ranges ranges =>
      match slices ranges r with
      | .error e => (b, some e)
      | .ok parts =>
        match addParts now b parts with
        | (b, some e) => (b, some e)
        | (b, none) => (b.applyHeaders properties now, none)

/-- Takes a failed blob out of queue and cache. -/
def discard (n : Node) (b : Blob) (now : Millis) : Node :=
  let n := n.dequeue b.version
  n.withCache (n.cache.discardInvalid b.key b.version now).1

/-- One attempt for a blob, with the response that the authority gives if it is asked. -/
def attempt (n : Node) (b : Blob) (response : Option FetchResponse) (now : Millis) :
    Node × Blob × Achievement :=
  match request? b with
  | none =>
    if b.isComplete then (n.dequeue b.version, b, .alreadyComplete)
    else (discard n b now, b, .invalid)
  | some request =>
    match response with
    | none => (n, b, .failed)
    | some r =>
      match apply b request r now with
      | (b, some _) => (n.update b, b, .failed)
      | (b, none) =>
        let b := b.settle.1
        let n := n.update b
        match b.status with
        | .complete =>
          let n := n.dequeue b.version
          (n.withCache (n.cache.resort b.key), b, .completed)
        | .checksumInvalid => (discard n b now, b, .invalid)
        | _ => (n.withCache (n.cache.resort b.key), b, .stillIncomplete)

/-- Attempts recovery of every ticket that is due at `now`, with the responses of an authority
that keeps a state of its own; gives the requests made, in order. `fuel` bounds the tickets. -/
def drainWith {σ : Type} (authority : σ → VersionId → FetchRequest → σ × Option FetchResponse)
    (now : Millis) : Nat → σ → Node → List (VersionId × FetchRequest) →
      Node × List (VersionId × FetchRequest)
  | 0, _, n, requests => (n, requests.reverse)
  | fuel + 1, s, n, requests =>
    match n.queue.poll now with
    | (queue, .ready b) =>
      let n := { n with queue }
      match request? b with
      | none => drainWith authority now fuel s (attempt n b none now).1 requests
      | some request =>
        let (s, response) := authority s b.version request
        drainWith authority now fuel s (attempt n b response now).1
          ((b.version, request) :: requests)
    | (queue, _) => ({ n with queue }, requests.reverse)

/-- `drainWith` for as many tickets as are queued. -/
def drain {σ : Type} (authority : σ → VersionId → FetchRequest → σ × Option FetchResponse)
    (s : σ) (n : Node) (now : Millis) : Node × List (VersionId × FetchRequest) :=
  drainWith authority now (n.queue.length + 1) s n []

end BlobReplica.Recovery
