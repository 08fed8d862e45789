import BlobReplica.Cache

/-! Sweeping: versions that failed, ended, were abandoned or are superseded leave the cache. The
last complete version of a key that has not ended always stays. -/

namespace BlobReplica.Cache

/-- How long blobs stay. The durations are what a sweep reckons with: their whole milliseconds as a
64-bit number, in which settings give them. -/
structure SweepPolicy where
  /-- How long after its start a complete version stays once a later complete one exists. -/
  supersedeAfter : Millis := 60000
  /-- How long an incomplete blob stays untouched. -/
  staleAfter : Millis := 60000

/-- Why a blob leaves, whatever else its key holds. -/
inductive SweepReason where
  | invalid
  | expired
  | stale
deriving DecidableEq, Repr

def sweepReason? (policy : SweepPolicy) (now : Millis) (b : Blob) : Option SweepReason :=
  match b.status with
  | .checksumInvalid => some .invalid
  | .complete => if b.validity.expiredAt now then some .expired else none
  | _ => if policy.staleAfter < now - b.lastTouched then some .stale else none

/-- Drops the complete blobs that started long ago and stand before another complete one. -/
def dropSuperseded (policy : SweepPolicy) (now : Millis) : List Blob → List Blob
  | [] => []
  | b :: rest =>
    if b.isComplete && rest.any Blob.isComplete &&
        decide (policy.supersedeAfter < now - b.validity.start) then
      dropSuperseded policy now rest
    else b :: dropSuperseded policy now rest

structure SweepReport where
  expired : Nat := 0
  stale : Nat := 0
  invalid : Nat := 0
  superseded : Nat := 0
  keysDropped : Nat := 0
  /-- Marks that were older than the time after which blobs are stale. -/
  marksForgotten : Nat := 0
deriving DecidableEq, Repr

namespace SweepReport

def removed (r : SweepReport) : Nat :=
  r.expired + r.stale + r.invalid + r.superseded

def text (r : SweepReport) : String :=
  s!"expired={r.expired} stale={r.stale} invalid={r.invalid} superseded={r.superseded} " ++
    s!"keys_dropped={r.keysDropped} marks_forgotten={r.marksForgotten}"

end SweepReport

/-- The blobs of a list that no reason of their own removes. -/
def retained (policy : SweepPolicy) (now : Millis) (blobs : List Blob) : List Blob :=
  blobs.filter fun b => (sweepReason? policy now b).isNone

/-- The blobs of a list that stay. -/
def swept (policy : SweepPolicy) (now : Millis) (blobs : List Blob) : List Blob :=
  dropSuperseded policy now (retained policy now blobs)

/-- The marks after those of the invalid blobs are added and the old ones are dropped. -/
def sweptMarks (policy : SweepPolicy) (now : Millis) (c : Cache) : Marks × Nat :=
  let marks := (c.blobs.filter fun b => b.status = .checksumInvalid).foldl
    (fun marks b => marks.add b.version now) c.marks
  let kept := marks.since (now - policy.staleAfter)
  (kept, marks.length - kept.length)

def sweep (c : Cache) (now : Millis) (policy : SweepPolicy) : Cache × SweepReport :=
  let count (r : SweepReason) :=
    (c.blobs.filter fun b => sweepReason? policy now b = some r).length
  let lists :=
    (c.lists.map fun _ blobs => swept policy now blobs).filter fun _ blobs => !blobs.isEmpty
  let (marks, marksForgotten) := sweptMarks policy now c
  let superseded := c.lists.entries.foldl (fun n e =>
    n + ((retained policy now e.2).length - (swept policy now e.2).length)) 0
  ({ c with lists, marks },
    { expired := count .expired, stale := count .stale, invalid := count .invalid, superseded
      keysDropped := c.lists.size - lists.size, marksForgotten })

end BlobReplica.Cache
