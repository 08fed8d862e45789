import BlobReplica.Blob
import BlobReplica.Cache.Marks

/-! The cache: for each key its versions, oldest start of validity first, and the marks of versions
that failed their checksum. No key is kept without versions, and a marked version is not taken in
again. -/

namespace BlobReplica

structure Cache where
  lists : Table (List Blob) := .empty
  marks : Cache.Marks := []
  /-- How many blobs have been taken in; the next one gets this number. -/
  copies : Nat := 0

namespace Cache

def empty : Cache := {}

instance : Inhabited Cache := ⟨empty⟩

def keys (c : Cache) : List String :=
  c.lists.names

def isEmpty (c : Cache) : Bool :=
  c.lists.isEmpty

/-- The versions of a key in list order. -/
def versions (c : Cache) (key : String) : List Blob :=
  (c.lists.get? key).getD []

def blobs (c : Cache) : List Blob :=
  c.lists.entries.flatMap (·.2)

def find? (c : Cache) (key : String) (version : VersionId) : Option Blob :=
  (c.versions key).find? (·.version = version)

/-- The first blob of that version under any key. -/
def findVersion? (c : Cache) (version : VersionId) : Option Blob :=
  c.blobs.find? (·.version = version)

def isInvalid (c : Cache) (version : VersionId) : Bool :=
  c.marks.contains version

/-- The blobs in their list order; equals keep their places. -/
def sorted (blobs : List Blob) : List Blob :=
  blobs.mergeSort Blob.comesBefore

/-- Gives a key these versions; without any the key goes. -/
def setVersions (c : Cache) (key : String) (blobs : List Blob) : Cache :=
  { c with lists := if blobs.isEmpty then c.lists.erase key else c.lists.insert key blobs }

/-- Takes in a blob unless its version is stored or marked, and tells whether it was new. -/
def insert (c : Cache) (b : Blob) : Except Blob.Error (Cache × Blob × Bool) :=
  match c.find? b.key b.version with
  | some stored => .ok (c, stored, false)
  | none =>
    if c.isInvalid b.version then .error (.versionInvalid b.version)
    else
      let b := { b with copy := c.copies }
      let c := { c with copies := c.copies + 1 }
      .ok (c.setVersions b.key (sorted (c.versions b.key ++ [b])), b, true)

/-- The blob of a version, a new empty one if there is none. -/
def getOrCreate (c : Cache) (key : String) (version : VersionId) (now : Millis) :
    Except Blob.Error (Cache × Blob × Bool) :=
  c.insert (Blob.ofArrival key version now)

def insertObject (c : Cache) (key : String) (version : VersionId) (properties : Properties)
    (payload : Bytes) (now : Millis) : Except Blob.Error (Cache × Blob) := do
  let b ← Blob.ofObject key version properties payload now
  let (c, stored, _) ← c.insert b
  return (c, stored)

/-- Removes one version, and its key with the last one. -/
def remove (c : Cache) (key : String) (version : VersionId) : Cache × Option Blob :=
  match c.find? key version with
  | none => (c, none)
  | some b => (c.setVersions key ((c.versions key).eraseP (·.version = version)), some b)

def markInvalid (c : Cache) (version : VersionId) (now : Millis) : Cache :=
  { c with marks := c.marks.add version now }

/-- Removes a version that failed its checksum and keeps it from coming back. -/
def discardInvalid (c : Cache) (key : String) (version : VersionId) (now : Millis) :
    Cache × Option Blob :=
  (c.markInvalid version now).remove key version

def resort (c : Cache) (key : String) : Cache :=
  match c.lists.get? key with
  | none => c
  | some blobs => { c with lists := c.lists.insert key (sorted blobs) }

/-- Puts a changed blob where its former state stands, if it is still stored. -/
def update (c : Cache) (b : Blob) : Cache :=
  match c.lists.get? b.key with
  | none => c
  | some blobs =>
    { c with lists := c.lists.insert b.key (blobs.map fun o => if o.copy = b.copy then b else o) }

/-- The blob of highest rank; of equals the last one. -/
def best? : List Blob → Option Blob
  | [] => none
  | b :: rest => some (rest.foldl (fun best o => if o.ranksBelow best then best else o) b)

def matching (blobs : List Blob) (c : Constraints) : List Blob :=
  blobs.filter fun b => b.isComplete && b.satisfies c

/-- The best complete version of a key that satisfies constraints. -/
def lookupBest (c : Cache) (key : String) (constraints : Constraints) : Option Blob :=
  best? (matching (c.versions key) constraints)

/-- The complete versions that a listing reports, newest first. -/
def findAll (c : Cache) (listing : Listing) : List Blob :=
  let lists := c.lists.entries.filter fun e => listing.pattern.accepts e.1
  let found := lists.flatMap fun e =>
    let blobs := matching e.2 listing.constraints
    if listing.latestOnly then (best? blobs).toList else blobs
  let ranked := found.mergeSort fun a b => !a.ranksBelow b
  match listing.limit with
  | none => ranked
  | some n => ranked.take n

def totalSize (blobs : List Blob) : Nat :=
  blobs.foldl (fun n b => n + b.size.getD 0) 0

structure Stats where
  keys : Nat
  versions : Nat
  complete : Nat
  incomplete : Nat
  completeBytes : Nat
deriving DecidableEq, Repr

def stats (c : Cache) : Stats :=
  let complete := c.blobs.filter Blob.isComplete
  { keys := c.keys.length
    versions := c.blobs.length
    complete := complete.length
    incomplete := c.blobs.length - complete.length
    completeBytes := totalSize complete }

end Cache
end BlobReplica
