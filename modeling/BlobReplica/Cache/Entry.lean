import BlobReplica.Cache

/-! How a blob comes in, one step at a time. A new key has a list of its own, still empty, before
the blob is offered to that list; if the list refuses the blob, the key goes again. -/

namespace BlobReplica.Cache

/-- The blob that a list holds after an offer, and whether it is new there. -/
abbrev Answer := Except Blob.Error (Blob × Bool)

/-- Offers a blob to the list of its key: a stored version comes before a mark, a mark before a new
blob. -/
def offerTo (c : Cache) (blobs : List Blob) (b : Blob) : Cache × Answer :=
  match blobs.find? (·.version = b.version) with
  | some stored => (c, .ok (stored, false))
  | none =>
    if c.isInvalid b.version then (c, .error (.versionInvalid b.version))
    else
      let b := { b with copy := c.copies }
      let lists := c.lists.insert b.key (sorted (blobs ++ [b]))
      ({ c with lists, copies := c.copies + 1 }, .ok (b, true))

def openKey (c : Cache) (key : String) : Cache :=
  { c with lists := c.lists.insert key [] }

def closeKey (c : Cache) (key : String) : Cache :=
  if (c.versions key).isEmpty then { c with lists := c.lists.erase key } else c

def offer (c : Cache) (b : Blob) : Cache × Answer :=
  match c.lists.get? b.key with
  | some blobs => c.offerTo blobs b
  | none =>
    match (c.openKey b.key).offerTo [] b with
    | (c, .ok taken) => (c, .ok taken)
    | (c, .error e) => (c.closeKey b.key, .error e)

/-- Looks for a version before a blob without content is offered for it. -/
def offerArrival (c : Cache) (key : String) (version : VersionId) (now : Millis) : Cache × Answer :=
  match c.find? key version with
  | some stored => (c, .ok (stored, false))
  | none =>
    if c.isInvalid version then (c, .error (.versionInvalid version))
    else c.offer (Blob.ofArrival key version now)

def offerObject (c : Cache) (key : String) (version : VersionId) (properties : Properties)
    (payload : Bytes) (now : Millis) : Cache × Answer :=
  match Blob.ofObject key version properties payload now with
  | .error e => (c, .error e)
  | .ok b => c.offer b

end BlobReplica.Cache
