import BlobReplica.Cache.Entry
import BlobReplica.Proofs.Cache

/-! An offer, taken step by step, does what taking in a blob at once does: the list that a new key has
in between does not show. What is refused leaves the cache as it was, down to its keys. -/

namespace BlobReplica.Cache

variable {c c' : Cache} {b x : Blob} {key : String} {version : VersionId} {isNew : Bool}
  {e : Blob.Error}

/-- What an offer is when the blob is taken in at once. -/
def told (c : Cache) : Except Blob.Error (Cache × Blob × Bool) → Cache × Answer
  | .ok (c', x, isNew) => (c', .ok (x, isNew))
  | .error e => (c, .error e)

theorem closeKey_openKey (absent : c.lists.get? key = none) : (c.openKey key).closeKey key = c := by
  have empty : (c.openKey key).versions key = [] := by
    rw [versions, openKey, Table.get?_insert, if_pos rfl]
    rfl
  rw [closeKey, empty, List.isEmpty_nil, if_pos rfl, openKey, Table.erase_insert absent]

/-- A key with one more version keeps its place. -/
theorem setVersions_sorted (c : Cache) (key : String) (blobs : List Blob) (b : Blob) :
    c.setVersions key (sorted (blobs ++ [b])) =
      { c with lists := c.lists.insert key (sorted (blobs ++ [b])) } := by
  have filled : (sorted (blobs ++ [b])).isEmpty = false := by
    rw [List.isEmpty_eq_false_iff, ← List.length_pos_iff, sorted, List.length_mergeSort]
    simp
  simp only [setVersions, filled]
  rfl

theorem offer_eq (c : Cache) (b : Blob) : c.offer b = c.told (c.insert b) := by
  rw [offer, Cache.insert, find?]
  cases found : c.lists.get? b.key with
  | some blobs =>
    have held : c.versions b.key = blobs := by rw [versions, found]; rfl
    simp only [held, offerTo]
    cases blobs.find? (·.version = b.version) with
    | some x => rfl
    | none =>
      cases c.isInvalid b.version with
      | true => rfl
      | false =>
        simp only [setVersions_sorted]
        rw [← held]
        rfl
  | none =>
    have nothing : c.versions b.key = [] := by rw [versions, found]; rfl
    have marks : (c.openKey b.key).isInvalid b.version = c.isInvalid b.version := rfl
    simp only [nothing, offerTo, List.find?_nil, marks]
    cases c.isInvalid b.version with
    | true =>
      simp only [if_true, closeKey_openKey found]
      rfl
    | false =>
      have versions : ({ c with copies := c.copies + 1 } : Cache).versions b.key = [] := nothing
      simp only [setVersions_sorted, versions, openKey, Table.insert_insert]
      rfl

theorem offerArrival_eq (c : Cache) (key : String) (version : VersionId) (now : Millis) :
    c.offerArrival key version now = c.told (c.getOrCreate key version now) := by
  obtain ⟨b, arrival, rfl, rfl⟩ :
      ∃ b, Blob.ofArrival key version now = b ∧ b.key = key ∧ b.version = version :=
    ⟨_, rfl, rfl, rfl⟩
  rw [offerArrival, getOrCreate, arrival, offer_eq, Cache.insert]
  cases c.find? b.key b.version with
  | some stored => rfl
  | none =>
    cases marked : c.isInvalid b.version with
    | true => rfl
    | false => rfl

theorem told_refused {r : Except Blob.Error (Cache × Blob × Bool)}
    (refused : (c.told r).2 = .error e) : (c.told r).1 = c := by
  cases r with
  | ok taken => contradiction
  | error e => rfl

/-- A refused blob leaves no trace, neither of itself nor of its key. -/
theorem offer_refused (refused : (c.offer b).2 = .error e) : (c.offer b).1 = c := by
  rw [offer_eq] at refused ⊢
  exact told_refused refused

theorem offerArrival_refused {now : Millis}
    (refused : (c.offerArrival key version now).2 = .error e) :
    (c.offerArrival key version now).1 = c := by
  rw [offerArrival_eq] at refused ⊢
  exact told_refused refused

theorem offerObject_refused {properties : Properties} {payload : Bytes} {now : Millis}
    (refused : (c.offerObject key version properties payload now).2 = .error e) :
    (c.offerObject key version properties payload now).1 = c := by
  rw [offerObject] at refused ⊢
  cases made : Blob.ofObject key version properties payload now with
  | error e => rfl
  | ok b =>
    rw [made] at refused
    exact offer_refused refused

end BlobReplica.Cache
