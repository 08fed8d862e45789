import BlobReplica.Proofs.Cache.Queries
import BlobReplica.Proofs.Node.Gate
import BlobReplica.Proofs.Node.Present
import BlobReplica.Proofs.Service.Atomic

/-! Objects that are taken in whole. The cache asks only whether their version is stored, so it gives
back the object, or the blob that was there before, however far that one has come. -/

namespace BlobReplica

namespace Blob

variable {b : Blob} {key : String} {version : VersionId} {properties : Properties} {payload : Bytes}
  {now : Millis}

theorem exists_ofObject (built : (ofObject key version properties payload now).isOk = true) :
    ∃ b, ofObject key version properties payload now = .ok b := by
  cases made : ofObject key version properties payload now with
  | ok b => exact ⟨b, rfl⟩
  | error e =>
    rw [made] at built
    contradiction

theorem satisfies_version :
    b.satisfies { version := some version } = true ↔ b.version = version := by
  simp [satisfies, Constraints.acceptsCreated, Table.empty, eq_comm (a := version)]

end Blob

namespace Cache

variable {c c' : Cache} {b x : Blob} {key : String} {version : VersionId} {properties : Properties}
  {payload : Bytes} {now : Millis}

theorem Sound.lookupBest_version (sound : c.Sound) (key : String) (version : VersionId) :
    c.lookupBest key { version := some version } = (c.find? key version).filter (·.isComplete) := by
  refine Option.ext fun b => ?_
  rw [sound.lookupBest_eq_some, Option.filter_eq_some_iff, sound.find?_eq_some]
  simp only [Answers, Blob.satisfies_version]
  constructor
  · rintro ⟨⟨listed, complete, named⟩, _⟩
    exact ⟨⟨listed, named⟩, complete⟩
  · rintro ⟨⟨listed, named⟩, complete⟩
    refine ⟨⟨listed, complete, named⟩, fun x candidate => .inl ?_⟩
    obtain ⟨listed', _, named'⟩ := candidate
    exact sound.same_version listed' listed (named'.trans named.symm)

theorem insertObject_eq_stored (built : Blob.ofObject key version properties payload now = .ok b)
    (stored : c.find? key version = some x) :
    c.insertObject key version properties payload now = .ok (c, x) := by
  have same := Blob.same_ofObject built
  have found : c.find? b.key b.version = some x := by
    rw [same.key, same.version]
    exact stored
  rw [insertObject, built]
  simp only [bind, Except.bind, Cache.insert, found]
  rfl

theorem insertObject_stored (stored : c.find? key version = some b)
    (taken : c.insertObject key version properties payload now = .ok (c', x)) : x = b ∧ c' = c := by
  obtain ⟨made, _, built, _⟩ := insertObject_eq_ok taken
  rw [insertObject_eq_stored built stored] at taken
  cases taken
  exact ⟨rfl, rfl⟩

theorem insertObject_absent (absent : c.find? key version = none)
    (taken : c.insertObject key version properties payload now = .ok (c', x)) :
    x.isComplete = true ∧ x.payload? = some payload := by
  obtain ⟨made, isNew, built, inserted⟩ := insertObject_eq_ok taken
  have same := Blob.same_ofObject built
  obtain ⟨complete, verified⟩ := Blob.payload_ofObject built
  have none : c.find? made.key made.version = none := by
    rw [same.key, same.version]
    exact absent
  obtain ⟨rfl, _⟩ := gains_insert none inserted
  exact ⟨complete, by rw [Blob.payload?, verified]⟩

theorem Sound.find?_insertObject (sound : c.Sound)
    (taken : c.insertObject key version properties payload now = .ok (c', x)) :
    c'.Sound ∧ c'.find? key version = some x := by
  obtain ⟨made, isNew, built, inserted⟩ := insertObject_eq_ok taken
  have same := Blob.same_ofObject built
  obtain ⟨stored, key', version'⟩ := sound.insert_stores inserted
  have sound' : c'.Sound := by
    rcases sound.insert_cases inserted with ⟨rfl, _⟩ | ⟨taken, _⟩
    · exact sound
    · exact taken.sound
  have found := sound'.stores_iff_find?.mp stored
  rw [key', version', same.key, same.version] at found
  exact ⟨sound', found⟩

end Cache

namespace Node

variable {n : Node} {h : History} {grace now : Millis} {c : Cache} {x : Blob} {key : String}
  {version : VersionId} {properties : Properties} {payload : Bytes}

/-- Whatever was done to a node, an object that the cache answers for without an error is found under
its key and version. What is found is complete exactly if no incomplete blob was stored there, and then
it is what a query for that version has for an answer. It is the blob that was stored, if one was, and
the object with this payload otherwise. -/
theorem object_taken (run : Run Permits (.empty grace) h n)
    (taken : n.cache.insertObject key version properties payload now = .ok (c, x)) :
    c.find? key version = some x ∧
    (x.isComplete = true ↔ ∀ o, n.cache.find? key version = some o → o.isComplete = true) ∧
    c.lookupBest key { version := some version } = (if x.isComplete then some x else none) ∧
    (∀ o, n.cache.find? key version = some o → x = o ∧ c = n.cache) ∧
    (n.cache.find? key version = none → x.payload? = some payload) := by
  obtain ⟨sound, found⟩ := (Grown.run run).cache.find?_insertObject taken
  refine ⟨found, ?_, ?_, fun o stored => Cache.insertObject_stored stored taken,
    fun absent => (Cache.insertObject_absent absent taken).2⟩
  · cases stored : n.cache.find? key version with
    | none => exact iff_of_true (Cache.insertObject_absent stored taken).1 (by simp)
    | some o =>
      obtain ⟨rfl, _⟩ := Cache.insertObject_stored stored taken
      simp
  · rw [sound.lookupBest_version, found]
    rfl

/-- Two objects of one byte under one version: the first stays. -/
theorem object_taken_twice :
    Permits (empty 10000) (.insertObject "k" (.ofNumber 1) (sampleTold 0) [97] 10) ∧
    samplePresent.cache.insertObject "k" (.ofNumber 1) (sampleTold 2) [97] 20 =
      .ok (samplePresent.cache, sampleObject 1 0) ∧
    samplePresent.cache.find? "k" (.ofNumber 1) = some (sampleObject 1 0) ∧
    (sampleObject 1 0).isComplete = true ∧
    samplePresent.cache.lookupBest "k" { version := some (.ofNumber 1) } =
      some (sampleObject 1 0) := by
  have permitted :
      Permits (empty 10000) (.insertObject "k" (.ofNumber 1) (sampleTold 0) [97] 10) := trivial
  have run : Run Permits (.empty 10000) _ samplePresent := .step .start permitted
  have stored : samplePresent.cache.find? "k" (.ofNumber 1) = some (sampleObject 1 0) := by
    decide +kernel
  have valid : (Blob.ofObject "k" (.ofNumber 1) (sampleTold 2) [97] 20).isOk = true := by
    decide +kernel
  obtain ⟨b, built⟩ := Blob.exists_ofObject valid
  have taken := Cache.insertObject_eq_stored built stored
  obtain ⟨found, whole, answer, _⟩ := object_taken run taken
  have complete : (sampleObject 1 0).isComplete = true :=
    whole.mpr fun o stored' => by
      obtain rfl := Option.some.inj (stored'.symm.trans stored)
      decide
  rw [if_pos complete] at answer
  exact ⟨permitted, taken, found, complete, answer⟩

/-- A version of which a piece is stored: the object is accepted and its bytes are lost. What comes back
is the piece, incomplete, and the query for the version has no answer. -/
theorem object_lost :
    Run Permits (.empty 10000) [(empty 10000, .fragment {} sampleFragment 10)] sampleNode ∧
    sampleNode.cache.insertObject "k" (.ofNumber 7) (sampleTold 0) [97] 20 =
      .ok (sampleNode.cache, sampleBlob) ∧
    sampleBlob.isComplete = false ∧
    sampleNode.cache.lookupBest "k" { version := some (.ofNumber 7) } = none := by
  have valid : (Blob.ofObject "k" (.ofNumber 7) (sampleTold 0) [97] 20).isOk = true := by
    decide +kernel
  obtain ⟨b, built⟩ := Blob.exists_ofObject valid
  exact ⟨.step .start permits_sampleFragment,
    Cache.insertObject_eq_stored built sampleNode_cache, by decide, by decide +kernel⟩

end Node
end BlobReplica
