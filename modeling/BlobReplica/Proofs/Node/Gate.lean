import BlobReplica.Proofs.Blob.Gate
import BlobReplica.Proofs.Datagram.Reading
import BlobReplica.Proofs.Node.Events

/-! The checksum gate of a node: whatever is done to it, every blob that it holds has come about by
operations, so what it serves has the checksum that it reports. -/

namespace BlobReplica

namespace Blob

variable {b b' m : Blob} {f : Fragment} {now : Millis} {filled : Nat}

theorem Arises.merge (arises : b.Arises) (inside : f.WithinSection)
    (merged : b.merge f now = .ok (m, filled)) : m.Arises := by
  have done : (b.perform (.merge f now)).1 = m := by
    rw [Blob.perform, merged, wrote]
  have proper : (Operation.merge f now).Proper := inside
  exact done ▸ arises.perform proper

theorem Arises.applyHeaders (arises : b.Arises) (headers : List (String × String)) (now : Millis) :
    (b.applyHeaders headers now).Arises :=
  have proper : (Operation.applyHeaders headers now).Proper := trivial
  arises.perform proper

theorem Arises.setPayload (arises : b.Arises) (body : Bytes) (now : Millis) :
    (b.setPayload body now).Arises :=
  have proper : (Operation.setPayload body now).Proper := trivial
  arises.perform proper

theorem Arises.settle (arises : b.Arises) : b.settle.1.Arises :=
  have proper : Operation.settle.Proper := trivial
  arises.perform proper

theorem Arises.receives (arises : b.Arises) (receives : b.Receives b') : b'.Arises := by
  induction receives with
  | refl => exact arises
  | tail _ step ih =>
    obtain ⟨op, supplies, rfl⟩ := step
    refine ih.perform ?_
    cases op with
    | merge => exact supplies.elim
    | addByteRange | applyHeaders | setPayload | touch | settle => trivial

theorem arises_ofObject {key : String} {version : VersionId} {properties : Properties}
    {payload : Bytes} (made : ofObject key version properties payload now = .ok b) : b.Arises := by
  simp only [ofObject] at made
  split at made
  next =>
    have headed := (Arises.arrival key version now).applyHeaders properties.entries now
    exact Except.ok.inj made ▸ (headed.setPayload payload now).settle
  next => contradiction

end Blob

namespace Node

variable {n n' : Node} {b b' s x : Blob} {c : Cache} {e : Event} {h : History} {i : Intake}
  {f : Fragment} {start now : Millis} {o : Outcome}

/-- Fragments lie inside their sections, and a blob that is handed to an event has come about by
operations and is in the state in which the node holds it, if it does. -/
def Permits (n : Node) : Event → Prop
  | .fragment _ f _ => f.WithinSection
  | .recover b _ _ => n.Shows b ∧ b.Arises
  | .operate b op => n.Shows b ∧ b.Arises ∧ op.Proper
  | .insert b => b.Arises
  | _ => True

/-- Every blob that the node holds has come about by operations. -/
structure Grown (n : Node) : Prop extends n.Consistent where
  arises : ∀ b, n.Holds b → b.Arises

theorem grown_empty (grace : Millis) : (empty grace).Grown where
  toConsistent := consistent_empty grace
  arises _ held := absurd held (not_holds_empty grace)

namespace Grown

theorem narrow (grown : n.Grown) (narrows : n.Narrows n') : n'.Grown where
  toConsistent := grown.toConsistent.narrow narrows
  arises b held := grown.arises b (narrows.fewer b held)

theorem update (grown : n.Grown) (shows : n.Shows b) (same : b.Same b') (arises : b'.Arises) :
    (n.update b').Grown := by
  obtain ⟨consistent, holds⟩ := grown.toConsistent.update shows same
  refine ⟨consistent, fun x held => ?_⟩
  obtain ⟨o, former, rfl⟩ := (holds x).mp held
  rw [Cache.replaced]
  split
  next => exact arises
  next => exact grown.arises o former

theorem insert {isNew : Bool} (grown : n.Grown) (arises : b.Arises)
    (inserted : n.cache.insert b = .ok (c, x, isNew)) : (n.withCache c).Grown ∧ c.Stores x := by
  obtain ⟨consistent, holds, stored, origin⟩ := grown.toConsistent.insert inserted
  refine ⟨⟨consistent, fun y held => ?_⟩, stored⟩
  have new : x.Arises := by
    rcases origin with former | rfl
    · exact grown.arises x former
    · exact arises.number _
  rcases (holds y).mp held with former | rfl
  · exact grown.arises y former
  · exact new

theorem concludes (grown : n.Grown) (stored : n.cache.Stores b) (same : b.Same s) (arises : s.Arises)
    (concludes : i.Concludes n s start now n' o) : n'.Grown := by
  have shows := grown.single b (.inl stored)
  have updated := grown.update shows same arises
  exact updated.narrow
    (concludes.narrows updated.cache (grown.toConsistent.stores_update stored same))

theorem takes (grown : n.Grown) (inside : f.WithinSection) (takes : i.Takes n f now n' o) :
    n'.Grown := by
  have arrival := Blob.Arises.arrival f.key f.version now
  cases takes with
  | refused => exact grown
  | late opened | rejected opened => exact (grown.insert arrival opened).1
  | merged opened isOpen merged concludes =>
    obtain ⟨opened, stored⟩ := grown.insert arrival opened
    have arises := opened.arises _ (.inl stored)
    exact opened.concludes stored (Blob.advances_merge merged).same_settle
      (arises.merge inside merged).settle concludes

theorem attempts {response : Option Recovery.FetchResponse} {a : Recovery.Achievement}
    (grown : n.Grown) (shows : n.Shows b) (arises : b.Arises)
    (attempts : Recovery.Attempts n b response now n' b' a) : n'.Grown := by
  have settled {m : Blob} (received : b.Receives m) : (n.update m.settle.1).Grown :=
    grown.update shows received.advances.same_settle (arises.receives received).settle
  cases attempts with
  | alreadyComplete => exact grown.narrow (narrows_dequeue grown.cache b.version)
  | alreadyCorrupt =>
    have left := grown.narrow (narrows_dequeue grown.cache b.version)
    exact left.narrow (narrows_discardInvalid left.cache b.key b.version now)
  | unanswered => exact grown
  | broken _ _ refused =>
    have received := Recovery.receives_of_apply refused
    exact grown.update shows received.advances.toSame (arises.receives received)
  | incomplete _ _ applied =>
    have updated := settled (Recovery.receives_of_apply applied)
    exact updated.narrow (narrows_resort updated.cache _)
  | completed _ _ applied =>
    have updated := settled (Recovery.receives_of_apply applied)
    have left (v : VersionId) := updated.narrow (narrows_dequeue updated.cache v)
    exact (left _).narrow (narrows_resort (left _).cache _)
  | corrupt _ _ applied =>
    have updated := settled (Recovery.receives_of_apply applied)
    have left (v : VersionId) := updated.narrow (narrows_dequeue updated.cache v)
    exact (left _).narrow (narrows_discardInvalid (left _).cache _ _ now)

theorem perform (grown : n.Grown) (permitted : Permits n e) : (n.perform e).Grown := by
  cases e with
  | fragment i f now => exact grown.takes permitted (i.takes_fragment n f now)
  | datagram i d now =>
    obtain ⟨counters, same | ⟨f, decoded, same⟩⟩ := i.datagram_cases n d now
    · rw [Node.perform, same]
      exact grown.narrow (narrows_counted grown.cache counters)
    · have taken := grown.takes (Datagram.withinSection_of_decode decoded) (i.takes_fragment n f now)
      rw [Node.perform, same]
      exact taken.narrow (narrows_counted taken.cache counters)
  | sweep now policy => exact grown.narrow (narrows_sweep grown.cache now policy)
  | poll now => exact grown.narrow (narrows_poll grown.cache now)
  | recover b response now =>
    exact grown.attempts permitted.1 permitted.2 (Recovery.attempts_attempt n b response now)
  | operate b op =>
    obtain ⟨shows, arises, proper⟩ := permitted
    exact grown.update shows (Blob.same_perform b op) (arises.perform proper)
  | insert b =>
    rw [Node.perform]
    split
    next inserted => exact (grown.insert permitted inserted).1
    next => exact grown
  | insertObject key version properties payload now =>
    rw [Node.perform]
    split
    next c x inserted =>
      obtain ⟨b, isNew, made, inserted⟩ := Cache.insertObject_eq_ok inserted
      exact (grown.insert (Blob.arises_ofObject made) inserted).1
    next => exact grown
  | remove key version => exact grown.narrow (narrows_remove grown.cache key version)
  | discardInvalid key version now =>
    exact grown.narrow (narrows_discardInvalid grown.cache key version now)
  | markInvalid version now => exact grown.narrow (narrows_markInvalid grown.cache version now)
  | resort key => exact grown.narrow (narrows_resort grown.cache key)

theorem run {grace : Millis} (run : Run Permits (.empty grace) h n) : n.Grown := by
  induction run with
  | start => exact grown_empty grace
  | step _ permitted ih => exact ih.perform permitted

end Grown

/-- Whatever is done to a node: each blob that it holds can be handed to further events, it shows a
payload exactly when it is complete, and every answer to a query or a listing has a payload of its
size with the checksum that it reports. -/
theorem checksum_gate {grace : Millis} (run : Run Permits (.empty grace) h n) :
    (∀ b, n.Holds b → n.Shows b ∧ b.Arises) ∧ (∀ b : Blob, b.Arises → b.Vouched) ∧
    (∀ key constraints b, n.cache.lookupBest key constraints = some b →
      ∃ payload, b.payload? = some payload ∧
        b.declaredMd5? = some (Digest.md5Hex payload) ∧ b.size = some payload.length) ∧
    ∀ listing, ∀ b ∈ n.cache.findAll listing, ∃ payload, b.payload? = some payload ∧
      b.declaredMd5? = some (Digest.md5Hex payload) ∧ b.size = some payload.length := by
  have grown := Grown.run run
  have vouched (b : Blob) (stored : n.cache.Stores b) : b.Vouched :=
    (grown.arises b (.inl stored)).gated.vouched
  refine ⟨fun b held => ⟨grown.single b held, grown.arises b held⟩,
    fun b arises => arises.gated.vouched, fun key constraints b found => ?_, fun listing b reported => ?_⟩
  · obtain ⟨listed, complete⟩ := Cache.of_lookupBest found
    exact (vouched b ⟨key, listed⟩).payload complete
  · obtain ⟨stored, complete⟩ := Cache.of_findAll reported
    exact (vouched b stored).payload complete

theorem permits_sampleFragment : Permits (empty 10000) (.fragment {} sampleFragment 10) := by
  show sampleFragment.WithinSection
  decide

theorem sampleNode_grown : sampleNode.Grown :=
  Grown.run (.step .start permits_sampleFragment)

theorem sampleNode_holds : sampleNode.Holds sampleBlob :=
  .inl (sampleNode_grown.cache.stores_iff_find?.mpr sampleNode_cache)

theorem sampleNode_shows : sampleNode.Shows sampleBlob :=
  sampleNode_grown.single _ sampleNode_holds

/-- A blob of which a piece came over the network and the rest from the authority. -/
theorem checksum_gate_sample :
    Permits (empty 10000) (.fragment {} sampleFragment 10) ∧
    Permits sampleNode (.recover sampleBlob (some sampleAnswer) 40) ∧
    ∃ b, (sampleNode.perform (.recover sampleBlob (some sampleAnswer) 40)).cache.lookupBest "k" {} =
        some b ∧
      ∃ payload, b.payload? = some payload ∧
        b.declaredMd5? = some (Digest.md5Hex payload) ∧ b.size = some payload.length := by
  have first := permits_sampleFragment
  have second : Permits sampleNode (.recover sampleBlob (some sampleAnswer) 40) :=
    ⟨sampleNode_shows, sampleNode_grown.arises _ sampleNode_holds⟩
  have answered : ((sampleNode.perform (.recover sampleBlob (some sampleAnswer) 40)).cache.lookupBest
      "k" {}).isSome = true := by
    decide +kernel
  obtain ⟨b, found⟩ := Option.isSome_iff_exists.mp answered
  exact ⟨first, second, b, found, (checksum_gate (.step (.step .start first) second)).2.2.1 "k" {} b found⟩

end Node
end BlobReplica
