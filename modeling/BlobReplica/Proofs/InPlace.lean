import BlobReplica.InPlace
import BlobReplica.Proofs.Blob.Life
import BlobReplica.Proofs.Cache.Entry
import BlobReplica.Proofs.Node.Gate

/-! Slices that are refused leave no trace. A section is opened before the length of a fragment is
compared, and a blob stored before its first fragment is merged; but a section that has just been
opened has the length that the fragment declares, and a blob that has just been stored has no section
open, so no error comes after either. -/

namespace BlobReplica

theorem Assembly.length_ofLength (length : Nat) : (ofLength length).length = length :=
  rfl

namespace Blob

variable {b b' : Blob} {f : Fragment} {now : Millis} {e : Error} {op : Operation} {filled : Nat}

/-- What is told of a blob that is changed at once, if it is changed. -/
def told (b : Blob) : Except Error (Blob × Nat) → Blob × Except Error Nat
  | .ok (b', filled) => (b', .ok filled)
  | .error e => (b, .error e)

theorem writeInPlace_ofLength (b : Blob) (f : Fragment) (put : Assembly → Blob) :
    b.writeInPlace (.ofLength f.sectionLength.toNat) f put =
      (put ((Assembly.ofLength f.sectionLength.toNat).write f.offset.toNat f.data).1,
        .ok ((Assembly.ofLength f.sectionLength.toNat).write f.offset.toNat f.data).2) :=
  if_neg (not_not.mpr rfl)

theorem mergeMetadataInPlace_eq (metadata : f.sectionKind = .metadata) :
    b.mergeSectionInPlace f = b.told (b.mergeMetadata f) := by
  rw [mergeSectionInPlace, mergeMetadata, metadata]
  by_cases decoded : b.metadataDecoded = true
  · rw [if_pos decoded, if_pos decoded]
    rfl
  · rw [if_neg decoded, if_neg decoded, openMetadata]
    cases open_ : b.metadata with
    | none =>
      simp only [writeInPlace_ofLength, Option.getD_none, Assembly.length_ofLength, ne_eq,
        not_true_eq_false, if_false]
      rfl
    | some a =>
      simp only [writeInPlace, Option.getD_some, metadata]
      split <;> rfl

theorem mergePayloadInPlace_eq (payload : f.sectionKind = .payload) :
    b.mergeSectionInPlace f = b.told (b.mergePayload f) := by
  rw [mergeSectionInPlace, mergePayload, payload, openPayload]
  cases open_ : b.payload with
  | unknown =>
    simp only [if_true, writeInPlace_ofLength, Assembly.length_ofLength, ne_eq, not_true_eq_false,
      if_false]
    rfl
  | assembling a =>
    simp only [open_, writeInPlace, payload, reduceCtorEq, if_false]
    split <;> rfl
  | verified bytes | discarded =>
    simp only [open_, reduceCtorEq, if_false]
    rfl

theorem mergeInPlace_eq (b : Blob) (f : Fragment) (now : Millis) :
    b.mergeInPlace f now = b.told (b.merge f now) := by
  have written : b.mergeSectionInPlace f = b.told (b.mergeSection f) := by
    rw [mergeSection]
    cases kind : f.sectionKind with
    | metadata => exact mergeMetadataInPlace_eq kind
    | payload => exact mergePayloadInPlace_eq kind
  rw [mergeInPlace, merge, written]
  split
  next => rfl
  next =>
    split
    next => rfl
    next => cases b.mergeSection f <;> rfl

theorem addByteRangeInPlace_eq (b : Blob) (offset : Nat) (data : Bytes) (now : Millis) :
    b.addByteRangeInPlace offset data now = b.told (b.addByteRange offset data now) := by
  rw [addByteRangeInPlace, addByteRange]
  split
  next => rfl
  next =>
    cases b.payload with
    | assembling a =>
      simp only
      split <;> rfl
    | unknown | verified | discarded => rfl

/-! ### Runs -/

def performInPlace (b : Blob) : Operation → Blob × Reply
  | .merge f now => (b.mergeInPlace f now).map id .wrote
  | .addByteRange offset data now => (b.addByteRangeInPlace offset data now).map id .wrote
  | op => b.perform op

/-- A blob after some operations where it stands. -/
def runInPlace (b : Blob) (ops : List Operation) : Blob × History :=
  ops.foldl (fun s op => ((s.1.performInPlace op).1, s.2 ++ [(op, (s.1.performInPlace op).2)])) (b, [])

theorem performInPlace_eq (b : Blob) (op : Operation) : b.performInPlace op = b.perform op := by
  cases op with
  | merge f now =>
    rw [performInPlace, perform, mergeInPlace_eq]
    cases b.merge f now <;> rfl
  | addByteRange offset data now =>
    rw [performInPlace, perform, addByteRangeInPlace_eq]
    cases b.addByteRange offset data now <;> rfl
  | applyHeaders | setPayload | touch | settle => rfl

theorem runInPlace_eq (b : Blob) (ops : List Operation) : b.runInPlace ops = b.run ops := by
  simp only [runInPlace, performInPlace_eq]
  rfl

theorem perform_refused (refused : (b.perform op).2 = .wrote (.error e)) : (b.perform op).1 = b := by
  cases op with
  | merge f now =>
    rw [perform] at refused ⊢
    cases merged : b.merge f now with
    | error e => rfl
    | ok written =>
      simp [merged, wrote] at refused
  | addByteRange offset data now =>
    rw [perform] at refused ⊢
    cases added : b.addByteRange offset data now with
    | error e => rfl
    | ok written =>
      simp [added, wrote] at refused
  | applyHeaders | setPayload | touch | settle => contradiction

/-- A refused operation can be left out of a run: nothing else that is told changes, and neither does
what becomes of the blob. -/
theorem run_refused (b : Blob) (before after : List Operation)
    (refused : ((b.run before).1.perform op).2 = .wrote (.error e)) :
    (b.run (before ++ op :: after)).1 = (b.run (before ++ after)).1 ∧
      ∃ later, (b.run (before ++ after)).2 = (b.run before).2 ++ later ∧
        (b.run (before ++ op :: after)).2 =
          (b.run before).2 ++ (op, .wrote (.error e)) :: later := by
  have same := perform_refused refused
  have first : (b.run before).1.run [op] = ((b.run before).1, [(op, .wrote (.error e))]) := by
    have alone : (b.run before).1.run [op] = (((b.run before).1.perform op).1,
        [(op, ((b.run before).1.perform op).2)]) := rfl
    rw [alone, same, refused]
  have rest : (b.run before).1.run (op :: after) =
      (((b.run before).1.run after).1, (op, .wrote (.error e)) :: ((b.run before).1.run after).2) := by
    rw [← List.singleton_append]
    refine Prod.ext ?_ ?_
    · rw [run_append, first]
    · rw [history_append, first, List.singleton_append]
  refine ⟨?_, ((b.run before).1.run after).2, history_append b before after, ?_⟩
  · rw [run_append, run_append, rest]
  · rw [history_append, rest]

/-! ### Blobs of which nothing has arrived -/

theorem merge_arrival (f : Fragment) (opened copy : Nat) (now : Millis) :
    ∃ m filled, ({ ofArrival f.key f.version opened with copy } : Blob).merge f now = .ok (m, filled) := by
  have fits : ¬ ((Assembly.ofLength f.sectionLength.toNat).length ≠ f.sectionLength.toNat) :=
    not_not.mpr rfl
  have written : ∃ o filled,
      ({ ofArrival f.key f.version opened with copy } : Blob).mergeSection f = .ok (o, filled) := by
    rw [mergeSection]
    cases f.sectionKind with
    | metadata =>
      rw [mergeMetadata]
      exact ⟨_, _, if_neg fits⟩
    | payload =>
      rw [mergePayload]
      exact ⟨_, _, if_neg fits⟩
  obtain ⟨o, filled, written⟩ := written
  refine ⟨(o.touch now).begin, filled, ?_⟩
  rw [merge, if_neg (by simp [ofArrival]), if_neg (by simp [ofArrival, isTerminal, Status.isTerminal]),
    written]
  rfl

end Blob

namespace Intake

variable {i : Intake} {n n' : Node} {f : Fragment} {d : Bytes} {now : Millis} {o : Outcome}
  {c : Cache} {b : Blob} {isNew : Bool}

theorem fragmentInPlace_eq (consistent : n.Consistent) (i : Intake) (f : Fragment) (now : Millis) :
    i.fragmentInPlace n f now = i.fragment n f now := by
  rw [fragmentInPlace, fragment, Cache.offerArrival_eq]
  cases opened : n.cache.getOrCreate f.key f.version now with
  | error e => rfl
  | ok found =>
    obtain ⟨c, b, isNew⟩ := found
    simp only [Cache.told, Blob.mergeInPlace_eq]
    split
    next => rfl
    next =>
      cases merged : b.merge f now with
      | ok result => rfl
      | error e =>
        -- The blob is put back as it was, where it stands.
        obtain ⟨consistent', _, stored, _⟩ := consistent.insert opened
        have shows := consistent'.single b (.inl stored)
        simp only [Blob.told, Node.update_self shows]

theorem datagramInPlace_eq (consistent : n.Consistent) (i : Intake) (d : Bytes) (now : Millis) :
    i.datagramInPlace n d now = i.datagram n d now := by
  rw [datagramInPlace, datagram]
  cases Datagram.decode d i.maxPacketSize i.maxObjectSize with
  | error e => rfl
  | ok f => simp only [fragmentInPlace_eq consistent]

/-- A blob that a fragment does not change was stored before: one that comes into being is open, and
its first fragment is merged. -/
theorem withCache_of_stale (consistent : n.Consistent)
    (opened : n.cache.getOrCreate f.key f.version now = .ok (c, b, isNew))
    (stale : b.isTerminal = true ∨ ∃ e, b.merge f now = .error e) : n.withCache c = n := by
  rcases consistent.cache.insert_cases opened with ⟨rfl, _⟩ | ⟨_, rfl⟩
  · rfl
  · rcases stale with decided | ⟨e, refused⟩
    · contradiction
    · obtain ⟨m, filled, merged⟩ := Blob.merge_arrival f now n.cache.copies now
      cases refused.symm.trans merged

theorem Takes.unchanged (takes : i.Takes n f now n' o) (consistent : n.Consistent)
    (refused : o = .rejected ∨ o = .ignored) : n' = n := by
  cases takes with
  | refused => rfl
  | late opened decided => exact withCache_of_stale consistent opened (.inl decided)
  | rejected opened error => exact withCache_of_stale consistent opened (.inr ⟨_, error⟩)
  | merged opened isOpen merged concludes => cases concludes <;> simp at refused

theorem Takes.ne_malformed (takes : i.Takes n f now n' o) : o ≠ .malformed := by
  cases takes with
  | refused | late | rejected => exact Outcome.noConfusion
  | merged _ _ _ concludes => cases concludes <;> exact Outcome.noConfusion

theorem fragment_unchanged (consistent : n.Consistent)
    (refused : (i.fragment n f now).2 = .rejected ∨ (i.fragment n f now).2 = .ignored) :
    (i.fragment n f now).1 = n :=
  (i.takes_fragment n f now).unchanged consistent refused

theorem datagram_unchanged (consistent : n.Consistent)
    (refused : (i.datagram n d now).2 = .malformed ∨ (i.datagram n d now).2 = .rejected ∨
      (i.datagram n d now).2 = .ignored) :
    (i.datagram n d now).1 =
      { n with counters := n.counters.record (i.datagram n d now).2 } := by
  revert refused
  rw [datagram]
  cases Datagram.decode d i.maxPacketSize i.maxObjectSize with
  | error e => exact fun _ => rfl
  | ok f =>
    simp only
    intro refused
    have whole := (i.takes_fragment n f now).ne_malformed
    rw [fragment_unchanged consistent (refused.resolve_left whole)]

end Intake

namespace Node

variable {n : Node} {h : History} {grace : Millis}

/-- What is refused leaves no trace. An error of a merge or of a range leaves the blob as it was, so in
every run the operation can be left out. A fragment that is rejected or ignored leaves the node as it
was, and a datagram that is malformed, rejected or ignored is counted and changes nothing else. -/
theorem refused_without_trace (run : Run Permits (.empty grace) h n) :
    (∀ (b : Blob) op e, (b.performInPlace op).2 = .wrote (.error e) → (b.performInPlace op).1 = b) ∧
    (∀ (b : Blob) before op after e,
      ((b.runInPlace before).1.performInPlace op).2 = .wrote (.error e) →
      (b.runInPlace (before ++ op :: after)).1 = (b.runInPlace (before ++ after)).1 ∧
      ∃ later, (b.runInPlace (before ++ after)).2 = (b.runInPlace before).2 ++ later ∧
        (b.runInPlace (before ++ op :: after)).2 =
          (b.runInPlace before).2 ++ (op, .wrote (.error e)) :: later) ∧
    (∀ (i : Intake) f now, (i.fragmentInPlace n f now).2 = .rejected ∨
      (i.fragmentInPlace n f now).2 = .ignored → (i.fragmentInPlace n f now).1 = n) ∧
    ∀ (i : Intake) d now, (i.datagramInPlace n d now).2 = .malformed ∨
      (i.datagramInPlace n d now).2 = .rejected ∨ (i.datagramInPlace n d now).2 = .ignored →
      (i.datagramInPlace n d now).1 =
        { n with counters := n.counters.record (i.datagramInPlace n d now).2 } := by
  have consistent := (Grown.run run).toConsistent
  simp only [Blob.performInPlace_eq, Blob.runInPlace_eq, Intake.fragmentInPlace_eq consistent,
    Intake.datagramInPlace_eq consistent]
  exact ⟨fun _ _ _ => Blob.perform_refused, fun b before _ after _ => b.run_refused before after,
    fun _ _ _ => Intake.fragment_unchanged consistent,
    fun _ _ _ => Intake.datagram_unchanged consistent⟩

/-- A node with a blob of ten bytes gets a fragment that declares eleven, and a datagram without
content. -/
theorem refused_without_trace_sample :
    Permits (empty 10000) (.fragment {} sampleFragment 10) ∧
    (sampleBlob.performInPlace (.merge { sampleFragment with sectionLength := 11 } 20)).2 =
      .wrote (.error (.lengthMismatch (.ofNumber 7) "payload" 10 11)) ∧
    (sampleBlob.performInPlace (.merge { sampleFragment with sectionLength := 11 } 20)).1 =
      sampleBlob ∧
    (Intake.fragmentInPlace {} sampleNode { sampleFragment with sectionLength := 11 } 20).1 =
      sampleNode ∧
    (Intake.datagramInPlace {} sampleNode [] 20).1 =
      { sampleNode with counters := sampleNode.counters.record .malformed } := by
  have run : Run Permits (.empty 10000) _ sampleNode := .step .start permits_sampleFragment
  obtain ⟨merges, _, fragments, datagrams⟩ := refused_without_trace run
  have mismatch : (sampleBlob.performInPlace (.merge { sampleFragment with sectionLength := 11 } 20)).2 =
      .wrote (.error (.lengthMismatch (.ofNumber 7) "payload" 10 11)) := rfl
  have rejected : (Intake.fragmentInPlace {} sampleNode { sampleFragment with sectionLength := 11 }
      20).2 = .rejected := by
    decide +kernel
  have malformed : (Intake.datagramInPlace {} sampleNode [] 20).2 = .malformed := by decide +kernel
  exact ⟨permits_sampleFragment, mismatch, merges _ _ _ mismatch, fragments _ _ _ (.inl rejected),
    malformed ▸ datagrams _ _ _ (.inl malformed)⟩

end Node
end BlobReplica
