import BlobReplica.Proofs.Blob.Identity
import BlobReplica.Proofs.Blob.Runs

/-! What holds of every blob, whatever was done to it: its property names differ by more than letter
case, the times that it tells are 64-bit numbers, and once complete it has the bytes that its
checksum stands for. -/

namespace BlobReplica.Blob

structure Coherent (b : Blob) : Prop where
  distinct : b.properties.DistinctNames
  bounded : b.Bounded
  verified : b.isComplete = true → ∃ payload, b.payload? = some payload ∧
    b.declaredMd5? = some (Digest.md5Hex payload)

variable {b b' : Blob} {now : Millis}

theorem isTerminal_of_isComplete (complete : b.isComplete = true) : b.isTerminal = true := by
  rw [isTerminal, of_decide_eq_true complete]
  rfl

theorem coherent_ofArrival (key : String) (version : VersionId) (copy : Nat)
    (bound : now ≤ Millis.unbounded) : { ofArrival key version now with copy }.Coherent where
  distinct := List.Pairwise.nil
  bounded := ⟨bound, Nat.zero_le _, Nat.le.refl, bound⟩
  verified complete := by contradiction

/-- As long as nothing is decided, no bytes are vouched for. -/
theorem Coherent.advance (coherent : b.Coherent) (isOpen : b.isTerminal = false)
    (advances : b.Advances b') : b'.Coherent where
  distinct := advances.distinct coherent.distinct
  bounded := advances.bounded coherent.bounded
  verified complete := by
    have terminal := isTerminal_of_isComplete complete
    rw [advances.isTerminal, isOpen] at terminal
    contradiction

theorem coherent_rejected (distinct : b.properties.DistinctNames) (bounded : b.Bounded) :
    { b with payload := .discarded, status := .checksumInvalid }.Coherent where
  distinct := distinct
  bounded := ⟨bounded.arrived, bounded.start, bounded.stop, bounded.created⟩
  verified complete := by contradiction

theorem Coherent.settle (coherent : b.Coherent) : b.settle.1.Coherent := by
  have refreshed := (advances_refresh b).bounded coherent.bounded
  simp only [Blob.settle]
  split
  next => exact coherent
  next undecided =>
    have isOpen : b.isTerminal = false := by simpa using undecided
    split
    next => exact coherent_rejected coherent.distinct coherent.bounded
    next =>
      split
      next a _ =>
        split
        next =>
          split
          next declared =>
            exact ⟨coherent.distinct,
              ⟨refreshed.arrived, refreshed.start, refreshed.stop, refreshed.created⟩,
              fun _ => ⟨a.bytes, rfl, declared⟩⟩
          next =>
            have kept : b.refresh.properties.DistinctNames := coherent.distinct
            exact coherent_rejected kept refreshed
        next => exact coherent.advance isOpen (advances_refresh b)
      next => exact coherent.advance isOpen (advances_refresh b)

theorem Coherent.perform (coherent : b.Coherent) (op : Operation) :
    (b.perform op).1.Coherent := by
  by_cases settles : op = .settle
  · exact settles ▸ coherent.settle
  · have advances := advances_perform b settles
    cases decided : b.isTerminal with
    | false => exact coherent.advance decided advances
    | true =>
      rcases perform_decided decided op with same | ⟨now, rfl⟩
      · exact same.symm ▸ coherent
      · exact ⟨coherent.distinct, advances.bounded coherent.bounded, coherent.verified⟩

/-- Operations keep a blob coherent, in whatever order they come. -/
theorem Coherent.run (coherent : b.Coherent) (ops : List Operation) :
    (b.run ops).1.Coherent := by
  induction ops using List.reverseRecOn with
  | nil => exact coherent
  | append_singleton ops op ih =>
    rw [run_concat]
    exact ih.perform op

/-- Blobs that operations lead to from the arrival of a first piece. -/
def Reached (b : Blob) : Prop :=
  ∃ (key : String) (version : VersionId) (copy : Nat) (now : Millis) (ops : List Operation),
    now ≤ Millis.unbounded ∧ ({ ofArrival key version now with copy }.run ops).1 = b

theorem Reached.coherent (reached : b.Reached) : b.Coherent := by
  obtain ⟨key, version, copy, now, ops, bound, rfl⟩ := reached
  exact (coherent_ofArrival key version copy bound).run ops

end BlobReplica.Blob
