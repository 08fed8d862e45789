import BlobReplica.Proofs.Blob.Identity
import BlobReplica.Proofs.Blob.Runs

/-! The checksum gate of a blob. As long as it is open its assembly has room for all that its length
says and for nothing else, so the bytes that are checked in the end are as many as its size; they are
shown if the checksum was right and dropped if it was not. -/

namespace BlobReplica

namespace Assembly

variable {a : Assembly} {offset : Nat} {data : Bytes}

/-- The bytes of an assembly are as many as its length says, and a length that no 64-bit number tells
is found in whole payloads only. -/
structure Sized (a : Assembly) : Prop where
  size : a.bytes.length = a.length
  bounded : a.isComplete = true ∨ a.length < Text.maxWord

theorem sized_ofLength {length : Nat} (bound : length < Text.maxWord) : (ofLength length).Sized where
  size := by simp [bytes, ofLength]
  bounded := .inr bound

theorem sized_ofBytes (bytes : Bytes) : (ofBytes bytes).Sized where
  size := congrArg List.length (bytes_ofBytes bytes)
  bounded := .inl rfl

theorem write_complete (complete : a.isComplete = true) (offset : Nat) (data : Bytes) :
    a.write offset data = (a, 0) := by
  have nothing : a.missing.ranges = [] := List.isEmpty_iff.mp complete
  rw [write, if_pos]
  refine .inr ?_
  rw [RangeSet.intersects, nothing, List.any_nil]

theorem length_write (a : Assembly) (offset : Nat) (data : Bytes) :
    (a.write offset data).1.length = a.length := by
  rw [write]
  split <;> rfl

theorem Sized.write (sized : a.Sized)
    (inside : a.isComplete = true ∨ offset + data.length ≤ a.length) :
    (a.write offset data).1.Sized := by
  by_cases complete : a.isComplete = true
  · rw [write_complete complete]
    exact sized
  · have fits : offset + data.length ≤ a.bytes.length := sized.size ▸ inside.resolve_left complete
    refine ⟨?_, .inr ?_⟩
    · rw [length_write, Assembly.write]
      split
      next => exact sized.size
      next => exact (Bytes.length_overlay fits).trans sized.size
    · rw [length_write]
      exact sized.bounded.resolve_left complete

end Assembly

namespace Blob

variable {b b' : Blob} {f : Fragment} {op : Operation} {now : Millis} {n : Nat}

/-- What is known of the payload by how far a blob has come. -/
inductive Gated (b : Blob) : Prop where
  | unknown (payload : b.payload = .unknown) (isOpen : b.isTerminal = false) : Gated b
  | assembling {a : Assembly} (payload : b.payload = .assembling a) (isOpen : b.isTerminal = false)
      (size : b.size = some a.length) (sized : a.Sized) : Gated b
  | verified {bytes : Bytes} (payload : b.payload = .verified bytes) (complete : b.status = .complete)
      (declared : b.declaredMd5? = some (Digest.md5Hex bytes)) (size : b.size = some bytes.length) :
      Gated b
  | discarded (payload : b.payload = .discarded) (corrupt : b.status = .checksumInvalid) : Gated b

theorem gated_ofArrival (key : String) (version : VersionId) (now : Millis) :
    (ofArrival key version now).Gated :=
  .unknown rfl rfl

structure SamePayload (b b' : Blob) : Prop where
  payload : b'.payload = b.payload
  size : b'.size = b.size

theorem SamePayload.refl (b : Blob) : b.SamePayload b :=
  ⟨rfl, rfl⟩

theorem SamePayload.trans {b'' : Blob} (first : b.SamePayload b') (second : b'.SamePayload b'') :
    b.SamePayload b'' :=
  ⟨second.payload.trans first.payload, second.size.trans first.size⟩

theorem headed_applyHeaders (isOpen : b.isTerminal = false) (headers : List (String × String))
    (now : Millis) : (b.applyHeaders headers now).headersRecovered = true ∧
      b.SamePayload (b.applyHeaders headers now) := by
  rw [Blob.applyHeaders, if_neg (by simp [isOpen])]
  exact ⟨rfl, rfl, rfl⟩

/-- An open blob has an assembly as soon as its size is known. -/
theorem Gated.of_isOpen (gated : b.Gated) (isOpen : b.isTerminal = false) :
    b.payload = .unknown ∨ ∃ a, b.payload = .assembling a ∧ b.size = some a.length ∧ a.Sized := by
  obtain ⟨incomplete, uncorrupt⟩ := status_of_isOpen isOpen
  cases gated with
  | unknown payload => exact .inl payload
  | @assembling a payload _ size sized => exact .inr ⟨a, payload, size, sized⟩
  | verified _ complete => exact absurd complete incomplete
  | discarded _ corrupt => exact absurd corrupt uncorrupt

theorem Gated.frame (gated : b.Gated) (isOpen : b.isTerminal = false) (same : b.SamePayload b')
    (still : b'.isTerminal = false) : b'.Gated := by
  rcases gated.of_isOpen isOpen with payload | ⟨a, payload, size, sized⟩
  · exact .unknown (same.payload.trans payload) still
  · exact .assembling (same.payload.trans payload) still (same.size.trans size) sized

theorem Gated.congr (gated : b.Gated) (same : b.SamePayload b') (status : b'.status = b.status)
    (properties : b'.properties = b.properties) : b'.Gated := by
  have decided : b'.isTerminal = b.isTerminal := congrArg Status.isTerminal status
  cases gated with
  | unknown payload isOpen => exact .unknown (same.payload.trans payload) (decided.trans isOpen)
  | assembling payload isOpen size sized =>
    exact .assembling (same.payload.trans payload) (decided.trans isOpen) (same.size.trans size) sized
  | verified payload complete declared size =>
    refine .verified (same.payload.trans payload) (status.trans complete) ?_ (same.size.trans size)
    rw [declaredMd5?, property?, properties]
    exact declared
  | discarded payload corrupt => exact .discarded (same.payload.trans payload) (status.trans corrupt)

theorem samePayload_foldl_addDecoded (b : Blob) (entries : List (String × String)) :
    b.SamePayload (entries.foldl addDecoded b) := by
  induction entries generalizing b with
  | nil => exact .refl b
  | cons e rest ih =>
    refine .trans ?_ (ih _)
    rw [addDecoded]
    split <;> exact ⟨rfl, rfl⟩

theorem samePayload_begin (o : Blob) (now : Millis) : o.SamePayload (o.touch now).begin := by
  rw [Blob.begin]
  split <;> exact ⟨rfl, rfl⟩

theorem samePayload_readMetadata (b : Blob) (bytes : Bytes) : b.SamePayload (b.readMetadata bytes) := by
  simp only [readMetadata]
  split
  next decoded _ =>
    obtain ⟨payload, size⟩ := samePayload_foldl_addDecoded { b with metadata := none } decoded.entries
    exact ⟨payload, size⟩
  next => exact ⟨rfl, rfl⟩

theorem samePayload_mergeMetadata (merged : b.mergeMetadata f = .ok (b', n)) : b.SamePayload b' := by
  rcases mergeMetadata_cases merged with rfl | ⟨a, rfl⟩ | ⟨bytes, rfl⟩
  · exact .refl b'
  · exact ⟨rfl, rfl⟩
  · exact samePayload_readMetadata b bytes

/-- A fragment that lies inside its section is written inside the payload. -/
theorem Gated.mergePayload (gated : b.Gated) (isOpen : b.isTerminal = false)
    (inside : f.WithinSection) (merged : b.mergePayload f = .ok (b', n)) : b'.Gated := by
  have still : b'.isTerminal = false := (advances_mergePayload merged).isTerminal.trans isOpen
  have fits : f.offset.toNat + f.data.length ≤ f.sectionLength.toNat := inside
  rcases gated.of_isOpen isOpen with payload | ⟨a, payload, size, sized⟩
  · have small : f.sectionLength.toNat < Text.maxWord :=
      Nat.lt_trans f.sectionLength.toNat_lt (by decide)
    simp only [Blob.mergePayload, payload, if_true, Assembly.ofLength, ne_eq, not_true_eq_false,
      if_false, Except.ok.injEq, Prod.mk.injEq] at merged
    obtain ⟨rfl, _⟩ := merged
    refine .assembling rfl still ?_ ((Assembly.sized_ofLength small).write (.inr fits))
    rw [Assembly.length_write]
  · simp only [Blob.mergePayload, payload, reduceCtorEq, if_false] at merged
    split at merged
    next => contradiction
    next same =>
      obtain ⟨rfl, _⟩ := Prod.mk.inj (Except.ok.inj merged)
      have length : a.length = f.sectionLength.toNat := Decidable.not_not.mp same
      refine .assembling rfl still ?_ (sized.write (.inr (length.symm ▸ fits)))
      rw [Assembly.length_write]
      exact size

theorem Gated.merge (gated : b.Gated) (isOpen : b.isTerminal = false) (inside : f.WithinSection)
    (merged : b.merge f now = .ok (b', n)) : b'.Gated := by
  have still : b'.isTerminal = false := (advances_merge merged).isTerminal.trans isOpen
  obtain ⟨o, written, rfl⟩ := merge_open isOpen merged
  have open_ : o.isTerminal = false := (advances_mergeSection written).isTerminal.trans isOpen
  have gated' : o.Gated := by
    rcases mergeSection_cases written with metadata | payload
    · exact gated.frame isOpen (samePayload_mergeMetadata metadata) open_
    · exact gated.mergePayload isOpen inside payload
  exact gated'.frame open_ (samePayload_begin o now) still

/-- A range that is not refused is written inside the payload, unless nothing is missing there. -/
theorem Gated.addByteRange {offset : Nat} {data : Bytes} (gated : b.Gated)
    (isOpen : b.isTerminal = false) (added : b.addByteRange offset data now = .ok (b', n)) :
    b'.Gated := by
  have still : b'.isTerminal = false := (advances_addByteRange added).isTerminal.trans isOpen
  rw [Blob.addByteRange, if_neg (by simp [isOpen])] at added
  rcases gated.of_isOpen isOpen with payload | ⟨a, payload, size, sized⟩
  · simp [payload] at added
  · simp only [payload] at added
    split at added
    next => contradiction
    next room =>
      obtain ⟨rfl, _⟩ := Prod.mk.inj (Except.ok.inj added)
      have inside : a.isComplete = true ∨ offset + data.length ≤ a.length := by
        refine sized.bounded.imp id fun bound => ?_
        omega
      refine .assembling rfl still ?_ (sized.write inside)
      rw [Assembly.length_write]
      exact size

theorem Gated.settle (gated : b.Gated) : b.settle.1.Gated := by
  rw [Blob.settle]
  split
  next => exact gated
  next undecided =>
    have isOpen : b.isTerminal = false := by simpa using undecided
    have refreshed : b.refresh.Gated := gated.frame isOpen ⟨rfl, rfl⟩ isOpen
    split
    next => exact .discarded rfl rfl
    next =>
      simp only
      split
      next a payload =>
        split
        next full =>
          split
          next declared =>
            refine .verified rfl rfl declared ?_
            rcases refreshed.of_isOpen isOpen with unknown | ⟨a', held, size, sized⟩
            · exact absurd (unknown.symm.trans payload) (by simp)
            · obtain rfl : a' = a := by simpa using held.symm.trans payload
              rw [sized.size]
              exact size
          next => exact .discarded rfl rfl
        next => exact refreshed
      next => exact refreshed

/-- Operations with fragments that lie inside their sections. -/
def Operation.Proper : Operation → Prop
  | .merge f _ => f.WithinSection
  | _ => True

theorem Gated.perform (gated : b.Gated) (proper : op.Proper) : (b.perform op).1.Gated := by
  cases decided : b.isTerminal with
  | true =>
    rcases perform_decided decided op with same | ⟨now, rfl⟩
    · exact same.symm ▸ gated
    · exact gated.congr ⟨rfl, rfl⟩ rfl rfl
  | false =>
    cases op with
    | merge f now =>
      rw [Blob.perform]
      cases merged : b.merge f now with
      | error e => exact gated
      | ok result => exact gated.merge decided proper merged
    | addByteRange offset data now =>
      rw [Blob.perform]
      cases added : b.addByteRange offset data now with
      | error e => exact gated
      | ok result => exact gated.addByteRange decided added
    | applyHeaders headers now =>
      have still := (advances_applyHeaders b headers now).isTerminal.trans decided
      exact gated.frame decided (headed_applyHeaders decided headers now).2 still
    | setPayload body now =>
      have still := (advances_setPayload b body now).isTerminal.trans decided
      rw [Blob.perform]
      rw [setPayload, if_neg (by simp [decided])] at still ⊢
      exact .assembling rfl still rfl (Assembly.sized_ofBytes body)
    | touch now => exact gated.frame decided ⟨rfl, rfl⟩ decided
    | settle => exact gated.settle

/-- Blobs that come into being: by the arrival of a first piece, by operations, and with whatever
numbers caches give them. -/
inductive Arises : Blob → Prop where
  | arrival (key : String) (version : VersionId) (now : Millis) : Arises (ofArrival key version now)
  | perform {b : Blob} {op : Operation} (arises : Arises b) (proper : op.Proper) :
      Arises (b.perform op).1
  | number {b : Blob} (arises : Arises b) (copy : Nat) : Arises { b with copy }

theorem Arises.gated (arises : b.Arises) : b.Gated := by
  induction arises with
  | arrival key version now => exact gated_ofArrival key version now
  | perform _ proper ih => exact ih.perform proper
  | number _ copy ih => exact ih.congr ⟨rfl, rfl⟩ rfl rfl

/-- The blob shows a payload exactly when it is complete, and then one of its size with the checksum
that it declares. -/
structure Vouched (b : Blob) : Prop where
  shown : b.payload?.isSome = true ↔ b.status = .complete
  checked : ∀ payload, b.payload? = some payload →
    b.declaredMd5? = some (Digest.md5Hex payload) ∧ b.size = some payload.length

theorem Gated.vouched (gated : b.Gated) : b.Vouched := by
  have unshown (shut : b.payload? = none) (incomplete : b.status ≠ .complete) : b.Vouched :=
    ⟨iff_of_false (by simp [shut]) incomplete, fun payload shown => by simp [shut] at shown⟩
  cases gated with
  | unknown payload isOpen | assembling payload isOpen =>
    exact unshown (by rw [payload?, payload]) (status_of_isOpen isOpen).1
  | @verified bytes payload complete declared size =>
    have shown : b.payload? = some bytes := by rw [payload?, payload]
    refine ⟨iff_of_true (by rw [shown]; rfl) complete, fun whole held => ?_⟩
    obtain rfl : bytes = whole := Option.some.inj (shown.symm.trans held)
    exact ⟨declared, size⟩
  | discarded payload corrupt => exact unshown (by rw [payload?, payload]) (by simp [corrupt])

theorem Vouched.payload (vouched : b.Vouched) (complete : b.isComplete = true) :
    ∃ payload, b.payload? = some payload ∧
      b.declaredMd5? = some (Digest.md5Hex payload) ∧ b.size = some payload.length := by
  obtain ⟨payload, shown⟩ := Option.isSome_iff_exists.mp (vouched.shown.mpr (of_decide_eq_true complete))
  exact ⟨payload, shown, vouched.checked payload shown⟩

end Blob
end BlobReplica
