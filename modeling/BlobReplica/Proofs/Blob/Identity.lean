import BlobReplica.Blob
import BlobReplica.Proofs.Property

/-! What operations on a blob leave as it is. None of them changes the version that it is, the number
that the cache gave it or the time of its first piece, and none but settling decides it. -/

namespace BlobReplica

theorem Millis.parse?_le {s : String} {n : Millis} (read : Millis.parse? s = some n) :
    n ≤ Millis.unbounded :=
  Text.readUnsigned_le read

theorem Millis.parse?_toString {n : Millis} (bound : n ≤ Millis.unbounded) :
    Millis.parse? (toString n) = some n := by
  have solid : ∀ c ∈ Text.digits n, Text.isBlank c = false :=
    fun c member => Text.isBlank_of_isDigit (Text.isDigit_of_mem_digits member)
  rw [parse?, Text.toList_toString, Text.trimChars_solid solid]
  exact Text.readUnsigned_digits bound

namespace Blob

/-- The times that a blob tells are 64-bit numbers. -/
structure Bounded (b : Blob) : Prop where
  arrived : b.arrived ≤ Millis.unbounded
  start : b.validity.start ≤ Millis.unbounded
  stop : b.validity.stop ≤ Millis.unbounded
  created : b.created ≤ Millis.unbounded

/-- Two states of one blob. -/
structure Same (b b' : Blob) : Prop where
  key : b'.key = b.key
  version : b'.version = b.version
  copy : b'.copy = b.copy
  arrived : b'.arrived = b.arrived

/-- A change that decides nothing. -/
structure Advances (b b' : Blob) : Prop extends b.Same b' where
  isTerminal : b'.isTerminal = b.isTerminal
  distinct : b.properties.DistinctNames → b'.properties.DistinctNames
  bounded : b.Bounded → b'.Bounded

variable {b b' b'' : Blob} {f : Fragment} {now : Millis} {filled : Nat}

theorem isTerminal_iff : b.isTerminal = true ↔ b.status = .complete ∨ b.status = .checksumInvalid := by
  rw [isTerminal]
  cases b.status <;> simp [Status.isTerminal]

theorem isOpen_of_status (incomplete : b.status ≠ .complete) (uncorrupt : b.status ≠ .checksumInvalid) :
    b.isTerminal = false :=
  Bool.eq_false_iff.mpr fun decided => (isTerminal_iff.mp decided).elim incomplete uncorrupt

theorem status_of_isOpen (isOpen : b.isTerminal = false) :
    b.status ≠ .complete ∧ b.status ≠ .checksumInvalid := by
  rw [← not_or, ← isTerminal_iff, isOpen]
  exact Bool.false_ne_true

theorem Same.refl (b : Blob) : b.Same b :=
  ⟨rfl, rfl, rfl, rfl⟩

theorem Same.trans (first : b.Same b') (second : b'.Same b'') : b.Same b'' :=
  ⟨second.key.trans first.key, second.version.trans first.version, second.copy.trans first.copy,
    second.arrived.trans first.arrived⟩

theorem Advances.refl (b : Blob) : b.Advances b :=
  ⟨.refl b, rfl, id, id⟩

theorem Advances.trans (first : b.Advances b') (second : b'.Advances b'') : b.Advances b'' :=
  ⟨first.toSame.trans second.toSame, second.isTerminal.trans first.isTerminal,
    second.distinct ∘ first.distinct, second.bounded ∘ first.bounded⟩

theorem advances_of_same (same : b.Same b') (isTerminal : b'.isTerminal = b.isTerminal)
    (properties : b'.properties = b.properties) (validity : b'.validity = b.validity)
    (created : b'.created = b.created) : b.Advances b' where
  toSame := same
  isTerminal := isTerminal
  distinct distinct := properties ▸ distinct
  bounded bounded := ⟨same.arrived ▸ bounded.arrived, validity ▸ bounded.start,
    validity ▸ bounded.stop, created ▸ bounded.created⟩

theorem time_le {fallback : Millis} (bound : fallback ≤ Millis.unbounded) (name : String) :
    ((b.property? name).bind Millis.parse?).getD fallback ≤ Millis.unbounded := by
  cases read : (b.property? name).bind Millis.parse? with
  | none => exact bound
  | some n =>
    obtain ⟨_, _, parsed⟩ := Option.bind_eq_some_iff.mp read
    exact Millis.parse?_le parsed

theorem Bounded.refresh (bounded : b.Bounded) : b.refresh.Bounded where
  arrived := bounded.arrived
  start := time_le (Nat.zero_le _) _
  stop := time_le Nat.le.refl _
  created := time_le bounded.arrived _

theorem advances_refresh (b : Blob) : b.Advances b.refresh :=
  ⟨⟨rfl, rfl, rfl, rfl⟩, rfl, id, Bounded.refresh⟩

theorem advances_touch (b : Blob) (now : Millis) : b.Advances (b.touch now) :=
  advances_of_same ⟨rfl, rfl, rfl, rfl⟩ rfl rfl rfl rfl

theorem advances_begin (b : Blob) : b.Advances b.begin := by
  rw [begin]
  split
  next empty =>
    exact advances_of_same ⟨rfl, rfl, rfl, rfl⟩ (by simp [isTerminal, empty, Status.isTerminal])
      rfl rfl rfl
  next => exact .refl b

theorem advances_addDecoded (b : Blob) (entry : String × String) :
    b.Advances (b.addDecoded entry) := by
  rw [addDecoded]
  split
  next => exact .refl b
  next =>
    exact ⟨⟨rfl, rfl, rfl, rfl⟩, rfl, fun distinct => Properties.distinctNames_assign distinct _ _,
      fun bounded => ⟨bounded.arrived, bounded.start, bounded.stop, bounded.created⟩⟩

theorem advances_foldl_addDecoded (b : Blob) (entries : List (String × String)) :
    b.Advances (entries.foldl addDecoded b) := by
  induction entries generalizing b with
  | nil => exact .refl b
  | cons e rest ih => exact (advances_addDecoded b e).trans (ih _)

theorem advances_readMetadata (b : Blob) (bytes : Bytes) : b.Advances (b.readMetadata bytes) := by
  simp only [readMetadata]
  split
  next decoded _ =>
    have read := advances_foldl_addDecoded { b with metadata := none } decoded.entries
    have cleared : b.Advances { b with metadata := none } :=
      advances_of_same ⟨rfl, rfl, rfl, rfl⟩ rfl rfl rfl rfl
    refine cleared.trans (read.trans (.trans ?_ (advances_refresh _)))
    exact advances_of_same ⟨rfl, rfl, rfl, rfl⟩ rfl rfl rfl rfl
  next => exact advances_of_same ⟨rfl, rfl, rfl, rfl⟩ rfl rfl rfl rfl

/-- A fragment of the metadata changes nothing, or the section alone, or it has the section read. -/
theorem mergeMetadata_cases (merged : b.mergeMetadata f = .ok (b', filled)) :
    b' = b ∨ (∃ a, b' = { b with metadata := some a }) ∨ ∃ bytes, b' = b.readMetadata bytes := by
  rw [mergeMetadata] at merged
  split at merged
  next =>
    cases merged
    exact .inl rfl
  next =>
    simp only at merged
    split at merged
    next => contradiction
    next =>
      cases merged
      split
      next => exact .inr (.inr ⟨_, rfl⟩)
      next => exact .inr (.inl ⟨_, rfl⟩)

theorem mergePayload_cases (merged : b.mergePayload f = .ok (b', filled)) :
    b' = b ∨ ∃ a size, b' = { b with payload := .assembling a, size } := by
  rw [mergePayload] at merged
  simp only at merged
  split at merged
  next =>
    split at merged
    next => contradiction
    next =>
      cases merged
      split <;> exact .inr ⟨_, _, rfl⟩
  next known =>
    cases merged
    split
    next unknown =>
      rw [if_pos unknown] at known
      exact absurd rfl (known _)
    next => exact .inl rfl

theorem mergeSection_cases (merged : b.mergeSection f = .ok (b', filled)) :
    b.mergeMetadata f = .ok (b', filled) ∨ b.mergePayload f = .ok (b', filled) := by
  rw [mergeSection] at merged
  split at merged
  next => exact .inl merged
  next => exact .inr merged

/-- A fragment that is merged into an open blob is written into its section; then the blob is touched
and has begun. -/
theorem merge_open (isOpen : b.isTerminal = false) (merged : b.merge f now = .ok (b', filled)) :
    ∃ o, b.mergeSection f = .ok (o, filled) ∧ b' = (o.touch now).begin := by
  rw [merge] at merged
  split at merged
  next => contradiction
  next =>
    rw [if_neg (by simp [isOpen])] at merged
    cases written : b.mergeSection f with
    | error e => simp [written, Except.map] at merged
    | ok result =>
      simp only [written, Except.map] at merged
      obtain ⟨rfl, rfl⟩ := Prod.mk.inj (Except.ok.inj merged)
      exact ⟨result.1, rfl, rfl⟩

theorem advances_mergeMetadata (merged : b.mergeMetadata f = .ok (b', filled)) :
    b.Advances b' := by
  rcases mergeMetadata_cases merged with rfl | ⟨a, rfl⟩ | ⟨bytes, rfl⟩
  · exact .refl b'
  · exact advances_of_same ⟨rfl, rfl, rfl, rfl⟩ rfl rfl rfl rfl
  · exact advances_readMetadata b bytes

theorem advances_mergePayload (merged : b.mergePayload f = .ok (b', filled)) : b.Advances b' := by
  rcases mergePayload_cases merged with rfl | ⟨a, size, rfl⟩
  · exact .refl b'
  · exact advances_of_same ⟨rfl, rfl, rfl, rfl⟩ rfl rfl rfl rfl

theorem advances_mergeSection (merged : b.mergeSection f = .ok (b', filled)) : b.Advances b' :=
  (mergeSection_cases merged).elim advances_mergeMetadata advances_mergePayload

theorem advances_merge (merged : b.merge f now = .ok (b', filled)) : b.Advances b' := by
  cases decided : b.isTerminal with
  | true =>
    rw [merge, if_pos decided] at merged
    split at merged
    next => contradiction
    next =>
      cases merged
      exact .refl b
  | false =>
    obtain ⟨o, written, rfl⟩ := merge_open decided merged
    exact (advances_mergeSection written).trans ((advances_touch o now).trans (advances_begin _))

theorem status_merge (isOpen : b.isTerminal = false) (merged : b.merge f now = .ok (b', filled)) :
    b'.status = .partiallyReceived := by
  have still : b'.isTerminal = false := (advances_merge merged).isTerminal.trans isOpen
  have begun : b'.status ≠ .empty := by
    obtain ⟨o, _, rfl⟩ := merge_open isOpen merged
    rw [begin]
    split
    next => exact Status.noConfusion
    next unlike => exact unlike
  obtain ⟨incomplete, uncorrupt⟩ := status_of_isOpen still
  cases status : b'.status with
  | partiallyReceived => rfl
  | empty => exact absurd status begun
  | complete => exact absurd status incomplete
  | checksumInvalid => exact absurd status uncorrupt

theorem advances_addByteRange {offset : Nat} {data : Bytes}
    (added : b.addByteRange offset data now = .ok (b', filled)) : b.Advances b' := by
  simp only [addByteRange] at added
  split at added
  next =>
    obtain ⟨rfl, _⟩ := Prod.mk.inj (Except.ok.inj added)
    exact .refl b
  next =>
    split at added
    next =>
      split at added
      next => contradiction
      next =>
        obtain ⟨rfl, _⟩ := Prod.mk.inj (Except.ok.inj added)
        exact advances_of_same ⟨rfl, rfl, rfl, rfl⟩ rfl rfl rfl rfl
    next => contradiction

theorem advances_applyHeaders (b : Blob) (headers : List (String × String)) (now : Millis) :
    b.Advances (b.applyHeaders headers now) := by
  rw [applyHeaders]
  split
  next => exact .refl b
  next =>
    refine .trans ?_ ((advances_refresh _).trans (advances_touch _ _))
    exact ⟨⟨rfl, rfl, rfl, rfl⟩, rfl, fun distinct => Properties.distinctNames_foldl_assign distinct headers,
      fun bounded => ⟨bounded.arrived, bounded.start, bounded.stop, bounded.created⟩⟩

theorem advances_setPayload (b : Blob) (body : Bytes) (now : Millis) :
    b.Advances (b.setPayload body now) := by
  rw [setPayload]
  split
  next => exact .refl b
  next => exact advances_of_same ⟨rfl, rfl, rfl, rfl⟩ rfl rfl rfl rfl

theorem same_settle (b : Blob) : b.Same b.settle.1 := by
  simp only [settle]
  split
  next => exact .refl b
  next =>
    split
    next => exact ⟨rfl, rfl, rfl, rfl⟩
    next =>
      split
      next =>
        split
        next => split <;> exact ⟨rfl, rfl, rfl, rfl⟩
        next => exact ⟨rfl, rfl, rfl, rfl⟩
      next => exact ⟨rfl, rfl, rfl, rfl⟩

theorem Advances.same_settle (advances : b.Advances b') : b.Same b'.settle.1 :=
  advances.toSame.trans (Blob.same_settle b')

theorem settle_snd (isOpen : b.isTerminal = false) : b.settle.2 = b.settle.1.isTerminal := by
  have refreshed : b.refresh.isTerminal = false := isOpen
  rw [settle, if_neg (by simp [isOpen])]
  split
  next => rfl
  next =>
    simp only
    split
    next =>
      split
      next => split <;> rfl
      next => exact refreshed.symm
    next => exact refreshed.symm

end Blob
end BlobReplica
