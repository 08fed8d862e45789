import BlobReplica.Proofs.Blob.Bounds

/-! Payloads under assembly are made by writes, whatever is done to a blob, so what is missing of them is
told by intervals in ascending order with a gap between each two. -/

namespace BlobReplica

namespace Assembly

variable {a : Assembly}

/-- Assemblies that writes make of a new section or of a whole payload. -/
inductive Written : Assembly → Prop where
  | new (length : Nat) : Written (ofLength length)
  | whole (bytes : Bytes) : Written (ofBytes bytes)
  | write {a : Assembly} (written : Written a) (offset : Nat) (data : Bytes) :
      Written (a.write offset data).1

theorem Written.canonical (written : a.Written) : a.missing.Canonical := by
  induction written with
  | new length => exact RangeSet.canonical_full length
  | whole bytes => exact RangeSet.canonical_empty
  | write _ offset data ih =>
    rw [Assembly.write]
    split
    next => exact ih
    next => exact ih.remove _

end Assembly

namespace Blob

variable {b b' : Blob} {a : Assembly} {f : Fragment} {op : Operation} {now : Millis} {filled : Nat}

/-- The payload of a blob is put together by writes. -/
def Assembles (b : Blob) : Prop :=
  ∀ a, b.payload = .assembling a → a.Written

theorem Assembles.congr (assembles : b.Assembles) (same : b'.payload = b.payload) : b'.Assembles :=
  fun a held => assembles a (same.symm.trans held)

theorem Assembles.mergePayload (assembles : b.Assembles)
    (merged : b.mergePayload f = .ok (b', filled)) : b'.Assembles := by
  have begun : (if b.payload = .unknown then { b with
      payload := .assembling (.ofLength f.sectionLength.toNat), size := some f.sectionLength.toNat }
      else b : Blob).Assembles := by
    split
    next => exact fun a held => Payload.assembling.inj held ▸ .new _
    next => exact assembles
  simp only [Blob.mergePayload] at merged
  split at merged
  next a held =>
    split at merged
    next => contradiction
    next =>
      obtain ⟨rfl, _⟩ := Prod.mk.inj (Except.ok.inj merged)
      exact fun w kept => Payload.assembling.inj kept ▸ (begun a held).write _ _
  next =>
    obtain ⟨rfl, _⟩ := Prod.mk.inj (Except.ok.inj merged)
    exact begun

theorem Assembles.merge (assembles : b.Assembles) (isOpen : b.isTerminal = false)
    (merged : b.merge f now = .ok (b', filled)) : b'.Assembles := by
  obtain ⟨o, written, rfl⟩ := merge_open isOpen merged
  refine Assembles.congr ?_ (samePayload_begin o now).payload
  rcases mergeSection_cases written with metadata | payload
  · exact assembles.congr (samePayload_mergeMetadata metadata).payload
  · exact assembles.mergePayload payload

theorem addByteRange_open {offset : Nat} {data : Bytes} (isOpen : b.isTerminal = false)
    (held : b.payload = .assembling a) (added : b.addByteRange offset data now = .ok (b', filled)) :
    b' = { b with payload := .assembling (a.write offset data).1 }.touch now := by
  simp only [Blob.addByteRange, isOpen, Bool.false_eq_true, held, if_false] at added
  split at added
  next => contradiction
  next => exact (Prod.mk.inj (Except.ok.inj added)).1.symm

theorem Assembles.addByteRange {offset : Nat} {data : Bytes} (assembles : b.Assembles)
    (isOpen : b.isTerminal = false) (added : b.addByteRange offset data now = .ok (b', filled)) :
    b'.Assembles := by
  cases held : b.payload with
  | assembling a =>
    obtain rfl := addByteRange_open isOpen held added
    exact fun w kept => Payload.assembling.inj kept ▸ (assembles a held).write _ _
  | unknown | verified | discarded => simp [Blob.addByteRange, isOpen, held] at added

theorem Assembles.perform (assembles : b.Assembles) (op : Operation) :
    (b.perform op).1.Assembles := by
  cases decided : b.isTerminal with
  | true =>
    rcases perform_decided decided op with same | ⟨now, rfl⟩
    · exact same.symm ▸ assembles
    · exact assembles.congr rfl
  | false =>
    cases op with
    | merge f now =>
      rw [Blob.perform]
      cases merged : b.merge f now with
      | error e => exact assembles
      | ok written => exact assembles.merge decided merged
    | addByteRange offset data now =>
      rw [Blob.perform]
      cases added : b.addByteRange offset data now with
      | error e => exact assembles
      | ok written => exact assembles.addByteRange decided added
    | applyHeaders headers now =>
      exact assembles.congr (headed_applyHeaders decided headers now).2.payload
    | setPayload body now =>
      rw [Blob.perform, setPayload, if_neg (by simp [decided])]
      exact fun a held => Payload.assembling.inj held ▸ .whole body
    | touch now => exact assembles.congr rfl
    | settle =>
      have settles := b.settles
      rw [Blob.perform]
      generalize b.settle.1 = b' at settles ⊢
      cases settles with
      | decided => exact assembles
      | lacking => exact assembles.congr rfl
      | unreadable | wrong | right => exact fun _ held => by cases held

theorem Arises.assembles (arises : b.Arises) : b.Assembles := by
  induction arises with
  | arrival key version now => exact fun _ held => by cases held
  | perform _ _ ih => exact ih.perform _
  | number _ copy ih => exact ih.congr rfl

end Blob

end BlobReplica
