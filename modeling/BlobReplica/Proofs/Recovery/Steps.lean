import BlobReplica.Proofs.Blob.Runs
import BlobReplica.Proofs.Node.Held
import BlobReplica.Recovery.Attempt
import Mathlib.Logic.Relation

/-! What an attempt at recovery can do, case by case. An answer changes the blob by ranges, headers
and whole payloads only, and after an answer that could be used the blob is settled. -/

namespace BlobReplica

namespace Blob

variable {b b' : Blob}

/-- What an answer of the authority brings. -/
def Operation.Supplies : Operation → Prop
  | .addByteRange _ _ _ | .applyHeaders _ _ | .setPayload _ _ => True
  | .merge _ _ | .touch _ | .settle => False

/-- The states of a blob that answers of the authority lead to. -/
def Receives : Blob → Blob → Prop :=
  Relation.ReflTransGen fun b b' => ∃ op : Operation, op.Supplies ∧ (b.perform op).1 = b'

theorem Receives.advances (receives : b.Receives b') : b.Advances b' := by
  induction receives with
  | refl => exact .refl b
  | tail _ step ih =>
    obtain ⟨op, supplies, rfl⟩ := step
    refine ih.trans (advances_perform _ ?_)
    rintro rfl
    exact supplies

end Blob

namespace Recovery

variable {n : Node} {b : Blob} {request : FetchRequest} {r : FetchResponse} {now : Millis}

theorem receives_addParts (now : Millis) (b : Blob) (parts : List BytePart) :
    b.Receives (addParts now b parts).1 := by
  induction parts generalizing b with
  | nil => exact .refl
  | cons part rest ih =>
    rw [addParts]
    split
    next => exact .refl
    next b' filled added =>
      refine .head ⟨.addByteRange part.offset part.data now, trivial, ?_⟩ (ih b')
      simp only [Blob.perform, added, Blob.wrote]

theorem receives_apply (b : Blob) (request : FetchRequest) (r : FetchResponse) (now : Millis) :
    b.Receives (apply b request r now).1 := by
  have headers (b : Blob) : b.Receives (b.applyHeaders (recoveredProperties r.headers) now) :=
    .single ⟨.applyHeaders _ now, trivial, rfl⟩
  unfold apply
  simp only
  split
  next => exact .refl
  next =>
    split
    next => exact (headers b).tail ⟨.setPayload r.body now, trivial, rfl⟩
    next => exact headers b
    next ranges =>
      split
      next => exact .refl
      next parts _ =>
        have written := receives_addParts now b parts
        split
        next broken =>
          rw [broken] at written
          exact written
        next whole =>
          rw [whole] at written
          exact written.trans (headers _)

theorem receives_of_apply {m : Blob} {e : Option Error} (applied : apply b request r now = (m, e)) :
    b.Receives m := by
  have received := receives_apply b request r now
  rwa [applied] at received

theorem isTerminal_of_request?_eq_none (unasked : request? b = none) : b.isTerminal = true := by
  rw [request?] at unasked
  split at unasked
  next terminal => exact terminal
  next => split at unasked <;> contradiction

theorem isOpen_of_request? (asked : request? b = some request) : b.isTerminal = false := by
  rw [request?] at asked
  split at asked
  next => contradiction
  next undecided => simpa using undecided

/-- What an attempt does: the node and the blob after it, and what it achieved. -/
inductive Attempts (n : Node) (b : Blob) (response : Option FetchResponse) (now : Millis) :
    Node → Blob → Achievement → Prop where
  | alreadyComplete (complete : b.status = .complete) :
      Attempts n b response now (n.dequeue b.version) b .alreadyComplete
  | alreadyCorrupt (corrupt : b.status = .checksumInvalid) :
      Attempts n b response now ((n.dequeue b.version).discardInvalid b now) b .invalid
  | unanswered (isOpen : b.isTerminal = false) (silent : response = none) :
      Attempts n b response now n b .failed
  | broken {request : FetchRequest} {r : FetchResponse} {b' : Blob} {e : Error}
      (asked : request? b = some request) (answered : response = some r)
      (refused : apply b request r now = (b', some e)) :
      Attempts n b response now (n.update b') b' .failed
  | incomplete {request : FetchRequest} {r : FetchResponse} {m : Blob}
      (asked : request? b = some request) (answered : response = some r)
      (applied : apply b request r now = (m, none)) (lacking : m.settle.1.isTerminal = false) :
      Attempts n b response now ((n.update m.settle.1).resort m.settle.1.key) m.settle.1
        .stillIncomplete
  | completed {request : FetchRequest} {r : FetchResponse} {m : Blob}
      (asked : request? b = some request) (answered : response = some r)
      (applied : apply b request r now = (m, none)) (complete : m.settle.1.status = .complete) :
      Attempts n b response now
        (((n.update m.settle.1).dequeue m.settle.1.version).resort m.settle.1.key) m.settle.1
        .completed
  | corrupt {request : FetchRequest} {r : FetchResponse} {m : Blob}
      (asked : request? b = some request) (answered : response = some r)
      (applied : apply b request r now = (m, none))
      (corrupt : m.settle.1.status = .checksumInvalid) :
      Attempts n b response now
        (((n.update m.settle.1).dequeue m.settle.1.version).discardInvalid m.settle.1 now)
        m.settle.1 .invalid

theorem attempts_attempt (n : Node) (b : Blob) (response : Option FetchResponse) (now : Millis) :
    Attempts n b response now (attempt n b response now).1 (attempt n b response now).2.1
      (attempt n b response now).2.2 := by
  unfold attempt
  split
  next unasked =>
    have decided := isTerminal_of_request?_eq_none unasked
    split
    next complete => exact .alreadyComplete (of_decide_eq_true complete)
    next incomplete =>
      have uncomplete : b.status ≠ .complete := fun complete => incomplete (decide_eq_true complete)
      exact .alreadyCorrupt ((Blob.isTerminal_iff.mp decided).resolve_left uncomplete)
  next request asked =>
    split
    next => exact .unanswered (isOpen_of_request? asked) rfl
    next r =>
      split
      next b' e refused => exact .broken asked rfl refused
      next m applied =>
        simp only
        split
        next complete => exact .completed asked rfl applied complete
        next corrupt => exact .corrupt asked rfl applied corrupt
        next incomplete uncorrupt =>
          exact .incomplete asked rfl applied (Blob.isOpen_of_status incomplete uncorrupt)

end Recovery
end BlobReplica
