import BlobReplica.Intake
import BlobReplica.Proofs.Node.Held

/-! What a fragment can do to a node, case by case. Its blob is found or comes into being; a fragment
that can be merged into it leaves it pending, complete or invalid. -/

namespace BlobReplica.Intake

variable {i : Intake} {n n' : Node} {b m s : Blob} {start now : Millis} {o : Outcome}

/-- A version that is decided waits no longer, if the intake recovers. -/
def leave (i : Intake) (n : Node) (version : VersionId) : Node :=
  if i.recovers then n.dequeue version else n

/-- A blob that lacks pieces takes its place among the versions of its key, and waits for recovery if
the intake recovers. -/
def await (i : Intake) (n : Node) (b : Blob) (start : Millis) : Node :=
  let placed := if b.validity.start = start then n else n.resort b.key
  if i.recovers then placed.enqueue b else placed

theorem cache_leave (i : Intake) (n : Node) (v : VersionId) : (i.leave n v).cache = n.cache := by
  rw [leave]
  split <;> rfl

theorem cache_await (i : Intake) (n : Node) (b : Blob) (start : Millis) :
    (i.await n b start).cache =
      if b.validity.start = start then n.cache else n.cache.resort b.key := by
  simp only [await]
  split <;> split <;> rfl

/-- What becomes of a node with a blob that a fragment was merged into and that was settled. -/
inductive Concludes (i : Intake) (n : Node) (s : Blob) (start now : Millis) : Node → Outcome → Prop where
  | pending (lacking : s.isTerminal = false) :
      Concludes i n s start now (i.await (n.update s) s start) .pending
  | completed (complete : s.status = .complete) :
      Concludes i n s start now ((i.leave (n.update s) s.version).resort s.key) .completed
  | invalid (corrupt : s.status = .checksumInvalid) :
      Concludes i n s start now ((i.leave (n.update s) s.version).discardInvalid s now) .invalid

theorem concludes (isOpen : m.isTerminal = false) (i : Intake) (n : Node) (start now : Millis) :
    Concludes i n m.settle.1 start now (i.conclude n m start now).1 (i.conclude n m start now).2 := by
  have told := Blob.settle_snd isOpen
  unfold conclude
  generalize m.settle = settled at *
  obtain ⟨s, decided⟩ := settled
  obtain rfl : decided = s.isTerminal := told
  simp only
  split
  next complete =>
    rw [Blob.isTerminal, complete]
    exact .completed complete
  next corrupt =>
    rw [Blob.isTerminal, corrupt]
    exact .invalid corrupt
  next incomplete uncorrupt => exact .pending (Blob.isOpen_of_status incomplete uncorrupt)

theorem narrows_leave (sound : n.cache.Sound) (i : Intake) (v : VersionId) :
    n.Narrows (i.leave n v) := by
  rw [leave]
  split
  next => exact Node.narrows_dequeue sound v
  next => exact .refl sound

theorem narrows_await (sound : n.cache.Sound) (i : Intake) (stored : n.cache.Stores b)
    (start : Millis) : n.Narrows (i.await n b start) := by
  have placed : n.Narrows (if b.validity.start = start then n else n.resort b.key) ∧
      (if b.validity.start = start then n else n.resort b.key).cache.Stores b := by
    split
    next => exact ⟨.refl sound, stored⟩
    next => exact ⟨Node.narrows_resort sound b.key, (sound.stores_resort b.key).mpr stored⟩
  simp only [await]
  split
  next => exact placed.1.trans (Node.narrows_enqueue placed.1.cache placed.2)
  next => exact placed.1

theorem Concludes.narrows (concludes : i.Concludes n s start now n' o)
    (sound : (n.update s).cache.Sound) (stored : (n.update s).cache.Stores s) :
    (n.update s).Narrows n' := by
  cases concludes with
  | pending => exact narrows_await sound i stored start
  | completed =>
    have left := narrows_leave sound i s.version
    exact left.trans (Node.narrows_resort left.cache s.key)
  | invalid =>
    have left := narrows_leave sound i s.version
    exact left.trans (Node.narrows_discardInvalid left.cache s.key s.version now)

/-- What a fragment does to a node. -/
inductive Takes (i : Intake) (n : Node) (f : Fragment) (now : Millis) : Node → Outcome → Prop where
  /-- Its version is marked invalid. -/
  | refused : Takes i n f now n .ignored
  | late {c : Cache} {b : Blob} {isNew : Bool}
      (opened : n.cache.getOrCreate f.key f.version now = .ok (c, b, isNew))
      (decided : b.isTerminal = true) : Takes i n f now (n.withCache c) .ignored
  | rejected {c : Cache} {b : Blob} {isNew : Bool} {e : Blob.Error}
      (opened : n.cache.getOrCreate f.key f.version now = .ok (c, b, isNew))
      (error : b.merge f now = .error e) : Takes i n f now (n.withCache c) .rejected
  | merged {c : Cache} {b m : Blob} {isNew : Bool} {filled : Nat} {n' : Node} {o : Outcome}
      (opened : n.cache.getOrCreate f.key f.version now = .ok (c, b, isNew))
      (isOpen : b.isTerminal = false) (merged : b.merge f now = .ok (m, filled))
      (concludes : Concludes i (n.withCache c) m.settle.1 b.validity.start now n' o) :
      Takes i n f now n' o

theorem takes_fragment (i : Intake) (n : Node) (f : Fragment) (now : Millis) :
    Takes i n f now (i.fragment n f now).1 (i.fragment n f now).2 := by
  rw [fragment]
  split
  next => exact .refused
  next c b isNew opened =>
    simp only
    split
    next decided => exact .late opened decided
    next undecided =>
      have isOpen : b.isTerminal = false := by simpa using undecided
      split
      next e error => exact .rejected opened error
      next m filled merged =>
        have still : m.isTerminal = false := (Blob.advances_merge merged).isTerminal.trans isOpen
        exact .merged opened isOpen merged (concludes still i _ _ now)

theorem datagram_cases (i : Intake) (n : Node) (d : Bytes) (now : Millis) : ∃ counters,
    (i.datagram n d now).1 = { n with counters } ∨
      ∃ f, Datagram.decode d i.maxPacketSize i.maxObjectSize = .ok f ∧
        (i.datagram n d now).1 = { (i.fragment n f now).1 with counters } := by
  unfold datagram
  cases decoded : Datagram.decode d i.maxPacketSize i.maxObjectSize with
  | error e => exact ⟨_, .inl rfl⟩
  | ok f => exact ⟨_, .inr ⟨f, rfl, rfl⟩⟩

end BlobReplica.Intake
