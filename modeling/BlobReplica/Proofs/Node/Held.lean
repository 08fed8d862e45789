import BlobReplica.Proofs.Cache.Stored
import BlobReplica.Proofs.Node

/-! The blobs that a node holds, in its cache or its queue. Each of them is held in one state only,
whatever else has become of it: changes reach the cache and the queue alike, and a number is never
given twice. -/

namespace BlobReplica

namespace Recovery.Queue

variable {q : Queue} {now : Millis}

theorem pollFrom_tickets (q : Queue) (now : Millis) (agenda : List AgendaEntry) :
    (q.pollFrom now agenda).1.tickets ⊆ q.tickets := by
  fun_induction pollFrom q now agenda with
  | case1 => exact List.Subset.refl _
  | case2 _ _ _ ih => exact ih
  | case3 _ _ _ _ _ ih => exact ih
  | case4 => exact List.Subset.refl _
  | case5 => exact List.filter_subset_self _
  | case6 => exact List.Subset.refl _

theorem poll_tickets (q : Queue) (now : Millis) : (q.poll now).1.tickets ⊆ q.tickets :=
  pollFrom_tickets q now q.agenda

end Recovery.Queue

namespace Node

variable {n n' : Node} {b b' o x : Blob} {c : Cache} {v : VersionId}

def resort (n : Node) (key : String) : Node :=
  n.withCache (n.cache.resort key)

def discardInvalid (n : Node) (b : Blob) (now : Millis) : Node :=
  n.withCache (n.cache.discardInvalid b.key b.version now).1

/-- The blob is stored or waits for recovery. -/
def Holds (n : Node) (b : Blob) : Prop :=
  n.cache.Stores b ∨ ∃ t ∈ n.queue.tickets, t.blob = b

/-- No other state of the blob is held, so whoever has it sees what the node made of it. -/
def Shows (n : Node) (b : Blob) : Prop :=
  ∀ o, n.Holds o → o.copy = b.copy → o = b

structure Consistent (n : Node) : Prop where
  cache : n.cache.Sound
  numbered : ∀ b, n.Holds b → b.copy < n.cache.copies
  single : ∀ b, n.Holds b → n.Shows b

/-- A node that holds nothing which was not held before, under the same numbers. -/
structure Narrows (n n' : Node) : Prop where
  cache : n'.cache.Sound
  copies : n'.cache.copies = n.cache.copies
  fewer : ∀ b, n'.Holds b → n.Holds b

theorem Narrows.refl (sound : n.cache.Sound) : n.Narrows n :=
  ⟨sound, rfl, fun _ held => held⟩

theorem Narrows.trans {n'' : Node} (first : n.Narrows n') (second : n'.Narrows n'') : n.Narrows n'' :=
  ⟨second.cache, second.copies.trans first.copies, fun b held => first.fewer b (second.fewer b held)⟩

theorem Shows.narrow (shows : n.Shows b) (narrows : n.Narrows n') : n'.Shows b :=
  fun o held => shows o (narrows.fewer o held)

theorem not_holds_empty (grace : Millis) : ¬ (empty grace).Holds b := by
  rintro (⟨k, listed⟩ | ⟨t, waits, _⟩)
  · contradiction
  · contradiction

theorem consistent_empty (grace : Millis) : (empty grace).Consistent where
  cache := Cache.sound_empty
  numbered _ held := absurd held (not_holds_empty grace)
  single _ held := absurd held (not_holds_empty grace)

theorem Shows.cache (shows : n.Shows b) : n.cache.Shows b :=
  fun o stored => shows o (.inl stored)

theorem update_self (shows : n.Shows b) : n.update b = n := by
  have tickets : ∀ t ∈ n.queue.tickets,
      (if t.blob.copy = b.copy then { t with blob := b } else t) = t := by
    intro t waits
    split
    next copy => rw [← shows t.blob (.inr ⟨t, waits, rfl⟩) copy]
    next => rfl
  rw [update, Cache.update_self shows.cache, Recovery.Queue.update, List.map_congr_left tickets,
    List.map_id']

theorem tickets_update (n : Node) (b : Blob) : (n.update b).queue.tickets =
    n.queue.tickets.map fun t => { t with blob := Cache.replaced b t.blob } := by
  refine List.map_congr_left fun t _ => ?_
  rw [Cache.replaced]
  split <;> rfl

theorem dequeue_update (shows : n.Shows b) (same : b.Same b') :
    (n.update b').dequeue b'.version = (n.dequeue b'.version).update b' := by
  have waiting : ∀ t ∈ n.queue.tickets,
      ((fun t : Recovery.Ticket => decide (t.blob.version ≠ b'.version)) ∘ fun t =>
        if t.blob.copy = b'.copy then { t with blob := b' } else t) t =
      decide (t.blob.version ≠ b'.version) := by
    intro t waits
    simp only [Function.comp_apply]
    split
    next copy =>
      have former := shows t.blob (.inr ⟨t, waits, rfl⟩) (copy.trans same.copy)
      rw [former, same.version]
    next => rfl
  simp only [dequeue, update, Recovery.Queue.remove, Recovery.Queue.update, List.filter_map,
    List.filter_congr waiting]

namespace Consistent

theorem same_replaced (shows : n.Shows b) (same : b.Same b') (held : n.Holds o) :
    o.Same (Cache.replaced b' o) :=
  Cache.same_replaced (shows o held) same

theorem update (consistent : n.Consistent) (shows : n.Shows b) (same : b.Same b') :
    (n.update b').Consistent ∧
      ∀ x, (n.update b').Holds x ↔ ∃ o, n.Holds o ∧ Cache.replaced b' o = x := by
  obtain ⟨cache, stores⟩ := consistent.cache.change shows.cache same
  have holds (x : Blob) : (n.update b').Holds x ↔ ∃ o, n.Holds o ∧ Cache.replaced b' o = x := by
    constructor
    · rintro (stored | ⟨t', waits, rfl⟩)
      · obtain ⟨o, former, rfl⟩ := (stores x).mp stored
        exact ⟨o, .inl former, rfl⟩
      · rw [tickets_update] at waits
        obtain ⟨t, former, rfl⟩ := List.mem_map.mp waits
        exact ⟨t.blob, .inr ⟨t, former, rfl⟩, rfl⟩
    · rintro ⟨o, former | ⟨t, former, rfl⟩, rfl⟩
      · exact .inl ((stores _).mpr ⟨o, former, rfl⟩)
      · refine .inr ⟨{ t with blob := Cache.replaced b' t.blob }, ?_, rfl⟩
        rw [tickets_update]
        exact List.mem_map_of_mem former
  refine ⟨?_, holds⟩
  constructor
  case cache => exact cache
  case numbered =>
    intro x held
    obtain ⟨o, former, rfl⟩ := (holds x).mp held
    have number := (same_replaced shows same former).copy
    show _ < (n.cache.update b').copies
    rw [number, Cache.copies_update]
    exact consistent.numbered o former
  case single =>
    intro x held y held' copy
    obtain ⟨o, former, rfl⟩ := (holds x).mp held
    obtain ⟨p, former', rfl⟩ := (holds y).mp held'
    rw [(same_replaced shows same former).copy, (same_replaced shows same former').copy] at copy
    rw [consistent.single o former p former' copy]

theorem stores_update (consistent : n.Consistent) (stored : n.cache.Stores b) (same : b.Same b') :
    (n.update b').cache.Stores b' := by
  have shows := (consistent.single b (.inl stored)).cache
  have list := (consistent.cache.change shows same).2 b'
  exact list.mpr ⟨b, stored, if_pos same.copy.symm⟩

theorem narrow (consistent : n.Consistent) (narrows : n.Narrows n') : n'.Consistent where
  cache := narrows.cache
  numbered x held := narrows.copies ▸ consistent.numbered x (narrows.fewer x held)
  single x held y held' := consistent.single x (narrows.fewer x held) y (narrows.fewer y held')

theorem takeIn (consistent : n.Consistent) (taken : n.cache.TakesIn b c) :
    (n.withCache c).Consistent ∧ ∀ x, (n.withCache c).Holds x ↔ n.Holds x ∨ x = b := by
  have holds (x : Blob) : (n.withCache c).Holds x ↔ n.Holds x ∨ x = b := by
    rw [Holds, Holds, or_right_comm]
    exact or_congr_left (taken.stores x)
  have number {x : Blob} (held : n.Holds x) : x.copy ≠ b.copy := by
    rw [taken.next]
    exact Nat.ne_of_lt (consistent.numbered x held)
  refine ⟨?_, holds⟩
  constructor
  case cache => exact taken.sound
  case numbered =>
    intro x held
    show x.copy < c.copies
    rw [taken.copies]
    rcases (holds x).mp held with former | rfl
    · exact Nat.lt_succ_of_lt (consistent.numbered x former)
    · exact taken.next ▸ Nat.lt_succ_self _
  case single =>
    intro x held y held' copy
    rcases (holds x).mp held with former | rfl <;> rcases (holds y).mp held' with former' | rfl
    · exact consistent.single x former y former' copy
    · exact absurd copy.symm (number former)
    · exact absurd copy (number former')
    · rfl

theorem insert {isNew : Bool} (consistent : n.Consistent)
    (inserted : n.cache.insert b = .ok (c, x, isNew)) :
    (n.withCache c).Consistent ∧ (∀ y, (n.withCache c).Holds y ↔ n.Holds y ∨ y = x) ∧
      c.Stores x ∧ (n.Holds x ∨ x = { b with copy := n.cache.copies }) := by
  rcases consistent.cache.insert_cases inserted with ⟨rfl, stored, _⟩ | ⟨taken, new⟩
  · refine ⟨consistent, fun y => ⟨.inl, ?_⟩, stored, .inl (.inl stored)⟩
    rintro (held | rfl)
    · exact held
    · exact .inl stored
  · obtain ⟨consistent', holds⟩ := consistent.takeIn taken
    exact ⟨consistent', holds, (taken.stores x).mpr (.inr rfl), .inr new⟩

end Consistent

/-! ### Changes that bring nothing new -/

theorem narrows_dequeue (sound : n.cache.Sound) (v : VersionId) : n.Narrows (n.dequeue v) where
  cache := sound
  copies := rfl
  fewer _ held := held.imp_right fun ⟨t, waits, same⟩ => ⟨t, List.mem_of_mem_filter waits, same⟩

theorem narrows_enqueue (sound : n.cache.Sound) (stored : n.cache.Stores b) :
    n.Narrows (n.enqueue b) where
  cache := sound
  copies := rfl
  fewer x held := by
    rcases held with former | ⟨t, waits, rfl⟩
    · exact .inl former
    · rcases Recovery.Queue.tickets_enqueue waits with former | new
      · exact .inr ⟨t, former, rfl⟩
      · exact .inl (new ▸ stored)

theorem narrows_poll (sound : n.cache.Sound) (now : Millis) :
    n.Narrows { n with queue := (n.queue.poll now).1 } where
  cache := sound
  copies := rfl
  fewer _ held := held.imp_right fun ⟨t, waits, same⟩ =>
    ⟨t, Recovery.Queue.poll_tickets _ _ waits, same⟩

theorem narrows_counted (sound : n.cache.Sound) (counters : Counters) :
    n.Narrows { n with counters } :=
  ⟨sound, rfl, fun _ held => held⟩

theorem narrows_withCache (sound : c.Sound) (copies : c.copies = n.cache.copies)
    (fewer : ∀ x, c.Stores x → n.cache.Stores x) : n.Narrows (n.withCache c) where
  cache := sound
  copies := copies
  fewer x held := held.imp_left (fewer x)

theorem narrows_resort (sound : n.cache.Sound) (key : String) : n.Narrows (n.resort key) :=
  narrows_withCache (sound.resort key).1 (Cache.copies_resort _ _) fun _ => (sound.stores_resort key).mp

theorem narrows_remove (sound : n.cache.Sound) (key : String) (v : VersionId) :
    n.Narrows (n.withCache (n.cache.remove key v).1) :=
  narrows_withCache (sound.remove key v).1 (Cache.copies_remove _ _ _) fun _ stored =>
    ((sound.stores_remove key v).mp stored).1

theorem narrows_markInvalid (sound : n.cache.Sound) (v : VersionId) (now : Millis) :
    n.Narrows (n.withCache (n.cache.markInvalid v now)) :=
  narrows_withCache (sound.markInvalid v now) rfl fun _ stored => stored

theorem narrows_discardInvalid (sound : n.cache.Sound) (key : String) (v : VersionId) (now : Millis) :
    n.Narrows (n.withCache (n.cache.discardInvalid key v now).1) :=
  (narrows_markInvalid sound v now).trans (narrows_remove (sound.markInvalid v now) key v)

theorem narrows_sweep (sound : n.cache.Sound) (now : Millis) (policy : Cache.SweepPolicy) :
    n.Narrows (n.withCache (n.cache.sweep now policy).1) := by
  refine narrows_withCache (sound.sweep now policy) rfl fun x stored => ?_
  obtain ⟨k, listed⟩ := stored
  rw [Cache.versions_sweep] at listed
  exact ⟨k, (Cache.swept_sublist policy now _).subset listed⟩

end Node
end BlobReplica
