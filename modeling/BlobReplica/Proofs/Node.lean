import BlobReplica.Node
import BlobReplica.Proofs.Cache

/-! Nodes whose queue and cache agree: each queued blob is stored just as its ticket has it. Every
change of a node keeps the two in step. -/

namespace BlobReplica

namespace Recovery.Queue

variable {q : Queue} {b : Blob} {v w : VersionId}

theorem contains_iff : q.contains v = true ↔ ∃ t ∈ q.tickets, t.blob.version = v := by
  simp [contains]

theorem contains_remove : (q.remove v).1.contains w = true ↔ q.contains w = true ∧ w ≠ v := by
  simp only [contains_iff, remove, List.mem_filter, decide_eq_true_eq]
  constructor
  · rintro ⟨t, ⟨member, other⟩, rfl⟩
    exact ⟨⟨t, member, rfl⟩, other⟩
  · rintro ⟨⟨t, member, rfl⟩, other⟩
    exact ⟨t, ⟨member, other⟩, rfl⟩

theorem contains_enqueue : (q.enqueue b).1.contains w = true ↔
    q.contains w = true ∨ w = b.version := by
  rw [enqueue]
  split
  next queued =>
    refine ⟨.inl, fun either => either.elim id ?_⟩
    rintro rfl
    exact queued
  next => simp [contains, eq_comm (a := w)]

theorem tickets_enqueue {t : Ticket} (member : t ∈ (q.enqueue b).1.tickets) :
    t ∈ q.tickets ∨ t.blob = b := by
  rw [enqueue] at member
  split at member
  next => exact .inl member
  next =>
    refine (List.mem_append.mp member).imp id fun new => ?_
    rw [List.mem_singleton.mp new]

theorem contains_update (same : ∀ t ∈ q.tickets, t.blob.copy = b.copy → t.blob.version = b.version) :
    (q.update b).contains w = true ↔ q.contains w = true := by
  simp only [contains_iff, update, List.mem_map]
  constructor
  · rintro ⟨_, ⟨t, member, rfl⟩, rfl⟩
    refine ⟨t, member, ?_⟩
    split
    next copy => exact same t member copy
    next => rfl
  · rintro ⟨t, member, rfl⟩
    refine ⟨_, ⟨t, member, rfl⟩, ?_⟩
    split
    next copy => exact (same t member copy).symm
    next => rfl

end Recovery.Queue

namespace Node

variable {n : Node} {b : Blob} {v : VersionId} {c : Cache}

/-- Every queued blob is stored in the state that its ticket has. -/
structure Sound (n : Node) : Prop where
  cache : n.cache.Sound
  queued : ∀ t ∈ n.queue.tickets, n.cache.find? t.blob.key t.blob.version = some t.blob

theorem sound_empty (grace : Millis) : (empty grace).Sound where
  cache := Cache.sound_empty
  queued _ member := by contradiction

/-- Two nodes that differ in one version at most. -/
structure AgreeBut (v : VersionId) (n n' : Node) : Prop where
  found : ∀ k w, w ≠ v → n'.cache.find? k w = n.cache.find? k w
  queued : ∀ w, w ≠ v → (n'.queue.contains w = true ↔ n.queue.contains w = true)
  marked : ∀ w, w ≠ v → (n'.cache.isInvalid w = true ↔ n.cache.isInvalid w = true)

namespace AgreeBut

variable {n' n'' : Node}

theorem refl (v : VersionId) (n : Node) : n.AgreeBut v n :=
  ⟨fun _ _ _ => rfl, fun _ _ => Iff.rfl, fun _ _ => Iff.rfl⟩

theorem trans (first : n.AgreeBut v n') (second : n'.AgreeBut v n'') : n.AgreeBut v n'' :=
  ⟨fun k w other => (second.found k w other).trans (first.found k w other),
    fun w other => (second.queued w other).trans (first.queued w other),
    fun w other => (second.marked w other).trans (first.marked w other)⟩

theorem dequeue (v : VersionId) (n : Node) : n.AgreeBut v (n.dequeue v) :=
  ⟨fun _ _ _ => rfl, fun _ other => Recovery.Queue.contains_remove.trans (and_iff_left other),
    fun _ _ => Iff.rfl⟩

theorem enqueue (n : Node) (b : Blob) : n.AgreeBut b.version (n.enqueue b) :=
  ⟨fun _ _ _ => rfl, fun _ other => Recovery.Queue.contains_enqueue.trans (or_iff_left other),
    fun _ _ => Iff.rfl⟩

theorem withCache (found : ∀ k w, w ≠ v → c.find? k w = n.cache.find? k w)
    (marks : c.marks = n.cache.marks) : n.AgreeBut v (n.withCache c) :=
  ⟨found, fun _ _ => Iff.rfl, fun w _ => by
    show Cache.Marks.contains c.marks w = true ↔ _
    rw [marks]
    rfl⟩

end AgreeBut

namespace Sound

theorem update (sound : n.Sound) {old : Blob} (found : n.cache.find? b.key b.version = some old)
    (copy : old.copy = b.copy) :
    (n.update b).Sound ∧
      (∀ k v, (n.update b).cache.find? k v =
        if k = b.key ∧ v = b.version then some b else n.cache.find? k v) ∧
      ∀ v, (n.update b).queue.contains v = true ↔ n.queue.contains v = true := by
  obtain ⟨cache, find⟩ := sound.cache.update found copy
  obtain ⟨listed, named⟩ := sound.cache.find?_eq_some.mp found
  have former {t : Recovery.Ticket} (member : t ∈ n.queue.tickets) (same : t.blob.copy = b.copy) :
      t.blob = old := by
    have stored := (sound.cache.find?_eq_some.mp (sound.queued t member)).1
    exact sound.cache.single _ t.blob stored _ old listed (same.trans copy.symm)
  refine ⟨⟨cache, fun t' member => ?_⟩, find, fun v => ?_⟩
  · obtain ⟨t, held, rfl⟩ := List.mem_map.mp member
    show (n.cache.update b).find? _ _ = _
    rw [find]
    by_cases same : t.blob.copy = b.copy
    · rw [if_pos same, if_pos ⟨rfl, rfl⟩]
    · have stored := sound.queued t held
      rw [if_neg same, if_neg, stored]
      rintro ⟨key, version⟩
      rw [key, version, found] at stored
      exact same (Option.some.inj stored ▸ copy)
  · exact Recovery.Queue.contains_update fun t member same => former member same ▸ named

theorem agree_update (sound : n.Sound) {old : Blob}
    (found : n.cache.find? b.key b.version = some old) (copy : old.copy = b.copy) :
    n.AgreeBut b.version (n.update b) := by
  obtain ⟨_, find, queued⟩ := sound.update found copy
  refine ⟨fun k w other => ?_, fun w _ => queued w, fun w _ => ?_⟩
  · rw [find, if_neg]
    exact fun same => other same.2
  · show Cache.Marks.contains (n.cache.update b).marks w = true ↔ _
    rw [Cache.marks_update]
    rfl

theorem dequeue (sound : n.Sound) (v : VersionId) : (n.dequeue v).Sound where
  cache := sound.cache
  queued t member := sound.queued t (List.mem_of_mem_filter member)

theorem enqueue (sound : n.Sound) (stored : n.cache.find? b.key b.version = some b) :
    (n.enqueue b).Sound where
  cache := sound.cache
  queued t member := by
    rcases Recovery.Queue.tickets_enqueue member with member | rfl
    · exact sound.queued t member
    · exact stored

theorem withCache (sound : n.Sound) (cache : c.Sound)
    (same : ∀ k v, n.queue.contains v = true → c.find? k v = n.cache.find? k v) :
    (n.withCache c).Sound where
  cache := cache
  queued t member := by
    show c.find? _ _ = _
    rw [same _ _ (Recovery.Queue.contains_iff.mpr ⟨t, member, rfl⟩)]
    exact sound.queued t member

theorem resort (sound : n.Sound) (key : String) : (n.withCache (n.cache.resort key)).Sound :=
  sound.withCache (sound.cache.resort key).1 fun k v _ => (sound.cache.resort key).2 k v

theorem agree_resort (sound : n.Sound) (v : VersionId) (key : String) :
    n.AgreeBut v (n.withCache (n.cache.resort key)) :=
  .withCache (fun k w _ => (sound.cache.resort key).2 k w) (Cache.marks_resort _ _)

end Sound
end Node
end BlobReplica
