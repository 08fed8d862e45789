import BlobReplica.Cache.Sweep
import BlobReplica.Proofs.Blob.Identity
import BlobReplica.Proofs.Cache

/-! Which blobs a cache stores, under whatever key, and what becomes of them when a blob changes, is
taken in or leaves. -/

namespace BlobReplica.Cache

variable {c c' : Cache} {b b' o x : Blob} {key k : String} {version : VersionId} {isNew : Bool}
  {policy : SweepPolicy} {now : Millis} {blobs : List Blob}

/-- Some key lists the blob. -/
def Stores (c : Cache) (b : Blob) : Prop :=
  ∃ k, b ∈ c.versions k

theorem mem_versions : b ∈ c.versions k ↔ ∃ blobs, (k, blobs) ∈ c.lists.entries ∧ b ∈ blobs := by
  rw [versions]
  constructor
  · intro listed
    cases found : c.lists.get? k with
    | none => simp [found] at listed
    | some blobs => exact ⟨blobs, Table.get?_eq_some.mp found, by simpa [found] using listed⟩
  · rintro ⟨blobs, entry, listed⟩
    rw [Table.get?_eq_some.mpr entry]
    exact listed

namespace Sound

theorem stores_iff (sound : c.Sound) : c.Stores b ↔ b ∈ c.versions b.key := by
  constructor
  · rintro ⟨k, listed⟩
    exact (sound.keyed k b listed).symm ▸ listed
  · exact fun listed => ⟨b.key, listed⟩

theorem stores_iff_find? (sound : c.Sound) :
    c.Stores b ↔ c.find? b.key b.version = some b := by
  rw [sound.stores_iff, sound.find?_eq_some]
  exact (and_iff_left rfl).symm

end Sound

/-! ### Changed blobs -/

/-- No other state of the blob is stored. -/
def Shows (c : Cache) (b : Blob) : Prop :=
  ∀ o, c.Stores o → o.copy = b.copy → o = b

theorem Sound.shows (sound : c.Sound) (stored : c.Stores b) : c.Shows b := by
  obtain ⟨k, listed⟩ := stored
  rintro o ⟨k', former⟩ copy
  exact sound.single k' o former k b listed copy

theorem same_replaced (former : o.copy = b.copy → o = b) (same : b.Same b') :
    o.Same (replaced b' o) := by
  rw [replaced]
  split
  next copy => exact former (copy.trans same.copy) ▸ same
  next => exact .refl o

theorem update_self (shows : c.Shows b) : c.update b = c := by
  rw [update]
  split
  next => rfl
  next blobs found =>
    have kept : ∀ o ∈ blobs, (if o.copy = b.copy then b else o) = o := by
      intro o listed
      have stored : c.Stores o := ⟨b.key, mem_versions.mpr ⟨blobs, Table.get?_eq_some.mp found, listed⟩⟩
      split
      next copy => exact (shows o stored copy).symm
      next => rfl
    rw [List.map_congr_left kept, List.map_id', Table.insert_self found]

namespace Sound

theorem versions_update (sound : c.Sound) (shows : c.Shows b) (same : b.Same b') (k : String) :
    (c.update b').versions k = (c.versions k).map (replaced b') := by
  rw [Cache.versions_update]
  split
  next => rfl
  next other =>
    have apart : ∀ o ∈ c.versions k, replaced b' o = o := by
      intro o listed
      refine if_neg fun copy => other ?_
      rw [same.key, ← shows o ⟨k, listed⟩ (copy.trans same.copy), sound.keyed k o listed]
    rw [List.map_congr_left apart, List.map_id']

/-- What is stored after a change are the former states, each replaced if it is one of the blob. -/
theorem change (sound : c.Sound) (shows : c.Shows b) (same : b.Same b') :
    (c.update b').Sound ∧ ∀ x, (c.update b').Stores x ↔ ∃ o, c.Stores o ∧ replaced b' o = x := by
  have list := sound.versions_update shows same
  have stays {k : String} {o : Blob} (listed : o ∈ c.versions k) : o.Same (replaced b' o) :=
    same_replaced (shows o ⟨k, listed⟩) same
  have origin {k : String} {x : Blob} (listed : x ∈ (c.update b').versions k) :
      ∃ o ∈ c.versions k, replaced b' o = x := by
    rw [list] at listed
    exact List.mem_map.mp listed
  constructor
  · constructor
    case keyed =>
      intro k x listed
      obtain ⟨o, former, rfl⟩ := origin listed
      exact (stays former).key.trans (sound.keyed k o former)
    case distinct =>
      intro k
      have versions : ((c.versions k).map (replaced b')).map (·.version) =
          (c.versions k).map (·.version) := by
        rw [List.map_map]
        exact List.map_congr_left fun o listed => (stays listed).version
      rw [list, versions]
      exact sound.distinct k
    case numbered =>
      intro k x listed
      obtain ⟨o, former, rfl⟩ := origin listed
      rw [(stays former).copy, copies_update]
      exact sound.numbered k o former
    case single =>
      intro k x hx k' y hy copy
      obtain ⟨o, former, rfl⟩ := origin hx
      obtain ⟨p, former', rfl⟩ := origin hy
      rw [(stays former).copy, (stays former').copy] at copy
      rw [sound.single k o former k' p former' copy]
  · intro x
    constructor
    · rintro ⟨k, listed⟩
      obtain ⟨o, former, rfl⟩ := origin listed
      exact ⟨o, ⟨k, former⟩, rfl⟩
    · rintro ⟨o, ⟨k, former⟩, rfl⟩
      exact ⟨k, list k ▸ List.mem_map_of_mem former⟩

end Sound

/-! ### New blobs -/

/-- A cache that has taken in a blob. -/
structure TakesIn (c : Cache) (b : Blob) (c' : Cache) : Prop where
  sound : c'.Sound
  next : b.copy = c.copies
  copies : c'.copies = c.copies + 1
  stores : ∀ x, c'.Stores x ↔ c.Stores x ∨ x = b

/-- Taking in a blob gives the one that is stored or numbers it. -/
theorem Sound.insert_cases (sound : c.Sound) (inserted : c.insert b = .ok (c', x, isNew)) :
    (c' = c ∧ c.Stores x ∧ x.key = b.key ∧ x.version = b.version) ∨
      (c.TakesIn x c' ∧ x = { b with copy := c.copies }) := by
  rw [Cache.insert] at inserted
  split at inserted
  next stored found =>
    obtain ⟨rfl, rfl, _⟩ : c = c' ∧ stored = x ∧ false = isNew := by simpa using inserted
    obtain ⟨listed, named⟩ := sound.find?_eq_some.mp found
    exact .inl ⟨rfl, ⟨_, listed⟩, sound.keyed _ _ listed, named⟩
  next absent =>
    split at inserted
    next => contradiction
    next =>
      obtain ⟨rfl, rfl, _⟩ : _ = c' ∧ { b with copy := c.copies } = x ∧ true = isNew := by
        simpa using inserted
      have places : c.Places { b with copy := c.copies } _ := places_sorted sound absent rfl
      refine .inr ⟨⟨places.sound sound, rfl, rfl, fun x => ?_⟩, rfl⟩
      constructor
      · rintro ⟨k, listed⟩
        rcases (places.mem_iff k x).mp listed with ⟨former, _⟩ | ⟨_, new⟩
        · exact .inl ⟨k, former⟩
        · exact .inr new
      · rintro (⟨k, former⟩ | rfl)
        · refine ⟨k, (places.mem_iff k x).mpr (.inl ⟨former, ?_⟩)⟩
          rintro ⟨rfl, named⟩
          exact Sound.find?_eq_none.mp absent x former named
        · exact ⟨b.key, (places.mem_iff _ _).mpr (.inr ⟨rfl, rfl⟩)⟩

theorem Sound.insert_stores (sound : c.Sound) (inserted : c.insert b = .ok (c', x, isNew)) :
    c'.Stores x ∧ x.key = b.key ∧ x.version = b.version := by
  rcases sound.insert_cases inserted with ⟨rfl, stored, same⟩ | ⟨taken, rfl⟩
  · exact ⟨stored, same⟩
  · exact ⟨(taken.stores _).mpr (.inr rfl), rfl, rfl⟩

theorem insertObject_eq_ok {properties : Properties} {payload : Bytes}
    (inserted : c.insertObject key version properties payload now = .ok (c', x)) :
    ∃ b isNew, Blob.ofObject key version properties payload now = .ok b ∧
      c.insert b = .ok (c', x, isNew) := by
  rw [insertObject] at inserted
  cases made : Blob.ofObject key version properties payload now with
  | error e => simp [made, bind, Except.bind] at inserted
  | ok b =>
    simp only [made, bind, Except.bind] at inserted
    split at inserted
    next => contradiction
    next r taken =>
      obtain ⟨rfl, rfl⟩ := Prod.mk.inj (Except.ok.inj inserted)
      exact ⟨b, r.2.2, rfl, taken⟩

/-! ### Blobs that leave -/

namespace Sound

theorem stores_resort (sound : c.Sound) (key : String) : (c.resort key).Stores x ↔ c.Stores x := by
  obtain ⟨sound', same⟩ := sound.resort key
  rw [sound'.stores_iff_find?, sound.stores_iff_find?, same]

theorem stores_remove (sound : c.Sound) (key : String) (version : VersionId) :
    (c.remove key version).1.Stores x ↔ c.Stores x ∧ ¬ (x.key = key ∧ x.version = version) := by
  obtain ⟨sound', find⟩ := sound.remove key version
  rw [sound'.stores_iff_find?, sound.stores_iff_find?, find]
  split
  next here => simp [here]
  next elsewhere => exact (and_iff_left elsewhere).symm

theorem stores_discardInvalid (sound : c.Sound) (key : String) (version : VersionId)
    (now : Millis) : (c.discardInvalid key version now).1.Stores x ↔
      c.Stores x ∧ ¬ (x.key = key ∧ x.version = version) :=
  (sound.markInvalid version now).stores_remove key version

end Sound

theorem dropSuperseded_sublist (policy : SweepPolicy) (now : Millis) (blobs : List Blob) :
    (dropSuperseded policy now blobs).Sublist blobs := by
  induction blobs with
  | nil => exact .slnil
  | cons b rest ih =>
    rw [dropSuperseded]
    split
    next => exact ih.cons b
    next => exact ih.cons_cons b

theorem last_complete_cons : ((o :: blobs).filter Blob.isComplete).getLast? = some b ↔
    (blobs.filter Blob.isComplete).getLast? = some b ∨
      o = b ∧ o.isComplete = true ∧ blobs.any Blob.isComplete = false := by
  have none : blobs.any Blob.isComplete = false ↔ blobs.filter Blob.isComplete = [] := by
    simp [List.any_eq_false, List.filter_eq_nil_iff]
  rw [none]
  cases complete : o.isComplete with
  | false => simp [complete]
  | true =>
    rw [List.filter_cons_of_pos complete]
    cases later : blobs.filter Blob.isComplete with
    | nil => simp
    | cons second others => simp [List.getLast?_cons_cons]

theorem mem_dropSuperseded : b ∈ dropSuperseded policy now blobs ↔
    b ∈ blobs ∧ (b.isComplete = false ∨ now - b.validity.start ≤ policy.supersedeAfter ∨
      (blobs.filter Blob.isComplete).getLast? = some b) := by
  induction blobs with
  | nil => simp [dropSuperseded]
  | cons first rest ih =>
    have listed (last : (rest.filter Blob.isComplete).getLast? = some b) : b ∈ rest :=
      List.mem_of_mem_filter (List.mem_of_getLast? last)
    have stays {p q r s : Prop} : p ∨ q ∨ r → p ∨ q ∨ r ∨ s := .imp_right (.imp_right .inl)
    rw [dropSuperseded, last_complete_cons, List.mem_cons]
    split
    next superseded =>
      simp only [Bool.and_eq_true, decide_eq_true_eq] at superseded
      obtain ⟨⟨complete, followed⟩, old⟩ := superseded
      rw [ih]
      constructor
      · exact fun ⟨here, why⟩ => ⟨.inr here, stays why⟩
      · rintro ⟨here, incomplete | young | last | ⟨_, _, alone⟩⟩
        · exact ⟨here.resolve_left (by rintro rfl; simp [complete] at incomplete), .inl incomplete⟩
        · exact ⟨here.resolve_left (by rintro rfl; exact Nat.not_lt.mpr young old),
            .inr (.inl young)⟩
        · exact ⟨listed last, .inr (.inr last)⟩
        · simp [followed] at alone
    next kept =>
      rw [List.mem_cons, ih]
      constructor
      · rintro (rfl | ⟨here, why⟩)
        · refine ⟨.inl rfl, ?_⟩
          simp only [Bool.and_eq_true, decide_eq_true_eq, not_and, Nat.not_lt] at kept
          cases complete : b.isComplete with
          | false => exact .inl rfl
          | true =>
            cases followed : rest.any Blob.isComplete with
            | true => exact .inr (.inl (kept ⟨complete, followed⟩))
            | false => exact .inr (.inr (.inr ⟨rfl, rfl, rfl⟩))
        · exact ⟨.inr here, stays why⟩
      · rintro ⟨here, incomplete | young | last | ⟨same, _⟩⟩
        · exact here.imp_right fun here => ⟨here, .inl incomplete⟩
        · exact here.imp_right fun here => ⟨here, .inr (.inl young)⟩
        · exact .inr ⟨listed last, .inr (.inr last)⟩
        · exact .inl same.symm

theorem swept_sublist (policy : SweepPolicy) (now : Millis) (blobs : List Blob) :
    (swept policy now blobs).Sublist blobs :=
  (dropSuperseded_sublist policy now _).trans List.filter_sublist

theorem mem_retained :
    b ∈ retained policy now blobs ↔ b ∈ blobs ∧ sweepReason? policy now b = none := by
  simp [retained]

/-- What stays after a sweep: blobs without a reason of their own to leave, unless they are superseded. -/
theorem mem_swept : b ∈ swept policy now blobs ↔
    (b ∈ blobs ∧ sweepReason? policy now b = none) ∧
      (b.isComplete = false ∨ now - b.validity.start ≤ policy.supersedeAfter ∨
        ((retained policy now blobs).filter Blob.isComplete).getLast? = some b) := by
  rw [swept, mem_dropSuperseded, mem_retained]

theorem versions_sweep (c : Cache) (now : Millis) (policy : SweepPolicy) (k : String) :
    (c.sweep now policy).1.versions k = swept policy now (c.versions k) := by
  show (((c.lists.map fun _ blobs => swept policy now blobs).filter
    fun _ blobs => !blobs.isEmpty).get? k).getD [] = _
  rw [Table.get?_filter, Table.get?_map, versions]
  cases c.lists.get? k with
  | none => rfl
  | some blobs =>
    rw [Option.map_some, Option.getD_some, Option.filter_some]
    cases swept policy now blobs <;> rfl

theorem Sound.sweep (sound : c.Sound) (now : Millis) (policy : SweepPolicy) :
    (c.sweep now policy).1.Sound := by
  refine sound.narrow rfl (fun k x listed => ?_) fun k => ?_
  · rw [versions_sweep] at listed
    exact (swept_sublist policy now _).subset listed
  · rw [versions_sweep]
    exact (sound.distinct k).sublist ((swept_sublist policy now _).map _)

/-! ### Answers -/

theorem mem_of_best? (found : best? blobs = some b) : b ∈ blobs := by
  cases blobs with
  | nil => contradiction
  | cons first rest =>
    obtain rfl := Option.some.inj found
    have chosen (best : Blob) : rest.foldl (fun best o => if o.ranksBelow best then best else o)
        best ∈ best :: rest := by
      clear found
      induction rest generalizing best with
      | nil => exact List.mem_cons_self
      | cons o rest ih =>
        rw [List.foldl_cons]
        split
        next => exact List.mem_cons.mpr ((List.mem_cons.mp (ih best)).imp id (List.mem_cons_of_mem o))
        next => exact List.mem_cons_of_mem _ (ih o)
    exact chosen first

theorem isSome_best? : (best? blobs).isSome = true ↔ ∃ b, b ∈ blobs := by
  cases blobs with
  | nil => simp [best?]
  | cons first rest => simp [best?]

theorem mem_matching {constraints : Constraints} (found : b ∈ matching blobs constraints) :
    b ∈ blobs ∧ b.isComplete = true := by
  obtain ⟨listed, fits⟩ := List.mem_filter.mp found
  exact ⟨listed, (Bool.and_eq_true_iff.mp fits).1⟩

theorem of_lookupBest {constraints : Constraints} (found : c.lookupBest key constraints = some b) :
    b ∈ c.versions key ∧ b.isComplete = true :=
  mem_matching (mem_of_best? found)

theorem of_findAll {listing : Listing} (reported : b ∈ c.findAll listing) :
    c.Stores b ∧ b.isComplete = true := by
  have found : b ∈ (c.lists.entries.filter fun e => listing.pattern.accepts e.1).flatMap fun e =>
      if listing.latestOnly then (best? (matching e.2 listing.constraints)).toList
      else matching e.2 listing.constraints := by
    simp only [findAll] at reported
    split at reported
    next => exact List.mem_mergeSort.mp reported
    next => exact List.mem_mergeSort.mp (List.mem_of_mem_take reported)
  obtain ⟨e, entry, here⟩ := List.mem_flatMap.mp found
  have matched : b ∈ matching e.2 listing.constraints := by
    split at here
    next => exact mem_of_best? (Option.mem_toList.mp here)
    next => exact here
  obtain ⟨listed, complete⟩ := mem_matching matched
  exact ⟨⟨e.1, mem_versions.mpr ⟨e.2, List.mem_of_mem_filter entry, listed⟩⟩, complete⟩

end BlobReplica.Cache
