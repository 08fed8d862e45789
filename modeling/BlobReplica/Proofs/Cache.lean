import BlobReplica.Cache
import BlobReplica.Proofs.Table
import Mathlib.Data.List.Nodup
import Mathlib.Data.List.Perm.Subperm

/-! What the cache holds, looked up by key and version. Every stored blob has a number of its own,
so a changed blob replaces its former state and nothing else. -/

namespace BlobReplica.Cache

namespace Marks

variable {marks : Marks} {versions : List VersionId} {v w : VersionId} {now : Millis}

/-- At most one mark for each of these versions and none for others. -/
structure Within (marks : Marks) (versions : List VersionId) : Prop where
  distinct : (marks.map (·.1)).Nodup
  known : ∀ m ∈ marks, m.1 ∈ versions

theorem within_nil (versions : List VersionId) : Within [] versions where
  distinct := List.nodup_nil
  known := by simp

theorem Within.length_le (within : marks.Within versions) : marks.length ≤ versions.length := by
  have subset : marks.map (·.1) ⊆ versions := by
    intro v listed
    obtain ⟨m, member, rfl⟩ := List.mem_map.mp listed
    exact within.known m member
  have count := (List.Nodup.subperm within.distinct subset).length_le
  rwa [List.length_map] at count

theorem Within.replace (within : marks.Within versions) (known : v ∈ versions) (now : Millis) :
    Within (marks.filter (·.1 != v) ++ [(v, now)]) versions where
  distinct := by
    rw [List.map_append, List.nodup_append]
    refine ⟨within.distinct.sublist (List.filter_sublist.map _), List.nodup_singleton _, ?_⟩
    intro a old b new same
    obtain ⟨m, kept, rfl⟩ := List.mem_map.mp old
    have other := (List.mem_filter.mp kept).2
    rw [List.map_singleton, List.mem_singleton] at new
    simp [same, new] at other
  known m member := by
    rcases List.mem_append.mp member with kept | new
    · exact within.known m (List.mem_of_mem_filter kept)
    · rw [List.mem_singleton.mp new]
      exact known

theorem contains_replace (marks : Marks) (v : VersionId) (now : Millis) :
    contains (marks.filter (·.1 != v) ++ [(v, now)]) w = true ↔ marks.contains w = true ∨ w = v := by
  simp only [contains, List.any_eq_true, beq_iff_eq, List.mem_append, List.mem_filter, bne_iff_ne,
    List.mem_singleton]
  constructor
  · rintro ⟨m, ⟨member, _⟩ | rfl, rfl⟩
    · exact .inl ⟨m, member, rfl⟩
    · exact .inr rfl
  · rintro (⟨m, member, rfl⟩ | rfl)
    · by_cases same : m.1 = v
      · exact ⟨(v, now), .inr rfl, same.symm⟩
      · exact ⟨m, .inl ⟨member, same⟩, rfl⟩
    · exact ⟨(w, now), .inr rfl, rfl⟩

/-- Marks of no more versions than are held drive none out. -/
theorem Within.add (within : marks.Within versions) (room : versions.length ≤ bound)
    (known : v ∈ versions) (now : Millis) :
    (marks.add v now).Within versions ∧
      ∀ w, (marks.add v now).contains w = true ↔ marks.contains w = true ∨ w = v := by
  have replaced := within.replace known now
  have short := Nat.le_trans replaced.length_le room
  rw [Marks.add, if_neg (Nat.not_lt.mpr short)]
  exact ⟨replaced, fun w => contains_replace marks v now⟩

end Marks

variable {c : Cache} {b x : Blob} {key k : String} {version v : VersionId}

theorem versions_setVersions (c : Cache) (key : String) (blobs : List Blob) (k : String) :
    (c.setVersions key blobs).versions k = if k = key then blobs else c.versions k := by
  simp only [versions, setVersions]
  split
  next none =>
    rw [Table.get?_erase, List.isEmpty_iff.mp none]
    split <;> rfl
  next => rw [Table.get?_insert]; split <;> rfl

theorem versions_resort (c : Cache) (key k : String) :
    (c.resort key).versions k = if k = key then sorted (c.versions key) else c.versions k := by
  rw [resort]
  split
  next absent =>
    have nothing : c.versions key = [] := by rw [versions, absent]; rfl
    split
    next same => rw [same, nothing, sorted, List.mergeSort_nil]
    next => rfl
  next blobs found =>
    have held : c.versions key = blobs := by rw [versions, found]; rfl
    rw [held, versions, Table.get?_insert]
    split <;> rfl

/-- The state that an update leaves in the place of a blob. -/
def replaced (b o : Blob) : Blob :=
  if o.copy = b.copy then b else o

theorem versions_update (c : Cache) (b : Blob) (k : String) :
    (c.update b).versions k =
      if k = b.key then (c.versions k).map (replaced b) else c.versions k := by
  rw [update]
  split
  next absent =>
    have nothing : c.versions b.key = [] := by rw [versions, absent]; rfl
    split
    next same => rw [same, nothing, List.map_nil]
    next => rfl
  next blobs found =>
    have held : c.versions b.key = blobs := by rw [versions, found]; rfl
    rw [versions, Table.get?_insert]
    split
    next same => rw [same, held]; rfl
    next => rfl

theorem copies_update (c : Cache) (b : Blob) : (c.update b).copies = c.copies := by
  rw [update]
  split <;> rfl

theorem copies_resort (c : Cache) (key : String) : (c.resort key).copies = c.copies := by
  rw [resort]
  split <;> rfl

theorem copies_remove (c : Cache) (key : String) (version : VersionId) :
    (c.remove key version).1.copies = c.copies := by
  rw [remove]
  split <;> rfl

theorem copies_discardInvalid (c : Cache) (key : String) (version : VersionId) (now : Millis) :
    (c.discardInvalid key version now).1.copies = c.copies :=
  copies_remove _ key version

theorem mem_sorted {blobs : List Blob} : b ∈ sorted blobs ↔ b ∈ blobs :=
  (List.mergeSort_perm blobs _).mem_iff

/-- Each key lists its own blobs, one for each version, and no number is given twice. -/
structure Sound (c : Cache) : Prop where
  keyed : ∀ k, ∀ b ∈ c.versions k, b.key = k
  distinct : ∀ k, ((c.versions k).map (·.version)).Nodup
  numbered : ∀ k, ∀ b ∈ c.versions k, b.copy < c.copies
  single : ∀ k, ∀ b ∈ c.versions k, ∀ k', ∀ b' ∈ c.versions k', b.copy = b'.copy → b = b'

theorem sound_empty : empty.Sound where
  keyed _ _ member := by contradiction
  distinct _ := List.nodup_nil
  numbered _ _ member := by contradiction
  single _ _ member := by contradiction

namespace Sound

theorem same_version (sound : c.Sound) (hb : b ∈ c.versions k) (hx : x ∈ c.versions k)
    (same : b.version = x.version) : b = x :=
  List.inj_on_of_nodup_map (sound.distinct k) hb hx same

theorem find?_eq_some (sound : c.Sound) :
    c.find? key version = some b ↔ b ∈ c.versions key ∧ b.version = version := by
  constructor
  · intro found
    exact ⟨List.mem_of_find?_eq_some found, by simpa using List.find?_some found⟩
  · rintro ⟨member, rfl⟩
    cases found : c.find? key b.version with
    | none =>
      have absent := List.find?_eq_none.mp found b member
      simp at absent
    | some x =>
      have named : x.version = b.version := by simpa using List.find?_some found
      rw [sound.same_version (List.mem_of_find?_eq_some found) member named]

theorem find?_eq_none : c.find? key version = none ↔ ∀ b ∈ c.versions key, b.version ≠ version := by
  simp [find?]

theorem find?_eq {c' : Cache} (sound : c.Sound) (sound' : c'.Sound)
    (same : ∀ b, b.version = version → (b ∈ c'.versions k ↔ b ∈ c.versions k)) :
    c'.find? k version = c.find? k version := by
  refine Option.ext fun b => ?_
  rw [sound.find?_eq_some, sound'.find?_eq_some]
  exact and_congr_left (same b)

theorem narrow {c' : Cache} (sound : c.Sound) (copies : c'.copies = c.copies)
    (kept : ∀ k, ∀ x ∈ c'.versions k, x ∈ c.versions k)
    (distinct : ∀ k, ((c'.versions k).map (·.version)).Nodup) : c'.Sound where
  keyed k x listed := sound.keyed k x (kept k x listed)
  distinct := distinct
  numbered k x listed := copies ▸ sound.numbered k x (kept k x listed)
  single k x hx k' y hy := sound.single k x (kept k x hx) k' y (kept k' y hy)

theorem resort (sound : c.Sound) (key : String) :
    (c.resort key).Sound ∧ ∀ k v, (c.resort key).find? k v = c.find? k v := by
  have member (k : String) (x : Blob) : x ∈ (c.resort key).versions k ↔ x ∈ c.versions k := by
    rw [versions_resort]
    split
    next same => rw [mem_sorted, same]
    next => rfl
  have sound' : (c.resort key).Sound := by
    refine sound.narrow (copies_resort c key) (fun k x => (member k x).mp) fun k => ?_
    rw [versions_resort]
    split
    next => exact ((List.mergeSort_perm _ _).map _).nodup_iff.mpr (sound.distinct key)
    next => exact sound.distinct k
  exact ⟨sound', fun k v => sound.find?_eq sound' fun x _ => member k x⟩

theorem not_mem_eraseP (sound : c.Sound) (stored : b ∈ c.versions k) (hit : b.version = v)
    (x : Blob) (listed : x ∈ (c.versions k).eraseP (·.version = v)) : x.version ≠ v := by
  intro named
  obtain ⟨y, front, rest, _, first, split, erased⟩ :=
    List.exists_of_eraseP (p := fun o : Blob => decide (o.version = v)) stored (by simpa using hit)
  have distinct := sound.distinct k
  rw [split, List.map_append, List.map_cons, List.nodup_middle, ← List.map_append,
    ← erased] at distinct
  have same : y.version = x.version := named ▸ by simpa using first
  exact (List.nodup_cons.mp distinct).1 (same ▸ List.mem_map_of_mem listed)

theorem remove (sound : c.Sound) (key : String) (version : VersionId) :
    (c.remove key version).1.Sound ∧ ∀ k v, (c.remove key version).1.find? k v =
      if k = key ∧ v = version then none else c.find? k v := by
  rw [Cache.remove]
  split
  next absent =>
    refine ⟨sound, fun k v => ?_⟩
    split
    next here => rw [here.1, here.2, absent]
    next => rfl
  next old found =>
    obtain ⟨stored, hit⟩ := sound.find?_eq_some.mp found
    let left := (c.versions key).eraseP (·.version = version)
    have list (k : String) : (c.setVersions key left).versions k =
        if k = key then left else c.versions k :=
      versions_setVersions _ _ _ _
    have kept (k : String) (x : Blob) (listed : x ∈ (c.setVersions key left).versions k) :
        x ∈ c.versions k := by
      rw [list] at listed
      split at listed
      next same => exact same ▸ List.mem_of_mem_eraseP listed
      next => exact listed
    have sound' : (c.setVersions key left).Sound := by
      refine sound.narrow rfl kept fun k => ?_
      rw [list]
      split
      next => exact (sound.distinct key).sublist (List.eraseP_sublist.map _)
      next => exact sound.distinct k
    refine ⟨sound', fun k v => ?_⟩
    split
    next here =>
      obtain ⟨rfl, rfl⟩ := here
      refine find?_eq_none.mpr fun x listed => ?_
      rw [list, if_pos rfl] at listed
      exact sound.not_mem_eraseP stored hit x listed
    next elsewhere =>
      refine sound.find?_eq sound' fun x named => ⟨kept k x, fun listed => ?_⟩
      rw [list]
      split
      next same =>
        refine (List.mem_eraseP_of_neg ?_).mpr (same ▸ listed)
        simpa using fun version => elsewhere ⟨same, named.symm.trans version⟩
      next => exact listed

end Sound

/-- A cache has what another one has, except for a blob under the key and version of that blob. -/
structure Places (c : Cache) (b : Blob) (c' : Cache) : Prop where
  mem_iff : ∀ k x, x ∈ c'.versions k ↔
    (x ∈ c.versions k ∧ ¬ (k = b.key ∧ x.version = b.version)) ∨ (k = b.key ∧ x = b)
  distinct : ∀ k, ((c'.versions k).map (·.version)).Nodup
  grown : c.copies ≤ c'.copies
  numbered : b.copy < c'.copies
  own : ∀ k, ∀ x ∈ c.versions k, x.copy = b.copy → k = b.key ∧ x.version = b.version

theorem Places.sound {c' : Cache} (places : c.Places b c') (sound : c.Sound) : c'.Sound where
  keyed k x listed := by
    rcases (places.mem_iff k x).mp listed with ⟨listed, _⟩ | ⟨rfl, rfl⟩
    · exact sound.keyed k x listed
    · rfl
  distinct := places.distinct
  numbered k x listed := by
    rcases (places.mem_iff k x).mp listed with ⟨listed, _⟩ | ⟨_, rfl⟩
    · exact Nat.lt_of_lt_of_le (sound.numbered k x listed) places.grown
    · exact places.numbered
  single k x hx k' y hy same := by
    rcases (places.mem_iff k x).mp hx with ⟨hx, other⟩ | ⟨_, rfl⟩ <;>
      rcases (places.mem_iff k' y).mp hy with ⟨hy, other'⟩ | ⟨_, rfl⟩
    · exact sound.single k x hx k' y hy same
    · exact absurd (places.own k x hx same) other
    · exact absurd (places.own k' y hy same.symm) other'
    · rfl

theorem Places.find? {c' : Cache} (places : c.Places b c') (sound : c.Sound) (k : String)
    (v : VersionId) :
    c'.find? k v = if k = b.key ∧ v = b.version then some b else c.find? k v := by
  have sound' := places.sound sound
  split
  next here =>
    obtain ⟨rfl, rfl⟩ := here
    exact sound'.find?_eq_some.mpr ⟨(places.mem_iff _ _).mpr (.inr ⟨rfl, rfl⟩), rfl⟩
  next elsewhere =>
    refine sound.find?_eq sound' fun x named => ?_
    rw [places.mem_iff]
    constructor
    · rintro (⟨listed, _⟩ | ⟨rfl, rfl⟩)
      · exact listed
      · exact absurd ⟨rfl, named.symm⟩ elsewhere
    · exact fun listed => .inl ⟨listed, fun here => elsewhere ⟨here.1, named.symm.trans here.2⟩⟩

/-- A blob with the next number, put in order among the versions of its key. -/
theorem places_sorted (sound : c.Sound) (absent : c.find? b.key b.version = none)
    (next : b.copy = c.copies) :
    c.Places b ({ c with copies := c.copies + 1 }.setVersions b.key
      (sorted (c.versions b.key ++ [b]))) where
  mem_iff k x := by
    have fresh (hx : x ∈ c.versions b.key) : x.version ≠ b.version :=
      Sound.find?_eq_none.mp absent x hx
    rw [versions_setVersions]
    split
    next same =>
      subst same
      simp only [mem_sorted, List.mem_append, List.mem_singleton, true_and]
      exact or_congr_left (iff_self_and.mpr fresh)
    next other => simp [other, versions]
  distinct k := by
    rw [versions_setVersions]
    split
    next =>
      have order := (List.mergeSort_perm (c.versions b.key ++ [b]) Blob.comesBefore).map (·.version)
      refine order.nodup_iff.mpr ?_
      rw [List.map_append, List.nodup_append]
      refine ⟨sound.distinct b.key, List.nodup_singleton _, ?_⟩
      intro v old w new same
      obtain ⟨x, listed, rfl⟩ := List.mem_map.mp old
      rw [List.map_singleton, List.mem_singleton] at new
      exact Sound.find?_eq_none.mp absent x listed (same.trans new)
    next => exact sound.distinct k
  grown := Nat.le_succ c.copies
  numbered := next ▸ Nat.lt_succ_self c.copies
  own k x hx same := absurd (same.trans next) (Nat.ne_of_lt (sound.numbered k x hx))

theorem places_update (sound : c.Sound) {old : Blob} (found : c.find? b.key b.version = some old)
    (copy : old.copy = b.copy) : c.Places b (c.update b) := by
  obtain ⟨stored, named⟩ := sound.find?_eq_some.mp found
  have copies := copies_update c b
  have former {k : String} {x : Blob} (hx : x ∈ c.versions k) (same : x.copy = b.copy) : x = old :=
    sound.single k x hx _ old stored (same.trans copy.symm)
  -- The number of the blob is its place: it belongs to no other key and to no other version.
  have place {x : Blob} (hx : x ∈ c.versions b.key) :
      x.copy = b.copy ↔ x.version = b.version := by
    constructor
    · intro same
      rw [former hx same, named]
    · intro same
      rw [sound.same_version hx stored (same.trans named.symm), copy]
  refine ⟨fun k x => ?_, fun k => ?_, Nat.le_of_eq copies.symm, ?_, fun k x hx same => ?_⟩
  · rw [versions_update]
    split
    next same =>
      subst same
      simp only [List.mem_map, replaced, true_and]
      constructor
      · rintro ⟨o, listed, rfl⟩
        split
        next => exact .inr rfl
        next other => exact .inl ⟨listed, fun same => other ((place listed).mpr same)⟩
      · rintro (⟨listed, other⟩ | rfl)
        · exact ⟨x, listed, if_neg fun same => other ((place listed).mp same)⟩
        · exact ⟨old, stored, if_pos copy⟩
    next other => simp [other]
  · have versions : ((c.update b).versions k).map (·.version) = (c.versions k).map (·.version) := by
      rw [versions_update]
      split
      next here =>
        subst here
        rw [List.map_map]
        refine List.map_congr_left fun x hx => ?_
        simp only [Function.comp_apply, replaced]
        split
        next same => exact ((place hx).mp same).symm
        next => rfl
      next => rfl
    rw [versions]
    exact sound.distinct k
  · exact copies ▸ copy ▸ sound.numbered _ old stored
  · obtain rfl := former hx same
    exact ⟨(sound.keyed k x hx).symm.trans (sound.keyed _ x stored), named⟩

namespace Sound

theorem insert (sound : c.Sound) (absent : c.find? b.key b.version = none)
    (unmarked : c.isInvalid b.version = false) :
    ∃ c', c.insert b = .ok (c', { b with copy := c.copies }, true) ∧ c'.Sound ∧
      c'.marks = c.marks ∧
      ∀ k v, c'.find? k v =
        if k = b.key ∧ v = b.version then some { b with copy := c.copies } else c.find? k v := by
  have places : c.Places { b with copy := c.copies } _ := places_sorted sound absent rfl
  refine ⟨_, ?_, places.sound sound, rfl, places.find? sound⟩
  rw [Cache.insert, absent]
  simp only [unmarked]
  rfl

theorem update (sound : c.Sound) {old : Blob} (found : c.find? b.key b.version = some old)
    (copy : old.copy = b.copy) :
    (c.update b).Sound ∧ ∀ k v, (c.update b).find? k v =
      if k = b.key ∧ v = b.version then some b else c.find? k v :=
  have places := places_update sound found copy
  ⟨places.sound sound, places.find? sound⟩

theorem markInvalid (sound : c.Sound) (version : VersionId) (now : Millis) :
    (c.markInvalid version now).Sound :=
  ⟨sound.keyed, sound.distinct, sound.numbered, sound.single⟩

theorem discardInvalid (sound : c.Sound) (key : String) (version : VersionId) (now : Millis) :
    (c.discardInvalid key version now).1.Sound ∧
      ∀ k v, (c.discardInvalid key version now).1.find? k v =
        if k = key ∧ v = version then none else c.find? k v :=
  (sound.markInvalid version now).remove key version

end Sound

theorem marks_update (c : Cache) (b : Blob) : (c.update b).marks = c.marks := by
  rw [update]
  split <;> rfl

theorem marks_resort (c : Cache) (key : String) : (c.resort key).marks = c.marks := by
  rw [resort]
  split <;> rfl

theorem marks_remove (c : Cache) (key : String) (version : VersionId) :
    (c.remove key version).1.marks = c.marks := by
  rw [remove]
  split <;> rfl

theorem marks_discardInvalid (c : Cache) (key : String) (version : VersionId) (now : Millis) :
    (c.discardInvalid key version now).1.marks = c.marks.add version now :=
  marks_remove _ key version

end BlobReplica.Cache
