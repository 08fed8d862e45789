import BlobReplica.Table
import Mathlib.Algebra.Ring.Nat
import Mathlib.Data.List.Find
import Mathlib.Data.List.Induction
import Mathlib.Data.List.Nodup

/-! Tables as functions: what looking up a name gives after a change. -/

namespace BlobReplica.Table

variable {α β : Type} {t : Table α} {name other : String} {value : α}

theorem put_last {entries : List (String × α)} (after : ∀ e ∈ entries, e.1 < name) :
    put name value entries = entries ++ [(name, value)] := by
  induction entries with
  | nil => rfl
  | cons e rest ih =>
    have before := after e List.mem_cons_self
    have notBefore : ¬ name < e.1 := String.lt_asymm before
    have different : name ≠ e.1 := fun same => String.lt_irrefl _ (same ▸ before)
    rw [put, if_neg notBefore, if_neg different, ih fun x hx => after x (List.mem_cons_of_mem _ hx)]
    rfl

theorem entries_insert_last (after : ∀ e ∈ t.entries, e.1 < name) :
    (t.insert name value).entries = t.entries ++ [(name, value)] :=
  put_last after

section Find

variable {entries : List (String × α)} (accepts : String → Bool)

theorem find?_put_accepted (accepted : accepts name = true)
    (first : ∀ e, entries.find? (fun e => accepts e.1) = some e → e.1 = name) :
    (put name value entries).find? (fun e => accepts e.1) = some (name, value) := by
  induction entries with
  | nil => simp [put, accepted]
  | cons e rest ih =>
    obtain ⟨k, v⟩ := e
    simp only [put]
    split
    next => simp [accepted]
    next =>
      split
      next => simp [accepted]
      next different =>
        have passed : accepts k = false := by
          refine Bool.eq_false_iff.mpr fun here => different ?_
          exact (first (k, v) (by simp [here])).symm
        rw [List.find?_cons_of_neg (by simp [passed])]
        exact ih fun e found => first e (by rw [List.find?_cons_of_neg (by simp [passed]), found])

theorem filter_put_refused (refused : accepts name = false) :
    (put name value entries).filter (fun e => accepts e.1) = entries.filter fun e => accepts e.1 := by
  induction entries with
  | nil => simp [put, refused]
  | cons e rest ih =>
    obtain ⟨k, v⟩ := e
    simp only [put]
    split
    next => rw [List.filter_cons_of_neg (by simp [refused])]
    next =>
      split
      next same =>
        subst same
        rw [List.filter_cons_of_neg (by simp [refused]), List.filter_cons_of_neg (by simp [refused])]
      next => rw [List.filter_cons, List.filter_cons, ih]

theorem find?_put_refused (refused : accepts name = false) :
    (put name value entries).find? (fun e => accepts e.1) =
      entries.find? fun e => accepts e.1 := by
  rw [← List.head?_filter, filter_put_refused accepts refused, List.head?_filter]

theorem find?_put : (put name value entries).find? (·.1 == other) =
    if other = name then some (name, value) else entries.find? (·.1 == other) := by
  split
  next same =>
    refine find?_put_accepted (· == other) (by simp [same]) fun e found => ?_
    have named := List.find?_some found
    simpa [same] using named
  next different =>
    exact find?_put_refused (· == other) (by simpa using Ne.symm different)

end Find

theorem unique {x y : String × α} (hx : x ∈ t.entries) (hy : y ∈ t.entries) (same : x.1 = y.1) :
    x = y := by
  have distinct : (t.entries.map (·.1)).Nodup :=
    List.pairwise_map.mpr (t.ascending.imp fun below => String.ne_of_lt below)
  exact List.inj_on_of_nodup_map distinct hx hy same

theorem mem_insert {e : String × α} (listed : e ∈ (t.insert name value).entries) :
    e = (name, value) ∨ (e ∈ t.entries ∧ e.1 ≠ name) := by
  by_cases named : e.1 = name
  · have found : (t.insert name value).entries.find? (·.1 == name) = some (name, value) := by
      rw [insert, find?_put, if_pos rfl]
    exact .inl (unique listed (List.mem_of_find?_eq_some found) named)
  · exact .inr ⟨(put_names listed).resolve_left named, named⟩

theorem get?_insert :
    (t.insert name value).get? other = if other = name then some value else t.get? other := by
  rw [get?, insert, find?_put]
  split <;> rfl

theorem get?_erase : (t.erase name).get? other = if other = name then none else t.get? other := by
  simp only [get?, erase, filter, List.find?_filter]
  split
  next same =>
    subst same
    rw [List.find?_eq_none.mpr, Option.map_none]
    simp
  next different =>
    congr 1
    refine List.find?_congr fun e _ => ?_
    by_cases here : e.1 = other
    · simp [here, different]
    · simp [here]

theorem get?_eq_some : t.get? name = some value ↔ (name, value) ∈ t.entries := by
  rw [get?, Option.map_eq_some_iff]
  constructor
  · rintro ⟨⟨k, v⟩, found, rfl⟩
    have named : k = name := by simpa using List.find?_some found
    exact named ▸ List.mem_of_find?_eq_some found
  · intro listed
    cases found : t.entries.find? (·.1 == name) with
    | none => simpa using List.find?_eq_none.mp found _ listed
    | some e =>
      have named : e.1 = name := by simpa using List.find?_some found
      exact ⟨e, rfl, by rw [unique (List.mem_of_find?_eq_some found) listed named]⟩

theorem put_self {entries : List (String × α)} (ascending : entries.Pairwise fun a b => a.1 < b.1)
    (listed : (name, value) ∈ entries) : put name value entries = entries := by
  induction entries with
  | nil => contradiction
  | cons e rest ih =>
    obtain ⟨first, tail⟩ := List.pairwise_cons.mp ascending
    rcases List.mem_cons.mp listed with rfl | listed
    · rw [put, if_neg (String.lt_irrefl _), if_pos rfl]
    · have below : e.1 < name := first _ listed
      have different : name ≠ e.1 := fun same => String.lt_irrefl _ (same ▸ below)
      rw [put, if_neg (String.lt_asymm below), if_neg different, ih tail listed]

theorem insert_self (found : t.get? name = some value) : t.insert name value = t :=
  ext_entries (put_self t.ascending (get?_eq_some.mp found))

theorem get?_map (t : Table α) (f : String → α → β) (name : String) :
    (t.map f).get? name = (t.get? name).map (f name) := by
  refine Option.ext fun value => ?_
  rw [get?_eq_some, Option.map_eq_some_iff, map, List.mem_map]
  constructor
  · rintro ⟨e, listed, same⟩
    obtain ⟨rfl, rfl⟩ := Prod.mk.inj same
    exact ⟨e.2, get?_eq_some.mpr listed, rfl⟩
  · rintro ⟨v, found, rfl⟩
    exact ⟨(name, v), get?_eq_some.mp found, rfl⟩

theorem get?_filter (t : Table α) (keep : String → α → Bool) (name : String) :
    (t.filter keep).get? name = (t.get? name).filter (keep name) := by
  refine Option.ext fun value => ?_
  rw [get?_eq_some, Option.filter_eq_some_iff, get?_eq_some, filter, List.mem_filter]

theorem ext_get? {t' : Table α} (same : ∀ name, t.get? name = t'.get? name) : t = t' := by
  have distinct (t : Table α) : t.entries.Nodup := by
    refine t.ascending.imp fun {x y} below => ?_
    rintro rfl
    exact String.lt_irrefl _ below
  have listed (e : String × α) : e ∈ t.entries ↔ e ∈ t'.entries := by
    rw [← get?_eq_some, ← get?_eq_some, same]
  have perm := (List.perm_ext_iff_of_nodup (distinct t) (distinct t')).mpr listed
  refine ext_entries (perm.eq_of_pairwise ?_ t.ascending t'.ascending)
  intro x y _ _ below above
  exact absurd above (String.lt_asymm below)

theorem insert_insert (t : Table α) (name : String) (v w : α) :
    (t.insert name v).insert name w = t.insert name w := by
  apply ext_get?
  intro other
  rw [get?_insert, get?_insert, get?_insert]
  split <;> rfl

theorem erase_insert (absent : t.get? name = none) (v : α) : (t.insert name v).erase name = t := by
  apply ext_get?
  intro other
  rw [get?_erase, get?_insert]
  split
  next same => rw [same, absent]
  next => rfl

theorem mem_names : name ∈ t.names ↔ t.get? name ≠ none := by
  rw [names, List.mem_map, ne_eq, Option.eq_none_iff_forall_ne_some, not_forall]
  constructor
  · rintro ⟨e, listed, rfl⟩
    exact ⟨e.2, not_not.mpr (get?_eq_some.mpr listed)⟩
  · rintro ⟨v, found⟩
    exact ⟨(name, v), get?_eq_some.mp (not_not.mp found), rfl⟩

theorem names_eq {t' : Table β} (same : ∀ name, name ∈ t.names ↔ name ∈ t'.names) :
    t.names = t'.names := by
  have ordered {γ : Type} (t : Table γ) : t.names.Pairwise (· < ·) :=
    List.pairwise_map.mpr t.ascending
  have distinct {γ : Type} (t : Table γ) : t.names.Nodup :=
    (ordered t).imp fun below => String.ne_of_lt below
  have perm := (List.perm_ext_iff_of_nodup (distinct t) (distinct t')).mpr same
  refine perm.eq_of_pairwise ?_ (ordered t) (ordered t')
  intro x y _ _ below above
  exact absurd above (String.lt_asymm below)

theorem ofList_concat (pairs : List (String × α)) (p : String × α) :
    ofList (pairs ++ [p]) = (ofList pairs).insert p.1 p.2 := by
  rw [ofList, List.foldl_append]
  rfl

/-- Of the pairs with one name the last one is entered. -/
theorem get?_ofList (pairs : List (String × α)) (name : String) :
    (ofList pairs).get? name = (pairs.reverse.find? (·.1 == name)).map (·.2) := by
  induction pairs using List.reverseRecOn with
  | nil => rfl
  | append_singleton pairs p ih =>
    rw [ofList_concat, get?_insert, List.reverse_append, List.reverse_singleton, List.singleton_append,
      List.find?_cons, ih]
    by_cases same : name = p.1
    · simp [same]
    · simp [same, beq_false_of_ne (Ne.symm same)]

theorem exists_of_given {pairs : List (String × α)} (given : (name, value) ∈ pairs) :
    ∃ v, (name, v) ∈ (ofList pairs).entries := by
  cases found : (ofList pairs).get? name with
  | some v => exact ⟨v, get?_eq_some.mp found⟩
  | none =>
    rw [get?_ofList, Option.map_eq_none_iff] at found
    simpa using List.find?_eq_none.mp found _ (List.mem_reverse.mpr given)

theorem ofList_entries (t : Table α) : ofList t.entries = t := by
  apply ext_get?
  intro name
  rw [get?_ofList]
  cases found : t.entries.reverse.find? (·.1 == name) with
  | none =>
    have absent : t.entries.find? (·.1 == name) = none := by
      simpa using List.find?_eq_none.mp found
    rw [get?, absent]
  | some e =>
    have named : e.1 = name := by simpa using List.find?_some found
    have listed := List.mem_reverse.mp (List.mem_of_find?_eq_some found)
    exact (get?_eq_some.mpr (named ▸ listed)).symm

theorem mem_of_mem_ofList {pairs : List (String × α)} {e : String × α}
    (listed : e ∈ (ofList pairs).entries) : e ∈ pairs := by
  induction pairs using List.reverseRecOn with
  | nil => contradiction
  | append_singleton pairs p ih =>
    rw [ofList_concat] at listed
    rcases mem_insert listed with rfl | ⟨listed, _⟩
    · simp
    · exact List.mem_append_left _ (ih listed)

/-- What an entry adds to a sum, and what the entry in its place no longer does. -/
theorem sum_put (f : α → Nat) {entries : List (String × α)}
    (ascending : entries.Pairwise fun a b => a.1 < b.1) :
    ((put name value entries).map fun e => f e.2).sum +
        ((entries.find? (·.1 == name)).map fun e => f e.2).getD 0 =
      (entries.map fun e => f e.2).sum + f value := by
  induction entries with
  | nil => simp [put]
  | cons e rest ih =>
    obtain ⟨first, tail⟩ := List.pairwise_cons.mp ascending
    rw [put]
    split
    next before =>
      have absent : (e :: rest).find? (·.1 == name) = none := by
        refine List.find?_eq_none.mpr fun x member => ?_
        have after : name < x.1 := by
          rcases List.mem_cons.mp member with rfl | later
          · exact before
          · exact String.lt_trans before (first x later)
        simpa using fun same : x.1 = name => String.lt_irrefl _ (same ▸ after)
      rw [absent]
      simp [Nat.add_comm]
    next =>
      split
      next same =>
        have found : (e :: rest).find? (·.1 == name) = some e := by simp [same]
        rw [found]
        simp only [List.map_cons, List.sum_cons, Option.map_some, Option.getD_some]
        omega
      next other =>
        have passed : (e :: rest).find? (·.1 == name) = rest.find? (·.1 == name) :=
          List.find?_cons_of_neg (by simpa using Ne.symm other)
        rw [passed, List.map_cons, List.sum_cons, List.map_cons, List.sum_cons]
        have rested := ih tail
        simp only at rested ⊢
        omega

theorem sum_insert (f : α → Nat) (t : Table α) (name : String) (value : α) :
    ((t.insert name value).entries.map fun e => f e.2).sum + ((t.get? name).map f).getD 0 =
      (t.entries.map fun e => f e.2).sum + f value := by
  rw [get?, Option.map_map]
  exact sum_put f t.ascending

end BlobReplica.Table
