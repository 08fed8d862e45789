/-! Finite maps from names to values, kept as entries in strictly ascending order of their names,
so that two tables with the same entries are equal. -/

namespace BlobReplica

/-- Entries in strictly ascending order of their names. -/
structure Table (α : Type) where
  entries : List (String × α) := []
  ascending : entries.Pairwise (fun a b => a.1 < b.1) := by exact List.Pairwise.nil

namespace Table

variable {α β : Type}

instance : Inhabited (Table α) := ⟨{}⟩

instance [DecidableEq α] : DecidableEq (Table α) := fun a b =>
  if h : a.entries = b.entries then
    isTrue (by cases a; cases b; simp_all)
  else isFalse fun same => h (by rw [same])

theorem ext_entries {a b : Table α} (h : a.entries = b.entries) : a = b := by
  cases a; cases b; simp_all

def empty : Table α := {}

/-- Puts an entry at its place among ascending entries, over one of the same name. -/
def put (name : String) (value : α) : List (String × α) → List (String × α)
  | [] => [(name, value)]
  | (k, v) :: rest =>
    if name < k then (name, value) :: (k, v) :: rest
    else if name = k then (name, value) :: rest
    else (k, v) :: put name value rest

theorem put_names {name : String} {value : α} {entries : List (String × α)} {k : String × α}
    (h : k ∈ put name value entries) : k.1 = name ∨ k ∈ entries := by
  induction entries with
  | nil => simp_all [put]
  | cons e rest ih =>
    obtain ⟨key, v⟩ := e
    simp only [put] at h
    split at h
    · rcases List.mem_cons.mp h with rfl | h
      · exact .inl rfl
      · exact .inr h
    · split at h
      · rcases List.mem_cons.mp h with rfl | h
        · exact .inl rfl
        · exact .inr (List.mem_cons_of_mem _ h)
      · rcases List.mem_cons.mp h with rfl | h
        · exact .inr (List.mem_cons_self ..)
        · exact (ih h).imp id (List.mem_cons_of_mem _)

theorem put_ascending {name : String} {value : α} {entries : List (String × α)}
    (h : entries.Pairwise (fun a b => a.1 < b.1)) :
    (put name value entries).Pairwise (fun a b => a.1 < b.1) := by
  induction entries with
  | nil => simp [put]
  | cons e rest ih =>
    obtain ⟨k, v⟩ := e
    have tail := List.pairwise_cons.mp h
    simp only [put]
    split
    next below =>
      refine List.pairwise_cons.mpr ⟨fun x hx => ?_, h⟩
      rcases List.mem_cons.mp hx with rfl | hx
      · exact below
      · exact String.lt_trans below (tail.1 x hx)
    next notBelow =>
      split
      next same =>
        subst same
        exact List.pairwise_cons.mpr ⟨tail.1, tail.2⟩
      next other =>
        refine List.pairwise_cons.mpr ⟨fun x hx => ?_, ih tail.2⟩
        rcases put_names hx with same | hx
        · have := String.not_lt.mp notBelow
          rw [same]
          exact (String.not_le.mp fun above => other (String.le_antisymm above this))
        · exact tail.1 x hx

def insert (t : Table α) (name : String) (value : α) : Table α :=
  ⟨put name value t.entries, put_ascending t.ascending⟩

def get? (t : Table α) (name : String) : Option α :=
  (t.entries.find? (·.1 == name)).map (·.2)

def filter (t : Table α) (keep : String → α → Bool) : Table α :=
  ⟨t.entries.filter (fun e => keep e.1 e.2), t.ascending.filter _⟩

def erase (t : Table α) (name : String) : Table α :=
  t.filter fun k _ => k != name

def map (t : Table α) (f : String → α → β) : Table β :=
  ⟨t.entries.map fun e => (e.1, f e.1 e.2), by
    simpa only [List.pairwise_map] using t.ascending⟩

/-- Enters the pairs one after the other; of two with one name the later stays. -/
def ofList (pairs : List (String × α)) : Table α :=
  pairs.foldl (fun t p => t.insert p.1 p.2) {}

def names (t : Table α) : List String :=
  t.entries.map (·.1)

def isEmpty (t : Table α) : Bool :=
  t.entries.isEmpty

def size (t : Table α) : Nat :=
  t.entries.length

end Table
end BlobReplica
