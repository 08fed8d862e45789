import Mathlib.Data.List.Forall2

/-! When a computation that can fail gives a result, told by what it is made of. -/

namespace BlobReplica

variable {ε ε' α β : Type} {x : Except ε α} {a : α} {b : β}

theorem bind_eq_ok {f : α → Except ε β} : (x >>= f) = .ok b ↔ ∃ a, x = .ok a ∧ f a = .ok b := by
  cases x <;> simp [bind, Except.bind]

theorem map_eq_ok {f : α → β} : x.map f = .ok b ↔ ∃ a, x = .ok a ∧ f a = b := by
  cases x <;> simp [Except.map]

theorem mapError_eq_ok {f : ε → ε'} : x.mapError f = .ok a ↔ x = .ok a := by
  cases x with
  | ok y =>
    constructor
    · exact fun same => congrArg Except.ok (Except.ok.inj same)
    · exact fun same => congrArg Except.ok (Except.ok.inj same)
  | error e => exact ⟨nofun, nofun⟩

theorem toOption_eq_some : x.toOption = some a ↔ x = .ok a := by
  cases x <;> simp [Except.toOption]

theorem exists_of_forall₂ {R : α → β → Prop} {xs : List α} {ys : List β} (paired : List.Forall₂ R xs ys)
    {x : α} (member : x ∈ xs) : ∃ y ∈ ys, R x y := by
  induction paired with
  | nil => contradiction
  | cons first _ ih =>
    rcases List.mem_cons.mp member with rfl | member
    · exact ⟨_, List.mem_cons_self, first⟩
    · obtain ⟨y, listed, related⟩ := ih member
      exact ⟨y, List.mem_cons_of_mem _ listed, related⟩

/-- A list has results if each of its elements has one, and these are in the same order. -/
theorem mapM_eq_ok {f : α → Except ε β} {xs : List α} {ys : List β} :
    xs.mapM f = .ok ys ↔ List.Forall₂ (fun x y => f x = .ok y) xs ys := by
  induction xs generalizing ys with
  | nil =>
    rw [List.mapM_nil, List.forall₂_nil_left_iff]
    exact ⟨fun same => (Except.ok.inj same).symm, fun same => same ▸ rfl⟩
  | cons x rest ih =>
    rw [List.mapM_cons, bind_eq_ok, List.forall₂_cons_left_iff]
    constructor
    · rintro ⟨y, first, mapped⟩
      obtain ⟨others, more, same⟩ := bind_eq_ok.mp mapped
      exact ⟨y, others, first, ih.mp more, (Except.ok.inj same).symm⟩
    · rintro ⟨y, others, first, more, rfl⟩
      exact ⟨y, first, bind_eq_ok.mpr ⟨others, ih.mpr more, rfl⟩⟩

theorem exists_mapM_eq_ok {f : α → Except ε β} {xs : List α} :
    (∃ ys, xs.mapM f = .ok ys) ↔ ∀ x ∈ xs, ∃ y, f x = .ok y := by
  simp only [mapM_eq_ok]
  induction xs with
  | nil => simp
  | cons x rest ih =>
    rw [List.forall_mem_cons, ← ih]
    constructor
    · rintro ⟨ys, all⟩
      obtain ⟨y, others, first, more, rfl⟩ := List.forall₂_cons_left_iff.mp all
      exact ⟨⟨y, first⟩, others, more⟩
    · rintro ⟨⟨y, first⟩, others, more⟩
      exact ⟨y :: others, .cons first more⟩

end BlobReplica
