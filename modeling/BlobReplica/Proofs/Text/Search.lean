import BlobReplica.Text.Search
import Mathlib.Data.List.Basic

/-! What leftmost search finds: the one place where the needle stands for the first time. -/

namespace BlobReplica.Text

variable {α : Type} {needle gap hay rest : List α} {x : α}

/-- Behind `gap` the needle stands for the first time. -/
def First (needle gap : List α) : Prop :=
  ∀ before behind, gap ++ needle = before ++ (needle ++ behind) → behind = []

theorem first_nil (needle : List α) : First needle [] := by
  intro before behind same
  have lengths := congrArg List.length same
  simp only [List.length_append, List.length_nil] at lengths
  exact List.length_eq_zero_iff.mp (by omega)

theorem First.tail (first : First needle (x :: gap)) : First needle gap := by
  intro before behind same
  exact first (x :: before) behind (congrArg (x :: ·) same)

theorem First.not_prefix (first : First needle (x :: gap)) (rest : List α) :
    ¬ needle <+: x :: gap ++ (needle ++ rest) := by
  intro stands
  have inside : needle <+: x :: gap ++ needle := by
    have long : needle.length ≤ (x :: gap ++ needle).length := by
      rw [List.length_append]
      exact Nat.le_add_left _ _
    refine List.prefix_of_prefix_length_le stands ?_ long
    rw [← List.append_assoc]
    exact List.prefix_append _ _
  obtain ⟨behind, same⟩ := inside
  have nothing := first [] behind same.symm
  have lengths := congrArg List.length same
  simp only [nothing, List.length_append, List.length_cons, List.length_nil] at lengths
  omega

theorem first_cons (absent : ¬ needle <+: x :: gap ++ (needle ++ rest)) (first : First needle gap) :
    First needle (x :: gap) := by
  intro before behind same
  cases before with
  | nil =>
    refine absurd ⟨behind ++ rest, ?_⟩ absent
    rw [List.nil_append] at same
    rw [← List.append_assoc, ← same]
    simp
  | cons y before =>
    exact first before behind (List.tail_eq_of_cons_eq same)

theorem first_of_free (starts : needle.head? = some x) (free : x ∉ gap) : First needle gap := by
  induction gap with
  | nil => exact first_nil needle
  | cons y gap ih =>
    rw [List.mem_cons, not_or] at free
    have absent : ¬ needle <+: y :: gap ++ (needle ++ []) := by
      rintro ⟨behind, same⟩
      obtain ⟨others, rfl⟩ := List.head?_eq_some_iff.mp starts
      exact free.1 (List.cons.inj same).1
    exact first_cons absent (ih free.2)

/-- No place of the needle leaves more behind it than the first one. -/
theorem First.suffix {gap' rest' : List α} (first : First needle gap)
    (same : gap ++ (needle ++ rest) = gap' ++ (needle ++ rest')) : rest' <:+ rest := by
  have here : rest <:+ gap ++ (needle ++ rest) := ⟨gap ++ needle, by simp⟩
  have there : rest' <:+ gap ++ (needle ++ rest) := ⟨gap' ++ needle, by simp [same]⟩
  rcases Nat.le_total rest'.length rest.length with short | long
  · exact List.suffix_of_suffix_length_le there here short
  · obtain ⟨behind, rfl⟩ := List.suffix_of_suffix_length_le here there long
    have fronts : gap ++ needle = gap' ++ (needle ++ behind) := by
      apply List.append_cancel_right
      simpa using same
    exact ⟨[], by rw [first gap' behind fronts, List.nil_append, List.nil_append]⟩

variable [BEq α] [LawfulBEq α]

theorem First.after? (first : First needle gap) (rest : List α) :
    Text.after? needle (gap ++ (needle ++ rest)) = some rest := by
  induction gap with
  | nil =>
    rw [List.nil_append]
    cases whole : needle ++ rest with
    | nil =>
      obtain ⟨rfl, rfl⟩ := List.append_eq_nil_iff.mp whole
      rfl
    | cons x others =>
      rw [Text.after?, ← whole, if_pos (by simp), List.drop_left]
  | cons x gap ih =>
    have absent := first.not_prefix rest
    rw [← List.isPrefixOf_iff_prefix, List.cons_append] at absent
    rw [List.cons_append, Text.after?, if_neg absent]
    exact ih first.tail

theorem first_of_after? (found : Text.after? needle hay = some rest) :
    ∃ gap, hay = gap ++ (needle ++ rest) ∧ First needle gap := by
  induction hay with
  | nil =>
    obtain ⟨stands, same⟩ := Option.ite_none_right_eq_some.mp found
    obtain rfl : needle = [] := by simpa using stands
    exact ⟨[], Option.some.inj same, first_nil []⟩
  | cons x hay ih =>
    rw [Text.after?] at found
    split at found
    next stands =>
      obtain ⟨behind, same⟩ := List.isPrefixOf_iff_prefix.mp stands
      rw [← same, List.drop_left] at found
      obtain rfl := Option.some.inj found
      exact ⟨[], same.symm, first_nil needle⟩
    next absent =>
      obtain ⟨gap, rfl, first⟩ := ih found
      rw [List.isPrefixOf_iff_prefix] at absent
      exact ⟨x :: gap, rfl, first_cons absent first⟩

/-- Search gives what follows the first place of the needle. -/
theorem after?_eq_some_iff :
    Text.after? needle hay = some rest ↔ ∃ gap, hay = gap ++ (needle ++ rest) ∧ First needle gap := by
  constructor
  · exact first_of_after?
  · rintro ⟨gap, rfl, first⟩
    exact first.after? rest

theorem exists_after? (needle gap rest : List α) :
    ∃ found, Text.after? needle (gap ++ (needle ++ rest)) = some found ∧ rest <:+ found := by
  have stands : Text.after? needle (gap ++ (needle ++ rest)) ≠ none := by
    induction gap with
    | nil =>
      rw [(first_nil needle).after? rest]
      exact Option.some_ne_none rest
    | cons x gap ih =>
      rw [List.cons_append, Text.after?]
      split
      next => exact Option.some_ne_none _
      next => exact ih
  obtain ⟨found, searched⟩ := Option.ne_none_iff_exists'.mp stands
  obtain ⟨before, same, first⟩ := first_of_after? searched
  exact ⟨found, searched, first.suffix same.symm⟩

end BlobReplica.Text
