import BlobReplica.Text.Blank
import Mathlib.Data.List.TakeWhile

/-! Marks around a text. Trimming takes off the marks at both ends and nothing else, so what it leaves is told
by the marks that can be put around it again. -/

namespace BlobReplica.Text

variable {mark : Char} {cs core : List Char}

theorem dropWhile_marks (n : Nat) (front : cs.head? ≠ some mark) :
    (List.replicate n mark ++ cs).dropWhile (· == mark) = cs := by
  rw [List.dropWhile_append_of_pos fun c member => beq_iff_eq.mpr (List.eq_of_mem_replicate member)]
  cases cs with
  | nil => rfl
  | cons c rest =>
    have other : (c == mark) = false := by simpa using front
    rw [List.dropWhile_cons, other]
    rfl

theorem takeWhile_marks (n : Nat) (front : cs.head? ≠ some mark) :
    (List.replicate n mark ++ cs).takeWhile (· == mark) = List.replicate n mark := by
  refine (List.append_left_inj cs).mp ?_
  have parts := List.takeWhile_append_dropWhile (p := (· == mark)) (l := List.replicate n mark ++ cs)
  rwa [dropWhile_marks n front] at parts

theorem marks_behind (n : Nat) (back : cs.getLast? ≠ some mark) :
    (cs ++ List.replicate n mark).reverse.takeWhile (· == mark) = List.replicate n mark := by
  rw [List.reverse_append, List.reverse_replicate]
  exact takeWhile_marks n (by rwa [List.head?_reverse])

theorem exists_marks (mark : Char) (cs : List Char) : ∃ n,
    cs = List.replicate n mark ++ cs.dropWhile (· == mark) ∧
      (cs.dropWhile (· == mark)).head? ≠ some mark := by
  have marks : ∀ c ∈ cs.takeWhile (· == mark), c = mark :=
    fun c member => by simpa using List.mem_takeWhile_imp member
  refine ⟨(cs.takeWhile (· == mark)).length, ?_, fun first => ?_⟩
  · rw [← List.eq_replicate_of_mem marks, List.takeWhile_append_dropWhile]
  · have kept := List.head?_dropWhile_not (· == mark) cs
    simp [first] at kept

/-- A text with marks around it, none of which is its own first or last character. -/
structure Wrapped (mark : Char) (core cs : List Char) : Prop where
  marks : ∃ n m, cs = List.replicate n mark ++ (core ++ List.replicate m mark)
  front : core.head? ≠ some mark
  back : core.getLast? ≠ some mark

theorem Wrapped.trimOf_eq (wrapped : Wrapped mark core cs) : trimOf mark cs = core := by
  obtain ⟨⟨n, m, rfl⟩, front, back⟩ := wrapped
  have ends : (List.replicate m mark ++ core.reverse).dropWhile (· == mark) = core.reverse :=
    dropWhile_marks m (by rwa [List.head?_reverse])
  cases core with
  | nil =>
    have gone : (List.replicate n mark ++ ([] ++ List.replicate m mark)).dropWhile (· == mark) = [] := by
      rw [List.nil_append, List.replicate_append_replicate, ← List.append_nil (List.replicate _ _)]
      exact dropWhile_marks _ front
    rw [trimOf, gone]
    rfl
  | cons c rest =>
    rw [trimOf, dropWhile_marks n (by simpa using front), List.reverse_append, List.reverse_replicate, ends,
      List.reverse_reverse]

theorem trimOf_eq (front : cs.head? ≠ some mark) (back : cs.getLast? ≠ some mark) : trimOf mark cs = cs :=
  Wrapped.trimOf_eq ⟨⟨0, 0, by simp⟩, front, back⟩

theorem wrapped_trimOf (mark : Char) (cs : List Char) : Wrapped mark (trimOf mark cs) cs := by
  obtain ⟨n, start, front⟩ := exists_marks mark cs
  obtain ⟨m, stop, back⟩ := exists_marks mark (cs.dropWhile (· == mark)).reverse
  have kept : cs.dropWhile (· == mark) = trimOf mark cs ++ List.replicate m mark := by
    rw [← List.reverse_inj, stop, List.reverse_append, List.reverse_replicate, trimOf, List.reverse_reverse]
  refine ⟨⟨n, m, by rw [← kept, ← start]⟩, fun first => ?_, ?_⟩
  · rw [kept, List.head?_append, first] at front
    exact front rfl
  · rwa [trimOf, List.getLast?_reverse]

end BlobReplica.Text
