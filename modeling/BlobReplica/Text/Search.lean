/-! Leftmost search for one list inside another. -/

namespace BlobReplica.Text

variable {α : Type} [BEq α]

def after? (needle : List α) : List α → Option (List α)
  | [] => if needle.isPrefixOf [] then some [] else none
  | x :: rest =>
    if needle.isPrefixOf (x :: rest) then some ((x :: rest).drop needle.length)
    else after? needle rest

theorem after?_length {needle rest : List α} {hay : List α} (h : after? needle hay = some rest) :
    rest.length + needle.length ≤ hay.length := by
  induction hay with
  | nil =>
    simp only [after?] at h
    split at h
    next found =>
      cases needle with
      | nil => simp_all
      | cons _ _ => simp at found
    next => contradiction
  | cons x hay ih =>
    simp only [after?] at h
    split at h
    next found =>
      simp only [Option.some.injEq] at h
      subst h
      have fits : needle.length ≤ (x :: hay).length :=
        isPrefixOf_length found
      simp only [List.length_drop]
      omega
    next => exact Nat.le_succ_of_le (ih h)
where
  isPrefixOf_length {a b : List α} (h : a.isPrefixOf b = true) : a.length ≤ b.length := by
    induction a generalizing b with
    | nil => simp
    | cons x a ih =>
      cases b with
      | nil => simp at h
      | cons y b =>
        simp only [List.isPrefixOf, Bool.and_eq_true] at h
        simpa using ih h.2

end BlobReplica.Text
