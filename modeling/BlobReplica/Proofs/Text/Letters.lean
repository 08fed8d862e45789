import BlobReplica.Proofs.Text.Pieces

/-! Names without regard to letter case, and spellings that differ in case only. -/

namespace BlobReplica.Text

variable {a b c : String}

/-- Letter case concerns the ASCII characters alone. -/
theorem forall_char {P : Char → Prop} (ascii : ∀ n < 128, P (Char.ofNat n))
    (others : ∀ c : Char, c.toLower = c → c.toUpper = c → P c) (c : Char) : P c := by
  by_cases small : c.toNat < 128
  · exact Char.ofNat_toNat c ▸ ascii c.toNat small
  · have value : c.val.toNat = c.toNat := rfl
    refine others c (dif_neg ?_) (dif_neg ?_)
    · simp only [ge_iff_le, UInt32.le_iff_toNat_le]
      simp
      omega
    · simp only [UInt32.le_iff_toNat_le]
      simp
      omega

theorem toLower_toLower : ∀ c : Char, c.toLower.toLower = c.toLower :=
  forall_char (by decide) fun c low _ => by rw [low, low]

theorem toLower_toUpper : ∀ c : Char, c.toUpper.toLower = c.toLower :=
  forall_char (by decide) fun c _ up => by rw [up]

theorem toUpper_toLower : ∀ c : Char, c.toLower.toUpper = c.toUpper :=
  forall_char (by decide) fun c low _ => by rw [low]

theorem toLower_eq_hyphen : ∀ c : Char, (c.toLower == '-') = (c == '-') :=
  forall_char (by decide) fun c low _ => by rw [low]

theorem toList_lower (s : String) : (lower s).toList = s.toList.map Char.toLower := by
  rw [lower, String.toList_ofList]

theorem sameName_iff : sameName a b = true ↔ lower a = lower b := by
  simp [sameName]

theorem sameName_trans (first : sameName a b = true) (second : sameName b c = true) :
    sameName a c = true := by
  rw [sameName_iff] at first second ⊢
  exact first.trans second

theorem sameName_of_common (first : sameName a c = true) (second : sameName b c = true) :
    sameName a b = true := by
  rw [sameName_iff] at first second ⊢
  exact first.trans second.symm

theorem sameName_congr (same : sameName a b = true) (c : String) :
    sameName a c = sameName b c := by
  rw [sameName, sameName, sameName_iff.mp same]

theorem sameName_congr_right (same : sameName a b = true) (c : String) :
    sameName c a = sameName c b := by
  rw [sameName, sameName, sameName_iff.mp same]

theorem any_sameName_congr (same : sameName a b = true) (names : List String) :
    names.any (sameName · a) = names.any (sameName · b) :=
  List.any_congr rfl (sameName_congr_right same)

theorem sameName_lower (s : String) : sameName (lower s) s = true := by
  rw [sameName_iff, lower, lower, String.toList_ofList, List.map_map]
  exact congrArg String.ofList (List.map_congr_left fun c _ => toLower_toLower c)

theorem map_toLower_capitalize (cs : List Char) :
    (capitalize cs).map Char.toLower = cs.map Char.toLower := by
  cases cs with
  | nil => rfl
  | cons c rest =>
    simp only [capitalize, List.map_cons, List.map_map, toLower_toUpper]
    exact congrArg _ (List.map_congr_left fun c _ => toLower_toLower c)

theorem capitalize_map_toLower (cs : List Char) : capitalize (cs.map Char.toLower) = capitalize cs := by
  cases cs with
  | nil => rfl
  | cons c rest =>
    simp only [capitalize, List.map_cons, List.map_map, toUpper_toLower]
    exact congrArg _ (List.map_congr_left fun c _ => toLower_toLower c)

theorem map_intercalate {α β : Type} (f : α → β) (mark : List α) (pieces : List (List α)) :
    (mark.intercalate pieces).map f = (mark.map f).intercalate (pieces.map (List.map f)) := by
  induction pieces with
  | nil => rfl
  | cons p others ih =>
    cases others with
    | nil => simp
    | cons q more =>
      rw [List.intercalate_cons_cons, List.map_append, List.map_append, ih]
      rw [List.map_cons, List.map_cons, List.map_cons, List.intercalate_cons_cons]

/-- Capital letters at the start of each word do not make another name. -/
theorem sameName_capitalized (s : String) :
    sameName (String.ofList (['-'].intercalate ((splitAt '-' s.toList).map capitalize))) s =
      true := by
  rw [sameName_iff, lower, lower, String.toList_ofList, map_intercalate, List.map_map]
  congr 1
  have pieces : (splitAt '-' s.toList).map (List.map Char.toLower ∘ capitalize) =
      (splitAt '-' s.toList).map (List.map Char.toLower) :=
    List.map_congr_left fun p _ => map_toLower_capitalize p
  rw [pieces, ← map_intercalate, intercalate_splitAt]

/-- A change of characters that keeps the marks and makes no others is a change of the pieces. -/
theorem splitAt_map {mark : Char} {f : Char → Char} (keeps : ∀ c, (f c == mark) = (c == mark))
    (cs : List Char) : splitAt mark (cs.map f) = (splitAt mark cs).map (List.map f) := by
  induction cs with
  | nil => rfl
  | cons c rest ih =>
    obtain ⟨first, pieces, split⟩ := List.exists_cons_of_ne_nil (splitAt_ne_nil mark rest)
    rw [List.map_cons, splitAt, splitAt, keeps c, ih, split]
    cases c == mark <;> rfl

theorem map_capitalize_congr (same : sameName a b = true) :
    (splitAt '-' a.toList).map capitalize = (splitAt '-' b.toList).map capitalize := by
  have folded (s : String) :
      (splitAt '-' (lower s).toList).map capitalize = (splitAt '-' s.toList).map capitalize := by
    rw [toList_lower, splitAt_map toLower_eq_hyphen, List.map_map]
    exact List.map_congr_left fun p _ => capitalize_map_toLower p
  rw [← folded a, ← folded b, sameName_iff.mp same]

end BlobReplica.Text
