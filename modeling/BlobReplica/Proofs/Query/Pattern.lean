import BlobReplica.Proofs.Text.Search
import BlobReplica.Proofs.Text.Trim
import BlobReplica.Query.Pattern

/-! What keys a wildcard pattern accepts: those that are its pieces with some text behind each. Search puts
every piece as far left as it can, which leaves the most for those after it, so nothing is lost by never
trying another place. -/

namespace BlobReplica.KeyPattern

variable {pieces gaps : List (List Char)} {piece front short long key : List Char}

/-- The pieces with a text behind each. -/
def spread (pieces gaps : List (List Char)) : List Char :=
  (List.zipWith (· ++ ·) pieces gaps).flatten

/-- A longer text in front does no harm: the pieces are found at least as early from its end. -/
theorem occurInOrder_suffix (occur : occurInOrder pieces short = true) (suffix : short <:+ long) :
    occurInOrder pieces long = true := by
  induction pieces generalizing short long with
  | nil => rfl
  | cons piece pieces ih =>
    rw [occurInOrder] at occur
    split at occur
    next => contradiction
    next rest searched =>
      obtain ⟨gap, rfl, _⟩ := Text.first_of_after? searched
      obtain ⟨front, rfl⟩ := suffix
      obtain ⟨found, here, more⟩ := Text.exists_after? piece (front ++ gap) rest
      rw [List.append_assoc] at here
      rw [occurInOrder, here]
      exact ih occur more

theorem occurInOrder_iff : occurInOrder pieces key = true ↔
    ∃ front gaps, gaps.length = pieces.length ∧ key = front ++ spread pieces gaps := by
  induction pieces generalizing key with
  | nil =>
    refine iff_of_true rfl ⟨key, [], rfl, ?_⟩
    rw [spread, List.zipWith_nil_left, List.flatten_nil, List.append_nil]
  | cons piece pieces ih =>
    constructor
    · intro occur
      rw [occurInOrder] at occur
      split at occur
      next => contradiction
      next rest searched =>
        obtain ⟨front, rfl, _⟩ := Text.first_of_after? searched
        obtain ⟨gap, gaps, fits, rfl⟩ := ih.mp occur
        refine ⟨front, gap :: gaps, congrArg (· + 1) fits, ?_⟩
        simp [spread]
    · rintro ⟨front, gaps, fits, rfl⟩
      obtain ⟨gap, gaps, rfl⟩ := List.exists_cons_of_length_eq_add_one fits
      have rest : occurInOrder pieces (gap ++ spread pieces gaps) = true :=
        ih.mpr ⟨gap, gaps, Nat.succ.inj fits, rfl⟩
      obtain ⟨found, here, more⟩ := Text.exists_after? piece front (gap ++ spread pieces gaps)
      have form : spread (piece :: pieces) (gap :: gaps) = piece ++ (gap ++ spread pieces gaps) := by
        simp [spread]
      rw [occurInOrder, form, here]
      exact occurInOrder_suffix rest more

theorem piecesMatch_iff : piecesMatch pieces key = true ↔
    pieces = [] ∨ ∃ gaps, gaps.length = pieces.length ∧ key = spread pieces gaps := by
  cases pieces with
  | nil => exact iff_of_true rfl (.inl rfl)
  | cons first pieces =>
    rw [piecesMatch, Bool.and_eq_true, List.isPrefixOf_iff_prefix, occurInOrder_iff]
    constructor
    · rintro ⟨⟨rest, rfl⟩, gap, gaps, fits, behind⟩
      rw [List.drop_left] at behind
      refine .inr ⟨gap :: gaps, congrArg (· + 1) fits, ?_⟩
      simp [spread, behind]
    · rintro (none | ⟨gaps, fits, rfl⟩)
      · contradiction
      · obtain ⟨gap, gaps, rfl⟩ := List.exists_cons_of_length_eq_add_one fits
        have form : spread (first :: pieces) (gap :: gaps) = first ++ (gap ++ spread pieces gaps) := by
          simp [spread]
        rw [form, List.drop_left]
        exact ⟨List.prefix_append _ _, gap, gaps, Nat.succ.inj fits, rfl⟩

/-- Keys that are some pieces with a text behind each; without pieces, all keys. -/
def Fits (pieces : List String) (key : String) : Prop :=
  pieces = [] ∨ ∃ gaps : List String, gaps.length = pieces.length ∧
    key = String.join (List.zipWith (· ++ ·) pieces gaps)

theorem toList_join_zipWith (pieces gaps : List String) :
    (String.join (List.zipWith (· ++ ·) pieces gaps)).toList =
      spread (pieces.map String.toList) (gaps.map String.toList) := by
  rw [String.toList_join, List.flatMap_def, List.map_zipWith, spread, List.zipWith_map]
  simp only [String.toList_append]

/-- Leftmost search accepts a key if the pieces can be placed in it in any way at all. -/
theorem accepts_wildcard_iff (pieces : List String) (key : String) :
    (wildcard pieces).accepts key = true ↔ Fits pieces key := by
  rw [accepts, piecesMatch_iff, List.map_eq_nil_iff]
  refine or_congr_right ?_
  constructor
  · rintro ⟨gaps, fits, same⟩
    have back : (gaps.map String.ofList).map String.toList = gaps := by simp
    refine ⟨gaps.map String.ofList, by simpa using fits, String.toList_inj.mp ?_⟩
    rw [toList_join_zipWith, back, same]
  · rintro ⟨gaps, fits, rfl⟩
    exact ⟨gaps.map String.toList, by simpa using fits, toList_join_zipWith pieces gaps⟩

theorem piecesOf_eq (cs : List Char) : piecesOf cs = cs.splitOnP isWildcardMark := by
  induction cs with
  | nil => rfl
  | cons c rest ih =>
    rw [piecesOf, List.splitOnP_cons_eq_if_modifyHead, ih]
    split
    next => rfl
    next =>
      split
      next none => exact absurd none (List.splitOnP_ne_nil _ _)
      next pieces split => rw [split, List.modifyHead_cons]

theorem parse_wildcard {text : String} {core : List Char} (wrapped : Text.Wrapped '/' core text.toList)
    (marked : '*' ∈ core ∨ '%' ∈ core) :
    parse text = wildcard ((core.splitOnP (· ∈ ['*', '%'])).map String.ofList) := by
  have marks : isWildcardMark = fun c => decide (c ∈ ['*', '%']) := by
    funext c
    simp [isWildcardMark, Bool.beq_eq_decide_eq]
  have nonempty : core ≠ [] := by
    rintro rfl
    simp at marked
  have found : core.any isWildcardMark = true := by
    rcases marked with star | percent
    · exact List.any_eq_true.mpr ⟨'*', star, rfl⟩
    · exact List.any_eq_true.mpr ⟨'%', percent, rfl⟩
  simp only [parse, wrapped.trimOf_eq]
  rw [if_neg nonempty, if_pos found, piecesOf_eq, marks]

/-- A wildcard pattern accepts just the keys that its pieces can be placed in: the first one in front, the
others in order behind it, with any text between them and at the end. A pattern that is written with
wildcards, once the slashes around it are off, has for its pieces what stands between them. -/
theorem wildcard_accepts :
    (∀ pieces key, (wildcard pieces).accepts key = true ↔ Fits pieces key) ∧
    ∀ (text : String) (core : List Char), Text.Wrapped '/' core text.toList → '*' ∈ core ∨ '%' ∈ core →
      ∀ key, (parse text).accepts key = true ↔
        Fits ((core.splitOnP (· ∈ ['*', '%'])).map String.ofList) key := by
  refine ⟨accepts_wildcard_iff, fun text core wrapped marked key => ?_⟩
  rw [parse_wildcard wrapped marked]
  exact accepts_wildcard_iff _ key

/-- The second piece stands in the first one too, and another time where it is needed. -/
theorem wildcard_accepts_sample :
    Text.Wrapped '/' "ab*b%".toList "/ab*b%/".toList ∧ '*' ∈ "ab*b%".toList ∧
    (parse "/ab*b%/").accepts "abab" = true ∧ (parse "/ab*b%/").accepts "aba" = false := by
  have wrapped : Text.Wrapped '/' "ab*b%".toList "/ab*b%/".toList :=
    ⟨⟨1, 1, by decide +kernel⟩, by decide +kernel, by decide +kernel⟩
  have marked : '*' ∈ "ab*b%".toList := by decide +kernel
  have reads := wildcard_accepts.2 _ _ wrapped (.inl marked)
  have fits : Fits (("ab*b%".toList.splitOnP (· ∈ ['*', '%'])).map String.ofList) "abab" :=
    .inr ⟨["a", "", ""], by decide +kernel, by decide +kernel⟩
  refine ⟨wrapped, marked, (reads "abab").mpr fits, ?_⟩
  decide +kernel

end BlobReplica.KeyPattern
