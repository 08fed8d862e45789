import BlobReplica.Proofs.Text.Pieces
import BlobReplica.VersionId
import Mathlib.Algebra.Ring.Nat

/-! Version identifiers as they are written: letters, digits and hyphens, which read as the identifier that
they were written from. -/

namespace BlobReplica.VersionId

variable {v : VersionId} {c : Char}

theorem number_ofNumber {n : Nat} (below : n < 2 ^ 128) : (ofNumber n).number = n :=
  (BitVec.toNat_ofNat n 128).trans (Nat.mod_eq_of_lt below)

theorem isAlphanum_hexPadded {width n : Nat} (member : c ∈ Text.hexPadded width n) :
    c.isAlphanum = true := by
  have digit : ∀ d < 16, (Text.hexDigit d).isAlphanum = true := by decide
  induction width generalizing n with
  | zero => contradiction
  | succ width ih =>
    rcases List.mem_append.mp member with member | last
    · exact ih member
    · rw [List.mem_singleton.mp last]
      exact digit _ (Nat.mod_lt _ (by decide))

theorem mem_text (member : c ∈ v.text.toList) : c.isAlphanum = true ∨ c = '-' := by
  have digit (listed : c ∈ v.digits) : c.isAlphanum = true := isAlphanum_hexPadded listed
  rw [text, String.toList_ofList, chars] at member
  generalize v.digits = d at digit member
  simp only [List.mem_append, List.mem_cons, or_assoc] at member
  have group {i j : Nat} (listed : c ∈ (d.drop i).take j) : c.isAlphanum = true :=
    digit (List.mem_of_mem_drop (List.mem_of_mem_take listed))
  rcases member with h | h | h | h | h | h | h | h | h
  · exact .inl (digit (List.mem_of_mem_take h))
  · exact .inr h
  · exact .inl (group h)
  · exact .inr h
  · exact .inl (group h)
  · exact .inr h
  · exact .inl (group h)
  · exact .inr h
  · exact .inl (digit (List.mem_of_mem_drop h))

/-! ### Reading what was written -/

theorem length_hexPadded (width n : Nat) : (Text.hexPadded width n).length = width := by
  induction width generalizing n with
  | zero => rfl
  | succ width ih => rw [Text.hexPadded, List.length_append, ih, List.length_singleton]

theorem hexValue?_hexDigit : ∀ d < 16, Text.hexValue? (Text.hexDigit d) = some d := by
  decide

theorem hexNumber?_concat (cs : List Char) (c : Char) : Text.hexNumber? (cs ++ [c]) =
    (Text.hexNumber? cs).bind fun n => (Text.hexValue? c).map fun d => n * 16 + d := by
  rw [Text.hexNumber?, List.foldl_append]
  rfl

/-- The digits of a number read as the number, as far as it fits into them. -/
theorem hexNumber?_hexPadded (width n : Nat) :
    Text.hexNumber? (Text.hexPadded width n) = some (n % 16 ^ width) := by
  induction width generalizing n with
  | zero => simp [Text.hexPadded, Text.hexNumber?, Nat.mod_one]
  | succ width ih =>
    have last : n % 16 < 16 := Nat.mod_lt _ (by decide)
    rw [Text.hexPadded, hexNumber?_concat, ih, hexValue?_hexDigit _ last, Option.bind_some, Option.map_some,
      Nat.pow_succ, Nat.mul_comm (16 ^ width), Nat.mod_mul]
    congr 1
    omega

theorem readGroups_written {a b c d e : List Char} (ha : a.length = 8) (hb : b.length = 4)
    (hc : c.length = 4) (hd : d.length = 4) :
    readGroups (a ++ '-' :: b ++ '-' :: c ++ '-' :: d ++ '-' :: e) =
      readDigits 32 (a ++ b ++ c ++ d ++ e) := by
  have past {l : List Char} {n : Nat} (short : l.length ≤ n) : l.drop n = [] :=
    List.drop_eq_nil_of_le short
  simp [readGroups, List.drop_append, ha, hb, hc, hd, past]

theorem digits_grouped (d : List Char) : d.take 8 ++ (d.drop 8).take 4 ++ (d.drop 12).take 4 ++
    (d.drop 16).take 4 ++ d.drop 20 = d := by
  have next (i j : Nat) : d.take i ++ (d.drop i).take j = d.take (i + j) := List.take_add.symm
  rw [next, next, next, List.take_append_drop]

theorem length_digits (v : VersionId) : v.digits.length = 32 :=
  length_hexPadded 32 _

theorem readDigits_digits (v : VersionId) : readDigits 32 v.digits = some v := by
  have fits : v.number < 16 ^ 32 := v.bits.isLt
  rw [readDigits, if_pos (length_digits v), digits, hexNumber?_hexPadded, Nat.mod_eq_of_lt fits,
    Option.map_some, ofNumber, number, BitVec.ofNat_toNat, BitVec.setWidth_eq]

theorem solid_chars (v : VersionId) : ∀ c ∈ v.chars, Text.isBlank c = false := by
  intro c member
  have listed : c ∈ v.text.toList := by rwa [text, String.toList_ofList]
  rcases mem_text listed with word | rfl
  · exact Text.isBlank_of_isAlphanum word
  · decide

theorem readGroups_chars (v : VersionId) : readGroups v.chars = some v := by
  have long := length_digits v
  rw [chars, readGroups_written (by simp [long]) (by simp [long]) (by simp [long]) (by simp [long]),
    digits_grouped, readDigits_digits]

theorem length_chars (v : VersionId) : v.chars.length = 36 := by
  simp [chars, length_digits]

theorem readChars_groups {cs : List Char} (long : cs.length = 36) : readChars cs = readGroups cs := by
  unfold readChars
  rw [if_neg (by rw [long]; decide), if_pos long]

/-- An identifier is read as it was written. -/
theorem parse?_text (v : VersionId) : parse? v.text = some v := by
  rw [parse?, text, String.toList_ofList, Text.trimChars_solid (solid_chars v),
    readChars_groups (length_chars v), readGroups_chars]

end BlobReplica.VersionId
