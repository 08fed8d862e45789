import BlobReplica.Text.Blank
import BlobReplica.Text.Decimal
import BlobReplica.Text.Letters

/-! Texts put together from pieces come apart again into the same pieces: numbers, trimmed words,
and words with a mark between them that none of them contains. -/

namespace BlobReplica.Text

variable {mark c : Char} {cs front back : List Char} {s start rest : String} {n bound : Nat}

/-- Whether a text holds ASCII characters from the space to the tilde only. -/
def IsPrintable (s : String) : Prop :=
  ∀ c ∈ s.toList, 0x20 ≤ c.toNat ∧ c.toNat < 0x7f

instance (s : String) : Decidable (IsPrintable s) :=
  decidable_of_iff (s.toList.all fun c => 0x20 ≤ c.toNat && c.toNat < 0x7f) (by simp [IsPrintable])

def digits (n : Nat) : List Char :=
  Nat.toDigits 10 n

theorem toList_toString (n : Nat) : (toString n).toList = digits n := by
  simp [digits]

theorem isDigit_of_mem_digits (member : c ∈ digits n) : c.isDigit = true :=
  Nat.isDigit_of_mem_toDigits (by decide) (by decide) member

theorem digitsValue_digits (n : Nat) : digitsValue (digits n) = n := by
  have value := Nat.ofDigitChars_ten_toDigits (n := n)
  rw [Nat.ofDigitChars_eq_foldl] at value
  simpa only [digitsValue, digits, Nat.mul_comm] using value

theorem toNat_of_isDigit (digit : c.isDigit = true) : 48 ≤ c.toNat ∧ c.toNat ≤ 57 := by
  simpa [Char.isDigit, Char.le_def, UInt32.le_iff_toNat_le] using digit

theorem digit_ne (digit : c.isDigit = true) (other : mark.isDigit = false) : c ≠ mark := by
  rintro rfl
  simp [digit] at other

theorem readUnsigned_digits (fits : n ≤ bound) : readUnsigned bound (digits n) = some n := by
  have all_digits : (digits n).all Char.isDigit = true :=
    List.all_eq_true.mpr fun c member => isDigit_of_mem_digits member
  have read : readDigits bound (digits n) = some n := by
    rw [readDigits, if_pos ⟨Nat.toDigits_ne_nil, all_digits⟩, digitsValue_digits, if_pos fits]
  rw [readUnsigned]
  · exact read
  · intro rest form
    have plus : '+' ∈ digits n := form ▸ List.mem_cons_self
    exact absurd (isDigit_of_mem_digits plus) (by decide)

theorem isBlank_of_visible (visible : 0x20 < c.toNat ∧ c.toNat < 0x7f) : isBlank c = false := by
  rw [← Bool.not_eq_true]
  simp only [isBlank, Bool.or_eq_true, Bool.and_eq_true, decide_eq_true_eq, beq_iff_eq]
  omega

theorem isBlank_of_isDigit (digit : c.isDigit = true) : isBlank c = false := by
  have := toNat_of_isDigit digit
  exact isBlank_of_visible (by omega)

theorem toNat_of_isAlphanum (word : c.isAlphanum = true) : 48 ≤ c.toNat ∧ c.toNat ≤ 122 := by
  have range : (decide ('A'.val ≤ c.val ∧ c.val ≤ 'Z'.val) ||
      ('a'.val ≤ c.val && c.val ≤ 'z'.val) || ('0'.val ≤ c.val && c.val ≤ '9'.val)) = true := word
  simp [UInt32.le_iff_toNat_le] at range
  omega

theorem isBlank_of_isAlphanum (word : c.isAlphanum = true) : isBlank c = false := by
  have := toNat_of_isAlphanum word
  exact isBlank_of_visible (by omega)

theorem trimChars_eq (first : ∀ c, cs.head? = some c → isBlank c = false)
    (last : ∀ c, cs.getLast? = some c → isBlank c = false) : trimChars cs = cs := by
  have keep {l : List Char} (solid : ∀ c, l.head? = some c → isBlank c = false) :
      l.dropWhile isBlank = l := by
    cases l with
    | nil => rfl
    | cons c rest => rw [List.dropWhile_cons, solid c rfl]; rfl
  rw [trimChars, trimStartChars, keep first, keep, List.reverse_reverse]
  simpa only [List.head?_reverse] using last

theorem trimChars_solid (solid : ∀ c ∈ cs, isBlank c = false) : trimChars cs = cs :=
  trimChars_eq (fun c first => solid c (List.mem_of_head? first))
    fun c last => solid c (List.mem_of_getLast? last)

theorem solid_append (word : front.all (!isBlank ·) = true) (solid : ∀ c ∈ cs, isBlank c = false) :
    ∀ c ∈ front ++ cs, isBlank c = false := by
  intro c member
  rcases List.mem_append.mp member with fixed | member
  · simpa using List.all_eq_true.mp word c fixed
  · exact solid c member

theorem trimChars_blank_cons (blank : isBlank c = true) : trimChars (c :: cs) = trimChars cs := by
  rw [trimChars, trimChars, trimStartChars, trimStartChars, List.dropWhile_cons, if_pos blank]

theorem trim_eq (kept : trimChars s.toList = s.toList) : trim s = s := by
  rw [trim, kept, String.ofList_toList]

theorem cutAt_eq (form : s.toList = front ++ mark :: back) (free : mark ∉ front) :
    cutAt mark s = some (String.ofList front, String.ofList back) := by
  have others : ∀ c ∈ front, (c != mark) = true := by
    intro c member
    simp only [bne_iff_ne]
    rintro rfl
    exact free member
  rw [cutAt, form, List.dropWhile_append_of_pos others, List.takeWhile_append_of_pos others]
  simp

theorem cutAt_eq_some_iff : cutAt mark s = some (start, rest) ↔
    s.toList = start.toList ++ mark :: rest.toList ∧ mark ∉ start.toList := by
  constructor
  · intro cut
    unfold cutAt at cut
    split at cut
    next => contradiction
    next c after found =>
      obtain ⟨rfl, rfl⟩ := Prod.mk.inj (Option.some.inj cut)
      have stops := List.head?_dropWhile_not (· != mark) s.toList
      simp only [found, bne_eq_false_iff_eq] at stops
      subst stops
      rw [String.toList_ofList, String.toList_ofList, ← found]
      refine ⟨List.takeWhile_append_dropWhile.symm, fun member => ?_⟩
      have other := List.all_eq_true.mp List.all_takeWhile _ member
      simp at other
  · rintro ⟨form, free⟩
    rw [cutAt_eq form free, String.ofList_toList, String.ofList_toList]

theorem cutAt_eq_none_iff : cutAt mark s = none ↔ mark ∉ s.toList := by
  constructor
  · intro absent member
    obtain ⟨front, back, form, free⟩ := List.eq_append_cons_of_mem member
    rw [cutAt_eq form free] at absent
    contradiction
  · intro free
    cases cut : cutAt mark s with
    | none => rfl
    | some parts =>
      have form := (cutAt_eq_some_iff.mp cut).1
      rw [form] at free
      simp at free

theorem splitAt_free (free : mark ∉ cs) : splitAt mark cs = [cs] := by
  induction cs with
  | nil => rfl
  | cons c rest ih =>
    rw [List.mem_cons, not_or] at free
    rw [splitAt, if_neg (by simpa using Ne.symm free.1), ih free.2]

theorem splitAt_ne_nil (mark : Char) (cs : List Char) : splitAt mark cs ≠ [] := by
  fun_cases splitAt mark cs <;> exact List.cons_ne_nil _ _

/-- A mark parts the pieces before it from those behind it. -/
theorem splitAt_marked (mark : Char) (front back : List Char) :
    splitAt mark (front ++ mark :: back) = splitAt mark front ++ splitAt mark back := by
  induction front with
  | nil => simp [splitAt]
  | cons c rest ih =>
    obtain ⟨first, pieces, split⟩ := List.exists_cons_of_ne_nil (splitAt_ne_nil mark rest)
    rw [List.cons_append, splitAt, splitAt, ih, split]
    by_cases same : (c == mark) = true
    · rw [if_pos same, if_pos same]
      rfl
    · rw [if_neg same, if_neg same]
      rfl

theorem splitAt_append (free : mark ∉ front) :
    splitAt mark (front ++ mark :: back) = front :: splitAt mark back := by
  rw [splitAt_marked, splitAt_free free, List.singleton_append]

theorem splitAt_prepend (free : mark ∉ front) (cs : List Char) :
    ∃ first rest, splitAt mark cs = first :: rest ∧
      splitAt mark (front ++ cs) = (front ++ first) :: rest := by
  obtain ⟨first, rest, pieces⟩ := List.exists_cons_of_ne_nil (splitAt_ne_nil mark cs)
  refine ⟨first, rest, pieces, ?_⟩
  induction front with
  | nil => exact pieces
  | cons c others ih =>
    rw [List.mem_cons, not_or] at free
    rw [List.cons_append, splitAt, if_neg (by simpa using Ne.symm free.1), ih free.2]
    rfl

theorem free_splitAt (mark : Char) (cs : List Char) : ∀ piece ∈ splitAt mark cs, mark ∉ piece := by
  fun_induction splitAt mark cs with
  | case1 => simp
  | case2 c rest same ih => simpa using ih
  | case3 c rest other none => exact absurd none (splitAt_ne_nil mark rest)
  | case4 c rest other first pieces split ih =>
    rw [List.forall_mem_cons, List.mem_cons, not_or]
    rw [split, List.forall_mem_cons] at ih
    exact ⟨⟨fun same => other (beq_iff_eq.mpr same.symm), ih.1⟩, ih.2⟩

theorem mem_intercalate {pieces : List (List Char)} (member : c ∈ [mark].intercalate pieces) :
    c = mark ∨ ∃ p ∈ pieces, c ∈ p := by
  induction pieces with
  | nil => contradiction
  | cons p others ih =>
    cases others with
    | nil =>
      rw [List.intercalate_singleton] at member
      exact .inr ⟨p, List.mem_cons_self, member⟩
    | cons q more =>
      rw [List.intercalate_cons_cons, List.append_assoc] at member
      rcases List.mem_append.mp member with here | member
      · exact .inr ⟨p, List.mem_cons_self, here⟩
      · rcases List.mem_cons.mp member with same | member
        · exact .inl same
        · refine (ih member).imp id ?_
          rintro ⟨x, listed, here⟩
          exact ⟨x, List.mem_cons_of_mem _ listed, here⟩

theorem splitAt_intercalate {pieces : List (List Char)} (nonempty : pieces ≠ [])
    (free : ∀ p ∈ pieces, mark ∉ p) : splitAt mark ([mark].intercalate pieces) = pieces := by
  induction pieces with
  | nil => contradiction
  | cons p others ih =>
    have own := free p List.mem_cons_self
    cases others with
    | nil => rw [List.intercalate_singleton, splitAt_free own]
    | cons q more =>
      have rest := ih (by simp) fun x member => free x (List.mem_cons_of_mem _ member)
      rw [List.intercalate_cons_cons, List.append_assoc, List.singleton_append,
        splitAt_append own, rest]

theorem intercalate_splitAt (mark : Char) (cs : List Char) :
    [mark].intercalate (splitAt mark cs) = cs := by
  induction cs with
  | nil => rfl
  | cons c rest ih =>
    rw [splitAt]
    split
    next same =>
      rw [List.intercalate_cons_of_ne_nil (splitAt_ne_nil mark rest), ih]
      simpa using (eq_of_beq same).symm
    next =>
      split
      next none => exact absurd none (splitAt_ne_nil mark rest)
      next p pieces split =>
        rw [split] at ih
        cases pieces with
        | nil =>
          rw [List.intercalate_singleton] at ih ⊢
          rw [ih]
        | cons q more =>
          rw [List.intercalate_cons_cons] at ih ⊢
          rw [← ih]
          rfl

theorem dropStart_append (form : s.toList = start.toList ++ cs) :
    dropStart start s = some (String.ofList cs) := by
  rw [dropStart, form, if_pos (by simp), List.drop_left]

theorem dropStart_eq_some_iff :
    dropStart start s = some rest ↔ s.toList = start.toList ++ rest.toList := by
  constructor
  · intro dropped
    obtain ⟨stands, same⟩ := Option.ite_none_right_eq_some.mp dropped
    rw [← Option.some.inj same, String.toList_ofList]
    exact (List.prefix_iff_eq_append.mp (List.isPrefixOf_iff_prefix.mp stands)).symm
  · intro form
    rw [dropStart_append form, String.ofList_toList]

end BlobReplica.Text
