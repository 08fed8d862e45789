import BlobReplica.Proofs.Text.Pieces
import Mathlib.Data.List.TakeWhile

/-! Blanks around texts, and numbers as they may be written. Trimming takes off the blanks at both ends and
nothing else; what is read as a number consists of decimal digits, behind a plus sign or not. -/

namespace BlobReplica.Text

variable {mark : Char} {cs core front back : List Char} {s : String} {n bound : Nat}

/-- Blanks and nothing else. -/
def Blank (cs : List Char) : Prop :=
  ∀ c ∈ cs, isBlank c = true

theorem blank_nil : Blank [] := by
  intro c member
  contradiction

theorem Blank.append (first : Blank front) (second : Blank back) : Blank (front ++ back) := by
  intro c member
  exact (List.mem_append.mp member).elim (first c) (second c)

theorem Blank.free (blank : Blank cs) (solid : isBlank mark = false) : mark ∉ cs := by
  intro member
  rw [blank mark member] at solid
  contradiction

/-- A text with blanks around it, or with none. -/
def Padded (core cs : List Char) : Prop :=
  ∃ front back, Blank front ∧ Blank back ∧ cs = front ++ (core ++ back)

theorem padded_refl (cs : List Char) : Padded cs cs :=
  ⟨[], [], blank_nil, blank_nil, by simp⟩

theorem Padded.pad (padded : Padded core cs) (before : Blank front) (after : Blank back) :
    Padded core (front ++ (cs ++ back)) := by
  obtain ⟨left, right, first, last, rfl⟩ := padded
  exact ⟨front ++ left, right ++ back, before.append first, last.append after, by simp⟩

def trimEndChars (cs : List Char) : List Char :=
  (cs.reverse.dropWhile isBlank).reverse

theorem trimChars_def (cs : List Char) : trimChars cs = trimEndChars (trimStartChars cs) :=
  rfl

theorem trimStartChars_blank (blank : Blank front) (cs : List Char) :
    trimStartChars (front ++ cs) = trimStartChars cs :=
  List.dropWhile_append_of_pos blank

theorem trimEndChars_blank (blank : Blank back) (cs : List Char) :
    trimEndChars (cs ++ back) = trimEndChars cs := by
  have reversed : ∀ c ∈ back.reverse, isBlank c = true :=
    fun c member => blank c (List.mem_reverse.mp member)
  rw [trimEndChars, trimEndChars, List.reverse_append, List.dropWhile_append_of_pos reversed]

theorem exists_trimStartChars (cs : List Char) : ∃ front, Blank front ∧ cs = front ++ trimStartChars cs :=
  ⟨cs.takeWhile isBlank, fun _ => List.mem_takeWhile_imp, List.takeWhile_append_dropWhile.symm⟩

theorem exists_trimEndChars (cs : List Char) : ∃ back, Blank back ∧ cs = trimEndChars cs ++ back := by
  refine ⟨(cs.reverse.takeWhile isBlank).reverse, ?_, ?_⟩
  · intro c member
    exact List.mem_takeWhile_imp (List.mem_reverse.mp member)
  · rw [trimEndChars, ← List.reverse_append, List.takeWhile_append_dropWhile, List.reverse_reverse]

theorem Padded.trimChars_eq (padded : Padded core cs) : trimChars cs = trimChars core := by
  obtain ⟨front, back, before, after, rfl⟩ := padded
  rw [trimChars_def, trimChars_def, trimStartChars_blank before, trimStartChars, List.dropWhile_append]
  split
  next empty =>
    rw [trimStartChars, List.isEmpty_iff.mp empty, List.dropWhile_eq_nil_iff.mpr after]
  next => exact trimEndChars_blank after _

theorem trimChars_trimStartChars (cs : List Char) : trimChars (trimStartChars cs) = trimChars cs := by
  obtain ⟨front, blank, form⟩ := exists_trimStartChars cs
  have padded : Padded (trimStartChars cs) cs := ⟨front, [], blank, blank_nil, by rwa [List.append_nil]⟩
  exact padded.trimChars_eq.symm

theorem trimChars_trimEndChars (cs : List Char) : trimChars (trimEndChars cs) = trimChars cs := by
  obtain ⟨back, blank, form⟩ := exists_trimEndChars cs
  have padded : Padded (trimEndChars cs) cs := ⟨[], back, blank_nil, blank, form⟩
  exact padded.trimChars_eq.symm

/-- What is left of a text without the blanks at its ends. -/
structure Trimmed (core cs : List Char) : Prop where
  padded : Padded core cs
  first : ∀ c, core.head? = some c → isBlank c = false
  last : ∀ c, core.getLast? = some c → isBlank c = false

theorem trimmed_trimChars (cs : List Char) : Trimmed (trimChars cs) cs := by
  obtain ⟨front, before, start⟩ := exists_trimStartChars cs
  obtain ⟨back, after, stop⟩ := exists_trimEndChars (trimStartChars cs)
  have solid (l : List Char) (c : Char) (first : (l.dropWhile isBlank).head? = some c) :
      isBlank c = false := by
    have kept := List.head?_dropWhile_not isBlank l
    rwa [first] at kept
  constructor
  · refine ⟨front, back, before, after, ?_⟩
    rw [trimChars_def, ← stop, ← start]
  · intro c first
    apply solid cs
    rw [← trimStartChars, stop, List.head?_append, ← trimChars_def, first, Option.some_or]
  · intro c last
    apply solid (trimStartChars cs).reverse
    rwa [trimChars_def, trimEndChars, List.getLast?_reverse] at last

theorem trimChars_eq_iff : trimChars cs = core ↔ Trimmed core cs := by
  constructor
  · rintro rfl
    exact trimmed_trimChars cs
  · intro trimmed
    rw [trimmed.padded.trimChars_eq, trimChars_eq trimmed.first trimmed.last]

theorem trimChars_eq_nil_iff : trimChars cs = [] ↔ Blank cs := by
  rw [trimChars_eq_iff]
  constructor
  · rintro ⟨⟨front, back, before, after, form⟩, _, _⟩
    rw [form]
    exact before.append after
  · intro blank
    exact ⟨⟨cs, [], blank, blank_nil, by simp⟩, by simp, by simp⟩

theorem trim_eq_empty_iff : trim s = "" ↔ Blank s.toList := by
  rw [trim, ← String.ofList_nil, String.ofList_inj, trimChars_eq_nil_iff]

section mark

variable (solid : isBlank mark = false) (front back : List Char)
include solid

theorem trimStartChars_mark :
    trimStartChars (front ++ mark :: back) = trimStartChars front ++ mark :: back := by
  have kept : (mark :: back).dropWhile isBlank = mark :: back := by
    rw [List.dropWhile_cons, if_neg (by simp [solid])]
  rw [trimStartChars, List.dropWhile_append]
  split
  next empty => rw [kept, trimStartChars, List.isEmpty_iff.mp empty, List.nil_append]
  next => rfl

theorem trimEndChars_mark :
    trimEndChars (front ++ mark :: back) = front ++ mark :: trimEndChars back := by
  have start := trimStartChars_mark solid back.reverse front.reverse
  have form : (front ++ mark :: back).reverse = back.reverse ++ mark :: front.reverse := by simp
  rw [trimEndChars, form, ← trimStartChars, start, trimEndChars, trimStartChars]
  simp

/-- A mark in a text stays, and each end is trimmed by itself. -/
theorem trimChars_mark :
    trimChars (front ++ mark :: back) = trimStartChars front ++ mark :: trimEndChars back := by
  rw [trimChars_def, trimStartChars_mark solid, trimEndChars_mark solid]

end mark

/-- Decimal digits of a 64-bit number, with a plus sign before them or none. -/
def Spells (cs : List Char) (n : Nat) : Prop :=
  ∃ digits, (cs = digits ∨ cs = '+' :: digits) ∧ digits ≠ [] ∧ (∀ c ∈ digits, c.isDigit = true) ∧
    Nat.ofDigitChars 10 digits 0 = n ∧ n ≤ maxWord

/-- A number with blanks around it, or with none. -/
def Numeral (cs : List Char) (n : Nat) : Prop :=
  ∃ core, Padded core cs ∧ Spells core n

theorem readDigits_eq_some_iff : readDigits bound cs = some n ↔ cs ≠ [] ∧ (∀ c ∈ cs, c.isDigit = true) ∧
    Nat.ofDigitChars 10 cs 0 = n ∧ n ≤ bound := by
  have value : digitsValue cs = Nat.ofDigitChars 10 cs 0 := by
    simp only [digitsValue, Nat.ofDigitChars_eq_foldl, Nat.mul_comm]
  rw [readDigits, value, Option.ite_none_right_eq_some, List.all_eq_true, and_assoc]
  refine and_congr_right fun _ => and_congr_right fun _ => ?_
  rw [Option.ite_none_right_eq_some, Option.some.injEq]
  constructor
  · rintro ⟨fits, rfl⟩
    exact ⟨rfl, fits⟩
  · rintro ⟨rfl, fits⟩
    exact ⟨fits, rfl⟩

theorem readUnsigned_eq_some_iff : readUnsigned maxWord cs = some n ↔ Spells cs n := by
  unfold readUnsigned
  split
  next rest =>
    rw [readDigits_eq_some_iff]
    constructor
    · intro read
      exact ⟨rest, .inr rfl, read⟩
    · rintro ⟨digits, same | same, some, all, value⟩
      · subst same
        exact absurd (all '+' List.mem_cons_self) (by decide)
      · obtain rfl := List.tail_eq_of_cons_eq same
        exact ⟨some, all, value⟩
  next unsigned =>
    rw [readDigits_eq_some_iff]
    constructor
    · intro read
      exact ⟨cs, .inl rfl, read⟩
    · rintro ⟨digits, rfl | same, read⟩
      · exact read
      · exact absurd same (unsigned digits)

theorem Spells.mem {c : Char} (spells : Spells cs n) (member : c ∈ cs) : c = '+' ∨ c.isDigit = true := by
  obtain ⟨digits, rfl | rfl, _, all, _⟩ := spells
  · exact .inr (all c member)
  · exact (List.mem_cons.mp member).imp_right (all c)

theorem Spells.trimChars_eq (spells : Spells cs n) : trimChars cs = cs := by
  refine trimChars_solid fun c member => ?_
  rcases spells.mem member with rfl | digit
  · decide
  · exact isBlank_of_isDigit digit

theorem Numeral.spells (numeral : Numeral cs n) : Spells (trimChars cs) n := by
  obtain ⟨core, padded, spells⟩ := numeral
  rwa [padded.trimChars_eq, spells.trimChars_eq]

theorem numeral_iff : Numeral cs n ↔ Spells (trimChars cs) n :=
  ⟨Numeral.spells, fun spells => ⟨trimChars cs, (trimmed_trimChars cs).padded, spells⟩⟩

theorem Numeral.trimStart (numeral : Numeral cs n) : Numeral (trimStartChars cs) n := by
  rw [numeral_iff, trimChars_trimStartChars]
  exact numeral.spells

theorem Numeral.trimEnd (numeral : Numeral cs n) : Numeral (trimEndChars cs) n := by
  rw [numeral_iff, trimChars_trimEndChars]
  exact numeral.spells

theorem readWord_trim_iff : readWord (trim s) = some n ↔ Numeral s.toList n := by
  rw [readWord, trim, String.toList_ofList, readUnsigned_eq_some_iff, numeral_iff]

theorem Numeral.pad (numeral : Numeral cs n) (before : Blank front) (after : Blank back) :
    Numeral (front ++ (cs ++ back)) n := by
  obtain ⟨core, padded, spells⟩ := numeral
  exact ⟨core, padded.pad before after, spells⟩

theorem Numeral.behind (numeral : Numeral cs n) (before : Blank front) : Numeral (front ++ cs) n := by
  have padded := numeral.pad before blank_nil
  rwa [List.append_nil] at padded

theorem Numeral.not_blank (numeral : Numeral cs n) : ¬ Blank cs := by
  intro blank
  obtain ⟨digits, empty | empty, some, _⟩ := trimChars_eq_nil_iff.mpr blank ▸ numeral.spells
  · exact some empty.symm
  · contradiction

theorem Numeral.free (numeral : Numeral cs n) (solid : isBlank mark = false)
    (other : mark.isDigit = false) (unsigned : mark ≠ '+') : mark ∉ cs := by
  obtain ⟨core, ⟨front, back, before, after, rfl⟩, spells⟩ := numeral
  rw [List.mem_append, List.mem_append]
  rintro (member | member | member)
  · exact before.free solid member
  · rcases spells.mem member with same | digit
    · exact unsigned same
    · rw [digit] at other
      contradiction
  · exact after.free solid member

theorem numeral_digits (fits : n ≤ maxWord) : Numeral (digits n) n := by
  refine ⟨digits n, padded_refl _, digits n, .inl rfl, Nat.toDigits_ne_nil, ?_, ?_, fits⟩
  · exact fun c => isDigit_of_mem_digits
  · exact Nat.ofDigitChars_ten_toDigits

end BlobReplica.Text
