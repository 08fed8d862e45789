import BlobReplica.Proofs.Recovery.Bounds

/-! A body with several parts read step by step. A step looks for a delimiter, reads one line or cuts one part
out. Every step has all the bytes that it looks at and goes forward, so reading ends with the answer. -/

namespace BlobReplica.Recovery.BytePart

open Http (ContentRange)

variable {delimiter body : Bytes} {pos : Nat} {range : Option ContentRange} {parts : List BytePart}

/-- What is read behind the headers of a part. -/
def behindHeaders (delimiter : Bytes) (range : Option ContentRange) (rest : Bytes) :
    Except Error (List BytePart) :=
  match range with
  | none => .error (.parts .noRange)
  | some range =>
    match range.length? with
    | none => .error (.contentRange range.text)
    | some length =>
      if rest.length < length then .error (.parts .truncated)
      else match Text.after? delimiter (rest.drop length) with
        | none => .error (.parts .noClosing)
        | some next => (partsFrom delimiter next).map (⟨range.first, rest.take length⟩ :: ·)

theorem partsFrom_line (opens : ¬ [0x2d, 0x2d].isPrefixOf body = true) :
    partsFrom delimiter body = match line? body with
      | none => .error (.parts .unterminatedLine)
      | some (_, rest) => (headers none rest).bind fun read => behindHeaders delimiter read.1 read.2 := by
  rw [partsFrom_eq, if_neg opens, part]
  cases line? body with
  | none => rfl
  | some read =>
    obtain ⟨_, rest⟩ := read
    simp only
    rcases headers none rest with e | ⟨_ | range, more⟩
    · rfl
    · rfl
    · simp only [Except.bind, behindHeaders]
      cases range.length? with
      | none => rfl
      | some length =>
        simp only
        by_cases short : more.length < length
        · simp only [if_pos short]
        · cases searched : Text.after? delimiter (more.drop length) with
          | none => simp only [if_neg short, searched]
          | some next => simp only [if_neg short, searched]

/-- How far reading has come, with the parts read before, the last of them first. -/
inductive Scan where
  /-- Before the first delimiter. -/
  | opening
  /-- Behind a delimiter. -/
  | delimited (pos : Nat) (parts : List BytePart)
  /-- Before a header line, with the range that the lines before it gave. -/
  | heading (pos : Nat) (range : Option ContentRange) (parts : List BytePart)
  | answered (answer : Except Error (List BytePart))

namespace Scan

/-- Cuts out the part whose data start at `pos` and finds the delimiter behind it. -/
def cutOut? (delimiter body : Bytes) (pos : Nat) (range : Option ContentRange) (parts : List BytePart) :
    Option Scan :=
  match range with
  | none => some (.answered (.error (.parts .noRange)))
  | some range =>
    match range.length? with
    | none => some (.answered (.error (.contentRange range.text)))
    | some length =>
      let stop := pos + length
      if body.length < stop then some (.answered (.error (.parts .truncated)))
      else (body.between? pos stop).bind fun data => (find? body delimiter stop).map fun
        | none => .answered (.error (.parts .noClosing))
        | some next => .delimited (next + delimiter.length) (⟨range.first, data⟩ :: parts)

/-- One step with every access checked. -/
def advance? (delimiter body : Bytes) : Scan → Option Scan
  | .opening => (find? body delimiter 0).map fun
    | none => .answered (.error (.parts .noOpening))
    | some pos => .delimited (pos + delimiter.length) []
  | .delimited pos parts => (body.between? pos body.length).bind fun rest =>
    if [0x2d, 0x2d].isPrefixOf rest then some (.answered (.ok parts.reverse))
    else (readLine? body pos).map fun
      | .error e => .answered (.error e)
      | .ok (_, next) => .heading next none parts
  | .heading pos range parts => (readLine? body pos).bind fun
    | .error e => some (.answered (.error e))
    | .ok (line, next) =>
      if line = [] then cutOut? delimiter body next range parts
      else match Utf8.decode? line with
        | none => some (.answered (.error (.parts .unreadableHeader)))
        | some text =>
          match lineRange? text with
          | none => some (.heading next range parts)
          | some (.ok found) => some (.heading next (some found) parts)
          | some (.error e) => some (.answered (.error e))
  | .answered answer => some (.answered answer)

def run? (delimiter body : Bytes) : Nat → Scan → Option Scan
  | 0, s => some s
  | n + 1, s => (s.advance? delimiter body).bind (run? delimiter body n)

/-- What reading gives from here on. -/
def outcome (delimiter body : Bytes) : Scan → Except Error (List BytePart)
  | .opening =>
    match Text.after? delimiter body with
    | none => .error (.parts .noOpening)
    | some rest => partsFrom delimiter rest
  | .delimited pos parts => (partsFrom delimiter (body.drop pos)).map (parts.reverse ++ ·)
  | .heading pos range parts => ((headers range (body.drop pos)).bind fun read =>
      behindHeaders delimiter read.1 read.2).map (parts.reverse ++ ·)
  | .answered answer => answer

/-- No place lies beyond the end. -/
def Within (body : Bytes) : Scan → Prop
  | .opening | .answered _ => True
  | .delimited pos _ | .heading pos _ _ => pos ≤ body.length

/-- How many steps are left at most. -/
def left (body : Bytes) : Scan → Nat
  | .opening => body.length + 2
  | .delimited pos _ | .heading pos _ _ => body.length - pos + 1
  | .answered _ => 0

/-- A step that is taken, keeps the outcome and goes forward. -/
def Advances (delimiter body : Bytes) (s : Scan) : Prop :=
  ∃ t, s.advance? delimiter body = some t ∧ t.Within body ∧
    t.outcome delimiter body = s.outcome delimiter body ∧ t.left body < s.left body

theorem advances_opening (solid : delimiter ≠ []) : Advances delimiter body .opening := by
  obtain ⟨found, searched⟩ : ∃ found, find? body delimiter 0 = some found :=
    ⟨_, find?_eq solid (Nat.zero_le _)⟩
  have behind := after?_of_find? solid (Nat.zero_le _) searched
  rw [List.drop_zero] at behind
  cases found with
  | none =>
    refine ⟨.answered (.error (.parts .noOpening)), ?_, trivial, ?_, ?_⟩
    · rw [advance?, searched, Option.map_some]
    · rw [outcome, outcome, behind, Option.map_none]
    · exact Nat.succ_pos _
  | some pos =>
    refine ⟨.delimited (pos + delimiter.length) [], ?_, (find?_inside searched).2, ?_, ?_⟩
    · rw [advance?, searched, Option.map_some]
    · rw [outcome, outcome, behind, Option.map_some]
      simp only
      cases partsFrom delimiter (body.drop (pos + delimiter.length)) <;> rfl
    · simp only [left]
      omega

theorem advances_delimited (inside : pos ≤ body.length) (parts : List BytePart) :
    Advances delimiter body (.delimited pos parts) := by
  have rest := Bytes.between?_end inside
  by_cases closing : [0x2d, 0x2d].isPrefixOf (body.drop pos) = true
  · refine ⟨.answered (.ok parts.reverse), ?_, trivial, ?_, Nat.succ_pos _⟩
    · rw [advance?, rest, Option.bind_some, if_pos closing]
    · rw [outcome, outcome, partsFrom_eq, if_pos closing, Except.map, List.append_nil]
  · rcases readLine?_eq inside with ⟨absent, read⟩ | ⟨line, next, first, read⟩
    · refine ⟨.answered (.error (.parts .unterminatedLine)), ?_, trivial, ?_, Nat.succ_pos _⟩
      · rw [advance?, rest, Option.bind_some, if_neg closing, read, Option.map_some]
      · rw [outcome, outcome, partsFrom_line closing, absent]
        rfl
    · obtain ⟨forward, within⟩ := readLine?_next read
      refine ⟨.heading next none parts, ?_, within, ?_, ?_⟩
      · rw [advance?, rest, Option.bind_some, if_neg closing, read, Option.map_some]
      · rw [outcome, outcome, partsFrom_line closing, first]
      · simp only [left]
        omega

theorem cutOut?_eq (solid : delimiter ≠ []) (inside : pos ≤ body.length) (range : Option ContentRange)
    (parts : List BytePart) : ∃ t, cutOut? delimiter body pos range parts = some t ∧ t.Within body ∧
      t.outcome delimiter body =
        (behindHeaders delimiter range (body.drop pos)).map (parts.reverse ++ ·) ∧
      t.left body ≤ body.length - pos + 1 := by
  cases range with
  | none => exact ⟨.answered (.error (.parts .noRange)), rfl, trivial, rfl, Nat.zero_le _⟩
  | some range =>
    simp only [cutOut?, behindHeaders]
    cases range.length? with
    | none => exact ⟨.answered (.error (.contentRange range.text)), rfl, trivial, rfl, Nat.zero_le _⟩
    | some length =>
      have rest : (body.drop pos).length = body.length - pos := List.length_drop
      by_cases short : body.length < pos + length
      · simp only
        rw [if_pos short, if_pos (by omega)]
        exact ⟨.answered (.error (.parts .truncated)), rfl, trivial, rfl, Nat.zero_le _⟩
      · have stops : pos + length ≤ body.length := Nat.not_lt.mp short
        obtain ⟨found, searched⟩ : ∃ found, find? body delimiter (pos + length) = some found :=
          ⟨_, find?_eq solid stops⟩
        have behind := after?_of_find? solid stops searched
        simp only
        rw [if_neg short, if_neg (by omega), Bytes.between?_add stops, Option.bind_some, searched,
          Option.map_some, List.drop_drop, behind]
        cases found with
        | none => exact ⟨.answered (.error (.parts .noClosing)), rfl, trivial, rfl, Nat.zero_le _⟩
        | some next =>
          obtain ⟨late, within⟩ := find?_inside searched
          refine ⟨_, rfl, within, ?_, ?_⟩
          · rw [outcome, Option.map_some]
            simp only
            cases partsFrom delimiter (body.drop (next + delimiter.length)) with
            | error e => rfl
            | ok others => simp [Except.map]
          · simp only [left]
            omega

theorem advances_heading (solid : delimiter ≠ []) (inside : pos ≤ body.length)
    (range : Option ContentRange) (parts : List BytePart) :
    Advances delimiter body (.heading pos range parts) := by
  rcases readLine?_eq inside with ⟨absent, read⟩ | ⟨line, next, first, read⟩
  · refine ⟨.answered (.error (.parts .unterminatedLine)), ?_, trivial, ?_, Nat.succ_pos _⟩
    · rw [advance?, read, Option.bind_some]
    · rw [outcome, outcome, headers_unterminated absent]
      rfl
  · obtain ⟨forward, within⟩ := readLine?_next read
    have less : body.length - next + 1 < body.length - pos + 1 := by omega
    rw [Advances, advance?, read, Option.bind_some, outcome, headers_line first]
    simp only
    by_cases blank : line = []
    · rw [if_pos blank, if_pos blank]
      obtain ⟨t, cut, inside, same, fewer⟩ := cutOut?_eq solid within range parts
      exact ⟨t, cut, inside, same, Nat.lt_of_le_of_lt fewer less⟩
    · rw [if_neg blank, if_neg blank]
      cases Utf8.decode? line with
      | none =>
        exact ⟨.answered (.error (.parts .unreadableHeader)), rfl, trivial, rfl, Nat.succ_pos _⟩
      | some text =>
        simp only
        rcases lineRange? text with _ | e | found
        · exact ⟨.heading next range parts, rfl, within, rfl, less⟩
        · exact ⟨.answered (.error e), rfl, trivial, rfl, Nat.succ_pos _⟩
        · exact ⟨.heading next (some found) parts, rfl, within, rfl, less⟩

theorem advances (solid : delimiter ≠ []) {s : Scan} (within : s.Within body)
    (goes : ∀ answer, s ≠ .answered answer) : Advances delimiter body s := by
  cases s with
  | opening => exact advances_opening solid
  | delimited pos parts => exact advances_delimited within parts
  | heading pos range parts => exact advances_heading solid within range parts
  | answered answer => exact absurd rfl (goes answer)

theorem run?_answered (solid : delimiter ≠ []) {s : Scan} (within : s.Within body) :
    ∃ n ≤ s.left body, run? delimiter body n s = some (.answered (s.outcome delimiter body)) := by
  induction size : s.left body using Nat.strong_induction_on generalizing s with
  | _ size ih =>
    subst size
    by_cases goes : ∀ answer, s ≠ .answered answer
    · -- one step more, to a state with the same outcome and less left
      obtain ⟨t, step, inside, same, less⟩ := advances solid within goes
      obtain ⟨n, few, ran⟩ := ih _ less inside rfl
      refine ⟨n + 1, Nat.le_trans (Nat.succ_le_succ few) less, ?_⟩
      rw [run?, step, Option.bind_some, ran, same]
    · obtain ⟨answer, rfl⟩ := not_forall_not.mp goes
      exact ⟨0, Nat.zero_le _, rfl⟩

/-- Reading a body comes to its answer, with one step for every byte and two more at most. -/
theorem opening_answered (body : Bytes) (boundary : String) :
    ∃ n ≤ body.length + 2, run? (BytePart.delimiter boundary) body n .opening =
      some (.answered (parse body boundary)) := by
  have solid : BytePart.delimiter boundary ≠ [] := List.cons_ne_nil _ _
  exact run?_answered solid (s := .opening) trivial

end Scan

end BlobReplica.Recovery.BytePart
