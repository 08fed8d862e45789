import BlobReplica.Proofs.Except
import BlobReplica.Proofs.Http.Range
import BlobReplica.Proofs.Text.Letters
import BlobReplica.Proofs.Text.Search
import BlobReplica.Proofs.Text.Utf8
import BlobReplica.Recovery.Parts

/-! Bodies with several byte ranges come apart into the parts that they were written from, whatever
bytes the parts hold. -/

namespace BlobReplica.Recovery.BytePart

variable {line rest body data delimiter : Bytes} {range : Option Http.ContentRange}
  {found : Http.ContentRange} {text boundary : String} {cs : List Char} {pieces : List (List Char)}
  {parts : List BytePart}

/-- The end of a line as it is written. -/
def lineEnd : Bytes :=
  [0x0d, 0x0a]

theorem others (free : 0x0a ∉ line) : ∀ b ∈ line, (b != 0x0a) = true := by
  intro b member
  simp only [bne_iff_ne]
  rintro rfl
  exact free member

theorem line?_written (free : 0x0a ∉ line) :
    line? (line ++ (lineEnd ++ rest)) = some (line, rest) := by
  have after : (line ++ (lineEnd ++ rest)).dropWhile (· != 0x0a) = 0x0a :: rest := by
    rw [List.dropWhile_append_of_pos (others free)]
    rfl
  have before : (line ++ (lineEnd ++ rest)).takeWhile (· != 0x0a) = line ++ [0x0d] := by
    rw [List.takeWhile_append_of_pos (others free)]
    rfl
  rw [line?, after]
  simp [before]

theorem line?_bare (free : 0x0a ∉ line) (last : line.getLast? ≠ some 0x0d) :
    line? (line ++ 0x0a :: rest) = some (line, rest) := by
  rw [line?, List.dropWhile_append_of_pos (others free), List.takeWhile_append_of_pos (others free)]
  simp [last]

theorem line?_blank (rest : Bytes) : line? (lineEnd ++ rest) = some ([], rest) := by
  have read : line? ([] ++ (lineEnd ++ rest)) = some ([], rest) := line?_written (by simp)
  exact read

theorem headers_unterminated (absent : line? body = none) :
    headers range body = .error (.parts .unterminatedLine) := by
  rw [headers]
  split
  next => rfl
  next line rest read => cases absent.symm.trans read

theorem headers_line (read : line? body = some (line, rest)) :
    headers range body =
      if line = [] then .ok (range, rest)
      else match Utf8.decode? line with
        | none => .error (.parts .unreadableHeader)
        | some text =>
          match lineRange? text with
          | none => headers range rest
          | some (.ok found) => headers (some found) rest
          | some (.error e) => .error e := by
  rw [headers]
  split
  next absent => cases read.symm.trans absent
  next line' rest' read' =>
    obtain ⟨rfl, rfl⟩ := Prod.mk.inj (Option.some.inj (read.symm.trans read'))
    rfl

theorem headers_other (read : line? body = some (line, rest)) (nonempty : line ≠ [])
    (decoded : Utf8.decode? line = some text) (other : lineRange? text = none) :
    headers range body = headers range rest := by
  rw [headers_line read, if_neg nonempty]
  simp only [decoded, other]

theorem headers_range (read : line? body = some (line, rest)) (nonempty : line ≠ [])
    (decoded : Utf8.decode? line = some text) (ranged : lineRange? text = some (.ok found)) :
    headers range body = headers (some found) rest := by
  rw [headers_line read, if_neg nonempty]
  simp only [decoded, ranged]

/-- A line without the carriage return at its end. -/
def chomp (cs : List Char) : List Char :=
  if cs.getLast? = some '\r' then cs.dropLast else cs

theorem chomp_append {front : List Char} (last : front.getLast? ≠ some '\r') (cs : List Char) :
    chomp (front ++ cs) = front ++ chomp cs := by
  rcases List.eq_nil_or_concat cs with rfl | ⟨others, c, rfl⟩
  · simp [chomp, last]
  · rw [List.concat_eq_append, ← List.append_assoc, chomp, chomp, List.getLast?_concat,
      List.getLast?_concat, List.dropLast_concat, List.dropLast_concat]
    split <;> simp

/-- A header line that does not stop the reader: it is not blank, and if it has a content range, that
can be read. -/
def Passes (cs : List Char) : Prop :=
  chomp cs ≠ [] ∧ ∀ e, lineRange? (String.ofList (chomp cs)) ≠ some (.error e)

/-- Lines as they are written, each with a line feed behind it. -/
def written (pieces : List (List Char)) : Bytes :=
  pieces.flatMap fun cs => Utf8.encodeChars cs ++ [0x0a]

theorem written_cons (cs : List Char) (pieces : List (List Char)) :
    written (cs :: pieces) = Utf8.encodeChars cs ++ 0x0a :: written pieces := by
  simp [written]

theorem written_append (pieces more : List (List Char)) :
    written (pieces ++ more) = written pieces ++ written more :=
  List.flatMap_append

theorem written_splitAt (cs : List Char) :
    written (Text.splitAt '\n' cs) = Utf8.encodeChars cs ++ [0x0a] := by
  have feed : String.utf8EncodeChar '\n' = [0x0a] := by decide
  fun_induction Text.splitAt '\n' cs with
  | case1 => rfl
  | case2 c rest same ih =>
    rw [written_cons, ih, Utf8.encodeChars_cons, beq_iff_eq.mp same, feed]
    rfl
  | case3 c rest other none => exact absurd none (Text.splitAt_ne_nil _ rest)
  | case4 c rest other first pieces split ih =>
    rw [split, written_cons] at ih
    rw [written_cons, Utf8.encodeChars_cons, List.append_assoc, ih, Utf8.encodeChars_cons,
      List.append_assoc]

theorem partsFrom_end : partsFrom delimiter (0x2d :: 0x2d :: rest) = .ok [] := by
  rw [partsFrom, if_pos (by simp)]

/-- One part from behind its delimiter on, and what follows it. -/
def part (body : Bytes) : Except Error (BytePart × Bytes) :=
  match line? body with
  | none => .error (.parts .unterminatedLine)
  | some (_, rest) =>
    match headers none rest with
    | .error e => .error e
    | .ok (none, _) => .error (.parts .noRange)
    | .ok (some range, rest) =>
      match range.length? with
      | none => .error (.contentRange range.text)
      | some length =>
        if rest.length < length then .error (.parts .truncated)
        else .ok (⟨range.first, rest.take length⟩, rest.drop length)

/-- The parts are read one after the other. -/
theorem partsFrom_eq (delimiter body : Bytes) :
    partsFrom delimiter body =
      if [0x2d, 0x2d].isPrefixOf body then .ok []
      else match part body with
        | .error e => .error e
        | .ok (first, rest) =>
          match Text.after? delimiter rest with
          | none => .error (.parts .noClosing)
          | some next => (partsFrom delimiter next).map (first :: ·) := by
  rw [partsFrom]
  split
  next => rfl
  next =>
    rw [part]
    split
    next absent => rw [absent]
    next line rest read =>
      rw [read]
      simp only
      split
      next e failed => rw [failed]
      next behind unranged => rw [unranged]
      next range behind ranged =>
        rw [ranged]
        simp only
        cases range.length? with
        | none => rfl
        | some length =>
          simp only
          by_cases short : behind.length < length
          · rw [if_pos short, if_pos short]
          · rw [if_neg short, if_neg short]
            split
            next absent => simp only [absent]
            next next' closed => simp only [closed]

theorem after?_lineEnd {needle : Bytes} (hyphen : needle.head? = some 0x2d) (rest : Bytes) :
    Text.after? needle (lineEnd ++ (needle ++ rest)) = some rest :=
  (Text.first_of_free hyphen (by decide)).after? rest

/-- How many bytes parts have. -/
def total (parts : List BytePart) : Nat :=
  parts.foldr (fun p n => p.data.length + n) 0

theorem total_partsFrom (read : partsFrom delimiter body = .ok parts) : total parts ≤ body.length := by
  fun_induction partsFrom delimiter body generalizing parts with
  | case1 =>
    cases read
    exact Nat.zero_le _
  | case8 body _ line rest skipped range more headed length sized long next closed ih =>
    obtain ⟨others, inner, rfl⟩ := map_eq_ok.mp read
    have opening := line?_length skipped
    have headers := headers_length headed
    have behind := Text.after?_length closed
    have later := ih inner
    rw [List.length_drop] at behind
    simp only [total, List.foldr_cons, List.length_take] at later ⊢
    omega
  | _ => contradiction

theorem total_parse (read : parse body boundary = .ok parts) : total parts + 2 ≤ body.length := by
  rw [parse] at read
  split at read
  next => contradiction
  next rest opened =>
    have behind := Text.after?_length opened
    have length := total_partsFrom read
    simp only [delimiter, List.length_cons] at behind
    omega

end BlobReplica.Recovery.BytePart
