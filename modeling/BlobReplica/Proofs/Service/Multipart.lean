import BlobReplica.Proofs.Assembly
import BlobReplica.Proofs.Recovery.Grammar
import BlobReplica.Service.Object

/-! Several slices in one response. The recovering side reads from the body the parts that the
service put into it, unless line feeds in the content type end the headers of a part or break them. -/

namespace BlobReplica.Service

open Recovery (BytePart)
open Recovery.BytePart (lineEnd delimiter)

variable {b : Blob} {boundary : String} {payload : Bytes} {slice : Nat × Nat}

def typeLine (b : Blob) : String :=
  "Content-Type: " ++ b.contentType

def rangeLine (slice : Nat × Nat) (total : Nat) : String :=
  "Content-Range: " ++ Http.ContentRange.written slice.1 slice.2 total

theorem typeLine_eq (b : Blob) : typeLine b = "Content-Type: " ++ b.contentType :=
  rfl

theorem rangeLine_eq (slice : Nat × Nat) (total : Nat) : rangeLine slice total =
    "Content-Range: " ++ Http.ContentRange.written slice.1 slice.2 total :=
  rfl

theorem encode_lineEnd : Utf8.encode "\x0d\n" = lineEnd := by
  decide

theorem encode_delimiter (boundary : String) :
    Utf8.encode ("--" ++ boundary) = delimiter boundary := by
  have hyphens : Utf8.encode "--" = [0x2d, 0x2d] := by decide
  rw [Utf8.encode_append, hyphens]
  rfl

/-- A slice behind its delimiter. -/
def partBody (b : Blob) (payload : Bytes) (slice : Nat × Nat) : Bytes :=
  Utf8.encode (typeLine b) ++ (lineEnd ++ (Utf8.encode (rangeLine slice payload.length) ++
    (lineEnd ++ (lineEnd ++ payload.slice slice.1 (slice.2 + 1)))))

theorem part_eq (b : Blob) (boundary : String) (payload : Bytes) (slice : Nat × Nat) :
    part b boundary payload slice =
      lineEnd ++ (delimiter boundary ++ (lineEnd ++ partBody b payload slice)) := by
  have opening : "\x0d\n--" = "\x0d\n" ++ "--" := by decide
  have kind : "\x0d\nContent-Type: " = "\x0d\n" ++ "Content-Type: " := by decide
  have range : "Content-Range: bytes " = "Content-Range: " ++ "bytes " := by decide
  have closing : "\x0d\n\x0d\n" = "\x0d\n" ++ "\x0d\n" := by decide
  have text : s!"\x0d\n--{boundary}\x0d\nContent-Type: {b.contentType}\x0d\n" ++
      s!"Content-Range: bytes {slice.1}-{slice.2}/{payload.length}\x0d\n\x0d\n" =
      "\x0d\n" ++ (("--" ++ boundary) ++ ("\x0d\n" ++ (typeLine b ++ ("\x0d\n" ++
        (rangeLine slice payload.length ++ ("\x0d\n" ++ "\x0d\n")))))) := by
    simp only [typeLine_eq, rangeLine_eq, Http.ContentRange.written, toString, opening, kind, range,
      closing, String.append_assoc]
  rw [part, text, Utf8.encode_append, Utf8.encode_append ("--" ++ boundary), encode_delimiter,
    Utf8.encode_append "\x0d\n", Utf8.encode_append (typeLine b), Utf8.encode_append "\x0d\n",
    Utf8.encode_append (rangeLine _ _), Utf8.encode_append "\x0d\n", encode_lineEnd]
  simp only [partBody, List.append_assoc]

theorem encode_closing (boundary : String) : Utf8.encode s!"\x0d\n--{boundary}--\x0d\n" =
    lineEnd ++ (delimiter boundary ++ (0x2d :: 0x2d :: lineEnd)) := by
  have opening : "\x0d\n--" = "\x0d\n" ++ "--" := by decide
  have closing : Utf8.encode "--\x0d\n" = 0x2d :: 0x2d :: lineEnd := by decide
  have text : s!"\x0d\n--{boundary}--\x0d\n" =
      "\x0d\n" ++ (("--" ++ boundary) ++ "--\x0d\n") := by
    simp only [toString, opening, String.append_assoc]
  rw [text, Utf8.encode_append, Utf8.encode_append ("--" ++ boundary), encode_lineEnd,
    encode_delimiter, closing]

theorem free_printable {s : String} (printable : Text.IsPrintable s) : 0x0a ∉ Utf8.encode s := by
  have free : '\n' ∉ s.toList := fun member => absurd (printable _ member).1 (by decide)
  exact Utf8.not_mem_encodeChars (by decide) free

theorem printable_append {s t : String} (hs : Text.IsPrintable s) (ht : Text.IsPrintable t) :
    Text.IsPrintable (s ++ t) := by
  intro c member
  rw [String.toList_append] at member
  exact (List.mem_append.mp member).elim (hs c) (ht c)

theorem lineRange?_type (cs : List Char) :
    BytePart.lineRange? (String.ofList ("Content-Type: ".toList ++ cs)) = none := by
  have form : (String.ofList ("Content-Type: ".toList ++ cs)).toList =
      "Content-Type".toList ++ ':' :: (' ' :: cs) := by
    have fixed : "Content-Type: ".toList = "Content-Type".toList ++ ':' :: [' '] := by decide
    rw [String.toList_ofList, fixed, List.append_assoc]
    rfl
  have other : Text.sameName (Text.trim "Content-Type") "Content-Range" = false := by decide
  rw [BytePart.lineRange?, Text.cutAt_eq form (by decide)]
  simp [other]

theorem gives_rangeLine {total : Nat} (ordered : slice.1 ≤ slice.2) (inside : slice.2 < total)
    (fits : total ≤ Text.maxWord) :
    BytePart.Gives (rangeLine slice total) ⟨slice.1, slice.2, some total⟩ := by
  have form : (rangeLine slice total).toList = "Content-Range".toList ++
      ':' :: (' ' :: (Http.ContentRange.written slice.1 slice.2 total).toList) := by
    have fixed : "Content-Range: ".toList = "Content-Range".toList ++ ':' :: [' '] := by
      decide
    rw [rangeLine_eq, String.toList_append, fixed, List.append_assoc]
    rfl
  rw [Http.ContentRange.toList_written] at form
  exact BytePart.gives_span form ordered (by omega) (.known (Text.numeral_digits fits))

theorem printable_written (first last total : Nat) :
    Text.IsPrintable (Http.ContentRange.written first last total) := by
  have fixed : Text.IsPrintable "bytes " := by decide
  have digit {c : Char} (h : c.isDigit = true) : 0x20 ≤ c.toNat ∧ c.toNat < 0x7f := by
    have := Text.toNat_of_isDigit h
    omega
  intro c member
  rw [Http.ContentRange.toList_written] at member
  rcases List.mem_append.mp member with word | member
  · exact fixed c word
  · rcases List.mem_append.mp member with span | member
    · rcases Http.mem_span span with h | rfl
      · exact digit h
      · decide
    · rcases List.mem_cons.mp member with rfl | total
      · decide
      · exact digit (Text.isDigit_of_mem_digits total)

theorem printable_rangeLine (slice : Nat × Nat) (total : Nat) :
    Text.IsPrintable (rangeLine slice total) := by
  have fixed : Text.IsPrintable "Content-Range: " := by decide
  exact rangeLine_eq slice total ▸ printable_append fixed (printable_written _ _ _)

theorem encode_ne_nil {s t : String} (nonempty : Utf8.encode s ≠ []) : Utf8.encode (s ++ t) ≠ [] := by
  rw [Utf8.encode_append]
  exact List.append_ne_nil_of_left_ne_nil nonempty _

/-- The lines that a content type makes among headers, but for the first. -/
def furtherLines (kind : String) : List (List Char) :=
  (Text.splitAt '\n' (kind.toList ++ ['\r'])).tail

/-- A content type that leaves the headers of a part as they are. -/
def KeepsHeaders (kind : String) : Prop :=
  ∀ line ∈ furtherLines kind, BytePart.Passes line

theorem keepsHeaders_of_printable {kind : String} (printable : Text.IsPrintable kind) :
    KeepsHeaders kind := by
  have free : '\n' ∉ kind.toList ++ ['\r'] := by
    rw [List.mem_append, not_or]
    exact ⟨fun member => absurd (printable _ member).1 (by decide), by decide⟩
  rw [KeepsHeaders, furtherLines, Text.splitAt_free free]
  simp

theorem chomp_type (cs : List Char) : BytePart.chomp ("Content-Type: ".toList ++ cs) ≠ [] ∧
    BytePart.lineRange? (String.ofList (BytePart.chomp ("Content-Type: ".toList ++ cs))) = none := by
  rw [BytePart.chomp_append (by decide), lineRange?_type]
  simp

theorem exists_lines (b : Blob) : ∃ first,
    (∀ cs ∈ ("Content-Type: ".toList ++ first) :: furtherLines b.contentType, '\n' ∉ cs) ∧
      Utf8.encode (typeLine b) ++ lineEnd =
        BytePart.written (("Content-Type: ".toList ++ first) :: furtherLines b.contentType) := by
  obtain ⟨first, others, split, joined⟩ := Text.splitAt_prepend
    (show '\n' ∉ "Content-Type: ".toList by decide) (b.contentType.toList ++ ['\r'])
  refine ⟨first, ?_, ?_⟩
  · rw [furtherLines, split, List.tail_cons, ← joined]
    exact Text.free_splitAt '\n' _
  · rw [furtherLines, split, List.tail_cons, ← joined, BytePart.written_splitAt, typeLine_eq,
      Utf8.encode, String.toList_append, ← List.append_assoc "Content-Type: ".toList,
      Utf8.encodeChars_append _ ['\r'], List.append_assoc]
    rfl

theorem sound_typeLine (keeps : KeepsHeaders b.contentType) :
    BytePart.Lines BytePart.Sound (Utf8.encode (typeLine b) ++ lineEnd) := by
  obtain ⟨first, free, form⟩ := exists_lines b
  obtain ⟨nonempty, quiet⟩ := chomp_type first
  rw [form]
  refine BytePart.lines_written free (List.forall_mem_cons.mpr ⟨⟨nonempty, ?_⟩, ?_⟩)
  · exact .inl (BytePart.lineRange?_eq_none_iff.mp quiet)
  · intro cs member
    obtain ⟨filled, sound⟩ := keeps cs member
    exact ⟨filled, BytePart.sound_iff.mpr sound⟩

theorem heads_partBody (keeps : KeepsHeaders b.contentType) {total : Nat} (ordered : slice.1 ≤ slice.2)
    (inside : slice.2 < total) (fits : total ≤ Text.maxWord) :
    BytePart.Heads ((Utf8.encode (typeLine b) ++ lineEnd) ++ ((Utf8.encode (rangeLine slice total) ++ lineEnd) ++
      ([] ++ lineEnd))) ⟨slice.1, slice.2, some total⟩ := by
  have line := BytePart.Line.returnFeed (free_printable (printable_rangeLine slice total))
  have filled : rangeLine slice total ≠ "" := by
    intro empty
    have some : Utf8.encode (rangeLine slice total) ≠ [] :=
      rangeLine_eq slice total ▸ encode_ne_nil (by decide)
    rw [empty] at some
    exact some rfl
  exact ⟨_, _, _, _, rangeLine slice total, rfl, sound_typeLine keeps, line, filled,
    gives_rangeLine ordered inside fits, .none, .returnFeed List.not_mem_nil⟩

theorem holds_partBody (keeps : KeepsHeaders b.contentType) (fits : payload.length ≤ Text.maxWord)
    (ordered : slice.1 ≤ slice.2) (inside : slice.2 < payload.length) (rest : Bytes) :
    BytePart.Holds ⟨slice.1, payload.slice slice.1 (slice.2 + 1)⟩ rest
      (lineEnd ++ (partBody b payload slice ++ rest)) := by
  have length : (payload.slice slice.1 (slice.2 + 1)).length = slice.2 - slice.1 + 1 := by
    rw [Bytes.length_slice (by omega)]
    omega
  have sized : (⟨slice.1, slice.2, some payload.length⟩ : Http.ContentRange).length? =
      some (payload.slice slice.1 (slice.2 + 1)).length :=
    Http.ContentRange.length?_eq_some_iff.mpr ⟨ordered, length, by omega⟩
  let part : BytePart := ⟨slice.1, payload.slice slice.1 (slice.2 + 1)⟩
  have made : BytePart.Holds part rest (lineEnd ++ (((Utf8.encode (typeLine b) ++ lineEnd) ++
      ((Utf8.encode (rangeLine slice payload.length) ++ lineEnd) ++ ([] ++ lineEnd))) ++
      (part.data ++ rest))) :=
    .mk (.returnFeed List.not_mem_nil) (heads_partBody keeps ordered inside fits) rfl sized
  rw [partBody]
  simpa only [List.append_assoc, List.nil_append] using made

def behind (b : Blob) (boundary : String) (payload : Bytes) : List (Nat × Nat) → Bytes
  | [] => 0x2d :: 0x2d :: lineEnd
  | slice :: rest => lineEnd ++ (partBody b payload slice ++
      (lineEnd ++ (delimiter boundary ++ behind b boundary payload rest)))

theorem multipartBody_eq (b : Blob) (boundary : String) (payload : Bytes)
    (slices : List (Nat × Nat)) : multipartBody b boundary payload slices =
      lineEnd ++ (delimiter boundary ++ behind b boundary payload slices) := by
  rw [multipartBody, encode_closing]
  induction slices with
  | nil => rfl
  | cons slice rest ih =>
    rw [List.flatMap_cons, part_eq, List.append_assoc, ih]
    simp only [behind, List.append_assoc]

theorem follows_behind (keeps : KeepsHeaders b.contentType) (fits : payload.length ≤ Text.maxWord)
    {slices : List (Nat × Nat)} (proper : ∀ s ∈ slices, s.1 ≤ s.2 ∧ s.2 < payload.length) :
    BytePart.Follows (delimiter boundary) (behind b boundary payload slices)
      (slices.map fun s => ⟨s.1, payload.slice s.1 (s.2 + 1)⟩) := by
  induction slices with
  | nil => exact .closed lineEnd
  | cons slice rest ih =>
    obtain ⟨ordered, inside⟩ := proper slice List.mem_cons_self
    exact .part (by simp [behind, lineEnd]) (holds_partBody keeps fits ordered inside _)
      (Text.first_of_free rfl (by decide)) (ih fun s member => proper s (List.mem_cons_of_mem _ member))

/-- The parts of a body are the slices that were put into it. -/
theorem parse_multipartBody (keeps : KeepsHeaders b.contentType) (boundary : String)
    (fits : payload.length ≤ Text.maxWord) {slices : List (Nat × Nat)}
    (proper : ∀ s ∈ slices, s.1 ≤ s.2 ∧ s.2 < payload.length) :
    BytePart.parse (multipartBody b boundary payload slices) boundary =
      .ok (slices.map fun s => ⟨s.1, payload.slice s.1 (s.2 + 1)⟩) := by
  rw [multipartBody_eq, BytePart.parse_eq_ok_iff]
  exact ⟨lineEnd, _, rfl, Text.first_of_free rfl (by decide), follows_behind keeps fits proper⟩

/-- A content type with a blank line in it, before which no line tells a range. -/
def EndsHeaders (kind : String) : Prop :=
  ∃ quiet blank more, furtherLines kind = quiet ++ blank :: more ∧
    (∀ line ∈ quiet, BytePart.chomp line ≠ [] ∧
      BytePart.lineRange? (String.ofList (BytePart.chomp line)) = none) ∧
    BytePart.chomp blank = []

/-- A content type with a blank line in it leaves the first part without a range. -/
theorem parse_ended (ends : EndsHeaders b.contentType) (boundary : String) (payload : Bytes)
    (slice : Nat × Nat) (rest : List (Nat × Nat)) :
    BytePart.parse (multipartBody b boundary payload (slice :: rest)) boundary =
      .error (.parts .noRange) := by
  obtain ⟨quiet, blank, more, lines, told, empty⟩ := ends
  obtain ⟨first, free, form⟩ := exists_lines b
  have ended : ("Content-Type: ".toList ++ first) :: furtherLines b.contentType =
      (("Content-Type: ".toList ++ first) :: quiet) ++ blank :: more := by
    rw [lines, List.cons_append]
  rw [ended] at free form
  rw [BytePart.written_append, BytePart.written_cons blank, List.append_cons] at form
  have all : ∀ cs ∈ ("Content-Type: ".toList ++ first) :: quiet, BytePart.chomp cs ≠ [] ∧
      BytePart.lineRange? (String.ofList (BytePart.chomp cs)) = none :=
    List.forall_mem_cons.mpr ⟨chomp_type first, told⟩
  have silent : BytePart.Lines BytePart.Silent
      (BytePart.written (("Content-Type: ".toList ++ first) :: quiet)) := by
    refine BytePart.lines_written (fun cs member => free cs (List.mem_append_left _ member)) ?_
    intro cs member
    exact ⟨(all cs member).1, BytePart.lineRange?_eq_none_iff.mp (all cs member).2⟩
  have blankLine : BytePart.Line (Utf8.encodeChars blank ++ [0x0a]) [] := by
    have line := BytePart.line_encodeChars (free blank (by simp))
    rwa [empty] at line
  have headed (rest : Bytes) :
      BytePart.headers none (Utf8.encode (typeLine b) ++ (lineEnd ++ rest)) =
        .ok (none, BytePart.written more ++ rest) := by
    have bare : BytePart.Bare _ := ⟨_, _, rfl, silent, blankLine⟩
    rw [← List.append_assoc, form, ← List.append_assoc, List.append_assoc]
    exact bare.headers none _
  rw [BytePart.parse, multipartBody_eq, BytePart.after?_lineEnd rfl]
  simp only [behind, partBody, List.append_assoc]
  rw [BytePart.partsFrom_eq, if_neg (by simp [lineEnd]), BytePart.part, BytePart.line?_blank]
  simp only [headed]

end BlobReplica.Service
