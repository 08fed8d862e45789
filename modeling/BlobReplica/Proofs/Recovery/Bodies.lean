import BlobReplica.Proofs.Recovery.Grammar

/-! Bodies with several byte ranges as they may be written: lines of both kinds, other header lines around the
range, anything before the first delimiter and behind the closing one. What is read is what was written, also
where the bytes of a part look like a delimiter or like headers. -/

namespace BlobReplica.Recovery.BytePart

open Http (ContentRange)

variable {boundary : String} {preamble : Bytes}

/-- The end of a line, without a carriage return or with one. -/
inductive Ending where
  | feed
  | returnFeed
deriving DecidableEq

def Ending.bytes : Ending → Bytes
  | .feed => [0x0a]
  | .returnFeed => lineEnd

theorem Ending.line (ending : Ending) {text : String} (single : '\n' ∉ text.toList)
    (plain : '\r' ∉ text.toList) : Line (Utf8.encode text ++ ending.bytes) (Utf8.encode text) := by
  have free : 0x0a ∉ Utf8.encode text := Utf8.not_mem_encodeChars (by decide) single
  cases ending with
  | feed =>
    refine .feed free fun last => plain ?_
    exact List.mem_of_getLast? (Utf8.getLast?_of_encodeChars (by decide) last)
  | returnFeed => exact .returnFeed free

theorem Ending.blank (ending : Ending) : Line ending.bytes [] := by
  have line : Line (Utf8.encode "" ++ ending.bytes) (Utf8.encode "") := ending.line (by simp) (by simp)
  exact line

/-- A line feed is at the front or behind a carriage return, a hyphen nowhere. -/
theorem Ending.not_hyphen (ending : Ending) : 0x2d ∉ ending.bytes := by
  cases ending <;> decide

/-- A header line beside the range. -/
structure HeaderLine where
  text : String
  ending : Ending
  filled : text ≠ ""
  single : '\n' ∉ text.toList
  plain : '\r' ∉ text.toList
  silent : Silent text

def HeaderLine.bytes (line : HeaderLine) : Bytes :=
  Utf8.encode line.text ++ line.ending.bytes

theorem lines_headers (headers : List HeaderLine) : Lines Silent (headers.flatMap HeaderLine.bytes) := by
  induction headers with
  | nil => exact .none
  | cons line others ih =>
    rw [List.flatMap_cons]
    exact .more (line.ending.line line.single line.plain) line.filled line.silent ih

/-- A part as it may be written. -/
structure PartText where
  offset : Nat
  data : Bytes
  /-- The length of the whole, if it is known. -/
  total : Option UInt64
  /-- The end of the line that the delimiter is on. -/
  opening : Ending
  before : List HeaderLine
  /-- The end of the line with the range. -/
  ranged : Ending
  after : List HeaderLine
  blank : Ending
  /-- The line end behind the data. -/
  closing : Ending
  filled : data ≠ []
  fits : offset + data.length ≤ Text.maxWord

namespace PartText

variable (p : PartText)

def part : BytePart :=
  ⟨p.offset, p.data⟩

def last : Nat :=
  p.offset + p.data.length - 1

def totalText : Option UInt64 → String
  | some n => toString n.toNat
  | none => "*"

/-- The line that gives the range. -/
def rangeLine : String :=
  "Content-Range: bytes " ++ s!"{p.offset}-{p.last}" ++ "/" ++ totalText p.total

/-- The lines between delimiter and data. -/
def headerBytes : Bytes :=
  p.before.flatMap HeaderLine.bytes ++ ((Utf8.encode p.rangeLine ++ p.ranged.bytes) ++
    (p.after.flatMap HeaderLine.bytes ++ p.blank.bytes))

def bytes : Bytes :=
  p.opening.bytes ++ (p.headerBytes ++ (p.data ++ p.closing.bytes))

def range : ContentRange :=
  ⟨p.offset, p.last, p.total.map UInt64.toNat⟩

theorem last_eq : p.last + 1 = p.offset + p.data.length := by
  have some := List.length_pos_of_ne_nil p.filled
  rw [last]
  omega

theorem length?_range : p.range.length? = some p.data.length := by
  have some := List.length_pos_of_ne_nil p.filled
  have last := p.last_eq
  have fits := p.fits
  rw [ContentRange.length?_eq_some_iff, range]
  simp only
  omega

theorem total_text (total : Option UInt64) :
    ContentRange.Total (totalText total).toList (total.map UInt64.toNat) := by
  cases total with
  | none => exact .unknown (Text.padded_refl _)
  | some n =>
    have fits : n.toNat ≤ Text.maxWord := Nat.le_of_lt_succ n.toNat_lt
    rw [totalText, Text.toList_toString]
    exact .known (Text.numeral_digits fits)

def rangeChars : List Char :=
  "bytes ".toList ++ (Http.span p.offset p.last ++ '/' :: (totalText p.total).toList)

theorem toList_rangeLine :
    p.rangeLine.toList = "Content-Range".toList ++ ':' :: ' ' :: p.rangeChars := by
  have front : "Content-Range: bytes ".toList = "Content-Range".toList ++ ':' :: ' ' :: "bytes ".toList := by
    decide
  have slash : "/".toList = ['/'] := by decide
  unfold rangeLine rangeChars
  rw [String.toList_append, String.toList_append, String.toList_append, Http.toList_span, front, slash]
  simp only [List.append_assoc, List.cons_append, List.nil_append]

theorem gives_range : Gives p.rangeLine p.range := by
  have some := List.length_pos_of_ne_nil p.filled
  have last := p.last_eq
  have fits := p.fits
  exact gives_span p.toList_rangeLine (by omega) (by omega) (total_text p.total)

theorem free_rangeLine {mark : Char} (digit : mark.isDigit = false)
    (other : mark ∉ "Content-Range: bytes -/*".toList) : mark ∉ p.rangeLine.toList := by
  have pieces : "Content-Range: bytes -/*".toList =
      "Content-Range".toList ++ (':' :: ' ' :: "bytes ".toList ++ ['-', '/', '*']) := by decide
  simp only [pieces, List.mem_append, List.mem_cons, List.not_mem_nil, not_or, or_false] at other
  obtain ⟨name, ⟨colon, blank, word⟩, hyphen, slash, star⟩ := other
  have total : mark ∉ (totalText p.total).toList := by
    cases p.total with
    | none =>
      have text : (totalText none).toList = ['*'] := by decide
      rw [text, List.mem_singleton]
      exact star
    | some n =>
      rw [totalText, Text.toList_toString]
      exact Http.free_digits digit
  have span : mark ∉ Http.span p.offset p.last := Http.free_span digit hyphen
  rw [toList_rangeLine]
  unfold rangeChars
  simp only [List.mem_append, List.mem_cons, not_or]
  exact ⟨name, colon, blank, word, span, slash, total⟩

theorem rangeLine_ne : p.rangeLine ≠ "" := by
  intro empty
  have some : p.rangeLine.toList ≠ [] := by
    rw [toList_rangeLine]
    exact List.append_ne_nil_of_right_ne_nil _ (List.cons_ne_nil _ _)
  exact some (congrArg String.toList empty)

theorem heads : Heads p.headerBytes p.range := by
  have single : '\n' ∉ p.rangeLine.toList := p.free_rangeLine (by decide) (by decide)
  have plain : '\r' ∉ p.rangeLine.toList := p.free_rangeLine (by decide) (by decide)
  have sound : Lines Sound (p.before.flatMap HeaderLine.bytes) :=
    (lines_headers p.before).mono fun _ => .inl
  exact ⟨_, _, _, _, p.rangeLine, rfl, sound, p.ranged.line single plain, p.rangeLine_ne, p.gives_range,
    lines_headers p.after, p.blank.blank⟩

theorem holds (rest : Bytes) : Holds p.part (p.closing.bytes ++ rest) (p.bytes ++ rest) := by
  have made : Holds p.part (p.closing.bytes ++ rest)
      (p.opening.bytes ++ (p.headerBytes ++ (p.part.data ++ (p.closing.bytes ++ rest)))) :=
    .mk p.opening.blank p.heads rfl p.length?_range
  rw [bytes, List.append_assoc, List.append_assoc, List.append_assoc]
  exact made

theorem not_closing (rest : Bytes) : ¬ [0x2d, 0x2d] <+: p.bytes ++ rest := by
  rw [bytes]
  cases p.opening <;> simp [Ending.bytes, lineEnd]

end PartText

/-- What stands behind the first delimiter of a body. -/
def behind (delimiter : Bytes) (parts : List PartText) (epilogue : Bytes) : Bytes :=
  match parts with
  | [] => 0x2d :: 0x2d :: epilogue
  | p :: others => p.bytes ++ (delimiter ++ behind delimiter others epilogue)

theorem follows_behind (delimiter : Bytes) (hyphen : delimiter.head? = some 0x2d) (parts : List PartText)
    (epilogue : Bytes) : Follows delimiter (behind delimiter parts epilogue) (parts.map PartText.part) := by
  induction parts with
  | nil => exact .closed epilogue
  | cons p others ih =>
    exact .part (p.not_closing _) (p.holds _) (Text.first_of_free hyphen p.closing.not_hyphen) ih

/-- A body as it may be written. -/
def writtenBody (boundary : String) (preamble : Bytes) (parts : List PartText) (epilogue : Bytes) : Bytes :=
  preamble ++ (parts.flatMap (fun p => BytePart.delimiter boundary ++ p.bytes) ++
    (BytePart.delimiter boundary ++ 0x2d :: 0x2d :: epilogue))

theorem writtenBody_eq (boundary : String) (preamble : Bytes) (parts : List PartText) (epilogue : Bytes) :
    writtenBody boundary preamble parts epilogue =
      preamble ++ (delimiter boundary ++ behind (delimiter boundary) parts epilogue) := by
  rw [writtenBody]
  congr 1
  induction parts with
  | nil => rfl
  | cons p others ih =>
    rw [List.flatMap_cons, List.append_assoc, ih, behind]
    simp only [List.append_assoc]

/-- From a written body the parts are read that it was written from, if the first delimiter is not in what
stands before them. -/
theorem parse_writtenBody (parts : List PartText) (epilogue : Bytes)
    (first : Text.First (delimiter boundary) preamble) :
    parse (writtenBody boundary preamble parts epilogue) boundary = .ok (parts.map PartText.part) := by
  rw [writtenBody_eq, parse_eq_ok_iff]
  exact ⟨preamble, _, rfl, first, follows_behind _ rfl parts epilogue⟩

/-- A part that holds the closing delimiter, with bare line feeds. -/
def delimiterLike : PartText where
  offset := 2
  data := Utf8.encode "--B--"
  total := some 8
  opening := .feed
  before := []
  ranged := .feed
  after := []
  blank := .feed
  closing := .feed
  filled := by decide
  fits := by decide

/-- A part that begins like one, behind another header line. -/
def headerLike : PartText where
  offset := 9
  data := Utf8.encode "\r\nContent-Range: bytes 0-0/1\r\n\r\n"
  total := none
  opening := .returnFeed
  before :=
    [{ text := "Content-Type: text/plain"
       ending := .returnFeed
       filled := by decide
       single := by decide
       plain := by decide
       silent := lineRange?_eq_none_iff.mp (by decide) }]
  ranged := .returnFeed
  after := []
  blank := .returnFeed
  closing := .returnFeed
  filled := by decide
  fits := by decide

theorem parse_writtenBody_sample :
    Text.First (delimiter "B") (Utf8.encode "preamble\n") ∧
      writtenBody "B" (Utf8.encode "preamble\n") [delimiterLike] (Utf8.encode "\n") =
        Utf8.encode "preamble\n--B\nContent-Range: bytes 2-6/8\n\n--B--\n--B--\n" ∧
      parse (writtenBody "B" (Utf8.encode "preamble\n") [delimiterLike, headerLike] (Utf8.encode "\n")) "B" =
        .ok [⟨2, Utf8.encode "--B--"⟩, ⟨9, Utf8.encode "\r\nContent-Range: bytes 0-0/1\r\n\r\n"⟩] := by
  have first : Text.First (delimiter "B") (Utf8.encode "preamble\n") :=
    Text.first_of_free (x := 0x2d) rfl (by decide)
  refine ⟨first, ?_, ?_⟩
  · decide
  · exact parse_writtenBody [delimiterLike, headerLike] (Utf8.encode "\n") first

end BlobReplica.Recovery.BytePart
