import BlobReplica.Http.Header
import BlobReplica.Proofs.Http.Fields
import BlobReplica.Recovery.Authority

/-! Byte ranges as they are written in headers: the receiving side reads the positions that the
other side wrote. -/

namespace BlobReplica.Http

open Text (digits)

variable {first last total size : Nat} {value item : String}

/-- `first-last` -/
def span (first last : Nat) : List Char :=
  digits first ++ '-' :: digits last

theorem free_digits {mark : Char} {n : Nat} (other : mark.isDigit = false) : mark ∉ digits n :=
  fun member => Text.digit_ne (Text.isDigit_of_mem_digits member) other rfl

theorem free_span {mark : Char} (other : mark.isDigit = false) (hyphen : mark ≠ '-') :
    mark ∉ span first last := by
  simp [span, free_digits other, hyphen]

theorem toList_span (first last : Nat) : s!"{first}-{last}".toList = span first last := by
  simp only [String.toList_append, Text.toList_toString, span, List.append_assoc]
  rfl

theorem mem_span {c : Char} (member : c ∈ span first last) : c.isDigit = true ∨ c = '-' := by
  rcases List.mem_append.mp member with digit | rest
  · exact .inl (Text.isDigit_of_mem_digits digit)
  · rcases List.mem_cons.mp rest with same | digit
    · exact .inr same
    · exact .inl (Text.isDigit_of_mem_digits digit)

theorem solid_span {c : Char} (member : c ∈ span first last) : Text.isBlank c = false := by
  rcases mem_span member with digit | rfl
  · exact Text.isBlank_of_isDigit digit
  · decide

theorem trim_span (first last : Nat) :
    Text.trim (String.ofList (span first last)) = String.ofList (span first last) := by
  refine Text.trim_eq ?_
  rw [String.toList_ofList]
  exact Text.trimChars_solid fun c => solid_span

theorem ofList_span_ne_empty (first last : Nat) : String.ofList (span first last) ≠ "" := by
  intro empty
  have none := congrArg String.toList empty
  simp [span] at none

namespace RangeRequest

theorem item?_span (form : item.toList = span first last) (ordered : first ≤ last)
    (inside : last < size) (fits : last ≤ Text.maxWord) : item? size item = some (first, last) := by
  rw [item?_eq_some_iff, form]
  exact .between (Text.numeral_digits (Nat.le_trans ordered fits)) (Text.numeral_digits fits) ordered
    inside

theorem mapM_item? {ranges : List ByteRange} (solid : ∀ r ∈ ranges, r.start < r.stop)
    (inside : ∀ r ∈ ranges, r.stop ≤ size) (fits : size ≤ Text.maxWord) :
    (ranges.map fun r => String.ofList (span r.start (r.stop - 1))).mapM (item? size) =
      some (ranges.map fun r => (r.start, r.stop - 1)) := by
  induction ranges with
  | nil => rfl
  | cons r rest ih =>
    have first := solid r List.mem_cons_self
    have bound := inside r List.mem_cons_self
    have read : item? size (String.ofList (span r.start (r.stop - 1))) =
        some (r.start, r.stop - 1) :=
      item?_span (String.toList_ofList) (by omega) (by omega) (by omega)
    have others := ih (fun x member => solid x (List.mem_cons_of_mem _ member))
      fun x member => inside x (List.mem_cons_of_mem _ member)
    simp [List.mapM_cons, read, others]

theorem toList_rangeHeader {ranges : List ByteRange} (solid : ∀ r ∈ ranges, r.start < r.stop) :
    (Recovery.FetchRequest.rangeHeader ranges).toList =
      "bytes=".toList ++ [','].intercalate (ranges.map fun r => span r.start (r.stop - 1)) := by
  have all : ranges.filter (fun r => r.start < r.stop) = ranges :=
    List.filter_eq_self.mpr fun r member => decide_eq_true (solid r member)
  rw [Recovery.FetchRequest.rangeHeader, all, String.toList_append, String.toList_intercalate,
    List.map_map]
  simp only [Function.comp_def, toList_span]
  rfl

theorem mem_spans {ranges : List ByteRange} {c : Char}
    (member : c ∈ [','].intercalate (ranges.map fun r => span r.start (r.stop - 1))) :
    c = ',' ∨ c.isDigit = true ∨ c = '-' := by
  refine (Text.mem_intercalate member).imp id ?_
  rintro ⟨p, listed, here⟩
  obtain ⟨r, _, rfl⟩ := List.mem_map.mp listed
  exact mem_span here

theorem items_spans {ranges : List ByteRange} (nonempty : ranges ≠ []) :
    (((Text.split ',' (String.ofList ([','].intercalate
      (ranges.map fun r => span r.start (r.stop - 1))))).map Text.trim).filter (· ≠ "")) =
      ranges.map fun r => String.ofList (span r.start (r.stop - 1)) := by
  have listed : ranges.map (fun r => span r.start (r.stop - 1)) ≠ [] := by simpa using nonempty
  have free : ∀ p ∈ ranges.map fun r => span r.start (r.stop - 1), ',' ∉ p := by
    intro p member
    obtain ⟨r, _, rfl⟩ := List.mem_map.mp member
    exact free_span (by decide) (by decide)
  rw [Text.split, String.toList_ofList, Text.splitAt_intercalate listed free, List.map_map,
    List.map_map, List.filter_eq_self.mpr]
  · exact List.map_congr_left fun r _ => trim_span r.start (r.stop - 1)
  · intro item member
    obtain ⟨r, _, rfl⟩ := List.mem_map.mp member
    simp only [Function.comp_apply, trim_span]
    exact decide_eq_true (ofList_span_ne_empty _ _)

/-- The slices that a range header asks for are the intervals it was written for. -/
theorem parse_rangeHeader {ranges : List ByteRange} (nonempty : ranges ≠ [])
    (solid : ∀ r ∈ ranges, r.start < r.stop) (inside : ∀ r ∈ ranges, r.stop ≤ size)
    (fits : size ≤ Text.maxWord) :
    parse (some (Recovery.FetchRequest.rangeHeader ranges)) size =
      .slices (ranges.map fun r => (r.start, r.stop - 1)) := by
  have trimmed : Text.trim (Recovery.FetchRequest.rangeHeader ranges) =
      Recovery.FetchRequest.rangeHeader ranges := by
    refine Text.trim_eq (Text.trimChars_solid ?_)
    rw [toList_rangeHeader solid]
    refine Text.solid_append (by decide) fun c member => ?_
    rcases mem_spans member with rfl | digit | rfl
    · decide
    · exact Text.isBlank_of_isDigit digit
    · decide
  have read := mapM_item? solid inside fits
  have items := items_spans nonempty
  obtain ⟨r, rest, rfl⟩ := List.exists_cons_of_ne_nil nonempty
  simp only [parse, trimmed, Text.dropStart_append (toList_rangeHeader solid), items, read]
  rfl

theorem isReadable_rangeHeader {ranges : List ByteRange} (solid : ∀ r ∈ ranges, r.start < r.stop) :
    Headers.isReadable (Recovery.FetchRequest.rangeHeader ranges) = true := by
  refine List.all_eq_true.mpr fun c member => ?_
  have word : Headers.isReadable "bytes=" = true := by decide
  rw [toList_rangeHeader solid] at member
  rcases List.mem_append.mp member with fixed | member
  · exact List.all_eq_true.mp word c fixed
  · rcases mem_spans member with rfl | digit | rfl
    · decide
    · have := Text.toNat_of_isDigit digit
      simp only [Bool.or_eq_true, Bool.and_eq_true, decide_eq_true_eq]
      omega
    · decide

theorem proper_parse {header : Option String} {slices : List (Nat × Nat)}
    (parsed : parse header size = .slices slices) :
    slices ≠ [] ∧ ∀ s ∈ slices, Proper size s := by
  cases header with
  | none => contradiction
  | some header => exact (parse_eq_slices_iff.mp parsed).proper

end RangeRequest

namespace ContentRange

/-- A slice of a whole as the header has it. -/
def written (first last total : Nat) : String :=
  s!"bytes {first}-{last}/{total}"

theorem toList_written (first last total : Nat) : (written first last total).toList =
    "bytes ".toList ++ (span first last ++ '/' :: digits total) := by
  simp only [written, String.toList_append, Text.toList_toString, span, List.append_assoc]
  rfl

theorem tells_span {cs : List Char} {whole : Option Nat} (ordered : first ≤ last)
    (fits : last ≤ Text.maxWord) (told : Total cs whole) :
    Tells ("bytes ".toList ++ (span first last ++ '/' :: cs)) ⟨first, last, whole⟩ := by
  have blank : Text.Blank [' '] := by
    intro c member
    rw [List.mem_singleton.mp member]
    decide
  refine ⟨[], ' ' :: digits first, digits last, cs, Text.blank_nil, ?_,
    (Text.numeral_digits (Nat.le_trans ordered fits)).behind blank, Text.numeral_digits fits, ordered,
    told⟩
  simp [span]

theorem parse?_written (ordered : first ≤ last) (inside : last < total) (fits : total ≤ Text.maxWord) :
    parse? (written first last total) = some ⟨first, last, some total⟩ := by
  rw [parse?_eq_some_iff, toList_written]
  exact tells_span ordered (by omega) (.known (Text.numeral_digits fits))

end ContentRange

section boundary

variable {boundary : String}

theorem split_boundary (semicolon : ';' ∉ boundary.toList) :
    Text.split ';' s!"multipart/byteranges; boundary={boundary}" =
      ["multipart/byteranges", String.ofList (" boundary=".toList ++ boundary.toList)] := by
  have fixed : "multipart/byteranges; boundary=".toList =
      "multipart/byteranges".toList ++ ';' :: " boundary=".toList := by decide
  have written : s!"multipart/byteranges; boundary={boundary}".toList =
      "multipart/byteranges".toList ++ ';' :: (" boundary=".toList ++ boundary.toList) := by
    show ("multipart/byteranges; boundary=" ++ boundary).toList = _
    rw [String.toList_append, fixed, List.append_assoc, List.cons_append]
  rw [Text.split, written, Text.splitAt_append (by decide), Text.splitAt_free]
  · simp
  · rw [List.mem_append, not_or]
    exact ⟨by decide, semicolon⟩

theorem cutAt_boundary (solid : ∀ c ∈ boundary.toList, Text.isBlank c = false) :
    Text.cutAt '=' (Text.trim (String.ofList (" boundary=".toList ++ boundary.toList))) =
      some ("boundary", boundary) := by
  have blank : Text.isBlank ' ' = true := by decide
  have trimmed : Text.trim (String.ofList (" boundary=".toList ++ boundary.toList)) =
      String.ofList ("boundary=".toList ++ boundary.toList) := by
    rw [Text.trim, String.toList_ofList]
    congr 1
    exact (Text.trimChars_blank_cons blank).trans
      (Text.trimChars_solid (Text.solid_append (by decide) solid))
  have form : (String.ofList ("boundary=".toList ++ boundary.toList)).toList =
      "boundary".toList ++ '=' :: boundary.toList := by simp
  rw [trimmed, Text.cutAt_eq form (by decide), String.ofList_toList, String.ofList_toList]

theorem boundary?_written (semicolon : ';' ∉ boundary.toList) (quote : '"' ∉ boundary.toList)
    (solid : ∀ c ∈ boundary.toList, Text.isBlank c = false) :
    boundary? s!"multipart/byteranges; boundary={boundary}" = some boundary := by
  have kind : Text.sameName (Text.trim "multipart/byteranges") "multipart/byteranges" = true := by
    decide
  have named : Text.sameName (Text.trim "boundary") "boundary" = true := by decide
  have plain : unquoted (Text.trim boundary) = boundary := by
    rw [Text.trim_eq (Text.trimChars_solid solid), unquoted]
    split
    next rest form => exact absurd (form ▸ List.mem_cons_self) quote
    next => rfl
  simp only [boundary?, split_boundary semicolon, kind, if_true, parameter?, List.drop_succ_cons,
    List.drop_zero, List.findSome?_cons, cutAt_boundary solid, Option.bind_eq_bind,
    Option.bind_some, named, plain]

end boundary
end BlobReplica.Http
