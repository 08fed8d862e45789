import BlobReplica.Proofs.Http.Fields
import BlobReplica.Proofs.Recovery.Parts
import BlobReplica.Proofs.Text.Search

/-! The bodies that are read as parts. Behind a delimiter stand the rest of its line, header lines up to an
empty one, as many bytes as the last content range among them tells, and the next delimiter; the closing one
has two hyphens behind it. Reading accepts exactly these bodies, and nothing in them has two readings. -/

namespace BlobReplica.Recovery.BytePart

open Http (ContentRange)

variable {raw line rest body block delimiter : Bytes} {range found : Option ContentRange}
  {r : ContentRange} {text value : String} {parts : List BytePart}

/-- A line as it stands in a body and what it says. A carriage return before the line feed belongs to the
end of the line. -/
inductive Line : Bytes → Bytes → Prop
  | feed {line : Bytes} : 0x0a ∉ line → line.getLast? ≠ some 0x0d → Line (line ++ [0x0a]) line
  | returnFeed {line : Bytes} : 0x0a ∉ line → Line (line ++ lineEnd) line

theorem line_of_line? (read : line? body = some (line, rest)) :
    ∃ raw, Line raw line ∧ body = raw ++ rest := by
  unfold line? at read
  split at read
  next => contradiction
  next feed after found =>
    have stops := List.head?_dropWhile_not (· != 0x0a) body
    simp only [found, bne_eq_false_iff_eq] at stops
    subst stops
    obtain ⟨same, rfl⟩ := Prod.mk.inj (Option.some.inj read)
    have whole := List.takeWhile_append_dropWhile (p := (· != 0x0a)) (l := body)
    have free : 0x0a ∉ body.takeWhile (· != 0x0a) := by
      intro member
      have other := List.all_eq_true.mp List.all_takeWhile _ member
      simp at other
    rw [found] at whole
    generalize body.takeWhile (· != 0x0a) = front at same whole free
    split at same
    next last =>
      obtain ⟨content, rfl⟩ := List.getLast?_eq_some_iff.mp last
      rw [List.dropLast_concat] at same
      subst same
      refine ⟨content ++ lineEnd, .returnFeed fun member => free (List.mem_append_left _ member), ?_⟩
      rw [← whole, lineEnd]
      simp
    next other =>
      subst same
      exact ⟨front ++ [0x0a], .feed free other, by simp [← whole]⟩

theorem Line.line? (read : Line raw line) (rest : Bytes) :
    BytePart.line? (raw ++ rest) = some (line, rest) := by
  cases read with
  | feed free last =>
    rw [List.append_assoc]
    exact line?_bare free last
  | returnFeed free =>
    rw [List.append_assoc]
    exact line?_written free

theorem line?_eq_some_iff : line? body = some (line, rest) ↔ ∃ raw, Line raw line ∧ body = raw ++ rest := by
  constructor
  · exact line_of_line?
  · rintro ⟨raw, read, rfl⟩
    exact read.line? rest

theorem Line.length_pos (read : Line raw line) : 0 < raw.length := by
  cases read <;> simp [lineEnd]

/-- A header line named `Content-Range`, in any spelling, and its value. -/
def IsRangeLine (text value : String) : Prop :=
  ∃ name : String, text.toList = name.toList ++ ':' :: value.toList ∧ ':' ∉ name.toList ∧
    Text.sameName (Text.trim name) "Content-Range" = true

theorem isRangeLine_iff : IsRangeLine text value ↔ ∃ name, Text.cutAt ':' text = some (name, value) ∧
    Text.sameName (Text.trim name) "Content-Range" = true := by
  simp only [IsRangeLine, Text.cutAt_eq_some_iff, and_assoc]

/-- A header line that is no content range. -/
def Silent (text : String) : Prop :=
  ∀ value, ¬ IsRangeLine text value

/-- A header line that gives a content range. -/
def Gives (text : String) (r : ContentRange) : Prop :=
  ∃ value, IsRangeLine text value ∧ ContentRange.Tells value.toList r

theorem lineRange?_named (named : IsRangeLine text value) :
    lineRange? text = some (match ContentRange.parse? value with
      | some r => .ok r
      | none => .error (.contentRange value)) := by
  obtain ⟨name, cut, same⟩ := isRangeLine_iff.mp named
  simp only [lineRange?, cut, Option.bind_eq_bind, Option.bind_some, same, if_true]
  cases ContentRange.parse? value <;> rfl

theorem lineRange?_eq_none_iff : lineRange? text = none ↔ Silent text := by
  constructor
  · intro absent value named
    rw [lineRange?_named named] at absent
    cases absent
  · intro silent
    rw [lineRange?]
    cases cut : Text.cutAt ':' text with
    | none => rfl
    | some sides =>
      have other : ¬ Text.sameName (Text.trim sides.1) "Content-Range" = true :=
        fun same => silent sides.2 (isRangeLine_iff.mpr ⟨sides.1, cut, same⟩)
      simp only [Option.bind_eq_bind, Option.bind_some, if_neg other]

theorem lineRange?_eq_ok_iff : lineRange? text = some (.ok r) ↔ Gives text r := by
  constructor
  · intro ranged
    by_cases silent : Silent text
    · rw [lineRange?_eq_none_iff.mpr silent] at ranged
      cases ranged
    · obtain ⟨value, named⟩ := not_forall_not.mp silent
      rw [lineRange?_named named, Option.some_inj] at ranged
      split at ranged
      next range read =>
        obtain rfl := Except.ok.inj ranged
        exact ⟨value, named, ContentRange.parse?_eq_some_iff.mp read⟩
      next => cases ranged
  · rintro ⟨value, named, tells⟩
    rw [lineRange?_named named, tells.parse?]

theorem gives_span {first last : Nat} {whole : Option Nat} {cs : List Char}
    (form : text.toList = "Content-Range".toList ++
      ':' :: ' ' :: ("bytes ".toList ++ (Http.span first last ++ '/' :: cs)))
    (ordered : first ≤ last) (fits : last ≤ Text.maxWord) (told : ContentRange.Total cs whole) :
    Gives text ⟨first, last, whole⟩ := by
  have field := ContentRange.tells_span ordered fits told
  generalize "bytes ".toList ++ (Http.span first last ++ '/' :: cs) = chars at form field
  have value : (String.ofList (' ' :: chars)).toList = ' ' :: chars := String.toList_ofList
  have blank : Text.Blank [' '] := by
    intro c member
    rw [List.mem_singleton.mp member]
    decide
  refine ⟨String.ofList (' ' :: chars), ⟨"Content-Range", ?_, by decide, by decide⟩, ?_⟩
  · rw [value]
    exact form
  · rw [value]
    exact field.pad ⟨[' '], [], blank, Text.blank_nil, by simp⟩

/-- Header lines one after the other, each of them of one kind. -/
inductive Lines (kind : String → Prop) : Bytes → Prop
  | none : Lines kind []
  | more {raw block : Bytes} {text : String} : Line raw (Utf8.encode text) → text ≠ "" → kind text →
      Lines kind block → Lines kind (raw ++ block)

theorem Lines.mono {kind other : String → Prop} (lines : Lines kind block)
    (weaker : ∀ text, kind text → other text) : Lines other block := by
  induction lines with
  | none => exact .none
  | more read filled here _ ih => exact .more read filled (weaker _ here) ih

/-- A line that does not stop the reader. -/
def Sound (text : String) : Prop :=
  Silent text ∨ ∃ r, Gives text r

theorem sound_iff : Sound text ↔ ∀ e, lineRange? text ≠ some (.error e) := by
  rw [Sound, ← lineRange?_eq_none_iff]
  cases told : lineRange? text with
  | none => simp
  | some result =>
    cases result with
    | error e =>
      simp only [reduceCtorEq, false_or, ne_eq, Option.some.injEq, Except.error.injEq, forall_eq', iff_false]
      rintro ⟨r, gives⟩
      cases told.symm.trans (lineRange?_eq_ok_iff.mpr gives)
    | ok r => simpa using ⟨r, lineRange?_eq_ok_iff.mp told⟩

theorem line_encodeChars {cs : List Char} (free : '\n' ∉ cs) :
    Line (Utf8.encodeChars cs ++ [0x0a]) (Utf8.encode (String.ofList (chomp cs))) := by
  have bytes : 0x0a ∉ Utf8.encodeChars cs := Utf8.not_mem_encodeChars (by decide) free
  rw [Utf8.encode_ofList, chomp]
  split
  next last =>
    obtain ⟨front, rfl⟩ := List.getLast?_eq_some_iff.mp last
    rw [Utf8.encodeChars_append] at bytes ⊢
    rw [List.dropLast_concat, List.append_assoc]
    exact .returnFeed fun member => bytes (List.mem_append_left _ member)
  next other =>
    exact .feed bytes fun last => other (Utf8.getLast?_of_encodeChars (by decide) last)

theorem lines_written {kind : String → Prop} {pieces : List (List Char)} (free : ∀ cs ∈ pieces, '\n' ∉ cs)
    (all : ∀ cs ∈ pieces, chomp cs ≠ [] ∧ kind (String.ofList (chomp cs))) : Lines kind (written pieces) := by
  induction pieces with
  | nil => exact .none
  | cons cs others ih =>
    obtain ⟨filled, here⟩ := all cs List.mem_cons_self
    have next := ih (fun x member => free x (List.mem_cons_of_mem _ member))
      fun x member => all x (List.mem_cons_of_mem _ member)
    have some : String.ofList (chomp cs) ≠ "" := by
      rwa [Ne, ← String.ofList_nil, String.ofList_inj]
    rw [written_cons, List.append_cons]
    exact .more (line_encodeChars (free cs List.mem_cons_self)) some here next

/-- The headers of a part and the range that counts: the last one among them. An empty line ends
them. -/
def Heads (block : Bytes) (r : ContentRange) : Prop :=
  ∃ before raw after blank text, block = before ++ (raw ++ (after ++ blank)) ∧
    Lines Sound before ∧ Line raw (Utf8.encode text) ∧ text ≠ "" ∧ Gives text r ∧
    Lines Silent after ∧ Line blank []

theorem Heads.length_pos (heads : Heads block r) : 0 < block.length := by
  obtain ⟨_, _, _, _, _, rfl, _, _, _, _, _, blank⟩ := heads
  have ends := blank.length_pos
  simp only [List.length_append]
  omega

/-- Headers without a range. -/
def Bare (block : Bytes) : Prop :=
  ∃ lines blank, block = lines ++ blank ∧ Lines Silent lines ∧ Line blank []

theorem Heads.more (heads : Heads block r) (read : Line raw (Utf8.encode text)) (filled : text ≠ "")
    (sound : Sound text) : Heads (raw ++ block) r := by
  obtain ⟨before, told, after, blank, inner, rfl, lines, rest⟩ := heads
  exact ⟨raw ++ before, told, after, blank, inner, by simp, .more read filled sound lines, rest⟩

theorem Bare.more (bare : Bare block) (read : Line raw (Utf8.encode text)) (filled : text ≠ "")
    (silent : Silent text) : Bare (raw ++ block) := by
  obtain ⟨lines, blank, rfl, silents, ends⟩ := bare
  exact ⟨raw ++ lines, blank, by simp, .more read filled silent silents, ends⟩

theorem Bare.heads (bare : Bare block) (read : Line raw (Utf8.encode text)) (filled : text ≠ "")
    (gives : Gives text r) : Heads (raw ++ block) r := by
  obtain ⟨lines, blank, rfl, silents, ends⟩ := bare
  exact ⟨[], raw, lines, blank, text, rfl, .none, read, filled, gives, silents, ends⟩

theorem block_of_headers (read : headers range body = .ok (found, rest)) :
    ∃ block, body = block ++ rest ∧ ((∃ r, found = some r ∧ Heads block r) ∨ found = range ∧ Bare block) := by
  fun_induction headers range body with
  | case1 => contradiction
  | case2 range body behind first =>
    obtain ⟨rfl, rfl⟩ := Prod.mk.inj (Except.ok.inj read)
    obtain ⟨raw, blank, rfl⟩ := line?_eq_some_iff.mp first
    exact ⟨raw, rfl, .inr ⟨rfl, [], raw, rfl, .none, blank⟩⟩
  | case3 => contradiction
  | case4 range body line behind first filled text decoded other ih =>
    obtain rfl := Utf8.decode?_eq_some_iff.mp decoded
    obtain ⟨raw, written, rfl⟩ := line?_eq_some_iff.mp first
    have silent := lineRange?_eq_none_iff.mp other
    have some : text ≠ "" := by
      rintro rfl
      exact filled rfl
    obtain ⟨block, rfl, told⟩ := ih read
    refine ⟨raw ++ block, by simp, ?_⟩
    rcases told with ⟨r, same, heads⟩ | ⟨same, bare⟩
    · exact .inl ⟨r, same, heads.more written some (.inl silent)⟩
    · exact .inr ⟨same, bare.more written some silent⟩
  | case5 range body line behind first filled text decoded ranged told ih =>
    obtain rfl := Utf8.decode?_eq_some_iff.mp decoded
    obtain ⟨raw, written, rfl⟩ := line?_eq_some_iff.mp first
    have gives := lineRange?_eq_ok_iff.mp told
    have some : text ≠ "" := by
      rintro rfl
      exact filled rfl
    obtain ⟨block, rfl, later⟩ := ih read
    refine ⟨raw ++ block, by simp, .inl ?_⟩
    -- this range counts only if no later line gives one
    rcases later with ⟨r, same, heads⟩ | ⟨same, bare⟩
    · exact ⟨r, same, heads.more written some (.inr ⟨ranged, gives⟩)⟩
    · exact ⟨ranged, same, bare.heads written some gives⟩
  | case6 => contradiction

theorem encode_ne_nil (filled : text ≠ "") : Utf8.encode text ≠ [] := by
  refine Utf8.encodeChars_ne_nil fun empty => filled ?_
  rw [← String.ofList_toList (s := text), empty]

theorem Lines.headers_silent (lines : Lines Silent block) (range : Option ContentRange) (rest : Bytes) :
    headers range (block ++ rest) = headers range rest := by
  induction lines with
  | none => rfl
  | more read filled silent _ ih =>
    rw [List.append_assoc, headers_other (read.line? _) (encode_ne_nil filled)
      (Utf8.decode?_encode _) (lineRange?_eq_none_iff.mpr silent)]
    exact ih

theorem Lines.headers_sound (lines : Lines Sound block) (range : Option ContentRange) (rest : Bytes) :
    ∃ found, headers range (block ++ rest) = headers found rest := by
  induction lines generalizing range with
  | none => exact ⟨range, rfl⟩
  | more read filled sound _ ih =>
    rw [List.append_assoc]
    rcases sound with silent | ⟨r, gives⟩
    · rw [headers_other (read.line? _) (encode_ne_nil filled) (Utf8.decode?_encode _)
        (lineRange?_eq_none_iff.mpr silent)]
      exact ih range
    · rw [headers_range (read.line? _) (encode_ne_nil filled) (Utf8.decode?_encode _)
        (lineRange?_eq_ok_iff.mpr gives)]
      exact ih (some r)

theorem Heads.headers (heads : Heads block r) (range : Option ContentRange) (rest : Bytes) :
    BytePart.headers range (block ++ rest) = .ok (some r, rest) := by
  obtain ⟨before, raw, after, blank, text, rfl, sound, read, filled, gives, silent, ends⟩ := heads
  obtain ⟨found, passed⟩ := sound.headers_sound range (raw ++ (after ++ (blank ++ rest)))
  simp only [List.append_assoc]
  rw [passed, headers_range (read.line? _) (encode_ne_nil filled) (Utf8.decode?_encode _)
    (lineRange?_eq_ok_iff.mpr gives), silent.headers_silent, headers_line (ends.line? rest), if_pos rfl]

theorem Bare.headers (bare : Bare block) (range : Option ContentRange) (rest : Bytes) :
    BytePart.headers range (block ++ rest) = .ok (range, rest) := by
  obtain ⟨lines, blank, rfl, silent, ends⟩ := bare
  rw [List.append_assoc, silent.headers_silent, headers_line (ends.line? rest), if_pos rfl]

/-- Of the headers of a part a range is read exactly if they give one, and then it is the last one. -/
theorem headers_eq_ok_iff :
    headers none body = .ok (some r, rest) ↔ ∃ block, body = block ++ rest ∧ Heads block r := by
  constructor
  · intro read
    obtain ⟨block, whole, ⟨found, same, heads⟩ | ⟨absent, _⟩⟩ := block_of_headers read
    · obtain rfl := Option.some.inj same
      exact ⟨block, whole, heads⟩
    · contradiction
  · rintro ⟨block, rfl, heads⟩
    exact heads.headers none rest

/-- A part behind its delimiter: the rest of that line, the headers, and as many bytes as they tell. -/
inductive Holds (p : BytePart) (rest : Bytes) : Bytes → Prop
  | mk {raw line block : Bytes} {r : ContentRange} : Line raw line → Heads block r → r.first = p.offset →
      r.length? = some p.data.length → Holds p rest (raw ++ (block ++ (p.data ++ rest)))

theorem part_eq_ok_iff {p : BytePart} : part body = .ok (p, rest) ↔ Holds p rest body := by
  constructor
  · intro read
    rw [part] at read
    split at read
    next => contradiction
    next line behind first =>
      obtain ⟨raw, written, rfl⟩ := line?_eq_some_iff.mp first
      split at read
      next => contradiction
      next => contradiction
      next r more headed =>
        obtain ⟨block, rfl, heads⟩ := headers_eq_ok_iff.mp headed
        split at read
        next => contradiction
        next length sized =>
          split at read
          next => contradiction
          next long =>
            obtain ⟨rfl, rfl⟩ := Prod.mk.inj (Except.ok.inj read)
            have whole : r.length? = some (more.take length).length := by
              rw [sized, List.length_take, Nat.min_eq_left (Nat.not_lt.mp long)]
            have made : Holds ⟨r.first, more.take length⟩ (more.drop length)
                (raw ++ (block ++ (more.take length ++ more.drop length))) := .mk written heads rfl whole
            rwa [List.take_append_drop] at made
  · rintro ⟨written, heads, first, sized⟩
    simp only [part, written.line?, heads.headers, sized]
    rw [if_neg (by simp), List.take_left, List.drop_left, first]

theorem Holds.length_lt {p : BytePart} (holds : Holds p rest body) : rest.length < body.length := by
  cases holds with
  | mk read _ _ _ =>
    have line := read.length_pos
    simp only [List.length_append]
    omega

/-- What stands behind a delimiter, and the parts in it: behind the closing one anything, behind any other
a part, a gap and one more delimiter. -/
inductive Follows (delimiter : Bytes) : Bytes → List BytePart → Prop
  | closed (epilogue : Bytes) : Follows delimiter (0x2d :: 0x2d :: epilogue) []
  | part {body gap next : Bytes} {p : BytePart} {parts : List BytePart} : ¬ [0x2d, 0x2d] <+: body →
      Holds p (gap ++ (delimiter ++ next)) body → Text.First delimiter gap → Follows delimiter next parts →
      Follows delimiter body (p :: parts)

theorem follows_of_partsFrom (read : partsFrom delimiter body = .ok parts) :
    Follows delimiter body parts := by
  -- on the length of what is left, since a part takes a line, headers, data and a gap off it at once
  induction size : body.length using Nat.strong_induction_on generalizing body parts with
  | _ size ih =>
    subst size
    rw [partsFrom_eq] at read
    split at read
    next closing =>
      obtain rfl := Except.ok.inj read
      obtain ⟨epilogue, rfl⟩ := List.isPrefixOf_iff_prefix.mp closing
      exact .closed epilogue
    next opens =>
      rw [List.isPrefixOf_iff_prefix] at opens
      split at read
      next => contradiction
      next p rest first =>
        have holds := part_eq_ok_iff.mp first
        split at read
        next => contradiction
        next next searched =>
          obtain ⟨gap, rfl, found⟩ := Text.after?_eq_some_iff.mp searched
          obtain ⟨others, inner, rfl⟩ := map_eq_ok.mp read
          have shorter : next.length < body.length := by
            have behind := holds.length_lt
            simp only [List.length_append] at behind
            omega
          exact .part opens holds found (ih _ shorter inner rfl)

theorem Follows.partsFrom (follows : Follows delimiter body parts) :
    BytePart.partsFrom delimiter body = .ok parts := by
  induction follows with
  | closed epilogue => exact partsFrom_end
  | part opens holds first _ ih =>
    rw [← List.isPrefixOf_iff_prefix] at opens
    rw [partsFrom_eq, if_neg opens, part_eq_ok_iff.mpr holds]
    simp only [first.after?, ih]
    rfl

theorem partsFrom_eq_ok_iff :
    partsFrom delimiter body = .ok parts ↔ Follows delimiter body parts :=
  ⟨follows_of_partsFrom, Follows.partsFrom⟩

/-- The bodies that are read, and what is read from them. -/
theorem parse_eq_ok_iff {boundary : String} : parse body boundary = .ok parts ↔
    ∃ preamble rest, body = preamble ++ (BytePart.delimiter boundary ++ rest) ∧
      Text.First (BytePart.delimiter boundary) preamble ∧ Follows (BytePart.delimiter boundary) rest parts := by
  constructor
  · intro read
    rw [parse] at read
    split at read
    next => contradiction
    next rest opened =>
      obtain ⟨preamble, whole, first⟩ := Text.after?_eq_some_iff.mp opened
      exact ⟨preamble, rest, whole, first, partsFrom_eq_ok_iff.mp read⟩
  · rintro ⟨preamble, rest, rfl, first, follows⟩
    rw [parse, first.after?]
    exact partsFrom_eq_ok_iff.mpr follows

end BlobReplica.Recovery.BytePart
