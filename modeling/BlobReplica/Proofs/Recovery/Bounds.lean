import BlobReplica.Proofs.Blob.Bounds
import BlobReplica.Proofs.Datagram.Bounds
import BlobReplica.Proofs.Recovery.Parts
import BlobReplica.Recovery.Attempt

/-! An answer of the authority taken in with every access checked. A body with several parts is read by
places, and each part is as long as its own header says; what is cut out, and what is written into the
blob, breaks off where it would leave the buffer. -/

namespace BlobReplica

namespace Text

variable {needle hay : Bytes} {p : Nat}

/-- The place where `needle` stands first. -/
def place? (needle : Bytes) : Bytes → Option Nat
  | [] => if needle.isPrefixOf [] then some 0 else none
  | b :: rest =>
    if needle.isPrefixOf (b :: rest) then some 0 else (place? needle rest).map (· + 1)

theorem after?_eq (needle hay : Bytes) :
    after? needle hay = (place? needle hay).map fun p => hay.drop (p + needle.length) := by
  induction hay with
  | nil =>
    rw [after?, place?]
    split <;> simp
  | cons b rest ih =>
    rw [after?, place?]
    split
    next => simp
    next =>
      rw [ih, Option.map_map]
      congr 1
      funext p
      rw [Function.comp_apply, Nat.add_right_comm, List.drop_succ_cons]

theorem place?_inside (found : place? needle hay = some p) : p + needle.length ≤ hay.length := by
  induction hay generalizing p with
  | nil =>
    rw [place?] at found
    split at found
    next stands =>
      obtain rfl := Option.some.inj found
      exact Nat.zero_add _ ▸ (List.isPrefixOf_iff_prefix.mp stands).length_le
    next => contradiction
  | cons b rest ih =>
    rw [place?] at found
    split at found
    next stands =>
      obtain rfl := Option.some.inj found
      exact Nat.zero_add _ ▸ (List.isPrefixOf_iff_prefix.mp stands).length_le
    next =>
      obtain ⟨q, later, rfl⟩ := Option.map_eq_some_iff.mp found
      have := ih later
      rw [List.length_cons]
      omega

theorem place?_byte (b : UInt8) (hay : Bytes) :
    (place? [b] hay = none ∧ hay.dropWhile (· != b) = []) ∨
      ∃ p, place? [b] hay = some p ∧ hay.takeWhile (· != b) = hay.take p ∧
        hay.dropWhile (· != b) = b :: hay.drop (p + 1) := by
  induction hay with
  | nil => exact .inl ⟨rfl, rfl⟩
  | cons x rest ih =>
    rw [place?]
    by_cases same : x = b
    · subst same
      exact .inr ⟨0, by simp [List.isPrefixOf], by simp, by simp⟩
    · have apart : ¬ ([b].isPrefixOf (x :: rest) = true) := by
        simpa [List.isPrefixOf] using Ne.symm same
      rw [if_neg apart, List.takeWhile_cons_of_pos (p := (· != b)) (bne_iff_ne.mpr same),
        List.dropWhile_cons_of_pos (p := (· != b)) (bne_iff_ne.mpr same)]
      rcases ih with ⟨absent, nothing⟩ | ⟨p, found, before, after⟩
      · exact .inl ⟨by rw [absent]; rfl, nothing⟩
      · exact .inr ⟨p + 1, by rw [found]; rfl, by rw [before, List.take_succ_cons], after⟩

end Text

namespace Recovery.BytePart

variable {body delimiter line : Bytes} {pos next : Nat} {range : Option Http.ContentRange}

/-- The first place of `needle` from `start` on. Nothing can be looked for that is empty. -/
def find? (body needle : Bytes) (start : Nat) : Option (Option Nat) :=
  if body.length < start then some none
  else if needle = [] then none
  else some ((Text.place? needle (body.drop start)).map (· + start))

/-- The line at `pos` without its end, and the place of the next one. -/
def readLine? (body : Bytes) (pos : Nat) : Option (Except Error (Bytes × Nat)) :=
  (find? body [0x0a] pos).bind fun
    | none => some (.error (.parts .unterminatedLine))
    | some stop => (body.between? pos stop).map fun line =>
      .ok (if line.getLast? = some 0x0d then line.dropLast else line, stop + 1)

theorem find?_eq {needle : Bytes} (solid : needle ≠ []) (inside : pos ≤ body.length) :
    find? body needle pos = some ((Text.place? needle (body.drop pos)).map (· + pos)) := by
  rw [find?, if_neg (Nat.not_lt.mpr inside), if_neg solid]

theorem find?_inside {needle : Bytes} (found : find? body needle pos = some (some next)) :
    pos ≤ next ∧ next + needle.length ≤ body.length := by
  rw [find?] at found
  split at found
  next => cases Option.some.inj found
  next =>
    split at found
    next => contradiction
    next =>
      obtain ⟨p, stands, rfl⟩ := Option.map_eq_some_iff.mp (Option.some.inj found)
      have := Text.place?_inside stands
      rw [List.length_drop] at this
      omega

theorem after?_of_find? {needle : Bytes} {r : Option Nat} (solid : needle ≠ [])
    (inside : pos ≤ body.length) (searched : find? body needle pos = some r) :
    Text.after? needle (body.drop pos) = r.map fun p => body.drop (p + needle.length) := by
  cases (find?_eq solid inside).symm.trans searched
  rw [Text.after?_eq, Option.map_map]
  congr 1
  funext p
  rw [Function.comp_apply, List.drop_drop, Nat.add_left_comm, Nat.add_assoc]

theorem readLine?_next (read : readLine? body pos = some (.ok (line, next))) :
    pos < next ∧ next ≤ body.length := by
  obtain ⟨found, searched, read⟩ := Option.bind_eq_some_iff.mp read
  cases found with
  | none => cases read
  | some stop =>
    obtain ⟨cut, _, read⟩ := Option.map_eq_some_iff.mp read
    obtain ⟨_, rfl⟩ := Prod.mk.inj (Except.ok.inj read)
    obtain ⟨late, inside⟩ := find?_inside searched
    exact ⟨Nat.lt_succ_of_le late, inside⟩

theorem readLine?_eq (inside : pos ≤ body.length) :
    (line? (body.drop pos) = none ∧
      readLine? body pos = some (.error (.parts .unterminatedLine))) ∨
    ∃ line next, line? (body.drop pos) = some (line, body.drop next) ∧
      readLine? body pos = some (.ok (line, next)) := by
  rw [readLine?, find?_eq (List.cons_ne_nil _ _) inside, Option.bind_some, line?]
  rcases Text.place?_byte 0x0a (body.drop pos) with ⟨absent, none⟩ | ⟨p, found, before, after⟩
  · refine .inl ⟨?_, ?_⟩
    · rw [none]
    · rw [absent]
      rfl
  · have ends := Text.place?_inside found
    rw [List.length_drop, List.length_singleton] at ends
    have cut : body.between? pos (p + pos) = some ((body.drop pos).take p) := by
      rw [Nat.add_comm, Bytes.between?_add (by omega)]
    let line := (body.drop pos).take p
    refine .inr ⟨if line.getLast? = some 0x0d then line.dropLast else line, p + pos + 1, ?_, ?_⟩
    · rw [after, before, List.drop_drop, show pos + (p + 1) = p + pos + 1 by omega]
    · rw [found, Option.map_some]
      simp only
      rw [cut, Option.map_some]

theorem line?_of_readLine? (inside : pos ≤ body.length)
    (read : readLine? body pos = some (.ok (line, next))) :
    line? (body.drop pos) = some (line, body.drop next) := by
  rcases readLine?_eq inside with ⟨_, read'⟩ | ⟨line', next', first, read'⟩
  · cases read.symm.trans read'
  · cases read.symm.trans read'
    exact first

/-- Header lines from `pos` on up to the empty one, and the place behind it. -/
def headersAt? (body : Bytes) (range : Option Http.ContentRange) (pos : Nat) :
    Option (Except Error (Option Http.ContentRange × Nat)) :=
  match _h : readLine? body pos with
  | none => none
  | some (.error e) => some (.error e)
  | some (.ok (line, next)) =>
    if line = [] then some (.ok (range, next))
    else match Utf8.decode? line with
      | none => some (.error (.parts .unreadableHeader))
      | some text =>
        match lineRange? text with
        | none => headersAt? body range next
        | some (.ok found) => headersAt? body (some found) next
        | some (.error e) => some (.error e)
termination_by body.length - pos
decreasing_by all_goals
  have := readLine?_next _h
  omega

theorem headersAt?_next {found : Option Http.ContentRange}
    (read : headersAt? body range pos = some (.ok (found, next))) : pos < next ∧ next ≤ body.length := by
  fun_induction headersAt? body range pos with
  | case1 => contradiction
  | case2 => cases read
  | case3 range pos behind step =>
    cases read
    exact readLine?_next step
  | case4 => cases read
  | case5 _ _ _ _ step _ _ _ _ ih =>
    have := readLine?_next step
    have := ih read
    omega
  | case6 _ _ _ _ step _ _ _ _ _ ih =>
    have := readLine?_next step
    have := ih read
    omega
  | case7 => cases read

theorem headersAt?_eq (range : Option Http.ContentRange) (inside : pos ≤ body.length) :
    ∃ r, headersAt? body range pos = some r ∧
      headers range (body.drop pos) = r.map fun read => (read.1, body.drop read.2) := by
  fun_induction headersAt? body range pos with
  | case1 range pos failed =>
    rcases readLine?_eq inside with ⟨_, read⟩ | ⟨_, _, _, read⟩ <;> cases read.symm.trans failed
  | case2 range pos e failed =>
    rcases readLine?_eq inside with ⟨absent, read⟩ | ⟨_, _, _, read⟩
    · cases read.symm.trans failed
      exact ⟨_, rfl, headers_unterminated absent⟩
    · cases read.symm.trans failed
  | case3 range pos next read =>
    rw [headers_line (line?_of_readLine? inside read), if_pos rfl]
    exact ⟨_, rfl, rfl⟩
  | case4 range pos line next read filled unreadable =>
    rw [headers_line (line?_of_readLine? inside read), if_neg filled, unreadable]
    exact ⟨_, rfl, rfl⟩
  | case5 range pos line next read filled text readable other ih =>
    rw [headers_line (line?_of_readLine? inside read), if_neg filled, readable]
    simp only [other]
    exact ih (readLine?_next read).2
  | case6 range pos line next read filled text readable found ranged ih =>
    rw [headers_line (line?_of_readLine? inside read), if_neg filled, readable]
    simp only [ranged]
    exact ih (readLine?_next read).2
  | case7 range pos line next read filled text readable e broken =>
    rw [headers_line (line?_of_readLine? inside read), if_neg filled, readable]
    simp only [broken]
    exact ⟨_, rfl, rfl⟩

/-- The part behind a delimiter that ends at `pos`, and its end. -/
def partAt? (body : Bytes) (pos : Nat) : Option (Except Error (BytePart × Nat)) :=
  (readLine? body pos).bind fun
    | .error e => some (.error e)
    | .ok (_, next) => (headersAt? body none next).bind fun
      | .error e => some (.error e)
      | .ok (none, _) => some (.error (.parts .noRange))
      | .ok (some range, next) =>
        match range.length? with
        | none => some (.error (.contentRange range.text))
        | some length =>
          let stop := next + length
          if body.length < stop then some (.error (.parts .truncated))
          else (body.between? next stop).map fun data => .ok (⟨range.first, data⟩, stop)

theorem partAt?_next {found : BytePart} (read : partAt? body pos = some (.ok (found, next))) :
    pos < next ∧ next ≤ body.length := by
  obtain ⟨skipped, first, read⟩ := Option.bind_eq_some_iff.mp read
  rcases skipped with e | ⟨line, start⟩
  · cases read
  · have skips := readLine?_next first
    obtain ⟨headed, told, read⟩ := Option.bind_eq_some_iff.mp read
    rcases headed with e | ⟨_ | range, last⟩
    · cases read
    · cases read
    · have tells := headersAt?_next told
      simp only at read
      split at read
      next => cases read
      next length _ =>
        split at read
        next => cases read
        next =>
          obtain ⟨data, _, read⟩ := Option.map_eq_some_iff.mp read
          cases read
          omega

theorem partAt?_eq (inside : pos ≤ body.length) :
    ∃ r, partAt? body pos = some r ∧
      part (body.drop pos) = r.map fun read => (read.1, body.drop read.2) := by
  rw [partAt?, part]
  rcases readLine?_eq inside with ⟨absent, read⟩ | ⟨line, start, first, read⟩
  · rw [absent, read]
    exact ⟨_, rfl, rfl⟩
  · obtain ⟨headed, told, same⟩ := headersAt?_eq none (readLine?_next read).2
    rw [first, read, Option.bind_some]
    simp only
    rw [told, Option.bind_some, same]
    rcases headed with e | ⟨_ | range, last⟩
    · exact ⟨_, rfl, rfl⟩
    · exact ⟨_, rfl, rfl⟩
    · simp only [Except.map]
      cases range.length? with
      | none => exact ⟨_, rfl, rfl⟩
      | some length =>
        have left : (body.drop last).length = body.length - last := List.length_drop
        have tells := (headersAt?_next told).2
        simp only
        by_cases short : body.length < last + length
        · rw [if_pos short, if_pos (by omega)]
          exact ⟨_, rfl, rfl⟩
        · rw [if_neg short, if_neg (by omega), Bytes.between?_add (by omega), Option.map_some,
            List.drop_drop]
          exact ⟨_, rfl, rfl⟩

/-- The delimiter from `pos` is passed, and the parts behind it are read to the closing one. -/
def partsAt? (delimiter body : Bytes) (pos : Nat) : Option (Except Error (List BytePart)) :=
  let start := pos + delimiter.length
  match body.between? start body.length with
  | none => none
  | some behind =>
    if [0x2d, 0x2d].isPrefixOf behind then some (.ok [])
    else match _hp : partAt? body start with
    | none => none
    | some (.error e) => some (.error e)
    | some (.ok (first, stop)) =>
      match _hf : find? body delimiter stop with
      | none => none
      | some none => some (.error (.parts .noClosing))
      | some (some next) => (partsAt? delimiter body next).map (·.map (first :: ·))
termination_by body.length - pos
decreasing_by
  have := partAt?_next _hp
  have := find?_inside _hf
  omega

/-- Reading the parts by places is reading them off what is left; no place lies beyond the end. -/
theorem partsAt?_eq (solid : delimiter ≠ []) (found : pos + delimiter.length ≤ body.length) :
    partsAt? delimiter body pos =
      some (partsFrom delimiter (body.drop (pos + delimiter.length))) := by
  fun_induction partsAt? delimiter body pos with
  | case1 pos start absent => cases (Bytes.between?_end found).symm.trans absent
  | case2 pos start behind present closed =>
    cases (Bytes.between?_end found).symm.trans present
    rw [partsFrom_eq, if_pos closed]
  | case3 pos start behind present goes failed =>
    obtain ⟨r, read, _⟩ := partAt?_eq found
    cases read.symm.trans failed
  | case4 pos start behind present goes e failed =>
    cases (Bytes.between?_end found).symm.trans present
    obtain ⟨r, read, same⟩ := partAt?_eq found
    cases read.symm.trans failed
    rw [partsFrom_eq, if_neg goes, same]
    rfl
  | case5 pos start behind present goes first stop read failed =>
    cases (find?_eq solid (partAt?_next read).2).symm.trans failed
  | case6 pos start behind present goes first stop read absent =>
    cases (Bytes.between?_end found).symm.trans present
    obtain ⟨r, read', same⟩ := partAt?_eq found
    cases read'.symm.trans read
    have nothing := after?_of_find? solid (partAt?_next read).2 absent
    rw [partsFrom_eq, if_neg goes, same]
    simp only [Except.map, nothing, Option.map_none]
  | case7 pos start behind present goes first stop read closing stands ih =>
    cases (Bytes.between?_end found).symm.trans present
    obtain ⟨r, read', same⟩ := partAt?_eq found
    cases read'.symm.trans read
    have following := after?_of_find? solid (partAt?_next read).2 stands
    rw [ih (find?_inside stands).2, Option.map_some, partsFrom_eq _ (body.drop (pos + delimiter.length)),
      if_neg goes, same]
    simp only [Except.map, following, Option.map_some]

/-- The parts of a body read by places. -/
def parse? (body : Bytes) (boundary : String) : Option (Except Error (List BytePart)) :=
  (find? body (BytePart.delimiter boundary) 0).bind fun
    | none => some (.error (.parts .noOpening))
    | some pos => partsAt? (BytePart.delimiter boundary) body pos

/-- No body makes its reader look beyond the end. -/
theorem parse?_eq (body : Bytes) (boundary : String) :
    parse? body boundary = some (parse body boundary) := by
  have solid : BytePart.delimiter boundary ≠ [] := List.cons_ne_nil _ _
  obtain ⟨opening, searched⟩ : ∃ opening, find? body (BytePart.delimiter boundary) 0 = some opening :=
    ⟨_, find?_eq solid (Nat.zero_le _)⟩
  have behind := after?_of_find? solid (Nat.zero_le _) searched
  rw [List.drop_zero] at behind
  rw [parse?, searched, Option.bind_some, parse, behind]
  cases opening with
  | none => rfl
  | some pos => exact partsAt?_eq solid (find?_inside searched).2

end Recovery.BytePart

namespace Recovery

variable {b : Blob}

def slices? (ranges : List ByteRange) (r : FetchResponse) : Option (Except Error (List BytePart)) :=
  match (r.headers.get? "Content-Type").bind Http.boundary? with
  | some boundary => BytePart.parse? r.body boundary
  | none => some (slices ranges r)

def addParts? (now : Millis) : Blob → List BytePart → Option (Blob × Option Error)
  | b, [] => some (b, none)
  | b, part :: rest => (b.addByteRange? part.offset part.data now).bind fun
    | .error e => some (b, some (.refused e.message))
    | .ok (b, _) => addParts? now b rest

def applyAnswer? (b : Blob) (request : FetchRequest) (r : FetchResponse) (now : Millis) :
    Option (Blob × Option Error) :=
  match request with
  | .full | .head => some (apply b request r now)
  | .ranges ranges =>
    if r.status ≠ request.expectedStatus then
      some (b, some (.status request.expectedStatus r.status))
    else (slices? ranges r).bind fun
      | .error e => some (b, some e)
      | .ok parts => (addParts? now b parts).map fun
        | (b, some e) => (b, some e)
        | (b, none) => (b.applyHeaders (recoveredProperties r.headers) now, none)

/-- `attempt` with every access checked. -/
def attempt? (n : Node) (b : Blob) (response : Option FetchResponse) (now : Millis) :
    Option (Node × Blob × Achievement) :=
  match request? b with
  | none => some (attempt n b response now)
  | some request =>
    match response with
    | none => some (n, b, .failed)
    | some r => (applyAnswer? b request r now).map fun
      | (b, some _) => (n.update b, b, .failed)
      | (b, none) =>
        let b := b.settle.1
        let n := n.update b
        match b.status with
        | .complete =>
          let n := n.dequeue b.version
          (n.withCache (n.cache.resort b.key), b, .completed)
        | .checksumInvalid => (discard n b now, b, .invalid)
        | _ => (n.withCache (n.cache.resort b.key), b, .stillIncomplete)

theorem slices?_eq (ranges : List ByteRange) (r : FetchResponse) :
    slices? ranges r = some (slices ranges r) := by
  rw [slices?]
  split
  next boundary several => rw [BytePart.parse?_eq, slices, several]
  next => rfl

theorem addParts?_eq (contained : b.Contained) (now : Millis) (parts : List BytePart) :
    addParts? now b parts = some (addParts now b parts) := by
  induction parts generalizing b with
  | nil => rfl
  | cons part rest ih =>
    have added := contained.addByteRange?_eq part.offset part.data now
    rw [addParts?, addParts, added, Option.bind_some]
    cases written : b.addByteRange part.offset part.data now with
    | error e => rfl
    | ok result => exact ih (contained.of_addByteRange? (added.trans (congrArg some written)))

theorem applyAnswer?_eq (contained : b.Contained) (request : FetchRequest) (r : FetchResponse)
    (now : Millis) : applyAnswer? b request r now = some (apply b request r now) := by
  cases request with
  | full | head => rfl
  | ranges ranges =>
    simp only [applyAnswer?, apply]
    split
    next => rfl
    next =>
      rw [slices?_eq, Option.bind_some]
      cases slices ranges r with
      | error e => rfl
      | ok parts =>
        simp only
        rw [addParts?_eq contained]
        rfl

/-- Whatever the authority answers, no part of it is looked for or written beyond an end. -/
theorem attempt?_eq (contained : b.Contained) (n : Node) (response : Option FetchResponse)
    (now : Millis) : attempt? n b response now = some (attempt n b response now) := by
  rw [attempt?]
  split
  next => rfl
  next request asked =>
    rw [attempt, asked]
    cases response with
    | none => rfl
    | some r =>
      simp only
      rw [applyAnswer?_eq contained]
      rfl

end Recovery
end BlobReplica
