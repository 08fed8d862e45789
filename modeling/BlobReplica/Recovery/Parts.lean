import BlobReplica.Http.ContentRange
import BlobReplica.Recovery.Error
import BlobReplica.Text.Search
import BlobReplica.Text.Utf8

/-! Bodies with several byte ranges. The length of each part comes from its own `Content-Range`, so
bytes of the part are never taken for a delimiter; header lines end in a line feed with or without
a carriage return before it. -/

namespace BlobReplica.Recovery

structure BytePart where
  offset : Nat
  data : Bytes
deriving DecidableEq, Repr

namespace BytePart

def line? (body : Bytes) : Option (Bytes × Bytes) :=
  match body.dropWhile (· != 0x0a) with
  | [] => none
  | _ :: rest =>
    let line := body.takeWhile (· != 0x0a)
    some (if line.getLast? = some 0x0d then line.dropLast else line, rest)

theorem line?_length {body line rest : Bytes} (h : line? body = some (line, rest)) :
    rest.length < body.length := by
  unfold line? at h
  split at h
  · contradiction
  next first after same =>
    simp only [Option.some.injEq, Prod.mk.injEq] at h
    obtain ⟨_, rfl⟩ := h
    have parts := congrArg List.length (List.takeWhile_append_dropWhile (p := (· != 0x0a)) (l := body))
    rw [List.length_append, same, List.length_cons] at parts
    omega

/-- The content range that one header line gives, if it is that header. -/
def lineRange? (line : String) : Option (Except Error Http.ContentRange) := do
  let (name, value) ← Text.cutAt ':' line
  if Text.sameName (Text.trim name) "Content-Range" then
    match Http.ContentRange.parse? value with
    | some range => some (.ok range)
    | none => some (.error (.contentRange value))
  else none

/-- Reads header lines up to the empty one; of several content ranges the last counts. -/
def headers (range : Option Http.ContentRange) (body : Bytes) :
    Except Error (Option Http.ContentRange × Bytes) :=
  match _h : line? body with
  | none => .error (.parts .unterminatedLine)
  | some (line, rest) =>
    if line = [] then .ok (range, rest)
    else match Utf8.decode? line with
      | none => .error (.parts .unreadableHeader)
      | some text =>
        match lineRange? text with
        | none => headers range rest
        | some (.ok found) => headers (some found) rest
        | some (.error e) => .error e
termination_by body.length
decreasing_by all_goals exact line?_length _h

theorem headers_length {range found : Option Http.ContentRange} {body rest : Bytes}
    (h : headers range body = .ok (found, rest)) : rest.length < body.length := by
  fun_induction headers range body with
  | case1 => contradiction
  | case2 range body rest' step =>
    simp only [Except.ok.injEq, Prod.mk.injEq] at h
    obtain ⟨_, rfl⟩ := h
    exact line?_length step
  | case3 => contradiction
  | case4 _ _ _ _ step _ _ _ _ ih => exact Nat.lt_trans (ih h) (line?_length step)
  | case5 _ _ _ _ step _ _ _ _ _ ih => exact Nat.lt_trans (ih h) (line?_length step)
  | case6 => contradiction

/-- Reads parts from just behind a delimiter on. -/
def partsFrom (delimiter : Bytes) (body : Bytes) : Except Error (List BytePart) :=
  if [0x2d, 0x2d].isPrefixOf body then .ok []
  else match _hl : line? body with
  | none => .error (.parts .unterminatedLine)
  | some (_, rest) =>
    match _hh : headers none rest with
    | .error e => .error e
    | .ok (none, _) => .error (.parts .noRange)
    | .ok (some range, rest) =>
      match range.length? with
      | none => .error (.contentRange range.text)
      | some length =>
        if rest.length < length then .error (.parts .truncated)
        else match _ha : Text.after? delimiter (rest.drop length) with
          | none => .error (.parts .noClosing)
          | some next => (partsFrom delimiter next).map (⟨range.first, rest.take length⟩ :: ·)
termination_by body.length
decreasing_by
  have a := line?_length _hl
  have b := headers_length _hh
  have c := Text.after?_length _ha
  simp only [List.length_drop] at c
  omega

def delimiter (boundary : String) : Bytes :=
  0x2d :: 0x2d :: Utf8.encode boundary

/-- The parts of a body, in body order. -/
def parse (body : Bytes) (boundary : String) : Except Error (List BytePart) :=
  match Text.after? (delimiter boundary) body with
  | none => .error (.parts .noOpening)
  | some rest => partsFrom (delimiter boundary) rest

end BytePart
end BlobReplica.Recovery
