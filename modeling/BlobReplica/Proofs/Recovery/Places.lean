import BlobReplica.Proofs.Datagram
import BlobReplica.Proofs.Recovery.Bodies
import BlobReplica.Proofs.Recovery.Scan

/-! Where the parts of a body stand in it. Each is the slice that the headers directly before it tell, the
slices lie one behind the other, and there is a delimiter before, between and behind them. -/

namespace BlobReplica

namespace Bytes

variable {bytes part front back : Bytes} {start : Nat}

theorem standsAt_append (front part back : Bytes) :
    (front ++ (part ++ back)).StandsAt front.length part :=
  ⟨front, back, rfl, rfl⟩

theorem StandsAt.slice (stands : bytes.StandsAt start part) :
    bytes.slice start (start + part.length) = part := by
  rw [Bytes.slice, Nat.add_sub_cancel_left]
  exact stands.take_drop rfl

end Bytes

namespace Recovery.BytePart

open Http (ContentRange)

variable {delimiter body rest : Bytes} {parts : List BytePart}

/-- A part's place: its delimiter at `mark`, its headers from `head` on, its data from `start` to `stop`, and
the range that counts. -/
structure Place where
  mark : Nat
  head : Nat
  start : Nat
  stop : Nat
  range : ContentRange

namespace Place

def part (body : Bytes) (q : Place) : BytePart :=
  ⟨q.range.first, body.slice q.start q.stop⟩

/-- What is in the body at a place. -/
structure Stands (delimiter body : Bytes) (q : Place) : Prop where
  delimited : body.StandsAt q.mark delimiter
  /-- The rest of the delimiter's line. -/
  line : ∃ line, Line (body.slice (q.mark + delimiter.length) q.head) line
  /-- The headers stand directly before the data. -/
  heads : Heads (body.slice q.head q.start) q.range
  ordered : q.range.first ≤ q.range.last
  length : q.stop = q.start + (q.range.last - q.range.first + 1)
  forward : q.mark + delimiter.length < q.head ∧ q.head < q.start
  inside : q.stop ≤ body.length

end Place

/-- Places one behind the other, each of them with its own delimiter, and one more delimiter behind all of
them that closes the body. -/
structure Located (delimiter body : Bytes) (places : List Place) : Prop where
  stands : ∀ q ∈ places, q.Stands delimiter body
  apart : places.Pairwise fun q r => q.stop ≤ r.mark
  closed : ∃ mark, body.StandsAt mark (delimiter ++ [0x2d, 0x2d]) ∧ ∀ q ∈ places, q.stop ≤ mark

theorem exists_place {p : BytePart} (holds : Holds p rest body) (front delimiter : Bytes) :
    ∃ q : Place, q.mark = front.length ∧ q.part (front ++ (delimiter ++ body)) = p ∧
      q.Stands delimiter (front ++ (delimiter ++ body)) ∧
      ∃ before, front ++ (delimiter ++ body) = before ++ rest ∧ before.length = q.stop := by
  cases holds with
  | @mk raw line block r read heads first sized =>
    obtain ⟨ordered, counted, _⟩ := ContentRange.length?_eq_some_iff.mp sized
    let whole := front ++ (delimiter ++ (raw ++ (block ++ (p.data ++ rest))))
    let head := front.length + delimiter.length + raw.length
    let start := head + block.length
    have delimited : whole.StandsAt front.length delimiter := Bytes.standsAt_append front delimiter _
    have skipped : whole.StandsAt (front.length + delimiter.length) raw :=
      ⟨front ++ delimiter, block ++ (p.data ++ rest), by simp [whole], by simp⟩
    have headed : whole.StandsAt head block :=
      ⟨front ++ (delimiter ++ raw), p.data ++ rest, by simp [whole], by simp [head, Nat.add_assoc]⟩
    have filled : whole.StandsAt start p.data :=
      ⟨front ++ (delimiter ++ (raw ++ block)), rest, by simp [whole],
        by simp [start, head, Nat.add_assoc]⟩
    have forward : front.length + delimiter.length < head ∧ head < start :=
      ⟨Nat.lt_add_of_pos_right read.length_pos, Nat.lt_add_of_pos_right heads.length_pos⟩
    refine ⟨⟨front.length, head, start, start + p.data.length, r⟩, rfl, ?_,
      ⟨delimited, ⟨line, ?_⟩, ?_, ordered, ?_, forward, ?_⟩,
      front ++ (delimiter ++ (raw ++ (block ++ p.data))), by simp, ?_⟩
    · rw [Place.part, filled.slice, first]
    · rw [skipped.slice]
      exact read
    · rw [headed.slice]
      exact heads
    · rw [counted]
    · simp only [start, head, List.length_append]
      omega
    · simp only [start, head, List.length_append]
      omega

theorem located_of_follows (follows : Follows delimiter rest parts) (front : Bytes)
    (whole : body = front ++ (delimiter ++ rest)) :
    ∃ places : List Place, parts = places.map (Place.part body) ∧
      (∀ q ∈ places, q.Stands delimiter body ∧ front.length ≤ q.mark) ∧
      (places.Pairwise fun q r => q.stop ≤ r.mark) ∧
      ∃ mark, front.length ≤ mark ∧ body.StandsAt mark (delimiter ++ [0x2d, 0x2d]) ∧
        ∀ q ∈ places, q.stop ≤ mark := by
  induction follows generalizing front with
  | closed epilogue =>
    refine ⟨[], rfl, by simp, .nil, front.length, Nat.le_refl _, ⟨front, epilogue, ?_, rfl⟩, by simp⟩
    rw [whole]
    simp
  | @part behind gap next p parts opens holds first follows ih =>
    obtain ⟨q, here, cut, stands, before, split, ends⟩ := exists_place holds front delimiter
    rw [← whole] at cut stands split
    have whole' : body = (before ++ gap) ++ (delimiter ++ next) := by
      rw [split, List.append_assoc]
    -- all later places, and the closing delimiter, are behind these data and the gap
    obtain ⟨places, same, all, apart, mark, late, closed, stops⟩ := ih (before ++ gap) whole'
    have further : q.stop ≤ (before ++ gap).length := by
      rw [List.length_append, ends]
      exact Nat.le_add_right _ _
    have forward := stands.forward
    have long := stands.length
    refine ⟨q :: places, ?_, ?_, ?_, mark, by omega, closed, ?_⟩
    · rw [List.map_cons, cut, same]
    · refine List.forall_mem_cons.mpr ⟨⟨stands, Nat.le_of_eq here.symm⟩, ?_⟩
      intro r member
      obtain ⟨standing, later⟩ := all r member
      exact ⟨standing, by omega⟩
    · refine .cons ?_ apart
      intro r member
      exact Nat.le_trans further (all r member).2
    · exact List.forall_mem_cons.mpr ⟨Nat.le_trans further late, stops⟩

/-- Whatever a body holds, reading it step by step comes to an answer, and parts that are read stand in the
body one behind the other with delimiters before, between and behind them. -/
theorem parse_located (body : Bytes) (boundary : String) :
    (∃ n ≤ body.length + 2, Scan.run? (BytePart.delimiter boundary) body n .opening =
      some (.answered (parse body boundary))) ∧
    ∀ parts, parse body boundary = .ok parts → ∃ places : List Place,
      parts = places.map (Place.part body) ∧ Located (BytePart.delimiter boundary) body places := by
  refine ⟨Scan.opening_answered body boundary, ?_⟩
  intro parts read
  obtain ⟨preamble, rest, whole, _, follows⟩ := parse_eq_ok_iff.mp read
  obtain ⟨places, same, all, apart, mark, _, closed, stops⟩ := located_of_follows follows preamble whole
  exact ⟨places, same, fun q member => (all q member).1, apart, mark, closed, stops⟩

/-- A part that holds a delimiter is found where its headers tell. -/
theorem parse_located_sample : ∃ places : List Place,
    [⟨2, Utf8.encode "--B--"⟩] = places.map (Place.part (writtenBody "B" [] [delimiterLike] [])) ∧
      Located (BytePart.delimiter "B") (writtenBody "B" [] [delimiterLike] []) places := by
  have read : parse (writtenBody "B" [] [delimiterLike] []) "B" = .ok [⟨2, Utf8.encode "--B--"⟩] := by
    rw [writtenBody_eq, parse_eq_ok_iff]
    exact ⟨[], _, rfl, Text.first_nil _, follows_behind _ rfl [delimiterLike] []⟩
  exact (parse_located (writtenBody "B" [] [delimiterLike] []) "B").2 _ read

end Recovery.BytePart
end BlobReplica
