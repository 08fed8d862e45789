/-! Sets of byte positions as ascending half-open intervals. A section starts with one interval
over all of it, and each arriving slice takes its positions out. -/

namespace BlobReplica

/-- The positions from `start` up to but not including `stop`. -/
structure ByteRange where
  start : Nat
  stop : Nat
deriving DecidableEq, Repr, Inhabited

namespace ByteRange

/-- Whether a stored interval meets `other`; of an empty or inverted `other` this asks only for
`start < other.stop` and `other.start < stop`. -/
def overlaps (r other : ByteRange) : Bool :=
  r.start < other.stop && other.start < r.stop

/-- What is left of `r` without the positions of `hole`. -/
def without (r hole : ByteRange) : List ByteRange :=
  if r.overlaps hole then
    (if r.start < hole.start then [⟨r.start, hole.start⟩] else []) ++
      (if hole.stop < r.stop then [⟨hole.stop, r.stop⟩] else [])
  else [r]

/-- How many positions `r` shares with `other`. -/
def shared (r other : ByteRange) : Nat :=
  if r.overlaps other then min r.stop other.stop - max r.start other.start else 0

def debug (r : ByteRange) : String :=
  s!"{r.start}..{r.stop}"

end ByteRange

/-- Intervals in ascending order. -/
structure RangeSet where
  ranges : List ByteRange
deriving DecidableEq, Repr

namespace RangeSet

def empty : RangeSet := ⟨[]⟩

def full (length : Nat) : RangeSet :=
  if 0 < length then ⟨[⟨0, length⟩]⟩ else empty

def isEmpty (s : RangeSet) : Bool :=
  s.ranges.isEmpty

def covered (s : RangeSet) : Nat :=
  s.ranges.foldr (fun r n => r.stop - r.start + n) 0

/-- The set without the positions of `hole`, and how many were taken out. -/
def remove (s : RangeSet) (hole : ByteRange) : RangeSet × Nat :=
  if hole.stop ≤ hole.start then (s, 0)
  else (⟨s.ranges.flatMap (·.without hole)⟩, s.ranges.foldr (fun r n => r.shared hole + n) 0)

def intersects (s : RangeSet) (range : ByteRange) : Bool :=
  s.ranges.any (·.overlaps range)

instance : Membership Nat RangeSet :=
  ⟨fun s i => ∃ r ∈ s.ranges, r.start ≤ i ∧ i < r.stop⟩

def debug (s : RangeSet) : String :=
  "\x7b" ++ ", ".intercalate (s.ranges.map ByteRange.debug) ++ "\x7d"

end RangeSet
end BlobReplica
