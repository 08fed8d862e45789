import BlobReplica.RangeSet

/-! Intervals as a map from starts to stops. Positions are taken out one stored interval after the
other: each leaves the map, and what is left of it on either side is entered under its own start. The
intervals to go through are fixed before the first one is touched. -/

namespace BlobReplica.RangeSet

/-- Enters an interval at its place, over one with the same start. -/
def enter (r : ByteRange) : List ByteRange → List ByteRange
  | [] => [r]
  | x :: rest =>
    if r.start < x.start then r :: x :: rest
    else if r.start = x.start then r :: rest
    else x :: enter r rest

def leave (start : Nat) (ranges : List ByteRange) : List ByteRange :=
  ranges.filter (·.start != start)

/-- Takes the positions of a hole out of one stored interval that it meets, and counts them. -/
def cutOut (hole : ByteRange) (state : List ByteRange × Nat) (r : ByteRange) : List ByteRange × Nat :=
  let ranges := leave r.start state.1
  let ranges := if r.start < hole.start then enter ⟨r.start, hole.start⟩ ranges else ranges
  let ranges := if hole.stop < r.stop then enter ⟨hole.stop, r.stop⟩ ranges else ranges
  (ranges, state.2 + (min r.stop hole.stop - max r.start hole.start))

def removeInPlace (s : RangeSet) (hole : ByteRange) : RangeSet × Nat :=
  if hole.stop ≤ hole.start then (s, 0)
  else
    let (ranges, removed) := (s.ranges.filter (·.overlaps hole)).foldl (cutOut hole) (s.ranges, 0)
    (⟨ranges⟩, removed)

/-- What these removals leave, taken one after the other. -/
def removeAll (s : RangeSet) (holes : List ByteRange) : RangeSet :=
  holes.foldl (fun s hole => (s.remove hole).1) s

end BlobReplica.RangeSet
