/-! Byte strings and the fixed-width numbers in them. An encoding is as wide as its field says, and
reading what was written gives the number back, reduced to that width. -/

namespace BlobReplica

abbrev Bytes := List UInt8

namespace Bytes

/-- The low `width` bytes of a number, most significant first. -/
def bigEndian : Nat → Nat → Bytes
  | 0, _ => []
  | width + 1, n => bigEndian width (n / 256) ++ [UInt8.ofNat (n % 256)]

/-- The number that bytes spell, most significant first. -/
def number (bytes : Bytes) : Nat :=
  bytes.foldl (fun acc b => acc * 256 + b.toNat) 0

def littleEndian (width n : Nat) : Bytes :=
  (bigEndian width n).reverse

def numberLittle (bytes : Bytes) : Nat :=
  number bytes.reverse

def split? (n : Nat) (bytes : Bytes) : Option (Bytes × Bytes) :=
  if n ≤ bytes.length then some (bytes.take n, bytes.drop n) else none

/-- The bytes of the half-open interval `[start, stop)`. -/
def slice (bytes : Bytes) (start stop : Nat) : Bytes :=
  (bytes.drop start).take (stop - start)

/-- `base` with `data` written over it from `offset` on. -/
def overlay (base : Bytes) (offset : Nat) (data : Bytes) : Bytes :=
  base.take offset ++ data ++ base.drop (offset + data.length)

@[simp] theorem length_bigEndian (width n : Nat) : (bigEndian width n).length = width := by
  induction width generalizing n with
  | zero => rfl
  | succ width ih => simp [bigEndian, ih]

theorem split?_append {front rest : Bytes} {n : Nat} (width : front.length = n) :
    split? n (front ++ rest) = some (front, rest) := by
  subst width
  simp [split?]

def chunks (size : Nat) (bytes : Bytes) (positive : 0 < size) : List Bytes :=
  match bytes with
  | [] => []
  | b :: rest =>
    (b :: rest).take size :: chunks size ((b :: rest).drop size) positive
termination_by bytes.length
decreasing_by simp only [List.length_drop, List.length_cons]; omega

theorem flatten_chunks {size : Nat} (positive : 0 < size) (bytes : Bytes) :
    (chunks size bytes positive).flatten = bytes := by
  fun_induction chunks size bytes positive with
  | case1 => rfl
  | case2 b rest ih => rw [List.flatten_cons, ih, List.take_append_drop]

end Bytes
end BlobReplica
