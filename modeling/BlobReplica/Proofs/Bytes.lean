import BlobReplica.Bytes
import Mathlib.Algebra.Ring.Nat
import Mathlib.Data.List.Induction

/-! Byte strings taken apart and put together: numbers of a fixed width come back reduced to it, bytes
are spelled again by the number they spell, and slices and overlays are told position by position. -/

namespace BlobReplica.Bytes

theorem number_append_byte (bytes : Bytes) (b : UInt8) :
    number (bytes ++ [b]) = number bytes * 256 + b.toNat := by
  simp [number, List.foldl_append]

theorem number_bigEndian (width n : Nat) : number (bigEndian width n) = n % 256 ^ width := by
  induction width generalizing n with
  | zero => simp [bigEndian, number, Nat.mod_one]
  | succ width ih =>
    have byte : (UInt8.ofNat (n % 256)).toNat = n % 256 := by simp
    rw [bigEndian, number_append_byte, ih, byte, Nat.pow_succ, Nat.mul_comm (256 ^ width) 256,
      Nat.mod_mul]
    omega

theorem number_lt (bytes : Bytes) : number bytes < 256 ^ bytes.length := by
  induction bytes using List.reverseRecOn with
  | nil => simp [number]
  | append_singleton front b ih =>
    have byte := b.toNat_lt
    rw [number_append_byte, List.length_append, List.length_singleton, Nat.pow_succ]
    omega

/-- Writing the number that bytes spell in as many bytes gives them back. -/
theorem bigEndian_number (bytes : Bytes) : bigEndian bytes.length (number bytes) = bytes := by
  induction bytes using List.reverseRecOn with
  | nil => rfl
  | append_singleton front b ih =>
    have byte := b.toNat_lt
    have before : (number front * 256 + b.toNat) / 256 = number front := by omega
    have last : (number front * 256 + b.toNat) % 256 = b.toNat := by omega
    rw [number_append_byte, List.length_append, List.length_singleton, bigEndian, before, last, ih,
      UInt8.ofNat_toNat]

theorem numberLittle_littleEndian (width n : Nat) :
    numberLittle (littleEndian width n) = n % 256 ^ width := by
  rw [numberLittle, littleEndian, List.reverse_reverse, number_bigEndian]

@[simp] theorem length_littleEndian (width n : Nat) : (littleEndian width n).length = width := by
  simp [littleEndian]

theorem numberLittle_lt (bytes : Bytes) : numberLittle bytes < 256 ^ bytes.length := by
  have below := number_lt bytes.reverse
  rwa [List.length_reverse] at below

theorem littleEndian_numberLittle (bytes : Bytes) :
    littleEndian bytes.length (numberLittle bytes) = bytes := by
  have spelled := bigEndian_number bytes.reverse
  rw [List.length_reverse] at spelled
  rw [littleEndian, numberLittle, spelled, List.reverse_reverse]

theorem split?_eq_some_iff {bytes front rest : Bytes} {n : Nat} :
    split? n bytes = some (front, rest) ↔ front.length = n ∧ bytes = front ++ rest := by
  constructor
  · intro split
    obtain ⟨long, same⟩ := Option.ite_none_right_eq_some.mp split
    obtain ⟨rfl, rfl⟩ := Prod.mk.inj (Option.some.inj same)
    exact ⟨List.length_take_of_le long, (List.take_append_drop n bytes).symm⟩
  · rintro ⟨width, rfl⟩
    exact split?_append width

theorem chunks_nonempty {size : Nat} {positive : 0 < size} {bytes piece : Bytes}
    (member : piece ∈ bytes.chunks size positive) : piece ≠ [] := by
  fun_induction chunks size bytes positive with
  | case1 => simp at member
  | case2 b rest ih =>
    rcases List.mem_cons.mp member with rfl | member
    · simp only [ne_eq, List.take_eq_nil_iff, not_or]
      exact ⟨by omega, by simp⟩
    · exact ih member

theorem length_le_of_mem_chunks {size : Nat} {positive : 0 < size} {bytes piece : Bytes}
    (member : piece ∈ bytes.chunks size positive) : piece.length ≤ size := by
  fun_induction chunks size bytes positive with
  | case1 => simp at member
  | case2 b rest ih =>
    rcases List.mem_cons.mp member with rfl | member
    · exact List.length_take_le _ _
    · exact ih member

/-- Every piece but the last one is as long as a piece can be. -/
theorem length_of_mem_dropLast_chunks {size : Nat} {positive : 0 < size} {bytes piece : Bytes}
    (member : piece ∈ (bytes.chunks size positive).dropLast) : piece.length = size := by
  fun_induction chunks size bytes positive with
  | case1 => simp at member
  | case2 b rest ih =>
    by_cases last : chunks size ((b :: rest).drop size) positive = []
    · simp [last] at member
    · rw [List.dropLast_cons_of_ne_nil last] at member
      rcases List.mem_cons.mp member with rfl | member
      · have more : (b :: rest).drop size ≠ [] := fun none => last (by rw [none, chunks])
        have long : size < (b :: rest).length := by
          rwa [ne_eq, List.drop_eq_nil_iff, Nat.not_le] at more
        rw [List.length_take, Nat.min_eq_left (Nat.le_of_lt long)]
      · exact ih member

variable {base data whole : Bytes} {offset i : Nat}

theorem length_overlay (fits : offset + data.length ≤ base.length) :
    (base.overlay offset data).length = base.length := by
  simp only [overlay, List.length_append, List.length_take, List.length_drop]
  omega

theorem getElem?_overlay (fits : offset + data.length ≤ base.length) :
    (base.overlay offset data)[i]? =
      if offset ≤ i ∧ i < offset + data.length then data[i - offset]? else base[i]? := by
  have front : (base.take offset).length = offset := by
    rw [List.length_take]
    omega
  simp only [overlay, List.append_assoc, List.getElem?_append, front]
  by_cases before : i < offset
  · rw [if_pos before, if_neg (by omega), List.getElem?_take_of_lt before]
  · by_cases inside : i < offset + data.length
    · rw [if_neg before, if_pos (by omega), if_pos (by omega)]
    · rw [if_neg before, if_neg (by omega), if_neg (by omega), List.getElem?_drop]
      congr 1
      omega

theorem length_slice {start stop : Nat} (fits : stop ≤ whole.length) :
    (whole.slice start stop).length = stop - start := by
  simp only [slice, List.length_take, List.length_drop]
  omega

theorem getElem?_slice {start stop : Nat} (below : start + i < stop) :
    (whole.slice start stop)[i]? = whole[start + i]? := by
  rw [slice, List.getElem?_take_of_lt (by omega), List.getElem?_drop]

theorem slice_congr {xs ys : Bytes} {start stop : Nat}
    (same : ∀ i, start ≤ i → i < stop → xs[i]? = ys[i]?) : xs.slice start stop = ys.slice start stop := by
  refine List.ext_getElem? fun j => ?_
  simp only [slice, List.getElem?_take, List.getElem?_drop]
  split
  next inside => exact same _ (Nat.le_add_right _ _) (by omega)
  next => rfl

/-- At every position the byte of one of two texts. -/
theorem exists_choice {new old : Bytes} (same : new.length = old.length) (fresh : Nat → Prop) :
    ∃ whole : Bytes, whole.length = new.length ∧
      (∀ i, fresh i → whole[i]? = new[i]?) ∧ ∀ i, ¬ fresh i → whole[i]? = old[i]? := by
  classical
  induction new generalizing old fresh with
  | nil =>
    obtain rfl := List.length_eq_zero_iff.mp same.symm
    exact ⟨[], rfl, by simp, by simp⟩
  | cons x xs ih =>
    obtain ⟨y, ys, rfl⟩ := List.exists_cons_of_length_pos (by rw [← same]; simp : 0 < old.length)
    obtain ⟨rest, length, taken, kept⟩ := ih (Nat.succ.inj same) fun i => fresh (i + 1)
    refine ⟨(if fresh 0 then x else y) :: rest, by simp [length], fun i has => ?_, fun i lacks => ?_⟩
    · cases i with
      | zero => simp [has]
      | succ i => exact taken i has
    · cases i with
      | zero => simp [lacks]
      | succ i => exact kept i lacks

end BlobReplica.Bytes
