import BlobReplica.Digest.Crc32
import Mathlib.Logic.Function.Iterate

/-! One byte decides. Each step of the division can be undone, for the remainder when the byte is known
and for the byte when the remainder is, so two byte strings that differ in a single place never have the
same checksum, however long they are. -/

namespace BlobReplica.Digest

theorem toNat_half (r : UInt32) : (r >>> 1).toNat = r.toNat / 2 := by
  rw [UInt32.toNat_shiftRight]
  rfl

/-- The top bit of what a shift leaves is the bit that went out, since the polynomial has a one there. -/
theorem testBit_crcShift (r : UInt32) : (crcShift r).toNat.testBit 31 = (r &&& 1 == 1) := by
  have moved : (r >>> 1).toNat.testBit 31 = false := by
    apply Nat.testBit_lt_two_pow
    have := r.toNat_lt
    rw [toNat_half]
    omega
  rw [crcShift]
  split
  next out =>
    have polynomial : (0xedb88320 : UInt32).toNat.testBit 31 = true := by decide
    rw [UInt32.toNat_xor, Nat.testBit_xor, moved, polynomial, out]
    rfl
  next kept => rw [moved, Bool.eq_false_iff.mpr kept]

/-- What is left of a word and the bit that went out determine the word. -/
theorem eq_of_halves {r s : UInt32} (left : r >>> 1 = s >>> 1) (out : (r &&& 1 == 1) = (s &&& 1 == 1)) :
    r = s := by
  have low (w : UInt32) : (w &&& 1 == 1) = decide (w.toNat % 2 = 1) := by
    rw [beq_eq_decide, decide_eq_decide, ← UInt32.toNat_inj, UInt32.toNat_and]
    exact Nat.and_one_is_mod w.toNat ▸ Iff.rfl
  have halves := congrArg UInt32.toNat left
  rw [toNat_half, toNat_half] at halves
  rw [low, low, decide_eq_decide] at out
  apply UInt32.toNat_inj.mp
  omega

theorem crcShift_injective : Function.Injective crcShift := by
  intro r s same
  have out := congrArg (fun w => w.toNat.testBit 31) same
  simp only [testBit_crcShift] at out
  refine eq_of_halves ?_ out
  rw [crcShift, crcShift, out] at same
  split at same
  next => exact (UInt32.xor_left_inj _).mp same
  next => exact same

theorem repeat_crcShift_injective (n : Nat) : Function.Injective (Nat.repeat crcShift n) := by
  induction n with
  | zero => exact fun _ _ same => same
  | succ n ih => exact crcShift_injective.comp ih

theorem crcByte_injective (b : UInt8) : Function.Injective (crcByte · b) := by
  intro r s same
  exact (UInt32.xor_left_inj _).mp (repeat_crcShift_injective 8 same)

theorem crcByte_inj {r : UInt32} {b c : UInt8} (same : crcByte r b = crcByte r c) : b = c :=
  UInt8.toUInt32_inj.mp ((UInt32.xor_right_inj _).mp (repeat_crcShift_injective 8 same))

/-- Bytes that follow keep different remainders apart. -/
theorem foldl_crcByte_injective (bytes : Bytes) : Function.Injective (bytes.foldl crcByte ·) := by
  induction bytes with
  | nil => exact fun _ _ same => same
  | cons b rest ih =>
    intro r s same
    exact crcByte_injective b (ih same)

variable {bytes : Bytes} {i : Nat} {old new : UInt8}

theorem crc32_set_ne (here : bytes[i]? = some old) (other : new ≠ old) :
    crc32 (bytes.set i new) ≠ crc32 bytes := by
  intro same
  obtain ⟨below, rfl⟩ := List.getElem?_eq_some_iff.mp here
  have whole : bytes = bytes.take i ++ bytes[i] :: bytes.drop (i + 1) := by
    rw [← List.drop_eq_getElem_cons below, List.take_append_drop]
  have rest := (UInt32.xor_left_inj _).mp same
  rw [List.set_eq_take_append_cons_drop, if_pos below] at rest
  conv at rest => rhs; rw [whole]
  rw [List.foldl_append, List.foldl_append, List.foldl_cons, List.foldl_cons] at rest
  exact other (crcByte_inj (foldl_crcByte_injective _ rest))

end BlobReplica.Digest
