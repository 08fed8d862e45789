import BlobReplica.Text.Utf8

/-! Reading UTF-8 undoes writing it, and what is read is what was written. -/

namespace BlobReplica.Utf8

theorem codePoint_encoded (c : Char) : codePoint (String.utf8EncodeChar c) = c.toNat := by
  have bound : c.val.toNat < 0x110000 := by
    have valid := c.valid
    simp only [UInt32.isValidChar, Nat.isValidChar] at valid
    omega
  have value : c.toNat = c.val.toNat := rfl
  fun_cases String.utf8EncodeChar c <;>
    simp [codePoint] <;> omega

theorem encoded_eq_cons (c : Char) :
    ∃ lead rest, String.utf8EncodeChar c = lead :: rest ∧ rest.length = width lead - 1 := by
  have bound : c.val.toNat < 0x110000 := by
    have valid := c.valid
    simp only [UInt32.isValidChar, Nat.isValidChar] at valid
    omega
  fun_cases String.utf8EncodeChar c <;>
    refine ⟨_, _, rfl, ?_⟩ <;>
    simp only [width, UInt8.lt_iff_toNat_lt, UInt8.reduceToNat, UInt8.toNat_ofNat',
      List.length_cons, List.length_nil] <;>
    grind

theorem front?_encoded (c : Char) (rest : Bytes) :
    front? (String.utf8EncodeChar c ++ rest) = some (c, rest) := by
  obtain ⟨lead, others, form, count⟩ := encoded_eq_cons c
  have point := codePoint_encoded c
  rw [form] at point
  have read : Char.ofNat (codePoint (lead :: (others ++ rest).take (width lead - 1))) = c := by
    rw [← count, List.take_left, point, Char.ofNat_toNat]
  simp only [form, List.cons_append, front?, read]
  simp

theorem encodeChars_cons (c : Char) (cs : List Char) :
    encodeChars (c :: cs) = String.utf8EncodeChar c ++ encodeChars cs :=
  rfl

theorem encodeChars_ne_nil {cs : List Char} (nonempty : cs ≠ []) : encodeChars cs ≠ [] := by
  obtain ⟨c, rest, rfl⟩ := List.exists_cons_of_ne_nil nonempty
  intro empty
  have front : front? (encodeChars (c :: rest)) = some (c, encodeChars rest) :=
    front?_encoded c (encodeChars rest)
  rw [empty] at front
  contradiction

theorem decodeFrom_encodeChars (cs : List Char) (index : Nat) (read : List Char) :
    decodeFrom index read (encodeChars cs) = .ok (read.reverse ++ cs) := by
  induction cs generalizing index read with
  | nil => simp [encodeChars, decodeFrom]
  | cons c rest ih =>
    have front : front? (encodeChars (c :: rest)) = some (c, encodeChars rest) :=
      front?_encoded c (encodeChars rest)
    rw [decodeFrom, if_neg (encodeChars_ne_nil (List.cons_ne_nil c rest))]
    split
    next absent => simp [front] at absent
    next c' rest' found =>
      obtain ⟨rfl, rfl⟩ := Prod.mk.inj (Option.some.inj (front.symm.trans found))
      rw [ih]
      simp

theorem decode_encode (s : String) : decode (encode s) = .ok s := by
  simp [decode, decodeChars, encode, decodeFrom_encodeChars, Except.map]

theorem decode?_encode (s : String) : decode? (encode s) = some s := by
  rw [decode?, decode_encode]
  rfl

/-- A character read at the front is written there. -/
theorem encode_of_front? {bytes rest : Bytes} {c : Char} (h : front? bytes = some (c, rest)) :
    bytes = String.utf8EncodeChar c ++ rest := by
  unfold front? at h
  split at h
  next => contradiction
  next lead others =>
    simp only at h
    split at h
    next stands =>
      obtain ⟨rfl, rfl⟩ := Prod.mk.inj (Option.some.inj h)
      exact (List.prefix_iff_eq_append.mp (List.isPrefixOf_iff_prefix.mp stands)).symm
    next => contradiction

theorem encodeChars_of_decodeFrom {index : Nat} {read cs : List Char} {bytes : Bytes}
    (decoded : decodeFrom index read bytes = .ok cs) :
    ∃ tail, cs = read.reverse ++ tail ∧ encodeChars tail = bytes := by
  fun_induction decodeFrom index read bytes with
  | case1 => exact ⟨[], by simpa using (Except.ok.inj decoded).symm, rfl⟩
  | case2 => contradiction
  | case3 index read bytes _ c rest front ih =>
    obtain ⟨tail, rfl, written⟩ := ih decoded
    refine ⟨c :: tail, by simp, ?_⟩
    rw [encode_of_front? front, ← written]
    rfl

/-- A text has one written form. -/
theorem encode_of_decode {s : String} {bytes : Bytes} (decoded : decode bytes = .ok s) :
    encode s = bytes := by
  rw [decode, decodeChars] at decoded
  cases read : decodeFrom 0 [] bytes with
  | error fault => simp [read, Except.map] at decoded
  | ok cs =>
    simp only [read, Except.map, Except.ok.injEq] at decoded
    obtain ⟨tail, rfl, written⟩ := encodeChars_of_decodeFrom read
    rw [← decoded, encode, String.toList_ofList]
    exact written

theorem decode?_eq_some_iff {s : String} {bytes : Bytes} : decode? bytes = some s ↔ bytes = encode s := by
  constructor
  · intro read
    cases decoded : decode bytes with
    | error fault =>
      rw [decode?, decoded] at read
      contradiction
    | ok t =>
      rw [decode?, decoded] at read
      rw [← encode_of_decode decoded, Option.some.inj read]
  · rintro rfl
    exact decode?_encode s

theorem encodeChars_append (cs ds : List Char) :
    encodeChars (cs ++ ds) = encodeChars cs ++ encodeChars ds :=
  List.flatMap_append

theorem encode_append (s t : String) : encode (s ++ t) = encode s ++ encode t := by
  rw [encode, encode, encode, String.toList_append, encodeChars_append]

theorem encode_ofList (cs : List Char) : encode (String.ofList cs) = encodeChars cs := by
  rw [encode, String.toList_ofList]

theorem encoded_ascii {c : Char} (small : c.toNat < 128) :
    String.utf8EncodeChar c = [UInt8.ofNat c.toNat] := by
  have value : c.val.toNat = c.toNat := rfl
  rw [String.utf8EncodeChar, if_pos (by omega), value]

theorem encoded_beyond {c : Char} (beyond : 128 ≤ c.toNat) :
    ∀ b ∈ String.utf8EncodeChar c, 128 ≤ b.toNat := by
  have value : c.toNat = c.val.toNat := rfl
  fun_cases String.utf8EncodeChar c <;>
    simp only [List.forall_mem_cons, List.not_mem_nil, false_implies, implies_true, and_true,
      UInt8.toNat_ofNat'] <;>
    omega

theorem not_mem_encodeChars {mark : Char} {cs : List Char} (small : mark.toNat < 128)
    (free : mark ∉ cs) : UInt8.ofNat mark.toNat ∉ encodeChars cs := by
  intro member
  obtain ⟨c, listed, here⟩ := List.mem_flatMap.mp member
  have byte : (UInt8.ofNat mark.toNat).toNat = mark.toNat := by
    rw [UInt8.toNat_ofNat']
    omega
  by_cases ascii : c.toNat < 128
  · rw [encoded_ascii ascii, List.mem_singleton] at here
    have same := congrArg UInt8.toNat here
    rw [byte, UInt8.toNat_ofNat', Nat.mod_eq_of_lt (by omega)] at same
    obtain rfl : mark = c := Char.toNat_inj.mp same
    exact free listed
  · have := encoded_beyond (Nat.not_lt.mp ascii) _ here
    omega

theorem getLast?_of_encodeChars {mark : Char} {cs : List Char} (small : mark.toNat < 128)
    (last : (encodeChars cs).getLast? = some (UInt8.ofNat mark.toNat)) : cs.getLast? = some mark := by
  rcases List.eq_nil_or_concat cs with rfl | ⟨front, c, rfl⟩
  · contradiction
  · have ends := List.getLast?_eq_some_getLast (encodeChars_ne_nil (List.cons_ne_nil c []))
    rw [List.concat_eq_append] at last ⊢
    rw [encodeChars_append, List.getLast?_append, ends, Option.some_or] at last
    by_cases same : mark = c
    · rw [same, List.getLast?_concat]
    · have free : mark ∉ [c] := fun member => same (List.mem_singleton.mp member)
      exact absurd (List.mem_of_getLast? (ends.trans last)) (not_mem_encodeChars small free)

end BlobReplica.Utf8
