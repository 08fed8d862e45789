import BlobReplica.Metadata
import BlobReplica.Proofs.Bytes
import BlobReplica.Proofs.Table
import BlobReplica.Proofs.Text.Utf8

/-! Reading accepts what writing produces, whatever stands behind it, and nothing else. A metadata
section therefore gives the properties that it was written from, more bytes behind it change nothing,
and what is left of a section that was cut short gives none. -/

namespace BlobReplica.Metadata

variable {bytes rest more : Bytes} {s t : String} {n count : Nat} {ps result : Properties}
  {entries others : List (String × String)}

theorem readLength_written (fits : n < 2 ^ 64) (rest : Bytes) :
    readLength (Bytes.littleEndian 8 n ++ rest) = some (n, rest) := by
  have read : (Bytes.littleEndian 8 n).numberLittle = n := by
    rw [Bytes.numberLittle_littleEndian, Nat.mod_eq_of_lt (by simpa using fits)]
  simp [readLength, Bytes.split?_append (Bytes.length_littleEndian 8 n), read]

theorem readLength_eq_some_iff :
    readLength bytes = some (n, rest) ↔ n < 2 ^ 64 ∧ bytes = Bytes.littleEndian 8 n ++ rest := by
  constructor
  · intro read
    obtain ⟨⟨front, behind⟩, split, same⟩ := Option.map_eq_some_iff.mp read
    obtain ⟨rfl, rfl⟩ := Prod.mk.inj same
    obtain ⟨width, rfl⟩ := Bytes.split?_eq_some_iff.mp split
    have below := Bytes.numberLittle_lt front
    have spelled := Bytes.littleEndian_numberLittle front
    rw [width] at below spelled
    exact ⟨by simpa using below, by rw [spelled]⟩
  · rintro ⟨fits, rfl⟩
    exact readLength_written fits rest

theorem readText_encodeText (fits : Utf8.size s < 2 ^ 64) (rest : Bytes) :
    readText (encodeText s ++ rest) = some (s, rest) := by
  have front : Bytes.split? (Utf8.size s) (Utf8.encode s ++ rest) = some (Utf8.encode s, rest) :=
    Bytes.split?_append rfl
  simp [readText, encodeText, List.append_assoc, readLength_written fits, front,
    Utf8.decode?_encode]

theorem readText_eq_some_iff :
    readText bytes = some (s, rest) ↔ Utf8.size s < 2 ^ 64 ∧ bytes = encodeText s ++ rest := by
  constructor
  · intro read
    simp only [readText, Option.bind_eq_bind, Option.bind_eq_some_iff, Prod.exists] at read
    obtain ⟨length, behind, counted, front, rest, split, text, decoded, same⟩ := read
    obtain ⟨fits, rfl⟩ := readLength_eq_some_iff.mp counted
    obtain ⟨rfl, rfl⟩ := Bytes.split?_eq_some_iff.mp split
    obtain rfl := Utf8.decode?_eq_some_iff.mp decoded
    obtain ⟨rfl, rfl⟩ := Prod.mk.inj (Option.some.inj same)
    exact ⟨fits, (List.append_assoc _ _ _).symm⟩
  · rintro ⟨fits, rfl⟩
    exact readText_encodeText fits rest

/-- A text is told apart from every other one before what stands behind it is looked at. -/
theorem encodeText_append_inj (fits : Utf8.size s < 2 ^ 64) (fits' : Utf8.size t < 2 ^ 64)
    (same : encodeText s ++ rest = encodeText t ++ more) : s = t ∧ rest = more := by
  have first := readText_encodeText fits rest
  rw [same, readText_encodeText fits' more] at first
  obtain ⟨rfl, rfl⟩ := Prod.mk.inj (Option.some.inj first)
  exact ⟨rfl, rfl⟩

/-! ### Entries -/

/-- An entry with texts that a length field can count. -/
structure EntryFits (e : String × String) : Prop where
  name : Utf8.size e.1 < 2 ^ 64
  value : Utf8.size e.2 < 2 ^ 64

theorem readEntries_written (fits : ∀ e ∈ entries, EntryFits e) (ps : Properties) (rest : Bytes) :
    readEntries entries.length ps (entries.flatMap encodeEntry ++ rest) =
      some (entries.foldl (fun ps e => Table.insert ps e.1 e.2) ps) := by
  induction entries generalizing ps with
  | nil => rfl
  | cons e others ih =>
    obtain ⟨own, fits⟩ := List.forall_mem_cons.mp fits
    simp only [List.length_cons, readEntries, List.flatMap_cons, encodeEntry, List.append_assoc,
      readText_encodeText own.name, readText_encodeText own.value]
    exact ih fits _

theorem written_of_readEntries (read : readEntries count ps bytes = some result) :
    ∃ (entries : List (String × String)) (rest : Bytes), entries.length = count ∧
      (∀ e ∈ entries, EntryFits e) ∧ bytes = entries.flatMap encodeEntry ++ rest ∧
      result = entries.foldl (fun ps e => Table.insert ps e.1 e.2) ps := by
  fun_induction readEntries count ps bytes with
  | case1 ps bytes => exact ⟨[], bytes, rfl, by simp, rfl, (Option.some.inj read).symm⟩
  | case2 => contradiction
  | case3 => contradiction
  | case4 count ps bytes name behind readName value rest readValue ih =>
    obtain ⟨fitsName, rfl⟩ := readText_eq_some_iff.mp readName
    obtain ⟨fitsValue, rfl⟩ := readText_eq_some_iff.mp readValue
    obtain ⟨entries, more, rfl, fits, rfl, rfl⟩ := ih read
    refine ⟨(name, value) :: entries, more, rfl, ?_, ?_, rfl⟩
    · exact List.forall_mem_cons.mpr ⟨⟨fitsName, fitsValue⟩, fits⟩
    · simp only [List.flatMap_cons, encodeEntry, List.append_assoc]

theorem flatMap_encodeEntry_append_inj (length : entries.length = others.length)
    (fits : ∀ e ∈ entries, EntryFits e) (fits' : ∀ e ∈ others, EntryFits e)
    (same : entries.flatMap encodeEntry ++ rest = others.flatMap encodeEntry ++ more) :
    entries = others ∧ rest = more := by
  induction entries generalizing others with
  | nil =>
    obtain rfl := List.length_eq_zero_iff.mp length.symm
    exact ⟨rfl, same⟩
  | cons e entries ih =>
    obtain ⟨e', others, rfl⟩ := List.exists_cons_of_length_eq_add_one length.symm
    obtain ⟨own, fits⟩ := List.forall_mem_cons.mp fits
    obtain ⟨own', fits'⟩ := List.forall_mem_cons.mp fits'
    simp only [List.flatMap_cons, encodeEntry, List.append_assoc] at same
    obtain ⟨names, same⟩ := encodeText_append_inj own.name own'.name same
    obtain ⟨values, same⟩ := encodeText_append_inj own.value own'.value same
    obtain ⟨rfl, behind⟩ := ih (Nat.succ.inj length) fits fits' same
    rw [Prod.ext names values]
    exact ⟨rfl, behind⟩

/-! ### Sections -/

/-- Entries that the length fields of a section can count. Memory holds no others: a text in it has
fewer than `2 ^ 63` bytes. -/
structure Fits (entries : List (String × String)) : Prop where
  count : entries.length < 2 ^ 64
  each : ∀ e ∈ entries, EntryFits e

/-- The section of some entries in their order. -/
def written (entries : List (String × String)) : Bytes :=
  Bytes.littleEndian 8 entries.length ++ entries.flatMap encodeEntry

/-- A section is read exactly if one is written at the front; of two entries with one name the later
stays. -/
theorem decode?_eq_some_iff : decode? bytes = some ps ↔
    ∃ entries rest, Fits entries ∧ bytes = written entries ++ rest ∧ ps = Table.ofList entries := by
  constructor
  · intro read
    cases counted : readLength bytes with
    | none => simp [decode?, counted] at read
    | some found =>
      obtain ⟨count, behind⟩ := found
      obtain ⟨few, rfl⟩ := readLength_eq_some_iff.mp counted
      rw [decode?, counted] at read
      obtain ⟨entries, rest, rfl, each, rfl, rfl⟩ := written_of_readEntries read
      exact ⟨entries, rest, ⟨few, each⟩, (List.append_assoc _ _ _).symm, rfl⟩
  · rintro ⟨entries, rest, fits, rfl, rfl⟩
    rw [decode?, written, List.append_assoc, readLength_written fits.count]
    exact readEntries_written fits.each .empty rest

/-- No section is the beginning of another one. -/
theorem written_append_inj (fits : Fits entries) (fits' : Fits others)
    (same : written entries ++ rest = written others ++ more) : entries = others ∧ rest = more := by
  rw [written, written, List.append_assoc, List.append_assoc] at same
  have count := readLength_written fits.count (entries.flatMap encodeEntry ++ rest)
  rw [same, readLength_written fits'.count] at count
  obtain ⟨length, behind⟩ := Prod.mk.inj (Option.some.inj count)
  exact flatMap_encodeEntry_append_inj length.symm fits.each fits'.each behind.symm

theorem length_encodeText (s : String) : (encodeText s).length = 8 + Utf8.size s := by
  simp [encodeText, Utf8.size]

theorem length_entries_le (entries : List (String × String)) :
    entries.length ≤ (entries.flatMap encodeEntry).length := by
  induction entries with
  | nil => simp
  | cons e others ih =>
    simp only [List.flatMap_cons, List.length_append, List.length_cons, encodeEntry,
      length_encodeText]
    omega

theorem length_encode (ps : Properties) :
    (encode ps).length = 8 + (ps.entries.flatMap encodeEntry).length := by
  simp [encode]

/-- Entries with fewer bytes than a length field can count are fewer and shorter than that. -/
theorem fits_of_length (short : (entries.flatMap encodeEntry).length < 2 ^ 64) : Fits entries := by
  refine ⟨Nat.lt_of_le_of_lt (length_entries_le entries) short, fun e member => ?_⟩
  obtain ⟨before, after, rfl⟩ := List.append_of_mem member
  simp only [List.flatMap_append, List.flatMap_cons, List.length_append, encodeEntry,
    length_encodeText] at short
  exact ⟨by omega, by omega⟩

theorem decode?_encode_append (fits : Fits ps.entries) (rest : Bytes) :
    decode? (encode ps ++ rest) = some ps :=
  decode?_eq_some_iff.mpr ⟨ps.entries, rest, fits, rfl, (Table.ofList_entries ps).symm⟩

theorem decode?_encode {ps : Properties} (fits : (encode ps).length < 2 ^ 64) :
    decode? (encode ps) = some ps := by
  rw [length_encode] at fits
  have short : (ps.entries.flatMap encodeEntry).length < 2 ^ 64 := by omega
  simpa using decode?_encode_append (fits_of_length short) []

/-- A section gives its properties, more bytes behind it change nothing, and where it is cut short
there are no properties to read. -/
theorem sections_read_whole (fits : Fits ps.entries) :
    decode? (encode ps) = some ps ∧
    (∀ rest, decode? (encode ps ++ rest) = some ps) ∧
    ∀ front, front <+: encode ps → front ≠ encode ps → decode? front = none := by
  have whole := decode?_encode_append fits
  refine ⟨by simpa using whole [], whole, ?_⟩
  rintro front ⟨lost, joined⟩ proper
  cases read : decode? front with
  | none => rfl
  | some taken =>
    obtain ⟨entries, behind, counted, rfl, _⟩ := decode?_eq_some_iff.mp read
    -- the section that was read stands at the front of the whole one, so that nothing was lost
    have same : written entries ++ (behind ++ lost) = written ps.entries ++ [] := by
      rw [← List.append_assoc, joined, List.append_nil]
      rfl
    obtain ⟨_, nothing⟩ := written_append_inj counted fits same
    obtain ⟨rfl, rfl⟩ := List.append_eq_nil_iff.mp nothing
    rw [List.append_nil] at joined
    exact absurd joined proper

def sampleProperties : Properties :=
  .ofList [("a", ""), ("k", "é")]

/-- Neither the first property alone nor half of the last character is read. -/
theorem sections_read_whole_sample :
    Fits sampleProperties.entries ∧ (encode sampleProperties).length = 44 ∧
    decode? (encode sampleProperties) = some sampleProperties ∧
    decode? (encode sampleProperties ++ [255]) = some sampleProperties ∧
    decode? ((encode sampleProperties).take 25) = none ∧
    decode? ((encode sampleProperties).take 43) = none := by
  have fits : Fits sampleProperties.entries := fits_of_length (by decide +kernel)
  obtain ⟨whole, longer, cut⟩ := sections_read_whole fits
  have half (k : Nat) (proper : (encode sampleProperties).take k ≠ encode sampleProperties) :
      decode? ((encode sampleProperties).take k) = none :=
    cut _ (List.take_prefix k _) proper
  exact ⟨fits, by decide +kernel, whole, longer [255], half 25 (by decide +kernel),
    half 43 (by decide +kernel)⟩

end BlobReplica.Metadata
