import BlobReplica.Proofs.Except
import BlobReplica.Proofs.Fragment.Split

/-! Which publications can be sent, and what their datagrams say. The bounds on key, sections and
datagrams are all that can stand in the way; within them each section comes in pieces of one size, laid
end to end, the metadata before the payload. -/

namespace BlobReplica

namespace Fragment.Publication

variable {p : Publication} {kind : Section} {size offset : Nat} {fs : List Fragment}
  {bytes data : Bytes} {pieces : List Bytes} {f : Fragment}

/-! ### The pieces of a section -/

/-- What a section is cut into. -/
def cut (size : Nat) (bytes : Bytes) : List Bytes :=
  if bytes = [] then [[]] else bytes.chunks (pieceSize size) (pieceSize_pos size)

theorem cut_solid (filled : bytes ≠ []) :
    cut size bytes = bytes.chunks (pieceSize size) (pieceSize_pos size) :=
  if_neg filled

theorem flatten_cut (size : Nat) (bytes : Bytes) : (cut size bytes).flatten = bytes := by
  rw [cut]
  split
  next none => rw [none]; rfl
  next => exact Bytes.flatten_chunks _ _

theorem cut_ne_nil (size : Nat) (bytes : Bytes) : cut size bytes ≠ [] := by
  by_cases none : bytes = []
  · rw [cut, if_pos none]
    exact List.cons_ne_nil [] []
  · intro gone
    have whole := flatten_cut size bytes
    rw [gone] at whole
    exact none whole.symm

theorem length_le_of_mem_cut (member : data ∈ cut size bytes) : data.length ≤ pieceSize size := by
  rw [cut] at member
  split at member
  next => rw [List.mem_singleton.mp member]; exact Nat.zero_le _
  next => exact Bytes.length_le_of_mem_chunks member

theorem length_of_mem_dropLast_cut (member : data ∈ (cut size bytes).dropLast) :
    data.length = pieceSize size := by
  rw [cut] at member
  split at member
  next => contradiction
  next => exact Bytes.length_of_mem_dropLast_chunks member

theorem splitSection_eq_ok : p.splitSection size kind (p.bytes kind) = .ok fs ↔
    (p.bytes kind).length < 2 ^ 32 ∧
      fs = p.place kind (p.bytes kind).length 0 (cut size (p.bytes kind)) := by
  have bound : Datagram.maxSectionSize + 1 = 2 ^ 32 := rfl
  rw [splitSection, ← cut]
  split
  next long => simp only [reduceCtorEq, false_iff]; omega
  next fits =>
    have below : (p.bytes kind).length < 2 ^ 32 := by omega
    rw [Except.ok.injEq, eq_comm, and_iff_right below]

/-- The fragments of a section that comes in pieces of some size: of this publication and section, laid
end to end from the start, with all of the section's bytes. Each is as long as a piece, the last one
perhaps shorter; there is an empty one only for an empty section, alone. -/
structure Pieces (p : Publication) (size : Nat) (kind : Section) (fs : List Fragment) : Prop where
  own : ∀ f ∈ fs, f.key = p.key ∧ f.version = p.version ∧ f.sectionKind = kind ∧
    f.sectionLength.toNat = (p.bytes kind).length
  start : fs.head?.map (·.offset) = some 0
  contiguous : fs.IsChain fun f g => f.stop = g.offset.toNat
  hollow : p.bytes kind = [] → ∃ f, fs = [f] ∧ f.data = []
  solid : p.bytes kind ≠ [] → ∀ f ∈ fs, f.data ≠ []
  short : ∀ f ∈ fs, f.data.length ≤ pieceSize size
  full : ∀ f ∈ fs.dropLast, f.data.length = pieceSize size
  whole : fs.flatMap (·.data) = p.bytes kind

theorem map_data_place (p : Publication) (kind : Section) (length offset : Nat) (pieces : List Bytes) :
    (p.place kind length offset pieces).map (·.data) = pieces := by
  induction pieces generalizing offset with
  | nil => rfl
  | cons data rest ih => rw [place, List.map_cons, ih]

theorem head_place (nonempty : pieces ≠ []) :
    (p.place kind length 0 pieces).head?.map (·.offset) = some 0 := by
  obtain ⟨data, rest, rfl⟩ := List.exists_cons_of_ne_nil nonempty
  rfl

theorem chain_place (fits : offset + pieces.flatten.length < 2 ^ 32) :
    (p.place kind length offset pieces).IsChain fun f g => f.stop = g.offset.toNat := by
  induction pieces generalizing offset with
  | nil => exact .nil
  | cons data rest ih =>
    rw [List.flatten_cons, List.length_append] at fits
    have word {n : Nat} (below : n < 2 ^ 32) : (UInt32.ofNat n).toNat = n :=
      UInt32.toNat_ofNat_of_lt' below
    rw [place, List.isChain_cons]
    refine ⟨fun g next => ?_, ih (by omega)⟩
    cases rest with
    | nil => simp [place] at next
    | cons data' rest =>
      rw [place, List.head?_cons, Option.mem_some_iff] at next
      subst next
      rw [Fragment.stop, word (by omega), word (by omega)]

theorem pieces_splitSection (split : p.splitSection size kind (p.bytes kind) = .ok fs) :
    p.Pieces size kind fs := by
  obtain ⟨fits, placed⟩ := splitSection_eq_ok.mp split
  have slices := (splits_splitSection split).slices
  have data : fs.map (·.data) = cut size (p.bytes kind) := placed ▸ map_data_place p kind _ 0 _
  have piece {f : Fragment} (member : f ∈ fs) : f.data ∈ cut size (p.bytes kind) :=
    data ▸ List.mem_map_of_mem member
  have early {f : Fragment} (member : f ∈ fs.dropLast) : f.data ∈ (cut size (p.bytes kind)).dropLast := by
    rw [← data, ← List.map_dropLast]
    exact List.mem_map_of_mem member
  constructor
  case own =>
    intro f member
    obtain ⟨same, slice⟩ := slices f member
    exact ⟨slice.key, slice.version, same, same ▸ slice.length⟩
  case start =>
    rw [placed]
    exact head_place (cut_ne_nil size _)
  case contiguous =>
    rw [placed]
    exact chain_place (by rwa [Nat.zero_add, flatten_cut])
  case hollow =>
    intro none
    rw [cut, if_pos none] at placed
    exact ⟨_, placed, rfl⟩
  case solid =>
    intro filled f member
    exact Bytes.chunks_nonempty (cut_solid filled ▸ piece member)
  case short => exact fun f member => length_le_of_mem_cut (piece member)
  case full => exact fun f member => length_of_mem_dropLast_cut (early member)
  case whole => rw [List.flatMap_def, data, flatten_cut]

theorem follows_of_isChain {α : Type} {R : α → α → Prop} {xs : List α} (chain : xs.IsChain R) {x : α}
    (member : x ∈ xs) : xs.head? = some x ∨ ∃ y ∈ xs.dropLast, R y x := by
  induction xs with
  | nil => contradiction
  | cons a rest ih =>
    obtain ⟨next, chain⟩ := List.isChain_cons.mp chain
    rcases List.mem_cons.mp member with rfl | member
    · exact .inl rfl
    · have more : rest ≠ [] := List.ne_nil_of_mem member
      rw [List.dropLast_cons_of_ne_nil more]
      rcases ih chain member with first | ⟨y, early, before⟩
      · exact .inr ⟨a, List.mem_cons_self, next x first⟩
      · exact .inr ⟨y, List.mem_cons_of_mem a early, before⟩

namespace Pieces

theorem length_le (laid : p.Pieces size kind fs) (member : f ∈ fs) :
    f.data.length ≤ min (pieceSize size) (p.bytes kind).length := by
  refine Nat.le_min.mpr ⟨laid.short f member, ?_⟩
  rw [← laid.whole, List.flatMap_def]
  exact (List.sublist_flatten_of_mem (List.mem_map_of_mem member)).length_le

theorem exists_length (laid : p.Pieces size kind fs) :
    ∃ f ∈ fs, f.data.length = min (pieceSize size) (p.bytes kind).length := by
  have whole := laid.whole
  match fs, laid with
  | [], laid => exact absurd laid.start (by simp)
  | [f], laid =>
    have short := laid.short f List.mem_cons_self
    rw [List.flatMap_singleton] at whole
    exact ⟨f, List.mem_cons_self, by rw [← whole, Nat.min_eq_right short]⟩
  | f :: g :: rest, laid =>
    have full := laid.full f List.mem_cons_self
    have within := laid.length_le (f := f) List.mem_cons_self
    exact ⟨f, List.mem_cons_self, by omega⟩

/-- A fragment starts the section, or a whole piece lies before it. -/
theorem offset_cases (laid : p.Pieces size kind fs) (member : f ∈ fs) :
    f.offset = 0 ∨ pieceSize size ≤ f.offset.toNat := by
  rcases follows_of_isChain laid.contiguous member with first | ⟨g, early, before⟩
  · have start := laid.start
    rw [first] at start
    exact .inl (Option.some.inj start)
  · have full := laid.full g early
    rw [stop] at before
    exact .inr (by omega)

theorem stop_lt (laid : p.Pieces size kind fs) (member : f ∈ fs) (word : size < 2 ^ 64) :
    f.offset.toNat + pieceSize size < 2 ^ 64 := by
  have below := f.offset.toNat_lt
  rcases laid.offset_cases member with start | before
  · rw [start, pieceSize]
    simp only [UInt32.toNat_zero]
    omega
  · omega

end Pieces

/-! ### Datagrams -/

theorem fragments_eq_ok : p.fragments size = .ok fs ↔
    ∃ ms ps, p.splitSection size .metadata (p.bytes .metadata) = .ok ms ∧
      p.splitSection size .payload (p.bytes .payload) = .ok ps ∧ fs = ms ++ ps := by
  rw [fragments, bind_eq_ok]
  constructor
  · rintro ⟨ms, metadata, rest⟩
    obtain ⟨ps, payload, same⟩ := bind_eq_ok.mp rest
    exact ⟨ms, ps, metadata, payload, (Except.ok.inj same).symm⟩
  · rintro ⟨ms, ps, metadata, payload, rfl⟩
    exact ⟨ms, metadata, bind_eq_ok.mpr ⟨ps, payload, rfl⟩⟩

/-- A true slice has a datagram if the key has a proper length and the datagram is not too long. -/
theorem exists_encode (slice : f.SliceOf p) : (∃ d, Datagram.encode f = .ok d) ↔
    (0 < Utf8.size p.key ∧ Utf8.size p.key ≤ Datagram.maxKeySize) ∧
      Datagram.headerSize + Utf8.size p.key + f.data.length + Datagram.trailerSize ≤
        Datagram.maxSize := by
  simp only [Datagram.encode_eq_ok]
  constructor
  · rintro ⟨d, written⟩
    exact ⟨slice.key ▸ written.key, slice.key ▸ written.short⟩
  · rintro ⟨key, short⟩
    refine ⟨_, slice.key ▸ key, ?_, slice.key ▸ short, rfl⟩
    rw [WithinSection, slice.length]
    exact slice.inside

def longest (p : Publication) : Nat :=
  max (p.bytes .metadata).length (p.bytes .payload).length

/-- The bounds that a publication has to keep. -/
structure Sendable (p : Publication) (size : Nat) : Prop where
  key : 1 ≤ Utf8.size p.key ∧ Utf8.size p.key ≤ 1024
  sections : ∀ kind, (p.bytes kind).length < 2 ^ 32
  room : 40 + Utf8.size p.key + min (pieceSize size) p.longest ≤ Datagram.maxSize

/-- The datagrams that can be written are those of the fragments of both sections. -/
theorem datagrams_eq_ok {ds : List Bytes} : p.datagrams size = .ok ds ↔
    ∃ ms ps, p.Pieces size .metadata ms ∧ p.Pieces size .payload ps ∧
      p.fragments size = .ok (ms ++ ps) ∧
      List.Forall₂ (fun f d => Datagram.encode f = .ok d) (ms ++ ps) ds := by
  rw [datagrams, bind_eq_ok]
  constructor
  · rintro ⟨fs, split, encoded⟩
    obtain ⟨ms, ps, metadata, payload, rfl⟩ := fragments_eq_ok.mp split
    exact ⟨ms, ps, pieces_splitSection metadata, pieces_splitSection payload, split,
      mapM_eq_ok.mp encoded⟩
  · rintro ⟨ms, ps, _, _, split, encoded⟩
    exact ⟨ms ++ ps, split, mapM_eq_ok.mpr encoded⟩

theorem sendable_iff : (∃ ds, p.datagrams size = .ok ds) ↔ p.Sendable size := by
  have bounds : Datagram.headerSize + Datagram.trailerSize = 40 ∧ Datagram.maxKeySize = 1024 :=
    ⟨rfl, rfl⟩
  constructor
  · rintro ⟨ds, sent⟩
    obtain ⟨ms, ps, metadata, payload, split, encoded⟩ := datagrams_eq_ok.mp sent
    have all := exists_mapM_eq_ok.mp ⟨ds, mapM_eq_ok.mpr encoded⟩
    have fits {f : Fragment} (member : f ∈ ms ++ ps) :=
      (exists_encode (slice_of_mem_fragments split member)).mp (all f member)
    obtain ⟨f, first, longM⟩ := metadata.exists_length
    obtain ⟨g, second, longP⟩ := payload.exists_length
    have own := fits (List.mem_append_left ps first)
    have other := fits (List.mem_append_right ms second)
    refine ⟨by omega, fun kind => ?_, by rw [longest]; omega⟩
    obtain ⟨ms, ps, metadata, payload, _⟩ := fragments_eq_ok.mp split
    cases kind with
    | metadata => exact (splitSection_eq_ok.mp metadata).1
    | payload => exact (splitSection_eq_ok.mp payload).1
  · intro sendable
    have sections (kind : Section) : ∃ fs, p.splitSection size kind (p.bytes kind) = .ok fs :=
      ⟨_, splitSection_eq_ok.mpr ⟨sendable.sections kind, rfl⟩⟩
    obtain ⟨ms, metadata⟩ := sections .metadata
    obtain ⟨ps, payload⟩ := sections .payload
    have split : p.fragments size = .ok (ms ++ ps) :=
      fragments_eq_ok.mpr ⟨ms, ps, metadata, payload, rfl⟩
    have key := sendable.key
    have room := sendable.room
    rw [longest] at room
    obtain ⟨ds, written⟩ := exists_mapM_eq_ok.mpr fun f member => by
      refine (exists_encode (slice_of_mem_fragments split member)).mpr ⟨by omega, ?_⟩
      rcases List.mem_append.mp member with member | member
      · have := (pieces_splitSection metadata).length_le member
        omega
      · have := (pieces_splitSection payload).length_le member
        omega
    exact ⟨ds, bind_eq_ok.mpr ⟨ms ++ ps, split, written⟩⟩

/-- A publication has datagrams exactly if its key has 1 to 1024 bytes, each section is shorter than
2 ^ 32 bytes and the longest fragment finds room in a datagram. They are then read, within the widest
bounds, as the fragments of the metadata and after them those of the payload, each section in pieces of
the asked size, which is at least one; and no sum of an offset and that size leaves 64 bits. -/
theorem datagrams_sent (p : Publication) (size : Nat) :
    ((∃ ds, p.datagrams size = .ok ds) ↔ p.Sendable size) ∧
    ∀ ds, p.datagrams size = .ok ds →
      ∃ ms ps, List.Forall₂ (fun d f => Datagram.decode d = .ok f) ds (ms ++ ps) ∧
        p.Pieces size .metadata ms ∧ p.Pieces size .payload ps ∧
        (size < 2 ^ 64 → ∀ f ∈ ms ++ ps, f.offset.toNat + pieceSize size < 2 ^ 64) := by
  refine ⟨sendable_iff, fun ds sent => ?_⟩
  obtain ⟨ms, ps, metadata, payload, _, encoded⟩ := datagrams_eq_ok.mp sent
  refine ⟨ms, ps, encoded.flip.imp fun d f written => ?_, metadata, payload, fun word f member => ?_⟩
  · have form := Datagram.encode_eq_ok.mp written
    exact Datagram.decode_encode written (form.length ▸ form.short)
      (Nat.le_of_lt_succ f.sectionLength.toNat_lt)
  · rcases List.mem_append.mp member with member | member
    · exact metadata.stop_lt member word
    · exact payload.stop_lt member word

/-- Three bytes of payload in pieces of two. -/
theorem datagrams_sent_sample :
    Publication.sample.Sendable 2 ∧ 2 < 2 ^ 64 ∧
    ∃ ds ms ps, Publication.sample.datagrams 2 = .ok ds ∧
      List.Forall₂ (fun d f => Datagram.decode d = .ok f) ds (ms ++ ps) ∧
      ps.flatMap (·.data) = [97, 98, 99] ∧ ∀ f ∈ ps.dropLast, f.data.length = 2 := by
  have sendable : Publication.sample.Sendable 2 :=
    ⟨by decide, fun kind => by cases kind <;> decide, by decide⟩
  obtain ⟨sent, pieces⟩ := datagrams_sent Publication.sample 2
  obtain ⟨ds, written⟩ := sent.mpr sendable
  obtain ⟨ms, ps, read, _, payload, _⟩ := pieces ds written
  exact ⟨sendable, by decide, ds, ms, ps, written, read, payload.whole, payload.full⟩

end Fragment.Publication
end BlobReplica
