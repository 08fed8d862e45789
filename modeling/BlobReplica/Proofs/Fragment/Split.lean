import BlobReplica.Proofs.Blob.Progress
import BlobReplica.Proofs.Datagram

/-! Splitting a publication. The fragments of a section lie one after the other and cover it, so
nothing is missing exactly when every fragment has arrived. -/

namespace BlobReplica

namespace Fragment.Publication

variable {p : Publication} {kind : Section} {size : Nat} {fs : List Fragment}

/-- Fragments that lie one after the other and cover a section from `start` on. -/
structure Cuts (p : Publication) (kind : Section) (start : Nat) (fs : List Fragment) : Prop where
  slices : ∀ f ∈ fs, f.sectionKind = kind ∧ f.SliceOf p
  later : ∀ f ∈ fs, start ≤ f.offset.toNat
  apart : fs.Pairwise fun f g => f.stop ≤ g.offset.toNat
  covered : ∀ i, start ≤ i → i < (p.bytes kind).length → ∃ f ∈ fs, f.range.Has i

theorem cuts_nil {start : Nat} (done : (p.bytes kind).length ≤ start) : p.Cuts kind start [] where
  slices := by simp
  later := by simp
  apart := List.Pairwise.nil
  covered i later below := absurd below (by omega)

theorem Cuts.cons {f : Fragment} (cuts : p.Cuts kind f.stop fs) (same : f.sectionKind = kind)
    (slice : f.SliceOf p) : p.Cuts kind f.offset.toNat (f :: fs) where
  slices g member := by
    rcases List.mem_cons.mp member with rfl | member
    · exact ⟨same, slice⟩
    · exact cuts.slices g member
  later g member := by
    rcases List.mem_cons.mp member with rfl | member
    · exact Nat.le_refl _
    · exact Nat.le_trans (Nat.le_add_right _ _) (cuts.later g member)
  apart := List.pairwise_cons.mpr ⟨cuts.later, cuts.apart⟩
  covered i later below := by
    by_cases here : i < f.stop
    · exact ⟨f, List.mem_cons_self, later, here⟩
    · obtain ⟨g, member, has⟩ := cuts.covered i (Nat.not_lt.mp here) below
      exact ⟨g, List.mem_cons_of_mem _ member, has⟩

theorem cuts_place (fits : (p.bytes kind).length ≤ Datagram.maxSectionSize) {pieces : List Bytes}
    {offset : Nat} (rest : (p.bytes kind).drop offset = pieces.flatten)
    (within : offset ≤ (p.bytes kind).length) :
    p.Cuts kind offset (p.place kind (p.bytes kind).length offset pieces) := by
  induction pieces generalizing offset with
  | nil => exact cuts_nil (List.drop_eq_nil_iff.mp rest)
  | cons data pieces ih =>
    rw [List.flatten_cons] at rest
    have length : offset + data.length ≤ (p.bytes kind).length := by
      have total := congrArg List.length rest
      simp only [List.length_drop, List.length_append] at total
      omega
    have after : (p.bytes kind).drop (offset + data.length) = pieces.flatten := by
      rw [← List.drop_drop, rest, List.drop_left]
    have small : Datagram.maxSectionSize < 2 ^ 32 := by decide
    have start : (UInt32.ofNat offset).toNat = offset :=
      UInt32.toNat_ofNat_of_lt' (by simp only [UInt32.size]; omega)
    have size : (UInt32.ofNat (p.bytes kind).length).toNat = (p.bytes kind).length :=
      UInt32.toNat_ofNat_of_lt' (by simp only [UInt32.size]; omega)
    let f : Fragment :=
      ⟨p.key, p.version, kind, UInt32.ofNat (p.bytes kind).length, UInt32.ofNat offset, data⟩
    have stop : f.stop = offset + data.length := by simp only [f, Fragment.stop, start]
    have slice : f.SliceOf p := by
      refine ⟨rfl, rfl, size, stop ▸ length, ?_⟩
      simp only [f] at stop ⊢
      rw [stop, start, Bytes.slice, rest, Nat.add_sub_cancel_left, List.take_left]
    have cuts := ih after length
    rw [← stop] at cuts
    have whole := cuts.cons rfl slice
    rw [show f.offset.toNat = offset from start, stop] at whole
    exact whole

theorem data_mem_of_mem_place {length offset : Nat} {pieces : List Bytes} {f : Fragment}
    (member : f ∈ p.place kind length offset pieces) : f.data ∈ pieces := by
  induction pieces generalizing offset with
  | nil => simp [place] at member
  | cons data pieces ih =>
    rcases List.mem_cons.mp member with rfl | member
    · exact List.mem_cons_self
    · exact List.mem_cons_of_mem _ (ih member)

/-- The fragments of one section; an empty fragment is there only for an empty section, alone. -/
structure Splits (p : Publication) (kind : Section) (fs : List Fragment) : Prop extends
    p.Cuts kind 0 fs where
  nonempty : fs ≠ []
  hollow : ∀ f ∈ fs, f.data = [] → fs = [f]

theorem splits_splitSection (split : p.splitSection size kind (p.bytes kind) = .ok fs) :
    p.Splits kind fs := by
  rw [splitSection] at split
  split at split
  next => contradiction
  next fits =>
    obtain rfl := (Except.ok.inj split).symm
    have fits := Nat.not_lt.mp fits
    by_cases empty : p.bytes kind = []
    · rw [if_pos empty]
      refine ⟨cuts_place fits (by simp [empty]) (Nat.zero_le _), by simp [place], ?_⟩
      intro f member _
      rw [place, place] at member ⊢
      rw [List.mem_singleton.mp member]
    · rw [if_neg empty]
      refine ⟨cuts_place fits (by simp [Bytes.flatten_chunks]) (Nat.zero_le _), ?_, ?_⟩
      · obtain ⟨b, rest, whole⟩ := List.exists_cons_of_ne_nil empty
        rw [whole, Bytes.chunks]
        simp [place]
      · intro f member hollow
        exact absurd hollow (Bytes.chunks_nonempty (data_mem_of_mem_place member))

/-- A section in one fragment. -/
def whole (p : Publication) (kind : Section) : Fragment :=
  ⟨p.key, p.version, kind, UInt32.ofNat (p.bytes kind).length, UInt32.ofNat 0, p.bytes kind⟩

theorem splitSection_whole (nonempty : p.bytes kind ≠ []) (short : (p.bytes kind).length ≤ size)
    (fits : (p.bytes kind).length ≤ Datagram.maxSectionSize) :
    p.splitSection size kind (p.bytes kind) = .ok [p.whole kind] := by
  have one : (p.bytes kind).chunks (pieceSize size) (pieceSize_pos size) = [p.bytes kind] := by
    have short : (p.bytes kind).length ≤ pieceSize size := Nat.le_trans short (Nat.le_max_left size 1)
    obtain ⟨b, rest, bytes⟩ := List.exists_cons_of_ne_nil nonempty
    rw [bytes] at short ⊢
    rw [Bytes.chunks, List.take_of_length_le short, List.drop_eq_nil_of_le short, Bytes.chunks]
  rw [splitSection, if_neg (Nat.not_lt.mpr fits), if_neg nonempty, one]
  rfl

theorem fragments_whole (nonempty : p.payload ≠ []) (short : ∀ kind, (p.bytes kind).length ≤ size)
    (fits : ∀ kind, (p.bytes kind).length ≤ Datagram.maxSectionSize) :
    p.fragments size = .ok [p.whole .metadata, p.whole .payload] := by
  have metadata : p.splitSection size .metadata (Metadata.encode p.properties) =
      .ok [p.whole .metadata] :=
    splitSection_whole (List.ne_nil_of_length_pos (Blob.length_encode_pos p.properties))
      (short .metadata) (fits .metadata)
  have payload : p.splitSection size .payload p.payload = .ok [p.whole .payload] :=
    splitSection_whole nonempty (short .payload) (fits .payload)
  rw [fragments, metadata, payload]
  rfl

theorem Splits.separate (splits : p.Splits kind fs) {f g : Fragment} (hf : f ∈ fs) (hg : g ∈ fs)
    (other : f ≠ g) : f.stop ≤ g.offset.toNat ∨ g.stop ≤ f.offset.toNat := by
  have either : fs.Pairwise fun f g => f.stop ≤ g.offset.toNat ∨ g.stop ≤ f.offset.toNat :=
    splits.apart.imp .inl
  have : Std.Symm fun f g : Fragment => f.stop ≤ g.offset.toNat ∨ g.stop ≤ f.offset.toNat :=
    ⟨fun _ _ => Or.symm⟩
  exact either.forall hf hg other

/-- A section that is covered by some of its fragments, or empty and begun by one, has all. -/
theorem Splits.all (splits : p.Splits kind fs) {arrived : Fragment → Prop}
    (own : ∀ f, arrived f → f.sectionKind = kind → f ∈ fs)
    (covered : ∀ i < (p.bytes kind).length, ∃ f, arrived f ∧ f.sectionKind = kind ∧ f.range.Has i)
    (begun : p.bytes kind = [] → ∃ f, arrived f ∧ f.sectionKind = kind) :
    ∀ f ∈ fs, arrived f := by
  intro f member
  by_cases hollow : f.data = []
  · have alone := splits.hollow f member hollow
    obtain ⟨g, came, same⟩ : ∃ g, arrived g ∧ g.sectionKind = kind := by
      rcases Nat.eq_zero_or_pos (p.bytes kind).length with empty | filled
      · exact begun (List.length_eq_zero_iff.mp empty)
      · obtain ⟨g, came, same, _⟩ := covered 0 filled
        exact ⟨g, came, same⟩
    have found := own g came same
    rw [alone, List.mem_singleton] at found
    exact found ▸ came
  · have inside := (splits.slices f member).2.inside
    have solid := List.length_pos_iff.mpr hollow
    rw [(splits.slices f member).1] at inside
    simp only [stop] at inside
    obtain ⟨g, came, same, has⟩ := covered f.offset.toNat (by omega)
    by_cases one : f = g
    · exact one ▸ came
    · have apart := splits.separate member (own g came same) one
      simp only [range, ByteRange.Has] at has
      simp only [stop] at apart has
      omega

theorem splits_fragments (split : p.fragments size = .ok fs) (kind : Section) :
    p.Splits kind (fs.filter (·.sectionKind = kind)) := by
  rw [fragments] at split
  cases metadata : p.splitSection size .metadata (Metadata.encode p.properties) with
  | error e => simp [metadata, bind, Except.bind] at split
  | ok ms =>
    cases payload : p.splitSection size .payload p.payload with
    | error e => simp [metadata, payload, bind, Except.bind] at split
    | ok ps =>
      simp only [metadata, payload, bind, Except.bind, pure, Except.pure, Except.ok.injEq] at split
      have ms' : p.Splits .metadata ms := splits_splitSection metadata
      have ps' : p.Splits .payload ps := splits_splitSection payload
      have ours {kind} {fs : List Fragment} (splits : p.Splits kind fs) :
          fs.filter (·.sectionKind = kind) = fs := by
        rw [List.filter_eq_self]
        exact fun f member => decide_eq_true (splits.slices f member).1
      have theirs {kind other} {fs : List Fragment} (splits : p.Splits kind fs)
          (differ : kind ≠ other) : fs.filter (·.sectionKind = other) = [] := by
        rw [List.filter_eq_nil_iff]
        intro f member
        rw [(splits.slices f member).1]
        simpa using differ
      rw [← split, List.filter_append]
      cases kind with
      | metadata =>
        rw [ours ms', theirs ps' (by decide), List.append_nil]
        exact ms'
      | payload =>
        rw [ours ps', theirs ms' (by decide), List.nil_append]
        exact ps'

theorem slice_of_mem_fragments (split : p.fragments size = .ok fs) {f : Fragment}
    (member : f ∈ fs) : f.SliceOf p :=
  ((splits_fragments split f.sectionKind).slices f (by simp [member])).2

end Fragment.Publication

namespace Progress

open Fragment (Publication)

/-- The progress that the fragments of a set make. -/
def ofSet (arrived : Fragment → Prop) : Progress where
  begun := ∃ f, arrived f ∧ f.sectionKind = .payload
  payload i := ∃ f, arrived f ∧ f.sectionKind = .payload ∧ f.range.Has i
  metadata i := ∃ f, arrived f ∧ f.sectionKind = .metadata ∧ f.range.Has i

theorem ofSet_none : ofSet (fun _ => False) = start := by
  simp [ofSet, start]

theorem ofSet_congr {arrived arrived' : Fragment → Prop} (same : ∀ f, arrived f ↔ arrived' f) :
    ofSet arrived = ofSet arrived' :=
  congrArg ofSet (funext fun f => propext (same f))

theorem ofSet_add (arrived : Fragment → Prop) (f : Fragment) :
    (ofSet arrived).add f = ofSet fun g => arrived g ∨ g = f := by
  rw [add]
  cases kind : f.sectionKind <;>
    simp [ofSet, supply, kind, or_and_right, exists_or]

variable {p : Publication} {size : Nat} {fs : List Fragment}

/-- Nothing of a publication is missing exactly when every one of its fragments has arrived. -/
theorem complete_ofSet_iff (split : p.fragments size = .ok fs) {arrived : Fragment → Prop}
    (own : ∀ f, arrived f → f ∈ fs) : (ofSet arrived).Complete p ↔ ∀ f ∈ fs, arrived f := by
  have metadata := Publication.splits_fragments split .metadata
  have payload := Publication.splits_fragments split .payload
  constructor
  · intro complete f member
    cases kind : f.sectionKind with
    | metadata =>
      refine metadata.all (fun g came same => by simp [own g came, same]) complete.metadata ?_ f
        (by simp [member, kind])
      intro empty
      have := Blob.length_encode_pos p.properties
      simp [Publication.bytes] at empty
      simp [empty] at this
    | payload =>
      exact payload.all (fun g came same => by simp [own g came, same]) complete.payload
        (fun _ => complete.begun) f (by simp [member, kind])
  · intro all
    have kept {kind : Section} {f : Fragment} (member : f ∈ fs.filter (·.sectionKind = kind)) :
        arrived f ∧ f.sectionKind = kind := by
      simp only [List.mem_filter, decide_eq_true_eq] at member
      exact ⟨all f member.1, member.2⟩
    refine ⟨?_, fun i below => ?_, fun i below => ?_⟩
    · obtain ⟨f, member⟩ := List.exists_mem_of_ne_nil _ payload.nonempty
      exact ⟨f, kept member⟩
    · obtain ⟨f, member, has⟩ := payload.covered i (Nat.zero_le i) below
      exact ⟨f, (kept member).1, (kept member).2, has⟩
    · obtain ⟨f, member, has⟩ := metadata.covered i (Nat.zero_le i) below
      exact ⟨f, (kept member).1, (kept member).2, has⟩

end Progress
end BlobReplica
