import BlobReplica.Proofs.Blob.Gate

/-! Writes with their accesses checked. A section has one buffer; a slice goes into it at the offset
that came with it, and nothing but the lengths that were seen before says that it has room there. A
checked write breaks off where the access would leave the buffer, a checked section where its buffer
would be larger than allowed. What a fragment says of its own section is enough for neither to happen. -/

namespace BlobReplica

namespace RangeSet

variable {s : RangeSet} {length : Nat}

def Within (s : RangeSet) (length : Nat) : Prop :=
  ∀ r ∈ s.ranges, r.start < r.stop ∧ r.stop ≤ length

theorem within_empty (length : Nat) : empty.Within length :=
  fun _ member => absurd member List.not_mem_nil

theorem within_full (length : Nat) : (full length).Within length := by
  rw [full]
  split
  next positive =>
    intro r member
    obtain rfl := List.mem_singleton.mp member
    exact ⟨positive, Nat.le_refl length⟩
  next => exact within_empty length

theorem Within.remove (within : s.Within length) (hole : ByteRange) :
    (s.remove hole).1.Within length := by
  rw [RangeSet.remove]
  split
  next => exact within
  next =>
    intro x listed
    obtain ⟨r, member, piece⟩ := List.mem_flatMap.mp listed
    obtain ⟨solid, ends⟩ := within r member
    obtain ⟨nonempty, _, before⟩ := ByteRange.mem_without piece solid
    exact ⟨nonempty, Nat.le_trans before ends⟩

end RangeSet

namespace Assembly

variable {a a' : Assembly} {offset filled room length : Nat} {data : Bytes}

/-- The buffer has room for the section, and what is missing lies inside it. -/
structure Intact (a : Assembly) : Prop extends a.Sized where
  missing : a.missing.Within a.length

theorem intact_ofLength (bound : length < Text.maxWord) : (ofLength length).Intact :=
  ⟨sized_ofLength bound, RangeSet.within_full length⟩

theorem intact_ofSection (length : UInt32) : (ofLength length.toNat).Intact :=
  intact_ofLength (Nat.lt_trans length.toNat_lt (by decide))

theorem intact_ofBytes (bytes : Bytes) : (ofBytes bytes).Intact :=
  ⟨sized_ofBytes bytes, RangeSet.within_empty _⟩

theorem Intact.write (intact : a.Intact)
    (inside : a.isComplete = true ∨ offset + data.length ≤ a.length) :
    (a.write offset data).1.Intact := by
  refine ⟨intact.toSized.write inside, ?_⟩
  rw [length_write, Assembly.write]
  split
  next => exact intact.missing
  next => exact intact.missing.remove _

/-- A section of which nothing has arrived, unless its buffer is larger than `room`. -/
def allot? (room length : Nat) : Option Assembly :=
  if length ≤ room then some (ofLength length) else none

/-- Adds a slice whose positions, if any of them is missing, have to lie in the buffer. -/
def write? (a : Assembly) (offset : Nat) (data : Bytes) : Option (Assembly × Nat) :=
  let range : ByteRange := ⟨offset, offset + data.length⟩
  if a.missing.intersects range = false then some (a, 0)
  else if range.stop ≤ a.bytes.length then some (a.write offset data)
  else none

theorem allot?_eq_some (allotted : allot? room length = some a) :
    a = ofLength length ∧ length ≤ room := by
  rw [allot?] at allotted
  split at allotted
  next fits => exact ⟨(Option.some.inj allotted).symm, fits⟩
  next => contradiction

theorem getD_of_allotted {begun : Option Assembly}
    (held : begun.or (allot? room length) = some a) : begun.getD (ofLength length) = a := by
  cases begun with
  | none => exact (allot?_eq_some (Option.none_or.symm.trans held)).1.symm
  | some kept => exact Option.some.inj (Option.some_or.symm.trans held)

theorem write?_eq_some {w : Assembly × Nat} (wrote : a.write? offset data = some w) :
    w = a.write offset data ∧ (w = (a, 0) ∨ offset + data.length ≤ a.bytes.length) := by
  simp only [write?] at wrote
  split at wrote
  next apart =>
    obtain rfl := Option.some.inj wrote
    exact ⟨by rw [Assembly.write, if_pos (.inr apart)], .inl rfl⟩
  next =>
    split at wrote
    next inside => exact ⟨(Option.some.inj wrote).symm, .inr inside⟩
    next => contradiction

theorem length_of_write? (wrote : a.write? offset data = some (a', filled)) :
    a'.length = a.length := by
  obtain ⟨same, _⟩ := write?_eq_some wrote
  obtain rfl : a' = (a.write offset data).1 := congrArg Prod.fst same
  exact length_write a offset data

theorem Intact.of_write? (intact : a.Intact) (wrote : a.write? offset data = some (a', filled)) :
    a'.Intact := by
  obtain ⟨same, unchanged | inside⟩ := write?_eq_some wrote
  · exact (Prod.mk.inj unchanged).1 ▸ intact
  · obtain rfl : a' = (a.write offset data).1 := congrArg Prod.fst same
    exact intact.write (.inr (intact.size ▸ inside))

/-- A slice that ends by the length of its section is written inside the buffer. -/
theorem Intact.write?_eq (intact : a.Intact)
    (inside : a.isComplete = true ∨ offset + data.length ≤ a.length) :
    a.write? offset data = some (a.write offset data) := by
  simp only [write?]
  split
  next apart => rw [Assembly.write, if_pos (.inr apart)]
  next meets =>
    refine if_pos ?_
    rcases inside with complete | inside
    · refine absurd ?_ meets
      rw [RangeSet.intersects, List.isEmpty_iff.mp complete, List.any_nil]
    · exact intact.size ▸ inside

end Assembly

namespace Blob

variable {b b' : Blob} {f : Fragment} {now : Millis} {room offset filled : Nat} {data : Bytes}
  {op : Operation} {r : Except Error (Blob × Nat)}

/-- The buffers of both sections are in order, and that of the metadata is given up with its last
piece. -/
structure Contained (b : Blob) : Prop where
  metadata : ∀ a, b.metadata = some a → a.Intact
  unread : ∀ a, b.metadata = some a → a.isComplete = false
  payload : ∀ a, b.payload = .assembling a → a.Intact

/-- `mergeMetadata` with room for buffers of `room` bytes. -/
def mergeMetadata? (b : Blob) (room : Nat) (f : Fragment) : Option (Except Error (Blob × Nat)) :=
  if b.metadataDecoded then some (.ok (b, 0))
  else
    let declared := f.sectionLength.toNat
    (b.metadata.or (Assembly.allot? room declared)).bind fun a =>
      if a.length ≠ declared then
        some (.error (.lengthMismatch b.version "metadata" a.length declared))
      else (a.write? f.offset.toNat f.data).map fun (a, filled) =>
        let b := { b with metadata := some a }
        .ok (if a.isComplete then b.readMetadata a.bytes else b, filled)

def mergePayload? (b : Blob) (room : Nat) (f : Fragment) : Option (Except Error (Blob × Nat)) :=
  let declared := f.sectionLength.toNat
  let begun := if b.payload = .unknown then
      (Assembly.allot? room declared).map fun a =>
        { b with payload := .assembling a, size := some declared }
    else some b
  begun.bind fun b =>
    match b.payload with
    | .assembling a =>
      if a.length ≠ declared then
        some (.error (.lengthMismatch b.version "payload" a.length declared))
      else (a.write? f.offset.toNat f.data).map fun (a, filled) =>
        .ok ({ b with payload := .assembling a }, filled)
    | _ => some (.ok (b, 0))

def mergeSection? (b : Blob) (room : Nat) (f : Fragment) : Option (Except Error (Blob × Nat)) :=
  match f.sectionKind with
  | .metadata => b.mergeMetadata? room f
  | .payload => b.mergePayload? room f

def merge? (b : Blob) (room : Nat) (f : Fragment) (now : Millis) :
    Option (Except Error (Blob × Nat)) :=
  if f.version ≠ b.version ∨ f.key ≠ b.key then some (.error (.wrongTarget f.key f.version))
  else if b.isTerminal then some (.ok (b, 0))
  else (b.mergeSection? room f).map fun merged =>
    merged.map fun (b, filled) => ((b.touch now).begin, filled)

def addByteRange? (b : Blob) (offset : Nat) (data : Bytes) (now : Millis) :
    Option (Except Error (Blob × Nat)) :=
  if b.isTerminal then some (.ok (b, 0))
  else match b.payload with
  | .assembling a =>
    let stop := min (offset + data.length) Text.maxWord
    if a.length < stop then some (.error (.outOfBounds b.version offset stop a.length))
    else (a.write? offset data).map fun (a, filled) =>
      .ok ({ b with payload := .assembling a }.touch now, filled)
  | _ => some (.error (.sizeUnknown b.version))

/-- What an operation does that has room for buffers of `room` bytes. -/
def perform? (b : Blob) (room : Nat) : Operation → Option (Blob × Reply)
  | .merge f now => (b.merge? room f now).map b.wrote
  | .addByteRange offset data now => (b.addByteRange? offset data now).map b.wrote
  | op => some (b.perform op)

def run? (b : Blob) (room : Nat) (ops : List Operation) : Option Blob :=
  ops.foldlM (fun b op => (b.perform? room op).map (·.1)) b

/-! ### What a checked write does -/

/-- A checked write into the metadata leaves the blob alone, or writes into the section that was there
or a new one; the section is read if that was its last piece. -/
theorem mergeMetadata?_eq_some (ran : b.mergeMetadata? room f = some (.ok (b', filled))) :
    (b' = b ∧ filled = 0 ∧ b.metadataDecoded = true) ∨ ∃ a w, b.metadataDecoded = false ∧
      b.metadata.getD (.ofLength f.sectionLength.toNat) = a ∧ a.length = f.sectionLength.toNat ∧
      a.write? f.offset.toNat f.data = some (w, filled) ∧
      b' = if w.isComplete then { b with metadata := some w }.readMetadata w.bytes
        else { b with metadata := some w } := by
  rw [mergeMetadata?] at ran
  split at ran
  next decoded =>
    obtain ⟨rfl, rfl⟩ := Prod.mk.inj (Except.ok.inj (Option.some.inj ran))
    exact .inl ⟨rfl, rfl, decoded⟩
  next undecoded =>
    obtain ⟨a, held, ran⟩ := Option.bind_eq_some_iff.mp ran
    split at ran
    next => cases ran
    next same =>
      obtain ⟨⟨w, n⟩, wrote, ran⟩ := Option.map_eq_some_iff.mp ran
      obtain ⟨rfl, rfl⟩ := Prod.mk.inj (Except.ok.inj ran)
      exact .inr ⟨a, w, by simpa using undecoded, Assembly.getD_of_allotted held,
        Decidable.not_not.mp same, wrote, rfl⟩

theorem mergePayload?_eq_some (ran : b.mergePayload? room f = some (.ok (b', filled))) :
    (b' = b ∧ filled = 0 ∧ b.payload ≠ .unknown ∧ ∀ a, b.payload ≠ .assembling a) ∨
      ∃ a w, a.length = f.sectionLength.toNat ∧
        a.write? f.offset.toNat f.data = some (w, filled) ∧
        (b.payload = .assembling a ∧ b' = { b with payload := .assembling w } ∨
          b.payload = .unknown ∧ a = .ofLength f.sectionLength.toNat ∧
            b' = { b with payload := .assembling w, size := some a.length }) := by
  rw [mergePayload?] at ran
  obtain ⟨o, begun, ran⟩ := Option.bind_eq_some_iff.mp ran
  split at begun
  next unknown =>
    obtain ⟨new, allotted, rfl⟩ := Option.map_eq_some_iff.mp begun
    obtain ⟨rfl, _⟩ := Assembly.allot?_eq_some allotted
    simp only [Assembly.ofLength, ne_eq, not_true_eq_false, if_false] at ran
    obtain ⟨⟨w, n⟩, wrote, ran⟩ := Option.map_eq_some_iff.mp ran
    obtain ⟨rfl, rfl⟩ := Prod.mk.inj (Except.ok.inj ran)
    exact .inr ⟨_, w, rfl, wrote, .inr ⟨unknown, rfl, rfl⟩⟩
  next known =>
    obtain rfl := Option.some.inj begun
    split at ran
    next a held =>
      split at ran
      next => cases ran
      next same =>
        obtain ⟨⟨w, n⟩, wrote, ran⟩ := Option.map_eq_some_iff.mp ran
        obtain ⟨rfl, rfl⟩ := Prod.mk.inj (Except.ok.inj ran)
        exact .inr ⟨a, w, Decidable.not_not.mp same, wrote, .inl ⟨held, rfl⟩⟩
    next unlike =>
      obtain ⟨rfl, rfl⟩ := Prod.mk.inj (Except.ok.inj (Option.some.inj ran))
      exact .inl ⟨rfl, rfl, known, unlike⟩

theorem merge?_eq_some (ran : b.merge? room f now = some (.ok (b', filled))) :
    (b' = b ∧ filled = 0 ∧ b.isTerminal = true) ∨ ∃ o, b.isTerminal = false ∧
      b.mergeSection? room f = some (.ok (o, filled)) ∧ b' = (o.touch now).begin := by
  rw [merge?] at ran
  split at ran
  next => cases ran
  next =>
    split at ran
    next decided =>
      obtain ⟨rfl, rfl⟩ := Prod.mk.inj (Except.ok.inj (Option.some.inj ran))
      exact .inl ⟨rfl, rfl, decided⟩
    next undecided =>
      obtain ⟨merged, written, ran⟩ := Option.map_eq_some_iff.mp ran
      cases merged with
      | error e => cases ran
      | ok result =>
        obtain ⟨rfl, rfl⟩ := Prod.mk.inj (Except.ok.inj ran)
        exact .inr ⟨result.1, by simpa using undecided, written, rfl⟩

theorem addByteRange?_eq_some
    (ran : b.addByteRange? offset data now = some (.ok (b', filled))) :
    (b' = b ∧ filled = 0 ∧ b.isTerminal = true) ∨ ∃ a w, b.isTerminal = false ∧
      b.payload = .assembling a ∧ a.write? offset data = some (w, filled) ∧
      b' = { b with payload := .assembling w }.touch now := by
  rw [addByteRange?] at ran
  split at ran
  next decided =>
    obtain ⟨rfl, rfl⟩ := Prod.mk.inj (Except.ok.inj (Option.some.inj ran))
    exact .inl ⟨rfl, rfl, decided⟩
  next undecided =>
    split at ran
    next a held =>
      simp only at ran
      split at ran
      next => cases ran
      next =>
        obtain ⟨⟨w, n⟩, wrote, ran⟩ := Option.map_eq_some_iff.mp ran
        obtain ⟨rfl, rfl⟩ := Prod.mk.inj (Except.ok.inj ran)
        exact .inr ⟨a, w, by simpa using undecided, held, wrote, rfl⟩
    next => cases ran

theorem mergeMetadata_of_checked (ran : b.mergeMetadata? room f = some r) :
    b.mergeMetadata f = r := by
  rw [mergeMetadata?] at ran
  rw [mergeMetadata]
  split at ran
  next decoded => rw [if_pos decoded, Option.some.inj ran]
  next undecoded =>
    obtain ⟨a, held, ran⟩ := Option.bind_eq_some_iff.mp ran
    simp only [if_neg undecoded, Assembly.getD_of_allotted held]
    split at ran
    next unlike => rw [if_pos unlike, Option.some.inj ran]
    next alike =>
      obtain ⟨w, wrote, rfl⟩ := Option.map_eq_some_iff.mp ran
      rw [if_neg alike, (Assembly.write?_eq_some wrote).1]

theorem mergePayload_of_checked (ran : b.mergePayload? room f = some r) : b.mergePayload f = r := by
  rw [mergePayload?] at ran
  rw [mergePayload]
  obtain ⟨o, begun, ran⟩ := Option.bind_eq_some_iff.mp ran
  have first : (if b.payload = .unknown then
      { b with payload := .assembling (.ofLength f.sectionLength.toNat),
               size := some f.sectionLength.toNat } else b) = o := by
    split at begun
    next unknown =>
      obtain ⟨new, allotted, rfl⟩ := Option.map_eq_some_iff.mp begun
      rw [if_pos unknown, (Assembly.allot?_eq_some allotted).1]
    next known => exact (if_neg known).trans (Option.some.inj begun)
  simp only [first]
  cases payload : o.payload with
  | assembling a =>
    simp only [payload] at ran ⊢
    split at ran
    next unlike => rw [if_pos unlike, Option.some.inj ran]
    next alike =>
      obtain ⟨w, wrote, rfl⟩ := Option.map_eq_some_iff.mp ran
      rw [if_neg alike, (Assembly.write?_eq_some wrote).1]
  | unknown | verified | discarded =>
    simp only [payload] at ran ⊢
    exact Option.some.inj ran

theorem mergeSection_of_checked (ran : b.mergeSection? room f = some r) : b.mergeSection f = r := by
  rw [mergeSection?] at ran
  rw [mergeSection]
  cases kind : f.sectionKind with
  | metadata =>
    rw [kind] at ran
    exact mergeMetadata_of_checked ran
  | payload =>
    rw [kind] at ran
    exact mergePayload_of_checked ran

/-- A checked merge that does not break off is the merge. -/
theorem merge_of_checked (ran : b.merge? room f now = some r) : b.merge f now = r := by
  rw [merge?] at ran
  rw [merge]
  split at ran
  next foreign => rw [if_pos foreign, Option.some.inj ran]
  next own =>
    rw [if_neg own]
    split at ran
    next decided => rw [if_pos decided, Option.some.inj ran]
    next undecided =>
      obtain ⟨merged, written, rfl⟩ := Option.map_eq_some_iff.mp ran
      rw [if_neg undecided, mergeSection_of_checked written]

theorem addByteRange_of_checked (ran : b.addByteRange? offset data now = some r) :
    b.addByteRange offset data now = r := by
  rw [addByteRange?] at ran
  rw [addByteRange]
  split at ran
  next decided => rw [if_pos decided, Option.some.inj ran]
  next undecided =>
    rw [if_neg undecided]
    cases payload : b.payload with
    | assembling a =>
      simp only [payload] at ran ⊢
      split at ran
      next outside => rw [if_pos outside, Option.some.inj ran]
      next inside =>
        obtain ⟨w, wrote, rfl⟩ := Option.map_eq_some_iff.mp ran
        rw [if_neg inside, (Assembly.write?_eq_some wrote).1]
    | unknown | verified | discarded =>
      simp only [payload] at ran ⊢
      exact Option.some.inj ran

theorem perform_of_checked {result : Blob × Reply} (ran : b.perform? room op = some result) :
    b.perform op = result := by
  cases op with
  | merge f now =>
    obtain ⟨r, merged, rfl⟩ := Option.map_eq_some_iff.mp ran
    rw [perform, merge_of_checked merged]
  | addByteRange offset data now =>
    obtain ⟨r, added, rfl⟩ := Option.map_eq_some_iff.mp ran
    rw [perform, addByteRange_of_checked added]
  | applyHeaders | setPayload | touch | settle => exact Option.some.inj ran

/-! ### What checked writes keep -/

theorem contained_ofArrival (key : String) (version : VersionId) (now : Millis) :
    (ofArrival key version now).Contained := by
  constructor <;> intro a held <;> cases held

theorem Contained.congr (contained : b.Contained) (metadata : b'.metadata = b.metadata)
    (payload : b'.payload = b.payload) : b'.Contained :=
  ⟨metadata ▸ contained.metadata, metadata ▸ contained.unread, payload ▸ contained.payload⟩

theorem metadata_readMetadata (b : Blob) (bytes : Bytes) : (b.readMetadata bytes).metadata = none := by
  have kept (b : Blob) (entries : List (String × String)) :
      (entries.foldl addDecoded b).metadata = b.metadata := by
    induction entries generalizing b with
    | nil => rfl
    | cons e rest ih =>
      rw [List.foldl_cons, ih, addDecoded]
      split <;> rfl
  simp only [readMetadata]
  split
  next decoded _ => exact kept _ decoded.entries
  next => rfl

theorem Contained.section_ (contained : b.Contained) (length : UInt32) :
    (b.metadata.getD (.ofLength length.toNat)).Intact := by
  cases begun : b.metadata with
  | none => exact Assembly.intact_ofSection length
  | some a => exact contained.metadata a begun

theorem Contained.of_mergeMetadata? (contained : b.Contained)
    (ran : b.mergeMetadata? room f = some (.ok (b', filled))) : b'.Contained := by
  rcases mergeMetadata?_eq_some ran with ⟨rfl, _⟩ | ⟨a, w, _, rfl, _, wrote, rfl⟩
  · exact contained
  · have intact := (contained.section_ f.sectionLength).of_write? wrote
    split
    next =>
      have nothing := metadata_readMetadata { b with metadata := some w } w.bytes
      refine ⟨fun a held => ?_, fun a held => ?_, fun a held => ?_⟩
      · cases nothing.symm.trans held
      · cases nothing.symm.trans held
      · rw [(samePayload_readMetadata _ _).payload] at held
        exact contained.payload a held
    next partly =>
      refine ⟨fun a held => ?_, fun a held => ?_, contained.payload⟩
      · exact Option.some.inj held ▸ intact
      · exact Option.some.inj held ▸ Bool.eq_false_iff.mpr partly

theorem Contained.of_mergePayload? (contained : b.Contained)
    (ran : b.mergePayload? room f = some (.ok (b', filled))) : b'.Contained := by
  rcases mergePayload?_eq_some ran with ⟨rfl, _⟩ | ⟨a, w, _, wrote, began⟩
  · exact contained
  · have intact : w.Intact := by
      rcases began with ⟨held, _⟩ | ⟨_, rfl, _⟩
      · exact (contained.payload a held).of_write? wrote
      · exact (Assembly.intact_ofSection f.sectionLength).of_write? wrote
    have kept : b'.metadata = b.metadata ∧ b'.payload = .assembling w := by
      rcases began with ⟨_, rfl⟩ | ⟨_, _, rfl⟩ <;> exact ⟨rfl, rfl⟩
    refine ⟨kept.1 ▸ contained.metadata, kept.1 ▸ contained.unread, fun a held => ?_⟩
    exact Payload.assembling.inj (kept.2.symm.trans held) ▸ intact

theorem Contained.of_mergeSection? (contained : b.Contained)
    (ran : b.mergeSection? room f = some (.ok (b', filled))) : b'.Contained := by
  rw [mergeSection?] at ran
  split at ran
  next => exact contained.of_mergeMetadata? ran
  next => exact contained.of_mergePayload? ran

theorem Contained.of_merge? (contained : b.Contained)
    (ran : b.merge? room f now = some (.ok (b', filled))) : b'.Contained := by
  rcases merge?_eq_some ran with ⟨rfl, _⟩ | ⟨o, _, written, rfl⟩
  · exact contained
  · have begun : (o.touch now).begin.metadata = o.metadata ∧
        (o.touch now).begin.payload = o.payload := by
      rw [begin]
      split <;> exact ⟨rfl, rfl⟩
    exact (contained.of_mergeSection? written).congr begun.1 begun.2

theorem Contained.of_addByteRange? (contained : b.Contained)
    (ran : b.addByteRange? offset data now = some (.ok (b', filled))) : b'.Contained := by
  rcases addByteRange?_eq_some ran with ⟨rfl, _⟩ | ⟨a, w, _, held, wrote, rfl⟩
  · exact contained
  · refine ⟨contained.metadata, contained.unread, fun a' held' => ?_⟩
    exact Payload.assembling.inj held' ▸ (contained.payload a held).of_write? wrote

theorem Contained.applyHeaders (contained : b.Contained) (headers : List (String × String))
    (now : Millis) : (b.applyHeaders headers now).Contained := by
  rw [Blob.applyHeaders]
  split
  next => exact contained
  next => exact contained.congr rfl rfl

theorem Contained.setPayload (contained : b.Contained) (body : Bytes) (now : Millis) :
    (b.setPayload body now).Contained := by
  rw [Blob.setPayload]
  split
  next => exact contained
  next =>
    refine ⟨contained.metadata, contained.unread, fun a held => ?_⟩
    exact Payload.assembling.inj held ▸ Assembly.intact_ofBytes body

/-- What settling makes of a blob: nothing of one that is decided; of another it gives up the payload,
takes the times anew, or finds the payload right. -/
inductive Settles (b : Blob) : Blob → Prop where
  | decided (decided : b.isTerminal = true) : Settles b b
  | unreadable (isOpen : b.isTerminal = false) :
      Settles b { b with payload := .discarded, status := .checksumInvalid }
  | lacking (isOpen : b.isTerminal = false) : Settles b b.refresh
  | wrong (isOpen : b.isTerminal = false) :
      Settles b { b.refresh with payload := .discarded, status := .checksumInvalid }
  | right {a : Assembly} (isOpen : b.isTerminal = false) (held : b.payload = .assembling a) :
      Settles b { b.refresh with payload := .verified a.bytes, status := .complete }

theorem settles (b : Blob) : b.Settles b.settle.1 := by
  rw [Blob.settle]
  split
  next decided => exact .decided decided
  next undecided =>
    have isOpen : b.isTerminal = false := by simpa using undecided
    split
    next => exact .unreadable isOpen
    next =>
      simp only
      split
      next a held =>
        split
        next =>
          split
          next => exact .right isOpen held
          next => exact .wrong isOpen
        next => exact .lacking isOpen
      next => exact .lacking isOpen

theorem Contained.settle (contained : b.Contained) : b.settle.1.Contained := by
  have settles := b.settles
  generalize b.settle.1 = b' at settles ⊢
  cases settles with
  | decided => exact contained
  | lacking => exact contained.congr rfl rfl
  | unreadable | wrong | right =>
    exact ⟨contained.metadata, contained.unread, fun _ held => (by cases held)⟩

theorem Contained.of_perform? {result : Blob × Reply} (contained : b.Contained)
    (ran : b.perform? room op = some result) : result.1.Contained := by
  cases op with
  | merge f now =>
    obtain ⟨r, merged, rfl⟩ := Option.map_eq_some_iff.mp ran
    cases r with
    | error e => exact contained
    | ok written => exact contained.of_merge? merged
  | addByteRange offset data now =>
    obtain ⟨r, added, rfl⟩ := Option.map_eq_some_iff.mp ran
    cases r with
    | error e => exact contained
    | ok written => exact contained.of_addByteRange? added
  | applyHeaders headers now => exact Option.some.inj ran ▸ contained.applyHeaders headers now
  | setPayload body now => exact Option.some.inj ran ▸ contained.setPayload body now
  | touch now => exact Option.some.inj ran ▸ contained.congr rfl rfl
  | settle => exact Option.some.inj ran ▸ contained.settle

/-! ### Fragments that lie inside their sections -/

theorem Contained.mergeMetadata?_eq (contained : b.Contained) (inside : f.WithinSection)
    (fits : f.sectionLength.toNat ≤ room) : b.mergeMetadata? room f = some (b.mergeMetadata f) := by
  rw [Blob.mergeMetadata?, Blob.mergeMetadata]
  split
  next => rfl
  next =>
    have begun : b.metadata.or (Assembly.allot? room f.sectionLength.toNat) =
        some (b.metadata.getD (.ofLength f.sectionLength.toNat)) := by
      cases b.metadata with
      | none => rw [Option.none_or, Assembly.allot?, if_pos fits, Option.getD_none]
      | some a => rfl
    simp only [begun, Option.bind_some]
    split
    next => rfl
    next same =>
      have length := Decidable.not_not.mp same
      rw [(contained.section_ f.sectionLength).write?_eq (.inr (Nat.le_trans inside length.ge)),
        Option.map_some]

theorem Contained.mergePayload?_eq (contained : b.Contained) (inside : f.WithinSection)
    (fits : f.sectionLength.toNat ≤ room) : b.mergePayload? room f = some (b.mergePayload f) := by
  have within : f.offset.toNat + f.data.length ≤ f.sectionLength.toNat := inside
  rw [Blob.mergePayload?, Blob.mergePayload]
  cases payload : b.payload with
  | unknown =>
    have intact := Assembly.intact_ofSection f.sectionLength
    simp only [if_true, Assembly.allot?, if_pos fits, Option.map_some, Option.bind_some]
    rw [if_neg (by simp [Assembly.ofLength]), if_neg (by simp [Assembly.ofLength]),
      intact.write?_eq (.inr within), Option.map_some]
  | assembling a =>
    simp only [reduceCtorEq, if_false, Option.bind_some, payload]
    split
    next => rfl
    next same =>
      have length := Decidable.not_not.mp same
      rw [(contained.payload a payload).write?_eq (.inr (length.symm ▸ within)), Option.map_some]
  | verified | discarded => simp only [reduceCtorEq, if_false, Option.bind_some, payload]

/-- A fragment that lies inside its section is written inside the buffer, whatever has been merged
before. -/
theorem Contained.merge?_eq (contained : b.Contained) (inside : f.WithinSection)
    (fits : f.sectionLength.toNat ≤ room) (now : Millis) :
    b.merge? room f now = some (b.merge f now) := by
  have written : b.mergeSection? room f = some (b.mergeSection f) := by
    rw [mergeSection?, mergeSection]
    cases f.sectionKind with
    | metadata => exact contained.mergeMetadata?_eq inside fits
    | payload => exact contained.mergePayload?_eq inside fits
  rw [Blob.merge?, merge, written]
  split
  next => rfl
  next => split <;> rfl

/-- A recovered slice is checked against the buffer before it is written. -/
theorem Contained.addByteRange?_eq (contained : b.Contained) (offset : Nat) (data : Bytes)
    (now : Millis) : b.addByteRange? offset data now = some (b.addByteRange offset data now) := by
  rw [Blob.addByteRange?, addByteRange]
  split
  next => rfl
  next =>
    cases payload : b.payload with
    | assembling a =>
      have intact := contained.payload a payload
      simp only
      split
      next => rfl
      next ends =>
        have inside : a.isComplete = true ∨ offset + data.length ≤ a.length := by
          refine intact.bounded.imp id fun bound => ?_
          omega
        rw [intact.write?_eq inside, Option.map_some]
    | unknown | verified | discarded => rfl

/-- A section length is below 2^32, so room for that many bytes is enough for every fragment. -/
theorem Contained.perform?_eq (contained : b.Contained) (proper : op.Proper) :
    b.perform? UInt32.size op = some (b.perform op) := by
  cases op with
  | merge f now =>
    rw [perform?, contained.merge?_eq proper (Nat.le_of_lt f.sectionLength.toNat_lt) now]
    rfl
  | addByteRange offset data now =>
    rw [perform?, contained.addByteRange?_eq offset data now]
    rfl
  | applyHeaders | setPayload | touch | settle => rfl

theorem Contained.perform (contained : b.Contained) (proper : op.Proper) :
    (b.perform op).1.Contained :=
  contained.of_perform? (contained.perform?_eq proper)

theorem Arises.contained (arises : b.Arises) : b.Contained := by
  induction arises with
  | arrival key version now => exact contained_ofArrival key version now
  | perform _ proper ih => exact ih.perform proper
  | number _ copy ih => exact ih.congr rfl rfl

/-! ### Runs -/

theorem run?_concat (b : Blob) (room : Nat) (ops : List Operation) (op : Operation) :
    b.run? room (ops ++ [op]) = (b.run? room ops).bind fun o => (o.perform? room op).map (·.1) := by
  have last (o : Blob) : o.run? room [op] = (o.perform? room op).map (·.1) := bind_pure _
  rw [run?, List.foldlM_append]
  exact congrArg (Option.bind (b.run? room ops)) (funext last)

/-- What holds at first and is kept by every operation that does not break off holds after a run. -/
theorem run?_keeps {ops : List Operation} {Q : Blob → Prop} (first : Q b)
    (keeps : ∀ {o op result}, Q o → o.perform? room op = some result → Q result.1)
    (ran : b.run? room ops = some b') : Q b' := by
  induction ops using List.reverseRecOn generalizing b' with
  | nil => exact Option.some.inj ran ▸ first
  | append_singleton ops op ih =>
    rw [run?_concat] at ran
    obtain ⟨o, before, ran⟩ := Option.bind_eq_some_iff.mp ran
    obtain ⟨result, performed, rfl⟩ := Option.map_eq_some_iff.mp ran
    exact keeps (ih before) performed

/-- A run that does not break off is the run. -/
theorem run_of_checked {ops : List Operation} (ran : b.run? room ops = some b') :
    (b.run ops).1 = b' := by
  induction ops using List.reverseRecOn generalizing b' with
  | nil => exact Option.some.inj ran
  | append_singleton ops op ih =>
    rw [run?_concat] at ran
    obtain ⟨o, before, ran⟩ := Option.bind_eq_some_iff.mp ran
    obtain ⟨result, performed, rfl⟩ := Option.map_eq_some_iff.mp ran
    rw [run_concat, ih before, perform_of_checked performed]

end Blob
end BlobReplica
