import BlobReplica.Proofs.Blob.Bounds

/-! What a blob tells at a glance. Its times and its size are kept beside the properties and the buffer
that they come from, and are written anew wherever one of these changes. -/

namespace BlobReplica.Blob

variable {b b' : Blob} {f : Fragment} {now arrived : Millis} {room offset filled : Nat} {data : Bytes}
  {op : Operation} {ops : List Operation}

/-- The buffer of the payload, with zeros where nothing has arrived. -/
def buffer? (b : Blob) : Option Bytes :=
  match b.payload with
  | .assembling a => some a.bytes
  | .verified bytes => some bytes
  | .unknown | .discarded => none

/-! ### Times -/

/-- The times are those that the properties give. -/
structure Fresh (b : Blob) : Prop where
  validity : b.validity = b.refresh.validity
  created : b.created = b.refresh.created

theorem fresh_refresh (b : Blob) : b.refresh.Fresh :=
  ⟨rfl, rfl⟩

theorem fresh_ofArrival (key : String) (version : VersionId) (now : Millis) :
    (ofArrival key version now).Fresh :=
  ⟨rfl, rfl⟩

theorem Fresh.congr (fresh : b.Fresh) (properties : b'.properties = b.properties)
    (arrived : b'.arrived = b.arrived) (validity : b'.validity = b.validity)
    (created : b'.created = b.created) : b'.Fresh := by
  have told : b'.property? = b.property? := by
    funext name
    rw [property?, property?, properties]
  constructor
  · rw [validity, fresh.validity, refresh, refresh, told]
  · rw [created, fresh.created, refresh, refresh, told, arrived]

theorem Fresh.readMetadata (fresh : b.Fresh) (bytes : Bytes) : (b.readMetadata bytes).Fresh := by
  simp only [Blob.readMetadata]
  split
  next => exact fresh_refresh _
  next => exact fresh.congr rfl rfl rfl rfl

theorem Fresh.mergeSection (fresh : b.Fresh) (merged : b.mergeSection f = .ok (b', filled)) :
    b'.Fresh := by
  rcases mergeSection_cases merged with metadata | payload
  · rcases mergeMetadata_cases metadata with rfl | ⟨a, rfl⟩ | ⟨bytes, rfl⟩
    · exact fresh
    · exact fresh.congr rfl rfl rfl rfl
    · exact fresh.readMetadata bytes
  · rcases mergePayload_cases payload with rfl | ⟨a, size, rfl⟩
    · exact fresh
    · exact fresh.congr rfl rfl rfl rfl

theorem Fresh.merge (fresh : b.Fresh) (merged : b.merge f now = .ok (b', filled)) : b'.Fresh := by
  cases decided : b.isTerminal with
  | true =>
    rw [Blob.merge, if_pos decided] at merged
    split at merged
    next => contradiction
    next =>
      cases merged
      exact fresh
  | false =>
    obtain ⟨o, written, rfl⟩ := merge_open decided merged
    have inner := fresh.mergeSection written
    rw [Blob.begin]
    split <;> exact inner.congr rfl rfl rfl rfl

theorem Fresh.addByteRange (fresh : b.Fresh)
    (added : b.addByteRange offset data now = .ok (b', filled)) : b'.Fresh := by
  rw [Blob.addByteRange] at added
  split at added
  next =>
    cases added
    exact fresh
  next =>
    split at added
    next =>
      simp only at added
      split at added
      next => contradiction
      next =>
        cases added
        exact fresh.congr rfl rfl rfl rfl
    next => contradiction

theorem Fresh.settle (fresh : b.Fresh) : b.settle.1.Fresh := by
  have settles := b.settles
  generalize b.settle.1 = b' at settles ⊢
  cases settles with
  | decided => exact fresh
  | unreadable => exact fresh.congr rfl rfl rfl rfl
  | lacking => exact fresh_refresh b
  | wrong | right => exact (fresh_refresh b).congr rfl rfl rfl rfl

/-- Every operation that changes the properties takes the times from them anew. -/
theorem Fresh.perform (fresh : b.Fresh) (op : Operation) : (b.perform op).1.Fresh := by
  cases op with
  | merge f now =>
    rw [Blob.perform]
    cases merged : b.merge f now with
    | error e => exact fresh
    | ok result => exact fresh.merge merged
  | addByteRange offset data now =>
    rw [Blob.perform]
    cases added : b.addByteRange offset data now with
    | error e => exact fresh
    | ok result => exact fresh.addByteRange added
  | applyHeaders headers now =>
    rw [Blob.perform, applyHeaders]
    split
    next => exact fresh
    next => exact (fresh_refresh _).congr rfl rfl rfl rfl
  | setPayload body now =>
    rw [Blob.perform, setPayload]
    split
    next => exact fresh
    next => exact fresh.congr rfl rfl rfl rfl
  | touch now => exact fresh.congr rfl rfl rfl rfl
  | settle => exact fresh.settle

/-! ### Size -/

def extent? (b : Blob) : Option Nat :=
  match b.payload with
  | .assembling a => some a.length
  | .verified bytes => some bytes.length
  | .unknown | .discarded => none

/-- The size that a blob tells is that of its payload, which a blob with the wrong checksum has given
up. -/
inductive Gauged (b : Blob) : Prop where
  | invalid (corrupt : b.status = .checksumInvalid) : Gauged b
  | held (kept : b.payload ≠ .discarded) (size : b.size = b.extent?) : Gauged b

theorem gauged_ofArrival (key : String) (version : VersionId) (now : Millis) :
    (ofArrival key version now).Gauged :=
  .held Payload.noConfusion rfl

theorem Gauged.of_isOpen (gauged : b.Gauged) (isOpen : b.isTerminal = false) :
    b.payload ≠ .discarded ∧ b.size = b.extent? := by
  cases gauged with
  | invalid corrupt => exact absurd corrupt (status_of_isOpen isOpen).2
  | held kept size => exact ⟨kept, size⟩

theorem Gauged.frame (gauged : b.Gauged) (isOpen : b.isTerminal = false) (same : b.SamePayload b') :
    b'.Gauged := by
  obtain ⟨kept, size⟩ := gauged.of_isOpen isOpen
  refine .held (same.payload ▸ kept) ?_
  rw [same.size, size, extent?, extent?, same.payload]

theorem gauged_of_assembling {a : Assembly} (held : b.payload = .assembling a)
    (size : b.size = some a.length) : b.Gauged :=
  .held (by rw [held]; exact Payload.noConfusion) (by rw [size, extent?, held])

/-- A write does not change the length of the payload, and a new one is as long as the fragment says. -/
theorem Gauged.of_mergePayload? (gauged : b.Gauged) (isOpen : b.isTerminal = false)
    (ran : b.mergePayload? room f = some (.ok (b', filled))) : b'.Gauged := by
  obtain ⟨_, size⟩ := gauged.of_isOpen isOpen
  rcases mergePayload?_eq_some ran with ⟨rfl, _⟩ | ⟨a, w, _, wrote, began⟩
  · exact gauged
  · have length := Assembly.length_of_write? wrote
    rcases began with ⟨held, rfl⟩ | ⟨_, _, rfl⟩
    · refine gauged_of_assembling rfl ?_
      rw [size, extent?, held, length]
    · exact gauged_of_assembling rfl (congrArg some length.symm)

theorem Gauged.of_merge? (gauged : b.Gauged) (ran : b.merge? room f now = some (.ok (b', filled))) :
    b'.Gauged := by
  rcases merge?_eq_some ran with ⟨rfl, _⟩ | ⟨o, isOpen, written, rfl⟩
  · exact gauged
  · have still : o.isTerminal = false :=
      (advances_mergeSection (mergeSection_of_checked written)).isTerminal.trans isOpen
    have inner : o.Gauged := by
      rw [mergeSection?] at written
      split at written
      next => exact gauged.frame isOpen (samePayload_mergeMetadata (mergeMetadata_of_checked written))
      next => exact gauged.of_mergePayload? isOpen written
    refine inner.frame still ?_
    rw [begin]
    split <;> exact ⟨rfl, rfl⟩

theorem Gauged.of_addByteRange? (gauged : b.Gauged)
    (ran : b.addByteRange? offset data now = some (.ok (b', filled))) : b'.Gauged := by
  rcases addByteRange?_eq_some ran with ⟨rfl, _⟩ | ⟨a, w, isOpen, held, wrote, rfl⟩
  · exact gauged
  · obtain ⟨_, size⟩ := gauged.of_isOpen isOpen
    refine gauged_of_assembling rfl ?_
    show b.size = some w.length
    rw [size, extent?, held, Assembly.length_of_write? wrote]

/-- The bytes that are found right are as many as the size has said. -/
theorem Gauged.settle (gauged : b.Gauged) (contained : b.Contained) : b.settle.1.Gauged := by
  have settles := b.settles
  generalize b.settle.1 = b' at settles ⊢
  cases settles with
  | decided => exact gauged
  | unreadable | wrong => exact .invalid rfl
  | lacking isOpen => exact gauged.frame isOpen ⟨rfl, rfl⟩
  | @right a isOpen held =>
    obtain ⟨_, size⟩ := gauged.of_isOpen isOpen
    refine .held Payload.noConfusion ?_
    show b.size = some a.bytes.length
    rw [size, extent?, held, (contained.payload a held).size]

theorem Gauged.of_perform? {result : Blob × Reply} (gauged : b.Gauged) (contained : b.Contained)
    (ran : b.perform? room op = some result) : result.1.Gauged := by
  cases op with
  | merge f now =>
    obtain ⟨r, merged, rfl⟩ := Option.map_eq_some_iff.mp ran
    cases r with
    | error e => exact gauged
    | ok written => exact gauged.of_merge? merged
  | addByteRange offset data now =>
    obtain ⟨r, added, rfl⟩ := Option.map_eq_some_iff.mp ran
    cases r with
    | error e => exact gauged
    | ok written => exact gauged.of_addByteRange? added
  | applyHeaders headers now =>
    obtain rfl := Option.some.inj ran
    rw [perform, applyHeaders]
    split
    next => exact gauged
    next undecided => exact gauged.frame (by simpa using undecided) ⟨rfl, rfl⟩
  | setPayload body now =>
    obtain rfl := Option.some.inj ran
    rw [perform, setPayload]
    split
    next => exact gauged
    next => exact gauged_of_assembling rfl rfl
  | touch now =>
    obtain rfl := Option.some.inj ran
    cases gauged with
    | invalid corrupt => exact .invalid corrupt
    | held kept size => exact .held kept size
  | settle => exact Option.some.inj ran ▸ gauged.settle contained

/-- The size is the length of the buffer, and what is missing lies inside it. -/
theorem Gauged.buffer (gauged : b.Gauged) (contained : b.Contained)
    (uncorrupt : b.status ≠ .checksumInvalid) :
    (b.size = none ↔ b.missingRanges = none) ∧ b.size = b.buffer?.map List.length ∧
      ∀ missing ∈ b.missingRanges, ∃ size ∈ b.size, ∀ r ∈ missing, r.start < r.stop ∧ r.stop ≤ size := by
  cases gauged with
  | invalid corrupt => exact absurd corrupt uncorrupt
  | held kept size =>
    rw [size, extent?, missingRanges, buffer?]
    cases payload : b.payload with
    | unknown => simp
    | discarded => exact absurd payload kept
    | verified bytes => simp
    | assembling a =>
      have intact := contained.payload a payload
      refine ⟨by simp, congrArg some intact.size.symm, ?_⟩
      rintro missing ⟨⟩
      exact ⟨a.length, rfl, intact.missing⟩

/-! ### Runs -/

/-- Whatever operations have been done to a blob since its first piece came, it tells the times that its
properties give, and unless its checksum was wrong the length of its buffer: no size exactly as long as
it cannot say what is missing, and else one with every missing interval inside. -/
theorem summary_of_run {key : String} {version : VersionId}
    (ran : (ofArrival key version arrived).run? room ops = some b) :
    b.validity.start = ((b.property? Property.validFrom).bind Millis.parse?).getD 0 ∧
    b.validity.stop = ((b.property? Property.validUntil).bind Millis.parse?).getD Millis.unbounded ∧
    b.created = ((b.property? Property.created).bind Millis.parse?).getD arrived ∧
    (b.status ≠ .checksumInvalid →
      (b.size = none ↔ b.missingRanges = none) ∧ b.size = b.buffer?.map List.length ∧
      ∀ missing ∈ b.missingRanges, ∃ size ∈ b.size,
        ∀ r ∈ missing, r.start < r.stop ∧ r.stop ≤ size) := by
  have kept : b.arrived = arrived ∧ b.Fresh ∧ b.Contained ∧ b.Gauged := by
    refine run?_keeps (Q := fun o => o.arrived = arrived ∧ o.Fresh ∧ o.Contained ∧ o.Gauged)
      ⟨rfl, fresh_ofArrival _ _ _, contained_ofArrival _ _ _, gauged_ofArrival _ _ _⟩ ?_ ran
    rintro o op result ⟨same, fresh, contained, gauged⟩ performed
    have after := perform_of_checked performed
    exact ⟨after ▸ (same_perform o op).arrived.trans same, after ▸ fresh.perform op,
      contained.of_perform? performed, gauged.of_perform? contained performed⟩
  obtain ⟨same, fresh, contained, gauged⟩ := kept
  refine ⟨congrArg Validity.start fresh.validity, congrArg Validity.stop fresh.validity, ?_,
    gauged.buffer contained⟩
  exact same ▸ fresh.created

/-- A payload with gaps, and properties from the authority whose names are spelled in their own way. -/
def sampleGlance : List Operation :=
  [.merge ⟨"k", .ofNumber 7, .payload, 10, 2, [99, 100, 101, 102]⟩ 10, .settle,
    .applyHeaders [("valid-from", "5"), ("CREATED", "soon")] 20, .addByteRange 0 [97] 30]

theorem summary_of_run_sample :
    (ofArrival "k" (.ofNumber 7) 10).run? 10 sampleGlance =
      some ((ofArrival "k" (.ofNumber 7) 10).run sampleGlance).1 ∧
    ((ofArrival "k" (.ofNumber 7) 10).run sampleGlance).1.validity.start = 5 ∧
    ((ofArrival "k" (.ofNumber 7) 10).run sampleGlance).1.created = 10 ∧
    ((ofArrival "k" (.ofNumber 7) 10).run sampleGlance).1.size = some 10 := by
  have ran : (ofArrival "k" (.ofNumber 7) 10).run? 10 sampleGlance =
      some ((ofArrival "k" (.ofNumber 7) 10).run sampleGlance).1 := by
    decide +kernel
  obtain ⟨start, _, created, size⟩ := summary_of_run ran
  have partly : ((ofArrival "k" (.ofNumber 7) 10).run sampleGlance).1.status ≠ .checksumInvalid := by
    decide +kernel
  refine ⟨ran, start.trans ?_, created.trans ?_, (size partly).2.1.trans ?_⟩
  all_goals decide +kernel

end BlobReplica.Blob
