import BlobReplica.Proofs.Blob.Life

/-! Headers and the metadata section of one blob. The authority may tell properties before, between and
after the slices of the section, and whatever the order, a name has the value that a header gave it last,
and the section's value if no header gave it any. -/

namespace BlobReplica

namespace Properties

variable {ps : Properties} {given more : List (String × String)} {name : String}

/-- What a name stands for once headers and a metadata section are known. -/
def prevailing (given : List (String × String)) (told : Properties) (name : String) : Option String :=
  (lastGiven? given name).or (told.lookup? name)

theorem prevailing_append : prevailing (given ++ more) ps name =
    (lastGiven? more name).or (prevailing given ps name) := by
  rw [prevailing, lastGiven?_append, Option.or_assoc, prevailing]

end Properties

open Properties (lastGiven? prevailing)

/-- A slice of a metadata section of this key and version, wherever it starts and ends. -/
structure Fragment.MetadataSlice (f : Fragment) (key : String) (version : VersionId) (bytes : Bytes) :
    Prop where
  key : f.key = key
  version : f.version = version
  length : f.sectionLength.toNat = bytes.length
  inside : f.stop ≤ bytes.length
  data : f.data = bytes.slice f.offset.toNat f.stop

instance (f : Fragment) (key : String) (version : VersionId) (bytes : Bytes) :
    Decidable (f.MetadataSlice key version bytes) :=
  decidable_of_iff
    (f.key = key ∧ f.version = version ∧ f.sectionLength.toNat = bytes.length ∧
      f.stop ≤ bytes.length ∧ f.data = bytes.slice f.offset.toNat f.stop)
    ⟨fun ⟨key, version, length, inside, data⟩ => ⟨key, version, length, inside, data⟩,
      fun ⟨key, version, length, inside, data⟩ => ⟨key, version, length, inside, data⟩⟩

namespace Blob

variable {b b' : Blob} {bytes : Bytes} {told : Properties} {given : List (String × String)}
  {S : Nat → Prop} {f : Fragment} {now : Millis} {op : Operation} {ops : List Operation}

namespace Operation

/-- The properties that the authority gives with an operation. -/
def headers : Operation → List (String × String)
  | .applyHeaders headers _ => headers
  | _ => []

/-- The positions of the metadata section that an operation covers. -/
def Fills : Operation → Nat → Prop
  | .merge f _, i => f.sectionKind = .metadata ∧ f.range.Has i
  | _, _ => False

/-- Headers, slices of this metadata section, and anything that concerns the payload; nothing that
decides. -/
def Informs (key : String) (version : VersionId) (bytes : Bytes) : Operation → Prop
  | .merge f _ => f.sectionKind = .metadata → f.MetadataSlice key version bytes
  | .settle => False
  | _ => True

instance (key : String) (version : VersionId) (bytes : Bytes) :
    (op : Operation) → Decidable (op.Informs key version bytes)
  | .merge _ _ => inferInstanceAs (Decidable (_ → _))
  | .settle => .isFalse id
  | .addByteRange _ _ _ | .applyHeaders _ _ | .setPayload _ _ | .touch _ => .isTrue trivial

end Operation

/-- An open blob of which neither metadata nor headers have come. -/
structure Uninformed (b : Blob) : Prop where
  isOpen : b.isTerminal = false
  properties : b.properties = {}
  metadata : b.metadata = none
  undecoded : b.metadataDecoded = false
  unaided : b.headersRecovered = false

theorem uninformed_ofArrival (key : String) (version : VersionId) (copy : Nat) (now : Millis) :
    { ofArrival key version now with copy }.Uninformed :=
  ⟨rfl, rfl, rfl, rfl, rfl⟩

/-- An open blob that has been given these headers and these positions of a metadata section. -/
structure Informed (b : Blob) (bytes : Bytes) (told : Properties) (given : List (String × String))
    (S : Nat → Prop) : Prop where
  isOpen : b.isTerminal = false
  unaided : b.headersRecovered = false → given = []
  distinct : b.properties.DistinctNames
  reading : b.metadataDecoded = false →
    (b.metadata.getD (Assembly.ofLength bytes.length)).Holds bytes S ∧
    (∃ i < bytes.length, ¬ S i) ∧ b.properties = given.foldl (fun ps e => ps.assign e.1 e.2) {}
  decoded : b.metadataDecoded = true → b.refresh = b ∧
    (∀ i < bytes.length, S i) ∧ ∀ name, b.property? name = prevailing given told name

theorem length_pos_of_decode (decodes : Metadata.decode? bytes = some told) : 0 < bytes.length := by
  refine List.length_pos_iff.mpr ?_
  rintro rfl
  contradiction

theorem Uninformed.informed (blank : b.Uninformed) (decodes : Metadata.decode? bytes = some told) :
    b.Informed bytes told [] fun _ => False where
  isOpen := blank.isOpen
  unaided _ := rfl
  distinct := by
    rw [blank.properties]
    exact List.Pairwise.nil
  reading _ := by
    refine ⟨?_, ⟨0, length_pos_of_decode decodes, id⟩, blank.properties⟩
    rw [blank.metadata]
    exact Assembly.holds_ofLength bytes
  decoded done := by
    rw [blank.undecoded] at done
    contradiction

/-! ### Reading the section -/

/-- Once the authority has told properties, the section fills in the names that have none. -/
theorem property?_addDecoded (aided : b.headersRecovered = true) (entry : String × String)
    (name : String) : (b.addDecoded entry).property? name =
      (b.property? name).or (if Text.sameName entry.1 name then some entry.2 else none) := by
  rw [addDecoded, aided, Bool.true_and]
  cases same : Text.sameName entry.1 name with
  | true =>
    have alike : b.property? entry.1 = b.property? name := by
      rw [property?, property?, Properties.lookup?, Properties.lookup?]
      congr 2
      funext e
      exact Text.sameName_congr_right same e.1
    rw [alike]
    cases known : b.property? name with
    | some value => simp [known]
    | none => simp [property?, Properties.lookup?_assign, same]
  | false =>
    split
    next => simp
    next => simp [property?, Properties.lookup?_assign, same]

theorem headersRecovered_addDecoded (b : Blob) (entry : String × String) :
    (b.addDecoded entry).headersRecovered = b.headersRecovered := by
  rw [addDecoded]
  split <;> rfl

theorem headersRecovered_foldl_addDecoded (b : Blob) (entries : List (String × String)) :
    (entries.foldl addDecoded b).headersRecovered = b.headersRecovered := by
  induction entries generalizing b with
  | nil => rfl
  | cons e rest ih => rw [List.foldl_cons, ih, headersRecovered_addDecoded]

theorem property?_foldl_addDecoded (aided : b.headersRecovered = true)
    (entries : List (String × String)) (name : String) :
    (entries.foldl addDecoded b).property? name =
      (b.property? name).or ((entries.find? fun e => Text.sameName e.1 name).map (·.2)) := by
  induction entries generalizing b with
  | nil => simp
  | cons e rest ih =>
    have still := (headersRecovered_addDecoded b e).trans aided
    rw [List.foldl_cons, ih still, property?_addDecoded aided, Option.or_assoc, List.find?_cons]
    congr 1
    cases Text.sameName e.1 name <;> simp

theorem properties_readMetadata (decodes : Metadata.decode? bytes = some told) :
    (b.readMetadata bytes).properties =
      (told.entries.foldl addDecoded { b with metadata := none }).properties := by
  simp only [readMetadata, decodes]
  rfl

/-- The section never takes the place of what headers gave. -/
theorem property?_readMetadata (decodes : Metadata.decode? bytes = some told)
    (distinct : told.DistinctNames) (unaided : b.headersRecovered = false → b.properties = {})
    (name : String) :
    (b.readMetadata bytes).property? name = (b.property? name).or (told.lookup? name) := by
  rw [property?, properties_readMetadata decodes]
  by_cases aided : b.headersRecovered = true
  · exact property?_foldl_addDecoded (b := { b with metadata := none }) aided told.entries name
  · rw [Bool.not_eq_true] at aided
    have empty := unaided aided
    rw [foldl_addDecoded (b := { b with metadata := none }) aided, property?]
    simp only [empty, Properties.foldl_assign_entries distinct]
    rfl

theorem Informed.readMetadata (informed : b.Informed bytes told given S)
    (decodes : Metadata.decode? bytes = some told) (distinct : told.DistinctNames)
    (undecoded : b.metadataDecoded = false) {T : Nat → Prop} (all : ∀ i < bytes.length, T i) :
    (b.readMetadata bytes).Informed bytes told given T := by
  obtain ⟨_, _, same⟩ := informed.reading undecoded
  have advances := advances_readMetadata b bytes
  have aid : (b.readMetadata bytes).headersRecovered = b.headersRecovered := by
    simp only [Blob.readMetadata, decodes]
    exact headersRecovered_foldl_addDecoded { b with metadata := none } told.entries
  have done : (b.readMetadata bytes).metadataDecoded = true := by
    simp only [Blob.readMetadata, decodes]
    rfl
  have timed : (b.readMetadata bytes).refresh = b.readMetadata bytes := by
    simp only [Blob.readMetadata, decodes]
    rfl
  refine ⟨advances.isTerminal.trans informed.isOpen, fun unaided => informed.unaided (aid ▸ unaided),
    advances.distinct informed.distinct, fun still => ?_, fun _ => ⟨timed, all, fun name => ?_⟩⟩
  · simp [done] at still
  · have empty : b.headersRecovered = false → b.properties = {} := by
      intro unaided
      rw [same, informed.unaided unaided]
      rfl
    rw [property?_readMetadata decodes distinct empty, property?, same, Properties.lookup?_assignments]
    simp [Properties.prevailing, Properties.lookup?]

/-! ### Steps -/

theorem Informed.keep (informed : b.Informed bytes told given S) {payload : Payload}
    {size : Option Nat} {status : Status} {lastTouched : Millis}
    (isOpen : { b with payload, size, status, lastTouched }.isTerminal = false) :
    { b with payload, size, status, lastTouched }.Informed bytes told given S where
  isOpen := isOpen
  unaided := informed.unaided
  distinct := informed.distinct
  reading := informed.reading
  decoded done := by
    obtain ⟨timed, all, values⟩ := informed.decoded done
    refine ⟨?_, all, values⟩
    have validity := congrArg Blob.validity timed
    have created := congrArg Blob.created timed
    simp only [refresh] at validity created
    rw [refresh]
    congr 1

theorem Informed.touch (informed : b.Informed bytes told given S) (now : Millis) :
    (b.touch now).Informed bytes told given S :=
  informed.keep informed.isOpen

theorem Informed.begin (informed : b.Informed bytes told given S) :
    b.begin.Informed bytes told given S := by
  have isOpen := (advances_begin b).isTerminal.trans informed.isOpen
  rw [Blob.begin] at isOpen ⊢
  split
  next empty =>
    rw [if_pos empty] at isOpen
    exact informed.keep isOpen
  next => exact informed

theorem Informed.applyHeaders (informed : b.Informed bytes told given S)
    (headers : List (String × String)) (now : Millis) :
    (b.applyHeaders headers now).Informed bytes told (given ++ headers) S := by
  rw [Blob.applyHeaders, if_neg (by simp [informed.isOpen])]
  refine Informed.touch ?_ now
  refine ⟨informed.isOpen, fun unaided => by contradiction, ?_, fun undecoded => ?_, fun done => ?_⟩
  · exact Properties.distinctNames_foldl_assign informed.distinct headers
  · obtain ⟨holds, lacking, same⟩ := informed.reading undecoded
    refine ⟨holds, lacking, ?_⟩
    rw [List.foldl_append, ← same]
    rfl
  · obtain ⟨_, all, values⟩ := informed.decoded done
    refine ⟨rfl, all, fun name => ?_⟩
    rw [Properties.prevailing_append, ← values name]
    exact Properties.lookup?_assignments b.properties headers name

/-- A slice that completes the section has it read; once that is done, slices bring nothing. -/
theorem Informed.mergeMetadata (informed : b.Informed bytes told given S)
    (decodes : Metadata.decode? bytes = some told) (distinct : told.DistinctNames)
    (slice : f.MetadataSlice b.key b.version bytes) :
    ∃ b' n, b.mergeMetadata f = .ok (b', n) ∧
      b'.Informed bytes told given fun i => S i ∨ f.range.Has i := by
  rw [Blob.mergeMetadata]
  split
  next done =>
    obtain ⟨timed, all, values⟩ := informed.decoded done
    refine ⟨b, 0, rfl, informed.isOpen, informed.unaided, informed.distinct, fun undecoded => ?_,
      fun _ => ⟨timed, fun i below => .inl (all i below), values⟩⟩
    simp [done] at undecoded
  next undecoded =>
    have undecoded : b.metadataDecoded = false := by simpa using undecoded
    obtain ⟨holds, _, same⟩ := informed.reading undecoded
    simp only [slice.length, holds.length, ne_eq, not_true_eq_false, if_false]
    have written := holds.write slice.inside slice.data
    refine ⟨_, _, rfl, ?_⟩
    split
    next full =>
      have all := written.isComplete_iff.mp full
      rw [written.bytes_eq all, readMetadata_with]
      exact informed.readMetadata decodes distinct undecoded all
    next partly =>
      rw [written.isComplete_iff] at partly
      obtain ⟨i, lacking⟩ := Classical.not_forall.mp partly
      obtain ⟨below, absent⟩ := Classical.not_imp.mp lacking
      refine ⟨informed.isOpen, informed.unaided, informed.distinct, fun _ => ⟨written, ⟨i, below, absent⟩, same⟩,
        fun done => ?_⟩
      simp [undecoded] at done

theorem Informed.merge (informed : b.Informed bytes told given S)
    (decodes : Metadata.decode? bytes = some told) (distinct : told.DistinctNames)
    (kind : f.sectionKind = .metadata) (slice : f.MetadataSlice b.key b.version bytes) (now : Millis) :
    ∃ b' n, b.merge f now = .ok (b', n) ∧
      b'.Informed bytes told given fun i => S i ∨ f.range.Has i := by
  obtain ⟨b', n, merged, informed'⟩ := informed.mergeMetadata decodes distinct slice
  have target : ¬ (f.version ≠ b.version ∨ f.key ≠ b.key) := by
    simp [slice.version, slice.key]
  refine ⟨(b'.touch now).begin, n, ?_, (informed'.touch now).begin⟩
  rw [Blob.merge, if_neg target, if_neg (by simp [informed.isOpen])]
  simp [mergeSection, kind, merged, Except.map]

theorem Informed.mergePayload (informed : b.Informed bytes told given S)
    (kind : f.sectionKind = .payload) (now : Millis) :
    (b.perform (.merge f now)).1.Informed bytes told given S := by
  rw [perform]
  cases merged : b.merge f now with
  | error e => exact informed
  | ok result =>
    obtain ⟨o, written, taken⟩ := merge_open informed.isOpen merged
    rw [wrote, taken]
    refine Informed.begin (Informed.touch ?_ now)
    rw [mergeSection, kind] at written
    rcases mergePayload_cases written with rfl | ⟨a, size, rfl⟩
    · exact informed
    · exact informed.keep informed.isOpen

theorem Informed.addByteRange (informed : b.Informed bytes told given S) (offset : Nat) (data : Bytes)
    (now : Millis) : (b.perform (.addByteRange offset data now)).1.Informed bytes told given S := by
  rw [perform, Blob.addByteRange, if_neg (by simp [informed.isOpen])]
  split
  next a _ =>
    simp only
    split
    next => exact informed
    next =>
      refine Informed.touch ?_ now
      exact informed.keep informed.isOpen
  next => exact informed

theorem Informed.setPayload (informed : b.Informed bytes told given S) (body : Bytes) (now : Millis) :
    (b.setPayload body now).Informed bytes told given S := by
  rw [Blob.setPayload, if_neg (by simp [informed.isOpen])]
  refine Informed.touch ?_ now
  exact informed.keep informed.isOpen

theorem Informed.congr (informed : b.Informed bytes told given S) {T : Nat → Prop}
    (same : ∀ i, S i ↔ T i) : b.Informed bytes told given T := by
  obtain rfl : S = T := funext fun i => propext (same i)
  exact informed

/-- What one operation tells an open blob. -/
theorem Informed.perform (informed : b.Informed bytes told given S)
    (decodes : Metadata.decode? bytes = some told) (distinct : told.DistinctNames)
    (informs : op.Informs b.key b.version bytes) :
    (b.perform op).1.Informed bytes told (given ++ op.headers) fun i => S i ∨ op.Fills i := by
  -- operations other than headers and slices of the section tell nothing
  have silent {b' : Blob} (informed' : b'.Informed bytes told given S) (none : ∀ i, ¬ op.Fills i) :
      b'.Informed bytes told (given ++ []) fun i => S i ∨ op.Fills i := by
    rw [List.append_nil]
    exact informed'.congr fun i => (or_iff_left (none i)).symm
  cases op with
  | merge f now =>
    cases kind : f.sectionKind with
    | metadata =>
      obtain ⟨b', n, merged, informed'⟩ := informed.merge decodes distinct kind (informs kind) now
      have none : Operation.headers (.merge f now) = [] := rfl
      rw [Blob.perform, merged, wrote, none, List.append_nil]
      exact informed'.congr fun i => by simp [Operation.Fills, kind]
    | payload =>
      refine silent (informed.mergePayload kind now) fun i fills => ?_
      simp [Operation.Fills, kind] at fills
  | addByteRange offset data now => exact silent (informed.addByteRange offset data now) fun _ => id
  | applyHeaders headers now =>
    exact (informed.applyHeaders headers now).congr fun i => (or_iff_left id).symm
  | setPayload body now => exact silent (informed.setPayload body now) fun _ => id
  | touch now => exact silent (informed.touch now) fun _ => id
  | settle => exact informs.elim

/-! ### Runs -/

/-- What a run of such operations tells a blob of which nothing had come. -/
theorem informed_run (blank : b.Uninformed) (decodes : Metadata.decode? bytes = some told)
    (distinct : told.DistinctNames) (informs : ∀ op ∈ ops, op.Informs b.key b.version bytes) :
    (b.run ops).1.Informed bytes told (ops.flatMap Operation.headers)
      fun i => ∃ op ∈ ops, op.Fills i := by
  induction ops using List.reverseRecOn with
  | nil => exact (blank.informed decodes).congr fun i => by simp
  | append_singleton ops op ih =>
    have before := ih fun o listed => informs o (List.mem_append_left _ listed)
    have same := same_run b ops
    have last := informs op (List.mem_append_right _ List.mem_cons_self)
    rw [← same.key, ← same.version] at last
    rw [run_concat, List.flatMap_append, List.flatMap_singleton]
    exact (before.perform decodes distinct last).congr fun i => by simp [or_and_right, exists_or]

/-- Whatever the order in which headers and the slices of a metadata section come to an open blob, and
whatever happens to its payload meanwhile, no slice is refused. Once all of the section has come, every
name has the value that a header gave it last, or else the section's value; no two names are spellings
of one; and the times are those that these values tell. -/
theorem headers_prevail (blank : b.Uninformed) (decodes : Metadata.decode? bytes = some told)
    (distinct : told.DistinctNames) (informs : ∀ op ∈ ops, op.Informs b.key b.version bytes)
    (whole : ∀ i < bytes.length, ∃ op ∈ ops, op.Fills i) :
    let final := prevailing (ops.flatMap Operation.headers) told
    (∀ before f now after, before ++ .merge f now :: after = ops → f.sectionKind = .metadata →
      ∃ b' n, (b.run before).1.merge f now = .ok (b', n)) ∧
    (∀ name, (b.run ops).1.property? name = final name) ∧
    (b.run ops).1.properties.DistinctNames ∧
    (b.run ops).1.validity.start = ((final Property.validFrom).bind Millis.parse?).getD 0 ∧
    (b.run ops).1.validity.stop =
      ((final Property.validUntil).bind Millis.parse?).getD Millis.unbounded ∧
    (b.run ops).1.created = ((final Property.created).bind Millis.parse?).getD b.arrived := by
  have informed := informed_run blank decodes distinct informs
  have done : (b.run ops).1.metadataDecoded = true := by
    by_contra undecoded
    obtain ⟨_, ⟨i, below, absent⟩, _⟩ := informed.reading (by simpa using undecoded)
    exact absent (whole i below)
  obtain ⟨timed, _, values⟩ := informed.decoded done
  refine ⟨?_, values, informed.distinct, ?_, ?_, ?_⟩
  · rintro before f now after rfl kind
    have earlier := informed_run blank decodes distinct fun o listed =>
      informs o (List.mem_append_left _ listed)
    have slice := informs (.merge f now) (by simp) kind
    have same := same_run b before
    rw [← same.key, ← same.version] at slice
    obtain ⟨b', n, merged, _⟩ := earlier.merge decodes distinct kind slice now
    exact ⟨b', n, merged⟩
  · rw [← values, ← timed]
    rfl
  · rw [← values, ← timed]
    rfl
  · rw [← values, ← (same_run b ops).arrived, ← timed]
    rfl

/-- What a metadata section of 54 bytes tells. -/
def sampleTelling : Properties :=
  { entries := [("Created", "5"), ("Title", "a")], ascending := by decide }

/-- Headers before the section, between its two slices and after it. -/
def sampleInterleaving : List Operation :=
  let bytes := Metadata.encode sampleTelling
  [.applyHeaders [("Note", "x"), ("created", "9")] 10,
    .merge ⟨"k", .ofNumber 7, .metadata, 54, 20, bytes.drop 20⟩ 20,
    .applyHeaders [("NOTE", "y")] 30,
    .merge ⟨"k", .ofNumber 7, .metadata, 54, 0, bytes.take 20⟩ 40,
    .applyHeaders [("Valid-From", "3")] 50]

theorem headers_prevail_sample :
    let b := ofArrival "k" (.ofNumber 7) 0
    b.Uninformed ∧ Metadata.decode? (Metadata.encode sampleTelling) = some sampleTelling ∧
    sampleTelling.DistinctNames ∧
    (∀ op ∈ sampleInterleaving, op.Informs b.key b.version (Metadata.encode sampleTelling)) ∧
    (∀ i < (Metadata.encode sampleTelling).length, ∃ op ∈ sampleInterleaving, op.Fills i) ∧
    (b.run sampleInterleaving).1.property? "note" = some "y" ∧
    (b.run sampleInterleaving).1.property? "title" = some "a" ∧
    (b.run sampleInterleaving).1.validity.start = 3 ∧
    (b.run sampleInterleaving).1.validity.stop = Millis.unbounded ∧
    (b.run sampleInterleaving).1.created = 9 := by
  intro b
  have blank : b.Uninformed := uninformed_ofArrival _ _ _ _
  have length : (Metadata.encode sampleTelling).length = 54 := by decide +kernel
  have decodes : Metadata.decode? (Metadata.encode sampleTelling) = some sampleTelling :=
    Metadata.decode?_encode (by rw [length]; decide)
  have informs : ∀ op ∈ sampleInterleaving,
      op.Informs b.key b.version (Metadata.encode sampleTelling) := by decide +kernel
  have whole : ∀ i < (Metadata.encode sampleTelling).length, ∃ op ∈ sampleInterleaving, op.Fills i := by
    rw [length]
    intro i below
    rcases Nat.lt_or_ge i 20 with low | high
    · exact ⟨sampleInterleaving[3], List.getElem_mem _, rfl, Nat.zero_le i, low⟩
    · exact ⟨sampleInterleaving[1], List.getElem_mem _, rfl, high, below⟩
  obtain ⟨_, values, _, start, stop, created⟩ := headers_prevail blank decodes (by decide) informs whole
  rw [values, values, start, stop, created]
  exact ⟨blank, decodes, by decide, informs, whole, by decide +kernel, by decide +kernel,
    by decide +kernel, by decide +kernel, by decide +kernel⟩

end Blob
end BlobReplica
