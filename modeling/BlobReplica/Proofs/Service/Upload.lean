import BlobReplica.Proofs.Blob.Received
import BlobReplica.Proofs.ObjectRequest
import BlobReplica.Proofs.Service.Atomic

/-! What an upload stores. The properties that it derives are entered over the flags of the path, and flags
under any spelling of their names are left out first. So none of them is forged, while under all other names
the object has what the flags give. -/

namespace BlobReplica

open Properties (lastGiven?)

namespace Cache

variable {c c' : Cache} {b : Blob} {p : Fragment.Publication} {now : Millis}

/-- A version that is gained is the only one of its name, so it is what a query for it finds. -/
theorem Gains.only (gains : c.Gains b c') (fresh : ∀ x, c.Stores x → x.version ≠ b.version) {x : Blob}
    (listed : x ∈ c'.versions b.key) (named : x.version = b.version) : x = b := by
  rcases List.mem_cons.mp (gains.own.mem_iff.mp listed) with same | former
  · exact same
  · exact absurd named (fresh x ⟨b.key, former⟩)

theorem Gains.listed (gains : c.Gains b c') : b ∈ c'.versions b.key :=
  gains.own.mem_iff.mpr List.mem_cons_self

theorem Gains.find? (gains : c.Gains b c') (fresh : ∀ x, c.Stores x → x.version ≠ b.version) :
    c'.find? b.key b.version = some b := by
  cases found : c'.find? b.key b.version with
  | none => exact absurd rfl (Sound.find?_eq_none.mp found b gains.listed)
  | some x =>
    have named : x.version = b.version := by simpa using List.find?_some found
    rw [gains.only fresh (List.mem_of_find?_eq_some found) named]

theorem find?_fresh (received : b.Received p now) (fresh : ∀ x, c.Stores x → x.version ≠ p.version) :
    c.find? b.key b.version = none := by
  apply Sound.find?_eq_none.mpr
  intro x listed
  rw [received.version]
  exact fresh x ⟨b.key, listed⟩

theorem received_insertObject (intact : p.told.Declare p.payload)
    (fresh : ∀ x, c.Stores x → x.version ≠ p.version)
    (stored : c.insertObject p.key p.version p.properties p.payload now = .ok (c', b)) :
    c.Gains b c' ∧ b.Received p now := by
  obtain ⟨made, _, built, inserted⟩ := insertObject_eq_ok stored
  obtain ⟨_, built', received⟩ := Blob.received_ofObject intact now
  obtain rfl := Except.ok.inj (built.symm.trans built')
  obtain ⟨rfl, gains⟩ := gains_insert (find?_fresh received fresh) inserted
  exact ⟨gains, received.copied c.copies⟩

theorem exists_insertObject (intact : p.told.Declare p.payload)
    (fresh : ∀ x, c.Stores x → x.version ≠ p.version) (unmarked : c.isInvalid p.version = false)
    (now : Millis) :
    ∃ c' b, c.insertObject p.key p.version p.properties p.payload now = .ok (c', b) := by
  obtain ⟨made, built, received⟩ := Blob.received_ofObject intact now
  obtain ⟨taken, inserted⟩ : ∃ taken, c.insert made = .ok taken :=
    ⟨_, insert_eq_ok (find?_fresh received fresh) (received.version ▸ unmarked)⟩
  refine ⟨taken.1, taken.2.1, ?_⟩
  rw [insertObject, built]
  simp only [bind, Except.bind, inserted]
  rfl

end Cache

namespace Service

variable {c c' : Cache} {q : ObjectRequest} {o : Occasion} {b : Blob} {flags : Properties}
  {start clock : Millis} {stop : Option Millis} {kind : Option String} {body : Bytes} {name value : String}
  {e : String × String} {path : String} {headers : Http.Headers}

/-! ### Properties -/

/-- Whether an upload determines the property itself. -/
def isReserved (name : String) : Bool :=
  reservedProperties.any (Text.sameName · name)

/-- What an upload derives, in the order in which it is entered. -/
def derivedProperties (start : Millis) (stop : Option Millis) (clock : Millis) (kind : Option String)
    (body : Bytes) : List (String × String) :=
  (Property.validFrom, toString start) ::
    (stop.map fun stop => (Property.validUntil, toString stop)).toList ++
    (Property.created, toString clock) :: (Property.contentMd5, Digest.md5Hex body) ::
    (kind.map fun kind => (Property.contentType, kind)).toList

/-- The flags that an upload takes over. -/
def keptFlags (flags : Properties) : Properties :=
  flags.filter fun name _ => !isReserved name

theorem uploadProperties_eq (flags : Properties) (start : Millis) (stop : Option Millis) (clock : Millis)
    (kind : Option String) (body : Bytes) : uploadProperties flags start stop clock kind body =
      Table.ofList ((keptFlags flags).entries ++ derivedProperties start stop clock kind body) := by
  rw [Table.ofList, List.foldl_append, ← Table.ofList, Table.ofList_entries, derivedProperties]
  cases stop <;> cases kind <;> rfl

theorem derivedProperties_distinct : (derivedProperties start stop clock kind body).Pairwise fun x y =>
    Text.sameName x.1 y.1 = false := by
  rw [derivedProperties]
  cases stop <;> cases kind <;> simp +decide

theorem isReserved_of_derived (derived : e ∈ derivedProperties start stop clock kind body) :
    isReserved e.1 = true := by
  have reserved : ∀ e ∈ derivedProperties start stop clock kind body, isReserved e.1 = true := by
    rw [derivedProperties]
    cases stop <;> cases kind <;> simp +decide
  exact reserved e derived

theorem underived (start clock : Millis) (kind : Option String) (body : Bytes) :
    (∀ e ∈ derivedProperties start none clock kind body,
      Text.sameName e.1 Property.validUntil = false) ∧
    ∀ stop, ∀ e ∈ derivedProperties start stop clock none body,
      Text.sameName e.1 Property.contentType = false := by
  simp only [derivedProperties]
  constructor
  · cases kind <;> simp +decide
  · intro stop
    cases stop <;> simp +decide

theorem isReserved_congr {other : String} (same : Text.sameName name other = true) :
    isReserved name = isReserved other :=
  Text.any_sameName_congr same _

theorem unreserved_of_kept (kept : e ∈ (keptFlags flags).entries) : isReserved e.1 = false := by
  simpa using (List.mem_filter.mp kept).2

theorem lastGiven?_derived (derived : e ∈ derivedProperties start stop clock kind body) :
    lastGiven? (uploadProperties flags start stop clock kind body).entries e.1 = some e.2 := by
  rw [uploadProperties_eq]
  refine Properties.lastGiven?_entered derivedProperties_distinct derived fun x kept same => ?_
  -- a flag under another spelling would be reserved as well
  have reserved := (isReserved_congr same).trans (isReserved_of_derived derived)
  simp [unreserved_of_kept kept] at reserved

theorem lastGiven?_underived (reserved : isReserved name = true)
    (underived : ∀ e ∈ derivedProperties start stop clock kind body, Text.sameName e.1 name = false) :
    lastGiven? (uploadProperties flags start stop clock kind body).entries name = none := by
  rw [uploadProperties_eq]
  refine Properties.lastGiven?_absent underived fun x kept => Bool.eq_false_iff.mpr fun same => ?_
  have unreserved := unreserved_of_kept kept
  simp [isReserved_congr same, reserved] at unreserved

theorem lastGiven?_flag (unreserved : isReserved name = false) :
    lastGiven? (uploadProperties flags start stop clock kind body).entries name =
      lastGiven? flags.entries name := by
  have others : ∀ e ∈ derivedProperties start stop clock kind body, Text.sameName e.1 name = false := by
    intro e derived
    refine Bool.eq_false_iff.mpr fun same => ?_
    have reserved := (isReserved_congr same).symm.trans (isReserved_of_derived derived)
    simp [unreserved] at reserved
  rw [uploadProperties_eq, Properties.lastGiven?_unentered others, Table.ofList_entries]
  apply Properties.lastGiven?_congr
  rw [keptFlags, Table.filter, List.filter_filter]
  refine List.filter_congr fun e _ => ?_
  cases same : Text.sameName e.1 name with
  | false => rw [Bool.false_and]
  | true => simp [isReserved_congr same, unreserved]

/-! ### Objects -/

/-- The object of an upload at `clock`: it is what the path and the body determine, and under all names that
an upload does not determine itself it has what the flags give. -/
structure Uploaded (b : Blob) (q : ObjectRequest) (kind : Option String) (body : Bytes) (clock : Millis) :
    Prop where
  complete : b.isComplete = true
  payload : b.payload? = some body
  start : q.startTime = some b.validity.start
  stop : b.validity.stop = q.endTime.getD Millis.unbounded
  created : b.created = clock
  checksum : b.property? Property.contentMd5 = some (Digest.md5Hex body)
  kind : b.contentType = kind.getD Property.defaultContentType
  flags : ∀ name, isReserved name = false → b.property? name = lastGiven? q.flags.entries name

/-- An upload as a publication. -/
def uploadPublication (q : ObjectRequest) (start : Millis) (o : Occasion) (kind : Option String)
    (body : Bytes) : Fragment.Publication :=
  ⟨q.key, o.fresh, uploadProperties q.flags start q.endTime o.clock kind body, body⟩

theorem intact_uploadPublication (q : ObjectRequest) (start : Millis) (o : Occasion) (kind : Option String)
    (body : Bytes) : (uploadPublication q start o kind body).told.Declare body := by
  apply Properties.declare_of_lookup?
  rw [Fragment.Publication.lookup?_told]
  exact lastGiven?_derived (e := (Property.contentMd5, Digest.md5Hex body)) (by simp [derivedProperties])

theorem uploaded_of_received (received : b.Received (uploadPublication q start o kind body) o.clock)
    (started : q.startTime = some start) (startBound : start ≤ Millis.unbounded)
    (stopBound : ∀ n, q.endTime = some n → n ≤ Millis.unbounded) (clockBound : o.clock ≤ Millis.unbounded) :
    Uploaded b q kind body o.clock := by
  have intact := intact_uploadPublication q start o kind body
  have own {e : String × String} (derived : e ∈ derivedProperties start q.endTime o.clock kind body) :
      lastGiven? (uploadPublication q start o kind body).properties.entries e.1 = some e.2 :=
    lastGiven?_derived derived
  have unset {name : String} (reserved : isReserved name = true)
      (underived : ∀ e ∈ derivedProperties start q.endTime o.clock kind body,
        Text.sameName e.1 name = false) : b.property? name = none := by
    rw [received.property?_eq]
    exact lastGiven?_underived reserved underived
  have timed := received.timed
  constructor
  case complete => exact decide_eq_true (received.intact intact).1
  case payload =>
    rw [Blob.payload?, (received.intact intact).2]
    rfl
  case start =>
    rw [started, ← timed]
    have derived : (Property.validFrom, toString start) ∈
        derivedProperties start q.endTime o.clock kind body := by simp [derivedProperties]
    exact congrArg some (received.time startBound (own derived) 0).symm
  case stop =>
    rw [← timed]
    cases given : q.endTime with
    | some stop =>
      have derived : (Property.validUntil, toString stop) ∈
          derivedProperties start q.endTime o.clock kind body := by simp [derivedProperties, given]
      exact received.time (stopBound stop given) (own derived) _
    | none =>
      have absent : b.property? Property.validUntil = none := by
        refine unset (by decide) ?_
        rw [given]
        exact (underived start o.clock kind body).1
      simp only [Blob.refresh, absent]
      rfl
  case created =>
    rw [← timed]
    have derived : (Property.created, toString o.clock) ∈
        derivedProperties start q.endTime o.clock kind body := by simp [derivedProperties]
    exact received.time clockBound (own derived) _
  case checksum =>
    rw [received.property?_eq]
    exact own (e := (Property.contentMd5, Digest.md5Hex body)) (by simp [derivedProperties])
  case kind =>
    rw [Blob.contentType]
    cases kind with
    | some text =>
      rw [received.property?_eq, own (e := (Property.contentType, text)) (by simp [derivedProperties])]
    | none =>
      have absent : b.property? Property.contentType = none :=
        unset (by decide) ((underived start o.clock none body).2 q.endTime)
      rw [absent]
  case flags =>
    intro name unreserved
    rw [received.property?_eq]
    exact lastGiven?_flag unreserved

theorem lastGiven?_givenFlags (given : (name, value) ∈ ObjectRequest.givenFlags path) :
    ∃ e ∈ ObjectRequest.givenFlags path, Text.sameName e.1 name = true ∧
      lastGiven? (Table.ofList (ObjectRequest.givenFlags path)).entries name = some e.2 := by
  obtain ⟨v, listed⟩ := Table.exists_of_given given
  cases found : lastGiven? (Table.ofList (ObjectRequest.givenFlags path)).entries name with
  | none =>
    have refused := Properties.lastGiven?_eq_none.mp found _ listed
    simp [Text.sameName_refl] at refused
  | some w =>
    obtain ⟨e, entered, same, rfl⟩ := Properties.mem_of_lastGiven? found
    exact ⟨e, Table.mem_of_mem_ofList entered, same, rfl⟩

/-- Whatever the flags of a path are, an upload with it under a new version is accepted, unless it has a
version or ends before it starts. What is stored is complete, with the times of the path, created now, with
the checksum of the body and the content type of the request. Under each other name it has what some flag
gives for it, if there is one, whatever the spelling. -/
theorem upload_unforged (fresh : ∀ x, c.Stores x → x.version ≠ o.fresh)
    (unmarked : c.isInvalid o.fresh = false) (clockBound : o.clock ≤ Millis.unbounded)
    (read : ObjectRequest.parse path headers true = .ok q) (unversioned : q.version = none)
    (ordered : ∀ start stop, q.startTime = some start → q.endTime = some stop → start < stop)
    (body : Bytes) : ∃ c' response b, upload c path headers body o = .ok (c', response) ∧
      c.Gains b c' ∧ c'.find? q.key o.fresh = some b ∧
      Uploaded b q (headers.readable? Property.contentType) body o.clock ∧
      ∀ name value, (name, value) ∈ ObjectRequest.givenFlags path → isReserved name = false →
        ∃ e ∈ ObjectRequest.givenFlags path, Text.sameName e.1 name = true ∧
          b.property? name = some e.2 := by
  obtain ⟨spells, flags, _⟩ := ObjectRequest.parse_eq_ok_iff.mp read
  obtain ⟨startBound, stopBound⟩ := spells.times_le
  obtain ⟨_, start, _, _, _, started, _⟩ := spells.timed
  have intact := intact_uploadPublication q start o (headers.readable? Property.contentType) body
  obtain ⟨c', b, stored⟩ := Cache.exists_insertObject intact fresh unmarked o.clock
  obtain ⟨gains, received⟩ := Cache.received_insertObject intact fresh stored
  have uploaded := uploaded_of_received received started (startBound start started) stopBound clockBound
  have found := gains.find? (received.version ▸ fresh)
  rw [received.key, received.version] at found
  refine ⟨c', withLocation (jsonResponse 201 (objectSummary b)) 500 (objectLocation b), b, ?_, gains, found,
    uploaded, ?_⟩
  · exact upload_eq_ok_iff.mpr
      ⟨q, start, b, read, ⟨unversioned, started, fun stop => ordered start stop started⟩, stored, rfl⟩
  · intro name value given unreserved
    obtain ⟨e, member, same, last⟩ := lastGiven?_givenFlags given
    refine ⟨e, member, same, ?_⟩
    rw [uploaded.flags name unreserved, flags, last]

/-- Flags that try to forge the checksum, and two spellings of another name. -/
def sampleForgery : String :=
  "a/content-md5=x/Color=red/5/color=blue/9"

def sampleForged : ObjectRequest :=
  { path := ["a"], startTime := some 5, endTime := some 9,
    flags := Table.ofList [("content-md5", "x"), ("Color", "red"), ("color", "blue")] }

/-- The object gets one more version, beside the one that it has. -/
theorem upload_unforged_sample :
    (∀ x, sampleHeld.cache.Stores x → x.version ≠ sampleOccasion.fresh) ∧
    sampleHeld.cache.isInvalid sampleOccasion.fresh = false ∧
    ObjectRequest.parse sampleForgery [("content-type", "text/plain")] true = .ok sampleForged ∧
    ∃ c' response b, upload sampleHeld.cache sampleForgery [("content-type", "text/plain")] [98]
        sampleOccasion = .ok (c', response) ∧
      sampleHeld.cache.Gains b c' ∧ c'.find? "a" (.ofNumber 7) = some b ∧
      Uploaded b sampleForged (some "text/plain") [98] 10 ∧ b.property? "COLOR" = some "blue" := by
  have fresh (x : Blob) := fresh_sampleHeld (b := x)
  have unmarked : sampleHeld.cache.isInvalid sampleOccasion.fresh = false := by decide +kernel
  have read : ObjectRequest.parse sampleForgery [("content-type", "text/plain")] true = .ok sampleForged :=
    rfl
  have ordered : ∀ start stop, sampleForged.startTime = some start → sampleForged.endTime = some stop →
      start < stop := by
    rintro start stop ⟨⟩ ⟨⟩
    decide
  obtain ⟨c', response, b, accepted, gains, found, uploaded, _⟩ :=
    upload_unforged fresh unmarked (by decide) read rfl ordered [98]
  refine ⟨fresh, unmarked, read, c', response, b, accepted, gains, found, uploaded, ?_⟩
  rw [uploaded.flags "COLOR" (by decide +kernel)]
  decide +kernel

end Service
end BlobReplica
