import BlobReplica.Command.Publish
import BlobReplica.Proofs.Blob.Life
import BlobReplica.Proofs.Blob.Received
import BlobReplica.Proofs.CommandLine
import BlobReplica.Proofs.Intake.Gathering

/-! Published objects as their receivers see them. Publishing enters what it derives over properties of
exactly the same name, while a receiver does not tell spellings of a name apart and takes the last one in
the order of the names. So what was derived counts unless a property comes under a later spelling. -/

namespace BlobReplica

open Fragment (Publication)

/-! ### What publishing derives -/

namespace CommandLine.PublishArguments

open Properties (lastGiven?)

variable {a : PublishArguments} {payload : Bytes} {created : Millis} {name : String}
  {e : String × String}

/-- What publishing derives, in the order in which it is entered. -/
def derived (a : PublishArguments) (payload : Bytes) (created : Millis) : List (String × String) :=
  (Property.validFrom, toString a.validFrom) ::
    (a.validUntil.map fun stop => (Property.validUntil, toString stop)).toList ++
    (Property.created, toString created) :: (Property.contentMd5, Digest.md5Hex payload) ::
    (a.contentType.map fun text => (Property.contentType, text)).toList ++
    ((lastName? a.file).map fun file => (Property.fileName, file)).toList

theorem objectProperties_eq (a : PublishArguments) (payload : Bytes) (created : Millis) :
    a.objectProperties payload created = Table.ofList (a.properties ++ a.derived payload created) := by
  rw [Table.ofList, List.foldl_append, objectProperties, derived]
  cases a.validUntil <;> cases a.contentType <;> cases lastName? a.file <;> rfl

theorem derived_distinct : (a.derived payload created).Pairwise fun x y =>
    Text.sameName x.1 y.1 = false := by
  rw [derived]
  cases a.validUntil <;> cases a.contentType <;> cases lastName? a.file <;> simp +decide

/-- No property is given under a later spelling of the name. -/
def Keeps (a : PublishArguments) (name : String) : Prop :=
  ∀ p ∈ a.properties, Text.sameName p.1 name = true → p.1 ≤ name

instance (a : PublishArguments) (name : String) : Decidable (a.Keeps name) :=
  inferInstanceAs (Decidable (∀ p ∈ a.properties, _ → _))

theorem lastGiven?_derived (member : e ∈ a.derived payload created) (keeps : a.Keeps e.1) :
    lastGiven? (a.objectProperties payload created).entries e.1 = some e.2 := by
  rw [objectProperties_eq]
  exact Properties.lastGiven?_entered derived_distinct member keeps

end CommandLine.PublishArguments

/-! ### Receiving -/

namespace Blob

variable {b : Blob} {p : Publication} {now : Millis} {fs : List Fragment} {size : Nat}
  {op : Operation} {ops : List Operation} {came : Fragment → Prop}

/-- A fragment of the list, or an attempt to decide. -/
def Operation.Delivers (fs : List Fragment) : Operation → Prop
  | .merge f _ => f ∈ fs
  | .settle => True
  | _ => False

instance (fs : List Fragment) : (op : Operation) → Decidable (op.Delivers fs)
  | .merge f _ => inferInstanceAs (Decidable (f ∈ fs))
  | .settle => .isTrue trivial
  | .addByteRange _ _ _ | .applyHeaders _ _ | .setPayload _ _ | .touch _ => .isFalse id

/-- A blob to which these fragments of a publication have come: open, or decided since all had come. -/
inductive Hears (b : Blob) (p : Publication) (now : Millis) (came : Fragment → Prop) : Prop where
  | ongoing (gathers : b.Gathers p p.told (.ofSet came)) (arrived : b.arrived = now) : Hears b p now came
  | decided (received : b.Received p now) (complete : (Progress.ofSet came).Complete p) : Hears b p now came

theorem Hears.settle_complete (hears : b.Hears p now came)
    (complete : (Progress.ofSet came).Complete p) : b.settle.1.Received p now := by
  cases hears with
  | ongoing gathers arrived =>
    obtain ⟨properties, verified, discarded⟩ := gathers.settle_complete complete
    by_cases intact : p.told.Declare p.payload
    · rw [verified intact]
      exact ⟨gathers.key, gathers.version, properties, arrived, rfl, fun _ => ⟨rfl, rfl⟩,
        fun corrupt => absurd intact corrupt⟩
    · rw [discarded intact]
      exact ⟨gathers.key, gathers.version, properties, arrived, rfl, fun good => absurd good intact,
        fun _ => ⟨rfl, rfl⟩⟩
  | decided received =>
    rw [settle, if_pos received.isTerminal]
    exact received

theorem Hears.merge {f : Fragment} (hears : b.Hears p now came) (slice : f.SliceOf p) (at_ : Millis) :
    ∃ b' n, b.merge f at_ = .ok (b', n) ∧ b'.Hears p now fun g => came g ∨ g = f := by
  cases hears with
  | ongoing gathers arrived =>
    obtain ⟨b', n, merged, gathers', _⟩ := gathers.merge slice at_
    rw [Progress.ofSet_add] at gathers'
    exact ⟨b', n, merged, .ongoing gathers' ((advances_merge merged).arrived.trans arrived)⟩
  | decided received complete =>
    have key := slice.key.trans received.key.symm
    have version := slice.version.trans received.version.symm
    refine ⟨b, 0, merge_decided received.isTerminal key version at_, .decided received ?_⟩
    rw [← Progress.ofSet_add]
    exact complete.add f

/-- What has come after one more operation. -/
def Operation.Brings : Operation → Fragment → Prop
  | .merge f _, g => g = f
  | _, _ => False

theorem Hears.perform (hears : b.Hears p now came) (split : p.fragments size = .ok fs)
    (delivers : op.Delivers fs) : (b.perform op).1.Hears p now fun g => came g ∨ op.Brings g := by
  cases op with
  | merge f at_ =>
    obtain ⟨b', n, merged, hears'⟩ := hears.merge (Publication.slice_of_mem_fragments split delivers) at_
    rw [Blob.perform, merged, wrote]
    exact hears'
  | settle =>
    have nothing : (fun g => came g ∨ Operation.settle.Brings g) = came :=
      funext fun g => propext (or_iff_left id)
    rw [nothing]
    by_cases complete : (Progress.ofSet came).Complete p
    · exact .decided (hears.settle_complete complete) complete
    · cases hears with
      | ongoing gathers arrived =>
        rw [Blob.perform, gathers.settle_open complete]
        exact .ongoing gathers.refresh arrived
      | decided _ all => exact absurd all complete
  | addByteRange | applyHeaders | setPayload | touch => exact delivers.elim

/-- A fresh blob hears what the operations bring. -/
theorem hears_run (split : p.fragments size = .ok fs) (copy : Nat) (now : Millis)
    (delivers : ∀ op ∈ ops, op.Delivers fs) :
    ({ ofArrival p.key p.version now with copy }.run ops).1.Hears p now
      fun g => ∃ op ∈ ops, op.Brings g := by
  induction ops using List.reverseRecOn with
  | nil =>
    have nothing : (fun g => ∃ op ∈ ([] : List Operation), op.Brings g) = fun _ => False := by
      simp
    rw [nothing]
    refine .ongoing ?_ rfl
    rw [Progress.ofSet_none]
    exact gathers_ofArrival p p.told copy now
  | append_singleton ops op ih =>
    have before := ih fun o listed => delivers o (List.mem_append_left _ listed)
    have last := delivers op (List.mem_append_right _ List.mem_cons_self)
    rw [run_concat]
    have hears := before.perform split last
    simpa [or_and_right, exists_or] using hears

end Blob

/-! ### Publications that verify -/

open CommandLine (PublishArguments)

/-- A blob that is what the arguments of a publication say, as far as no property is given under a later
spelling of a name that publishing derives. -/
structure CommandLine.PublishArguments.Describes (a : PublishArguments) (payload : Bytes)
    (created : Millis) (s : Blob) : Prop where
  values : ∀ name, s.property? name =
    Properties.lastGiven? (a.objectProperties payload created).entries name
  decided : s.isTerminal = true
  verdict : s.status = .complete ↔ s.declaredMd5? = some (Digest.md5Hex payload)
  verified : a.Keeps Property.contentMd5 → s.status = .complete ∧ s.payload? = some payload
  start : a.Keeps Property.validFrom → s.validity.start = a.validFrom
  stop : ∀ u, a.validUntil = some u → a.Keeps Property.validUntil → s.validity.stop = u
  unbounded : a.validUntil = none → (∀ p ∈ a.properties, Text.sameName p.1 Property.validUntil = false) →
    s.validity.stop = Millis.unbounded
  creation : a.Keeps Property.created → s.created = created

namespace Blob

variable {a : PublishArguments} {payload : Bytes} {created now : Millis} {version : VersionId} {s : Blob}
  {fs : List Fragment} {size : Nat} {ops : List Operation}

/-- What is derived reaches the blob, unless a property comes under a later spelling. -/
theorem Received.derived {e : String × String}
    (received : s.Received (a.publication payload created version) now)
    (member : e ∈ a.derived payload created) (keeps : a.Keeps e.1) : s.property? e.1 = some e.2 := by
  rw [received.property?_eq]
  exact PublishArguments.lastGiven?_derived member keeps

theorem Received.describes (received : s.Received (a.publication payload created version) now)
    (bounded : a.Bounded) (bound : created ≤ Millis.unbounded) : a.Describes payload created s := by
  have declared : s.declaredMd5? = some (Digest.md5Hex payload) ↔
      (a.publication payload created version).told.Declare payload := by
    rw [declaredMd5?, property?, received.properties, Properties.Declare]
  have verdict : s.status = .complete ↔ s.declaredMd5? = some (Digest.md5Hex payload) := by
    rw [declared]
    refine ⟨fun complete => ?_, fun intact => (received.intact intact).1⟩
    by_contra corrupt
    simp [(received.corrupt corrupt).1] at complete
  have time {name : String} {n fallback : Millis} (fits : n ≤ Millis.unbounded)
      (member : (name, toString n) ∈ a.derived payload created) (keeps : a.Keeps name) :
      ((s.property? name).bind Millis.parse?).getD fallback = n :=
    received.time fits (PublishArguments.lastGiven?_derived member keeps) fallback
  have timed := received.timed
  constructor
  case values => exact received.property?_eq
  case decided => exact received.isTerminal
  case verdict => exact verdict
  case verified =>
    intro keeps
    have found := received.derived (e := (Property.contentMd5, Digest.md5Hex payload))
      (by simp [PublishArguments.derived]) keeps
    have same : s.declaredMd5? = some (Digest.md5Hex payload) := by
      rw [declaredMd5?, found, Option.map_some, Property.normalizeMd5_md5Hex]
    obtain ⟨complete, verified⟩ := received.intact (declared.mp same)
    refine ⟨complete, ?_⟩
    rw [payload?, verified]
    rfl
  case start =>
    intro keeps
    rw [← timed]
    exact time bounded.validFrom (by simp [PublishArguments.derived]) keeps
  case stop =>
    intro u given keeps
    rw [← timed]
    exact time (bounded.validUntil u given) (by simp [PublishArguments.derived, given]) keeps
  case unbounded =>
    intro unlimited ungiven
    have absent : s.property? Property.validUntil = none := by
      rw [received.property?_eq]
      have tells : (a.publication payload created version).properties =
          Table.ofList (a.properties ++ a.derived payload created) :=
        PublishArguments.objectProperties_eq a payload created
      rw [tells]
      refine Properties.lastGiven?_absent ?_ ungiven
      rw [PublishArguments.derived, unlimited]
      cases a.contentType <;> cases lastName? a.file <;> simp +decide
    rw [← timed]
    simp only [refresh, absent]
    rfl
  case creation =>
    intro keeps
    rw [← timed]
    exact time bound (by simp [PublishArguments.derived]) keeps

/-- Whatever arguments of a publication the command line accepts, and whatever the payload, the fragments
that the object is split into are all accepted, in any order and however often they come and settling is
tried. A fresh blob to which all of them have come is decided when it is settled, and it is what the
arguments say as far as they keep the names that publishing derives. -/
theorem published_describes {arguments : List String} {invocation : CommandLine.Invocation}
    (accepted : CommandLine.parse arguments = .ok invocation) (command : invocation.command = .publish a)
    (bound : created ≤ Millis.unbounded)
    (split : (a.publication payload created version).fragments size = .ok fs) (copy : Nat)
    (delivers : ∀ op ∈ ops, op.Delivers fs) (all : ∀ f ∈ fs, ∃ op ∈ ops, op.Brings f) :
    let b := { ofArrival a.key version now with copy }
    (∀ before f at_ after, before ++ .merge f at_ :: after = ops →
      ∃ b' n, (b.run before).1.merge f at_ = .ok (b', n)) ∧
    a.Describes payload created (b.run ops).1.settle.1 := by
  intro b
  have hears := hears_run split copy now delivers
  have own (f : Fragment) (came : ∃ op ∈ ops, op.Brings f) : f ∈ fs := by
    obtain ⟨op, listed, brings⟩ := came
    cases op with
    | merge g at_ =>
      obtain rfl : f = g := brings
      exact delivers _ listed
    | settle | addByteRange | applyHeaders | setPayload | touch => exact brings.elim
  have complete := (Progress.complete_ofSet_iff split own).mpr all
  refine ⟨?_, ?_⟩
  · rintro before f at_ after rfl
    have earlier := hears_run split copy now fun o listed => delivers o (List.mem_append_left _ listed)
    have member : f ∈ fs := delivers (.merge f at_) (by simp)
    obtain ⟨b', n, merged, _⟩ := earlier.merge (Publication.slice_of_mem_fragments split member) at_
    exact ⟨b', n, merged⟩
  · exact (hears.settle_complete complete).describes (CommandLine.bounded_of_parse accepted command) bound

/-- A publication that fits into one fragment for each section. -/
def sampleParts (p : Publication) : List Fragment :=
  [p.whole .metadata, p.whole .payload]

/-- The payload first, a settle that comes too early, and the metadata twice. -/
def sampleDelivery (p : Publication) : List Operation :=
  [.merge (p.whole .payload) 10, .settle, .merge (p.whole .metadata) 20, .merge (p.whole .metadata) 30]

def sampleReceived (p : Publication) : Blob :=
  ({ ofArrival p.key p.version 10 with copy := 3 }.run (sampleDelivery p)).1.settle.1

/-- Arguments with a property that comes before the checksum in the order of the names. -/
def sampleArguments : PublishArguments :=
  { file := "f", key := "k", validFrom := 5, validUntil := some 9,
    properties := [("run", "42"), ("CONTENT-MD5", "x")] }

def samplePublished : Publication :=
  sampleArguments.publication [97, 98, 99] 7 (.ofNumber 7)

theorem fragments_sampleParts {p : Publication} (nonempty : p.payload ≠ [])
    (short : ∀ kind, (p.bytes kind).length ≤ 1200) : p.fragments 1200 = .ok (sampleParts p) :=
  Publication.fragments_whole nonempty short fun kind =>
    Nat.le_trans (short kind) (by decide : 1200 ≤ Datagram.maxSectionSize)

theorem delivers_sampleDelivery (p : Publication) :
    (∀ op ∈ sampleDelivery p, op.Delivers (sampleParts p)) ∧
      ∀ f ∈ sampleParts p, ∃ op ∈ sampleDelivery p, op.Brings f := by
  simp [sampleDelivery, sampleParts, Operation.Delivers, Operation.Brings]

theorem published_describes_sample :
    CommandLine.parse ["publish", "f", "-k", "k", "--valid-from", "5", "--valid-until", "9", "-p", "run=42",
      "-p", "CONTENT-MD5=x"] = .ok ⟨.publish sampleArguments, false, .text⟩ ∧
    7 ≤ Millis.unbounded ∧ samplePublished.fragments 1200 = .ok (sampleParts samplePublished) ∧
    (∀ op ∈ sampleDelivery samplePublished, op.Delivers (sampleParts samplePublished)) ∧
    (∀ f ∈ sampleParts samplePublished, ∃ op ∈ sampleDelivery samplePublished, op.Brings f) ∧
    (sampleReceived samplePublished).status = .complete ∧
    (sampleReceived samplePublished).validity.start = 5 ∧
    (sampleReceived samplePublished).validity.stop = 9 ∧
    (sampleReceived samplePublished).created = 7 := by
  have accepted : CommandLine.parse ["publish", "f", "-k", "k", "--valid-from", "5", "--valid-until", "9", "-p",
    "run=42", "-p", "CONTENT-MD5=x"] = .ok ⟨.publish sampleArguments, false, .text⟩ := rfl
  have short (kind : Section) : (samplePublished.bytes kind).length ≤ 1200 := by
    cases kind <;> decide +kernel
  have split := fragments_sampleParts (p := samplePublished) (by decide) short
  obtain ⟨delivers, all⟩ := delivers_sampleDelivery samplePublished
  have describes : sampleArguments.Describes [97, 98, 99] 7 (sampleReceived samplePublished) :=
    (published_describes accepted rfl (by decide) split 3 delivers all).2
  obtain ⟨complete, payload⟩ := describes.verified (by decide +kernel)
  exact ⟨accepted, by decide, split, delivers, all, complete, describes.start (by decide +kernel),
    describes.stop 9 rfl (by decide +kernel), describes.creation (by decide +kernel)⟩

/-- Arguments with properties that come after the checksum and the end in the order of the names. -/
def sampleOverride : PublishArguments :=
  { file := "f", key := "k", properties := [("content-md5", "x"), ("valid-until", "5")] }

def sampleOverridden : Publication :=
  sampleOverride.publication [97, 98, 99] 7 (.ofNumber 7)

/-- An accepted publication that no receiver can verify, and that ends although it was given no end. -/
theorem published_overridden :
    CommandLine.parse ["publish", "f", "-k", "k", "-p", "content-md5=x", "-p", "valid-until=5"] =
      .ok ⟨.publish sampleOverride, false, .text⟩ ∧ sampleOverride.fault? = none ∧
    sampleOverridden.fragments 1200 = .ok (sampleParts sampleOverridden) ∧
    (∀ f ∈ sampleParts sampleOverridden, ∃ op ∈ sampleDelivery sampleOverridden, op.Brings f) ∧
    sampleOverride.validUntil = none ∧
    (sampleReceived sampleOverridden).status = .checksumInvalid ∧
    (sampleReceived sampleOverridden).validity.stop = 5 := by
  have short (kind : Section) : (sampleOverridden.bytes kind).length ≤ 1200 := by
    cases kind <;> decide +kernel
  refine ⟨rfl, by decide +kernel, fragments_sampleParts (by decide) short,
    (delivers_sampleDelivery sampleOverridden).2, rfl, ?_, ?_⟩
  · decide +kernel
  · decide +kernel

end Blob
end BlobReplica
