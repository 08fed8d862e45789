import BlobReplica.Proofs.Blob.Summary
import BlobReplica.Proofs.Node.Gate
import BlobReplica.Proofs.Recovery.Bounds

/-! A node whose accesses are all checked. How long a buffer is and where in it something is written
comes from the network: from the datagram at hand, from earlier ones, and from what the authority
answers. No run breaks off, and datagrams make no buffer that is longer than the intake allows. -/

namespace BlobReplica

namespace Intake

/-- `fragment` with every access checked, and with room for buffers of `room` bytes. -/
def fragment? (i : Intake) (n : Node) (room : Nat) (f : Fragment) (now : Millis) :
    Option (Node × Outcome) :=
  match n.cache.getOrCreate f.key f.version now with
  | .error _ => some (n, .ignored)
  | .ok (cache, b, _) =>
    let n := n.withCache cache
    if b.isTerminal then some (n, .ignored)
    else (b.merge? room f now).map fun
      | .error _ => (n, .rejected)
      | .ok (merged, _) => i.conclude n merged b.validity.start now

def datagram? (i : Intake) (n : Node) (d : Bytes) (now : Millis) : Option (Node × Outcome) :=
  (Datagram.decode? d i.maxPacketSize i.maxObjectSize).bind fun read =>
    let taken := match read with
      | .error _ => some (n, Outcome.malformed)
      | .ok f => i.fragment? n i.maxObjectSize f now
    taken.map fun (n, o) => ({ n with counters := n.counters.record o }, o)

end Intake

namespace Blob

variable {b b' : Blob} {f : Fragment} {now : Millis} {room filled size : Nat} {s : Section}

/-- The length of the buffer that a section has. -/
def sectionSize? (b : Blob) : Section → Option Nat
  | .metadata => b.metadata.map (·.length)
  | .payload => b.extent?

theorem sectionSize?_congr (metadata : b'.metadata = b.metadata) (payload : b'.payload = b.payload) :
    b'.sectionSize? = b.sectionSize? := by
  funext s
  cases s with
  | metadata => rw [sectionSize?, sectionSize?, metadata]
  | payload => rw [sectionSize?, sectionSize?, extent?, extent?, payload]

theorem sectionSize?_mergeMetadata (ran : b.mergeMetadata? room f = some (.ok (b', filled)))
    (made : b'.sectionSize? s = some size) :
    b.sectionSize? s = some size ∨ size = f.sectionLength.toNat := by
  rcases mergeMetadata?_eq_some ran with ⟨rfl, _⟩ | ⟨a, w, _, _, long, wrote, rfl⟩
  · exact .inl made
  · split at made
    next =>
      cases s with
      | metadata =>
        rw [sectionSize?, metadata_readMetadata] at made
        contradiction
      | payload =>
        have payload := (samePayload_readMetadata { b with metadata := some w } w.bytes).payload
        rw [sectionSize?, extent?, payload] at made
        exact .inl made
    next =>
      cases s with
      | metadata =>
        have same := (Assembly.length_of_write? wrote).trans long
        exact .inr ((Option.some.inj made).symm.trans same)
      | payload => exact .inl made

theorem sectionSize?_mergePayload (ran : b.mergePayload? room f = some (.ok (b', filled)))
    (made : b'.sectionSize? s = some size) :
    b.sectionSize? s = some size ∨ size = f.sectionLength.toNat := by
  rcases mergePayload?_eq_some ran with ⟨rfl, _⟩ | ⟨a, w, long, wrote, began⟩
  · exact .inl made
  · have written : b'.metadata = b.metadata ∧ b'.payload = .assembling w := by
      rcases began with ⟨_, rfl⟩ | ⟨_, _, rfl⟩ <;> exact ⟨rfl, rfl⟩
    cases s with
    | metadata =>
      rw [sectionSize?, written.1] at made
      exact .inl made
    | payload =>
      rw [sectionSize?, extent?, written.2] at made
      have same := (Assembly.length_of_write? wrote).trans long
      exact .inr ((Option.some.inj made).symm.trans same)

theorem sectionSize?_merge (ran : b.merge? room f now = some (.ok (b', filled)))
    (made : b'.sectionSize? s = some size) :
    b.sectionSize? s = some size ∨ size = f.sectionLength.toNat := by
  rcases merge?_eq_some ran with ⟨rfl, _⟩ | ⟨o, _, written, rfl⟩
  · exact .inl made
  · have begun : (o.touch now).begin.sectionSize? = o.sectionSize? := by
      rw [begin]
      split <;> exact sectionSize?_congr rfl rfl
    rw [begun] at made
    rw [mergeSection?] at written
    split at written
    next => exact sectionSize?_mergeMetadata written made
    next => exact sectionSize?_mergePayload written made

theorem Contained.sectionSize?_settle (contained : b.Contained)
    (kept : b.settle.1.sectionSize? s = some size) : b.sectionSize? s = some size := by
  have settles := b.settles
  generalize b.settle.1 = b' at settles kept
  cases s with
  | metadata => cases settles <;> exact kept
  | payload =>
    cases settles with
    | decided | lacking => exact kept
    | unreadable | wrong => cases kept
    | @right a isOpen held =>
      rw [sectionSize?, extent?, held]
      exact (congrArg some (contained.payload a held).size).symm.trans kept

end Blob

namespace Node

variable {n n' : Node} {b x : Blob} {c : Cache} {e : Event} {h : History} {i : Intake} {f : Fragment}
  {now grace : Millis} {o : Outcome} {room : Nat}

/-! ### Checked events -/

theorem Grown.fragment?_eq (grown : n.Grown) (i : Intake) (inside : f.WithinSection)
    (fits : f.sectionLength.toNat ≤ room) (now : Millis) :
    i.fragment? n room f now = some (i.fragment n f now) := by
  rw [Intake.fragment?, Intake.fragment]
  cases opened : n.cache.getOrCreate f.key f.version now with
  | error e => rfl
  | ok found =>
    obtain ⟨c, b, isNew⟩ := found
    obtain ⟨grown', stored⟩ := grown.insert (Blob.Arises.arrival f.key f.version now) opened
    have contained := (grown'.arises b (.inl stored)).contained
    simp only
    split
    next => rfl
    next =>
      rw [contained.merge?_eq inside fits]
      rfl

theorem Grown.datagram?_eq (grown : n.Grown) (i : Intake) (d : Bytes) (now : Millis) :
    i.datagram? n d now = some (i.datagram n d now) := by
  rw [Intake.datagram?, Datagram.decode?_eq, Option.bind_some, Intake.datagram]
  cases decoded : Datagram.decode d i.maxPacketSize i.maxObjectSize with
  | error e => rfl
  | ok f =>
    simp only
    rw [grown.fragment?_eq i (Datagram.withinSection_of_decode decoded)
      (Datagram.sectionLength_le_of_decode decoded), Option.map_some]

/-- What an event does with every access checked. -/
def perform? (n : Node) : Event → Option Node
  | .fragment i f now => (i.fragment? n UInt32.size f now).map (·.1)
  | .datagram i d now => (i.datagram? n d now).map (·.1)
  | .recover b response now => (Recovery.attempt? n b response now).map (·.1)
  | .operate b op => (b.perform? UInt32.size op).map fun done => n.update done.1
  | e => some (n.perform e)

/-- The node after some events, unless one of them breaks off. -/
def run? (n : Node) (events : List Event) : Option Node :=
  events.foldlM perform? n

theorem Grown.perform?_eq (grown : n.Grown) (permitted : Permits n e) :
    n.perform? e = some (n.perform e) := by
  cases e with
  | fragment i f now =>
    have fits : f.sectionLength.toNat ≤ UInt32.size := Nat.le_of_lt f.sectionLength.toNat_lt
    rw [Node.perform?, grown.fragment?_eq i permitted fits, Option.map_some]
    rfl
  | datagram i d now =>
    rw [Node.perform?, grown.datagram?_eq, Option.map_some]
    rfl
  | recover b response now =>
    rw [Node.perform?, Recovery.attempt?_eq permitted.2.contained, Option.map_some]
    rfl
  | operate b op =>
    obtain ⟨_, arises, proper⟩ := permitted
    rw [Node.perform?, arises.contained.perform?_eq proper, Option.map_some]
    rfl
  | sweep | poll | insert | insertObject | remove | discardInvalid | markInvalid | resort => rfl

theorem run?_concat (n : Node) (events : List Event) (e : Event) :
    n.run? (events ++ [e]) = (n.run? events).bind (perform? · e) := by
  have last (m : Node) : m.run? [e] = m.perform? e := bind_pure _
  rw [run?, List.foldlM_append]
  exact congrArg (Option.bind (n.run? events)) (funext last)

theorem run?_of_run (run : Run Permits (.empty grace) h n) :
    (empty grace).run? (h.map (·.2)) = some n := by
  induction run with
  | start => rfl
  | step run permitted ih =>
    rw [List.map_append, List.map_singleton, run?_concat, ih, Option.bind_some,
      (Grown.run run).perform?_eq permitted]

/-! ### Buffers that datagrams make -/

/-- Every buffer of the blob fits in the room or was there before. -/
def Roomy (n : Node) (room : Nat) (b : Blob) : Prop :=
  ∀ s size, b.sectionSize? s = some size →
    size ≤ room ∨ ∃ o, n.Holds o ∧ o.copy = b.copy ∧ o.sectionSize? s = some size

theorem roomy_of_holds (held : n.Holds b) (room : Nat) : n.Roomy room b :=
  fun _ _ made => .inr ⟨b, held, rfl, made⟩

theorem Grown.roomy_insert {key : String} {version : VersionId} {isNew : Bool} (grown : n.Grown)
    (opened : n.cache.getOrCreate key version now = .ok (c, x, isNew))
    (held : (n.withCache c).Holds b) (room : Nat) : n.Roomy room b := by
  obtain ⟨_, holds, _, origin⟩ := grown.toConsistent.insert opened
  rcases (holds b).mp held with former | rfl
  · exact roomy_of_holds former room
  · rcases origin with former | rfl
    · exact roomy_of_holds former room
    · intro s size made
      cases s <;> cases made

theorem Grown.roomy_takes (grown : n.Grown) (takes : i.Takes n f now n' o) (inside : f.WithinSection)
    (fits : f.sectionLength.toNat ≤ room) (held : n'.Holds b) : n.Roomy room b := by
  cases takes with
  | refused => exact roomy_of_holds held room
  | late opened | rejected opened => exact grown.roomy_insert opened held room
  | @merged c x m isNew filled _ _ opened isOpen merged concludes =>
    obtain ⟨grown', stored⟩ := grown.insert (Blob.Arises.arrival f.key f.version now) opened
    have same := (Blob.advances_merge merged).same_settle
    obtain ⟨updated, holds⟩ := grown'.toConsistent.update (grown'.single x (.inl stored)) same
    have narrows := concludes.narrows updated.cache
      (grown'.toConsistent.stores_update stored same)
    obtain ⟨former, held', rfl⟩ := (holds b).mp (narrows.fewer b held)
    rw [Cache.replaced]
    split
    next copy =>
      have arises := grown'.arises x (.inl stored)
      have ran := arises.contained.merge?_eq inside (Nat.le_of_lt f.sectionLength.toNat_lt) now
      rw [merged] at ran
      intro s size made
      have before := (arises.merge inside merged).contained.sectionSize?_settle made
      rcases Blob.sectionSize?_merge ran before with there | rfl
      · have roomy := grown.roomy_insert opened (.inl stored) room s size there
        refine roomy.imp_right ?_
        rintro ⟨y, held, copy, size⟩
        exact ⟨y, held, copy.trans same.copy.symm, size⟩
      · exact .inl fits
    next => exact grown.roomy_insert opened held' room

theorem Grown.roomy_datagram (grown : n.Grown) (i : Intake) (d : Bytes) (now : Millis)
    (held : (n.perform (.datagram i d now)).Holds b) : n.Roomy i.maxObjectSize b := by
  obtain ⟨counters, same | ⟨f, decoded, same⟩⟩ := i.datagram_cases n d now
  · rw [Node.perform, same] at held
    exact roomy_of_holds held _
  · rw [Node.perform, same] at held
    exact grown.roomy_takes (i.takes_fragment n f now) (Datagram.withinSection_of_decode decoded)
      (Datagram.sectionLength_le_of_decode decoded) held

/-- Whatever comes in over the network and whatever the authority answers: no access of a run leaves its
buffer, a fragment that is read lies inside its section, which is no longer than the intake allows, and so
is every buffer that a datagram makes. -/
theorem accesses_stay_inside (run : Run Permits (.empty grace) h n) :
    (empty grace).run? (h.map (·.2)) = some n ∧
    (∀ (i : Intake) d f, Datagram.decode d i.maxPacketSize i.maxObjectSize = .ok f →
      f.offset.toNat + f.data.length ≤ f.sectionLength.toNat ∧
        f.sectionLength.toNat ≤ i.maxObjectSize) ∧
    ∀ (i : Intake) d now b, (n.perform (.datagram i d now)).Holds b → n.Roomy i.maxObjectSize b :=
  ⟨run?_of_run run,
    fun _ _ _ decoded => ⟨Datagram.withinSection_of_decode decoded,
      Datagram.sectionLength_le_of_decode decoded⟩,
    fun i d now _ held => (Grown.run run).roomy_datagram i d now held⟩

def sampleDatagram : Bytes :=
  Datagram.body sampleFragment ++ Datagram.trailer (Datagram.body sampleFragment)

def sampleReached : Node :=
  (empty 10000).perform (.datagram {} sampleDatagram 10)

/-- A piece comes in a datagram, and the rest from the authority in a body with two parts. -/
theorem accesses_stay_inside_sample :
    Permits (empty 10000) (.datagram {} sampleDatagram 10) ∧
    Permits sampleReached (.recover sampleBlob (some sampleAnswer) 40) ∧
    (empty 10000).run? [.datagram {} sampleDatagram 10, .recover sampleBlob (some sampleAnswer) 40] =
      some (sampleReached.perform (.recover sampleBlob (some sampleAnswer) 40)) ∧
    sampleFragment.offset.toNat + sampleFragment.data.length ≤ sampleFragment.sectionLength.toNat := by
  have first : Permits (empty 10000) (.datagram {} sampleDatagram 10) := trivial
  have grown : sampleReached.Grown := Grown.run (.step .start first)
  have held : sampleReached.Holds sampleBlob :=
    .inl (grown.cache.stores_iff_find?.mpr (by decide +kernel))
  have second : Permits sampleReached (.recover sampleBlob (some sampleAnswer) 40) :=
    ⟨grown.single _ held, grown.arises _ held⟩
  obtain ⟨inside, read, _⟩ := accesses_stay_inside (.step (.step .start first) second)
  exact ⟨first, second, inside, (read {} sampleDatagram sampleFragment (by decide +kernel)).1⟩

end Node
end BlobReplica
