import BlobReplica.Proofs.Blob.Bounds
import BlobReplica.Proofs.Blob.Gate
import BlobReplica.Proofs.Blob.Life
import BlobReplica.Proofs.Recovery.Convergence
import BlobReplica.Proofs.Recovery.Steps

/-! What recovery asks for. The missing intervals of a blob are told by the pieces that have arrived,
whatever their bytes, so an attempt asks once and for what has not arrived. After an answer to a request
that leaves nothing open the blob is decided, and a version that is decided waits no longer. -/

namespace BlobReplica

namespace Assembly

variable {a : Assembly} {S : Nat → Prop} {offset : Nat} {data : Bytes}

/-- The positions of `S` have arrived, and no others. -/
structure Lacks (a : Assembly) (S : Nat → Prop) : Prop where
  canonical : a.missing.Canonical
  missing : ∀ i, i ∈ a.missing ↔ i < a.length ∧ ¬ S i

theorem lacks_ofLength (length : Nat) (none : ∀ i, ¬ S i) : (ofLength length).Lacks S where
  canonical := RangeSet.canonical_full length
  missing i := by simp [ofLength, none]

/-- A slice fills the positions that it covers, also where it was left out for bringing nothing new. -/
theorem Lacks.write (lacks : a.Lacks S) (offset : Nat) (data : Bytes) :
    (a.write offset data).1.Lacks
      fun i => S i ∨ (⟨offset, offset + data.length⟩ : ByteRange).Has i := by
  rw [Assembly.write]
  split
  next old =>
    have apart : ∀ i ∈ a.missing, ¬ (⟨offset, offset + data.length⟩ : ByteRange).Has i := by
      intro i listed has
      have solid : offset < offset + data.length := Nat.lt_of_le_of_lt has.1 has.2
      rcases old with rfl | apart
      · simp at solid
      · have meets := (RangeSet.intersects_iff lacks.canonical solid).mpr ⟨i, listed, has⟩
        simp [apart] at meets
    refine ⟨lacks.canonical, fun i => ?_⟩
    rw [not_or, ← and_assoc, ← lacks.missing]
    exact (and_iff_left_of_imp (apart i)).symm
  next =>
    refine ⟨lacks.canonical.remove _, fun i => ?_⟩
    rw [not_or, ← and_assoc, ← lacks.missing]
    exact RangeSet.mem_remove

theorem Lacks.covered_write (lacks : a.Lacks S) (offset : Nat) (data : Bytes) :
    a.missing.covered ≤ (a.write offset data).1.missing.covered + data.length := by
  have count := write_count lacks.canonical offset data
  have filled : (a.write offset data).2 ≤ data.length := by
    simp only [Assembly.write]
    split
    next => exact Nat.zero_le _
    next =>
      refine (RangeSet.remove_le lacks.canonical (fun i listed => ((lacks.missing i).mp listed).1)
        _).trans ?_
      simp only
      omega
  omega

end Assembly

namespace Blob

variable {b b' o : Blob} {g : Progress} {f : Fragment} {op : Operation} {now : Millis} {filled : Nat}
  {h : History}

/-- All that is done to a blob but bringing a whole payload. -/
def Operation.Piecewise : Operation → Prop
  | .setPayload _ _ => False
  | _ => True

instance : (op : Operation) → Decidable op.Piecewise
  | .setPayload _ _ => .isFalse id
  | .merge _ _ | .addByteRange _ _ _ | .applyHeaders _ _ | .touch _ | .settle => .isTrue trivial

/-- The payload of a blob lacks what has not arrived. Its length is what the first fragment told. -/
structure Lacks (b : Blob) (g : Progress) : Prop where
  unknown : ¬ g.begun → b.payload = .unknown ∧ b.size = none ∧ ∀ i, ¬ g.payload i
  assembling : g.begun → ∃ a, b.payload = .assembling a ∧ b.size = some a.length ∧
    a.length < 2 ^ 32 ∧ a.Lacks g.payload

theorem lacks_ofArrival (key : String) (version : VersionId) (copy : Nat) (now : Millis) :
    ({ ofArrival key version now with copy } : Blob).Lacks .start where
  unknown _ := ⟨rfl, rfl, fun _ => id⟩
  assembling := False.elim

theorem Lacks.frame (lacks : b.Lacks g) (same : b.SamePayload b') : b'.Lacks g where
  unknown unbegun := by
    obtain ⟨payload, size, none⟩ := lacks.unknown unbegun
    exact ⟨same.payload.trans payload, same.size.trans size, none⟩
  assembling begun := by
    obtain ⟨a, payload, size, rest⟩ := lacks.assembling begun
    exact ⟨a, same.payload.trans payload, same.size.trans size, rest⟩

theorem Lacks.mergePayload (lacks : b.Lacks g) (kind : f.sectionKind = .payload)
    (merged : b.mergePayload f = .ok (b', filled)) : b'.Lacks (g.add f) := by
  rw [Progress.add, kind]
  refine ⟨fun unbegun => absurd trivial unbegun, fun _ => ?_⟩
  by_cases begun : g.begun
  · obtain ⟨a, payload, size, bound, lacks⟩ := lacks.assembling begun
    simp only [Blob.mergePayload, payload, reduceCtorEq, if_false] at merged
    split at merged
    next => contradiction
    next =>
      cases merged
      rw [← Assembly.length_write a f.offset.toNat f.data] at size bound
      exact ⟨_, rfl, size, bound, lacks.write f.offset.toNat f.data⟩
  · obtain ⟨payload, _, none⟩ := lacks.unknown begun
    have fits : (Assembly.ofLength f.sectionLength.toNat).length = f.sectionLength.toNat := rfl
    simp only [Blob.mergePayload, payload, if_true, fits, ne_eq, not_true_eq_false, if_false] at merged
    cases merged
    have length := Assembly.length_write (.ofLength f.sectionLength.toNat) f.offset.toNat f.data
    exact ⟨_, rfl, congrArg some length.symm, length ▸ f.sectionLength.toNat_lt,
      (Assembly.lacks_ofLength _ none).write f.offset.toNat f.data⟩

theorem Lacks.merge (lacks : b.Lacks g) (isOpen : b.isTerminal = false)
    (merged : b.merge f now = .ok (b', filled)) : b'.Lacks (g.add f) := by
  obtain ⟨o, written, rfl⟩ := merge_open isOpen merged
  refine Lacks.frame ?_ (samePayload_begin o now)
  rw [mergeSection] at written
  cases kind : f.sectionKind with
  | metadata =>
    rw [kind] at written
    rw [Progress.add, kind]
    have kept := lacks.frame (samePayload_mergeMetadata written)
    exact ⟨kept.unknown, kept.assembling⟩
  | payload =>
    rw [kind] at written
    exact lacks.mergePayload kind written

theorem Lacks.addByteRange {offset : Nat} {data : Bytes} (lacks : b.Lacks g)
    (isOpen : b.isTerminal = false) (added : b.addByteRange offset data now = .ok (b', filled)) :
    b'.Lacks (g.supply ⟨offset, offset + data.length⟩) := by
  rw [Blob.addByteRange, if_neg (by simp [isOpen])] at added
  by_cases begun : g.begun
  · refine ⟨fun unbegun => absurd begun unbegun, fun _ => ?_⟩
    obtain ⟨a, payload, size, bound, lacks⟩ := lacks.assembling begun
    simp only [payload] at added
    split at added
    next => contradiction
    next =>
      cases added
      rw [← Assembly.length_write a offset data] at size bound
      exact ⟨_, rfl, size, bound, lacks.write offset data⟩
  · simp [(lacks.unknown begun).1] at added

theorem samePayload_settle (isOpen : b.settle.1.isTerminal = false) : b.SamePayload b.settle.1 := by
  have settles := b.settles
  generalize b.settle.1 = b' at settles isOpen ⊢
  cases settles with
  | decided => exact .refl b
  | lacking => exact ⟨rfl, rfl⟩
  | unreadable | wrong | right => contradiction

theorem Lacks.perform (lacks : b.Lacks g) (piecewise : op.Piecewise)
    (isOpen : (b.perform op).1.isTerminal = false) :
    (b.perform op).1.Lacks (g.after (op, (b.perform op).2)) := by
  have still : b.isTerminal = false := by
    refine Bool.eq_false_iff.mpr fun decided => ?_
    simp [isTerminal_perform decided op] at isOpen
  cases op with
  | merge f now =>
    rw [Blob.perform]
    cases merged : b.merge f now with
    | error e => exact lacks
    | ok written => exact lacks.merge still merged
  | addByteRange offset data now =>
    rw [Blob.perform]
    cases added : b.addByteRange offset data now with
    | error e => exact lacks
    | ok written => exact lacks.addByteRange still added
  | applyHeaders headers now => exact lacks.frame (headed_applyHeaders still headers now).2
  | setPayload => exact piecewise.elim
  | touch now => exact lacks.frame ⟨rfl, rfl⟩
  | settle => exact lacks.frame (samePayload_settle isOpen)

/-- As long as a blob is open, it lacks just what its pieces have not brought. -/
theorem lacks_run {key : String} {version : VersionId} {copy : Nat} {ops : List Operation}
    (piecewise : ∀ op ∈ ops, op.Piecewise)
    (ran : ({ ofArrival key version now with copy } : Blob).run ops = (b, h))
    (isOpen : b.isTerminal = false) : b.Lacks h.progress := by
  induction ops using List.reverseRecOn generalizing b h with
  | nil =>
    cases ran
    exact lacks_ofArrival key version copy now
  | append_singleton ops op ih =>
    rw [run_concat] at ran
    cases ran
    have still : (({ ofArrival key version now with copy } : Blob).run ops).1.isTerminal = false := by
      refine Bool.eq_false_iff.mpr fun decided => ?_
      simp [isTerminal_perform decided op] at isOpen
    rw [History.progress_concat]
    exact (ih (fun o listed => piecewise o (List.mem_append_left _ listed)) rfl still).perform
      (piecewise op (by simp)) isOpen

theorem isTerminal_settle {a : Assembly} (payload : b.payload = .assembling a)
    (complete : a.isComplete = true) (headed : b.headersRecovered = true) :
    b.settle.1.isTerminal = true := by
  have ready : (a.isComplete && b.refresh.metadataComplete) = true := by
    have told : b.refresh.headersRecovered = true := headed
    rw [complete, Blob.metadataComplete, told, Bool.or_true, Bool.and_true]
  have held : b.refresh.payload = .assembling a := payload
  rw [Blob.settle]
  split
  next decided => exact decided
  next =>
    split
    next => rfl
    next =>
      simp only [held, ready, if_true]
      split <;> rfl

end Blob

namespace Recovery

variable {b m : Blob} {g : Progress} {n : Node} {request : FetchRequest} {r : FetchResponse}
  {response : Option FetchResponse} {now : Millis}

/-- What is asked of the authority by what has arrived: everything as long as the length is unknown, the
headers if no byte is missing, and else the missing bytes, from the first to the last and each once. -/
inductive Seeks (b : Blob) (g : Progress) : FetchRequest → Prop where
  | full (unknown : b.size = none) (unbegun : ¬ g.begun) : Seeks b g .full
  | head {size : Nat} (known : b.size = some size) (all : ∀ i < size, g.payload i) : Seeks b g .head
  | ranges {size : Nat} {ranges : List ByteRange} (known : b.size = some size)
      (nonempty : ranges ≠ []) (solid : ∀ r ∈ ranges, r.start < r.stop)
      (apart : ranges.Pairwise fun r s => r.stop < s.start)
      (covers : ∀ i, (∃ r ∈ ranges, r.Has i) ↔ i < size ∧ ¬ g.payload i)
      (read : Http.RangeRequest.parse (some (FetchRequest.rangeHeader ranges)) size =
        .slices (ranges.map fun r => (r.start, r.stop - 1))) : Seeks b g (.ranges ranges)

theorem seeks_request (lacks : b.Lacks g) (asked : request? b = some request) :
    Seeks b g request := by
  by_cases begun : g.begun
  · obtain ⟨a, payload, size, bound, lacks⟩ := lacks.assembling begun
    have listed : b.missingRanges = some a.missing.ranges := by rw [Blob.missingRanges, payload]
    rcases request?_cases asked with ⟨none, _⟩ | ⟨nothing, rfl⟩ | ⟨ranges, nonempty, some_, rfl⟩
    · simp [listed] at none
    · refine .head size fun i below => ?_
      by_contra absent
      have member := (lacks.missing i).mpr ⟨below, absent⟩
      rw [RangeSet.mem_iff, Option.some.inj (listed.symm.trans nothing)] at member
      simp at member
    · obtain rfl : a.missing.ranges = ranges := Option.some.inj (listed.symm.trans some_)
      have solid := lacks.canonical.nonempty
      have inside : ∀ r ∈ a.missing.ranges, r.stop ≤ a.length := by
        intro r member
        have last := (lacks.missing (r.stop - 1)).mp
          ⟨r, member, Nat.le_sub_one_of_lt (solid r member), Nat.sub_one_lt_of_lt (solid r member)⟩
        omega
      have fits : a.length ≤ Text.maxWord := Nat.le_trans bound.le (by decide)
      exact .ranges size nonempty solid lacks.canonical.apart lacks.missing
        (Http.RangeRequest.parse_rangeHeader nonempty solid inside fits)
  · obtain ⟨payload, size, _⟩ := lacks.unknown begun
    have unknown : b.missingRanges = none := by rw [Blob.missingRanges, payload]
    rcases request?_cases asked with ⟨_, rfl⟩ | ⟨nothing, _⟩ | ⟨ranges, _, some_, _⟩
    · exact .full size begun
    · simp [unknown] at nothing
    · simp [unknown] at some_

/-! ### Answers -/

/-- An answer to a request for everything or for the headers leaves nothing to come. -/
theorem isTerminal_apply (lacks : b.Lacks g) (asked : request? b = some request)
    (alone : request = .full ∨ request = .head) (answered : r.status = 200) (now : Millis) :
    ∃ m, apply b request r now = (m, none) ∧ m.settle.1.isTerminal = true := by
  have isOpen := isOpen_of_request? asked
  obtain ⟨headed, same⟩ := Blob.headed_applyHeaders isOpen (recoveredProperties r.headers) now
  have still : (b.applyHeaders (recoveredProperties r.headers) now).isTerminal = false :=
    (Blob.advances_applyHeaders b _ now).isTerminal.trans isOpen
  rcases alone with rfl | rfl
  · refine ⟨_, if_neg (not_not.mpr answered), ?_⟩
    rw [Blob.setPayload, if_neg (by simp [still])]
    exact Blob.isTerminal_settle rfl (a := .ofBytes r.body) rfl headed
  · refine ⟨_, if_neg (not_not.mpr answered), ?_⟩
    rcases request?_cases asked with ⟨_, other⟩ | ⟨nothing, _⟩ | ⟨_, _, _, other⟩
    · contradiction
    · by_cases begun : g.begun
      · obtain ⟨a, payload, _⟩ := lacks.assembling begun
        rw [Blob.missingRanges, payload] at nothing
        have complete : a.isComplete = true := List.isEmpty_iff.mpr (Option.some.inj nothing)
        exact Blob.isTerminal_settle (same.payload.trans payload) complete headed
      · rw [Blob.missingRanges, (lacks.unknown begun).1] at nothing
        contradiction
    · contradiction

/-- One attempt with an authority that keeps a state of its own, and the requests that are made. -/
def attemptWith {σ : Type} (authority : σ → VersionId → FetchRequest → σ × Option FetchResponse)
    (s : σ) (n : Node) (b : Blob) (now : Millis) :
    σ × List (VersionId × FetchRequest) × Node × Blob × Achievement :=
  match request? b with
  | none => (s, [], attempt n b none now)
  | some request =>
    let (s, response) := authority s b.version request
    (s, [(b.version, request)], attempt n b response now)

theorem drainWith_succ {σ : Type}
    (authority : σ → VersionId → FetchRequest → σ × Option FetchResponse) (now : Millis) (fuel : Nat)
    (s : σ) (n : Node) (requests : List (VersionId × FetchRequest)) :
    drainWith authority now (fuel + 1) s n requests =
      match n.queue.poll now with
      | (queue, .ready b) =>
        let (s, made, n, _) := attemptWith authority s { n with queue } b now
        drainWith authority now fuel s n (made.reverse ++ requests)
      | (queue, _) => ({ n with queue }, requests.reverse) := by
  rw [drainWith]
  obtain ⟨queue, due⟩ := n.queue.poll now
  cases due with
  | ready b =>
    simp only [attemptWith]
    cases request? b <;> rfl
  | wait | empty => rfl

/-- An attempt with an answer that leaves nothing open decides the blob. -/
theorem decided_attempt (asked : request? b = some request) (applied : apply b request r now = (m, none))
    (decided : m.settle.1.isTerminal = true) (n : Node) :
    (attempt n b (some r) now).2.1.isTerminal = true ∧
      ((attempt n b (some r) now).2.2 = .completed ∨ (attempt n b (some r) now).2.2 = .invalid) := by
  simp only [attempt, asked, applied]
  rcases Blob.isTerminal_iff.mp decided with complete | corrupt
  · simp only [complete]
    exact ⟨decided, .inl trivial⟩
  · simp only [corrupt]
    exact ⟨decided, .inr trivial⟩

theorem Attempts.unqueued {n' : Node} {b' : Blob} {a : Achievement}
    (attempts : Attempts n b response now n' b' a) (decided : a = .completed ∨ a = .invalid) :
    n'.queue.contains b.version = false := by
  have gone (q : Queue) : (q.remove b.version).1.contains b.version = false :=
    Bool.eq_false_iff.mpr fun queued => (Queue.contains_remove.mp queued).2 rfl
  cases attempts with
  | alreadyCorrupt => exact gone n.queue
  | completed _ _ applied | corrupt _ _ applied =>
    have version := (receives_of_apply applied).advances.same_settle.version
    exact version ▸ gone _
  | alreadyComplete | unanswered | broken | incomplete => simp at decided

/-- An attempt for an open blob that has grown by fragments, ranges and headers makes one request, for
just what has not arrived, and an answer with status 200 to a request for everything or for the headers
decides the blob. Whatever blob an attempt is for, no ticket for its version is left once it is completed
or invalid. -/
theorem attempt_seeks {σ : Type}
    (authority : σ → VersionId → FetchRequest → σ × Option FetchResponse) {key : String}
    {version : VersionId} {copy : Nat} {opened : Millis} {ops : List Blob.Operation} {h : Blob.History}
    (ran : ({ Blob.ofArrival key version opened with copy } : Blob).run ops = (b, h))
    (piecewise : ∀ op ∈ ops, op.Piecewise) (isOpen : b.isTerminal = false) :
    (∃ request, Seeks b h.progress request ∧
      (∀ s n now, attemptWith authority s n b now =
        ((authority s b.version request).1, [(b.version, request)],
          attempt n b (authority s b.version request).2 now)) ∧
      (request = .full ∨ request = .head → ∀ (n : Node) r now, r.status = 200 →
        (attempt n b (some r) now).2.1.isTerminal = true ∧
          ((attempt n b (some r) now).2.2 = .completed ∨
            (attempt n b (some r) now).2.2 = .invalid))) ∧
    ∀ (n : Node) (x : Blob) response now, (attempt n x response now).2.2 = .completed ∨
      (attempt n x response now).2.2 = .invalid →
        (attempt n x response now).1.queue.contains x.version = false := by
  have lacks := Blob.lacks_run piecewise ran isOpen
  obtain ⟨request, asked⟩ := exists_request isOpen
  refine ⟨⟨request, seeks_request lacks asked, fun s n now => ?_, fun alone n r now answered => ?_⟩,
    fun n x response now => (attempts_attempt n x response now).unqueued⟩
  · simp only [attemptWith, asked]
  · obtain ⟨m, applied, decided⟩ := isTerminal_apply lacks asked alone answered now
    exact decided_attempt asked applied decided n

/-- A blob of which the middle byte has arrived asks for the two others. -/
theorem attempt_seeks_sample :
    (Blob.ofArrival "k" (.ofNumber 7) 30).run samplePieces = sampleReplica ∧
    (∀ op ∈ samplePieces, op.Piecewise) ∧ sampleReplica.1.isTerminal = false ∧
    Seeks sampleReplica.1 sampleReplica.2.progress (.ranges [⟨0, 1⟩, ⟨2, 3⟩]) ∧
    (attemptWith (fun (s : Unit) _ _ => (s, none)) () (.empty 10) sampleReplica.1 40).2.1 =
      [(.ofNumber 7, .ranges [⟨0, 1⟩, ⟨2, 3⟩])] := by
  have piecewise : ∀ op ∈ samplePieces, op.Piecewise := by decide
  have isOpen : sampleReplica.1.isTerminal = false := by decide +kernel
  let silent : Unit → VersionId → FetchRequest → Unit × Option FetchResponse := fun s _ _ => (s, none)
  have ran : ({ Blob.ofArrival "k" (.ofNumber 7) 30 with copy := 0 } : Blob).run samplePieces =
      (sampleReplica.1, sampleReplica.2) := rfl
  obtain ⟨⟨request, seeks, made, _⟩, _⟩ := attempt_seeks silent ran piecewise isOpen
  have evaluated : (attemptWith silent () (.empty 10) sampleReplica.1 40).2.1 =
      [(.ofNumber 7, .ranges [⟨0, 1⟩, ⟨2, 3⟩])] := by
    decide +kernel
  have told := congrArg (·.2.1) (made () (.empty 10) 40)
  obtain ⟨_, rfl⟩ : _ ∧ request = .ranges [⟨0, 1⟩, ⟨2, 3⟩] := by
    simpa using told.symm.trans evaluated
  exact ⟨rfl, piecewise, isOpen, seeks, evaluated⟩

end Recovery
end BlobReplica
