import BlobReplica.Proofs.Blob.Identity
import BlobReplica.Proofs.Blob.Progress

/-! Runs of operations on one blob, and what their answers add up to when every slice is a true
slice of one publication. The slices may come from the network and from the authority, overlap
and repeat in any order. -/

namespace BlobReplica

open Fragment (Publication)

namespace Blob

/-- What is done to a blob. -/
inductive Operation where
  | merge (f : Fragment) (now : Millis)
  | addByteRange (offset : Nat) (data : Bytes) (now : Millis)
  | applyHeaders (headers : List (String × String)) (now : Millis)
  | setPayload (body : Bytes) (now : Millis)
  | touch (now : Millis)
  | settle

/-- What an operation tells. -/
inductive Reply where
  | wrote (filled : Except Error Nat)
  | settled (verdict : String) (decided : Bool)
  | nothing

/-- The result of writing a slice; a refused slice changes nothing. -/
def wrote (b : Blob) : Except Error (Blob × Nat) → Blob × Reply
  | .ok (b', filled) => (b', .wrote (.ok filled))
  | .error e => (b, .wrote (.error e))

def perform (b : Blob) : Operation → Blob × Reply
  | .merge f now => b.wrote (b.merge f now)
  | .addByteRange offset data now => b.wrote (b.addByteRange offset data now)
  | .applyHeaders headers now => (b.applyHeaders headers now, .nothing)
  | .setPayload body now => (b.setPayload body now, .nothing)
  | .touch now => (b.touch now, .nothing)
  | .settle => (b.settle.1, .settled b.settle.1.status.completeness b.settle.2)

theorem perform_decided {b : Blob} (decided : b.isTerminal = true) (op : Operation) :
    (b.perform op).1 = b ∨ ∃ now, op = .touch now := by
  cases op with
  | merge f now =>
    refine .inl ?_
    rw [perform, merge]
    split <;> rfl
  | addByteRange offset data now =>
    refine .inl ?_
    rw [perform, addByteRange, if_pos decided, wrote]
  | applyHeaders headers now => exact .inl (if_pos decided)
  | setPayload body now => exact .inl (if_pos decided)
  | touch now => exact .inr ⟨now, rfl⟩
  | settle => exact .inl (by rw [perform, settle, if_pos decided])

/-- None but settling decides a blob. -/
theorem advances_perform {op : Operation} (b : Blob) (other : op ≠ .settle) :
    b.Advances (b.perform op).1 := by
  cases op with
  | merge f now =>
    rw [perform]
    cases merged : b.merge f now with
    | error e => exact .refl b
    | ok result => exact advances_merge merged
  | addByteRange offset data now =>
    rw [perform]
    cases added : b.addByteRange offset data now with
    | error e => exact .refl b
    | ok result => exact advances_addByteRange added
  | applyHeaders headers now => exact advances_applyHeaders b headers now
  | setPayload body now => exact advances_setPayload b body now
  | touch now => exact advances_touch b now
  | settle => contradiction

theorem same_perform (b : Blob) (op : Operation) : b.Same (b.perform op).1 := by
  cases op with
  | settle => exact same_settle b
  | merge | addByteRange | applyHeaders | setPayload | touch =>
    exact (advances_perform b (by simp)).toSame

/-- Operations with what they told, the first one first. -/
abbrev History := List (Operation × Reply)

def run (b : Blob) (ops : List Operation) : Blob × History :=
  ops.foldl (fun s op => ((s.1.perform op).1, s.2 ++ [(op, (s.1.perform op).2)])) (b, [])

theorem run_concat (b : Blob) (ops : List Operation) (op : Operation) :
    b.run (ops ++ [op]) = (((b.run ops).1.perform op).1,
      (b.run ops).2 ++ [(op, ((b.run ops).1.perform op).2)]) := by
  rw [run, List.foldl_append]
  rfl

/-- A fragment or a range with the publication's own bytes, or an attempt to decide. -/
def Operation.TrueTo (p : Publication) : Operation → Prop
  | .merge f _ => f.SliceOf p
  | .addByteRange offset data _ => offset + data.length ≤ p.payload.length ∧
      data = p.payload.slice offset (offset + data.length)
  | .settle => True
  | _ => False

instance (p : Publication) : (op : Operation) → Decidable (op.TrueTo p)
  | .merge f _ => inferInstanceAs (Decidable (f.SliceOf p))
  | .addByteRange _ _ _ => inferInstanceAs (Decidable (_ ∧ _))
  | .settle => .isTrue trivial
  | .applyHeaders _ _ | .setPayload _ _ | .touch _ => .isFalse id

end Blob

/-- The progress after one more operation, going by what it told. -/
def Progress.after (g : Progress) : Blob.Operation × Blob.Reply → Progress
  | (.merge f _, .wrote (.ok _)) => g.add f
  | (.addByteRange offset data _, .wrote (.ok _)) => g.supply ⟨offset, offset + data.length⟩
  | _ => g

namespace Blob.History

variable {h : History} {p : Publication} {op : Operation} {reply : Reply}

def progress (h : History) : Progress :=
  h.foldl Progress.after .start

/-- How many payload positions an operation said it covered first. -/
def covered : Operation × Reply → Nat
  | (.merge f _, .wrote (.ok filled)) => if f.sectionKind = .payload then filled else 0
  | (.addByteRange _ _ _, .wrote (.ok filled)) => filled
  | _ => 0

def filled (h : History) : Nat :=
  (h.map covered).sum

/-- An attempt to decide came when nothing of the publication was missing. -/
def Settled (h : History) (p : Publication) : Prop :=
  ∃ (before rest : History) (reply : Reply),
    h = before ++ (.settle, reply) :: rest ∧ before.progress.Complete p

theorem progress_concat (h : History) (e : Operation × Reply) :
    progress (h ++ [e]) = h.progress.after e := by
  rw [progress, List.foldl_append]
  rfl

theorem filled_concat (h : History) (e : Operation × Reply) :
    filled (h ++ [e]) = h.filled + covered e := by
  simp [filled]

theorem settled_concat :
    Settled (h ++ [(op, reply)]) p ↔ h.Settled p ∨ (op = .settle ∧ h.progress.Complete p) := by
  constructor
  · rintro ⟨before, rest, told, split, complete⟩
    rcases List.eq_nil_or_concat rest with rfl | ⟨rest, last, rfl⟩
    · obtain ⟨rfl, same⟩ := List.append_inj' split rfl
      simp only [List.cons.injEq, Prod.mk.injEq] at same
      exact .inr ⟨same.1.1, complete⟩
    · rw [List.concat_eq_append, ← List.cons_append, ← List.append_assoc] at split
      exact .inl ⟨before, rest, told, (List.append_inj' split rfl).1, complete⟩
  · rintro (⟨before, rest, told, rfl, complete⟩ | ⟨rfl, complete⟩)
    · exact ⟨before, rest ++ [(op, reply)], told, by simp, complete⟩
    · exact ⟨h, [], reply, rfl, complete⟩

end Blob.History

namespace Progress

variable {g : Progress} {p : Publication}

theorem Complete.after (complete : g.Complete p) (e : Blob.Operation × Blob.Reply) :
    (g.after e).Complete p := by
  unfold Progress.after
  split
  · exact complete.add _
  · exact complete.supply _
  · exact complete

end Progress

namespace Blob

variable {b : Blob} {p : Publication} {told : Properties} {g : Progress} {h : History} {op : Operation}

/-- How far a blob is that has taken in true slices: open and following the accepted ones, or
decided since a settle that found nothing missing. -/
inductive Stage (b : Blob) (p : Publication) (h : History) : Prop where
  | ongoing (tracks : b.Tracks p h.progress) (filled : h.filled = (h.progress.arrived p).card)
      (unsettled : ¬ h.Settled p) : Stage b p h
  | decided (decides : b.Decides p) (settled : h.Settled p) (complete : h.progress.Complete p) :
      Stage b p h

theorem stage_ofArrival (p : Publication) (copy : Nat) (now : Millis) :
    { ofArrival p.key p.version now with copy }.Stage p [] := by
  refine .ongoing (tracks_ofArrival p copy now) ?_ ?_
  · simp [History.filled, History.progress, Progress.arrived_start]
  · rintro ⟨before, rest, told, split, _⟩
    simp at split

theorem Stage.proceed {e : Operation × Reply} {g : Progress} (tracks : b.Tracks p g)
    (after : h.progress.after e = g)
    (counted : h.filled + History.covered e = (g.arrived p).card) (unsettled : ¬ h.Settled p)
    (proceeds : ¬ (e.1 = .settle ∧ h.progress.Complete p)) : b.Stage p (h ++ [e]) := by
  subst after
  refine .ongoing ?_ ?_ ?_
  · rw [History.progress_concat]
    exact tracks
  · rw [History.filled_concat, History.progress_concat]
    exact counted
  · rw [History.settled_concat]
    exact fun settled => settled.elim unsettled proceeds

/-- What one operation does to an open blob. -/
theorem Stage.step_open (distinct : p.properties.DistinctNames) (slice : op.TrueTo p)
    (tracks : b.Tracks p h.progress) (filled : h.filled = (h.progress.arrived p).card)
    (unsettled : ¬ h.Settled p) :
    (b.perform op).1.Stage p (h ++ [(op, (b.perform op).2)]) := by
  cases op with
  | merge f now =>
    obtain ⟨b', n, merged, tracks', count⟩ := tracks.merge distinct slice now
    simp only [perform, merged, wrote]
    refine .proceed tracks' rfl ?_ unsettled (by simp)
    cases kind : f.sectionKind with
    | metadata =>
      rw [Progress.arrived_add_metadata kind]
      simp [History.covered, kind, filled]
    | payload =>
      have := count kind
      simp only [History.covered, kind, if_true]
      omega
  | addByteRange offset data now =>
    obtain ⟨inside, same⟩ := slice
    by_cases begun : h.progress.begun
    · obtain ⟨b', n, added, tracks', count⟩ := tracks.addByteRange begun inside same now
      simp only [perform, added, wrote]
      refine .proceed tracks' rfl ?_ unsettled (by simp)
      simp only [History.covered]
      omega
    · simp only [perform, tracks.addByteRange_unknown begun, wrote]
      exact .proceed tracks rfl filled unsettled (by simp)
  | settle =>
    by_cases complete : h.progress.Complete p
    · refine .decided (tracks.settle_complete complete).2 ?_ ?_
      · exact History.settled_concat.mpr (.inr ⟨rfl, complete⟩)
      · rw [History.progress_concat]
        exact complete.after _
    · simp only [perform, tracks.settle_open complete]
      exact .proceed tracks.refresh rfl filled unsettled fun settled => complete settled.2
  | applyHeaders | setPayload | touch => exact slice.elim

/-- Nothing changes a decided blob. -/
theorem Decides.perform (decides : b.Decides p) (slice : op.TrueTo p) :
    (b.perform op).1 = b := by
  rcases perform_decided decides.isTerminal op with same | ⟨now, rfl⟩
  · exact same
  · exact slice.elim

theorem Stage.step (stage : b.Stage p h) (distinct : p.properties.DistinctNames)
    (slice : op.TrueTo p) : (b.perform op).1.Stage p (h ++ [(op, (b.perform op).2)]) := by
  cases stage with
  | ongoing tracks filled unsettled => exact Stage.step_open distinct slice tracks filled unsettled
  | decided decides settled complete =>
    rw [decides.perform slice]
    refine .decided decides (History.settled_concat.mpr (.inl settled)) ?_
    rw [History.progress_concat]
    exact complete.after _

/-- Blobs that true slices of a publication lead to, and how they were taken in. -/
def GrownFrom (p : Publication) (b : Blob) (h : History) : Prop :=
  ∃ (copy : Nat) (now : Millis) (ops : List Operation), (∀ op ∈ ops, op.TrueTo p) ∧
    { ofArrival p.key p.version now with copy }.run ops = (b, h)

theorem stage_run (distinct : p.properties.DistinctNames) (grown : GrownFrom p b h) :
    b.Stage p h := by
  obtain ⟨copy, now, ops, slices, ran⟩ := grown
  induction ops using List.reverseRecOn generalizing b h with
  | nil =>
    obtain ⟨rfl, rfl⟩ := Prod.mk.inj ran
    exact stage_ofArrival p copy now
  | append_singleton ops op ih =>
    rw [run_concat] at ran
    obtain ⟨rfl, rfl⟩ := Prod.mk.inj ran
    exact (ih (fun o member => slices o (by simp [member])) rfl).step distinct (slices op (by simp))

theorem mem_run {ops : List Operation} {e : Operation × Reply} (listed : e ∈ (b.run ops).2) :
    e.1 ∈ ops := by
  induction ops using List.reverseRecOn with
  | nil => contradiction
  | append_singleton ops op ih =>
    rw [run_concat] at listed
    rcases List.mem_append.mp listed with earlier | last
    · exact List.mem_append_left _ (ih earlier)
    · rw [List.mem_singleton.mp last]
      exact List.mem_append_right _ List.mem_cons_self

theorem History.merged_of_begun (begun : h.progress.begun) :
    ∃ f now reply, (Operation.merge f now, reply) ∈ h ∧ f.sectionKind = .payload := by
  induction h using List.reverseRecOn with
  | nil => exact begun.elim
  | append_singleton earlier e ih =>
    by_cases before : History.progress earlier |>.begun
    · obtain ⟨f, now, reply, member, kind⟩ := ih before
      exact ⟨f, now, reply, List.mem_append_left _ member, kind⟩
    · rw [History.progress_concat] at begun
      unfold Progress.after at begun
      split at begun
      next f now filled =>
        cases kind : f.sectionKind with
        | payload => exact ⟨f, now, _, List.mem_append_right _ List.mem_cons_self, kind⟩
        | metadata =>
          rw [Progress.add, kind] at begun
          exact absurd begun before
      next => exact absurd begun before
      next => exact absurd begun before

/-- A payload of which a fragment has come is as long as a fragment can tell. -/
theorem GrownFrom.length_lt (grown : GrownFrom p b h) (begun : h.progress.begun) :
    p.payload.length < 2 ^ 32 := by
  obtain ⟨copy, now, ops, slices, ran⟩ := grown
  obtain ⟨f, at_, reply, member, kind⟩ := History.merged_of_begun begun
  have told : (.merge f at_, reply) ∈ ({ ofArrival p.key p.version now with copy }.run ops).2 := by
    rw [ran]
    exact member
  have slice : f.SliceOf p := slices _ (mem_run told)
  have length := slice.length
  rw [kind] at length
  have fits := f.sectionLength.toNat_lt
  exact length ▸ fits

/-- What a blob shows and tells after a history of true slices of a publication. -/
structure Faithful (b : Blob) (p : Publication) (h : History) : Prop where
  merges : ∀ f now, f.SliceOf p → ∃ b' n, b.merge f now = .ok (b', n)
  /-- A range has a place as soon as a payload fragment has told the length. -/
  ranges : ∀ offset data now, (Operation.addByteRange offset data now).TrueTo p →
    ((∃ b' n, b.addByteRange offset data now = .ok (b', n)) ↔ h.progress.begun)
  unknown : b.isTerminal = false → (b.missingRanges = none ↔ ¬ h.progress.begun)
  /-- The missing ranges are the maximal runs of uncovered positions, in order. -/
  missing : b.isTerminal = false → ∀ ranges, b.missingRanges = some ranges →
    ranges.Pairwise (fun r s => r.stop < s.start) ∧ ∀ r, r ∈ ranges ↔
      r.IsMaximalRun fun i => i < p.payload.length ∧ ¬ h.progress.payload i
  filled : b.isTerminal = false → h.filled = (h.progress.arrived p).card
  incomplete : ¬ h.progress.Complete p → (b.perform .settle).2 = .settled "Incomplete" false
  settles : h.progress.Complete p → ¬ h.Settled p →
    (b.perform .settle).2 = .settled p.verdict true ∧ (b.perform .settle).1.Decides p
  terminal : b.isTerminal = true ↔ h.Settled p
  decides : h.Settled p → b.Decides p

theorem Decides.completeness (decides : b.Decides p) : b.status.completeness = p.verdict := by
  rw [Fragment.Publication.verdict]
  split
  next intact => rw [(decides.intact intact).1, Status.completeness]
  next corrupt => rw [(decides.corrupt corrupt).1, Status.completeness]

theorem Gathers.completeness (gathers : b.Gathers p told g) : b.status.completeness = "Incomplete" := by
  have isOpen := gathers.isOpen
  rw [Blob.isTerminal] at isOpen
  cases status : b.status with
  | empty | partiallyReceived => rfl
  | complete | checksumInvalid => simp [status, Status.isTerminal] at isOpen

theorem Gathers.missingRanges_eq_none (gathers : b.Gathers p told g) :
    b.missingRanges = none ↔ ¬ g.begun := by
  constructor
  · intro none begun
    obtain ⟨a, payload, _⟩ := gathers.assembling begun
    simp [missingRanges, payload] at none
  · intro unbegun
    rw [missingRanges, (gathers.unknown unbegun).1]

theorem Gathers.missingRanges_eq_some (gathers : b.Gathers p told g) {ranges : List ByteRange}
    (listed : b.missingRanges = some ranges) :
    ranges.Pairwise (fun r s => r.stop < s.start) ∧ ∀ r, r ∈ ranges ↔
      r.IsMaximalRun fun i => i < p.payload.length ∧ ¬ g.payload i := by
  have begun : g.begun := by
    by_contra unbegun
    simp [gathers.missingRanges_eq_none.mpr unbegun] at listed
  obtain ⟨a, payload, holds⟩ := gathers.assembling begun
  obtain rfl : a.missing.ranges = ranges := by
    simpa [missingRanges, payload] using listed
  exact ⟨holds.canonical.apart, fun r => holds.mem_ranges_iff⟩

theorem Tracks.faithful (tracks : b.Tracks p h.progress) (distinct : p.properties.DistinctNames)
    (filled : h.filled = (h.progress.arrived p).card) (unsettled : ¬ h.Settled p) :
    b.Faithful p h where
  merges f now slice := by
    obtain ⟨b', n, merged, _⟩ := tracks.merge distinct slice now
    exact ⟨b', n, merged⟩
  ranges offset data now slice := by
    constructor
    · rintro ⟨b', n, added⟩
      by_contra unbegun
      simp [tracks.addByteRange_unknown unbegun] at added
    · intro begun
      obtain ⟨b', n, added, _⟩ := tracks.addByteRange begun slice.1 slice.2 now
      exact ⟨b', n, added⟩
  unknown _ := tracks.missingRanges_eq_none
  missing _ _ listed := tracks.missingRanges_eq_some listed
  filled _ := filled
  incomplete lacking := by
    simp only [Blob.perform, tracks.settle_open lacking, tracks.refresh.completeness]
  settles complete _ := by
    obtain ⟨now, decides⟩ := tracks.settle_complete complete
    simp only [Blob.perform, now, decides.completeness, true_and]
    exact decides
  terminal := by simp [tracks.isOpen, unsettled]
  decides settled := absurd settled unsettled

theorem Decides.faithful (decides : b.Decides p) (settled : h.Settled p)
    (complete : h.progress.Complete p) : b.Faithful p h where
  merges f now slice := by
    have target : ¬ (f.version ≠ b.version ∨ f.key ≠ b.key) := by
      simp [slice.version, slice.key, decides.version, decides.key]
    exact ⟨b, 0, by rw [Blob.merge, if_neg target, if_pos decides.isTerminal]⟩
  ranges offset data now _ := by
    refine ⟨fun _ => complete.begun, fun _ => ⟨b, 0, ?_⟩⟩
    rw [Blob.addByteRange, if_pos decides.isTerminal]
  unknown h := by simp [decides.isTerminal] at h
  missing h := by simp [decides.isTerminal] at h
  filled h := by simp [decides.isTerminal] at h
  incomplete lacking := absurd complete lacking
  settles _ unsettled := absurd settled unsettled
  terminal := by simp [decides.isTerminal, settled]
  decides _ := decides

/-- Whatever true slices a fresh blob has taken in and however often it was settled, it shows what
is missing, counts what has arrived and decides by the first settle that finds everything. -/
theorem faithful_run (p : Publication) (distinct : p.properties.DistinctNames) (now : Millis)
    {ops : List Operation} (slices : ∀ op ∈ ops, op.TrueTo p) :
    ((ofArrival p.key p.version now).run ops).1.Faithful p
      ((ofArrival p.key p.version now).run ops).2 := by
  have grown : GrownFrom p ((ofArrival p.key p.version now).run ops).1
      ((ofArrival p.key p.version now).run ops).2 := ⟨0, now, ops, slices, rfl⟩
  cases stage_run distinct grown with
  | ongoing tracks filled unsettled => exact tracks.faithful distinct filled unsettled
  | decided decides settled complete => exact decides.faithful settled complete

/-- Overlapping slices from both sources, the metadata last, and a settle that comes too early. -/
def sampleSlices : List Operation :=
  [.merge ⟨"k", .ofNumber 7, .payload, 3, 1, [98, 99]⟩ 10, .settle, .addByteRange 0 [97, 98] 20,
    .merge ⟨"k", .ofNumber 7, .metadata, 67, 0, Metadata.encode Publication.sample.properties⟩ 30,
    .settle]

theorem faithful_run_sample : Publication.sample.properties.DistinctNames ∧
    (∀ op ∈ sampleSlices, op.TrueTo .sample) ∧
    ((ofArrival "k" (.ofNumber 7) 0).run sampleSlices).1.Faithful .sample
      ((ofArrival "k" (.ofNumber 7) 0).run sampleSlices).2 :=
  ⟨by decide, by decide +kernel, faithful_run .sample (by decide) 0 (by decide +kernel)⟩

end Blob
end BlobReplica
