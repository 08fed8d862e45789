import BlobReplica.Proofs.Cache.Changes

/-! A sweep of one list, place by place. First every blob is looked at by itself. Then the places up to
the last complete blob are gone through; where a blob is taken out, the later ones move up by one. What
stays can be told without that: of the blobs that have no reason of their own to leave, those that no
later complete one supersedes. -/

namespace BlobReplica.Cache

variable {c : Cache} {b : Blob} {policy : SweepPolicy} {now : Millis} {blobs rest : List Blob}
  {report : SweepReport} {n m : Nat}

/-! ### In place -/

/-- The place of the last complete blob. -/
def newest? : List Blob → Option Nat
  | [] => none
  | b :: rest =>
    match newest? rest with
    | some i => some (i + 1)
    | none => if b.isComplete then some 0 else none

/-- A complete blob that started longer ago than a superseded one is kept. -/
def outlived (policy : SweepPolicy) (now : Millis) (b : Blob) : Bool :=
  b.isComplete && decide (policy.supersedeAfter < now - b.validity.start)

/-- Takes outlived blobs out of the places from `index` up to `newest`, which moves with them. Gives
what is left and how many were taken out. -/
def prune (policy : SweepPolicy) (now : Millis) (index newest : Nat) (blobs : List Blob) :
    List Blob × Nat :=
  if index < newest ∧ 1 < blobs.length then
    if blobs[index]?.any (outlived policy now) then
      let (left, n) := prune policy now index (newest - 1) (blobs.eraseIdx index)
      (left, n + 1)
    else prune policy now (index + 1) newest blobs
  else (blobs, 0)
termination_by newest - index

/-- Keeps a blob after those before it, or notes why it leaves. -/
def sieve (policy : SweepPolicy) (now : Millis) (s : List Blob × SweepReport) (b : Blob) :
    List Blob × SweepReport :=
  match sweepReason? policy now b with
  | some .invalid => (s.1, { s.2 with invalid := s.2.invalid + 1 })
  | some .expired => (s.1, { s.2 with expired := s.2.expired + 1 })
  | some .stale => (s.1, { s.2 with stale := s.2.stale + 1 })
  | none => (s.1 ++ [b], s.2)

/-- Sweeps the list of one key and goes on with the report of those before. -/
def sweepList (policy : SweepPolicy) (now : Millis) (report : SweepReport) (blobs : List Blob) :
    List Blob × SweepReport :=
  let (kept, report) := blobs.foldl (sieve policy now) ([], report)
  match newest? kept with
  | none => (kept, report)
  | some newest =>
    let (left, n) := prune policy now 0 newest kept
    (left, { report with superseded := report.superseded + n })

/-! ### By reasons -/

/-- Whether a blob leaves whatever else its key holds. -/
def Leaves (policy : SweepPolicy) (now : Millis) (b : Blob) : Prop :=
  b.status = .checksumInvalid ∨ (b.status = .complete ∧ b.validity.stop < now) ∨
    (b.isTerminal = false ∧ policy.staleAfter < now - b.lastTouched)

instance (policy : SweepPolicy) (now : Millis) (b : Blob) : Decidable (Leaves policy now b) :=
  inferInstanceAs (Decidable (_ ∨ _))

/-- Whether the blob at a place is complete, comes before the last complete one and has outlived its
start. -/
def SupersededAt (policy : SweepPolicy) (now : Millis) (blobs : List Blob) (e : Blob × Nat) : Prop :=
  e.1.isComplete = true ∧ (newest? blobs).any (e.2 < ·) = true ∧
    policy.supersedeAfter < now - e.1.validity.start

instance (policy : SweepPolicy) (now : Millis) (blobs : List Blob) (e : Blob × Nat) :
    Decidable (SupersededAt policy now blobs e) :=
  inferInstanceAs (Decidable (_ ∧ _))

/-- The blobs that do not leave by themselves. -/
def stayers (policy : SweepPolicy) (now : Millis) (blobs : List Blob) : List Blob :=
  blobs.filter fun b => ¬ Leaves policy now b

def superseded (policy : SweepPolicy) (now : Millis) (blobs : List Blob) : List Blob :=
  (blobs.zipIdx.filter fun e => SupersededAt policy now blobs e).map (·.1)

def unsuperseded (policy : SweepPolicy) (now : Millis) (blobs : List Blob) : List Blob :=
  (blobs.zipIdx.filter fun e => ¬ SupersededAt policy now blobs e).map (·.1)

/-- What a sweep leaves of a list. -/
def survivors (policy : SweepPolicy) (now : Millis) (blobs : List Blob) : List Blob :=
  unsuperseded policy now (stayers policy now blobs)

/-! ### The last complete blob -/

theorem newest?_eq_none : newest? blobs = none ↔ blobs.any Blob.isComplete = false := by
  induction blobs with
  | nil => simp [newest?]
  | cons b rest ih =>
    rw [newest?, List.any_cons]
    split
    next i found => simp [found] at ih; simp [ih]
    next absent =>
      rw [ih.mp absent, Bool.or_false]
      cases b.isComplete <;> simp

theorem dropSuperseded_of_none (none : newest? blobs = none) :
    dropSuperseded policy now blobs = blobs := by
  induction blobs with
  | nil => rfl
  | cons b rest ih =>
    have nothing := newest?_eq_none.mp none
    rw [List.any_cons, Bool.or_eq_false_iff] at nothing
    rw [dropSuperseded, if_neg (by simp [nothing.1]), ih (newest?_eq_none.mpr nothing.2)]

theorem dropSuperseded_cons (later : newest? rest = some m) :
    dropSuperseded policy now (b :: rest) =
      if outlived policy now b then dropSuperseded policy now rest
      else b :: dropSuperseded policy now rest := by
  have followed : rest.any Blob.isComplete = true := by
    refine Bool.not_eq_false _ |>.mp fun none => ?_
    cases (newest?_eq_none.mpr none).symm.trans later
  rw [dropSuperseded, followed, Bool.and_true, outlived]

theorem dropSuperseded_cons_last (last : newest? rest = none) :
    dropSuperseded policy now (b :: rest) = b :: rest := by
  rw [dropSuperseded, newest?_eq_none.mp last, Bool.and_false, Bool.false_and, if_neg Bool.false_ne_true,
    dropSuperseded_of_none last]

theorem newest?_cons (found : newest? (b :: rest) = some m) :
    (newest? rest = none ∧ m = 0) ∨ ∃ i, newest? rest = some i ∧ m = i + 1 := by
  rw [newest?] at found
  split at found
  next i later => exact .inr ⟨i, later, (Option.some.inj found).symm⟩
  next none =>
    split at found
    next => exact .inl ⟨none, (Option.some.inj found).symm⟩
    next => contradiction

/-- The places in front of `index` have been gone through. Of the others, `newest` being the last complete
one, those stay that are not superseded. -/
theorem prune_eq (policy : SweepPolicy) (now : Millis) (front : List Blob)
    (last : newest? rest = some m) :
    prune policy now front.length (front.length + m) (front ++ rest) =
      (front ++ dropSuperseded policy now rest,
        rest.length - (dropSuperseded policy now rest).length) := by
  induction rest generalizing front m with
  | nil => contradiction
  | cons b rest ih =>
    rcases newest?_cons last with ⟨later, rfl⟩ | ⟨i, later, rfl⟩
    · rw [prune, if_neg (by omega), dropSuperseded_cons_last later, Nat.sub_self]
    · have more : 0 < rest.length := by
        refine List.length_pos_iff.mpr ?_
        rintro rfl
        contradiction
      have here : (front ++ b :: rest)[front.length]? = some b := by simp
      rw [prune, if_pos ⟨by omega, by simp; omega⟩, here, Option.any_some, dropSuperseded_cons later]
      split
      next =>
        have out : (front ++ b :: rest).eraseIdx front.length = front ++ rest := by
          rw [List.eraseIdx_append_of_length_le (Nat.le_refl _), Nat.sub_self, List.eraseIdx_cons_zero]
        have shorter := (dropSuperseded_sublist policy now rest).length_le
        rw [out, show front.length + (i + 1) - 1 = front.length + i by omega, ih front later]
        simp only [List.length_cons, Prod.mk.injEq, true_and]
        omega
      next =>
        have on := ih (front ++ [b]) later
        rw [List.length_append, List.length_singleton, List.append_assoc, List.append_assoc,
          List.singleton_append, List.singleton_append] at on
        rw [show front.length + (i + 1) = front.length + 1 + i by omega, on, List.length_cons,
          List.length_cons, Nat.add_sub_add_right]

theorem filter_zipIdx (k : Nat) (last : newest? rest = some m) :
    ((rest.zipIdx k).filter fun e => !(outlived policy now e.1 && decide (e.2 < k + m))).map (·.1) =
      dropSuperseded policy now rest := by
  induction rest generalizing k m with
  | nil => contradiction
  | cons b rest ih =>
    rw [List.zipIdx_cons]
    rcases newest?_cons last with ⟨later, rfl⟩ | ⟨i, later, rfl⟩
    · have beyond : ∀ e ∈ (b, k) :: rest.zipIdx (k + 1),
          (!(outlived policy now e.1 && decide (e.2 < k + 0))) = true := by
        intro e listed
        have place : k ≤ e.2 := by
          rcases List.mem_cons.mp listed with rfl | listed
          · exact Nat.le_refl k
          · exact Nat.le_of_succ_le (List.le_snd_of_mem_zipIdx listed)
        rw [Nat.add_zero, decide_eq_false (Nat.not_lt.mpr place), Bool.and_false, Bool.not_false]
      rw [List.filter_eq_self.mpr beyond, List.map_cons, List.zipIdx_map_fst,
        dropSuperseded_cons_last later]
    · have same : k + (i + 1) = k + 1 + i := by omega
      rw [dropSuperseded_cons later, ← ih (k + 1) later, ← same]
      split
      next old => rw [List.filter_cons_of_neg (by simp [old])]
      next young => rw [List.filter_cons_of_pos (by simp [young]), List.map_cons]

theorem unsuperseded_eq (policy : SweepPolicy) (now : Millis) (blobs : List Blob) :
    unsuperseded policy now blobs = dropSuperseded policy now blobs := by
  rw [unsuperseded]
  cases last : newest? blobs with
  | none =>
    have stays : ∀ e ∈ blobs.zipIdx, decide (¬ SupersededAt policy now blobs e) = true := by
      intro e _
      simp [SupersededAt, last]
    rw [List.filter_eq_self.mpr stays, List.zipIdx_map_fst, dropSuperseded_of_none last]
  | some m =>
    rw [← filter_zipIdx 0 last]
    congr 1
    refine List.filter_congr fun e _ => ?_
    have told : SupersededAt policy now blobs e ↔
        (outlived policy now e.1 && decide (e.2 < 0 + m)) = true := by
      rw [SupersededAt, last, outlived, Option.any_some, Nat.zero_add, Bool.and_eq_true,
        Bool.and_eq_true, decide_eq_true_eq, decide_eq_true_eq, and_right_comm, and_assoc]
    simp only [told, decide_not, Bool.decide_eq_true]

theorem length_superseded (blobs : List Blob) : (superseded policy now blobs).length =
    blobs.length - (dropSuperseded policy now blobs).length := by
  have parts := List.length_eq_length_filter_add (l := blobs.zipIdx)
    (fun e => decide (SupersededAt policy now blobs e))
  have stay := congrArg List.length (unsuperseded_eq policy now blobs)
  rw [unsuperseded, List.length_map] at stay
  simp only [List.length_zipIdx, ← decide_not] at parts
  rw [superseded, List.length_map, ← stay]
  omega

/-! ### Reasons -/

theorem sweepReason?_invalid (policy : SweepPolicy) (now : Millis) :
    sweepReason? policy now b = some .invalid ↔ b.status = .checksumInvalid := by
  rw [sweepReason?]
  split
  next invalid => simp [invalid]
  next complete => simp [complete]
  next uncorrupt _ => simp [show ¬ b.status = .checksumInvalid from uncorrupt]

theorem sweepReason?_expired (policy : SweepPolicy) (now : Millis) :
    sweepReason? policy now b = some .expired ↔
    b.status = .complete ∧ b.validity.stop < now := by
  rw [sweepReason?]
  split
  next invalid => simp [invalid]
  next complete => simp [complete, Validity.expiredAt]
  next _ incomplete => simp [show ¬ b.status = .complete from incomplete]

theorem sweepReason?_stale (policy : SweepPolicy) (now : Millis) :
    sweepReason? policy now b = some .stale ↔
    b.isTerminal = false ∧ policy.staleAfter < now - b.lastTouched := by
  rw [sweepReason?, Blob.isTerminal]
  cases b.status <;> simp [Status.isTerminal, Nat.lt_sub_iff_add_lt]

theorem leaves_iff : Leaves policy now b ↔ sweepReason? policy now b ≠ none := by
  rw [Leaves, ← sweepReason?_invalid policy now, ← sweepReason?_expired, ← sweepReason?_stale]
  rcases sweepReason? policy now b with _ | _ | _ | _ <;> simp

theorem stayers_eq (blobs : List Blob) :
    stayers policy now blobs = retained policy now blobs := by
  refine List.filter_congr fun b _ => ?_
  cases reason : sweepReason? policy now b <;> simp [leaves_iff, reason]

theorem survivors_eq (blobs : List Blob) : survivors policy now blobs = swept policy now blobs := by
  rw [survivors, unsuperseded_eq, stayers_eq, swept]

/-! ### Counts -/

def leaving (policy : SweepPolicy) (now : Millis) (reason : SweepReason) (blobs : List Blob) : Nat :=
  (blobs.filter fun b => sweepReason? policy now b = some reason).length

theorem leaving_append (reason : SweepReason) (front rest : List Blob) :
    leaving policy now reason (front ++ rest) =
      leaving policy now reason front + leaving policy now reason rest := by
  rw [leaving, List.filter_append, List.length_append, leaving, leaving]

theorem leaving_cons (reason : SweepReason) (b : Blob) (rest : List Blob) :
    leaving policy now reason (b :: rest) =
      (if sweepReason? policy now b = some reason then 1 else 0) + leaving policy now reason rest := by
  rw [leaving, List.filter_cons, leaving]
  split
  next here => rw [if_pos (of_decide_eq_true here), List.length_cons, Nat.add_comm]
  next elsewhere => rw [if_neg (by simpa using elsewhere), Nat.zero_add]

/-- A blob leaves for one reason, or it is left. -/
theorem length_retained (policy : SweepPolicy) (now : Millis) (blobs : List Blob) :
    leaving policy now .expired blobs + leaving policy now .stale blobs +
      leaving policy now .invalid blobs + (retained policy now blobs).length = blobs.length := by
  induction blobs with
  | nil => rfl
  | cons b rest ih =>
    rw [leaving_cons, leaving_cons, leaving_cons, retained, List.filter_cons, ← retained,
      List.length_cons, ← ih]
    rcases sweepReason? policy now b with _ | _ | _ | _ <;> simp <;> omega

theorem foldl_sieve (kept : List Blob) (report : SweepReport) (blobs : List Blob) :
    blobs.foldl (sieve policy now) (kept, report) =
      (kept ++ retained policy now blobs,
        { report with
          expired := report.expired + leaving policy now .expired blobs
          stale := report.stale + leaving policy now .stale blobs
          invalid := report.invalid + leaving policy now .invalid blobs }) := by
  induction blobs generalizing kept report with
  | nil => simp [retained, leaving]
  | cons b rest ih =>
    rw [List.foldl_cons, leaving_cons, leaving_cons, leaving_cons, retained, List.filter_cons,
      ← retained, sieve]
    rcases sweepReason? policy now b with _ | _ | _ | _ <;> simp [ih, Nat.add_assoc]

/-- Going through a list place by place leaves the same blobs, and counts those that leave. -/
theorem sweepList_eq (report : SweepReport) (blobs : List Blob) :
    sweepList policy now report blobs = (survivors policy now blobs,
      { report with
        expired := report.expired + leaving policy now .expired blobs
        stale := report.stale + leaving policy now .stale blobs
        invalid := report.invalid + leaving policy now .invalid blobs
        superseded := report.superseded +
          (superseded policy now (stayers policy now blobs)).length }) := by
  rw [sweepList, foldl_sieve, List.nil_append, length_superseded, survivors_eq, swept, stayers_eq]
  cases last : newest? (retained policy now blobs) with
  | none => simp [last, dropSuperseded_of_none last]
  | some m =>
    have pruned := prune_eq policy now [] last
    rw [List.length_nil, Nat.zero_add, List.nil_append, List.nil_append] at pruned
    simp [last, pruned]

/-! ### The whole cache -/

/-- How many blobs leave for each reason, and how many keys go with them. -/
def tally (policy : SweepPolicy) (now : Millis) (c : Cache) : SweepReport where
  expired := (c.blobs.filter fun b => b.status = .complete ∧ b.validity.stop < now).length
  stale := (c.blobs.filter fun b =>
    b.isTerminal = false ∧ policy.staleAfter < now - b.lastTouched).length
  invalid := (c.blobs.filter fun b => b.status = .checksumInvalid).length
  superseded := (c.lists.entries.map fun e =>
    (superseded policy now (stayers policy now e.2)).length).sum
  keysDropped := (c.keys.filter fun k => (survivors policy now (c.versions k)).isEmpty).length

theorem tally_eq (c : Cache) : tally policy now c =
    { expired := leaving policy now .expired c.blobs
      stale := leaving policy now .stale c.blobs
      invalid := leaving policy now .invalid c.blobs
      superseded := (tally policy now c).superseded
      keysDropped := (tally policy now c).keysDropped } := by
  simp only [tally, leaving, sweepReason?_expired, sweepReason?_stale, sweepReason?_invalid]

theorem foldl_sweepList (report : SweepReport) (entries : List (String × List Blob)) :
    entries.foldl (fun report e => (sweepList policy now report e.2).2) report =
      { report with
        expired := report.expired + leaving policy now .expired (entries.flatMap (·.2))
        stale := report.stale + leaving policy now .stale (entries.flatMap (·.2))
        invalid := report.invalid + leaving policy now .invalid (entries.flatMap (·.2))
        superseded := report.superseded +
          (entries.map fun e => (superseded policy now (stayers policy now e.2)).length).sum } := by
  induction entries generalizing report with
  | nil => simp [leaving]
  | cons e rest ih =>
    rw [List.foldl_cons, ih, sweepList_eq]
    simp [leaving_append, Nat.add_assoc]

theorem get?_sweep (c : Cache) (now : Millis) (policy : SweepPolicy) (k : String) :
    (c.sweep now policy).1.lists.get? k =
      ((c.lists.get? k).map (survivors policy now)).filter fun blobs => !blobs.isEmpty := by
  show ((c.lists.map fun _ blobs => swept policy now blobs).filter
    fun _ blobs => !blobs.isEmpty).get? k = _
  rw [Table.get?_filter, Table.get?_map]
  cases c.lists.get? k with
  | none => rfl
  | some blobs => rw [Option.map_some, Option.map_some, survivors_eq]

theorem blobs_sweep (c : Cache) (now : Millis) (policy : SweepPolicy) :
    (c.sweep now policy).1.blobs = c.lists.entries.flatMap fun e => swept policy now e.2 := by
  show ((c.lists.entries.map fun e => (e.1, swept policy now e.2)).filter
    fun e => !e.2.isEmpty).flatMap (·.2) = _
  induction c.lists.entries with
  | nil => rfl
  | cons e rest ih =>
    rw [List.map_cons, List.filter_cons, List.flatMap_cons, ← ih]
    split
    next => rw [List.flatMap_cons]
    next empty =>
      have nothing : swept policy now e.2 = [] := by simpa using empty
      rw [nothing, List.nil_append]

/-- Of the blobs that do not leave by themselves the superseded ones are missing in the end. -/
theorem superseded_add_swept (policy : SweepPolicy) (now : Millis) (blobs : List Blob) :
    (superseded policy now (stayers policy now blobs)).length + (swept policy now blobs).length =
      (retained policy now blobs).length := by
  rw [length_superseded, stayers_eq, swept]
  exact Nat.sub_add_cancel (dropSuperseded_sublist policy now _).length_le

theorem superseded_sweep (c : Cache) (now : Millis) (policy : SweepPolicy) :
    (c.sweep now policy).2.superseded = (tally policy now c).superseded := by
  have step (e : String × List Blob) : (retained policy now e.2).length -
      (swept policy now e.2).length = (superseded policy now (stayers policy now e.2)).length := by
    rw [← superseded_add_swept, Nat.add_sub_cancel]
  have total (entries : List (String × List Blob)) (n : Nat) :
      entries.foldl (fun n e => n + ((retained policy now e.2).length - (swept policy now e.2).length)) n =
        n + (entries.map fun e => (superseded policy now (stayers policy now e.2)).length).sum := by
    induction entries generalizing n with
    | nil => rfl
    | cons e rest ih => rw [List.foldl_cons, ih, List.map_cons, List.sum_cons, step, Nat.add_assoc]
  exact (total c.lists.entries 0).trans (Nat.zero_add _)

theorem keysDropped_sweep (c : Cache) (now : Millis) (policy : SweepPolicy) :
    (c.sweep now policy).2.keysDropped = (tally policy now c).keysDropped := by
  have gone : (tally policy now c).keysDropped =
      (c.lists.entries.filter fun e => (swept policy now e.2).isEmpty).length := by
    rw [tally, keys, Table.names, List.filter_map, List.length_map]
    refine congrArg List.length (List.filter_congr fun e entry => ?_)
    have list : c.versions e.1 = e.2 := by rw [versions, Table.get?_eq_some.mpr entry]; rfl
    simp only [Function.comp_apply, list, survivors_eq]
  have stay : (c.sweep now policy).1.lists.size =
      (c.lists.entries.filter fun e => !(swept policy now e.2).isEmpty).length := by
    show ((c.lists.entries.map fun e => (e.1, swept policy now e.2)).filter
      fun e => !e.2.isEmpty).length = _
    rw [List.filter_map, List.length_map]
    rfl
  have parts := List.length_eq_length_filter_add (l := c.lists.entries)
    (fun e => (swept policy now e.2).isEmpty)
  show c.lists.entries.length - (c.sweep now policy).1.lists.size = _
  rw [gone, stay]
  omega

theorem report_sweep (c : Cache) (now : Millis) (policy : SweepPolicy) :
    (c.sweep now policy).2 =
      { tally policy now c with marksForgotten := (c.sweep now policy).2.marksForgotten } := by
  rw [tally_eq, ← superseded_sweep, ← keysDropped_sweep]
  rfl

/-- Every blob is counted or stays. -/
theorem removed_sweep (c : Cache) (now : Millis) (policy : SweepPolicy) :
    (c.sweep now policy).2.removed + (c.sweep now policy).1.blobs.length = c.blobs.length := by
  rw [report_sweep, tally_eq, SweepReport.removed, blobs_sweep, blobs, tally]
  simp only
  induction c.lists.entries with
  | nil => rfl
  | cons e rest ih =>
    have alone := length_retained policy now e.2
    have together := superseded_add_swept policy now e.2
    simp only [List.flatMap_cons, leaving_append, List.length_append, List.map_cons, List.sum_cons]
    omega

/-! ### Once more -/

theorem any_dropSuperseded (blobs : List Blob) :
    (dropSuperseded policy now blobs).any Blob.isComplete = blobs.any Blob.isComplete := by
  induction blobs with
  | nil => rfl
  | cons b rest ih =>
    rw [dropSuperseded]
    split
    next gone =>
      simp only [Bool.and_eq_true] at gone
      rw [ih, List.any_cons, gone.1.2, Bool.or_true]
    next => rw [List.any_cons, List.any_cons, ih]

theorem dropSuperseded_again (blobs : List Blob) :
    dropSuperseded policy now (dropSuperseded policy now blobs) = dropSuperseded policy now blobs := by
  induction blobs with
  | nil => rfl
  | cons b rest ih =>
    rw [dropSuperseded]
    split
    next => exact ih
    next kept => rw [dropSuperseded, any_dropSuperseded, if_neg kept, ih]

theorem swept_again (blobs : List Blob) :
    swept policy now (swept policy now blobs) = swept policy now blobs := by
  have stays : retained policy now (swept policy now blobs) = swept policy now blobs := by
    refine List.filter_eq_self.mpr fun b listed => ?_
    rw [(mem_swept.mp listed).1.2]
    rfl
  rw [swept, stays, swept, dropSuperseded_again]

theorem lists_again (c : Cache) (now : Millis) (policy : SweepPolicy) :
    ((c.sweep now policy).1.sweep now policy).1.lists = (c.sweep now policy).1.lists := by
  refine Table.ext_get? fun k => ?_
  have found := (filled_sweep (c.sweep now policy).1 now policy).get?_eq k
  rw [versions_sweep, versions_sweep, swept_again, ← versions_sweep] at found
  exact found.trans ((filled_sweep c now policy).get?_eq k).symm

/-- The marks of a swept cache are recent, and none of its blobs is invalid. -/
theorem marks_again (c : Cache) (now : Millis) (policy : SweepPolicy) :
    sweptMarks policy now (c.sweep now policy).1 = ((c.sweep now policy).1.marks, 0) := by
  have valid : (c.sweep now policy).1.blobs.filter (fun b => b.status = .checksumInvalid) = [] := by
    refine List.filter_eq_nil_iff.mpr fun b listed => ?_
    rw [blobs_sweep] at listed
    obtain ⟨e, _, listed⟩ := List.mem_flatMap.mp listed
    have stays := (mem_swept.mp listed).1.2
    rw [decide_eq_true_eq, ← sweepReason?_invalid policy now, stays]
    exact (Option.some_ne_none _).symm
  have recent : (c.sweep now policy).1.marks.since (now - policy.staleAfter) =
      (c.sweep now policy).1.marks := by
    rw [show (c.sweep now policy).1.marks = Marks.since _ _ from rfl, Marks.since, Marks.since,
      List.filter_filter]
    simp only [Bool.and_self]
  rw [sweptMarks, valid, List.foldl_nil, recent, Nat.sub_self]

/-- A second sweep at the same time finds nothing to take out and no mark to forget. -/
theorem sweep_again (c : Cache) (now : Millis) (policy : SweepPolicy) :
    (c.sweep now policy).1.sweep now policy = ((c.sweep now policy).1, {}) := by
  have lists := lists_again c now policy
  have marks := marks_again c now policy
  have removed := removed_sweep (c.sweep now policy).1 now policy
  generalize (c.sweep now policy).1 = s at *
  have same : (s.sweep now policy).1 = s := by
    show ({ s with lists := (s.sweep now policy).1.lists, marks := (sweptMarks policy now s).1 } :
      Cache) = s
    rw [lists, marks]
  have keysDropped : (s.sweep now policy).2.keysDropped = 0 := by
    show s.lists.size - (s.sweep now policy).1.lists.size = 0
    rw [lists, Nat.sub_self]
  have marksForgotten : (s.sweep now policy).2.marksForgotten = 0 :=
    congrArg Prod.snd marks
  rw [same, SweepReport.removed] at removed
  refine Prod.ext same ?_
  cases report : (s.sweep now policy).2 with
  | mk expired stale invalid superseded =>
    rw [report] at removed keysDropped marksForgotten
    simp only at removed keysDropped marksForgotten
    obtain ⟨rfl, rfl, rfl, rfl⟩ : expired = 0 ∧ stale = 0 ∧ invalid = 0 ∧ superseded = 0 := by omega
    rw [keysDropped, marksForgotten]

/-- A sweep leaves of every key the survivors of its list, in their order and as they are, and drops the
keys that have none. Going through the lists place by place comes to the same blobs and to the same counts,
which make up the difference in stored blobs. The last complete blob that does not leave by itself always
stays, and a second sweep at the same time does nothing. -/
theorem sweep_leaves_survivors (c : Cache) (now : Millis) (policy : SweepPolicy) :
    (∀ k, (c.sweep now policy).1.lists.get? k =
      ((c.lists.get? k).map (survivors policy now)).filter fun blobs => !blobs.isEmpty) ∧
    (∀ blobs, (survivors policy now blobs).Sublist blobs) ∧
    (∀ k b, ((stayers policy now (c.versions k)).filter Blob.isComplete).getLast? = some b →
      b ∈ (c.sweep now policy).1.versions k) ∧
    (∀ report blobs, (sweepList policy now report blobs).1 = survivors policy now blobs) ∧
    c.lists.entries.foldl (fun report e => (sweepList policy now report e.2).2) {} =
      { tally policy now c with keysDropped := 0 } ∧
    (c.sweep now policy).2 =
      { tally policy now c with marksForgotten := (c.sweep now policy).2.marksForgotten } ∧
    (c.sweep now policy).2.removed + (c.sweep now policy).1.blobs.length = c.blobs.length ∧
    (c.sweep now policy).1.sweep now policy = ((c.sweep now policy).1, {}) := by
  refine ⟨get?_sweep c now policy, fun blobs => ?_, fun k b last => ?_, fun report blobs => ?_, ?_,
    report_sweep c now policy, removed_sweep c now policy, sweep_again c now policy⟩
  · rw [survivors_eq]
    exact swept_sublist policy now blobs
  · rw [stayers_eq] at last
    rw [versions_sweep, mem_swept]
    have listed := List.mem_of_mem_filter (List.mem_of_getLast? last)
    exact ⟨mem_retained.mp listed, .inr (.inr last)⟩
  · rw [sweepList_eq]
  · rw [foldl_sweepList, tally_eq]
    simp only [Nat.zero_add]
    rfl

end BlobReplica.Cache
