import BlobReplica.Proofs.Blob.Runs

/-! The life of a blob goes one way. Nothing that is done to it takes back a decision, a beginning or a
touch, and of all attempts to decide it exactly one tells that it did. -/

namespace BlobReplica.Blob

variable {b b' b'' o : Blob} {f : Fragment} {op : Operation} {ops : List Operation} {now : Millis}
  {filled : Nat} {h : History}

/-! ### Touches -/

theorem lastTouched_foldl_addDecoded (b : Blob) (entries : List (String × String)) :
    (entries.foldl addDecoded b).lastTouched = b.lastTouched := by
  induction entries generalizing b with
  | nil => rfl
  | cons e rest ih =>
    rw [List.foldl_cons, ih, addDecoded]
    split <;> rfl

theorem lastTouched_readMetadata (b : Blob) (bytes : Bytes) :
    (b.readMetadata bytes).lastTouched = b.lastTouched := by
  simp only [readMetadata]
  split
  next decoded _ => exact lastTouched_foldl_addDecoded _ decoded.entries
  next => rfl

theorem lastTouched_mergeSection (written : b.mergeSection f = .ok (o, filled)) :
    o.lastTouched = b.lastTouched := by
  rcases mergeSection_cases written with metadata | payload
  · rcases mergeMetadata_cases metadata with rfl | ⟨a, rfl⟩ | ⟨bytes, rfl⟩
    · rfl
    · rfl
    · exact lastTouched_readMetadata b bytes
  · rcases mergePayload_cases payload with rfl | ⟨a, size, rfl⟩ <;> rfl

theorem lastTouched_merge (isOpen : b.isTerminal = false) (merged : b.merge f now = .ok (b', filled)) :
    b'.lastTouched = max b.lastTouched now := by
  obtain ⟨o, written, rfl⟩ := merge_open isOpen merged
  rw [← lastTouched_mergeSection written, begin]
  split <;> rfl

theorem lastTouched_settle (b : Blob) : b.settle.1.lastTouched = b.lastTouched := by
  simp only [settle]
  split
  next => rfl
  next =>
    split
    next => rfl
    next =>
      split
      next =>
        split
        next => split <;> rfl
        next => rfl
      next => rfl

/-! ### Steps -/

/-- All that is done to a blob but a bare touch, which may still come when it is decided. -/
def Operation.Works : Operation → Prop
  | .touch _ => False
  | _ => True

/-- A later state of a blob: the same one if it was decided, begun if it had begun, and touched no
earlier. -/
structure Onward (b b' : Blob) : Prop where
  decided : b.isTerminal = true → b' = b
  begun : b.status ≠ .empty → b'.status ≠ .empty
  touched : b.lastTouched ≤ b'.lastTouched

theorem Onward.refl (b : Blob) : b.Onward b :=
  ⟨fun _ => rfl, id, Nat.le_refl _⟩

theorem Onward.trans (first : b.Onward b') (second : b'.Onward b'') : b.Onward b'' where
  decided decided := by
    obtain rfl := first.decided decided
    exact second.decided decided
  begun := second.begun ∘ first.begun
  touched := Nat.le_trans first.touched second.touched

theorem onward_of_open (isOpen : b.isTerminal = false)
    (begun : b.status ≠ .empty → b'.status ≠ .empty) (touched : b.lastTouched ≤ b'.lastTouched) :
    b.Onward b' :=
  ⟨fun decided => by simp [isOpen] at decided, begun, touched⟩

theorem onward_settle (b : Blob) : b.Onward b.settle.1 := by
  cases decided : b.isTerminal with
  | true =>
    rw [settle, if_pos decided]
    exact .refl b
  | false =>
    refine onward_of_open decided ?_ (Nat.le_of_eq (lastTouched_settle b).symm)
    rw [settle, if_neg (by simp [decided])]
    split
    next => exact fun _ => Status.noConfusion
    next =>
      simp only
      split
      next =>
        split
        next => split <;> exact fun _ => Status.noConfusion
        next => exact id
      next => exact id

/-- Whatever is done to a blob takes it onward. -/
theorem onward_perform (b : Blob) (works : op.Works) : b.Onward (b.perform op).1 := by
  cases decided : b.isTerminal with
  | true =>
    rcases perform_decided decided op with same | ⟨now, rfl⟩
    · rw [same]
      exact .refl b
    · exact works.elim
  | false =>
    cases op with
    | merge f now =>
      rw [perform]
      cases merged : b.merge f now with
      | error e => exact .refl b
      | ok result =>
        refine onward_of_open decided (fun _ => ?_) ?_
        · rw [wrote, status_merge decided merged]
          exact Status.noConfusion
        · rw [wrote, lastTouched_merge decided merged]
          exact Nat.le_max_left _ _
    | addByteRange offset data now =>
      rw [perform, addByteRange, if_neg (by simp [decided])]
      split
      next =>
        simp only
        split
        next => exact .refl b
        next => exact onward_of_open decided id (Nat.le_max_left _ _)
      next => exact .refl b
    | applyHeaders headers now =>
      rw [perform, applyHeaders, if_neg (by simp [decided])]
      exact onward_of_open decided id (Nat.le_max_left _ _)
    | setPayload body now =>
      rw [perform, setPayload, if_neg (by simp [decided])]
      exact onward_of_open decided id (Nat.le_max_left _ _)
    | touch now => exact works.elim
    | settle => exact onward_settle b

/-! ### Runs -/

theorem run_append (b : Blob) (before after : List Operation) :
    (b.run (before ++ after)).1 = ((b.run before).1.run after).1 := by
  induction after using List.reverseRecOn with
  | nil =>
    rw [List.append_nil]
    rfl
  | append_singleton after op ih => rw [← List.append_assoc, run_concat, run_concat, ih]

theorem history_append (b : Blob) (before after : List Operation) :
    (b.run (before ++ after)).2 = (b.run before).2 ++ ((b.run before).1.run after).2 := by
  induction after using List.reverseRecOn with
  | nil =>
    rw [List.append_nil]
    exact (List.append_nil _).symm
  | append_singleton after op ih =>
    rw [← List.append_assoc, run_concat, run_concat, ih, run_append, List.append_assoc]

theorem same_run (b : Blob) (ops : List Operation) : b.Same (b.run ops).1 := by
  induction ops using List.reverseRecOn with
  | nil => exact .refl b
  | append_singleton ops op ih =>
    rw [run_concat]
    exact ih.trans (same_perform _ op)

theorem onward_run (b : Blob) (works : ∀ op ∈ ops, op.Works) : b.Onward (b.run ops).1 := by
  induction ops using List.reverseRecOn with
  | nil => exact .refl b
  | append_singleton ops op ih =>
    rw [run_concat]
    exact (ih fun o listed => works o (by simp [listed])).trans (onward_perform _ (works op (by simp)))

/-- The attempt to decide told that it did. -/
def Reply.decides : Reply → Bool
  | .settled _ decided => decided
  | _ => false

/-- How often an attempt to decide told that it did. -/
def History.decisions (h : History) : Nat :=
  h.countP fun e => e.2.decides

theorem decisions_concat (h : History) (e : Operation × Reply) :
    History.decisions (h ++ [e]) = h.decisions + if e.2.decides then 1 else 0 := by
  rw [History.decisions, List.countP_append, List.countP_singleton]
  rfl

/-- An operation decides a blob, and tells so, or leaves it as decided or open as it was. -/
theorem decides_perform (b : Blob) (op : Operation) :
    (b.perform op).2.decides = (!b.isTerminal && (b.perform op).1.isTerminal) := by
  by_cases settles : op = .settle
  · subst settles
    show b.settle.2 = (!b.isTerminal && b.settle.1.isTerminal)
    cases decided : b.isTerminal with
    | true => rw [settle, if_pos decided]; rfl
    | false => rw [settle_snd decided]; rfl
  · have quiet : (b.perform op).2.decides = false := by
      cases op with
      | settle => contradiction
      | merge f now | addByteRange offset data now => rw [perform, wrote.eq_def]; split <;> rfl
      | applyHeaders | setPayload | touch => rfl
    rw [quiet, (advances_perform b settles).isTerminal, Bool.not_and_self]

/-- Nothing takes back a decision. -/
theorem isTerminal_perform (decided : b.isTerminal = true) (op : Operation) :
    (b.perform op).1.isTerminal = true := by
  rcases perform_decided decided op with same | ⟨now, rfl⟩
  · rw [same, decided]
  · exact decided

/-- A blob that was open has been decided once if it is decided now, and not at all otherwise. -/
theorem decisions_run (isOpen : b.isTerminal = false) (ops : List Operation) :
    (b.run ops).2.decisions = if (b.run ops).1.isTerminal then 1 else 0 := by
  induction ops using List.reverseRecOn with
  | nil =>
    have same : (b.run []).1 = b := rfl
    rw [same, isOpen]
    rfl
  | append_singleton ops op ih =>
    rw [run_concat, decisions_concat, ih, decides_perform]
    cases decided : (b.run ops).1.isTerminal with
    | true => simp [isTerminal_perform decided op]
    | false => simp

theorem merge_decided (decided : b.isTerminal = true) (key : f.key = b.key)
    (version : f.version = b.version) (now : Millis) : b.merge f now = .ok (b, 0) := by
  rw [merge, if_neg (by simp [key, version]), if_pos decided]

/-- Whatever is done to a blob, it has gone onward from each of the states that it had in between. Once
it is decided, every fragment of it is accepted and brings nothing. If it was open at first, it has been
told once that it was decided if it is decided in the end, and never otherwise. -/
theorem life_goes_onward (b : Blob) (works : ∀ op ∈ ops, op.Works) :
    (∀ before after, before ++ after = ops → (b.run before).1.Onward (b.run ops).1) ∧
    ((b.run ops).1.isTerminal = true → ∀ f now, f.key = b.key → f.version = b.version →
      (b.run ops).1.merge f now = .ok ((b.run ops).1, 0)) ∧
    (b.isTerminal = false →
      (b.run ops).2.decisions = if (b.run ops).1.isTerminal then 1 else 0) := by
  refine ⟨?_, ?_, fun isOpen => decisions_run isOpen ops⟩
  · rintro before after rfl
    rw [run_append]
    exact onward_run _ fun op listed => works op (List.mem_append_right _ listed)
  · intro decided f now key version
    have same := same_run b ops
    exact merge_decided decided (key.trans same.key.symm) (version.trans same.version.symm) now

/-- A blob that is decided at the second attempt, and what comes too late for it. -/
def sampleLife : List Operation :=
  sampleSlices ++ [.settle, .applyHeaders [("Created", "5")] 40, .setPayload [120] 50]

theorem life_goes_onward_sample :
    (∀ op ∈ sampleLife, op.Works) ∧ (ofArrival "k" (.ofNumber 7) 0).isTerminal = false ∧
    ((ofArrival "k" (.ofNumber 7) 0).run sampleLife).1.status = .complete ∧
    ((ofArrival "k" (.ofNumber 7) 0).run sampleSlices).1.Onward
      ((ofArrival "k" (.ofNumber 7) 0).run sampleLife).1 ∧
    ((ofArrival "k" (.ofNumber 7) 0).run sampleLife).1.merge
      ⟨"k", .ofNumber 7, .payload, 4, 0, [120]⟩ 60 =
        .ok (((ofArrival "k" (.ofNumber 7) 0).run sampleLife).1, 0) ∧
    ((ofArrival "k" (.ofNumber 7) 0).run sampleLife).2.decisions = 1 := by
  have works : ∀ op ∈ sampleLife, op.Works := by
    simp [sampleLife, sampleSlices, Operation.Works]
  have complete : ((ofArrival "k" (.ofNumber 7) 0).run sampleLife).1.status = .complete := by
    decide +kernel
  obtain ⟨onward, merges, decisions⟩ := life_goes_onward (ofArrival "k" (.ofNumber 7) 0) works
  have decided := isTerminal_iff.mpr (.inl complete)
  refine ⟨works, rfl, complete, onward sampleSlices _ rfl, merges decided _ _ rfl rfl, ?_⟩
  rw [decisions rfl, if_pos decided]

end BlobReplica.Blob
