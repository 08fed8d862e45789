import BlobReplica.Proofs.Node.Gate

/-! Attempts at recovery that fail. One that was not answered, or not with what was asked for, leaves
everything as it was. An answer with several ranges is written part by part, though, and what stands
before the first part that does not fit stays written. -/

namespace BlobReplica

/-- A blob under assembly with parts written into it one after the other. -/
def Blob.splice (b : Blob) (a : Assembly) (parts : List Recovery.BytePart) (now : Millis) : Blob :=
  { b with
    payload := .assembling (parts.foldl (fun a part => (a.write part.offset part.data).1) a)
    lastTouched := max b.lastTouched now }

namespace Recovery

open Node (sampleNode sampleBlob sampleNode_shows)

variable {n : Node} {b b' : Blob} {a : Assembly} {request : FetchRequest} {r : FetchResponse}
  {response : Option FetchResponse} {taken parts rest : List BytePart} {part : BytePart} {e : Error}
  {now : Millis}

/-- The part ends within a payload of that length. -/
def BytePart.Fits (part : BytePart) (length : Nat) : Prop :=
  min (part.offset + part.data.length) Text.maxWord ≤ length

/-- An answer with ranges of which a later part does not fit, and what the parts before it make of the
blob. -/
inductive Interrupted (b : Blob) (response : Option FetchResponse) (now : Millis) : Blob → Prop where
  | cut {ranges : List ByteRange} {r : FetchResponse} {a : Assembly} {taken rest : List BytePart}
      {part : BytePart} (asked : request? b = some (.ranges ranges)) (answered : response = some r)
      (partial_ : r.status = 206) (carried : slices ranges r = .ok (taken ++ part :: rest))
      (begun : taken ≠ []) (payload : b.payload = .assembling a)
      (fit : ∀ p ∈ taken, p.Fits a.length) (misfit : ¬ part.Fits a.length) :
      Interrupted b response now (b.splice a taken now)

theorem addByteRange_fits (isOpen : b.isTerminal = false) (payload : b.payload = .assembling a)
    (fits : part.Fits a.length) (now : Millis) :
    b.addByteRange part.offset part.data now =
      .ok (b.splice a [part] now, (a.write part.offset part.data).2) := by
  rw [Blob.addByteRange, if_neg (by simp [isOpen])]
  simp only [payload]
  rw [if_neg (Nat.not_lt.mpr fits)]
  rfl

theorem addByteRange_misfit (isOpen : b.isTerminal = false) (payload : b.payload = .assembling a)
    (misfit : ¬ part.Fits a.length) (now : Millis) :
    ∃ e, b.addByteRange part.offset part.data now = .error e := by
  rw [Blob.addByteRange, if_neg (by simp [isOpen])]
  simp only [payload]
  rw [if_pos (Nat.lt_of_not_le misfit)]
  exact ⟨_, rfl⟩

theorem splice_cons (b : Blob) (a : Assembly) (part : BytePart) (parts : List BytePart) (now : Millis) :
    (b.splice a [part] now).splice (a.write part.offset part.data).1 parts now =
      b.splice a (part :: parts) now := by
  simp [Blob.splice]

theorem addParts_cut (isOpen : b.isTerminal = false) (payload : b.payload = .assembling a)
    (fit : ∀ p ∈ taken, p.Fits a.length) (misfit : ¬ part.Fits a.length) (rest : List BytePart)
    (now : Millis) : ∃ e, addParts now b (taken ++ part :: rest) =
      (if taken = [] then b else b.splice a taken now, some e) := by
  induction taken generalizing b a with
  | nil =>
    obtain ⟨e, refused⟩ := addByteRange_misfit isOpen payload misfit now
    exact ⟨.refused e.message, by simp only [List.nil_append, addParts, refused, if_true]⟩
  | cons first taken ih =>
    have written := addByteRange_fits isOpen payload (fit first List.mem_cons_self) now
    have length := Assembly.length_write a first.offset first.data
    have still : (b.splice a [first] now).isTerminal = false := isOpen
    obtain ⟨e, cut⟩ := ih still rfl (fun p listed => length.symm ▸ fit p (List.mem_cons_of_mem _ listed))
      (length.symm ▸ misfit)
    refine ⟨e, ?_⟩
    simp only [List.cons_append, addParts, written, cut, reduceCtorEq, if_false]
    cases taken with
    | nil => rfl
    | cons second taken =>
      rw [if_neg (by simp)]
      exact congrArg (·, some e) (splice_cons b a first _ now)

theorem addParts_refused (isOpen : b.isTerminal = false) (payload : b.payload = .assembling a)
    (refused : addParts now b parts = (b', some e)) :
    ∃ taken part rest, parts = taken ++ part :: rest ∧ (∀ p ∈ taken, p.Fits a.length) ∧
      ¬ part.Fits a.length := by
  induction parts generalizing b a with
  | nil => simp [addParts] at refused
  | cons first later ih =>
    by_cases fits : first.Fits a.length
    · rw [addParts, addByteRange_fits isOpen payload fits now] at refused
      have still : (b.splice a [first] now).isTerminal = false := isOpen
      obtain ⟨taken, part, rest, rfl, fit, misfit⟩ := ih still rfl refused
      have length := Assembly.length_write a first.offset first.data
      refine ⟨first :: taken, part, rest, rfl, fun p listed => ?_, length ▸ misfit⟩
      rcases List.mem_cons.mp listed with rfl | listed
      · exact fits
      · exact length ▸ fit p listed
    · exact ⟨[], first, later, rfl, by simp, fits⟩

theorem assembling_of_ranges {ranges : List ByteRange} (asked : request? b = some (.ranges ranges)) :
    ∃ a, b.payload = .assembling a := by
  rw [request?] at asked
  split at asked
  next => contradiction
  next =>
    cases payload : b.payload with
    | assembling a => exact ⟨a, rfl⟩
    | unknown | verified | discarded => simp [Blob.missingRanges, payload] at asked

/-- What a response that could not be used leaves of a blob. -/
theorem apply_refused (asked : request? b = some request) (answered : response = some r)
    (refused : apply b request r now = (b', some e)) : b' = b ∨ Interrupted b response now b' := by
  have isOpen := isOpen_of_request? asked
  unfold apply at refused
  simp only at refused
  split at refused
  next =>
    exact .inl (Prod.mk.inj refused).1.symm
  next expected =>
    have partial_ : r.status = request.expectedStatus := Decidable.not_not.mp expected
    split at refused
    next => simp at refused
    next => simp at refused
    next ranges =>
      split at refused
      next => exact .inl (Prod.mk.inj refused).1.symm
      next parts carried =>
        split at refused
        next b'' e' stopped =>
          obtain ⟨rfl, rfl⟩ : b'' = b' ∧ e' = e := by simpa using refused
          obtain ⟨a, payload⟩ := assembling_of_ranges asked
          obtain ⟨taken, part, rest, rfl, fit, misfit⟩ := addParts_refused isOpen payload stopped
          obtain ⟨_, cut⟩ := addParts_cut isOpen payload fit misfit rest now
          obtain ⟨rfl, _⟩ := Prod.mk.inj (stopped.symm.trans cut)
          split
          next => exact .inl rfl
          next begun => exact .inr (.cut asked answered partial_ carried begun payload fit misfit)
        next => simp at refused

theorem Interrupted.apply (interrupted : Interrupted b response now b') :
    ∃ request r e, request? b = some request ∧ response = some r ∧
      Recovery.apply b request r now = (b', some e) := by
  cases interrupted with
  | @cut ranges r a taken rest part asked answered partial_ carried begun payload fit misfit =>
    obtain ⟨e, cut⟩ := addParts_cut (isOpen_of_request? asked) payload fit misfit rest now
    rw [if_neg begun] at cut
    refine ⟨.ranges ranges, r, e, asked, answered, ?_⟩
    simp only [Recovery.apply, FetchRequest.expectedStatus, partial_, ne_eq, not_true_eq_false,
      if_false, carried, cut]

/-- A failed attempt leaves node and blob as they were, unless the answer was cut at a part that does
not fit: exactly then the parts before it stay written, wherever the blob is held. -/
theorem attempt_failed (shows : n.Shows b)
    (failed : (attempt n b response now).2.2 = .failed) :
    (attempt n b response now = (n, b, .failed) ∨
      ∃ b', Interrupted b response now b' ∧ attempt n b response now = (n.update b', b', .failed)) ∧
    ∀ b', Interrupted b response now b' →
      attempt n b response now = (n.update b', b', .failed) := by
  constructor
  · have attempts := attempts_attempt n b response now
    generalize attempt n b response now = result at *
    obtain ⟨n', b', achieved⟩ := result
    simp only at attempts failed
    subst failed
    cases attempts with
    | unanswered => exact .inl rfl
    | broken asked answered refused =>
      rcases apply_refused asked answered refused with rfl | interrupted
      · exact .inl (by rw [Node.update_self shows])
      · exact .inr ⟨b', interrupted, rfl⟩
  · intro b' interrupted
    obtain ⟨request, r, e, asked, rfl, applied⟩ := interrupted.apply
    simp only [attempt, asked, applied]

/-- The first part fits and the second one ends two bytes behind the payload. -/
def cutAnswer : FetchResponse where
  status := 206
  headers := [("content-type", "multipart/byteranges; boundary=XX")]
  body := Utf8.encode ("--XX\r\nContent-Range: bytes 0-1/10\r\n\r\nAB\r\n" ++
    "--XX\r\nContent-Range: bytes 8-12/10\r\n\r\nVWXYZ\r\n--XX--\r\n")

theorem attempt_failed_cut : sampleNode.Shows sampleBlob ∧
    (attempt sampleNode sampleBlob (some cutAnswer) 1000).2.2 = .failed ∧
    (attempt sampleNode sampleBlob (some cutAnswer) 1000 = (sampleNode, sampleBlob, .failed) ∨
    ∃ b', Interrupted sampleBlob (some cutAnswer) 1000 b' ∧
      attempt sampleNode sampleBlob (some cutAnswer) 1000 = (sampleNode.update b', b', .failed)) := by
  have failed : (attempt sampleNode sampleBlob (some cutAnswer) 1000).2.2 = .failed := by
    decide +kernel
  exact ⟨sampleNode_shows, failed, (attempt_failed sampleNode_shows failed).1⟩

/-- A failed attempt can leave a gap closed, in the cache as well. -/
theorem failed_attempt_writes :
    (attempt sampleNode sampleBlob (some cutAnswer) 1000).2.2 = .failed ∧
    sampleBlob.missingRanges = some [⟨0, 2⟩, ⟨6, 10⟩] ∧
    (attempt sampleNode sampleBlob (some cutAnswer) 1000).2.1.missingRanges = some [⟨6, 10⟩] ∧
    (attempt sampleNode sampleBlob (some cutAnswer) 1000).1.cache.find? "k" (.ofNumber 7) ≠
      sampleNode.cache.find? "k" (.ofNumber 7) := by
  decide +kernel

end Recovery
end BlobReplica
