import BlobReplica.Proofs.Assembly
import BlobReplica.Proofs.Except
import BlobReplica.Proofs.Node.Discarded
import BlobReplica.Proofs.Node.Order
import BlobReplica.Proofs.Node.Present
import BlobReplica.Service.Router

/-! What requests make of the cache. An upload brings one version or nothing, and a removal takes one
version or nothing; but an upload whose location fits no header is reported as failed and stays. -/

namespace BlobReplica

namespace Blob

variable {b : Blob} {key : String} {version : VersionId} {properties : Properties} {payload : Bytes}
  {now : Millis}

theorem payload_settle {a : Assembly} (isOpen : b.isTerminal = false)
    (assembled : b.payload = .assembling a) (complete : b.settle.1.isComplete = true) :
    b.settle.1.payload = .verified a.bytes := by
  have still : b.refresh.payload = .assembling a := assembled
  have incomplete : b.refresh.isComplete = false := decide_eq_false (status_of_isOpen isOpen).1
  revert complete
  rw [settle, if_neg (by simp [isOpen])]
  split
  next => simp [isComplete]
  next =>
    simp only [still]
    split
    next =>
      split
      next => exact fun _ => rfl
      next => simp [isComplete]
    next => simp [incomplete]

theorem payload_ofObject (made : ofObject key version properties payload now = .ok b) :
    b.isComplete = true ∧ b.payload = .verified payload := by
  let headed := (ofArrival key version now).applyHeaders properties.entries now
  have isOpen : headed.isTerminal = false :=
    (advances_applyHeaders (ofArrival key version now) properties.entries now).isTerminal
  have filled : (headed.setPayload payload now).payload = .assembling (Assembly.ofBytes payload) := by
    rw [setPayload, if_neg (by simp [isOpen])]
    rfl
  rw [ofObject] at made
  split at made
  next complete =>
    cases made
    have decided : (headed.setPayload payload now).settle.1.isComplete = true := complete
    have still := (advances_setPayload headed payload now).isTerminal.trans isOpen
    exact ⟨decided, (payload_settle still filled decided).trans
      (congrArg Payload.verified (Assembly.bytes_ofBytes payload))⟩
  next => contradiction

end Blob

namespace Cache

variable {c c' : Cache} {b x : Blob} {isNew : Bool}

/-- The second cache has one blob more than the first, and else the same. -/
structure Gains (c : Cache) (b : Blob) (c' : Cache) : Prop where
  own : (c'.versions b.key).Perm (b :: c.versions b.key)
  others : ∀ k, k ≠ b.key → c'.versions k = c.versions k
  marks : c'.marks = c.marks

theorem gains_insert (absent : c.find? b.key b.version = none)
    (inserted : c.insert b = .ok (c', x, isNew)) :
    x = { b with copy := c.copies } ∧ c.Gains x c' := by
  cases marked : c.isInvalid b.version with
  | true => simp [insert_eq_error absent marked] at inserted
  | false =>
    rw [insert_eq_ok absent marked] at inserted
    cases inserted
    refine ⟨rfl, ?_, fun k other => ?_, rfl⟩
    · rw [versions_setVersions, if_pos rfl]
      exact (List.mergeSort_perm _ _).trans (List.perm_append_singleton _ _)
    · rw [versions_setVersions, if_neg other]
      rfl

theorem gains_remove (sound : c.Sound) (stored : c.Stores b) :
    (c.remove b.key b.version).1.Gains b c := by
  have listed := sound.stores_iff.mp stored
  refine ⟨?_, fun k other => ?_, (marks_remove c b.key b.version).symm⟩
  · rw [sound.versions_remove, if_pos rfl, ← eraseP_eq_filter (sound.distinct b.key)]
    obtain ⟨y, front, rest, _, named, split, erased⟩ :=
      List.exists_of_eraseP (p := fun o : Blob => decide (o.version = b.version)) listed (by simp)
    obtain rfl : y = b := by
      refine sound.same_version ?_ listed (of_decide_eq_true named)
      simp [split]
    rw [erased]
    exact split ▸ List.perm_middle
  · rw [sound.versions_remove, if_neg other]

end Cache

namespace Service

variable {c c' : Cache} {p : Policy} {r : Http.Request} {o : Occasion} {q : ObjectRequest} {b : Blob}

/-- The object request that a path and headers stand for. -/
def Asks (r : Http.Request) (q : ObjectRequest) : Prop :=
  ∃ raw path, Route.ofPath? (Http.pathOf r.target) = some (.object raw) ∧
    Http.decodedPath? raw = some path ∧ ObjectRequest.parse path r.headers true = .ok q

/-- Whether a status tells of no change. -/
def quiet (status : Nat) : Bool :=
  status != 201 && status != 204

theorem quiet_response (e : Error) : quiet e.response.status = true := by
  cases e <;> rfl

section Decoded

variable {name raw : String} {f : String → Except Error (Cache × Http.Response)}

theorem decoded_ok {result : Cache × Http.Response} (accepted : decoded name raw f = .ok result) :
    ∃ text, Http.decodedPath? raw = some text ∧ f text = .ok result := by
  rw [decoded] at accepted
  split at accepted
  next => contradiction
  next text known => exact ⟨text, known, mapError_eq_ok.mp accepted⟩

theorem quiet_decoded {response : Http.Response} (refused : decoded name raw f = .error response) :
    quiet response.status = true := by
  rw [decoded] at refused
  split at refused
  next =>
    cases refused
    rfl
  next text _ =>
    cases made : f text with
    | error e =>
      rw [made] at refused
      exact Except.error.inj refused ▸ quiet_response e
    | ok x => rw [made] at refused; contradiction

end Decoded

theorem quiet_answer {route : Route} {response : Http.Response}
    (refused : answer p c r o route = .error response) : quiet response.status = true := by
  unfold answer at refused
  split at refused
  · contradiction
  · exact quiet_decoded refused
  · cases listed : browse c "" r.headers with
    | error e =>
      rw [listed] at refused
      exact Except.error.inj refused ▸ quiet_response e
    | ok x => rw [listed] at refused; contradiction
  · exact quiet_decoded refused
  · contradiction
  · exact quiet_decoded refused
  · exact quiet_decoded refused
  · exact quiet_decoded refused

/-- A request is turned down without a change, or its route answers it. -/
theorem routed_cases (p : Policy) (c : Cache) (r : Http.Request) (o : Occasion) :
    ((routed p c r o).1 = c ∧ quiet (routed p c r o).2.status = true) ∨
      ∃ route, Route.ofPath? (Http.pathOf r.target) = some route ∧ r.method ∈ route.methods ∧
        answer p c r o route = .ok (routed p c r o) := by
  rw [routed]
  split
  next => exact .inl ⟨rfl, rfl⟩
  next route found =>
    split
    next allowed =>
      cases answered : answer p c r o route with
      | ok result => exact .inr ⟨route, found, allowed, answered⟩
      | error response => exact .inl ⟨rfl, quiet_answer answered⟩
    next => exact .inl ⟨rfl, rfl⟩

/-- A request that can be uploaded: it has no version, and the object is valid for some time. -/
structure Uploadable (q : ObjectRequest) (start : Millis) : Prop where
  unversioned : q.version = none
  started : q.startTime = some start
  ordered : ∀ stop, q.endTime = some stop → start < stop

theorem upload_eq_ok_iff {path : String} {headers : Http.Headers} {body : Bytes}
    {response : Http.Response} : upload c path headers body o = .ok (c', response) ↔
      ∃ q start b, ObjectRequest.parse path headers true = .ok q ∧ Uploadable q start ∧
        c.insertObject q.key o.fresh (uploadProperties q.flags start q.endTime o.clock
          (headers.readable? Property.contentType) body) body o.clock = .ok (c', b) ∧
        response = withLocation (jsonResponse 201 (objectSummary b)) 500 (objectLocation b) := by
  constructor
  · intro accepted
    rw [upload] at accepted
    split at accepted
    next => contradiction
    next q read =>
      split at accepted
      next => contradiction
      next unversioned =>
        split at accepted
        next => contradiction
        next start started =>
          split at accepted
          next => contradiction
          next ordered =>
            simp only at accepted
            split at accepted
            next => contradiction
            next b stored =>
              cases accepted
              have later : ∀ stop, q.endTime = some stop → start < stop := by
                intro stop given
                simpa using Option.filter_eq_none_iff.mp ordered stop given
              exact ⟨q, start, b, mapError_eq_ok.mp read, ⟨by simpa using unversioned, started, later⟩,
                stored, rfl⟩
  · rintro ⟨q, start, b, read, uploadable, stored, rfl⟩
    have ordered : q.endTime.filter (· ≤ start) = none := by
      rw [Option.filter_eq_none_iff]
      intro stop given
      simpa using uploadable.ordered stop given
    have asked : request path headers true = .ok q := mapError_eq_ok.mpr read
    simp only [upload, asked, uploadable.unversioned, uploadable.started, ordered, stored]
    rfl

theorem deleteObject_ok {path : String} {response : Http.Response}
    (accepted : deleteObject c path r.headers = .ok (c', response)) :
    ∃ q b, ObjectRequest.parse path r.headers true = .ok q ∧
      c.lookupBest q.key q.constraints = some b ∧ c' = (c.remove b.key b.version).1 ∧
      response = { status := 204 } := by
  rw [deleteObject] at accepted
  cases read : request path r.headers true with
  | error e => rw [read] at accepted; contradiction
  | ok q =>
    rw [read] at accepted
    cases found : c.lookupBest q.key q.constraints with
    | none => simp [best, found, bind, Except.bind] at accepted
    | some b =>
      refine ⟨q, b, mapError_eq_ok.mp read, found, ?_⟩
      simp only [best, found, bind, Except.bind] at accepted
      split at accepted
      next removed =>
        cases accepted
        exact ⟨by rw [removed], rfl⟩
      next => contradiction

theorem route_of_method {route : Route} (allowed : r.method ∈ route.methods)
    (method : r.method = "POST" ∨ r.method = "DELETE") : ∃ raw, route = .object raw := by
  cases route with
  | object raw => exact ⟨raw, rfl⟩
  | health | download | browseRoot | browse =>
    rcases method with same | same <;> simp [same, Route.methods] at allowed

theorem answer_post {raw : String} {response : Http.Response} (post : r.method = "POST")
    (accepted : answer p c r o (.object raw) = .ok (c', response)) :
    (c' = c ∧ quiet response.status = true) ∨
      ∃ path, Http.decodedPath? raw = some path ∧
        upload c path r.headers r.body o = .ok (c', response) := by
  simp only [answer, post] at accepted
  obtain ⟨path, known, made⟩ := decoded_ok accepted
  split at made
  next =>
    cases made
    exact .inl ⟨rfl, rfl⟩
  next => exact .inr ⟨path, known, made⟩

theorem answer_delete {raw : String} {response : Http.Response} (delete : r.method = "DELETE")
    (accepted : answer p c r o (.object raw) = .ok (c', response)) :
    ∃ path, Http.decodedPath? raw = some path ∧
      deleteObject c path r.headers = .ok (c', response) := by
  simp only [answer, delete] at accepted
  exact decoded_ok accepted

theorem answer_other {route : Route} {response : Http.Response} (post : r.method ≠ "POST")
    (delete : r.method ≠ "DELETE") (accepted : answer p c r o route = .ok (c', response)) :
    c' = c := by
  have same {x : Except Error Http.Response}
      (made : (x.map fun response => (c, response)) = .ok (c', response)) : c' = c := by
    cases x with
    | error e => contradiction
    | ok y => exact (congrArg Prod.fst (Except.ok.inj made)).symm
  unfold answer at accepted
  split at accepted
  · exact (congrArg Prod.fst (Except.ok.inj accepted)).symm
  · exact same (decoded_ok accepted).choose_spec.2
  · exact same (mapError_eq_ok.mp accepted)
  · exact same (decoded_ok accepted).choose_spec.2
  · exact (congrArg Prod.fst (Except.ok.inj accepted)).symm
  next found => exact absurd found post
  next found => exact absurd found delete
  · exact same (decoded_ok accepted).choose_spec.2

theorem handle_of_method (method : r.method ≠ "OPTIONS") :
    (handle p c r o).1 = (routed p c r o).1 ∧
      (handle p c r o).2.status = (routed p c r o).2.status := by
  simp only [handle, opened, if_neg method]
  split <;> exact ⟨rfl, rfl⟩

theorem handle_other (post : r.method ≠ "POST") (delete : r.method ≠ "DELETE") :
    (handle p c r o).1 = c := by
  have kept : (routed p c r o).1 = c := by
    rcases routed_cases p c r o with ⟨kept, _⟩ | ⟨_, _, _, answered⟩
    · exact kept
    · exact answer_other post delete answered
  simp only [handle, opened]
  split
  next =>
    split
    next => rfl
    next => exact kept
  next => exact kept

/-! ### Outcomes -/

/-- The blob that an upload brings, and the cache with it. -/
structure Brings (c : Cache) (r : Http.Request) (o : Occasion) (b : Blob) (c' : Cache) : Prop where
  asked : ∃ q, Asks r q ∧ b.key = q.key
  version : b.version = o.fresh
  complete : b.isComplete = true
  payload : b.payload = .verified r.body
  gains : c.Gains b c'

theorem brings_insertObject {properties : Properties}
    (fresh : ∀ b, c.Stores b → b.version ≠ o.fresh) (asks : Asks r q)
    (stored : c.insertObject q.key o.fresh properties r.body o.clock = .ok (c', b)) :
    Brings c r o b c' := by
  obtain ⟨x, isNew, made, inserted⟩ := Cache.insertObject_eq_ok stored
  have same := Blob.same_ofObject made
  obtain ⟨complete, payload⟩ := Blob.payload_ofObject made
  have absent : c.find? x.key x.version = none := by
    refine Cache.Sound.find?_eq_none.mpr fun y listed => ?_
    exact same.version ▸ fresh y ⟨x.key, listed⟩
  obtain ⟨rfl, gains⟩ := Cache.gains_insert absent inserted
  exact ⟨⟨q, asks, same.key⟩, same.version, complete, payload, gains⟩

/-- What an upload or a removal makes of the cache, and the status that it has. -/
inductive Outcome (c : Cache) (r : Http.Request) (o : Occasion) : Cache → Nat → Prop where
  | unchanged {status : Nat} (calm : quiet status = true) : Outcome c r o c status
  | stored {c' : Cache} {b : Blob} (brings : Brings c r o b c') : Outcome c r o c' 201
  /-- The blob is stored, but no header can hold its location. -/
  | stranded {c' : Cache} {b : Blob} (brings : Brings c r o b c')
      (unfit : Http.isHeaderValue (objectLocation b) = false) : Outcome c r o c' 500
  | removed {c' : Cache} {q : ObjectRequest} {b : Blob} (asks : Asks r q)
      (found : c.lookupBest q.key q.constraints = some b) (gains : c'.Gains b c) :
      Outcome c r o c' 204

theorem outcome_post (fresh : ∀ b, c.Stores b → b.version ≠ o.fresh) (post : r.method = "POST") :
    Outcome c r o (routed p c r o).1 (routed p c r o).2.status := by
  rcases routed_cases p c r o with ⟨kept, calm⟩ | ⟨route, found, allowed, answered⟩
  · rw [kept]
    exact .unchanged calm
  · generalize routed p c r o = result at answered ⊢
    obtain ⟨c', response⟩ := result
    obtain ⟨raw, rfl⟩ := route_of_method allowed (.inl post)
    rcases answer_post post answered with ⟨rfl, calm⟩ | ⟨path, known, accepted⟩
    · exact .unchanged calm
    · obtain ⟨q, _, b, parsed, _, stored, rfl⟩ := upload_eq_ok_iff.mp accepted
      have brings := brings_insertObject fresh ⟨raw, path, found, known, parsed⟩ stored
      rw [withLocation]
      split
      next => exact .stored brings
      next unfit => exact .stranded brings (Bool.eq_false_iff.mpr unfit)

theorem outcome_delete (sound : c.Sound) (delete : r.method = "DELETE") :
    Outcome c r o (routed p c r o).1 (routed p c r o).2.status := by
  rcases routed_cases p c r o with ⟨kept, calm⟩ | ⟨route, found, allowed, answered⟩
  · rw [kept]
    exact .unchanged calm
  · generalize routed p c r o = result at answered ⊢
    obtain ⟨c', response⟩ := result
    obtain ⟨raw, rfl⟩ := route_of_method allowed (.inr delete)
    obtain ⟨path, known, accepted⟩ := answer_delete delete answered
    obtain ⟨q, b, parsed, best, rfl, rfl⟩ := deleteObject_ok accepted
    have listed := (Cache.of_lookupBest best).1
    exact .removed ⟨raw, path, found, known, parsed⟩ best (Cache.gains_remove sound ⟨_, listed⟩)

/-- Whatever was done to a node before, a request that is neither an upload nor a removal leaves its
cache as it is. After the others the status tells: with 201 the cache has one more version, complete,
under the key that was asked for, with 204 it is without the best match, and else it is as it was, unless
an upload failed only because no header can hold the location of what it stored. -/
theorem requests_atomic {grace : Millis} {n : Node} {h : Node.History}
    (run : Node.Run Node.Regular (.empty grace) h n)
    (fresh : ∀ b, n.cache.Stores b → b.version ≠ o.fresh) (p : Policy) (r : Http.Request) :
    (r.method ≠ "POST" → r.method ≠ "DELETE" → (handle p n.cache r o).1 = n.cache) ∧
    (r.method = "POST" ∨ r.method = "DELETE" →
      ((handle p n.cache r o).2.status = 201 → ∃ b, Brings n.cache r o b (handle p n.cache r o).1) ∧
      ((handle p n.cache r o).2.status = 204 → ∃ q b, Asks r q ∧
        n.cache.lookupBest q.key q.constraints = some b ∧
        (handle p n.cache r o).1.Gains b n.cache) ∧
      ((handle p n.cache r o).2.status ≠ 201 → (handle p n.cache r o).2.status ≠ 204 →
        (handle p n.cache r o).1 = n.cache ∨
          (handle p n.cache r o).2.status = 500 ∧ ∃ b, Brings n.cache r o b (handle p n.cache r o).1 ∧
            Http.isHeaderValue (objectLocation b) = false)) := by
  refine ⟨handle_other, fun method => ?_⟩
  have outcome : Outcome n.cache r o (handle p n.cache r o).1 (handle p n.cache r o).2.status := by
    have answered : r.method ≠ "OPTIONS" := by
      rcases method with same | same <;> simp [same]
    rw [(handle_of_method answered).1, (handle_of_method answered).2]
    rcases method with post | delete
    · exact outcome_post fresh post
    · exact outcome_delete (Node.tidy_run run).toSound delete
  generalize (handle p n.cache r o).1 = after at outcome ⊢
  generalize (handle p n.cache r o).2.status = status at outcome ⊢
  cases outcome with
  | unchanged calm =>
    refine ⟨?_, ?_, fun _ _ => .inl rfl⟩
    · rintro rfl
      contradiction
    · rintro rfl
      contradiction
  | stored brings => exact ⟨fun _ => ⟨_, brings⟩, nofun, fun other => absurd rfl other⟩
  | stranded brings unfit => exact ⟨nofun, nofun, fun _ _ => .inr ⟨rfl, _, brings, unfit⟩⟩
  | removed asks found gains =>
    exact ⟨nofun, fun _ => ⟨_, _, asks, found, gains⟩, fun _ other => absurd rfl other⟩

/-- One byte for a path. -/
def sampleUpload (target : String) : Http.Request :=
  { method := "POST", target, body := [97] }

def sampleOccasion : Occasion where
  clock := 10
  fresh := .ofNumber 7
  separator := .ofNumber 8

/-- A line break in the key fits no header: the upload fails, and its object is there. -/
theorem upload_stranded :
    (handle {} (Node.empty 10000).cache (sampleUpload "/a%0Ab/1") sampleOccasion).2.status = 500 ∧
    (Node.empty 10000).cache.keys = [] ∧
    (handle {} (Node.empty 10000).cache (sampleUpload "/a%0Ab/1") sampleOccasion).1.keys =
      ["a\nb"] := by
  decide +kernel

/-- Two objects and a mark, none of them of the version that the next upload gets. -/
def sampleHeld : Node :=
  (((Node.empty 10000).perform (.insertObject "k" (.ofNumber 1) (Node.sampleTold 0) [97] 2)).perform
    (.insertObject "a" (.ofNumber 2) (Node.sampleTold 0) [97] 3)).perform (.markInvalid (.ofNumber 3) 4)

theorem run_sampleHeld : ∃ h, Node.Run Node.Regular (.empty 10000) h sampleHeld :=
  ⟨_, .step (.step (.step .start trivial) trivial) trivial⟩

theorem fresh_sampleHeld {b : Blob} (stored : sampleHeld.cache.Stores b) :
    b.version ≠ sampleOccasion.fresh := by
  have others : ∀ entry ∈ sampleHeld.cache.lists.entries, ∀ b ∈ entry.2,
      b.version ≠ sampleOccasion.fresh := by
    decide +kernel
  obtain ⟨k, listed⟩ := stored
  obtain ⟨blobs, entry, member⟩ := Cache.mem_versions.mp listed
  exact others (k, blobs) entry b member

/-- One more version of an object comes, and all else that is held stays. -/
theorem requests_atomic_sample :
    (∃ h, Node.Run Node.Regular (.empty 10000) h sampleHeld) ∧
    (∀ b, sampleHeld.cache.Stores b → b.version ≠ sampleOccasion.fresh) ∧
    (handle {} sampleHeld.cache (sampleUpload "/k/1") sampleOccasion).2.status = 201 ∧
    ∃ b, Brings sampleHeld.cache (sampleUpload "/k/1") sampleOccasion b
      (handle {} sampleHeld.cache (sampleUpload "/k/1") sampleOccasion).1 := by
  have fresh (b : Blob) := fresh_sampleHeld (b := b)
  have accepted :
      (handle {} sampleHeld.cache (sampleUpload "/k/1") sampleOccasion).2.status = 201 := by
    decide +kernel
  obtain ⟨h, run⟩ := run_sampleHeld
  have outcome := (requests_atomic run fresh {} (sampleUpload "/k/1")).2 (.inl rfl)
  exact ⟨⟨h, run⟩, fresh, accepted, outcome.1 accepted⟩

end Service
end BlobReplica
