import BlobReplica.Proofs.Cache.Queries
import BlobReplica.Proofs.Node.Gate
import BlobReplica.Proofs.Node.Present
import BlobReplica.Proofs.Service.Object
import BlobReplica.Proofs.Service.Upload

/-! Where objects are found again. The path that a redirect or an upload names spells the key, the start and
the version of its object, so it is read as a request for this version alone. That request is answered as long
as the object is valid at its start, which the widest start that a number tells leaves no room for. -/

namespace BlobReplica

namespace ObjectRequest

variable {path token : String} {q r : ObjectRequest} {b : Blob} {elements : List String} {n : Millis}
  {headers asked : Http.Headers}

/-! ### Tokens of a location -/

theorem unnumbered_version (v : VersionId) (n : Millis) : ¬ IsNumber v.text n := by
  intro number
  refine number.free ?_
  rw [VersionId.text, String.toList_ofList]
  simp [VersionId.chars]

theorem isPlain_toString (n : Nat) : IsPlain (toString n) := by
  have apart {mark : Char} (other : mark.isDigit = false) : mark ∉ (toString n).toList := by
    intro member
    rw [Text.toList_toString] at member
    exact Text.digit_ne (Text.isDigit_of_mem_digits member) other rfl
  refine ⟨?_, apart (by decide), by simpa [isFlag] using apart (by decide)⟩
  intro empty
  have digits : Text.digits n = [] := by rw [← Text.toList_toString, empty]; rfl
  exact Nat.toDigits_ne_nil digits

theorem isPlain_version (v : VersionId) : IsPlain v.text := by
  have apart {mark : Char} (other : ¬ (mark.isAlphanum = true ∨ mark = '-')) : mark ∉ v.text.toList :=
    fun member => other (VersionId.mem_text member)
  refine ⟨?_, apart (by decide), by simpa [isFlag] using apart (by decide)⟩
  intro empty
  have long := VersionId.length_chars v
  rw [← String.toList_ofList (l := v.chars), ← VersionId.text, empty] at long
  contradiction

/-- A location has the elements of the key for its tokens, then the start and the version. -/
theorem tokens_location (nonempty : elements ≠ []) (plain : ∀ t ∈ elements, IsPlain t)
    (key : b.key = "/".intercalate elements) : tokens (Service.objectLocation b) =
      elements ++ [toString b.validity.start, b.version.text] := by
  have chars : (Service.objectLocation b).toList = [] ++ '/' :: (b.key.toList ++
      '/' :: ((toString b.validity.start).toList ++ '/' :: b.version.text.toList)) := by
    simp only [Service.objectLocation, String.toList_append, List.append_assoc]
    rfl
  have pieces : Text.splitAt '/' b.key.toList = elements.map String.toList := by
    rw [key, String.toList_intercalate]
    refine Text.splitAt_intercalate (by simpa using nonempty) fun p member => ?_
    obtain ⟨t, listed, rfl⟩ := List.mem_map.mp member
    exact (plain t listed).unslashed
  have start := isPlain_toString b.validity.start
  have version := isPlain_version b.version
  have kept : elements.filter (· ≠ "") = elements :=
    List.filter_eq_self.mpr fun t member => by simpa using (plain t member).nonempty
  have back : (elements.map String.toList).map String.ofList = elements := by simp
  rw [tokens, Text.split, chars, Text.splitAt_marked, Text.splitAt_marked, pieces,
    Text.splitAt_append start.unslashed, Text.splitAt_free version.unslashed, List.map_append,
    List.map_append, back, List.filter_append, List.filter_append, kept]
  generalize toString b.validity.start = token at start
  simp [Text.splitAt, start.nonempty, version.nonempty]

/-! ### The request that a location spells -/

/-- The request for one version from its start on, with the path of another request. -/
def located (q : ObjectRequest) (b : Blob) : ObjectRequest :=
  { path := q.path, startTime := some b.validity.start, version := some b.version }

/-- The location of a blob is read as a request for its version, whatever request the blob was found by. -/
theorem parse_location (read : parse path headers true = .ok q) (key : b.key = q.key)
    (bound : b.validity.start ≤ Text.maxWord) (asked : Http.Headers) :
    parse (Service.objectLocation b) asked true = .ok ((q.located b).withHeaders asked) := by
  obtain ⟨spells, _⟩ := parse_eq_ok_iff.mp read
  obtain ⟨token, _, rest, plain, _⟩ := spells.timed
  have elements : ∀ t ∈ q.path, IsPlain t := by
    intro t member
    apply isPlain_of_mem
    rw [plain]
    exact List.mem_append_left _ member
  have spelled : tokens (Service.objectLocation b) =
      q.path ++ [toString b.validity.start, b.version.text] :=
    tokens_location (List.length_pos_iff.mp spells.nonempty) elements key
  have unflagged : ∀ t ∈ tokens (Service.objectLocation b), isFlag t = false := by
    intro t member
    rw [spelled] at member
    rcases List.mem_append.mp member with member | member
    · exact (elements t member).unflagged
    · simp only [List.mem_cons, List.not_mem_nil, or_false] at member
      rcases member with rfl | rfl
      · exact (isPlain_toString _).unflagged
      · exact (isPlain_version _).unflagged
  obtain ⟨whole, given⟩ := plainTokens_eq unflagged
  apply parse_eq_ok_iff.mpr
  refine ⟨?_, by rw [given]; rfl, rfl⟩
  refine ⟨spells.nonempty, spells.few, spells.unnumbered, _, _, _, whole.trans spelled,
    isNumber_toString bound, rfl, ?_⟩
  exact .version (unnumbered_version b.version) (VersionId.parse?_text b.version) .nothing

theorem satisfies_located : b.satisfies ((q.located b).withHeaders asked).constraints = true ↔
    b.validity.start < b.validity.stop ∧
      ((q.located b).withHeaders asked).constraints.acceptsCreated b.created = true := by
  have covers : b.validity.covers b.validity.start = true ↔ b.validity.start < b.validity.stop := by
    simp [Validity.covers]
  rw [Blob.satisfies_iff, ← covers]
  simp [located, withHeaders, constraints, Table.empty]

end ObjectRequest

/-! ### Answers -/

/-- A cache whose complete blobs all have their bytes. -/
structure Cache.Serves (c : Cache) : Prop extends c.Sound where
  whole : ∀ b, c.Stores b → b.isComplete = true → ∃ payload, b.payload? = some payload

theorem Node.Grown.serves {n : Node} (grown : n.Grown) : n.cache.Serves where
  toSound := grown.cache
  whole b stored complete := by
    obtain ⟨payload, shown, _⟩ := (grown.arises b (.inl stored)).gated.vouched.payload complete
    exact ⟨payload, shown⟩

namespace Service

variable {c c' : Cache} {path : String} {headers asked : Http.Headers} {separator : VersionId}
  {q : ObjectRequest} {b : Blob} {o : Occasion} {body : Bytes} {response : Http.Response}

/-- The answer to a request that has a best match. -/
def objectAnswer (q : ObjectRequest) (b : Blob) (headers : Http.Headers) (separator : VersionId) :
    Http.Response :=
  if q.cachedVersion = some b.version then { status := 304, headers := [("etag", etag b)] }
  else if q.version.isSome then serve b headers separator
  else withLocation { status := 302 } 302 (objectLocation b)

theorem getObject_of_parse (read : ObjectRequest.parse path headers true = .ok q) (c : Cache)
    (separator : VersionId) : getObject c path headers separator =
      match c.lookupBest q.key q.constraints with
      | some b => .ok (objectAnswer q b headers separator)
      | none => .error .notFound := by
  have asks : request path headers true = .ok q := mapError_eq_ok.mpr read
  rw [getObject, asks]
  simp only [best, bind, Except.bind]
  cases c.lookupBest q.key q.constraints with
  | none => rfl
  | some b =>
    simp only [objectAnswer]
    split
    next => rfl
    next => split <;> rfl

theorem getObject_ok (accepted : getObject c path headers separator = .ok response) :
    ∃ q b, ObjectRequest.parse path headers true = .ok q ∧
      c.lookupBest q.key q.constraints = some b ∧ response = objectAnswer q b headers separator := by
  cases read : ObjectRequest.parse path headers true with
  | error e =>
    rw [getObject, request, read] at accepted
    contradiction
  | ok q =>
    rw [getObject_of_parse read] at accepted
    cases found : c.lookupBest q.key q.constraints with
    | none =>
      rw [found] at accepted
      contradiction
    | some b =>
      rw [found] at accepted
      exact ⟨q, b, rfl, found, (Except.ok.inj accepted).symm⟩

theorem location_withLocation {r : Http.Response} {failing : Nat} (location : String) :
    (withLocation r failing location).headers.get? "Location" =
      if Http.isHeaderValue location then some location else none := by
  rw [withLocation]
  split
  next valid =>
    exact (Http.Headers.gives_set _ (Text.sameName_refl _) (by decide) valid).get?
  next => rfl

/-- A request for the location of a blob, which its key lists once, finds the blob if that was valid for some
time and its creation is accepted. -/
theorem lookupBest_located (key : b.key = q.key) (listed : b ∈ c.versions b.key)
    (complete : b.isComplete = true) (only : ∀ x ∈ c.versions b.key, x.version = b.version → x = b)
    (asked : Http.Headers) :
    c.lookupBest ((q.located b).withHeaders asked).key ((q.located b).withHeaders asked).constraints =
      if b.satisfies ((q.located b).withHeaders asked).constraints then some b else none := by
  rw [key] at listed only
  exact Cache.lookupBest_only listed complete only rfl

theorem getObject_located
    (parsed : ObjectRequest.parse (objectLocation b) asked true = .ok ((q.located b).withHeaders asked))
    (found : c.lookupBest ((q.located b).withHeaders asked).key
      ((q.located b).withHeaders asked).constraints = some b)
    (uncached : ((q.located b).withHeaders asked).cachedVersion ≠ some b.version) (separator : VersionId) :
    getObject c (objectLocation b) asked separator = .ok (serve b asked separator) := by
  rw [getObject_of_parse parsed, found]
  simp only [objectAnswer, if_neg uncached]
  rfl

/-! ### Redirects -/

theorem answer_of_redirect {payload : Bytes} (whole : b.payload? = some payload)
    (redirected : (objectAnswer q b headers separator).status = 302) : q.cachedVersion ≠ some b.version ∧
      objectAnswer q b headers separator = withLocation { status := 302 } 302 (objectLocation b) := by
  rw [objectAnswer] at redirected ⊢
  split at redirected
  next => simp at redirected
  next uncached =>
    refine ⟨uncached, ?_⟩
    rw [if_neg uncached]
    split at redirected
    next =>
      have served := status_serve headers separator whole
      rw [redirected] at served
      contradiction
    next unversioned => rw [if_neg unversioned]

/-- Whatever the path and the headers of a request are, if it is answered by a redirect then the location is
that of its best match, unless no header can hold it. The location is a request for this blob under the same
headers, and its answer is the blob, or tells that some range of it cannot be given. -/
theorem redirect_leads (serves : c.Serves) (accepted : getObject c path headers separator = .ok response)
    (redirected : response.status = 302) (again : VersionId) :
    ∃ q b q', ObjectRequest.parse path headers true = .ok q ∧
      c.lookupBest q.key q.constraints = some b ∧
      response.headers.get? "Location" =
        (if Http.isHeaderValue (objectLocation b) then some (objectLocation b) else none) ∧
      ObjectRequest.parse (objectLocation b) headers true = .ok q' ∧
      c.lookupBest q'.key q'.constraints = some b ∧
      getObject c (objectLocation b) headers again = .ok (serve b headers again) ∧
      (serve b headers again).status ∈ [200, 206, 416] := by
  obtain ⟨q, b, read, found, rfl⟩ := getObject_ok accepted
  obtain ⟨spells, _, headed⟩ := ObjectRequest.parse_eq_ok_iff.mp read
  obtain ⟨⟨member, complete, satisfies⟩, _⟩ := serves.toSound.lookupBest_eq_some.mp found
  obtain ⟨_, timed, accepts, _⟩ := Blob.satisfies_iff.mp satisfies
  obtain ⟨_, time, _, _, _, started, _⟩ := spells.timed
  have key : b.key = q.key := serves.keyed _ b member
  obtain ⟨payload, whole⟩ := serves.whole b ⟨_, member⟩ complete
  obtain ⟨uncached, answer⟩ := answer_of_redirect whole redirected
  have covers : b.validity.start ≤ time ∧ time < b.validity.stop := by
    simpa [Validity.covers] using timed time started
  have bound : b.validity.start ≤ Text.maxWord := covers.1.trans (spells.times_le.1 time started)
  have parsed := ObjectRequest.parse_location read key bound headers
  have accepts' : ((q.located b).withHeaders headers).constraints.acceptsCreated b.created = true := by
    rw [← headed] at accepts
    exact accepts
  have satisfies' : b.satisfies ((q.located b).withHeaders headers).constraints = true :=
    ObjectRequest.satisfies_located.mpr ⟨covers.1.trans_lt covers.2, accepts'⟩
  have listed : b ∈ c.versions b.key := key ▸ member
  have found' := lookupBest_located key listed complete
    (fun x hx named => serves.same_version hx listed named) headers
  rw [satisfies', if_pos rfl] at found'
  have uncached' : ((q.located b).withHeaders headers).cachedVersion ≠ some b.version := by
    rw [← headed] at uncached
    exact uncached
  refine ⟨q, b, _, read, found, ?_, parsed, found', getObject_located parsed found' uncached' again,
    status_serve headers again whole⟩
  rw [answer, location_withLocation]

/-- A node that has taken in one byte under a key. -/
def sampleStored (key : String) : Node :=
  (Node.empty 10000).perform (.insertObject key (.ofNumber 7) (Node.sampleTold 0) [97] 10)

theorem serves_sampleStored (key : String) : (sampleStored key).cache.Serves := by
  have permitted : Node.Permits (Node.empty 10000)
      (.insertObject key (.ofNumber 7) (Node.sampleTold 0) [97] 10) := trivial
  exact (Node.Grown.run (.step .start permitted)).serves

theorem redirect_leads_sample :
    (sampleStored "k").cache.Serves ∧
    ∃ response location, getObject (sampleStored "k").cache "k/1" [] (.ofNumber 8) = .ok response ∧
      response.status = 302 ∧ response.headers.get? "Location" = some location ∧
      ∃ b, getObject (sampleStored "k").cache location [] (.ofNumber 9) = .ok (serve b [] (.ofNumber 9)) ∧
        (serve b [] (.ofNumber 9)).status ∈ [200, 206, 416] := by
  have serves := serves_sampleStored "k"
  have told : ((getObject (sampleStored "k").cache "k/1" [] (.ofNumber 8)).toOption.map fun r =>
      (r.status, (r.headers.get? "Location").isSome)) = some (302, true) := by
    decide +kernel
  obtain ⟨response, answered, same⟩ := Option.map_eq_some_iff.mp told
  obtain ⟨redirected, named⟩ := Prod.mk.inj same
  have accepted := toOption_eq_some.mp answered
  obtain ⟨_, b, _, _, _, location, _, _, served, status⟩ :=
    redirect_leads serves accepted redirected (.ofNumber 9)
  have valid : Http.isHeaderValue (objectLocation b) = true := by
    by_contra unfit
    rw [location, if_neg unfit] at named
    contradiction
  rw [if_pos valid] at location
  exact ⟨serves, response, _, accepted, redirected, location, b, served, status⟩

/-- A line break in the key fits no header, so the redirect leads nowhere. -/
theorem redirect_unnamed :
    (sampleStored "a\nb").cache.Serves ∧
    ∃ response, getObject (sampleStored "a\nb").cache "a\nb/1" [] (.ofNumber 8) = .ok response ∧
      response.status = 302 ∧ response.headers.get? "Location" = none := by
  have told : ((getObject (sampleStored "a\nb").cache "a\nb/1" [] (.ofNumber 8)).toOption.map fun r =>
      (r.status, r.headers.get? "Location")) = some (302, none) := by
    decide +kernel
  obtain ⟨response, answered, same⟩ := Option.map_eq_some_iff.mp told
  obtain ⟨redirected, unnamed⟩ := Prod.mk.inj same
  exact ⟨serves_sampleStored _, response, toOption_eq_some.mp answered, redirected, unnamed⟩

/-! ### Uploads -/

/-- Headers without conditions and without a range. -/
structure Unconditional (asked : Http.Headers) : Prop where
  match_ : asked.readable? "If-None-Match" = none
  notAfter : asked.readable? "If-Not-After" = none
  notBefore : asked.readable? "If-Not-Before" = none
  range : asked.readable? "Range" = none

/-- An object is valid for some time unless it starts at the end of all times. -/
theorem Uploaded.lasting_iff {kind : Option String} {start clock : Millis}
    (uploaded : Uploaded b q kind body clock) (uploadable : Uploadable q start)
    (stopBound : ∀ n, q.endTime = some n → n ≤ Millis.unbounded) (bound : start ≤ Millis.unbounded) :
    b.validity.start < b.validity.stop ↔ start ≠ Millis.unbounded := by
  have same : start = b.validity.start :=
    Option.some.inj (uploadable.started.symm.trans uploaded.start)
  rw [uploaded.stop, ← same]
  cases given : q.endTime with
  | some stop =>
    have later := uploadable.ordered stop given
    exact iff_of_true later (Nat.ne_of_lt (later.trans_le (stopBound stop given)))
  | none =>
    rw [Option.getD_none, Nat.lt_iff_le_and_ne]
    exact and_iff_right bound

/-- Whatever the path, the headers and the body of an upload under a new version are, if it is reported as
created then its location is a request, and a fetch from there without conditions has exactly the body for
its answer, unless the object starts at the largest time that there is. That time stands for no end as well,
so then the object is valid at no time and the fetch does not find it. -/
theorem upload_fetched (fresh : ∀ x, c.Stores x → x.version ≠ o.fresh)
    (clockBound : o.clock ≤ Millis.unbounded)
    (accepted : upload c path headers body o = .ok (c', response)) (created : response.status = 201)
    (unconditional : Unconditional asked) (separator : VersionId) :
    ∃ q q' location, ObjectRequest.parse path headers true = .ok q ∧
      response.headers.get? "Location" = some location ∧
      ObjectRequest.parse location asked true = .ok q' ∧
      (q.startTime ≠ some Millis.unbounded → ∃ answer,
        getObject c' location asked separator = .ok answer ∧ answer.status = 200 ∧ answer.body = body) ∧
      (q.startTime = some Millis.unbounded →
        getObject c' location asked separator = .error .notFound) := by
  obtain ⟨q, start, b, read, uploadable, stored, rfl⟩ := upload_eq_ok_iff.mp accepted
  obtain ⟨spells, _⟩ := ObjectRequest.parse_eq_ok_iff.mp read
  obtain ⟨startBounds, stopBound⟩ := spells.times_le
  have startBound := startBounds start uploadable.started
  have intact := intact_uploadPublication q start o (headers.readable? Property.contentType) body
  obtain ⟨gains, received⟩ := Cache.received_insertObject intact fresh stored
  have uploaded := uploaded_of_received received uploadable.started startBound stopBound clockBound
  have valid : Http.isHeaderValue (objectLocation b) = true := by
    rw [withLocation] at created
    split at created
    next valid => exact valid
    next => contradiction
  have key : b.key = q.key := received.key
  have same : start = b.validity.start :=
    Option.some.inj (uploadable.started.symm.trans uploaded.start)
  have parsed := ObjectRequest.parse_location read key (same ▸ startBound) asked
  have found := lookupBest_located key gains.listed uploaded.complete
    (fun x listed named => gains.only (received.version ▸ fresh) listed named) asked
  have satisfies : b.satisfies ((q.located b).withHeaders asked).constraints = true ↔
      start ≠ Millis.unbounded := by
    rw [ObjectRequest.satisfies_located, uploaded.lasting_iff uploadable stopBound startBound]
    refine and_iff_left ?_
    simp [ObjectRequest.constraints, ObjectRequest.withHeaders, ObjectRequest.headerTime?,
      Constraints.acceptsCreated, unconditional.notAfter, unconditional.notBefore]
  refine ⟨q, _, objectLocation b, read, ?_, parsed, ?_, ?_⟩
  · rw [location_withLocation, if_pos valid]
  · intro early
    rw [uploadable.started, ne_eq, Option.some.injEq] at early
    rw [satisfies.mpr early, if_pos rfl] at found
    have uncached : ((q.located b).withHeaders asked).cachedVersion ≠ some b.version := by
      simp [ObjectRequest.withHeaders, unconditional.match_]
    refine ⟨_, getObject_located parsed found uncached separator, ?_⟩
    rw [serve_whole separator uploaded.payload unconditional.range]
    exact ⟨rfl, rfl⟩
  · intro last
    rw [uploadable.started, Option.some.injEq] at last
    have unsatisfied := satisfies.not.mpr (not_not.mpr last)
    rw [if_neg unsatisfied] at found
    rw [getObject_of_parse parsed, found]

def statusOf : Except Error Http.Response → Nat
  | .ok response => response.status
  | .error e => e.status

/-- The status of an upload of one byte for a path, where it can be fetched, and the status of that fetch. -/
def sampleFetch (path : String) : Option (Nat × Option (String × Nat)) :=
  (upload .empty path [] [97] sampleOccasion).toOption.map fun r =>
    (r.2.status, (r.2.headers.get? "Location").map fun location =>
      (location, statusOf (getObject r.1 location [] (.ofNumber 8))))

/-- The new version is fetched, though an older one of the same object is still valid. -/
theorem upload_fetched_sample :
    (∀ x, sampleHeld.cache.Stores x → x.version ≠ sampleOccasion.fresh) ∧
    Unconditional [] ∧ ∃ c' response location,
      upload sampleHeld.cache "k/5" [] [98] sampleOccasion = .ok (c', response) ∧
      response.status = 201 ∧ response.headers.get? "Location" = some location ∧
      ∃ answer, getObject c' location [] (.ofNumber 8) = .ok answer ∧ answer.status = 200 ∧
        answer.body = [98] := by
  have fresh (x : Blob) := fresh_sampleHeld (b := x)
  have plain : Unconditional [] := ⟨rfl, rfl, rfl, rfl⟩
  have told : (upload sampleHeld.cache "k/5" [] [98] sampleOccasion).toOption.map (·.2.status) =
      some 201 := by
    decide +kernel
  have early : (ObjectRequest.parse "k/5" [] true).toOption.map (·.startTime) = some (some 5) := by
    decide +kernel
  obtain ⟨⟨c', response⟩, answered, created⟩ := Option.map_eq_some_iff.mp told
  have accepted := toOption_eq_some.mp answered
  obtain ⟨q, _, location, read, named, _, fetched, _⟩ :=
    upload_fetched fresh (by decide) accepted created plain (.ofNumber 8)
  rw [toOption_eq_some.mpr read, Option.map_some, Option.some.injEq] at early
  have other : q.startTime ≠ some Millis.unbounded := by
    rw [early]
    decide
  exact ⟨fresh, plain, c', response, location, accepted, created, named, fetched other⟩

/-- An object that starts at the largest time and has no end is created, and not found where it is said to
be. -/
theorem upload_lost : ∃ c' response location,
    upload .empty "k/18446744073709551615" [] [97] sampleOccasion = .ok (c', response) ∧
      response.status = 201 ∧ response.headers.get? "Location" = some location ∧
      statusOf (getObject c' location [] (.ofNumber 8)) = 404 := by
  have told : sampleFetch "k/18446744073709551615" =
      some (201, some ("/k/18446744073709551615/00000000-0000-0000-0000-000000000007", 404)) := by
    decide +kernel
  obtain ⟨⟨c', response⟩, answered, same⟩ := Option.map_eq_some_iff.mp told
  obtain ⟨created, fetched⟩ := Prod.mk.inj same
  obtain ⟨location, named, found⟩ := Option.map_eq_some_iff.mp fetched
  exact ⟨c', response, location, toOption_eq_some.mp answered, created, named, (Prod.mk.inj found).2⟩

end Service
end BlobReplica
