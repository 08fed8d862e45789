import BlobReplica.Proofs.Service.Location

/-! Downloads by version alone. A version may be stored under several keys, and its copies need not be in the
same state. The first copy that is found decides the answer, so the order in which the lists are looked through
shows where one copy is complete and another is not. -/

namespace BlobReplica

namespace Cache

variable {c : Cache} {b : Blob} {v : VersionId} {lists : List (String × List Blob)}

/-- The first blob of a version in lists that are looked through in this order. -/
def firstIn (lists : List (String × List Blob)) (v : VersionId) : Option Blob :=
  (lists.flatMap (·.2)).find? (·.version = v)

theorem findVersion?_eq (c : Cache) (v : VersionId) : c.findVersion? v = firstIn c.lists.entries v :=
  rfl

/-- A stored blob of the version, under whatever key. -/
def Copy (c : Cache) (v : VersionId) (b : Blob) : Prop :=
  c.Stores b ∧ b.version = v

theorem copy_iff (perm : lists.Perm c.lists.entries) :
    c.Copy v b ↔ b ∈ lists.flatMap (·.2) ∧ b.version = v := by
  refine and_congr_left fun _ => ?_
  rw [List.mem_flatMap]
  constructor
  · rintro ⟨k, listed⟩
    obtain ⟨blobs, entry, here⟩ := mem_versions.mp listed
    exact ⟨(k, blobs), perm.mem_iff.mpr entry, here⟩
  · rintro ⟨e, entry, here⟩
    exact ⟨e.1, mem_versions.mpr ⟨e.2, perm.mem_iff.mp entry, here⟩⟩

theorem copy_of_firstIn (perm : lists.Perm c.lists.entries) (found : firstIn lists v = some b) :
    c.Copy v b :=
  (copy_iff perm).mpr ⟨List.mem_of_find?_eq_some found, by simpa using List.find?_some found⟩

theorem firstIn_eq_none (perm : lists.Perm c.lists.entries) :
    firstIn lists v = none ↔ ∀ b, ¬ c.Copy v b := by
  simp only [copy_iff perm, firstIn, List.find?_eq_none, decide_eq_true_eq, not_and]

/-- Every copy is the first one in some order, as its own list holds no other. -/
theorem Sound.exists_order (sound : c.Sound) (copy : c.Copy v b) :
    ∃ lists, lists.Perm c.lists.entries ∧ firstIn lists v = some b := by
  obtain ⟨⟨k, listed⟩, rfl⟩ := copy
  obtain ⟨blobs, entry, _⟩ := mem_versions.mp listed
  have held : c.versions k = blobs := versions_of_mem entry
  have own : blobs.find? (·.version = b.version) = some b := by
    rw [← held]
    exact sound.find?_eq_some.mpr ⟨listed, rfl⟩
  refine ⟨(k, blobs) :: c.lists.entries.erase (k, blobs), (List.perm_cons_erase entry).symm, ?_⟩
  rw [firstIn, List.flatMap_cons, List.find?_append, own, Option.some_or]

end Cache

namespace Http

theorem percentDecode_free {bytes : Bytes} (free : 0x25 ∉ bytes) : percentDecode bytes = bytes := by
  fun_induction percentDecode bytes with
  | case1 | case2 | case3 => rfl
  | case4 c d rest | case5 c d rest => exact absurd List.mem_cons_self free
  | case6 b c d rest _ ih => rw [ih fun member => free (List.mem_cons_of_mem _ member)]

theorem decodedPath?_free {path : String} (free : '%' ∉ path.toList) : decodedPath? path = some path := by
  have bytes : (0x25 : UInt8) ∉ Utf8.encode path := Utf8.not_mem_encodeChars (by decide) free
  rw [decodedPath?, percentDecode_free bytes, Utf8.decode?_encode]

theorem pathOf_free {target : String} (slash : target.toList.head? = some '/')
    (free : ∀ c ∈ target.toList, endsPath c = false) : pathOf target = target := by
  have kept : target.toList.takeWhile (!endsPath ·) = target.toList := by
    simpa [List.takeWhile_eq_self_iff] using free
  simp only [pathOf, if_pos slash]
  rw [kept, String.ofList_toList]

end Http

namespace Service

variable {c : Cache} {p : Policy} {r : Http.Request} {o : Occasion} {b : Blob} {v : VersionId}
  {lists : List (String × List Blob)} {headers : Http.Headers} {separator : VersionId} {n : Node}
  {h : Node.History} {grace : Millis}

/-- A request whose path is that of a download and spells the version. -/
def AsksVersion (r : Http.Request) (v : VersionId) : Prop :=
  ∃ raw id, Route.ofPath? (Http.pathOf r.target) = some (.download raw) ∧
    Http.decodedPath? raw = some id ∧ VersionId.parse? id = some v

/-- The answer to a download of a version if the lists are looked through in this order. -/
def offered (lists : List (String × List Blob)) (v : VersionId) (headers : Http.Headers)
    (separator : VersionId) : Http.Response :=
  match Cache.firstIn lists v with
  | some b => if b.isComplete then serve b headers separator else Error.notFound.response
  | none => Error.notFound.response

/-- A response with all bytes of a complete copy. -/
def Downloads (c : Cache) (v : VersionId) (response : Http.Response) : Prop :=
  response.status = 200 ∧ ∃ b, c.Copy v b ∧ b.isComplete = true ∧ b.payload? = some response.body

/-! ### The path of a version -/

theorem Route.ofPath?_download {id : String} (nonempty : id ≠ "") (solid : '/' ∉ id.toList) :
    Route.ofPath? ("/download/" ++ id) = some (.download id) := by
  have behind : id.toList.dropWhile (· != '/') = [] := by
    rw [List.dropWhile_eq_nil_iff]
    intro c member
    simpa using fun same : c = '/' => solid (same ▸ member)
  have differs (s : String) (other : s.toList[1]? ≠ some 'd') : "/download/" ++ id ≠ s := by
    rintro rfl
    simp at other
  have browse : Text.dropStart "/browse/" ("/download/" ++ id) = none := by
    simp [Text.dropStart]
  have download : Text.dropStart "/download/" ("/download/" ++ id) = some id := by
    rw [Text.dropStart_append String.toList_append, String.ofList_toList]
  rw [Route.ofPath?, if_neg (differs _ (by decide)), if_neg (differs _ (by decide)),
    if_neg (not_or.mpr ⟨differs _ (by decide), differs _ (by decide)⟩), browse, download]
  simp only [ofDownload?, behind, if_neg nonempty]

theorem asksVersion_text (v : VersionId) {r : Http.Request} (target : r.target = "/download/" ++ v.text) :
    AsksVersion r v := by
  have free {mark : Char} (other : mark.isAlphanum = false ∧ mark ≠ '-') : mark ∉ v.text.toList := by
    intro member
    rcases VersionId.mem_text member with word | dash
    · exact Bool.false_ne_true (other.1.symm.trans word)
    · exact other.2 dash
  have fixed : "/download/".toList.all (!Http.endsPath ·) = true := by decide
  have spelled (c : Char) (member : c ∈ ("/download/" ++ v.text).toList) : Http.endsPath c = false := by
    rw [String.toList_append, List.mem_append] at member
    rcases member with listed | listed
    · simpa using List.all_eq_true.mp fixed c listed
    · by_contra ends
      have mark : c = '?' ∨ c = '#' := by
        simpa only [Http.endsPath, Bool.not_eq_false, Bool.or_eq_true, beq_iff_eq] using ends
      rcases mark with rfl | rfl <;> exact free (by decide) listed
  have path : Http.pathOf r.target = "/download/" ++ v.text := by
    rw [target, Http.pathOf_free (by simp) spelled]
  have nonempty : v.text ≠ "" := by
    intro empty
    have unread : VersionId.parse? "" = none := by decide
    have read := v.parse?_text
    rw [empty, unread] at read
    contradiction
  refine ⟨v.text, v.text, ?_, Http.decodedPath?_free (free (by decide)), v.parse?_text⟩
  rw [path, Route.ofPath?_download nonempty (free (by decide))]

/-! ### Answers -/

/-- The lists are looked through in the order of the keys. -/
theorem routed_download (asks : AsksVersion r v) (get : r.method = "GET") (p : Policy) (c : Cache)
    (o : Occasion) : (routed p c r o).2 = offered c.lists.entries v r.headers o.separator := by
  obtain ⟨raw, id, route, known, read⟩ := asks
  have allowed : r.method ∈ (Route.download raw).methods := by simp [get, Route.methods]
  rw [routed, route]
  simp only [if_pos allowed, answer, decoded, known, download, read, offered, ← Cache.findVersion?_eq]
  cases c.findVersion? v with
  | none => rfl
  | some b => cases complete : b.isComplete <;> simp [complete, Except.map, Except.mapError]

theorem handle_download (asks : AsksVersion r v) (get : r.method = "GET") (p : Policy) (c : Cache)
    (o : Occasion) :
    (handle p c r o).2.status = (offered c.lists.entries v r.headers o.separator).status ∧
      (handle p c r o).2.body = (offered c.lists.entries v r.headers o.separator).body := by
  have opened : r.method ≠ "OPTIONS" := by simp [get]
  have shown : r.method ≠ "HEAD" := by simp [get]
  rw [← routed_download asks get p c o]
  refine ⟨(handle_of_method opened).2, ?_⟩
  simp only [handle, Service.opened, if_neg opened, if_neg shown]
  split <;> rfl

theorem downloads_serve (serves : c.Serves) (copy : c.Copy v b) (complete : b.isComplete = true)
    (unranged : headers.readable? "Range" = none) (separator : VersionId) :
    Downloads c v (serve b headers separator) := by
  obtain ⟨payload, whole⟩ := serves.whole b copy.1 complete
  rw [serve_whole separator whole unranged]
  exact ⟨rfl, b, copy, complete, whole⟩

theorem Downloads.status_ne {response : Http.Response} (downloads : Downloads c v response) :
    response.status ≠ 404 := by
  rw [downloads.1]
  decide

section Offered

variable (serves : c.Serves) (unranged : headers.readable? "Range" = none)

include serves unranged

theorem offered_cases (perm : lists.Perm c.lists.entries) (v separator : VersionId) :
    (∃ b, c.Copy v b ∧ b.isComplete = true) ∧ Downloads c v (offered lists v headers separator) ∨
    ((∃ b, c.Copy v b ∧ b.isComplete = false) ∨ ∀ b, ¬ c.Copy v b) ∧
      (offered lists v headers separator).status = 404 := by
  rw [offered]
  cases found : Cache.firstIn lists v with
  | none => exact .inr ⟨.inr ((Cache.firstIn_eq_none perm).mp found), rfl⟩
  | some b =>
    have copy := Cache.copy_of_firstIn perm found
    cases complete : b.isComplete with
    | false =>
      refine .inr ⟨.inl ⟨b, copy, complete⟩, ?_⟩
      simp only [complete, Bool.false_eq_true, if_false]
      rfl
    | true =>
      refine .inl ⟨⟨b, copy, complete⟩, ?_⟩
      simp only [complete, if_true]
      exact downloads_serve serves copy complete unranged separator

theorem exists_downloads (copy : c.Copy v b) (complete : b.isComplete = true) (separator : VersionId) :
    ∃ lists, lists.Perm c.lists.entries ∧ Downloads c v (offered lists v headers separator) := by
  obtain ⟨lists, perm, found⟩ := serves.toSound.exists_order copy
  refine ⟨lists, perm, ?_⟩
  simp only [offered, found, complete, if_true]
  exact downloads_serve serves copy complete unranged separator

end Offered

/-- An incomplete copy hides all others in some order. -/
theorem exists_hidden (sound : c.Sound) (copy : c.Copy v b) (incomplete : b.isComplete = false) :
    ∃ lists, lists.Perm c.lists.entries ∧ (offered lists v headers separator).status = 404 := by
  obtain ⟨lists, perm, found⟩ := sound.exists_order copy
  refine ⟨lists, perm, ?_⟩
  simp only [offered, found, incomplete, Bool.false_eq_true, if_false]
  rfl

/-- Whatever was done to a node, the download of a version is answered as the order of its lists has it:
with all bytes of a complete copy, or with nothing found. Every order finds one exactly if there are copies
and all of them are complete, and no order does exactly if none of them is. -/
theorem version_downloaded (run : Node.Run Node.Permits (.empty grace) h n) (asks : AsksVersion r v)
    (get : r.method = "GET") (unranged : r.headers.readable? "Range" = none) (p : Policy) (o : Occasion) :
    ((handle p n.cache r o).2.status =
        (offered n.cache.lists.entries v r.headers o.separator).status ∧
      (handle p n.cache r o).2.body = (offered n.cache.lists.entries v r.headers o.separator).body) ∧
    (∀ lists, lists.Perm n.cache.lists.entries →
      Downloads n.cache v (offered lists v r.headers o.separator) ∨
      (offered lists v r.headers o.separator).status = 404) ∧
    ((∀ lists, lists.Perm n.cache.lists.entries →
        Downloads n.cache v (offered lists v r.headers o.separator)) ↔
      (∃ b, n.cache.Copy v b) ∧ ∀ b, n.cache.Copy v b → b.isComplete = true) ∧
    ((∀ lists, lists.Perm n.cache.lists.entries →
        (offered lists v r.headers o.separator).status = 404) ↔
      ∀ b, n.cache.Copy v b → b.isComplete = false) := by
  have serves := (Node.Grown.run run).serves
  have cases {lists : List (String × List Blob)} (perm : lists.Perm n.cache.lists.entries) :=
    offered_cases serves unranged perm v o.separator
  refine ⟨handle_download asks get p n.cache o, fun lists perm => (cases perm).imp (·.2) (·.2),
    ⟨fun always => ⟨?_, fun b copy => ?_⟩, fun ⟨⟨b, copy⟩, complete⟩ lists perm => ?_⟩,
    ⟨fun never b copy => ?_, fun incomplete lists perm => ?_⟩⟩
  · obtain ⟨⟨b, copy, _⟩, _⟩ | ⟨_, missing⟩ := cases (.refl _)
    · exact ⟨b, copy⟩
    · exact absurd missing (always _ (.refl _)).status_ne
  · by_contra incomplete
    obtain ⟨lists, perm, hidden⟩ := exists_hidden serves.toSound copy (Bool.not_eq_true _ ▸ incomplete)
    exact (always lists perm).status_ne hidden
  · obtain ⟨_, downloads⟩ | ⟨⟨a, other, incomplete⟩ | none, _⟩ := cases perm
    · exact downloads
    · rw [complete a other] at incomplete
      contradiction
    · exact absurd copy (none b)
  · by_contra complete
    obtain ⟨lists, perm, downloads⟩ :=
      exists_downloads serves unranged copy (Bool.not_eq_false _ ▸ complete) o.separator
    exact downloads.status_ne (never lists perm)
  · obtain ⟨⟨b, copy, complete⟩, _⟩ | ⟨_, missing⟩ := cases perm
    · rw [incomplete b copy] at complete
      contradiction
    · exact missing

def sampleDownload : Http.Request :=
  { method := "GET", target := "/download/00000000-0000-0000-0000-000000000007" }

/-- One copy, which is complete. -/
theorem version_downloaded_sample :
    AsksVersion sampleDownload (.ofNumber 7) ∧
    (handle {} (sampleStored "k").cache sampleDownload sampleOccasion).2.status = 200 ∧
    (∃ b, (sampleStored "k").cache.Copy (.ofNumber 7) b ∧ b.payload? =
      some (handle {} (sampleStored "k").cache sampleDownload sampleOccasion).2.body) := by
  have permitted : Node.Permits (Node.empty 10000)
      (.insertObject "k" (.ofNumber 7) (Node.sampleTold 0) [97] 10) := trivial
  have run : Node.Run Node.Permits (.empty 10000) _ (sampleStored "k") := .step .start permitted
  have asks : AsksVersion sampleDownload (.ofNumber 7) := asksVersion_text _ (by decide +kernel)
  obtain ⟨answered, _, found, _⟩ := version_downloaded run asks rfl rfl {} sampleOccasion
  have copies : ∀ b ∈ (sampleStored "k").cache.lists.entries.flatMap (·.2), b.isComplete = true := by
    decide +kernel
  have first : Cache.firstIn (sampleStored "k").cache.lists.entries (.ofNumber 7) ≠ none := by
    decide +kernel
  obtain ⟨b, held⟩ := Option.ne_none_iff_exists'.mp first
  have copy := Cache.copy_of_firstIn (.refl _) held
  obtain ⟨status, a, other, _, whole⟩ :=
    found.mpr ⟨⟨b, copy⟩, fun x copy => copies x ((Cache.copy_iff (.refl _)).mp copy).1⟩ _ (.refl _)
  rw [answered.1, answered.2]
  exact ⟨asks, status, a, other, whole⟩

/-- A node with a complete copy of a version under one key, and one of which nothing has arrived yet under
another. -/
def sampleHidden : Node :=
  ((Node.empty 10000).perform (.insert (Blob.ofArrival "a" (.ofNumber 7) 10))).perform
    (.insertObject "b" (.ofNumber 7) (Node.sampleTold 0) [97] 10)

/-- The complete copy is not found. -/
theorem version_hidden :
    (∃ h, Node.Run Node.Permits (.empty 10000) h sampleHidden) ∧
    AsksVersion sampleDownload (.ofNumber 7) ∧
    (∃ b, sampleHidden.cache.Copy (.ofNumber 7) b ∧ b.isComplete = true ∧ b.payload? = some [97]) ∧
    (handle {} sampleHidden.cache sampleDownload sampleOccasion).2.status = 404 := by
  have empty : Node.Permits (Node.empty 10000) (.insert (Blob.ofArrival "a" (.ofNumber 7) 10)) :=
    Blob.Arises.arrival ..
  have held : (sampleHidden.cache.find? "b" (.ofNumber 7)).map
      (fun b => (b.version, b.isComplete, b.payload?)) = some (.ofNumber 7, true, some [97]) := by
    decide +kernel
  obtain ⟨b, found, same⟩ := Option.map_eq_some_iff.mp held
  obtain ⟨version, complete, bytes⟩ := by simpa only [Prod.mk.injEq] using same
  have copy : sampleHidden.cache.Copy (.ofNumber 7) b :=
    ⟨⟨"b", List.mem_of_find?_eq_some found⟩, version⟩
  exact ⟨⟨_, .step (.step .start empty) trivial⟩, asksVersion_text _ (by decide +kernel),
    ⟨b, copy, complete, bytes⟩, by decide +kernel⟩

end Service
end BlobReplica
