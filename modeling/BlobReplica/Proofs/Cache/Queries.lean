import BlobReplica.Proofs.Cache.Order
import BlobReplica.Proofs.Text.Trim

/-! What queries answer. Lookups and listings rank blobs by creation and version, while lists stand in
another order and tables in that of the keys. Where no version is stored under two keys, ranks differ, so
an answer is told by the blobs that are stored, whatever the order in which they came. -/

namespace BlobReplica

namespace Blob

variable {a b : Blob}

/-- What answers are ranked by: the creation, then the version. -/
def rank (b : Blob) : ℕ ×ₗ ℕ :=
  toLex (b.created, b.version.number)

theorem ranksBelow_iff : a.ranksBelow b = true ↔ a.rank < b.rank := by
  simp only [ranksBelow, rank, Prod.Lex.toLex_lt_toLex, Bool.or_eq_true, Bool.and_eq_true,
    decide_eq_true_eq, beq_iff_eq]
  rfl

theorem version_eq_of_rank (same : a.rank = b.rank) : a.version = b.version :=
  VersionId.ext_number (congrArg (fun p => (ofLex p).2) same)

theorem satisfies_iff {c : Constraints} : a.satisfies c = true ↔
    (∀ v, c.version = some v → v = a.version) ∧
    (∀ t, c.time = some t → a.validity.covers t = true) ∧ c.acceptsCreated a.created = true ∧
    ∀ e ∈ c.flags.entries, a.property? e.1 = some e.2 := by
  simp [satisfies, Option.all_eq_true, and_assoc]

/-- A blob but for the number that its cache gave it. -/
def unnumbered (b : Blob) : Blob :=
  { b with copy := 0 }

theorem rank_of_unnumbered (same : a.unnumbered = b.unnumbered) : a.rank = b.rank := by
  have tells : a.unnumbered.rank = b.unnumbered.rank := congrArg rank same
  exact tells

end Blob

/-- A key that is a pattern for itself: it is not empty, has no wildcards in it and no slashes around it. -/
structure KeyPattern.IsPlain (key : String) : Prop where
  nonempty : key ≠ ""
  unmarked : ∀ c ∈ key.toList, KeyPattern.isWildcardMark c = false
  front : key.toList.head? ≠ some '/'
  back : key.toList.getLast? ≠ some '/'

theorem KeyPattern.IsPlain.parse {key : String} (plain : KeyPattern.IsPlain key) :
    KeyPattern.parse key = .exact key := by
  have nonempty : key.toList ≠ [] := by simpa using plain.nonempty
  have unmarked : key.toList.any KeyPattern.isWildcardMark = false := by
    simpa using plain.unmarked
  simp only [KeyPattern.parse, Text.trimOf_eq plain.front plain.back]
  rw [if_neg nonempty, if_neg (by simp [unmarked]), String.ofList_toList]

namespace Cache

variable {c c' : Cache} {b x : Blob} {key k : String} {constraints : Constraints} {listing : Listing}
  {blobs : List Blob}

/-- A complete version of the key that satisfies the constraints. -/
def Answers (c : Cache) (key : String) (constraints : Constraints) (b : Blob) : Prop :=
  b ∈ c.versions key ∧ b.isComplete = true ∧ b.satisfies constraints = true

/-- No version is stored under two keys. -/
def Apart (c : Cache) : Prop :=
  ∀ k, ∀ b ∈ c.versions k, ∀ k', ∀ b' ∈ c.versions k', b.version = b'.version → k = k'

/-- Ranked from the highest, no two alike. -/
def Descending (blobs : List Blob) : Prop :=
  blobs.Pairwise fun a b => b.rank < a.rank

/-! ### The best blob -/

theorem mem_matching_iff : b ∈ matching (c.versions key) constraints ↔ c.Answers key constraints b := by
  rw [matching, List.mem_filter, Bool.and_eq_true]
  rfl

theorem rank_le_best (found : best? blobs = some b) (listed : x ∈ blobs) : x.rank ≤ b.rank := by
  cases blobs with
  | nil => contradiction
  | cons first rest =>
    obtain rfl := Option.some.inj found
    clear found
    induction rest generalizing first x with
    | nil =>
      rw [List.mem_singleton.mp listed]
      exact le_refl _
    | cons o rest ih =>
      have either : first.rank ≤ (if o.ranksBelow first then first else o).rank ∧
          o.rank ≤ (if o.ranksBelow first then first else o).rank := by
        split
        next below => exact ⟨le_refl _, (Blob.ranksBelow_iff.mp below).le⟩
        next above =>
          rw [Blob.ranksBelow_iff, not_lt] at above
          exact ⟨above, le_refl _⟩
      rw [List.foldl_cons]
      rcases List.mem_cons.mp listed with rfl | listed
      · exact either.1.trans (ih _ List.mem_cons_self)
      · rcases List.mem_cons.mp listed with rfl | listed
        · exact either.2.trans (ih _ List.mem_cons_self)
        · exact ih _ (List.mem_cons_of_mem _ listed)

/-- Among blobs of different ranks the one that is found is above all others. -/
theorem best?_eq_some (differ : ∀ x ∈ blobs, ∀ y ∈ blobs, x.rank = y.rank → x = y) :
    best? blobs = some b ↔ b ∈ blobs ∧ ∀ x ∈ blobs, x = b ∨ x.rank < b.rank := by
  constructor
  · intro found
    have listed := mem_of_best? found
    refine ⟨listed, fun x hx => ?_⟩
    rcases (rank_le_best found hx).lt_or_eq with below | same
    · exact .inr below
    · exact .inl (differ x hx b listed same)
  · rintro ⟨listed, above⟩
    cases found : best? blobs with
    | none =>
      cases blobs with
      | nil => contradiction
      | cons first rest => contradiction
    | some m =>
      rcases above m (mem_of_best? found) with rfl | below
      · rfl
      · exact absurd (rank_le_best found listed) (not_le.mpr below)

/-- A query for a version that a key lists once has that blob for its answer, if it satisfies the query. -/
theorem lookupBest_only (listed : b ∈ c.versions key) (complete : b.isComplete = true)
    (only : ∀ x ∈ c.versions key, x.version = b.version → x = b)
    (asked : constraints.version = some b.version) :
    c.lookupBest key constraints = if b.satisfies constraints then some b else none := by
  have alone : ∀ x ∈ matching (c.versions key) constraints, x = b := by
    intro x answers
    obtain ⟨member, _, satisfies⟩ := mem_matching_iff.mp answers
    exact only x member ((Blob.satisfies_iff.mp satisfies).1 b.version asked).symm
  split
  next satisfies =>
    refine (best?_eq_some fun x hx y hy _ => (alone x hx).trans (alone y hy).symm).mpr ⟨?_, ?_⟩
    · exact mem_matching_iff.mpr ⟨listed, complete, satisfies⟩
    · exact fun x hx => .inl (alone x hx)
  next unsatisfied =>
    cases found : c.lookupBest key constraints with
    | none => rfl
    | some x =>
      have answers := mem_of_best? found
      rw [alone x answers] at answers
      exact absurd (mem_matching_iff.mp answers).2.2 unsatisfied

namespace Sound

theorem eq_of_rank (sound : c.Sound) (hb : b ∈ c.versions k) (hx : x ∈ c.versions k)
    (same : b.rank = x.rank) : b = x :=
  sound.same_version hb hx (Blob.version_eq_of_rank same)

theorem lookupBest_eq_some (sound : c.Sound) : c.lookupBest key constraints = some b ↔
    c.Answers key constraints b ∧
      ∀ x, c.Answers key constraints x → x = b ∨ x.rank < b.rank := by
  have differ : ∀ x ∈ matching (c.versions key) constraints,
      ∀ y ∈ matching (c.versions key) constraints, x.rank = y.rank → x = y := by
    intro x hx y hy
    exact sound.eq_of_rank (mem_matching hx).1 (mem_matching hy).1
  rw [lookupBest, best?_eq_some differ]
  simp only [mem_matching_iff]

end Sound

theorem isSome_lookupBest_iff :
    (c.lookupBest key constraints).isSome = true ↔ ∃ b, c.Answers key constraints b := by
  rw [lookupBest, isSome_best?]
  simp only [mem_matching_iff]

/-! ### Descending lists -/

theorem Descending.head?_eq_some (descending : Descending blobs) :
    blobs.head? = some b ↔ b ∈ blobs ∧ ∀ x ∈ blobs, x = b ∨ x.rank < b.rank := by
  cases blobs with
  | nil => simp
  | cons first rest =>
    have above := (List.pairwise_cons.mp descending).1
    rw [List.head?_cons, Option.some.injEq]
    constructor
    · rintro rfl
      exact ⟨List.mem_cons_self, fun x listed => (List.mem_cons.mp listed).imp id (above x)⟩
    · rintro ⟨listed, highest⟩
      rcases List.mem_cons.mp listed with rfl | later
      · rfl
      · rcases highest first List.mem_cons_self with same | below
        · exact same
        · exact absurd (above b later) below.asymm

theorem Descending.ext {others : List Blob} (descending : Descending blobs)
    (descending' : Descending others) (same : ∀ b, b ∈ blobs ↔ b ∈ others) : blobs = others := by
  have nodup {l : List Blob} (descending : Descending l) : l.Nodup := by
    refine List.Pairwise.imp (fun {a b} below => ?_) descending
    rintro rfl
    exact lt_irrefl _ below
  have perm := (List.perm_ext_iff_of_nodup (nodup descending) (nodup descending')).mpr same
  exact perm.eq_of_pairwise (fun a b _ _ below above => absurd above below.asymm) descending descending'

/-! ### Listings -/

/-- What a listing without a limit reports, in no order yet. -/
def Reports (c : Cache) (listing : Listing) (b : Blob) : Prop :=
  ∃ k, listing.pattern.accepts k = true ∧
    if listing.latestOnly then c.lookupBest k listing.constraints = some b
    else c.Answers k listing.constraints b

def reported (listing : Listing) (blobs : List Blob) : List Blob :=
  if listing.latestOnly then (best? (matching blobs listing.constraints)).toList
  else matching blobs listing.constraints

/-- All blobs that a listing without a limit reports, in the order of the keys. -/
def gathered (c : Cache) (listing : Listing) : List Blob :=
  (c.lists.entries.filter fun e => listing.pattern.accepts e.1).flatMap fun e => reported listing e.2

theorem findAll_eq (c : Cache) (listing : Listing) : c.findAll listing =
    match listing.limit with
    | none => (c.gathered listing).mergeSort fun a b => !a.ranksBelow b
    | some n => ((c.gathered listing).mergeSort fun a b => !a.ranksBelow b).take n :=
  rfl

theorem versions_of_mem {e : String × List Blob} (entry : e ∈ c.lists.entries) :
    c.versions e.1 = e.2 := by
  rw [versions, Table.get?_eq_some.mpr entry]
  rfl

theorem reported_sublist (listing : Listing) (blobs : List Blob) :
    ∀ b ∈ reported listing blobs, b ∈ blobs := by
  intro b listed
  rw [reported] at listed
  split at listed
  next => exact (mem_matching (mem_of_best? (Option.mem_toList.mp listed))).1
  next => exact (mem_matching listed).1

theorem mem_reported {e : String × List Blob} (entry : e ∈ c.lists.entries) :
    b ∈ reported listing e.2 ↔ if listing.latestOnly then c.lookupBest e.1 listing.constraints = some b
      else c.Answers e.1 listing.constraints b := by
  rw [reported, ← versions_of_mem entry]
  split
  next => exact Option.mem_toList
  next => exact mem_matching_iff

theorem mem_gathered : b ∈ c.gathered listing ↔ c.Reports listing b := by
  rw [gathered, List.mem_flatMap, Reports]
  constructor
  · rintro ⟨e, entry, here⟩
    obtain ⟨entry, accepted⟩ := List.mem_filter.mp entry
    exact ⟨e.1, accepted, (mem_reported entry).mp here⟩
  · rintro ⟨k, accepted, here⟩
    have listed : b ∈ c.versions k := by
      split at here
      next => exact (of_lookupBest here).1
      next => exact here.1
    obtain ⟨blobs, entry, _⟩ := mem_versions.mp listed
    exact ⟨(k, blobs), List.mem_filter.mpr ⟨entry, accepted⟩, (mem_reported entry).mpr here⟩

theorem reported_differ (sound : c.Sound) {e : String × List Blob} (entry : e ∈ c.lists.entries) :
    (reported listing e.2).Pairwise fun a b => a.rank ≠ b.rank := by
  have differ : e.2.Pairwise fun a b => a.rank ≠ b.rank := by
    have distinct := sound.distinct e.1
    rw [versions_of_mem entry] at distinct
    refine (List.pairwise_map.mp distinct).imp fun {a b} apart same => ?_
    exact apart (Blob.version_eq_of_rank same)
  rw [reported]
  split
  next =>
    cases best? (matching e.2 listing.constraints) with
    | none => exact .nil
    | some b => exact List.pairwise_singleton _ b
  next => exact differ.sublist List.filter_sublist

theorem gathered_differ (sound : c.Sound) (apart : c.Apart) (listing : Listing) :
    (c.gathered listing).Pairwise fun a b => a.rank ≠ b.rank := by
  refine List.pairwise_flatMap.mpr ⟨fun e entry => ?_, ?_⟩
  · exact reported_differ sound (List.mem_of_mem_filter entry)
  · refine (c.lists.ascending.filter _).imp_of_mem fun {e f} he hf below x hx y hy same => ?_
    have hx := reported_sublist _ _ x hx
    have hy := reported_sublist _ _ y hy
    rw [← versions_of_mem (List.mem_of_mem_filter he)] at hx
    rw [← versions_of_mem (List.mem_of_mem_filter hf)] at hy
    exact String.ne_of_lt below (apart _ x hx _ y hy (Blob.version_eq_of_rank same))

theorem descending_mergeSort (differ : blobs.Pairwise fun a b => a.rank ≠ b.rank) :
    Descending (blobs.mergeSort fun a b => !a.ranksBelow b) := by
  have above {a b : Blob} : (!a.ranksBelow b) = true ↔ b.rank ≤ a.rank := by
    rw [Bool.not_eq_true', ← Bool.not_eq_true, Blob.ranksBelow_iff, not_lt]
  have sorted : (blobs.mergeSort fun a b => !a.ranksBelow b).Pairwise fun a b => (!a.ranksBelow b) = true := by
    refine List.pairwise_mergeSort (fun a b c ab bc => ?_) (fun a b => ?_) blobs
    · rw [above] at ab bc ⊢
      exact bc.trans ab
    · rw [Bool.or_eq_true, above, above]
      exact le_total b.rank a.rank
  have apart := (List.mergeSort_perm blobs fun a b => !a.ranksBelow b).symm.pairwise differ fun same => same.symm
  refine (sorted.and apart).imp fun {a b} both => ?_
  exact lt_of_le_of_ne (above.mp both.1) both.2.symm

/-- A listing without a limit reports what it has to, from the highest rank down. -/
theorem findAll_unlimited (sound : c.Sound) (apart : c.Apart) (unlimited : listing.limit = none) :
    Descending (c.findAll listing) ∧ ∀ b, b ∈ c.findAll listing ↔ c.Reports listing b := by
  rw [findAll_eq, unlimited]
  refine ⟨descending_mergeSort (gathered_differ sound apart listing), fun b => ?_⟩
  rw [List.mem_mergeSort, mem_gathered]

/-! ### One key -/

/-- A plain key as a pattern lists the answer of the lookup first. -/
theorem head?_findAll (sound : c.Sound) (apart : c.Apart) (plain : KeyPattern.IsPlain key)
    (pattern : listing.pattern = KeyPattern.parse key) (unlimited : listing.limit = none) :
    (c.findAll listing).head? = c.lookupBest key listing.constraints := by
  obtain ⟨descending, members⟩ := findAll_unlimited sound apart unlimited
  have accepted (k : String) : listing.pattern.accepts k = true ↔ k = key := by
    rw [pattern, plain.parse, KeyPattern.accepts, beq_iff_eq, eq_comm]
  refine Option.ext fun b => ?_
  rw [descending.head?_eq_some]
  simp only [members, Reports, accepted, exists_eq_left]
  split
  next =>
    refine ⟨And.left, fun found => ⟨found, fun x other => .inl ?_⟩⟩
    exact Option.some.inj (other.symm.trans found)
  next => exact sound.lookupBest_eq_some.symm

/-! ### Insertion orders -/

/-- Two caches that store the same blobs, whatever their numbers. -/
def Alike (c c' : Cache) : Prop :=
  ∀ k u, u ∈ (c.versions k).map Blob.unnumbered ↔ u ∈ (c'.versions k).map Blob.unnumbered

theorem Alike.symm (alike : c.Alike c') : c'.Alike c :=
  fun k u => (alike k u).symm

theorem Alike.find (alike : c.Alike c') (listed : b ∈ c.versions k) :
    ∃ b' ∈ c'.versions k, b'.unnumbered = b.unnumbered :=
  List.mem_map.mp ((alike k _).mp (List.mem_map_of_mem listed))

theorem Alike.apart (alike : c.Alike c') (apart : c.Apart) : c'.Apart := by
  intro k b hb k' b' hb' same
  obtain ⟨x, hx, bx⟩ := alike.symm.find hb
  obtain ⟨y, hy, by'⟩ := alike.symm.find hb'
  refine apart k x hx k' y hy ?_
  rw [Blob.version_eq_of_rank (Blob.rank_of_unnumbered bx), same,
    Blob.version_eq_of_rank (Blob.rank_of_unnumbered by')]

theorem Alike.answers (alike : c.Alike c') (answers : c.Answers key constraints b) :
    ∃ b', c'.Answers key constraints b' ∧ b'.unnumbered = b.unnumbered := by
  obtain ⟨listed, complete, satisfies⟩ := answers
  obtain ⟨b', listed', same⟩ := alike.find listed
  refine ⟨b', ⟨listed', ?_, ?_⟩, same⟩
  · have complete' : b'.unnumbered.isComplete = b.unnumbered.isComplete := congrArg Blob.isComplete same
    exact complete'.trans complete
  · have satisfies' : b'.unnumbered.satisfies constraints = b.unnumbered.satisfies constraints :=
      congrArg (Blob.satisfies · constraints) same
    exact satisfies'.trans satisfies

theorem Alike.lookupBest (alike : c.Alike c') (sound : c.Sound) (sound' : c'.Sound)
    (found : c.lookupBest key constraints = some b) :
    ∃ b', c'.lookupBest key constraints = some b' ∧ b'.unnumbered = b.unnumbered := by
  obtain ⟨answers, highest⟩ := sound.lookupBest_eq_some.mp found
  obtain ⟨b', answers', same⟩ := alike.answers answers
  refine ⟨b', sound'.lookupBest_eq_some.mpr ⟨answers', fun x' here' => ?_⟩, same⟩
  obtain ⟨x, here, same'⟩ := alike.symm.answers here'
  have rank := (Blob.rank_of_unnumbered same').symm
  have rank' := Blob.rank_of_unnumbered same
  rcases highest x here with rfl | below
  · exact .inl (sound'.eq_of_rank here'.1 answers'.1 (rank.trans rank'.symm))
  · exact .inr (by rwa [rank, rank'])

theorem Alike.reports (alike : c.Alike c') (sound : c.Sound) (sound' : c'.Sound)
    (reports : c.Reports listing b) : ∃ b', c'.Reports listing b' ∧ b'.unnumbered = b.unnumbered := by
  obtain ⟨k, accepted, here⟩ := reports
  split at here
  next latest =>
    obtain ⟨b', found, same⟩ := alike.lookupBest sound sound' here
    exact ⟨b', ⟨k, accepted, by rwa [if_pos latest]⟩, same⟩
  next all =>
    obtain ⟨b', answers, same⟩ := alike.answers here
    exact ⟨b', ⟨k, accepted, by rwa [if_neg all]⟩, same⟩

theorem findAll_limit (c : Cache) (listing : Listing) (n : Nat) :
    c.findAll { listing with limit := some n } = (c.findAll { listing with limit := none }).take n :=
  rfl

theorem Alike.findAll (alike : c.Alike c') (sound : c.Sound) (sound' : c'.Sound) (apart : c.Apart) :
    (c'.findAll listing).map Blob.unnumbered = (c.findAll listing).map Blob.unnumbered := by
  have unlimited (listing : Listing) (none : listing.limit = none) :
      (c'.findAll listing).map Blob.unnumbered = (c.findAll listing).map Blob.unnumbered := by
    obtain ⟨descending, members⟩ := findAll_unlimited sound apart none
    obtain ⟨descending', members'⟩ := findAll_unlimited sound' (alike.apart apart) none
    refine Descending.ext (List.pairwise_map.mpr descending') (List.pairwise_map.mpr descending) fun u => ?_
    simp only [List.mem_map, members, members']
    constructor
    · rintro ⟨x, reports, rfl⟩
      exact alike.symm.reports sound' sound reports
    · rintro ⟨x, reports, rfl⟩
      exact alike.reports sound sound' reports
  cases limit : listing.limit with
  | none => exact unlimited listing limit
  | some n =>
    have whole := unlimited { listing with limit := none } rfl
    have cut (c : Cache) : c.findAll listing = (c.findAll { listing with limit := none }).take n := by
      rw [← findAll_limit, ← limit]
    rw [cut c, cut c', List.map_take, List.map_take, whole]

/-- Takes in blobs one after the other; one that is refused leaves the cache as it was. -/
def insertAll (c : Cache) (blobs : List Blob) : Cache :=
  blobs.foldl (fun c b => match c.insert b with
    | .ok (c', _) => c'
    | .error _ => c) c

theorem insertAll_concat (c : Cache) (blobs : List Blob) (b : Blob) :
    c.insertAll (blobs ++ [b]) = match (c.insertAll blobs).insert b with
      | .ok (c', _) => c'
      | .error _ => c.insertAll blobs := by
  rw [insertAll, List.foldl_append]
  rfl

/-- Blobs of different versions that the cache neither stores nor has marked. -/
structure Fresh (c : Cache) (blobs : List Blob) : Prop where
  distinct : (blobs.map (·.version)).Nodup
  unmarked : ∀ b ∈ blobs, c.isInvalid b.version = false
  unstored : ∀ b ∈ blobs, ∀ x, c.Stores x → x.version ≠ b.version

theorem Fresh.perm {others : List Blob} (fresh : c.Fresh blobs) (perm : blobs.Perm others) :
    c.Fresh others where
  distinct := (perm.map _).nodup_iff.mp fresh.distinct
  unmarked b listed := fresh.unmarked b (perm.mem_iff.mpr listed)
  unstored b listed := fresh.unstored b (perm.mem_iff.mpr listed)

/-- A cache that stores these blobs besides those of another one. -/
structure Collects (c : Cache) (blobs : List Blob) (c' : Cache) : Prop extends c'.Sound where
  marks : c'.marks = c.marks
  stores : ∀ k u, u ∈ (c'.versions k).map Blob.unnumbered ↔
    u ∈ (c.versions k).map Blob.unnumbered ∨ ∃ b ∈ blobs, b.key = k ∧ b.unnumbered = u

/-- Fresh blobs are all taken in. -/
theorem Fresh.collects (sound : c.Sound) (fresh : c.Fresh blobs) : c.Collects blobs (c.insertAll blobs) := by
  induction blobs using List.reverseRecOn with
  | nil => exact ⟨sound, rfl, by simp [insertAll]⟩
  | append_singleton blobs b ih =>
    have distinct := fresh.distinct
    rw [List.map_append, List.nodup_append] at distinct
    have before : c.Collects blobs (c.insertAll blobs) := ih ⟨distinct.1,
      fun o listed => fresh.unmarked o (List.mem_append_left _ listed),
      fun o listed => fresh.unstored o (List.mem_append_left _ listed)⟩
    have absent : (c.insertAll blobs).find? b.key b.version = none := by
      refine Sound.find?_eq_none.mpr fun x listed same => ?_
      rcases (before.stores b.key _).mp (List.mem_map_of_mem listed) with former | ⟨o, offered, _, alike⟩
      · obtain ⟨y, stored, alike⟩ := List.mem_map.mp former
        have version := Blob.version_eq_of_rank (Blob.rank_of_unnumbered alike)
        exact fresh.unstored b (by simp) y ⟨b.key, stored⟩ (version.trans same)
      · have version := Blob.version_eq_of_rank (Blob.rank_of_unnumbered alike)
        exact distinct.2.2 _ (List.mem_map_of_mem offered) _ (by simp) (version.trans same)
    have unmarked : (c.insertAll blobs).isInvalid b.version = false := by
      rw [isInvalid, before.marks]
      exact fresh.unmarked b (by simp)
    have places : (c.insertAll blobs).Places { b with copy := (c.insertAll blobs).copies } _ :=
      places_sorted before.toSound absent rfl
    rw [insertAll_concat, insert_eq_ok absent unmarked]
    refine ⟨places.sound before.toSound, before.marks, fun k u => ?_⟩
    rw [List.mem_map]
    constructor
    · rintro ⟨x, listed, rfl⟩
      rcases (places.mem_iff k x).mp listed with ⟨former, _⟩ | ⟨rfl, rfl⟩
      · refine ((before.stores k _).mp (List.mem_map_of_mem former)).imp_right ?_
        exact fun ⟨o, offered, same⟩ => ⟨o, List.mem_append_left _ offered, same⟩
      · exact .inr ⟨b, by simp, rfl, rfl⟩
    · intro gained
      have either : u ∈ ((c.insertAll blobs).versions k).map Blob.unnumbered ∨
          (b.key = k ∧ b.unnumbered = u) := by
        rw [before.stores]
        simpa [or_and_right, exists_or, or_assoc] using gained
      rcases either with former | ⟨rfl, rfl⟩
      · obtain ⟨x, listed, rfl⟩ := List.mem_map.mp former
        refine ⟨x, (places.mem_iff k x).mpr (.inl ⟨listed, ?_⟩), rfl⟩
        rintro ⟨rfl, same⟩
        exact Sound.find?_eq_none.mp absent x listed same
      · exact ⟨_, (places.mem_iff _ _).mpr (.inr ⟨rfl, rfl⟩), rfl⟩

theorem Collects.apart (collects : c.Collects blobs c') (apart : c.Apart) (fresh : c.Fresh blobs) : c'.Apart := by
  have origin {k : String} {x : Blob} (listed : x ∈ c'.versions k) :
      (∃ y ∈ c.versions k, y.version = x.version) ∨ ∃ b ∈ blobs, b.key = k ∧ b.version = x.version := by
    rcases (collects.stores k _).mp (List.mem_map_of_mem listed) with former | ⟨b, offered, key, alike⟩
    · obtain ⟨y, stored, alike⟩ := List.mem_map.mp former
      exact .inl ⟨y, stored, Blob.version_eq_of_rank (Blob.rank_of_unnumbered alike)⟩
    · exact .inr ⟨b, offered, key, Blob.version_eq_of_rank (Blob.rank_of_unnumbered alike)⟩
  intro k x hx k' y hy same
  rcases origin hx with ⟨o, stored, version⟩ | ⟨b, offered, rfl, version⟩ <;>
    rcases origin hy with ⟨o', stored', version'⟩ | ⟨b', offered', rfl, version'⟩
  · exact apart k o stored k' o' stored' (version.trans (same.trans version'.symm))
  · exact absurd (version.trans (same.trans version'.symm)) (fresh.unstored b' offered' o ⟨k, stored⟩)
  · exact absurd (version'.trans (same.symm.trans version.symm)) (fresh.unstored b offered o' ⟨k', stored'⟩)
  · rw [List.inj_on_of_nodup_map fresh.distinct offered offered' (version.trans (same.trans version'.symm))]

/-- The order in which fresh blobs come does not show in any listing. -/
theorem findAll_insertAll {others : List Blob} (sound : c.Sound) (apart : c.Apart) (fresh : c.Fresh blobs)
    (perm : blobs.Perm others) (listing : Listing) :
    ((c.insertAll others).findAll listing).map Blob.unnumbered =
      ((c.insertAll blobs).findAll listing).map Blob.unnumbered := by
  have collects := fresh.collects sound
  have collects' := (fresh.perm perm).collects sound
  have alike : (c.insertAll blobs).Alike (c.insertAll others) := by
    intro k u
    rw [collects.stores, collects'.stores]
    simp only [perm.mem_iff]
  exact alike.findAll collects.toSound collects'.toSound (collects.apart apart fresh)

/-- Lookups, listings, listings of the latest versions and limits tell of the same blobs in the same
order, in every cache that lists each version under one key. -/
theorem queries_agree (sound : c.Sound) (apart : c.Apart) (key : String) (constraints : Constraints)
    (pattern : KeyPattern) :
    let all : Listing := { pattern, constraints }
    let latest : Listing := { pattern, constraints, latestOnly := true }
    ((c.lookupBest key constraints).isSome = true ↔ ∃ b, c.Answers key constraints b) ∧
    (∀ b, c.lookupBest key constraints = some b ↔ c.Answers key constraints b ∧
      ∀ x, c.Answers key constraints x → x = b ∨ x.rank < b.rank) ∧
    Descending (c.findAll all) ∧
    (∀ b, b ∈ c.findAll all ↔ ∃ k, pattern.accepts k = true ∧ c.Answers k constraints b) ∧
    Descending (c.findAll latest) ∧
    (∀ b, b ∈ c.findAll latest ↔
      ∃ k, pattern.accepts k = true ∧ c.lookupBest k constraints = some b) ∧
    (∀ (listing : Listing) (n : Nat), c.findAll { listing with limit := some n } =
      (c.findAll { listing with limit := none }).take n) ∧
    (KeyPattern.IsPlain key → ∀ latestOnly,
      (c.findAll { pattern := .parse key, constraints, latestOnly }).head? =
        c.lookupBest key constraints) ∧
    (∀ c' : Cache, c'.Sound → c.Alike c' → ∀ listing : Listing,
      (c'.findAll listing).map Blob.unnumbered = (c.findAll listing).map Blob.unnumbered) ∧
    (∀ blobs others : List Blob, c.Fresh blobs → blobs.Perm others → ∀ listing : Listing,
      ((c.insertAll others).findAll listing).map Blob.unnumbered =
        ((c.insertAll blobs).findAll listing).map Blob.unnumbered) := by
  intro all latest
  obtain ⟨descending, members⟩ : Descending (c.findAll all) ∧ ∀ b, b ∈ c.findAll all ↔ c.Reports all b :=
    findAll_unlimited sound apart rfl
  obtain ⟨descending', members'⟩ : Descending (c.findAll latest) ∧
    ∀ b, b ∈ c.findAll latest ↔ c.Reports latest b := findAll_unlimited sound apart rfl
  refine ⟨isSome_lookupBest_iff, fun b => sound.lookupBest_eq_some, descending, members, descending',
    members', findAll_limit c, fun plain latestOnly => ?_, fun c' sound' alike listing => ?_,
    fun blobs others fresh perm listing => ?_⟩
  · exact head?_findAll sound apart plain rfl rfl
  · exact alike.findAll sound sound' apart
  · exact findAll_insertAll sound apart fresh perm listing

def sampleVersion (key : String) (number created : Nat) : Blob :=
  { Blob.ofArrival key (.ofNumber number) created with status := .complete }

/-- Two versions of one key that were created at once, and one of another key. -/
def sampleVersions : List Blob :=
  [sampleVersion "k" 1 10, sampleVersion "a/b" 3 5, sampleVersion "k" 2 10]

theorem fresh_sampleVersions : empty.Fresh sampleVersions where
  distinct := by decide
  unmarked _ _ := rfl
  unstored _ _ x stored := by
    obtain ⟨k, listed⟩ := stored
    contradiction

theorem queries_agree_sample :
    let c := empty.insertAll sampleVersions
    c.Sound ∧ c.Apart ∧ KeyPattern.IsPlain "k" ∧
    (c.lookupBest "k" {}).isSome = true ∧
    (c.findAll { pattern := .parse "k" }).head? = c.lookupBest "k" {} ∧
    Descending (c.findAll { pattern := .parse "*" }) ∧
    ((empty.insertAll sampleVersions.reverse).findAll { pattern := .parse "*", limit := some 2 }).map
      Blob.unnumbered = (c.findAll { pattern := .parse "*", limit := some 2 }).map Blob.unnumbered := by
  intro c
  have apart_empty : empty.Apart := fun k b listed => by contradiction
  have collects := fresh_sampleVersions.collects sound_empty
  have apart := collects.apart apart_empty fresh_sampleVersions
  have plain : KeyPattern.IsPlain "k" :=
    ⟨by decide, List.forall_mem_singleton.mpr rfl, by decide, by decide⟩
  obtain ⟨some, _, descending, _, _, _, _, first, _, _⟩ :=
    queries_agree collects.toSound apart "k" {} (.parse "*")
  obtain ⟨_, _, _, _, _, _, _, _, _, order⟩ := queries_agree sound_empty apart_empty "k" {} .all
  have answered : ∃ b, c.Answers "k" {} b := by
    have offered : sampleVersion "k" 1 10 ∈ sampleVersions := List.mem_cons_self
    obtain ⟨b, listed, same⟩ := List.mem_map.mp ((collects.stores "k" _).mpr (.inr ⟨_, offered, rfl, rfl⟩))
    have status : b.status = .complete := congrArg Blob.status same
    have satisfies : b.satisfies {} = true := by
      simp [Blob.satisfies, Constraints.acceptsCreated, Table.empty]
    exact ⟨b, listed, decide_eq_true status, satisfies⟩
  exact ⟨collects.toSound, apart, plain, some.mpr answered, first plain false, descending,
    order _ _ fresh_sampleVersions (List.reverse_perm _).symm _⟩

end Cache
end BlobReplica
