import BlobReplica.Proofs.Intake.Arrival
import BlobReplica.Proofs.Intake.Streams

/-! The order in which datagrams arrive. What a cache stores in the end does not depend on it, and
neither does the order of its lists, but for blobs that learnt their creation where they stood: an
incomplete blob whose start does not change is not put in order again. -/

namespace BlobReplica

open Fragment (Publication)

/-- Where a blob stands that is shown so. -/
def Brief.place (x : Brief) : ℕ ×ₗ ℕ ×ₗ ℕ :=
  toLex (x.start, toLex (x.created, x.version.number))

theorem Brief.version_eq_of_place {x y : Brief} (same : x.place = y.place) : x.version = y.version :=
  VersionId.ext_number (congrArg (fun p => (ofLex (ofLex p).2).2) same)

namespace Cache

variable {c c' : Cache} {family : List Publication} {now : Millis} {came came' : List Fragment}
  {key : String} {version : VersionId}

/-- What the list of a key shows. -/
def briefs (c : Cache) (key : String) : List Brief :=
  (c.versions key).map Blob.brief

/-! ### Lists -/

namespace Mirrors

theorem mem_briefs (mirrors : c.Mirrors family now came) {key : String} {x : Brief} :
    x ∈ c.briefs key ↔ ∃ p ∈ family, p.key = key ∧ p.shown now came = some x := by
  rw [briefs, List.mem_map]
  constructor
  · rintro ⟨b, listed, rfl⟩
    have found := mirrors.toSound.find?_eq_some.mpr ⟨listed, rfl⟩
    obtain ⟨p, member, rfl, version⟩ := mirrors.own key b.version (by simp [found])
    refine ⟨p, member, rfl, ?_⟩
    rw [← (mirrors.reflects p member).shown, ← version, found]
    rfl
  · rintro ⟨p, member, rfl, shown⟩
    rw [← (mirrors.reflects p member).shown] at shown
    obtain ⟨b, found, same⟩ := Option.map_eq_some_iff.mp shown
    exact ⟨b, (mirrors.toSound.find?_eq_some.mp found).1, same⟩

theorem distinct_briefs (mirrors : c.Mirrors family now came) (key : String) :
    ((c.briefs key).map (·.version)).Nodup := by
  rw [briefs, List.map_map]
  exact mirrors.distinct key

theorem ascending_briefs (mirrors : c.Mirrors family now came) (key : String) :
    (c.briefs key).Pairwise fun x y => x.start ≤ y.start :=
  List.pairwise_map.mpr (mirrors.ordered key).starts

theorem placed_briefs (mirrors : c.Mirrors family now came) (key : String) :
    (c.briefs key).Pairwise fun x y => ¬ x.Loose now → ¬ y.Loose now → x.place ≤ y.place := by
  refine List.pairwise_map.mpr ((mirrors.ordered key).places.imp fun before fixed fixed' => ?_)
  exact Blob.comesBefore_iff.mp (before (Blob.placed_iff.mpr fixed) (Blob.placed_iff.mpr fixed'))

/-- Two caches to which the same fragments have come show the same, in some order. -/
theorem perm_briefs (first : c.Mirrors family now came) (second : c'.Mirrors family now came')
    (same : ∀ f, f ∈ came ↔ f ∈ came') (key : String) : (c.briefs key).Perm (c'.briefs key) := by
  apply (List.perm_ext_iff_of_nodup (.of_map _ (first.distinct_briefs key))
    (.of_map _ (second.distinct_briefs key))).mpr
  intro x
  rw [first.mem_briefs, second.mem_briefs]
  simp only [Publication.shown_congr same]

theorem keys_eq (first : c.Mirrors family now came) (second : c'.Mirrors family now came')
    (same : ∀ f, f ∈ came ↔ f ∈ came') : c.keys = c'.keys := by
  have listed {c : Cache} (filled : c.Filled) (key : String) :
      key ∈ c.lists.names ↔ c.briefs key ≠ [] := by
    rw [Table.mem_names, filled.get?_eq, briefs]
    split
    next none => simp [none]
    next some => simp [some]
  apply Table.names_eq
  intro key
  have perm := first.perm_briefs second same key
  rw [listed first.filled, listed second.filled, not_iff_not]
  exact ⟨fun none => (none ▸ perm).symm.eq_nil, fun none => (none ▸ perm).eq_nil⟩

/-- Lists of the same briefs, each in order by place, are one list. -/
theorem eq_of_places (mirrors : c.Mirrors family now came) {key : String} {xs ys : List Brief}
    (perm : xs.Perm ys) (part : xs ⊆ c.briefs key) (left : xs.Pairwise fun x y => x.place ≤ y.place)
    (right : ys.Pairwise fun x y => x.place ≤ y.place) : xs = ys := by
  refine perm.eq_of_pairwise (fun x y hx hy before after => ?_) left right
  have version := Brief.version_eq_of_place (le_antisymm before after)
  exact List.inj_on_of_nodup_map (mirrors.distinct_briefs key) (part hx)
    (part (perm.symm.subset hy)) version

theorem filter_briefs_eq (first : c.Mirrors family now came) (second : c'.Mirrors family now came')
    (same : ∀ f, f ∈ came ↔ f ∈ came') (key : String) :
    (c.briefs key).filter (¬ ·.Loose now) = (c'.briefs key).filter (¬ ·.Loose now) := by
  have places {c : Cache} {came : List Fragment} (mirrors : c.Mirrors family now came) :
      ((c.briefs key).filter (¬ ·.Loose now)).Pairwise fun x y => x.place ≤ y.place := by
    simpa [List.pairwise_filter] using mirrors.placed_briefs key
  exact first.eq_of_places ((first.perm_briefs second same key).filter _) (List.filter_subset_self _)
    (places first) (places second)

/-- Without another blob of the same start beside a loose one, all briefs stand in one order. -/
theorem briefs_eq (first : c.Mirrors family now came) (second : c'.Mirrors family now came')
    (same : ∀ f, f ∈ came ↔ f ∈ came') (key : String)
    (alone : ∀ x ∈ c.briefs key, x.Loose now → ∀ y ∈ c.briefs key, y.start = x.start → y = x) :
    c.briefs key = c'.briefs key := by
  have perm := first.perm_briefs second same key
  have places {c : Cache} {came : List Fragment} (mirrors : c.Mirrors family now came)
      (alone : ∀ x ∈ c.briefs key, x.Loose now → ∀ y ∈ c.briefs key, y.start = x.start → y = x) :
      (c.briefs key).Pairwise fun x y => x.place ≤ y.place := by
    have distinct : (c.briefs key).Pairwise (· ≠ ·) :=
      List.Nodup.of_map _ (mirrors.distinct_briefs key)
    have both := ((mirrors.ascending_briefs key).and (mirrors.placed_briefs key)).and distinct
    apply both.imp_of_mem
    rintro x y hx hy ⟨⟨start, placed⟩, other⟩
    have before (apart : x.start ≠ y.start) : x.place ≤ y.place :=
      le_of_lt (Prod.Lex.toLex_lt_toLex.mpr (.inl (Nat.lt_of_le_of_ne start apart)))
    by_cases loose : x.Loose now
    · exact before fun tied => other (alone x hx loose y hy tied.symm).symm
    · by_cases loose' : y.Loose now
      · exact before fun tied => other (alone y hy loose' x hx tied)
      · exact placed loose loose'
  refine first.eq_of_places perm (List.Subset.refl _) (places first alone) (places second ?_)
  intro x hx loose y hy tied
  exact alone x (perm.symm.subset hx) loose y (perm.symm.subset hy) tied

end Mirrors

/-! ### Newcomers -/

/-- The blob that comes into being with a first fragment. -/
def newcomer (c : Cache) (key : String) (version : VersionId) (now : Millis) : Blob :=
  { Blob.ofArrival key version now with copy := c.copies }

/-- A newcomer whose place is after those of the other blobs of its key is put behind them. -/
theorem getOrCreate_last (absent : c.find? key version = none) (unmarked : c.isInvalid version = false)
    (ascending : (c.versions key ++ [c.newcomer key version now]).Pairwise fun a b : Blob =>
      a.comesBefore b = true) :
    ∃ c', c.getOrCreate key version now = .ok (c', c.newcomer key version now, true) ∧
      c'.versions key = c.versions key ++ [c.newcomer key version now] := by
  refine ⟨_, insert_eq_ok absent unmarked, ?_⟩
  refine (versions_setVersions _ _ _ _).trans ((if_pos rfl).trans ?_)
  exact List.mergeSort_of_pairwise ascending

end Cache

namespace Intake

variable {n : Node} {f : Fragment} {m : Blob} {now : Millis}

/-- A first fragment that leaves its blob open and without a start: the blob stands where its arrival
put it, here behind all others, whenever it was created. -/
theorem versions_append {filled : Nat} (tidy : n.cache.Tidy)
    (absent : n.cache.find? f.key f.version = none) (unmarked : n.cache.isInvalid f.version = false)
    (ascending : (n.cache.versions f.key ++ [n.cache.newcomer f.key f.version now]).Pairwise
      fun a b : Blob => a.comesBefore b = true)
    (merged : (n.cache.newcomer f.key f.version now).merge f now = .ok (m, filled))
    (lacking : m.settle.1.isTerminal = false) (start : m.settle.1.validity.start = 0) (i : Intake) :
    (i.fragment n f now).1.cache.versions f.key = n.cache.versions f.key ++ [m.settle.1] := by
  obtain ⟨c, created, list⟩ := Cache.getOrCreate_last absent unmarked ascending
  have sound : c.Sound := (tidy.insert created).toSound
  have shows := sound.shows (tidy.toSound.insert_stores created).1
  have same := (Blob.advances_merge merged).same_settle
  have isOpen : m.isTerminal = false := (Blob.advances_merge merged).isTerminal
  have concluded : i.fragment n f now = i.conclude (n.withCache c) m 0 now := by
    have undecided : (n.cache.newcomer f.key f.version now).isTerminal = false := rfl
    simp only [Intake.fragment, created, undecided, merged]
    rfl
  have kept : (n.cache.versions f.key).map (Cache.replaced m.settle.1) = n.cache.versions f.key := by
    refine (List.map_congr_left fun o listed => if_neg fun copy => ?_).trans (List.map_id _)
    have earlier := tidy.numbered f.key o listed
    rw [copy, same.copy] at earlier
    exact absurd earlier (Nat.lt_irrefl _)
  rw [concluded, (cache_conclude isOpen i (n.withCache c) 0 now).1 lacking, if_pos start]
  change (c.update m.settle.1).versions f.key = _
  rw [sound.versions_update shows same, list, List.map_append, kept, List.map_singleton,
    Cache.replaced, if_pos same.copy.symm]

end Intake

/-! ### Streams -/

namespace Fragment.Publication

variable {p : Publication} {family : List Publication} {size : Nat} {ds : List Bytes} {d : Bytes}

/-- The datagram is one of those that a publication of the family is sent in, in pieces of some size. -/
def Sends (family : List Publication) (d : Bytes) : Prop :=
  ∃ p ∈ family, ∃ size ds, p.datagrams size = .ok ds ∧ d ∈ ds

theorem slice_of_mem_datagrams (sent : p.datagrams size = .ok ds) (listed : d ∈ ds) :
    ∃ f, f.SliceOf p ∧ Datagram.encode f = .ok d := by
  obtain ⟨fs, split, _, backward⟩ := fragments_of_datagrams sent
  obtain ⟨f, member, encoded⟩ := backward d listed
  exact ⟨f, slice_of_mem_fragments split member, encoded⟩

end Fragment.Publication

namespace Intake

variable {i : Intake} {family : List Publication} {stream first second : List Bytes} {d : Bytes}
  {f : Fragment} {now grace : Millis}

def fragments (i : Intake) (stream : List Bytes) : List Fragment :=
  stream.filterMap fun d => (Datagram.decode d i.maxPacketSize i.maxObjectSize).toOption

/-- The cache that a stream of datagrams fills, all of them at `now`. -/
def filled (i : Intake) (now grace : Millis) (stream : List Bytes) : Cache :=
  (i.feed now (.empty grace) stream).1.cache

theorem filled_concat (i : Intake) (now grace : Millis) (stream : List Bytes) (d : Bytes) :
    i.filled now grace (stream ++ [d]) =
      match Datagram.decode d i.maxPacketSize i.maxObjectSize with
      | .ok f => (i.fragment (i.feed now (.empty grace) stream).1 f now).1.cache
      | .error _ => i.filled now grace stream := by
  rw [filled, feed_concat, datagram]
  cases Datagram.decode d i.maxPacketSize i.maxObjectSize with
  | ok f => rfl
  | error e => rfl

theorem fragments_concat (i : Intake) (stream : List Bytes) (d : Bytes) :
    i.fragments (stream ++ [d]) =
      match Datagram.decode d i.maxPacketSize i.maxObjectSize with
      | .ok f => i.fragments stream ++ [f]
      | .error _ => i.fragments stream := by
  rw [fragments, List.filterMap_append, List.filterMap_cons]
  cases Datagram.decode d i.maxPacketSize i.maxObjectSize with
  | ok f => rfl
  | error e => exact List.append_nil _

/-- After any stream of a family's datagrams the cache mirrors the fragments read from it. -/
theorem mirrors_filled (apart : (family.map (·.version)).Nodup)
    (few : family.length ≤ Cache.Marks.bound) (i : Intake) (now grace : Millis)
    (sent : ∀ d ∈ stream, Publication.Sends family d) :
    (i.filled now grace stream).Mirrors family now (i.fragments stream) := by
  induction stream using List.reverseRecOn with
  | nil => exact .empty family now
  | append_singleton stream d ih =>
    have mirrors := ih fun x came => sent x (List.mem_append_left [d] came)
    obtain ⟨p, member, size, ds, written, listed⟩ := sent d (by simp)
    obtain ⟨f, slice, encoded⟩ := Publication.slice_of_mem_datagrams written listed
    rw [filled_concat, fragments_concat]
    cases read : Datagram.decode d i.maxPacketSize i.maxObjectSize with
    | ok g =>
      obtain rfl := Datagram.eq_of_decode_encoded encoded read
      exact mirrors.fragment apart few member slice i rfl
    | error e => exact mirrors

theorem filled_singleton (read : Datagram.decode d i.maxPacketSize i.maxObjectSize = .ok f)
    (now grace : Millis) : i.filled now grace [d] = (i.fragment (.empty grace) f now).1.cache := by
  rw [← List.nil_append [d], filled_concat, read]
  rfl

theorem briefs_concat {c : Cache} {x : Brief} (held : i.filled now grace stream = c)
    (tidy : c.Tidy) (read : Datagram.decode d i.maxPacketSize i.maxObjectSize = .ok f)
    (absent : c.find? f.key f.version = none) (unmarked : c.isInvalid f.version = false)
    (ascending : (c.versions f.key ++ [c.newcomer f.key f.version now]).Pairwise
      fun a b : Blob => a.comesBefore b = true)
    (merged : ((c.newcomer f.key f.version now).merge f now).toOption.map (·.1.settle.1.brief) = some x)
    (lacking : x.status = .partiallyReceived) (start : x.start = 0) :
    (i.filled now grace (stream ++ [d])).briefs f.key = c.briefs f.key ++ [x] := by
  subst held
  rw [filled_concat, read]
  cases result : ((i.filled now grace stream).newcomer f.key f.version now).merge f now with
  | error e => simp [result, Except.toOption] at merged
  | ok r =>
    obtain rfl : r.1.settle.1.brief = x := by simpa [result, Except.toOption] using merged
    have undecided : r.1.settle.1.isTerminal = false := congrArg Status.isTerminal lacking
    have appended := versions_append (n := (i.feed now (.empty grace) stream).1) tidy absent unmarked
      ascending result undecided start i
    simp only [Cache.briefs, appended, List.map_append, List.map_singleton]
    rfl

/-- However the datagrams of a family of publications are ordered, all of them coming at one time: the
cache has the same keys, and shows under each of them the same blobs with the same status, start and
creation, by ascending start. Blobs that are not loose stand in one order, and so do all blobs of a key
unless a loose one has the same start as another. -/
theorem filled_perm (apart : (family.map (·.version)).Nodup)
    (few : family.length ≤ Cache.Marks.bound) (i : Intake) (now grace : Millis)
    (sent : ∀ d ∈ first, Publication.Sends family d) (perm : first.Perm second) :
    (i.filled now grace first).keys = (i.filled now grace second).keys ∧
    ∀ key,
      ((i.filled now grace first).briefs key).Perm ((i.filled now grace second).briefs key) ∧
      ((i.filled now grace first).briefs key).Pairwise (fun x y => x.start ≤ y.start) ∧
      ((i.filled now grace first).briefs key).filter (¬ ·.Loose now) =
        ((i.filled now grace second).briefs key).filter (¬ ·.Loose now) ∧
      ((∀ x ∈ (i.filled now grace first).briefs key, x.Loose now →
          ∀ y ∈ (i.filled now grace first).briefs key, y.start = x.start → y = x) →
        (i.filled now grace first).briefs key = (i.filled now grace second).briefs key) := by
  have mirrors := mirrors_filled apart few i now grace sent
  have mirrors' := mirrors_filled apart few i now grace fun d came => sent d (perm.symm.subset came)
  have same (f : Fragment) : f ∈ i.fragments first ↔ f ∈ i.fragments second :=
    (perm.filterMap _).mem_iff
  refine ⟨mirrors.keys_eq mirrors' same, fun key => ⟨mirrors.perm_briefs mirrors' same key,
    mirrors.ascending_briefs key, mirrors.filter_briefs_eq mirrors' same key,
    mirrors.briefs_eq mirrors' same key⟩⟩

/-- One byte, created when it says. -/
def sampleCreated (number : Nat) (created : String) : Publication where
  key := "k"
  version := .ofNumber number
  properties := { entries := [("Created", created)]
                  ascending := by simp }
  payload := [97]

/-- The later version was created earlier. -/
def sampleFamily : List Publication :=
  [sampleCreated 1 "5", sampleCreated 2 "3"]

/-- All metadata, and no payload. -/
def sampleStream : List Bytes :=
  sampleFamily.map (·.single .metadata)

theorem short_created {p : Publication} (member : p ∈ sampleFamily) : p.Short := by
  rcases List.mem_pair.mp member with rfl | rfl
  · exact ⟨by decide, by decide, by decide, by decide⟩
  · exact ⟨by decide, by decide, by decide, by decide⟩

theorem sends_sample : ∀ d ∈ sampleStream, Publication.Sends sampleFamily d := by
  intro d came
  obtain ⟨p, member, rfl⟩ := List.mem_map.mp came
  exact ⟨p, member, _, _, (short_created member).datagrams, by simp⟩

theorem filled_perm_sample :
    (sampleFamily.map (·.version)).Nodup ∧ sampleFamily.length ≤ Cache.Marks.bound ∧
    (∀ d ∈ sampleStream, Publication.Sends sampleFamily d) ∧ sampleStream.Perm sampleStream.reverse ∧
    (({} : Intake).filled 1000 10000 sampleStream).keys =
      (({} : Intake).filled 1000 10000 sampleStream.reverse).keys ∧
    ((({} : Intake).filled 1000 10000 sampleStream).briefs "k").Perm
      ((({} : Intake).filled 1000 10000 sampleStream.reverse).briefs "k") := by
  have apart : (sampleFamily.map (·.version)).Nodup := by decide
  have few : sampleFamily.length ≤ Cache.Marks.bound := by decide
  have perm := (List.reverse_perm sampleStream).symm
  obtain ⟨keys, shown⟩ := filled_perm apart few {} 1000 10000 sends_sample perm
  exact ⟨apart, few, sends_sample, perm, keys, (shown "k").1⟩

def sampleCache (p : Publication) : Cache :=
  (({} : Intake).fragment (.empty 10000) (p.whole .metadata) 1000).1.cache

def sampleBrief (p : Publication) : Brief :=
  .of p.version .partiallyReceived p.properties 1000

theorem decode_sample {p : Publication} (member : p ∈ sampleFamily) :
    Datagram.decode (p.single .metadata) ({} : Intake).maxPacketSize
      ({} : Intake).maxObjectSize = .ok (p.whole .metadata) :=
  (short_created member).decode .metadata (by decide)

theorem held_sample {p : Publication} (member : p ∈ sampleFamily) :
    ({} : Intake).filled 1000 10000 [p.single .metadata] = sampleCache p ∧
      (sampleCache p).Tidy := by
  have held : ({} : Intake).filled 1000 10000 [p.single .metadata] = sampleCache p :=
    filled_singleton (decode_sample member) 1000 10000
  have sent : ∀ d ∈ [p.single .metadata], Publication.Sends sampleFamily d := by
    intro d came
    rw [List.mem_singleton.mp came]
    exact sends_sample _ (List.mem_map_of_mem member)
  exact ⟨held, held ▸ (mirrors_filled (by decide) (by decide) {} 1000 10000 sent).toTidy⟩

theorem briefs_sample {p q : Publication} (hp : p ∈ sampleFamily) (hq : q ∈ sampleFamily)
    (other : p.version ≠ q.version) : (({} : Intake).filled 1000 10000
      [p.single .metadata, q.single .metadata]).briefs q.key =
        [sampleBrief p, sampleBrief q] := by
  obtain ⟨held, tidy⟩ := held_sample hp
  have shown : ∀ p ∈ sampleFamily, ∀ q ∈ sampleFamily,
      (sampleCache p).briefs q.key = [sampleBrief p] := by
    decide +kernel
  have absent : ∀ p ∈ sampleFamily, ∀ q ∈ sampleFamily, p.version ≠ q.version →
      (sampleCache p).find? q.key q.version = none ∧ (sampleCache p).isInvalid q.version = false := by
    decide +kernel
  have ascending : ∀ p ∈ sampleFamily, ∀ q ∈ sampleFamily,
      ((sampleCache p).versions q.key ++ [(sampleCache p).newcomer q.key q.version 1000]).Pairwise
        fun a b : Blob => a.comesBefore b = true := by
    decide +kernel
  have merged : ∀ p ∈ sampleFamily, ∀ q ∈ sampleFamily,
      (((sampleCache p).newcomer q.key q.version 1000).merge (q.whole .metadata) 1000).toOption.map
        (·.1.settle.1.brief) = some (sampleBrief q) := by
    decide +kernel
  have start : ∀ q ∈ sampleFamily, (sampleBrief q).start = 0 := by
    decide +kernel
  obtain ⟨unstored, unmarked⟩ := absent p hp q hq other
  have appended := briefs_concat held tidy (decode_sample hq) unstored unmarked (ascending p hp q hq)
    (merged p hp q hq) rfl (start q hq)
  exact appended.trans (congrArg (· ++ [sampleBrief q]) (shown p hp q hq))

/-- Whichever of two blobs comes later stands behind the other, though it may be the one that was
created earlier. -/
theorem arrival_order_shows :
    (sampleFamily.map (·.version)).Nodup ∧ sampleFamily.length ≤ Cache.Marks.bound ∧
    (∀ d ∈ sampleStream, Publication.Sends sampleFamily d) ∧ sampleStream.Perm sampleStream.reverse ∧
    (({} : Intake).filled 1000 10000 sampleStream).briefs "k" =
      [⟨.ofNumber 1, .partiallyReceived, 0, 5⟩, ⟨.ofNumber 2, .partiallyReceived, 0, 3⟩] ∧
    (({} : Intake).filled 1000 10000 sampleStream.reverse).briefs "k" =
      [⟨.ofNumber 2, .partiallyReceived, 0, 3⟩, ⟨.ofNumber 1, .partiallyReceived, 0, 5⟩] := by
  have first : sampleCreated 1 "5" ∈ sampleFamily := by simp [sampleFamily]
  have second : sampleCreated 2 "3" ∈ sampleFamily := by simp [sampleFamily]
  refine ⟨by decide, by decide, sends_sample, (List.reverse_perm sampleStream).symm, ?_, ?_⟩
  · exact (briefs_sample first second (by decide)).trans (by decide +kernel)
  · exact (briefs_sample second first (by decide)).trans (by decide +kernel)

end Intake
end BlobReplica
