import BlobReplica.Proofs.Cache
import Mathlib.Data.Finset.Card

/-! Marks as a table with room for so many versions. A mark that is set stays until as many other
versions as the table holds have been marked as late as it was. -/

namespace BlobReplica.Cache.Marks

variable {marks : Marks} {m o : VersionId × Millis} {v w : VersionId} {t now cutoff : Millis}
  {others : Finset VersionId}

/-- At most one mark for each version, and no more than are held. -/
structure Proper (marks : Marks) : Prop where
  distinct : (marks.map (·.1)).Nodup
  short : marks.length ≤ bound

theorem proper_nil : Proper [] where
  distinct := List.nodup_nil
  short := Nat.zero_le bound

theorem oldest_of_foldl (first : VersionId × Millis) (rest : Marks)
    (found : rest.foldl (fun best n => if n.2 < best.2 then n else best) first = o) :
    o ∈ first :: rest ∧ ∀ m ∈ first :: rest, o.2 ≤ m.2 := by
  induction rest generalizing first with
  | nil =>
    cases found
    simp
  | cons second rest ih =>
    rw [List.foldl_cons] at found
    split at found
    next earlier =>
      obtain ⟨member, least⟩ := ih second found
      refine ⟨List.mem_cons_of_mem first member, fun m listed => ?_⟩
      rcases List.mem_cons.mp listed with rfl | listed
      · exact Nat.le_trans (least second List.mem_cons_self) (Nat.le_of_lt earlier)
      · exact least m listed
    next later =>
      obtain ⟨member, least⟩ := ih first found
      constructor
      · rcases List.mem_cons.mp member with rfl | member
        · exact List.mem_cons_self
        · exact List.mem_cons_of_mem first (List.mem_cons_of_mem second member)
      · intro m listed
        rcases List.mem_cons.mp listed with rfl | listed
        · exact least m List.mem_cons_self
        · rcases List.mem_cons.mp listed with rfl | listed
          · exact Nat.le_trans (least first List.mem_cons_self) (Nat.le_of_not_lt later)
          · exact least m (List.mem_cons_of_mem first listed)

theorem oldest?_eq_some (found : marks.oldest? = some o) : o ∈ marks ∧ ∀ m ∈ marks, o.2 ≤ m.2 := by
  cases marks with
  | nil => contradiction
  | cons first rest => exact oldest_of_foldl first rest (Option.some.inj found)

def replaced (marks : Marks) (v : VersionId) (now : Millis) : Marks :=
  marks.filter (·.1 != v) ++ [(v, now)]

theorem mem_replaced :
    m ∈ marks.replaced v now ↔ m ∈ marks ∧ m.1 ≠ v ∨ m = (v, now) := by
  simp [replaced, List.mem_filter]

theorem Proper.distinct_replaced (proper : marks.Proper) (v : VersionId) (now : Millis) :
    ((marks.replaced v now).map (·.1)).Nodup := by
  have within : marks.Within (v :: marks.map (·.1)) :=
    ⟨proper.distinct, fun m member => List.mem_cons_of_mem v (List.mem_map_of_mem member)⟩
  exact (within.replace List.mem_cons_self now).distinct

theorem Proper.length_replaced (proper : marks.Proper) (v : VersionId) (now : Millis) :
    (marks.replaced v now).length ≤ bound + 1 := by
  rw [replaced, List.length_append]
  exact Nat.add_le_add_right (Nat.le_trans (List.length_filter_le _ _) proper.short) 1

/-- What is held of marks that may be one too many: without the first of those with the smallest time,
in the order in which they are looked through. -/
def evict (order : Marks) : Marks :=
  if bound < order.length then
    match oldest? order with
    | some oldest => order.filter (·.1 != oldest.1)
    | none => order
  else order

theorem evict_cases (order : Marks) :
    (order.evict = order ∧ order.length ≤ bound) ∨
      ∃ o ∈ order, bound < order.length ∧ (∀ m ∈ order, o.2 ≤ m.2) ∧
        order.evict = order.filter (·.1 != o.1) := by
  rw [evict]
  split
  next full =>
    cases found : oldest? order with
    | some o =>
      obtain ⟨member, least⟩ := oldest?_eq_some found
      exact .inr ⟨o, member, full, least, rfl⟩
    | none =>
      exfalso
      cases empty : order with
      | nil => simp [empty] at full
      | cons first rest => simp [empty, oldest?] at found
  next room => exact .inl ⟨rfl, Nat.le_of_not_lt room⟩

/-- A new mark drives out none, or the oldest of all. -/
theorem add_cases (marks : Marks) (v : VersionId) (now : Millis) :
    (marks.add v now = marks.replaced v now ∧ (marks.replaced v now).length ≤ bound) ∨
      ∃ o ∈ marks.replaced v now, bound < (marks.replaced v now).length ∧
        (∀ m ∈ marks.replaced v now, o.2 ≤ m.2) ∧
        marks.add v now = (marks.replaced v now).filter (·.1 != o.1) :=
  evict_cases (marks.replaced v now)

theorem add_sublist (marks : Marks) (v : VersionId) (now : Millis) :
    (marks.add v now).Sublist (marks.replaced v now) := by
  rcases marks.add_cases v now with ⟨same, _⟩ | ⟨o, _, _, _, less⟩
  · rw [same]
  · rw [less]
    exact List.filter_sublist

theorem Proper.add (proper : marks.Proper) (v : VersionId) (now : Millis) :
    (marks.add v now).Proper where
  distinct := (proper.distinct_replaced v now).sublist ((marks.add_sublist v now).map _)
  short := by
    rcases marks.add_cases v now with ⟨same, room⟩ | ⟨o, member, _, _, less⟩
    · rw [same]
      exact room
    · have fewer : (marks.add v now).length < (marks.replaced v now).length := by
        rw [less, List.length_filter_lt_length_iff_exists]
        exact ⟨o, member, by simp⟩
      exact Nat.le_of_lt_succ (Nat.lt_of_lt_of_le fewer (proper.length_replaced v now))

theorem Proper.since (proper : marks.Proper) (cutoff : Millis) : (marks.since cutoff).Proper where
  distinct := proper.distinct.sublist (List.filter_sublist.map _)
  short := Nat.le_trans (List.length_filter_le _ _) proper.short

/-- What is done to marks: one is set, or the old ones are forgotten. -/
inductive Marking where
  | set (version : VersionId) (now : Millis)
  | forget (cutoff : Millis)
deriving DecidableEq

def mark (marks : Marks) : Marking → Marks
  | .set v now => marks.add v now
  | .forget cutoff => marks.since cutoff

theorem Proper.mark (proper : marks.Proper) (marking : Marking) : (marks.mark marking).Proper := by
  cases marking with
  | set v now => exact proper.add v now
  | forget cutoff => exact proper.since cutoff

theorem Proper.foldl_mark (proper : marks.Proper) (markings : List Marking) :
    Proper (markings.foldl Marks.mark marks) := by
  induction markings generalizing marks with
  | nil => exact proper
  | cons marking rest ih => exact ih (proper.mark marking)

theorem mem_foldl_mark {markings : List Marking} (member : m ∈ markings.foldl mark marks) :
    m ∈ marks ∨ .set m.1 m.2 ∈ markings := by
  induction markings generalizing marks with
  | nil => exact .inl member
  | cons marking rest ih =>
    rcases ih member with former | later
    · cases marking with
      | set v now =>
        rcases mem_replaced.mp ((marks.add_sublist v now).subset former) with ⟨former, _⟩ | rfl
        · exact .inl former
        · exact .inr List.mem_cons_self
      | forget cutoff => exact .inl (List.mem_of_mem_filter former)
    · exact .inr (List.mem_cons_of_mem marking later)

/-! ### A mark that stays -/

/-- A version has been marked at `t` or later, and only the `others` have been marked as late. -/
structure Bars (marks : Marks) (v : VersionId) (t : Millis) (others : Finset VersionId) : Prop
    extends marks.Proper where
  marked : ∃ m ∈ marks, m.1 = v ∧ t ≤ m.2
  late : ∀ m ∈ marks, t ≤ m.2 → m.1 = v ∨ m.1 ∈ others

namespace Bars

theorem contains (bars : marks.Bars v t others) : marks.contains v = true := by
  obtain ⟨m, member, rfl, _⟩ := bars.marked
  exact List.any_eq_true.mpr ⟨m, member, beq_self_eq_true m.1⟩

/-- What is driven out is another mark: with this one as the oldest there would be too few. -/
theorem of_replaced (proper : marks.Proper) (few : others.card < bound)
    (marked : ∃ m ∈ marks.replaced w now, m.1 = v ∧ t ≤ m.2)
    (late : ∀ m ∈ marks.replaced w now, t ≤ m.2 → m.1 = v ∨ m.1 ∈ others) :
    (marks.add w now).Bars v t others := by
  have distinct := proper.distinct_replaced w now
  refine ⟨proper.add w now, ?_, fun m member => late m ((marks.add_sublist w now).subset member)⟩
  obtain ⟨m, member, named, since⟩ := marked
  rcases marks.add_cases w now with ⟨same, _⟩ | ⟨o, oldest, full, least, less⟩
  · rw [same]
    exact ⟨m, member, named, since⟩
  · rw [less]
    refine ⟨m, List.mem_filter.mpr ⟨member, bne_iff_ne.mpr fun first => ?_⟩, named, since⟩
    obtain rfl := List.inj_on_of_nodup_map distinct member oldest first
    -- With the oldest mark all are late, so they are those of `v` and of the others.
    have among : ((marks.replaced w now).map (·.1)).toFinset ⊆ Insert.insert v others := by
      intro u listed
      obtain ⟨n, member, rfl⟩ := List.mem_map.mp (List.mem_toFinset.mp listed)
      exact Finset.mem_insert.mpr (late n member (Nat.le_trans since (least n member)))
    have count : (marks.replaced w now).length ≤ others.card + 1 := calc
      (marks.replaced w now).length = ((marks.replaced w now).map (·.1)).toFinset.card := by
        rw [List.toFinset_card_of_nodup distinct, List.length_map]
      _ ≤ (Insert.insert v others).card := Finset.card_le_card among
      _ ≤ others.card + 1 := Finset.card_insert_le v others
    exact absurd few (Nat.not_lt.mpr (Nat.le_of_lt_succ (Nat.lt_of_lt_of_le full count)))

/-- A version that is marked after all others is barred. -/
theorem of_latest (proper : marks.Proper) (earlier : ∀ m ∈ marks, m.1 ≠ v → m.2 < t) :
    (marks.add v t).Bars v t others := by
  have alone : (marks.add v t).Bars v t ∅ := by
    apply of_replaced proper (by decide)
    · exact ⟨(v, t), mem_replaced.mpr (.inr rfl), rfl, Nat.le_refl t⟩
    · intro m member late
      rcases mem_replaced.mp member with ⟨member, other⟩ | rfl
      · exact absurd late (Nat.not_le.mpr (earlier m member other))
      · exact .inl rfl
  refine ⟨alone.toProper, alone.marked, fun m member late => .inl ?_⟩
  exact (alone.late m member late).resolve_right (Finset.notMem_empty m.1)

theorem add (bars : marks.Bars v t others) (few : others.card < bound) (late : t ≤ now)
    (known : w = v ∨ w ∈ others) : (marks.add w now).Bars v t others := by
  apply of_replaced bars.toProper few
  · obtain ⟨m, member, named, since⟩ := bars.marked
    by_cases same : m.1 = w
    · exact ⟨(w, now), mem_replaced.mpr (.inr rfl), same.symm.trans named, late⟩
    · exact ⟨m, mem_replaced.mpr (.inl ⟨member, same⟩), named, since⟩
  · intro m member late
    rcases mem_replaced.mp member with ⟨member, _⟩ | rfl
    · exact bars.late m member late
    · exact known

theorem since (bars : marks.Bars v t others) (early : cutoff ≤ t) :
    (marks.since cutoff).Bars v t others where
  toProper := bars.toProper.since cutoff
  marked := by
    obtain ⟨m, member, named, since⟩ := bars.marked
    exact ⟨m, List.mem_filter.mpr ⟨member, decide_eq_true (Nat.le_trans early since)⟩, named, since⟩
  late m member := bars.late m (List.mem_of_mem_filter member)

/-- What spares the mark of a version that was set at `t`: later marks, if they are of the version
itself or of the `others`, and a cutoff that is no later. -/
def Spares (v : VersionId) (t : Millis) (others : Finset VersionId) : Marking → Prop
  | .set w now => t ≤ now ∧ (w = v ∨ w ∈ others)
  | .forget cutoff => cutoff ≤ t

theorem mark {marking : Marking} (bars : marks.Bars v t others) (few : others.card < bound)
    (spares : Spares v t others marking) : (marks.mark marking).Bars v t others := by
  cases marking with
  | set w now => exact bars.add few spares.1 spares.2
  | forget cutoff => exact bars.since spares

theorem foldl_mark {markings : List Marking} (bars : marks.Bars v t others)
    (few : others.card < bound) (spares : ∀ marking ∈ markings, Spares v t others marking) :
    Bars (markings.foldl Marks.mark marks) v t others := by
  induction markings generalizing marks with
  | nil => exact bars
  | cons marking rest ih =>
    apply ih (bars.mark few (spares marking List.mem_cons_self))
    intro next later
    exact spares next (List.mem_cons_of_mem marking later)

end Bars

end BlobReplica.Cache.Marks
