import BlobReplica.Proofs.Recovery.Ledger
import Mathlib.Data.List.Find
import Mathlib.Data.List.Nodup

/-! The queue keeps its promise although its agenda goes stale: entries outlive their tickets, and
due times lag behind their blobs. Each ticket has one agenda entry with its number, whose due time
never exceeds the current one; so the first entry that is up to date belongs to the ticket that is
due first, and polling brings at most every entry up to date once. -/

namespace BlobReplica.Recovery

/-- Entries and tickets that belong together. -/
structure AgendaEntry.StandsFor (e : AgendaEntry) (t : Ticket) : Prop where
  number : e.number = t.number
  version : e.version = t.blob.version

namespace AgendaEntry

theorem before_iff {a b : AgendaEntry} :
    a.before b = true ↔ a.due < b.due ∨ (a.due = b.due ∧ a.number ≤ b.number) := by
  simp [before]

theorem before_refl (a : AgendaEntry) : a.before a = true :=
  before_iff.mpr (.inr ⟨rfl, Nat.le_refl _⟩)

theorem before_trans {a b c : AgendaEntry} (first : a.before b = true) (second : b.before c = true) :
    a.before c = true := by
  rw [before_iff] at *
  grind

theorem before_total {a b : AgendaEntry} (h : a.before b = false) : b.before a = true := by
  rw [← Bool.not_eq_true, before_iff] at h
  rw [before_iff]
  grind

end AgendaEntry

namespace Queue

variable {q : Queue} {e : AgendaEntry} {agenda rest : List AgendaEntry} {now : Millis}

theorem schedule_perm (e : AgendaEntry) (agenda : List AgendaEntry) :
    (schedule e agenda).Perm (e :: agenda) := by
  induction agenda with
  | nil => exact List.Perm.refl _
  | cons first rest ih =>
    simp only [schedule]
    split
    · exact List.Perm.refl _
    · exact (ih.cons first).trans (List.Perm.swap e first rest)

theorem mem_schedule {x : AgendaEntry} : x ∈ schedule e agenda ↔ x = e ∨ x ∈ agenda := by
  rw [(schedule_perm e agenda).mem_iff, List.mem_cons]

theorem schedule_ascending (ascending : agenda.Pairwise (·.before ·)) :
    (schedule e agenda).Pairwise (·.before ·) := by
  induction agenda with
  | nil => simp [schedule]
  | cons first rest ih =>
    have tail := List.pairwise_cons.mp ascending
    simp only [schedule]
    split
    next early =>
      refine List.pairwise_cons.mpr ⟨fun x listed => ?_, ascending⟩
      rcases List.mem_cons.mp listed with rfl | listed
      · exact early
      · exact AgendaEntry.before_trans early (tail.1 x listed)
    next late =>
      refine List.pairwise_cons.mpr ⟨fun x listed => ?_, ih tail.2⟩
      rcases mem_schedule.mp listed with rfl | listed
      · exact AgendaEntry.before_total (by simpa using late)
      · exact tail.1 x listed

/-- What every operation keeps: an ascending agenda with one entry for each ticket, possibly among
entries that no ticket stands behind. -/
structure Valid (q : Queue) : Prop where
  ascending : q.agenda.Pairwise (·.before ·)
  numbers : (q.agenda.map (·.number)).Nodup
  issued : ∀ e ∈ q.agenda, e.number < q.nextNumber
  versions : (q.tickets.map (·.blob.version)).Nodup
  /-- A ticket's entry never promises the blob later than it is due. -/
  scheduled : ∀ t ∈ q.tickets, ∃ e ∈ q.agenda, e.StandsFor t ∧ e.due ≤ q.dueOf t.blob

theorem valid_start (grace : Millis) : Valid { grace } := by
  constructor <;> simp

theorem ticket?_eq_some (valid : q.Valid) {v : VersionId} {t : Ticket} :
    q.ticket? v = some t ↔ t ∈ q.tickets ∧ t.blob.version = v := by
  constructor
  · intro found
    exact ⟨List.mem_of_find?_eq_some found, by simpa using List.find?_some found⟩
  · rintro ⟨member, rfl⟩
    obtain ⟨u, found⟩ := Option.isSome_iff_exists.mp
      (List.find?_isSome.mpr ⟨t, member, by simp⟩ : (q.ticket? t.blob.version).isSome)
    have same : u.blob.version = t.blob.version := by simpa using List.find?_some found
    have member' := List.mem_of_find?_eq_some found
    exact found.trans (congrArg some (List.inj_on_of_nodup_map valid.versions member' member same))

theorem ticket?_eq_none {v : VersionId} :
    q.ticket? v = none ↔ ∀ t ∈ q.tickets, t.blob.version ≠ v := by
  simp [ticket?]

theorem contains_eq (v : VersionId) : q.contains v = (q.ticket? v).isSome := by
  rw [Bool.eq_iff_iff]
  simp [contains, ticket?]

theorem Valid.entry_unique (valid : q.Valid) {a b : AgendaEntry} (ha : a ∈ q.agenda)
    (hb : b ∈ q.agenda) (same : a.number = b.number) : a = b :=
  List.inj_on_of_nodup_map valid.numbers ha hb same

theorem Valid.current?_eq_some (valid : q.Valid) {current : Millis} :
    q.current? e = some current ↔ ∃ t ∈ q.tickets, e.StandsFor t ∧ q.dueOf t.blob = current := by
  simp only [current?, Option.map_eq_some_iff, Option.filter_eq_some_iff, decide_eq_true_eq]
  constructor
  · rintro ⟨t, ⟨found, number⟩, due⟩
    obtain ⟨member, version⟩ := (ticket?_eq_some valid).mp found
    exact ⟨t, member, ⟨number.symm, version.symm⟩, due⟩
  · rintro ⟨t, member, stands, due⟩
    exact ⟨t, ⟨(ticket?_eq_some valid).mpr ⟨member, stands.version.symm⟩, stands.number.symm⟩, due⟩

theorem Valid.drop (valid : Valid { q with agenda := e :: rest }) (stale : q.current? e = none) :
    Valid { q with agenda := rest } := by
  have tail := List.pairwise_cons.mp valid.ascending
  have numbers := List.nodup_cons.mp valid.numbers
  refine ⟨tail.2, numbers.2, fun x listed => valid.issued x (List.mem_cons_of_mem _ listed),
    valid.versions, fun t member => ?_⟩
  obtain ⟨x, listed, stands, early⟩ := valid.scheduled t member
  rcases List.mem_cons.mp listed with rfl | listed
  · have live : q.current? x = some (q.dueOf t.blob) :=
      valid.current?_eq_some.mpr ⟨t, member, stands, rfl⟩
    simp [live] at stale
  · exact ⟨x, listed, stands, early⟩

theorem Valid.reschedule {current : Millis} (valid : Valid { q with agenda := e :: rest })
    (live : q.current? e = some current) :
    Valid { q with agenda := schedule { e with due := current } rest } := by
  have tail := List.pairwise_cons.mp valid.ascending
  have numbers : ((schedule { e with due := current } rest).map (·.number)).Perm
      ((e :: rest).map (·.number)) :=
    (schedule_perm _ _).map _
  refine ⟨schedule_ascending tail.2, numbers.nodup_iff.mpr valid.numbers, ?_, valid.versions, ?_⟩
  · intro x listed
    rcases mem_schedule.mp listed with rfl | listed
    · exact valid.issued e List.mem_cons_self
    · exact valid.issued x (List.mem_cons_of_mem _ listed)
  · intro t member
    obtain ⟨x, listed, stands, early⟩ := valid.scheduled t member
    rcases List.mem_cons.mp listed with rfl | listed
    · obtain ⟨u, member', stands', due⟩ := valid.current?_eq_some.mp live
      have same : u = t := List.inj_on_of_nodup_map valid.versions member' member
        (stands'.version.symm.trans stands.version)
      subst same
      exact ⟨_, mem_schedule.mpr (.inl rfl), ⟨stands.number, stands.version⟩, Nat.le_of_eq due.symm⟩
    · exact ⟨x, mem_schedule.mpr (.inr listed), stands, early⟩

/-- A head entry that is up to date has the current due time of its ticket, and no other ticket
comes before it. -/
theorem Valid.head_first {current : Millis} (valid : Valid { q with agenda := e :: rest })
    (live : q.current? e = some current) (upToDate : ¬ e.due < current) :
    ∃ t ∈ q.tickets, e.StandsFor t ∧ q.dueOf t.blob = e.due ∧
      ∀ u ∈ q.tickets, e.due < q.dueOf u.blob ∨ (e.due = q.dueOf u.blob ∧ t.number ≤ u.number) := by
  obtain ⟨t, member, stands, due⟩ := valid.current?_eq_some.mp live
  obtain ⟨own, listed, ownStands, ownEarly⟩ := valid.scheduled t member
  have same : own = e := valid.entry_unique listed List.mem_cons_self
    (ownStands.number.trans stands.number.symm)
  subst same
  -- No entry promises its blob too late, and this one is not too early either.
  have onTime : q.dueOf t.blob = own.due :=
    Nat.le_antisymm (due ▸ Nat.not_lt.mp upToDate) ownEarly
  refine ⟨t, member, stands, onTime, fun u member' => ?_⟩
  obtain ⟨x, listed, standsFor, early⟩ := valid.scheduled u member'
  have ordered : own.before x = true := by
    rcases List.mem_cons.mp listed with rfl | listed
    · exact AgendaEntry.before_refl _
    · exact (List.pairwise_cons.mp valid.ascending).1 x listed
  have numbers := stands.number
  have numbers' := standsFor.number
  have early : x.due ≤ q.dueOf u.blob := early
  rw [AgendaEntry.before_iff] at ordered
  grind

/-- A queue that holds what a ledger says. -/
structure Represents (q : Queue) (l : Ledger) : Prop where
  grace : q.grace = l.grace
  tickets : ∀ v, q.ticket? v = l.tickets v
  issued : q.nextNumber = l.issued

variable {l : Ledger}

theorem Represents.due (represents : q.Represents l) (t : Ticket) : l.due t = q.dueOf t.blob := by
  rw [Ledger.due, dueOf, represents.grace]

theorem remove_ticket? (q : Queue) (v w : VersionId) :
    (q.remove v).1.ticket? w = Function.update q.ticket? v none w := by
  simp only [remove, ticket?, List.find?_filter]
  by_cases same : w = v
  · subst same
    simp
  · rw [Function.update_of_ne same]
    congr 1
    funext t
    by_cases h : t.blob.version = w <;> simp [h, same]

theorem Valid.remove (valid : q.Valid) (v : VersionId) : (q.remove v).1.Valid where
  ascending := valid.ascending
  numbers := valid.numbers
  issued := valid.issued
  versions := valid.versions.sublist (List.filter_sublist.map _)
  scheduled t member := valid.scheduled t (List.mem_of_mem_filter member)

theorem Valid.head_next {current : Millis} (valid : Valid { q with agenda := e :: rest })
    (represents : q.Represents l) (live : q.current? e = some current)
    (upToDate : ¬ e.due < current) :
    ∃ t, q.ticket? e.version = some t ∧ l.Next e.version t ∧ l.due t = e.due := by
  obtain ⟨t, member, stands, due, first⟩ := valid.head_first live upToDate
  have found : q.ticket? e.version = some t :=
    (ticket?_eq_some valid).mpr ⟨member, stands.version.symm⟩
  refine ⟨t, found, ⟨(represents.tickets _).symm.trans found, fun v u held => ?_⟩,
    (represents.due t).trans due⟩
  have queued := ((ticket?_eq_some valid).mp ((represents.tickets v).trans held)).1
  have before := first u queued
  rw [← due] at before
  simpa only [Ledger.Precedes, represents.due] using before

/-- The state after an operation is valid again and represents what the ledger holds then. -/
def Reaches (l : Ledger) (op : Operation) (answer : Answer) (q : Queue) : Prop :=
  ∃ l', Ledger.Step l op answer l' ∧ q.Valid ∧ q.Represents l'

theorem pollFrom_reaches (valid : Valid { q with agenda }) (represents : q.Represents l) :
    Reaches l (.poll now) (.polled (q.pollFrom now agenda).2) (q.pollFrom now agenda).1 := by
  fun_induction pollFrom q now agenda with
  | case1 =>
    have empty : ∀ v, l.tickets v = none := by
      intro v
      rw [← represents.tickets v, ticket?_eq_none]
      intro t member
      obtain ⟨_, listed, _⟩ := valid.scheduled t member
      contradiction
    exact ⟨l, .pollEmpty empty, valid, represents.grace, represents.tickets, represents.issued⟩
  | case2 e rest stale ih => exact ih (valid.drop stale)
  | case3 e rest current live behind ih => exact ih (valid.reschedule live)
  | case4 e rest current live upToDate early =>
    obtain ⟨t, _, next, due⟩ := valid.head_next represents live upToDate
    refine ⟨l, ?_, valid, represents.grace, represents.tickets, represents.issued⟩
    rw [← due] at early ⊢
    exact .pollWait next early
  | case5 e rest current live upToDate late t found =>
    obtain ⟨u, found', next, due⟩ := valid.head_next represents live upToDate
    obtain rfl : t = u := Option.some.inj (found.symm.trans found')
    have left : Valid ({ q with agenda := e :: rest }.remove e.version).1 := valid.remove e.version
    have gone : ({ q with agenda := e :: rest }.remove e.version).1.current? e = none := by
      simp [current?, remove_ticket?]
    refine ⟨_, .pollReady next (by rw [due]; exact Nat.not_lt.mp late), left.drop gone,
      represents.grace, fun v => ?_, represents.issued⟩
    rw [remove_ticket?, Ledger.take]
    exact congrFun (congrArg (Function.update · e.version none) (funext represents.tickets)) v
  | case6 e rest current live upToDate late absent =>
    obtain ⟨t, found, _⟩ := valid.head_next represents live upToDate
    simp [absent] at found

theorem Valid.enqueue {b : Blob} (valid : q.Valid) (absent : q.contains b.version = false) :
    (q.enqueue b).1.Valid := by
  have fresh : ∀ x ∈ q.agenda, x.number ≠ q.nextNumber := fun x listed same =>
    Nat.lt_irrefl _ (same ▸ valid.issued x listed)
  have others : ∀ t ∈ q.tickets, t.blob.version ≠ b.version := by
    rw [contains_eq, Option.isSome_eq_false_iff, Option.isNone_iff_eq_none] at absent
    exact ticket?_eq_none.mp absent
  rw [Queue.enqueue, if_neg (by simp [absent])]
  constructor
  · exact schedule_ascending valid.ascending
  · have numbers := (schedule_perm ⟨q.dueOf b, q.nextNumber, b.version⟩ q.agenda).map (·.number)
    refine numbers.nodup_iff.mpr (List.nodup_cons.mpr ⟨?_, valid.numbers⟩)
    simpa using fresh
  · intro x listed
    rcases mem_schedule.mp listed with rfl | listed
    · exact Nat.lt_succ_self _
    · exact Nat.lt_succ_of_lt (valid.issued x listed)
  · simp only [List.map_append, List.map_cons, List.map_nil]
    refine List.nodup_append.mpr ⟨valid.versions, by simp, ?_⟩
    simpa using others
  · intro t member
    rcases List.mem_append.mp member with member | new
    · obtain ⟨x, listed, stands, early⟩ := valid.scheduled t member
      exact ⟨x, mem_schedule.mpr (.inr listed), stands, early⟩
    · obtain rfl := List.mem_singleton.mp new
      exact ⟨_, mem_schedule.mpr (.inl rfl), ⟨rfl, rfl⟩, Nat.le_refl _⟩

theorem Represents.enqueue {b : Blob} (represents : q.Represents l)
    (held : q.ticket? b.version = none) : (q.enqueue b).1.Represents (l.issue b) := by
  have absent : q.contains b.version = false := by rw [contains_eq, held]; rfl
  rw [Queue.enqueue, if_neg (by simp [absent])]
  refine ⟨represents.grace, fun v => ?_, congrArg (· + 1) represents.issued⟩
  have same : l.issued = q.nextNumber := represents.issued.symm
  simp only [ticket?, List.find?_append, Ledger.issue, same]
  by_cases own : v = b.version
  · subst own
    rw [ticket?] at held
    simp [held]
  · rw [Function.update_of_ne own, ← represents.tickets v, ticket?]
    simp [Ne.symm own]

theorem enqueue_reaches (valid : q.Valid) (represents : q.Represents l) (b : Blob) :
    Reaches l (.enqueue b) (.told (q.enqueue b).2) (q.enqueue b).1 := by
  have table := (represents.tickets b.version).symm
  cases held : q.ticket? b.version with
  | some t =>
    have queued : q.contains b.version = true := by rw [contains_eq, held]; rfl
    rw [enqueue, if_pos queued]
    exact ⟨l, .enqueueAgain (table.trans held), valid, represents⟩
  | none =>
    have absent : q.contains b.version = false := by rw [contains_eq, held]; rfl
    have told : (q.enqueue b).2 = true := by rw [enqueue, if_neg (by simp [absent])]
    rw [told]
    exact ⟨_, .enqueueNew (table.trans held), valid.enqueue absent, represents.enqueue held⟩

theorem remove_reaches (valid : q.Valid) (represents : q.Represents l) (v : VersionId) :
    Reaches l (.remove v) (.told (q.remove v).2) (q.remove v).1 := by
  have told : (q.remove v).2 = (l.tickets v).isSome := by
    rw [remove, contains_eq, represents.tickets]
  have left : (q.remove v).1.ticket? = Function.update l.tickets v none := by
    rw [← funext represents.tickets]
    exact funext (remove_ticket? q v)
  rw [told]
  cases held : l.tickets v with
  | some t =>
    exact ⟨_, .removePresent held, valid.remove v, represents.grace, congrFun left, represents.issued⟩
  | none =>
    rw [Function.update_eq_self_iff.mpr held.symm] at left
    exact ⟨l, .removeAbsent held, valid.remove v, represents.grace, congrFun left, represents.issued⟩

/-- Whether a state of a blob can follow the queued one: the same version, touched no earlier. -/
def Follows (q : Queue) (b : Blob) : Prop :=
  ∀ t ∈ q.tickets, t.blob.copy = b.copy →
    t.blob.version = b.version ∧ t.blob.lastTouched ≤ b.lastTouched

theorem Represents.follows_iff (valid : q.Valid) (represents : q.Represents l) {b : Blob} :
    l.Follows b ↔ q.Follows b := by
  constructor
  · intro follows t member
    exact follows t.blob.version t
      ((represents.tickets _).symm.trans ((ticket?_eq_some valid).mpr ⟨member, rfl⟩))
  · intro follows v t held
    exact follows t ((ticket?_eq_some valid).mp ((represents.tickets v).trans held)).1

theorem update_ticket? {b : Blob} (follows : q.Follows b) (v : VersionId) :
    (q.update b).ticket? v =
      (q.ticket? v).map fun t => if t.blob.copy = b.copy then { t with blob := b } else t := by
  simp only [ticket?, update, List.find?_map]
  congr 1
  refine List.find?_congr fun t member => ?_
  simp only [Function.comp_apply]
  split
  next same => rw [(follows t member same).1]
  next => rfl

theorem Valid.update {b : Blob} (valid : q.Valid) (follows : q.Follows b) :
    (q.update b).Valid := by
  have kept : (q.update b).tickets.map (·.blob.version) = q.tickets.map (·.blob.version) := by
    simp only [Queue.update, List.map_map]
    refine List.map_congr_left fun t member => ?_
    simp only [Function.comp_apply]
    split
    next same => exact (follows t member same).1.symm
    next => rfl
  refine ⟨valid.ascending, valid.numbers, valid.issued, kept ▸ valid.versions, fun u changed => ?_⟩
  obtain ⟨t, member, rfl⟩ := List.mem_map.mp changed
  obtain ⟨x, listed, stands, early⟩ := valid.scheduled t member
  split
  next same =>
    obtain ⟨version, later⟩ := follows t member same
    refine ⟨x, listed, ⟨stands.number, stands.version.trans version⟩, ?_⟩
    simp only [dueOf, Millis.later, Queue.update] at early ⊢
    grind
  next => exact ⟨x, listed, stands, early⟩

theorem change_reaches {b : Blob} (valid : q.Valid) (represents : q.Represents l)
    (follows : q.Follows b) : Reaches l (.change b) .nothing (q.update b) := by
  refine ⟨_, .change ((represents.follows_iff valid).mpr follows), valid.update follows,
    represents.grace, fun v => ?_, represents.issued⟩
  rw [update_ticket? follows, represents.tickets, Ledger.change]

end Queue
end BlobReplica.Recovery
