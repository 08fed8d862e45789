import BlobReplica.Recovery.Queue
import Mathlib.Logic.Function.Basic

/-! The recovery queue as its users see it: a plain table that gives each queued version its blob
and the number of its turn. The table knows no agenda; when a blob is due is read off the blob. A
ledger also books the numbers of the tickets that were removed and of those that polls took out. -/

namespace BlobReplica.Recovery

/-- What is done to a queue. -/
inductive Operation where
  | enqueue (blob : Blob)
  | remove (version : VersionId)
  | poll (now : Millis)
  /-- A blob has changed and this is its new state. -/
  | change (blob : Blob)

/-- What an operation tells. -/
inductive Answer where
  | told (did : Bool)
  | polled (poll : Poll)
  | nothing

/-- A run: operations with their answers, from one state to another. -/
inductive Run {State : Type} (Step : State → Operation → Answer → State → Prop) :
    State → List (Operation × Answer) → State → Prop where
  | refl (s : State) : Run Step s [] s
  | next {s t u : State} {op : Operation} {answer : Answer} {rest : List (Operation × Answer)} :
      Step s op answer t → Run Step t rest u → Run Step s ((op, answer) :: rest) u

structure Ledger where
  grace : Millis
  tickets : VersionId → Option Ticket := fun _ => none
  /-- How many tickets there have been. -/
  issued : Nat := 0
  /-- Numbers of the tickets that were removed, the latest first. -/
  removed : List Nat := []
  /-- Numbers of the tickets that polls took out, the latest first. -/
  taken : List Nat := []

namespace Ledger

def due (l : Ledger) (t : Ticket) : Millis :=
  t.blob.lastTouched.later l.grace

/-- Earlier due, or due at the same time and of an earlier turn. -/
def Precedes (l : Ledger) (t u : Ticket) : Prop :=
  l.due t < l.due u ∨ (l.due t = l.due u ∧ t.number ≤ u.number)

/-- No ticket comes before the one of this version. -/
def Next (l : Ledger) (version : VersionId) (t : Ticket) : Prop :=
  l.tickets version = some t ∧ ∀ v u, l.tickets v = some u → l.Precedes t u

/-- Whether a state of a blob can follow the queued one: the same version, touched no earlier. -/
def Follows (l : Ledger) (b : Blob) : Prop :=
  ∀ v t, l.tickets v = some t → t.blob.copy = b.copy →
    t.blob.version = b.version ∧ t.blob.lastTouched ≤ b.lastTouched

def issue (l : Ledger) (b : Blob) : Ledger :=
  { l with
    tickets := Function.update l.tickets b.version (some ⟨l.issued, b⟩)
    issued := l.issued + 1 }

def drop (l : Ledger) (version : VersionId) (t : Ticket) : Ledger :=
  { l with
    tickets := Function.update l.tickets version none
    removed := t.number :: l.removed }

def take (l : Ledger) (version : VersionId) (t : Ticket) : Ledger :=
  { l with
    tickets := Function.update l.tickets version none
    taken := t.number :: l.taken }

/-- Gives the ticket of a changed blob its new state. -/
def change (l : Ledger) (b : Blob) : Ledger :=
  { l with tickets := fun v =>
      (l.tickets v).map fun t => if t.blob.copy = b.copy then { t with blob := b } else t }

/-- One operation on the table and what it has to answer. -/
inductive Step (l : Ledger) : Operation → Answer → Ledger → Prop where
  | enqueueNew {b : Blob} : l.tickets b.version = none →
      Step l (.enqueue b) (.told true) (l.issue b)
  | enqueueAgain {b : Blob} {t : Ticket} : l.tickets b.version = some t →
      Step l (.enqueue b) (.told false) l
  | removePresent {v : VersionId} {t : Ticket} : l.tickets v = some t →
      Step l (.remove v) (.told true) (l.drop v t)
  | removeAbsent {v : VersionId} : l.tickets v = none → Step l (.remove v) (.told false) l
  | pollEmpty {now : Millis} : (∀ v, l.tickets v = none) →
      Step l (.poll now) (.polled .empty) l
  | pollWait {now : Millis} {v : VersionId} {t : Ticket} : l.Next v t → now < l.due t →
      Step l (.poll now) (.polled (.wait (l.due t))) l
  | pollReady {now : Millis} {v : VersionId} {t : Ticket} : l.Next v t → l.due t ≤ now →
      Step l (.poll now) (.polled (.ready t.blob)) (l.take v t)
  | change {b : Blob} : l.Follows b → Step l (.change b) .nothing (l.change b)

/-- Every ticket number issued so far is held by one queued version, or booked once as removed, or
booked once as taken, and by one of these only. -/
structure Balanced (l : Ledger) : Prop where
  /-- A ticket is filed under the version of its blob. -/
  filed : ∀ v t, l.tickets v = some t → t.blob.version = v
  single : ∀ v w t u, l.tickets v = some t → l.tickets w = some u → t.number = u.number → v = w
  fresh : (l.removed ++ l.taken).Nodup
  gone : ∀ v t, l.tickets v = some t → t.number ∉ l.removed ++ l.taken
  complete : ∀ n, n < l.issued ↔
    (∃ v t, l.tickets v = some t ∧ t.number = n) ∨ n ∈ l.removed ++ l.taken

variable {l l' : Ledger}

theorem balanced_start (grace : Millis) : Balanced { grace } := by
  constructor <;> simp

/-- Taking a ticket out of the table and booking its number keeps the balance, whether the number
is booked as removed or as taken. -/
theorem Balanced.leave {v : VersionId} {t : Ticket} (balanced : l.Balanced)
    (held : l.tickets v = some t) {removed taken : List Nat}
    (booked : (removed ++ taken).Perm (t.number :: (l.removed ++ l.taken))) :
    Balanced { l with tickets := Function.update l.tickets v none, removed, taken } := by
  have others : ∀ w u, Function.update l.tickets v none w = some u → w ≠ v ∧ l.tickets w = some u := by
    intro w u found
    by_cases same : w = v
    · subst same
      simp at found
    · exact ⟨same, by simpa [same] using found⟩
  constructor
  · intro w u found
    exact balanced.filed w u (others w u found).2
  · intro w x u u' found found' same
    exact balanced.single w x u u' (others w u found).2 (others x u' found').2 same
  · exact booked.symm.nodup (List.nodup_cons.mpr ⟨balanced.gone v t held, balanced.fresh⟩)
  · intro w u found listed
    obtain ⟨other, found⟩ := others w u found
    rcases List.mem_cons.mp (booked.mem_iff.mp listed) with same | listed
    · exact other (balanced.single w v u t found held same)
    · exact balanced.gone w u found listed
  · intro n
    rw [balanced.complete n]
    constructor
    · rintro (⟨w, u, found, rfl⟩ | listed)
      · by_cases same : w = v
        · subst same
          obtain rfl : u = t := by simpa [held] using found.symm
          exact .inr (booked.mem_iff.mpr (by simp))
        · exact .inl ⟨w, u, by simpa [same] using found, rfl⟩
      · exact .inr (booked.mem_iff.mpr (List.mem_cons_of_mem _ listed))
    · rintro (⟨w, u, found, rfl⟩ | listed)
      · exact .inl ⟨w, u, (others w u found).2, rfl⟩
      · rcases List.mem_cons.mp (booked.mem_iff.mp listed) with rfl | listed
        · exact .inl ⟨v, t, held, rfl⟩
        · exact .inr listed

theorem Balanced.issue {b : Blob} (balanced : l.Balanced) (absent : l.tickets b.version = none) :
    (l.issue b).Balanced := by
  have unissued : ∀ v t, l.tickets v = some t → t.number < l.issued := fun v t held =>
    (balanced.complete t.number).mpr (.inl ⟨v, t, held, rfl⟩)
  have cases : ∀ v t, (l.issue b).tickets v = some t →
      (v = b.version ∧ t = ⟨l.issued, b⟩) ∨ (v ≠ b.version ∧ l.tickets v = some t) := by
    intro v t held
    by_cases same : v = b.version
    · subst same
      exact .inl ⟨rfl, by simpa [Ledger.issue] using held.symm⟩
    · exact .inr ⟨same, by simpa [Ledger.issue, same] using held⟩
  constructor
  · intro v t held
    rcases cases v t held with ⟨rfl, rfl⟩ | ⟨_, held⟩
    · rfl
    · exact balanced.filed v t held
  · intro v w t u held held' same
    rcases cases v t held with ⟨rfl, rfl⟩ | ⟨_, held⟩ <;>
      rcases cases w u held' with ⟨rfl, rfl⟩ | ⟨_, held'⟩
    · rfl
    · have := unissued w u held'
      simp only at same
      omega
    · have := unissued v t held
      simp only at same
      omega
    · exact balanced.single v w t u held held' same
  · exact balanced.fresh
  · intro v t held listed
    rcases cases v t held with ⟨rfl, rfl⟩ | ⟨_, held⟩
    · have := (balanced.complete l.issued).mpr (.inr listed)
      omega
    · exact balanced.gone v t held listed
  · intro n
    constructor
    · intro below
      rcases Nat.lt_succ_iff_lt_or_eq.mp below with below | rfl
      · rcases (balanced.complete n).mp below with ⟨v, t, held, rfl⟩ | listed
        · refine .inl ⟨v, t, ?_, rfl⟩
          have other : v ≠ b.version := fun same => by simp [← same, held] at absent
          simpa [Ledger.issue, other] using held
        · exact .inr listed
      · exact .inl ⟨b.version, ⟨l.issued, b⟩, by simp [Ledger.issue], rfl⟩
    · rintro (⟨v, t, held, rfl⟩ | listed)
      · rcases cases v t held with ⟨rfl, rfl⟩ | ⟨_, held⟩
        · exact Nat.lt_succ_self _
        · exact Nat.lt_succ_of_lt (unissued v t held)
      · exact Nat.lt_succ_of_lt ((balanced.complete n).mpr (.inr listed))

theorem change_tickets {b : Blob} {v : VersionId} {t : Ticket}
    (held : (l.change b).tickets v = some t) :
    ∃ u, l.tickets v = some u ∧ u.number = t.number ∧
      (t = u ∨ (u.blob.copy = b.copy ∧ t.blob = b)) := by
  obtain ⟨u, found, rfl⟩ := Option.map_eq_some_iff.mp held
  refine ⟨u, found, ?_⟩
  split
  next same => exact ⟨rfl, .inr ⟨same, rfl⟩⟩
  next => exact ⟨rfl, .inl rfl⟩

theorem Balanced.change {b : Blob} (balanced : l.Balanced) (follows : l.Follows b) :
    (l.change b).Balanced := by
  constructor
  · intro v t held
    obtain ⟨u, found, _, rfl | ⟨same, new⟩⟩ := change_tickets held
    · exact balanced.filed v t found
    · rw [new, ← (follows v u found same).1]
      exact balanced.filed v u found
  · intro v w t u held held' same
    obtain ⟨t', found, number, _⟩ := change_tickets held
    obtain ⟨u', found', number', _⟩ := change_tickets held'
    exact balanced.single v w t' u' found found' (by omega)
  · exact balanced.fresh
  · intro v t held
    obtain ⟨u, found, number, _⟩ := change_tickets held
    rw [← number]
    exact balanced.gone v u found
  · intro n
    refine (balanced.complete n).trans (or_congr_left ?_)
    constructor
    · rintro ⟨v, t, held, rfl⟩
      refine ⟨v, if t.blob.copy = b.copy then { t with blob := b } else t, ?_, ?_⟩
      · simp only [Ledger.change, held, Option.map_some]
      · split <;> rfl
    · rintro ⟨v, t, held, rfl⟩
      obtain ⟨u, found, number, _⟩ := change_tickets held
      exact ⟨v, u, found, number⟩

theorem Balanced.step {op : Operation} {answer : Answer} (balanced : l.Balanced)
    (step : Step l op answer l') : l'.Balanced := by
  cases step with
  | enqueueNew absent => exact balanced.issue absent
  | removePresent held => exact balanced.leave held (List.Perm.refl _)
  | pollReady next _ => exact balanced.leave next.1 List.perm_middle
  | change follows => exact balanced.change follows
  | enqueueAgain | removeAbsent | pollEmpty | pollWait => exact balanced

theorem Balanced.run {trace : List (Operation × Answer)} (balanced : l.Balanced)
    (run : Run Step l trace l') : l'.Balanced := by
  induction run with
  | refl => exact balanced
  | next step _ ih => exact ih (balanced.step step)

end Ledger
end BlobReplica.Recovery
