import BlobReplica.Blob

/-! The queue of blobs that wait for recovery. A blob is due some quiet time after it was last
touched. The agenda holds the due times as they were last seen; an entry that comes up is brought
up to date, so a blob that keeps receiving pieces moves back instead of being fetched early. -/

namespace BlobReplica.Recovery

/-- A queued blob and the number of its turn. -/
structure Ticket where
  number : Nat
  blob : Blob
deriving DecidableEq

/-- A due time as it was last seen, for the ticket of that number. -/
structure AgendaEntry where
  due : Millis
  number : Nat
  version : VersionId
deriving DecidableEq

def AgendaEntry.before (a b : AgendaEntry) : Bool :=
  a.due < b.due || (a.due == b.due && a.number ≤ b.number)

structure Queue where
  /-- How long a blob has to be quiet: the whole milliseconds of that duration as a 64-bit number. -/
  grace : Millis
  /-- In ascending order; entries without a ticket are passed over. -/
  agenda : List AgendaEntry := []
  /-- At most one for each version. -/
  tickets : List Ticket := []
  nextNumber : Nat := 0

inductive Poll where
  /-- A blob is due and has left the queue. -/
  | ready (blob : Blob)
  /-- Nothing is due before this time. -/
  | wait (due : Millis)
  | empty

namespace Queue

def dueOf (q : Queue) (b : Blob) : Millis :=
  b.lastTouched.later q.grace

def ticket? (q : Queue) (version : VersionId) : Option Ticket :=
  q.tickets.find? (·.blob.version = version)

def contains (q : Queue) (version : VersionId) : Bool :=
  q.tickets.any (·.blob.version = version)

def length (q : Queue) : Nat :=
  q.tickets.length

def schedule (e : AgendaEntry) : List AgendaEntry → List AgendaEntry
  | [] => [e]
  | first :: rest => if e.before first then e :: first :: rest else first :: schedule e rest

/-- Queues a blob unless its version is queued already, and tells whether it did. -/
def enqueue (q : Queue) (b : Blob) : Queue × Bool :=
  if q.contains b.version then (q, false)
  else
    let number := q.nextNumber
    ({ q with
        agenda := schedule ⟨q.dueOf b, number, b.version⟩ q.agenda
        tickets := q.tickets ++ [⟨number, b⟩]
        nextNumber := number + 1 }, true)

def remove (q : Queue) (version : VersionId) : Queue × Bool :=
  ({ q with tickets := q.tickets.filter (·.blob.version ≠ version) }, q.contains version)

def update (q : Queue) (b : Blob) : Queue :=
  { q with tickets := q.tickets.map fun t => if t.blob.copy = b.copy then { t with blob := b } else t }

/-- The due time of the ticket that an entry stands for. -/
def current? (q : Queue) (e : AgendaEntry) : Option Millis :=
  ((q.ticket? e.version).filter (·.number = e.number)).map fun t => q.dueOf t.blob

/-- Whether an entry's due time is out of date. -/
def isBehind (q : Queue) (e : AgendaEntry) : Bool :=
  (q.current? e).any (e.due < ·)

/-- Steps that polling an agenda can take: one for each entry, one more for those behind. -/
def work (q : Queue) : List AgendaEntry → Nat
  | [] => 0
  | e :: rest => (if q.isBehind e then 2 else 1) + work q rest

theorem work_schedule (q : Queue) (e : AgendaEntry) (agenda : List AgendaEntry) :
    q.work (schedule e agenda) = (if q.isBehind e then 2 else 1) + q.work agenda := by
  induction agenda with
  | nil => simp [schedule, work]
  | cons first rest ih =>
    simp only [schedule]
    split
    · simp [work]
    · simp only [work] at ih ⊢
      omega

/-- Polls with the given agenda in place of the queue's own. -/
def pollFrom (q : Queue) (now : Millis) (agenda : List AgendaEntry) : Queue × Poll :=
  match agenda with
  | [] => ({ q with agenda := [] }, .empty)
  | e :: rest =>
    match _h : q.current? e with
    | none => q.pollFrom now rest
    | some current =>
      if _behind : e.due < current then q.pollFrom now (schedule { e with due := current } rest)
      else if now < e.due then ({ q with agenda := e :: rest }, .wait e.due)
      else match q.ticket? e.version with
        | some t => (({ q with agenda := rest }.remove e.version).1, .ready t.blob)
        | none => ({ q with agenda := rest }, .empty)
termination_by q.work agenda
decreasing_by
  · simp only [work]
    split <;> omega
  · have upToDate : q.isBehind { e with due := current } = false := by
      have same : q.current? { e with due := current } = some current := _h
      simp [isBehind, same]
    have wasBehind : q.isBehind e = true := by simpa [isBehind, _h] using _behind
    rw [work_schedule, upToDate]
    simp only [work, wasBehind]
    simp

/-- Takes out the first blob that is due at `now`. -/
def poll (q : Queue) (now : Millis) : Queue × Poll :=
  q.pollFrom now q.agenda

end Queue
end BlobReplica.Recovery
