import BlobReplica.Proofs.Recovery.Queue
import Mathlib.Data.List.Perm.Subperm

/-! Runs of the recovery queue. Whatever is done to it, it answers as the ledger does, and a poll
ends after at most two rounds for each agenda entry. -/

namespace BlobReplica.Recovery

namespace Ledger

variable {l l' l'' : Ledger} {op : Operation} {a a' : Answer}

theorem Balanced.next_unique (balanced : l.Balanced) {v w : VersionId} {t u : Ticket}
    (first : l.Next v t) (second : l.Next w u) : v = w ∧ t = u := by
  have before := first.2 w u second.1
  have after := second.2 v t first.1
  have numbers : t.number = u.number := by
    simp only [Precedes] at before after
    grind
  obtain rfl := balanced.single v w t u first.1 second.1 numbers
  exact ⟨rfl, Option.some.inj (first.1.symm.trans second.1)⟩

theorem Step.unique (balanced : l.Balanced) (first : Step l op a l') (second : Step l op a' l'') :
    a = a' ∧ l' = l'' := by
  cases first with
  | enqueueNew absent =>
    cases second with
    | enqueueNew => exact ⟨rfl, rfl⟩
    | enqueueAgain held => simp [absent] at held
  | enqueueAgain held =>
    cases second with
    | enqueueNew absent => simp [absent] at held
    | enqueueAgain => exact ⟨rfl, rfl⟩
  | removePresent held =>
    cases second with
    | removePresent held' =>
      obtain rfl := Option.some.inj (held.symm.trans held')
      exact ⟨rfl, rfl⟩
    | removeAbsent absent => simp [absent] at held
  | removeAbsent absent =>
    cases second with
    | removePresent held => simp [absent] at held
    | removeAbsent => exact ⟨rfl, rfl⟩
  | pollEmpty none =>
    cases second with
    | pollEmpty => exact ⟨rfl, rfl⟩
    | pollWait next | pollReady next => exact absurd next.1 (by simp [none])
  | pollWait next early =>
    cases second with
    | pollEmpty none => exact absurd next.1 (by simp [none])
    | pollWait next' =>
      obtain ⟨rfl, rfl⟩ := balanced.next_unique next next'
      exact ⟨rfl, rfl⟩
    | pollReady next' late =>
      obtain ⟨rfl, rfl⟩ := balanced.next_unique next next'
      exact absurd early (Nat.not_lt.mpr late)
  | pollReady next late =>
    cases second with
    | pollEmpty none => exact absurd next.1 (by simp [none])
    | pollWait next' early =>
      obtain ⟨rfl, rfl⟩ := balanced.next_unique next next'
      exact absurd early (Nat.not_lt.mpr late)
    | pollReady next' =>
      obtain ⟨rfl, rfl⟩ := balanced.next_unique next next'
      exact ⟨rfl, rfl⟩
  | change =>
    cases second with
    | change => exact ⟨rfl, rfl⟩

theorem Step.grace (step : Step l op a l') : l'.grace = l.grace := by
  cases step <;> rfl

end Ledger

namespace Queue

variable {q q' : Queue} {l l' : Ledger} {op : Operation} {answer : Answer}
  {trace : List (Operation × Answer)}

inductive Step (q : Queue) : Operation → Answer → Queue → Prop where
  | enqueue (b : Blob) : Step q (.enqueue b) (.told (q.enqueue b).2) (q.enqueue b).1
  | remove (v : VersionId) : Step q (.remove v) (.told (q.remove v).2) (q.remove v).1
  | poll (now : Millis) : Step q (.poll now) (.polled (q.poll now).2) (q.poll now).1
  | change {b : Blob} : q.Follows b → Step q (.change b) .nothing (q.update b)

theorem Step.reaches (step : Step q op answer q')
    (valid : q.Valid) (represents : q.Represents l) : Reaches l op answer q' := by
  cases step with
  | enqueue b => exact enqueue_reaches valid represents b
  | remove v => exact remove_reaches valid represents v
  | poll now => exact pollFrom_reaches valid represents
  | change follows => exact change_reaches valid represents follows

/-- One round of polling: what is left of the agenda to go on with, or the answer. -/
def pollRound (q : Queue) (now : Millis) : List AgendaEntry → List AgendaEntry ⊕ (Queue × Poll)
  | [] => .inr ({ q with agenda := [] }, .empty)
  | e :: rest =>
    match q.current? e with
    | none => .inl rest
    | some current =>
      if e.due < current then .inl (schedule { e with due := current } rest)
      else if now < e.due then .inr ({ q with agenda := e :: rest }, .wait e.due)
      else match q.ticket? e.version with
        | some t => .inr (({ q with agenda := rest }.remove e.version).1, .ready t.blob)
        | none => .inr ({ q with agenda := rest }, .empty)

/-- Polling goes on for `n` rounds and answers in the next one. -/
inductive AnswersAfter (q : Queue) (now : Millis) :
    Nat → List AgendaEntry → Queue × Poll → Prop where
  | answer {agenda : List AgendaEntry} {r : Queue × Poll} : q.pollRound now agenda = .inr r →
      AnswersAfter q now 0 agenda r
  | goOn {n : Nat} {agenda left : List AgendaEntry} {r : Queue × Poll} :
      q.pollRound now agenda = .inl left → AnswersAfter q now n left r →
      AnswersAfter q now (n + 1) agenda r

theorem work_le (q : Queue) (agenda : List AgendaEntry) : q.work agenda ≤ 2 * agenda.length := by
  induction agenda with
  | nil => simp [work]
  | cons e rest ih =>
    simp only [work, List.length_cons] at ih ⊢
    split <;> omega

/-- A round either drops an entry or brings one up to date, which then stays so. -/
theorem pollFrom_answers (q : Queue) (now : Millis) (agenda : List AgendaEntry) :
    ∃ n ≤ q.work agenda, q.AnswersAfter now n agenda (q.pollFrom now agenda) := by
  fun_induction pollFrom q now agenda with
  | case1 => exact ⟨0, Nat.zero_le _, .answer rfl⟩
  | case2 e rest stale ih =>
    obtain ⟨n, bound, answers⟩ := ih
    refine ⟨n + 1, ?_, .goOn (by rw [pollRound, stale]) answers⟩
    simp only [work] at bound ⊢
    split <;> omega
  | case3 e rest current live behind ih =>
    obtain ⟨n, bound, answers⟩ := ih
    refine ⟨n + 1, ?_, .goOn (by simp [pollRound, live, behind]) answers⟩
    have upToDate : q.isBehind { e with due := current } = false := by
      have same : q.current? { e with due := current } = some current := live
      simp [isBehind, same]
    have wasBehind : q.isBehind e = true := by simpa [isBehind, live] using behind
    -- The entry counted for two rounds; scheduled again it counts for one.
    rw [work_schedule, upToDate] at bound
    simp only [work, wasBehind] at bound ⊢
    simp at bound ⊢
    omega
  | case4 e rest current live upToDate early =>
    exact ⟨0, Nat.zero_le _, .answer (by simp [pollRound, live, upToDate, early])⟩
  | case5 e rest current live upToDate late t found =>
    exact ⟨0, Nat.zero_le _, .answer (by simp [pollRound, live, upToDate, late, found])⟩
  | case6 e rest current live upToDate late absent =>
    exact ⟨0, Nat.zero_le _, .answer (by simp [pollRound, live, upToDate, late, absent])⟩

theorem run_ledger (run : Run Step q trace q') (valid : q.Valid) (represents : q.Represents l) :
    ∃ l', Run Ledger.Step l trace l' ∧ q'.Valid ∧ q'.Represents l' := by
  induction run generalizing l with
  | refl => exact ⟨l, .refl l, valid, represents⟩
  | next step _ ih =>
    obtain ⟨l', ledgerStep, valid, represents⟩ := step.reaches valid represents
    obtain ⟨l'', run, valid, represents⟩ := ih valid represents
    exact ⟨l'', .next ledgerStep run, valid, represents⟩

/-- Whatever the ledger can do, the queue does, with the same answer. -/
theorem ledger_step (step : Ledger.Step l op answer l') (balanced : l.Balanced) (valid : q.Valid)
    (represents : q.Represents l) :
    ∃ q', Step q op answer q' ∧ q'.Valid ∧ q'.Represents l' := by
  have taken : ∃ own q', Step q op own q' := by
    cases step with
    | change follows => exact ⟨_, _, .change ((represents.follows_iff valid).mp follows)⟩
    | enqueueNew | enqueueAgain => exact ⟨_, _, .enqueue _⟩
    | removePresent | removeAbsent => exact ⟨_, _, .remove _⟩
    | pollEmpty | pollWait | pollReady => exact ⟨_, _, .poll _⟩
  -- The ledger allows one answer only, so the queue's own step is the one asked for.
  obtain ⟨own, q', queueStep⟩ := taken
  obtain ⟨own', ledgerStep, valid, represents⟩ := queueStep.reaches valid represents
  obtain ⟨rfl, rfl⟩ := step.unique balanced ledgerStep
  exact ⟨q', queueStep, valid, represents⟩

theorem ledger_run (run : Run Ledger.Step l trace l') (balanced : l.Balanced) (valid : q.Valid)
    (represents : q.Represents l) : ∃ q', Run Step q trace q' := by
  induction run generalizing q with
  | refl => exact ⟨q, .refl q⟩
  | next step _ ih =>
    obtain ⟨q', queueStep, valid, represents⟩ := ledger_step step balanced valid represents
    obtain ⟨q'', run⟩ := ih (balanced.step step) valid represents
    exact ⟨q'', .next queueStep run⟩

theorem represents_start (grace : Millis) : Represents { grace } { grace } :=
  ⟨rfl, fun _ => rfl, rfl⟩

/-- A queue and a ledger that start empty have the same runs, answer by answer. After each of them
the queue holds the tickets of the ledger, in which every number ever issued is live, removed or
taken and only one of these, and every poll ends. -/
theorem queue_runs_as_ledger (grace : Millis) (trace : List (Operation × Answer)) :
    ((∃ q, Run Step { grace } trace q) ↔ ∃ l, Run Ledger.Step { grace } trace l) ∧
      ∀ q, Run Step { grace } trace q → ∃ l, Run Ledger.Step { grace } trace l ∧
        (∀ v, q.ticket? v = l.tickets v) ∧ l.Balanced ∧
        ∀ now, ∃ n ≤ 2 * q.agenda.length, q.AnswersAfter now n q.agenda (q.poll now) := by
  have toLedger : ∀ q, Run Step { grace } trace q →
      ∃ l, Run Ledger.Step { grace } trace l ∧ q.Valid ∧ q.Represents l := fun q run =>
    run_ledger run (valid_start grace) (represents_start grace)
  refine ⟨⟨?_, ?_⟩, ?_⟩
  · rintro ⟨q, run⟩
    obtain ⟨l, run, _⟩ := toLedger q run
    exact ⟨l, run⟩
  · rintro ⟨l, run⟩
    exact ledger_run run (Ledger.balanced_start grace) (valid_start grace) (represents_start grace)
  · intro q run
    obtain ⟨l, run, _, represents⟩ := toLedger q run
    refine ⟨l, run, represents.tickets, (Ledger.balanced_start grace).run run, fun now => ?_⟩
    obtain ⟨n, bound, answers⟩ := pollFrom_answers q now q.agenda
    exact ⟨n, bound.trans (work_le q q.agenda), answers⟩

/-! ### Tickets that are due -/

/-- The ledger that a queue keeps, with nothing booked so far. -/
def asLedger (q : Queue) : Ledger where
  grace := q.grace
  tickets := q.ticket?
  issued := q.nextNumber

theorem represents_asLedger (q : Queue) : q.Represents q.asLedger :=
  ⟨rfl, fun _ => rfl, rfl⟩

/-- A queue in working order, with this grace. -/
structure Timely (q : Queue) (grace : Millis) : Prop where
  valid : q.Valid
  lasts : q.grace = grace

theorem timely_start (grace : Millis) : Timely { grace } grace :=
  ⟨valid_start grace, rfl⟩

theorem Timely.step {grace : Millis} (timely : q.Timely grace) (step : Step q op answer q') :
    q'.Timely grace := by
  obtain ⟨l', ledgerStep, valid, represents⟩ := step.reaches timely.valid q.represents_asLedger
  exact ⟨valid, (represents.grace.trans ledgerStep.grace).trans timely.lasts⟩

/-- When some ticket is due, a poll hands out a blob, and only its ticket leaves. -/
theorem poll_of_due {t : Ticket} {now : Millis} (valid : q.Valid) (waits : t ∈ q.tickets)
    (due : q.dueOf t.blob ≤ now) :
    ∃ u ∈ q.tickets, (q.poll now).2 = .ready u.blob ∧
      ∀ x, x ∈ (q.poll now).1.tickets ↔ x ∈ q.tickets ∧ x ≠ u := by
  have reaches : Reaches q.asLedger (.poll now) (.polled (q.poll now).2) (q.poll now).1 :=
    pollFrom_reaches valid q.represents_asLedger
  have held : q.ticket? t.blob.version = some t := (ticket?_eq_some valid).mpr ⟨waits, rfl⟩
  generalize q.poll now = polled at reaches ⊢
  obtain ⟨q', answer⟩ := polled
  obtain ⟨l', step, valid', represents⟩ := reaches
  cases step with
  | pollEmpty none => exact absurd (held.symm.trans (none _)) (by simp)
  | pollWait next early =>
    -- What is waited for is due no later than this ticket.
    have first := (next.2 t.blob.version t held).elim Nat.le_of_lt fun same => Nat.le_of_eq same.1
    exact absurd early (Nat.not_lt.mpr (Nat.le_trans first due))
  | @pollReady _ v u next late =>
    obtain ⟨member, rfl⟩ := (ticket?_eq_some valid).mp next.1
    refine ⟨u, member, rfl, fun x => ?_⟩
    have left : q'.ticket? x.blob.version = Function.update q.ticket? u.blob.version none _ :=
      represents.tickets x.blob.version
    have queued : x ∈ q.tickets ↔ q.ticket? x.blob.version = some x := by
      simp [ticket?_eq_some valid]
    have queued' : x ∈ q'.tickets ↔ q'.ticket? x.blob.version = some x := by
      simp [ticket?_eq_some valid']
    rw [queued', queued, left, Function.update_apply]
    split
    next same =>
      rw [same, show q.ticket? u.blob.version = some u from next.1]
      simp [eq_comm]
    next other => exact (and_iff_left fun same => other (congrArg (·.blob.version) same)).symm

/-- Polls at one time hand out the blob, after others that are due before it. -/
inductive HandsOut (now : Millis) : Queue → Blob → Prop where
  | first {q : Queue} {b : Blob} (ready : (q.poll now).2 = .ready b) : HandsOut now q b
  | later {q : Queue} {b other : Blob} (ready : (q.poll now).2 = .ready other)
      (rest : HandsOut now (q.poll now).1 b) : HandsOut now q b

/-- A ticket that is due has its blob handed out. -/
theorem Timely.handsOut {t : Ticket} {grace now : Millis} (timely : q.Timely grace)
    (waits : t ∈ q.tickets) (due : t.blob.lastTouched.later grace ≤ now) :
    q.HandsOut now t.blob := by
  induction size : q.tickets.length using Nat.strong_induction_on generalizing q with
  | _ size ih =>
    have isDue : q.dueOf t.blob ≤ now := by rwa [dueOf, timely.lasts]
    obtain ⟨u, member, ready, left⟩ := poll_of_due timely.valid waits isDue
    have timely' := timely.step (.poll now)
    by_cases same : t = u
    · exact .first (same ▸ ready)
    · have fewer : (q.poll now).1.tickets.length < q.tickets.length := by
        have distinct : (u :: (q.poll now).1.tickets).Nodup :=
          List.nodup_cons.mpr ⟨fun still => ((left u).mp still).2 rfl,
            timely'.valid.versions.of_map _⟩
        have among : u :: (q.poll now).1.tickets ⊆ q.tickets :=
          List.cons_subset.mpr ⟨member, fun x still => ((left x).mp still).1⟩
        exact (List.Nodup.subperm distinct among).length_le
      exact .later ready (ih _ (size ▸ fewer) timely' ((left t).mpr ⟨waits, same⟩) rfl)

end Queue
end BlobReplica.Recovery
