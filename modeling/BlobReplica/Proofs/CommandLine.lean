import BlobReplica.CommandLine
import BlobReplica.Proofs.Except

/-! What reading arguments preserves. A property of drafts that every entry of a grammar keeps holds of
whatever the grammar reads; so the times of a publication are 64-bit numbers. -/

namespace BlobReplica.CommandLine

variable {σ α β : Type} {P : σ → Prop}

/-- What holds of a draft holds after the entry. -/
def Entry.Keeps (enter : Entry σ) (P : σ → Prop) : Prop :=
  ∀ {text d d'}, P d → enter text d = .ok d' → P d'

def Effect.Keeps (P : σ → Prop) : Effect σ → Prop
  | .flag enter => ∀ {d}, P d → P (enter d)
  | .value enter => Entry.Keeps enter P
  | .leave _ => True

structure Grammar.Keeps (g : Grammar σ) (P : σ → Prop) : Prop where
  switches : ∀ s ∈ g.switches, s.effect.Keeps P
  operands : ∀ enter ∈ g.operands, Entry.Keeps enter P

def Pending.Keeps (P : σ → Prop) : Pending σ → Prop
  | .nothing => True
  | .value _ enter _ | .operand enter _ => Entry.Keeps enter P

/-- The draft has the property, and what is still to be entered keeps it. -/
structure Progress.Holds (p : Progress σ) (P : σ → Prop) : Prop where
  draft : P p.draft
  operands : ∀ enter ∈ p.operands, Entry.Keeps enter P
  pending : p.pending.Keeps P

namespace Progress

variable {p p' : Progress σ} {switch : Switch σ}

theorem Holds.take {enter : σ → Except Refusal σ} (holds : p.Holds P)
    (keeps : ∀ {d'}, enter p.draft = .ok d' → P d') (taken : p.take switch enter = .ok p') :
    p'.Holds P := by
  rw [Progress.take] at taken
  split at taken
  next => contradiction
  next =>
    obtain ⟨d', entered, stored⟩ := bind_eq_ok.mp taken
    cases stored
    exact ⟨keeps entered, holds.operands, holds.pending⟩

theorem Holds.settle (holds : p.Holds P) (settled : p.settle = .ok p') : p'.Holds P := by
  have emptied : { p with pending := .nothing }.Holds P := ⟨holds.draft, holds.operands, trivial⟩
  have keeps := holds.pending
  rw [Progress.settle] at settled
  simp only at settled
  split at settled
  next => exact Except.ok.inj settled ▸ holds
  next => contradiction
  next switch enter text awaited =>
    rw [awaited] at keeps
    exact emptied.take (fun entered => keeps holds.draft entered) settled
  next enter text awaited =>
    rw [awaited] at keeps
    obtain ⟨d, entered, stored⟩ := bind_eq_ok.mp settled
    cases stored
    exact ⟨keeps holds.draft entered, holds.operands, trivial⟩

end Progress

namespace Grammar

variable {g : Grammar σ} {p p' : Progress σ} {switch : Switch σ} {attached : Option String}
  {text : String} {cs : List Char} {arguments : List String}

theorem Keeps.start (keeps : g.Keeps P) {draft : σ} (holds : P draft) : (g.start draft).Holds P :=
  ⟨holds, keeps.operands, trivial⟩

theorem holds_operand (holds : p.Holds P) (read : g.operand p text = .ok p') : p'.Holds P := by
  rw [operand] at read
  split at read
  next enter operands listed =>
    obtain ⟨q, settled, stored⟩ := bind_eq_ok.mp read
    cases stored
    have awaited := holds.operands
    rw [listed] at awaited
    exact ⟨(holds.settle settled).draft, fun e member => awaited e (List.mem_cons_of_mem _ member),
      awaited enter List.mem_cons_self⟩
  next => split at read <;> contradiction

theorem holds_apply (holds : p.Holds P) (keeps : switch.effect.Keeps P)
    (applied : apply p switch attached = .ok p') : p'.Holds P := by
  rw [apply.eq_def] at applied
  split at applied
  next enter text effect =>
    rw [effect] at keeps
    obtain ⟨q, settled, taken⟩ := bind_eq_ok.mp applied
    have holds := holds.settle settled
    exact holds.take (fun entered => keeps holds.draft entered) taken
  next enter effect =>
    rw [effect] at keeps
    obtain ⟨q, settled, stored⟩ := bind_eq_ok.mp applied
    cases stored
    have holds := holds.settle settled
    exact ⟨holds.draft, holds.operands, keeps⟩
  next => contradiction
  next enter effect =>
    rw [effect] at keeps
    obtain ⟨q, settled, taken⟩ := bind_eq_ok.mp applied
    have holds := holds.settle settled
    refine holds.take (fun entered => ?_) taken
    exact Except.ok.inj entered ▸ keeps holds.draft
  next =>
    obtain ⟨q, _, refused⟩ := bind_eq_ok.mp applied
    contradiction

theorem Keeps.long (keeps : g.Keeps P) (holds : p.Holds P) (read : g.long p cs = .ok p') :
    p'.Holds P := by
  simp only [Grammar.long] at read
  split at read
  next => contradiction
  next switch found => exact holds_apply holds (keeps.switches switch (List.mem_of_find?_eq_some found)) read

theorem Keeps.letters (keeps : g.Keeps P) (holds : p.Holds P) (read : g.letters p cs = .ok p') :
    p'.Holds P := by
  induction cs generalizing p with
  | nil => exact Except.ok.inj read ▸ holds
  | cons c rest ih =>
    rw [Grammar.letters] at read
    split at read
    next => contradiction
    next switch found =>
      have known := keeps.switches switch (List.mem_of_find?_eq_some found)
      split at read
      next => exact holds_apply holds known read
      next => exact holds_apply holds known read
      next =>
        obtain ⟨q, applied, further⟩ := bind_eq_ok.mp read
        exact ih (holds_apply holds known applied) further

theorem Keeps.step (keeps : g.Keeps P) (holds : p.Holds P) (read : g.step p text = .ok p') :
    p'.Holds P := by
  rw [Grammar.step] at read
  split at read
  next => exact holds_operand holds read
  next =>
    split at read
    next => exact Except.ok.inj read ▸ ⟨holds.draft, holds.operands, holds.pending⟩
    next => exact keeps.long holds read
    next => exact keeps.letters holds read
    next =>
      split at read
      next switch enter awaited =>
        have pending := holds.pending
        rw [awaited] at pending
        exact Except.ok.inj read ▸ ⟨holds.draft, holds.operands, pending⟩
      next => exact holds_operand holds read

theorem Keeps.read {rest : Option (String × List String)} (keeps : g.Keeps P) (holds : p.Holds P)
    (read : g.read p arguments = .ok (p', rest)) : p'.Holds P := by
  induction arguments generalizing p with
  | nil =>
    cases read
    exact holds
  | cons argument arguments ih =>
    rw [Grammar.read] at read
    split at read
    next =>
      cases read
      exact holds
    next =>
      obtain ⟨q, stepped, further⟩ := bind_eq_ok.mp read
      exact ih (keeps.step holds stepped) further

theorem holds_finish {draft : σ} (holds : p.Holds P) (finished : g.finish p = .ok draft) : P draft := by
  obtain ⟨q, settled, checked⟩ := bind_eq_ok.mp finished
  have holds := holds.settle settled
  simp only at checked
  split at checked
  next => contradiction
  next =>
    cases checked
    exact holds.draft

end Grammar

/-- Whatever a command reads has a property that the empty arguments have and every entry keeps. -/
theorem holds_readCommand {g : Grammar (Draft α)} {P : Draft α → Prop} {empty : α}
    {arguments : List String} {draft : Draft α} (keeps : g.Keeps P) (holds : P { arguments := empty })
    (read : readCommand g empty arguments = .ok draft) : P draft := by
  obtain ⟨⟨p, rest⟩, all, finished⟩ := bind_eq_ok.mp read
  exact Grammar.holds_finish (keeps.read (keeps.start holds) all) finished

/-! ### Publishing -/

/-- The times are 64-bit numbers. -/
structure PublishArguments.Bounded (a : PublishArguments) : Prop where
  validFrom : a.validFrom ≤ Text.maxWord
  validUntil : ∀ stop, a.validUntil = some stop → stop ≤ Text.maxWord

theorem keeps_entry {P : α → Prop} {read : String → Except Refusal β} {enter : β → α → α}
    (keeps : ∀ {text b a}, read text = .ok b → P a → P (enter b a)) :
    Entry.Keeps (entry read enter) fun d => P d.arguments := by
  intro text d d' holds entered
  obtain ⟨b, value, stored⟩ := bind_eq_ok.mp entered
  cases stored
  exact keeps value holds

theorem keeps_commonSwitches (P : α → Prop) :
    ∀ s ∈ commonSwitches, s.effect.Keeps fun d : Draft α => P d.arguments := by
  simp only [commonSwitches, List.forall_mem_cons]
  refine ⟨fun holds => holds, fun holds entered => ?_, trivial, by simp⟩
  obtain ⟨format, _, stored⟩ := bind_eq_ok.mp entered
  cases stored
  exact holds

theorem le_of_readable {text : String} {n : Nat} (read : readable Text.readWord text = .ok n) :
    n ≤ Text.maxWord := by
  rw [readable] at read
  split at read
  next found =>
    cases read
    exact Text.readUnsigned_le found
  next => contradiction

theorem keeps_publishGrammar : publishGrammar.Keeps fun d => d.arguments.Bounded := by
  have other {β : Type} {read : String → Except Refusal β} {enter : β → PublishArguments → PublishArguments}
      (same : ∀ b a, (enter b a).validFrom = a.validFrom ∧ (enter b a).validUntil = a.validUntil) :
      Entry.Keeps (entry read enter) fun d => d.arguments.Bounded := by
    refine keeps_entry fun {_ b a} _ bounded => ?_
    obtain ⟨start, stop⟩ := same b a
    exact ⟨start ▸ bounded.validFrom, stop ▸ bounded.validUntil⟩
  constructor
  · rw [publishGrammar]
    refine List.forall_mem_append.mpr ⟨?_, keeps_commonSwitches PublishArguments.Bounded⟩
    simp only [List.forall_mem_cons]
    refine ⟨other ?_, other ?_, ?_, ?_, other ?_, other ?_, other ?_, other ?_, other ?_, by simp⟩
    case refine_3 =>
      exact keeps_entry fun read bounded => ⟨le_of_readable read, bounded.validUntil⟩
    case refine_4 =>
      refine keeps_entry fun read bounded => ⟨bounded.validFrom, fun stop given => ?_⟩
      exact Option.some.inj given ▸ le_of_readable read
    all_goals exact fun _ _ => ⟨rfl, rfl⟩
  · simp only [publishGrammar, List.forall_mem_cons]
    refine ⟨other ?_, by simp⟩
    exact fun _ _ => ⟨rfl, rfl⟩

theorem bounded_of_parse {arguments : List String} {invocation : Invocation} {a : PublishArguments}
    (accepted : parse arguments = .ok invocation) (command : invocation.command = .publish a) :
    a.Bounded := by
  obtain ⟨⟨p, named⟩, _, accepted⟩ := bind_eq_ok.mp accepted
  simp only at accepted
  split at accepted
  next =>
    obtain ⟨_, _, refused⟩ := bind_eq_ok.mp accepted
    contradiction
  next rest =>
    rw [readHelp.eq_def] at accepted
    split at accepted
    next => contradiction
    next => split at accepted <;> contradiction
  next rest =>
    obtain ⟨inner, _, settled⟩ := bind_eq_ok.mp accepted
    obtain ⟨q, _, stored⟩ := bind_eq_ok.mp settled
    cases stored
    contradiction
  next rest =>
    obtain ⟨inner, read, settled⟩ := bind_eq_ok.mp accepted
    obtain ⟨q, _, stored⟩ := bind_eq_ok.mp settled
    cases stored
    cases command
    exact holds_readCommand keeps_publishGrammar ⟨Nat.zero_le _, by simp⟩ read
  next =>
    obtain ⟨inner, _, settled⟩ := bind_eq_ok.mp accepted
    obtain ⟨q, _, stored⟩ := bind_eq_ok.mp settled
    cases stored
    contradiction

end BlobReplica.CommandLine
