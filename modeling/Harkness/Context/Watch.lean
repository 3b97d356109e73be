import Harkness.Context.DirtySet
import Harkness.Machine.Path

/-! # The watcher's worker

Hints are offered by anyone at any time. One worker waits until no hint has come for a while, takes
what is queued as a scope, passes over it and offers back what has to be looked at again, before it
marks the pass over. What a state owes is served, in flight or held: a queue seen empty with no pass
running owes nothing.
-/

namespace Harkness.Context

/-- How many times in a row a refused pass is put back on the queue. -/
def maxPassRetries : ℕ := 3

/-- What a hint asks to be looked at. -/
def ChangeHint.concerns : ChangeHint → RepoPath → Bool
  | path named, other => named = other
  | subtree directory, other => directory.contains other
  | overflow, _ => true

/-- The hints that put a scope back on the queue. -/
def scopeHints : ReconcileScope → List ChangeHint
  | .full => [.overflow]
  | .subtree directory => [.subtree directory]
  | .paths paths => paths.map .path

namespace Watch

structure Queue where
  dirty : DirtySet
  lastArrival : Option ℕ
  reconciling : Bool
  stopping : Bool
  finished : Bool

/-- What a caller that waits for quiet looks for. -/
def Queue.quiet (self : Queue) : Bool := self.finished || (self.dirty.isEmpty && !self.reconciling)

/-- Where the worker is. -/
inductive Worker where
  | starting (startupSweep : Bool)
  | waiting
  | passing (scope : ReconcileScope)
  | reconciling (scope : ReconcileScope)
  /-- The pass has ended and its hints are being offered back, after which it is marked over. -/
  | offering (scope : ReconcileScope) (hints : List ChangeHint)
  | leaving
  | ended

/-- What the owner of the service has done with it; nobody else holds it while it is stopped. -/
inductive Owner where
  | holding
  | stopping
  | stopped
deriving DecidableEq

/-- How a reconcile ends. -/
inductive Outcome where
  | report (requeued : List RepoPath)
  | cancelled
  | refused (kind : String)

/-- Whether a pass refused so is worth having again. -/
def retryable (kind : String) : Bool :=
  kind ∈ ["index_busy", "index_batch_superseded", "cache_corrupt_quarantined"]

/-- What happened, for what is said about a run. -/
inductive Event where
  | offered (hint : ChangeHint)
  | requeued (paths : List RepoPath)
  | retried (scope : ReconcileScope)
  | began (scope : ReconcileScope)
  | ended (scope : ReconcileScope)

structure Service where
  queue : Queue
  cancelled : Bool
  consecutiveFailures : ℕ
  worker : Worker
  owner : Owner
  trace : List Event

namespace Service

def start (startupSweep : Bool) : Service where
  queue := ⟨.new, none, startupSweep, false, false⟩
  cancelled := false
  consecutiveFailures := 0
  worker := .starting startupSweep
  owner := .holding
  trace := []

/-- Adds one hint, unless the service is stopping. -/
def offer (self : Service) (hint : ChangeHint) (now : ℕ) : Service :=
  if self.queue.stopping then self
  else { self with
    queue := { self.queue with dirty := self.queue.dirty.insert hint, lastArrival := some now }
    trace := self.trace ++ [.offered hint] }

/-- What the worker does when it looks at the queue. -/
def waitForScope (self : Service) (quiescence now : ℕ) : Service :=
  if self.queue.stopping || self.cancelled then { self with worker := .leaving }
  else if self.queue.lastArrival.any fun arrival => quiescence ≤ now - arrival then
    if self.queue.dirty.isEmpty then { self with queue := { self.queue with lastArrival := none } }
    else { self with
      queue := { self.queue with
        dirty := { self.queue.dirty.take.2 with dropped := none }
        lastArrival := none
        reconciling := true }
      worker := .passing self.queue.dirty.take.1 }
  else self

/-- What the worker does with the answer of the engine. -/
def answer (self : Service) (scope : ReconcileScope) : Outcome → Service
  | .report requeued => { self with
      consecutiveFailures := 0
      worker := .offering scope (requeued.map .path)
      trace := self.trace ++ [.requeued requeued] }
  | .cancelled => { self with worker := .offering scope [] }
  | .refused kind =>
    if retryable kind then
      let counted := { self with consecutiveFailures := (self.consecutiveFailures + 1) % 2 ^ 64 }
      if self.consecutiveFailures < maxPassRetries then { counted with
        worker := .offering scope (scopeHints scope)
        trace := self.trace ++ [.retried scope] }
      else { counted with worker := .offering scope [] }
    else { self with worker := .offering scope [] }

end Service

/-- The moves of the service: hints from anywhere, the steps of the worker, those of its owner. -/
inductive Move where
  | offer (hint : ChangeHint) (now : ℕ)
  | sweep
  | wait (now : ℕ)
  | enter
  | answer (outcome : Outcome)
  | offerBack (now : ℕ)
  | close
  /-- Anything that runs on the worker panics. -/
  | panic
  | finish
  | stop
  | cancel
  | join

def step (quiescence : ℕ) (self : Service) : Move → Option Service
  | .offer hint now => some (self.offer hint now)
  | .sweep =>
    match self.worker with
    | .starting true => some { self with worker := .passing .full }
    | .starting false => some { self with worker := .waiting }
    | _ => none
  | .wait now =>
    match self.worker with
    | .waiting => some (self.waitForScope quiescence now)
    | _ => none
  | .enter =>
    match self.worker with
    | .passing scope => some { self with
        queue := { self.queue with reconciling := true }
        worker := .reconciling scope
        trace := self.trace ++ [.began scope] }
    | _ => none
  | .answer outcome =>
    match self.worker with
    | .reconciling scope => some (self.answer scope outcome)
    | _ => none
  | .offerBack now =>
    match self.worker with
    | .offering scope (hint :: hints) =>
      some { self.offer hint now with worker := .offering scope hints }
    | _ => none
  | .close =>
    match self.worker with
    | .offering scope [] => some { self with
        queue := { self.queue with reconciling := false }
        worker := .waiting
        trace := self.trace ++ [.ended scope] }
    | _ => none
  | .panic =>
    match self.worker with
    | .leaving | .ended => none
    | _ => some { self with worker := .leaving }
  | .finish =>
    match self.worker with
    | .leaving => some { self with
        queue := { self.queue with finished := true, reconciling := false }
        worker := .ended }
    | _ => none
  | .stop =>
    if self.owner = .stopping then none
    else some { self with queue := { self.queue with stopping := true }, owner := .stopping }
  | .cancel => if self.owner = .stopping then some { self with cancelled := true } else none
  | .join =>
    match self.owner, self.worker with
    | .stopping, .ended => some { self with owner := .stopped }
    | _, _ => none

/-- The service with its worker, watching with or without a startup sweep. -/
def machine (quiescence : ℕ) : Machine Service Move where
  Initial self := ∃ startupSweep, self = .start startupSweep
  step := step quiescence

/-- Whether a caller that waits for quiet is told so; one that holds the service can ask. -/
def Service.ReportsQuiet (self : Service) : Prop :=
  self.owner ≠ .stopping ∧ self.queue.quiet = true

/-- A scope covers what some hints ask for. -/
def Meets (scope : ReconcileScope) (hints : List ChangeHint) : Prop :=
  ∀ hint ∈ hints, ∀ path, hint.concerns path = true → scope.covers path = true

/-- A pass with such a scope began and ended in what came later. -/
def Served (owed : ReconcileScope → Prop) (later : List Event) : Prop :=
  ∃ scope before after, owed scope ∧ later = before ++ .began scope :: after ∧ .ended scope ∈ after

/-- What an event leaves to be looked at. -/
def Event.owes : Event → List ChangeHint
  | offered hint => [hint]
  | requeued paths => paths.map .path
  | retried scope => scopeHints scope
  | began _ | ended _ => []

/-- The scope the worker is busy with. -/
def Worker.scope? : Worker → Option ReconcileScope
  | passing scope | reconciling scope | offering scope _ => some scope
  | starting true => some .full
  | _ => none

/-- The hints the worker has yet to offer back. -/
def Worker.unoffered : Worker → List ChangeHint
  | offering _ hints => hints
  | _ => []

/-- A pass of the worker will end, or has begun and will end, with such a scope. -/
def Worker.Bound (worker : Worker) (owed : ReconcileScope → Prop) (later : List Event) : Prop :=
  match worker with
  | .passing scope => owed scope
  | .reconciling scope | .offering scope _ => owed scope ∧ .began scope ∈ later
  | _ => False

/-- What some hints ask for is done, being done, or waiting to be. -/
def Service.Keeps (self : Service) (hints : List ChangeHint) (later : List Event) : Prop :=
  Served (Meets · hints) later ∨ self.worker.Bound (Meets · hints) later ∨
    ∀ hint ∈ hints, self.queue.dirty.Holds hint ∨ hint ∈ self.worker.unoffered

/-- Nothing that was owed is forgotten. -/
def Service.KeepsAll (self : Service) : Prop :=
  ∀ event later, event :: later <:+ self.trace → event.owes ≠ [] → self.Keeps event.owes later

/-- What holds of the service whatever its moves were. -/
structure Sound (service : Service) : Prop where
  dirty : service.queue.dirty.Sound
  small : service.queue.dirty.len ≤ watchQueueCapacity
  holding : service.owner = .holding → service.queue.stopping = false
  stopping : service.owner = .stopping → service.queue.stopping = true
  cancelled : service.cancelled = true → service.queue.stopping = true
  stopped : service.owner = .stopped → service.queue.finished = true
  ended : service.worker = .ended → service.queue.finished = true
  busy : service.worker.scope?.isSome = true → service.queue.reconciling = true
  filled : ∀ scope, service.worker.scope? = some scope → scopeHints scope ≠ []
  retried : ∀ scope, .retried scope ∈ service.trace → scopeHints scope ≠ []
  /-- What a worker that left in the middle of a pass owed is not looked for. -/
  kept : service.queue.stopping = false → service.queue.finished = true ∨
    (service.worker = .leaving ∧ service.queue.reconciling = true) ∨ service.KeepsAll

/-- A worker that is not busy has bound nothing and has nothing to offer back. -/
theorem resting_worker {worker : Worker} (resting : worker.scope?.isSome = false) :
    (∀ owed later, ¬ worker.Bound owed later) ∧ worker.unoffered = [] := by
  cases worker with
  | passing scope | reconciling scope | offering scope hints => cases resting
  | starting startupSweep | waiting | leaving | ended => exact ⟨fun _ _ bound => bound, rfl⟩

section Trace

variable {owed : ReconcileScope → Prop} {later trace : List Event} {event last : Event}
  {hints : List ChangeHint} {self other : Service}

theorem Served.snoc (served : Served owed later) (last : Event) : Served owed (later ++ [last]) := by
  obtain ⟨scope, before, after, meets, rfl, ended⟩ := served
  exact ⟨scope, before, after ++ [last], meets, by simp, List.mem_append_left _ ended⟩

/-- The end of a pass that began serves what it covers. -/
theorem Served.ended {scope : ReconcileScope} (meets : owed scope) (began : .began scope ∈ later) :
    Served owed (later ++ [.ended scope]) := by
  obtain ⟨before, after, rfl⟩ := List.append_of_mem began
  exact ⟨scope, before, after ++ [.ended scope], meets, by simp, by simp⟩

/-- An event of a longer trace is the last one, or an earlier one with one more behind it. -/
theorem suffix_snoc (suffix : event :: later <:+ trace ++ [last]) :
    event = last ∧ later = [] ∨ ∃ shorter, later = shorter ++ [last] ∧ event :: shorter <:+ trace := by
  rcases List.suffix_concat_iff.mp suffix with none_ | ⟨front, same, within⟩
  · cases none_
  · cases front with
    | nil =>
      obtain ⟨rfl, rfl⟩ := List.cons.inj same
      exact .inl ⟨rfl, rfl⟩
    | cons first front =>
      obtain ⟨rfl, rfl⟩ := List.cons.inj same
      exact .inr ⟨front, rfl, within⟩

theorem mem_snoc (other : event ≠ last) : event ∈ trace ++ [last] ↔ event ∈ trace := by
  rw [List.mem_append, List.mem_singleton, or_iff_left other]

theorem Worker.Bound.snoc {worker : Worker} (bound : worker.Bound owed later) (last : Event) :
    worker.Bound owed (later ++ [last]) := by
  cases worker with
  | passing scope => exact bound
  | reconciling scope | offering scope hints => exact ⟨bound.1, List.mem_append_left _ bound.2⟩
  | starting _ | waiting | leaving | ended => exact bound

/-- What is kept stays kept when nothing happens, the pass goes on and what is held stays held. -/
theorem Service.Keeps.mono (keeps : self.Keeps hints later)
    (bound : self.worker.Bound (Meets · hints) later → other.worker.Bound (Meets · hints) later)
    (held : ∀ hint ∈ hints, self.queue.dirty.Holds hint ∨ hint ∈ self.worker.unoffered →
      other.queue.dirty.Holds hint ∨ hint ∈ other.worker.unoffered) : other.Keeps hints later := by
  rcases keeps with served | bound_ | waiting
  · exact .inl served
  · exact .inr (.inl (bound bound_))
  · exact .inr (.inr fun hint member => held hint member (waiting hint member))

/-- The same while an event happens. -/
theorem Service.Keeps.snoc (keeps : self.Keeps hints later)
    (bound : self.worker.Bound (Meets · hints) (later ++ [last]) →
      other.worker.Bound (Meets · hints) (later ++ [last]))
    (held : ∀ hint ∈ hints, self.queue.dirty.Holds hint ∨ hint ∈ self.worker.unoffered →
      other.queue.dirty.Holds hint ∨ hint ∈ other.worker.unoffered) :
    other.Keeps hints (later ++ [last]) := by
  have here : self.Keeps hints (later ++ [last]) :=
    keeps.imp (·.snoc last) (Or.imp_left (·.snoc last))
  exact here.mono bound held

/-- A move that is no event. -/
theorem Service.KeepsAll.same (all : self.KeepsAll) (trace : other.trace = self.trace)
    (kept : ∀ hints later, self.Keeps hints later → other.Keeps hints later) : other.KeepsAll :=
  fun event later suffix owes => kept _ _ (all event later (trace ▸ suffix) owes)

/-- A move that is an event. -/
theorem Service.KeepsAll.snoc (all : self.KeepsAll) (trace : other.trace = self.trace ++ [last])
    (kept : ∀ hints later, self.Keeps hints later → other.Keeps hints (later ++ [last]))
    (new : last.owes ≠ [] → other.Keeps last.owes []) : other.KeepsAll := by
  intro event later suffix owes
  rw [trace] at suffix
  rcases suffix_snoc suffix with ⟨rfl, rfl⟩ | ⟨shorter, rfl, earlier⟩
  · exact new owes
  · exact kept _ _ (all event shorter earlier owes)

end Trace

section Moves

variable {quiescence now : ℕ} {self other : Service} {hint : ChangeHint} {scope : ReconcileScope}

/-- Taking what is queued meets every hint that is held. -/
theorem meets_take {dirty : DirtySet} {hints : List ChangeHint}
    (held : ∀ hint ∈ hints, dirty.Holds hint) : Meets dirty.take.1 hints := by
  intro hint member path concerns
  obtain ⟨named, beneath, whole⟩ := DirtySet.covers_of_holds (held hint member)
  cases hint with
  | path other =>
    obtain rfl : other = path := of_decide_eq_true concerns
    exact named other rfl
  | subtree directory => exact beneath directory path rfl concerns
  | overflow =>
    change dirty.scope.covers path = true
    rw [whole rfl]
    rfl

/-- What is taken from a set that holds something can be put back. -/
theorem scopeHints_take {dirty : DirtySet} (filled : dirty.isEmpty = false) :
    scopeHints dirty.take.1 ≠ [] := by
  have covered : ∃ path, dirty.take.1.covers path = true := by
    by_cases all : dirty.everything = true
    · exact ⟨[], by rw [DirtySet.take, DirtySet.scope, if_pos all]; rfl⟩
    · have partial_ := Bool.eq_false_iff.mpr all
      obtain ⟨entry, member⟩ : ∃ entry, entry ∈ dirty.paths ∨ entry ∈ dirty.subtrees := by
        by_contra none_
        obtain ⟨paths, subtrees⟩ := not_or.mp (mt exists_or.mpr none_)
        exact Bool.eq_false_iff.mp filled (DirtySet.isEmpty_iff.mpr
          ⟨partial_, Finset.not_nonempty_iff_eq_empty.mp paths,
            Finset.not_nonempty_iff_eq_empty.mp subtrees⟩)
      exact ⟨entry, (DirtySet.covers_scope partial_).mpr
        ⟨entry, member, RepoPath.contains_self entry⟩⟩
  obtain ⟨path, covered⟩ := covered
  cases scope : dirty.take.1 with
  | full => exact List.cons_ne_nil _ _
  | subtree directory => exact List.cons_ne_nil _ _
  | paths named =>
    rw [scope] at covered
    obtain ⟨dir, among, -⟩ := List.any_eq_true.mp covered
    exact List.ne_nil_of_mem (List.mem_map_of_mem among)

theorem sound_start (startupSweep : Bool) : Sound (.start startupSweep) where
  dirty := (DirtySet.History.kept_run []).sound
  small := (DirtySet.History.kept_run []).small
  holding _ := rfl
  stopping := nofun
  cancelled := nofun
  stopped := nofun
  ended := nofun
  busy busy := by
    cases startupSweep with
    | true => rfl
    | false => cases busy
  filled scope busy := by
    cases startupSweep with
    | true => obtain rfl := Option.some.inj busy; exact List.cons_ne_nil _ _
    | false => cases busy
  retried := nofun
  kept _ := .inr (.inr fun _ _ suffix _ => nomatch List.suffix_nil.mp suffix)

theorem Sound.offer (sound : Sound self) (hint : ChangeHint) (now : ℕ) :
    Sound (self.offer hint now) := by
  unfold Service.offer
  split_ifs with stopping
  · exact sound
  · obtain ⟨bounded, small, holds, keeps⟩ := sound.dirty.insert sound.small hint
    refine { sound with
      dirty := bounded
      small := small
      retried := fun scope member => sound.retried scope ((mem_snoc (by nofun)).mp member)
      kept := fun running => (sound.kept running).imp_right (Or.imp_right fun all => ?_) }
    refine all.snoc rfl (fun hints later kept => kept.snoc id fun other _ => ?_) fun _ => ?_
    · exact Or.imp_left (keeps other)
    · refine .inr (.inr fun other member => .inl ?_)
      obtain rfl := List.mem_singleton.mp member
      exact holds

/-- The worker goes from its start to where nothing is bound or to be offered back yet. -/
theorem Sound.resume {startupSweep : Bool} {next : Worker} (sound : Sound self)
    (starting : self.worker = .starting startupSweep) (running : next ≠ .ended)
    (busy : next.scope?.isSome = true → self.queue.reconciling = true)
    (filled : ∀ scope, next.scope? = some scope → scopeHints scope ≠ []) :
    Sound { self with worker := next } := by
  refine { sound with
    ended := fun same => absurd same running
    busy := busy
    filled := filled
    kept := fun held => (sound.kept held).imp_right fun kept => .inr ?_ }
  have all : self.KeepsAll := kept.resolve_left fun left => nomatch starting.symm.trans left.1
  refine all.same rfl fun owed later keeps => keeps.mono ?_ fun hint _ => Or.imp_right ?_
  · rw [starting]
    exact False.elim
  · rw [starting]
    exact fun member => nomatch member

/-- The pass begins. -/
theorem Sound.enter (sound : Sound self) (passing : self.worker = .passing scope) : Sound { self with
    queue := { self.queue with reconciling := true }
    worker := .reconciling scope
    trace := self.trace ++ [.began scope] } := by
  refine { sound with
    ended := nofun
    busy := fun _ => rfl
    filled := fun other same => sound.filled other (by rw [passing]; exact same)
    retried := fun other member => sound.retried other ((mem_snoc (by nofun)).mp member)
    kept := fun running => (sound.kept running).imp_right fun kept => .inr ?_ }
  have all : self.KeepsAll := kept.resolve_left fun left => nomatch passing.symm.trans left.1
  refine all.snoc rfl (fun hints later keeps => keeps.snoc ?_ fun _ _ => Or.imp_right ?_)
    fun owes => absurd rfl owes
  · rw [passing]
    exact fun meets => ⟨meets, List.mem_append_right _ List.mem_cons_self⟩
  · rw [passing]
    exact id

theorem Sound.waitForScope (sound : Sound self) (waiting : self.worker = .waiting) :
    Sound (self.waitForScope quiescence now) := by
  unfold Service.waitForScope
  split_ifs with leaving ready empty
  · have stopping : self.queue.stopping = true :=
      (Bool.or_eq_true_iff.mp leaving).elim id sound.cancelled
    exact { sound with
      ended := nofun
      busy := nofun
      filled := nofun
      kept := fun running => absurd (running.symm.trans stopping) Bool.false_ne_true }
  · exact { sound with kept := fun running => (sound.kept running).imp_right (Or.imp_right id) }
  · refine { sound with
      dirty := ⟨nofun, Finset.notMem_empty _, fun _ marker => absurd marker (Finset.notMem_empty _)⟩
      small := Nat.zero_le _
      ended := nofun
      busy := fun _ => rfl
      filled := fun scope same => Option.some.inj same ▸ scopeHints_take (Bool.eq_false_iff.mpr empty)
      kept := fun running => (sound.kept running).imp_right fun kept => .inr ?_ }
    have all : self.KeepsAll := kept.resolve_left fun left => nomatch waiting.symm.trans left.1
    -- All that is held goes into the scope of the pass.
    refine all.same rfl fun hints later keeps => ?_
    rcases keeps with served | bound | held
    · exact .inl served
    · rw [waiting] at bound
      exact bound.elim
    · refine .inr (.inl (meets_take fun hint member => (held hint member).resolve_right ?_))
      rw [waiting]
      exact List.not_mem_nil
  · exact sound

/-- What the answer of the engine leaves is kept when its hints are to be offered back. -/
theorem Sound.answer (sound : Sound self) (busy : self.worker = .reconciling scope)
    (outcome : Outcome) : Sound (self.answer scope outcome) := by
  have reconciling : self.queue.reconciling = true := sound.busy (by rw [busy]; rfl)
  have filled : scopeHints scope ≠ [] := sound.filled scope (by rw [busy]; rfl)
  -- The pass is as bound as before, whatever is offered back.
  have kept : ∀ (hints : List ChangeHint) (failures : ℕ), Sound { self with
      consecutiveFailures := failures, worker := .offering scope hints } := fun hints failures => by
    refine { sound with
      ended := nofun
      busy := fun _ => reconciling
      filled := fun other same => Option.some.inj same ▸ filled
      kept := fun running => (sound.kept running).imp_right fun kept => .inr ?_ }
    have all : self.KeepsAll := kept.resolve_left fun left => nomatch busy.symm.trans left.1
    refine all.same rfl fun owed later keeps => keeps.mono ?_ fun hint _ => Or.imp_right ?_
    · rw [busy]
      exact id
    · rw [busy]
      exact fun member => nomatch member
  -- An event that owes what is offered back keeps it.
  have asked : ∀ (event : Event) (failures : ℕ), (∀ other, event = .retried other → other = scope) →
      Sound { self with
        consecutiveFailures := failures
        worker := .offering scope event.owes
        trace := self.trace ++ [event] } := fun event failures only => by
    have before := kept event.owes failures
    refine { before with
      retried := fun other member => ?_
      kept := fun running => (before.kept running).imp_right fun kept => .inr ?_ }
    · rcases List.mem_append.mp member with earlier | last
      · exact sound.retried other earlier
      · rw [only other (List.mem_singleton.mp last).symm]
        exact filled
    · have all := kept.resolve_left fun left => nomatch left.1
      refine all.snoc rfl (fun hints later keeps => keeps.snoc id fun _ _ => id) fun _ => ?_
      exact .inr (.inr fun hint member => .inr member)
  cases outcome with
  | report requeued => exact asked (.requeued requeued) 0 nofun
  | cancelled => exact kept [] self.consecutiveFailures
  | refused kind =>
    dsimp only [Service.answer]
    split_ifs
    · exact asked (.retried scope) _ fun other same => (Event.retried.inj same).symm
    · exact kept [] _
    · exact kept [] self.consecutiveFailures

theorem Sound.offerBack {hints : List ChangeHint} (sound : Sound self)
    (busy : self.worker = .offering scope (hint :: hints)) :
    Sound { self.offer hint now with worker := .offering scope hints } := by
  have reconciling : self.queue.reconciling = true := sound.busy (by rw [busy]; rfl)
  have filled : ∀ other, (Worker.offering scope hints).scope? = some other →
      scopeHints other ≠ [] := fun other same => sound.filled other (by rw [busy]; exact same)
  have offered := sound.offer hint now
  by_cases stopping : self.queue.stopping = true
  · rw [Service.offer, if_pos stopping]
    exact { sound with
      ended := nofun
      busy := fun _ => reconciling
      filled := filled
      kept := fun running => absurd (running.symm.trans stopping) Bool.false_ne_true }
  · have same : self.offer hint now = { self with
        queue := { self.queue with dirty := self.queue.dirty.insert hint, lastArrival := some now }
        trace := self.trace ++ [.offered hint] } := if_neg stopping
    rw [same] at offered ⊢
    refine { offered with
      ended := nofun
      busy := fun _ => reconciling
      filled := filled
      kept := fun running => (offered.kept running).imp_right fun kept => .inr ?_ }
    have all := kept.resolve_left fun left => nomatch busy.symm.trans left.1
    have holds := (sound.dirty.insert sound.small hint).2.2.1
    refine all.same rfl fun owed later keeps => keeps.mono ?_ fun other _ held => ?_
    · dsimp only
      rw [busy]
      exact id
    · rcases held with held | member
      · exact .inl held
      · rw [busy] at member
        rcases List.mem_cons.mp member with rfl | member
        · exact .inl holds
        · exact .inr member

theorem Sound.close (sound : Sound self) (busy : self.worker = .offering scope []) :
    Sound { self with
      queue := { self.queue with reconciling := false }
      worker := .waiting
      trace := self.trace ++ [.ended scope] } := by
  refine { sound with
    ended := nofun
    busy := nofun
    filled := nofun
    retried := fun other member => sound.retried other ((mem_snoc (by nofun)).mp member)
    kept := fun running => (sound.kept running).imp_right fun kept => .inr ?_ }
  have all : self.KeepsAll := kept.resolve_left fun left => nomatch busy.symm.trans left.1
  refine all.snoc rfl (fun hints later keeps => ?_) fun owes => absurd rfl owes
  rcases keeps with served | bound | held
  · exact .inl (served.snoc _)
  · rw [busy] at bound
    exact .inl (.ended bound.1 bound.2)
  · refine .inr (.inr fun hint member => (held hint member).imp_right ?_)
    rw [busy]
    exact id

theorem Sound.panic (sound : Sound self) (running : self.worker ≠ .leaving ∧ self.worker ≠ .ended) :
    Sound { self with worker := .leaving } := by
  refine { sound with
    ended := nofun
    busy := nofun
    filled := nofun
    kept := fun held => (sound.kept held).imp_right fun kept => ?_ }
  have all : self.KeepsAll := kept.resolve_left fun left => running.1 left.1
  cases place : self.worker.scope? with
  | some scope => exact .inl ⟨rfl, sound.busy (by rw [place]; rfl)⟩
  | none =>
    obtain ⟨unbound, unoffered⟩ := resting_worker (by rw [place]; rfl)
    refine .inr (all.same rfl fun owed later keeps => keeps.mono (fun bound => ?_) fun hint _ => ?_)
    · exact absurd bound (unbound _ later)
    · rw [unoffered]
      exact id

theorem Sound.step {move : Move} (sound : Sound self) (step : step quiescence self move = some other) :
    Sound other := by
  cases move with
  | offer hint now =>
    obtain rfl := Option.some.inj step
    exact sound.offer hint now
  | sweep =>
    dsimp only [Watch.step] at step
    split at step
    next starting =>
      obtain rfl := Option.some.inj step
      exact sound.resume starting nofun (fun _ => sound.busy (by rw [starting]; rfl))
        fun scope same => sound.filled scope (by rw [starting]; exact same)
    next starting =>
      obtain rfl := Option.some.inj step
      exact sound.resume starting nofun nofun nofun
    · cases step
  | wait now =>
    dsimp only [Watch.step] at step
    split at step
    next waiting =>
      obtain rfl := Option.some.inj step
      exact sound.waitForScope waiting
    · cases step
  | enter =>
    dsimp only [Watch.step] at step
    split at step
    next scope passing =>
      obtain rfl := Option.some.inj step
      exact sound.enter passing
    · cases step
  | answer outcome =>
    dsimp only [Watch.step] at step
    split at step
    next scope reconciling =>
      obtain rfl := Option.some.inj step
      exact sound.answer reconciling outcome
    · cases step
  | offerBack now =>
    dsimp only [Watch.step] at step
    split at step
    next scope hint hints offering =>
      obtain rfl := Option.some.inj step
      exact sound.offerBack offering
    · cases step
  | close =>
    dsimp only [Watch.step] at step
    split at step
    next scope offering =>
      obtain rfl := Option.some.inj step
      exact sound.close offering
    · cases step
  | panic =>
    dsimp only [Watch.step] at step
    split at step
    · cases step
    · cases step
    next leaving ended =>
      obtain rfl := Option.some.inj step
      exact sound.panic ⟨leaving, ended⟩
  | finish =>
    dsimp only [Watch.step] at step
    split at step
    next leaving =>
      obtain rfl := Option.some.inj step
      exact { sound with
        stopped := fun _ => rfl
        ended := fun _ => rfl
        busy := nofun
        filled := nofun
        kept := fun _ => .inl rfl }
    · cases step
  | stop =>
    dsimp only [Watch.step] at step
    split_ifs at step with stopping
    obtain rfl := Option.some.inj step
    exact { sound with
      holding := nofun
      stopping := fun _ => rfl
      cancelled := fun _ => rfl
      stopped := nofun
      kept := nofun }
  | cancel =>
    dsimp only [Watch.step] at step
    split_ifs at step with stopping
    obtain rfl := Option.some.inj step
    exact { sound with cancelled := fun _ => sound.stopping stopping }
  | join =>
    dsimp only [Watch.step] at step
    split at step
    next stopping ended =>
      obtain rfl := Option.some.inj step
      exact { sound with
        holding := nofun
        stopping := nofun
        stopped := fun _ => sound.ended ended }
    · cases step

end Moves

/-- Every hint, every path that was requeued and every scope that was to be retried was covered by a
pass that began and ended later. -/
structure Covered (trace : List Event) : Prop where
  offered : ∀ hint later, .offered hint :: later <:+ trace →
    Served (fun scope => ∀ path, hint.concerns path = true → scope.covers path = true) later
  requeued : ∀ paths later, .requeued paths :: later <:+ trace →
    ∀ path ∈ paths, Served (fun scope => scope.covers path = true) later
  retried : ∀ scope later, .retried scope :: later <:+ trace →
    Served (fun other => ∀ path, scope.covers path = true → other.covers path = true) later

/-- What meets the hints that put a scope back covers what the scope does. -/
theorem covers_of_meets {scope other : ReconcileScope} (meets : Meets other (scopeHints scope))
    {path : RepoPath} (covered : scope.covers path = true) : other.covers path = true := by
  cases scope with
  | full => exact meets .overflow List.mem_cons_self path rfl
  | subtree directory => exact meets (.subtree directory) List.mem_cons_self path covered
  | paths named =>
    obtain ⟨dir, among, contains⟩ := List.any_eq_true.mp covered
    have named_ := meets (.path dir) (List.mem_map_of_mem among) dir (decide_eq_true rfl)
    exact ReconcileScope.covers_trans named_ contains

theorem Served.imp {owed weaker : ReconcileScope → Prop} {later : List Event}
    (served : Served owed later) (implied : ∀ scope, owed scope → weaker scope) :
    Served weaker later := by
  obtain ⟨scope, before, after, holds, rest⟩ := served
  exact ⟨scope, before, after, implied scope holds, rest⟩

theorem sound_initial {quiescence : ℕ} (service : Service) :
    (machine quiescence).Initial service → Sound service := by
  rintro ⟨startupSweep, rfl⟩
  exact sound_start startupSweep

/-- A caller that finds the service quiet, and not finished, finds everything done. -/
theorem covered_of_quiet {quiescence : ℕ} {service : Service}
    (reachable : (machine quiescence).Reachable service) (quiet : service.ReportsQuiet)
    (running : service.queue.finished = false) : Covered service.trace := by
  have sound : Sound service := reachable.invariant
    (sound_initial) fun _ _ _ sound => sound.step
  obtain ⟨holds, quiet⟩ := quiet
  simp only [Queue.quiet, running, Bool.false_or, Bool.and_eq_true, Bool.not_eq_true'] at quiet
  obtain ⟨empty, idle⟩ := quiet
  have holding : service.owner = .holding := by
    cases owner : service.owner with
    | holding => rfl
    | stopping => exact absurd owner holds
    | stopped => exact absurd ((sound.stopped owner).symm.trans running) (by decide)
  have all : service.KeepsAll := by
    rcases sound.kept (sound.holding holding) with finished | ⟨-, busy⟩ | all
    · exact absurd (finished.symm.trans running) (by decide)
    · exact absurd (busy.symm.trans idle) (by decide)
    · exact all
  have resting : service.worker.scope?.isSome = false :=
    Bool.eq_false_iff.mpr fun some_ => Bool.eq_false_iff.mp idle (sound.busy some_)
  obtain ⟨unbound, unoffered⟩ := resting_worker resting
  -- Nothing is bound to a pass and nothing waits, so what was owed was served.
  have served : ∀ event later, event :: later <:+ service.trace → event.owes ≠ [] →
      Served (Meets · event.owes) later := by
    intro event later suffix owes
    rcases all event later suffix owes with served | bound | held
    · exact served
    · exact absurd bound (unbound _ later)
    · obtain ⟨hint, member⟩ := List.exists_mem_of_ne_nil _ owes
      rcases held hint member with holds | offering
      · exact absurd holds (DirtySet.not_holds_of_isEmpty empty)
      · rw [unoffered] at offering
        cases offering
  refine ⟨fun hint later suffix => ?_, fun paths later suffix path member => ?_,
    fun scope later suffix => ?_⟩
  · exact (served _ later suffix (List.cons_ne_nil _ _)).imp fun _ meets => meets hint List.mem_cons_self
  · refine (served _ later suffix (List.ne_nil_of_mem (List.mem_map_of_mem member))).imp
      fun _ meets => ?_
    exact meets (.path path) (List.mem_map_of_mem member) path (decide_eq_true rfl)
  · exact (served _ later suffix (sound.retried scope (suffix.subset List.mem_cons_self))).imp
      fun _ meets _ => covers_of_meets meets

/-- A hint comes, the pass over it is refused, its scope comes back and the next pass is done. -/
theorem covered_of_quiet_sample : ∃ service,
    (machine 5).run? (.start false) [.offer .overflow 0, .sweep, .wait 9, .enter,
      .answer (.refused "index_busy"), .offerBack 9, .close, .wait 20, .enter, .answer (.report []),
      .close] = some service ∧ Covered service.trace := by
  obtain ⟨service, run, quiet, running⟩ : ∃ service, (machine 5).run? (.start false)
      [.offer .overflow 0, .sweep, .wait 9, .enter, .answer (.refused "index_busy"), .offerBack 9,
        .close, .wait 20, .enter, .answer (.report []), .close] = some service ∧
      service.ReportsQuiet ∧ service.queue.finished = false :=
    ⟨_, rfl, ⟨by decide, rfl⟩, rfl⟩
  exact ⟨service, run, covered_of_quiet (.of_run? ⟨false, rfl⟩ run) quiet running⟩

end Watch

end Harkness.Context
