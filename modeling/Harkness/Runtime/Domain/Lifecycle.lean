import Harkness.Machine.Mutation
import Harkness.ToMathlib.Except
import Harkness.Runtime.Domain.State
import Mathlib

/-! # The moving part of a durable record

Runs, steps and tool calls share one lifecycle over their own states. A transition follows an edge
of the table, counts a revision and never moves the time backwards. A lifecycle read from outside is
checked by rules of its own; `Lifecycle.WellFormed` says what they ask for, and every transition
keeps it.
-/

namespace Harkness.Runtime.Domain.Record

open Domain

/-- What the lifecycle needs of a type of states. -/
class LifecycleState (S : Type) where
  initial : S
  running : S
  transitions : List (S × S)
  isTerminal : S → Bool
  requiresStartedAt : S → Bool
  forbidsStartedAt : S → Bool
  minimumRevision : S → ℕ
  invalidTransition : S → S → RunDomainError

instance : LifecycleState ExecutionState where
  initial := .queued
  running := .running
  transitions := ExecutionState.transitions
  isTerminal := ExecutionState.isTerminal
  requiresStartedAt := ExecutionState.requiresStartedAt
  forbidsStartedAt := ExecutionState.forbidsStartedAt
  minimumRevision
    | .queued => 0
    | .running | .failed | .cancelled | .interrupted => 1
    | .waitingForApproval | .succeeded => 2
  invalidTransition := .invalidExecutionTransition

instance : LifecycleState ToolCallState where
  initial := .pending
  running := .running
  transitions := ToolCallState.transitions
  isTerminal := ToolCallState.isTerminal
  requiresStartedAt := ToolCallState.requiresStartedAt
  forbidsStartedAt := ToolCallState.forbidsStartedAt
  minimumRevision
    | .pending => 0
    | .awaitingApproval | .running | .failed | .denied | .cancelled | .interrupted => 1
    | .succeeded => 2
  invalidTransition := .invalidToolCallTransition

open LifecycleState

/-- What the tables of a type of states have to agree on. -/
class LawfulLifecycleState (S : Type) [DecidableEq S] [LifecycleState S] : Prop where
  open_ : ∀ edge ∈ transitions (S := S), isTerminal edge.1 = false
  fresh : ∀ edge ∈ transitions (S := S), edge.2 ≠ initial
  startedAt : ∀ edge ∈ transitions (S := S), requiresStartedAt edge.2 →
    edge.2 = running ∨ requiresStartedAt edge.1
  unstartedAt : ∀ edge ∈ transitions (S := S), forbidsStartedAt edge.2 →
    edge.2 ≠ running ∧ forbidsStartedAt edge.1
  minimumRevision : ∀ edge ∈ transitions (S := S),
    minimumRevision edge.2 ≤ minimumRevision edge.1 + 1
  initial : isTerminal (initial : S) = false ∧ requiresStartedAt (initial : S) = false ∧
    LifecycleState.minimumRevision (initial : S) = 0

instance : LawfulLifecycleState ExecutionState where
  open_ := by decide
  fresh := by decide
  startedAt := by decide
  unstartedAt := by decide
  minimumRevision := by decide
  initial := by decide

instance : LawfulLifecycleState ToolCallState where
  open_ := by decide
  fresh := by decide
  startedAt := by decide
  unstartedAt := by decide
  minimumRevision := by decide
  initial := by decide

structure Lifecycle (S : Type) where
  state : S
  createdAt : Instant
  updatedAt : Instant
  startedAt : Option Instant
  finishedAt : Option Instant
  revision : ℕ
deriving DecidableEq, Repr

abbrev invalidLifecycle (record reason : String) : RunDomainError := .invalidLifecycle record reason

abbrev invalidTimestamp (record field reason : String) : RunDomainError :=
  .invalidTimestamp record field reason

namespace Lifecycle

variable {S : Type} [DecidableEq S] [LifecycleState S]

def new (createdAt : Instant) : Lifecycle S where
  state := initial
  createdAt := createdAt
  updatedAt := createdAt
  startedAt := none
  finishedAt := none
  revision := 0

/-- The checks of a lifecycle that comes from outside. -/
def fromWire (record : String) (state : S) (createdAt updatedAt : Instant)
    (startedAt finishedAt : Option Instant) (revision : ℕ) :
    Except RunDomainError (Lifecycle S) :=
  if updatedAt < createdAt then
    .error (invalidTimestamp record "updated_at" "must not precede created_at")
  else if startedAt.any fun at_ => at_ < createdAt || updatedAt < at_ then
    .error (invalidTimestamp record "started_at" "must fall between created_at and updated_at")
  else if finishedAt.any fun at_ => at_ < createdAt || updatedAt < at_ then
    .error (invalidTimestamp record "finished_at" "must fall between created_at and updated_at")
  else if isTerminal state && finishedAt.isNone then
    .error (invalidLifecycle record "a terminal state requires finished_at")
  else if !isTerminal state && finishedAt.isSome then
    .error (invalidLifecycle record "a non-terminal state cannot carry finished_at")
  else if finishedAt.any fun at_ => at_ ≠ updatedAt then
    .error (invalidLifecycle record "finished_at must equal updated_at in a terminal state")
  else if requiresStartedAt state && startedAt.isNone then
    .error (invalidLifecycle record "the current state requires started_at")
  else if forbidsStartedAt state && startedAt.isSome then
    .error (invalidLifecycle record "the current state cannot carry started_at")
  else if state = initial ∧ revision ≠ 0 then
    .error (invalidLifecycle record "the initial state requires revision zero")
  else if state ≠ initial ∧ revision = 0 then
    .error (invalidLifecycle record "a transitioned state requires a nonzero revision")
  else if revision < minimumRevision state then
    .error (invalidLifecycle record "revision is too small for the current state")
  else if revision = 0 ∧ updatedAt ≠ createdAt then
    .error (invalidLifecycle record "revision zero requires updated_at to equal created_at")
  else .ok ⟨state, createdAt, updatedAt, startedAt, finishedAt, revision⟩

def validateEdge (self : Lifecycle S) (target : S) : Except RunDomainError Unit :=
  if (self.state, target) ∈ transitions then .ok ()
  else .error (invalidTransition self.state target)

def checkedAdd (record : String) (revision : ℕ) : Except RunDomainError ℕ :=
  if revision + 1 < 2 ^ 64 then .ok (revision + 1) else .error (.revisionExhausted record)

/-- Follows an edge; the time never moves backwards. -/
def transition (record : String) (target : S) (at_ : Instant) :
    Mutation RunDomainError (Lifecycle S) Unit := do
  let self ← Mutation.read
  Mutation.check (self.validateEdge target)
  let revision ← Mutation.check (checkedAdd record self.revision)
  let now := max at_ self.updatedAt
  Mutation.update fun self => { self with state := target, updatedAt := now, revision }
  Mutation.when (target = running ∧ self.startedAt.isNone) <|
    Mutation.update fun self => { self with startedAt := some now }
  Mutation.when (isTerminal target) <|
    Mutation.update fun self => { self with finishedAt := some now }

/-- The lifecycle at the other end of an edge. -/
def moved (self : Lifecycle S) (target : S) (at_ : Instant) : Lifecycle S where
  state := target
  createdAt := self.createdAt
  updatedAt := max at_ self.updatedAt
  startedAt :=
    if target = running ∧ self.startedAt.isNone then some (max at_ self.updatedAt)
    else self.startedAt
  finishedAt := if isTerminal target then some (max at_ self.updatedAt) else self.finishedAt
  revision := self.revision + 1

theorem validateEdge_eq_ok {self : Lifecycle S} {target : S} {u : Unit} :
    self.validateEdge target = .ok u ↔ (self.state, target) ∈ transitions := by
  unfold validateEdge
  split <;> simp [*]

theorem checkedAdd_eq_ok {record : String} {revision next : ℕ} :
    checkedAdd record revision = .ok next ↔ revision + 1 < 2 ^ 64 ∧ revision + 1 = next := by
  unfold checkedAdd
  split
  next room => exact ⟨fun same => ⟨room, Except.ok.inj same⟩, fun reached => congrArg _ reached.2⟩
  next full => exact ⟨nofun, fun reached => absurd reached.1 full⟩

/-- An accepted transition follows an edge, with room for one more revision. -/
theorem transition_eq_ok {record : String} {target : S} {at_ : Instant} {self next : Lifecycle S}
    {u : Unit} : transition record target at_ self = (.ok u, next) ↔
      (self.state, target) ∈ transitions ∧ self.revision + 1 < 2 ^ 64 ∧
        next = self.moved target at_ := by
  simp only [transition, Mutation.bind_eq_ok, Mutation.read_eq_ok, Mutation.check_eq_ok,
    Mutation.update_eq_ok, Mutation.when_update_eq_ok, validateEdge_eq_ok, checkedAdd_eq_ok]
  constructor
  · rintro ⟨_, _, ⟨rfl, rfl⟩, _, _, ⟨edge, rfl⟩, _, _, ⟨⟨room, rfl⟩, rfl⟩, _, _, rfl, _, _, rfl, rfl⟩
    refine ⟨edge, room, ?_⟩
    unfold moved
    split_ifs <;> rfl
  · rintro ⟨edge, room, rfl⟩
    refine ⟨_, _, ⟨rfl, rfl⟩, (), _, ⟨edge, rfl⟩, _, _, ⟨⟨room, rfl⟩, rfl⟩, (), _, rfl, (), _, rfl, ?_⟩
    unfold moved
    split_ifs <;> rfl

theorem atomic_transition (record : String) (target : S) (at_ : Instant) :
    (transition record target at_).Atomic := by
  refine Mutation.readOnly_read.bind fun self => ?_
  refine Mutation.readOnly_check.bind fun _ => Mutation.readOnly_check.bind fun revision => ?_
  refine (Mutation.total_update.bind fun _ => ?_).atomic
  exact Mutation.total_update.when.bind fun _ => Mutation.total_update.when

/-- What the checks of a lifecycle from outside ask for. -/
structure WellFormed (lifecycle : Lifecycle S) : Prop where
  updated : lifecycle.createdAt ≤ lifecycle.updatedAt
  started : ∀ at_ ∈ lifecycle.startedAt, lifecycle.createdAt ≤ at_ ∧ at_ ≤ lifecycle.updatedAt
  finished : lifecycle.finishedAt = if isTerminal lifecycle.state then some lifecycle.updatedAt else none
  required : requiresStartedAt lifecycle.state → lifecycle.startedAt.isSome
  forbidden : forbidsStartedAt lifecycle.state → lifecycle.startedAt = none
  fresh : lifecycle.state = initial ↔ lifecycle.revision = 0
  minimum : minimumRevision lifecycle.state ≤ lifecycle.revision
  unmoved : lifecycle.revision = 0 → lifecycle.updatedAt = lifecycle.createdAt

theorem wellFormed_new [LawfulLifecycleState S] (createdAt : Instant) :
    (new createdAt : Lifecycle S).WellFormed := by
  obtain ⟨open_, unstarted, least⟩ := LawfulLifecycleState.initial (S := S)
  exact
    { updated := le_refl createdAt
      started := fun at_ member => by cases member
      finished := by rw [new, open_]; rfl
      required := fun required => by rw [new, unstarted] at required; cases required
      forbidden := fun _ => rfl
      fresh := ⟨fun _ => rfl, fun _ => rfl⟩
      minimum := by rw [new, least]
      unmoved := fun _ => rfl }

/-- Every edge is followed to a well-formed lifecycle. -/
theorem WellFormed.moved [LawfulLifecycleState S] {self : Lifecycle S} (formed : self.WellFormed)
    {target : S} (edge : (self.state, target) ∈ transitions) (at_ : Instant) :
    (self.moved target at_).WellFormed := by
  have later : self.updatedAt ≤ max at_ self.updatedAt := le_max_right _ _
  have unfinished : self.finishedAt = none := by
    rw [formed.finished, LawfulLifecycleState.open_ _ edge]
    rfl
  refine
    { updated := formed.updated.trans later
      started := ?_
      finished := ?_
      required := ?_
      forbidden := ?_
      fresh := ?_
      minimum := ?_
      unmoved := fun zero => absurd zero (Nat.succ_ne_zero _) }
  · intro instant member
    simp only [Lifecycle.moved] at member ⊢
    split_ifs at member with starts
    · obtain rfl := Option.mem_some_iff.mp member
      exact ⟨formed.updated.trans later, le_refl _⟩
    · obtain ⟨after, before⟩ := formed.started instant member
      exact ⟨after, before.trans later⟩
  · simp only [Lifecycle.moved, unfinished]
  · intro required
    simp only [Lifecycle.moved]
    split_ifs with starts
    · rfl
    · rcases LawfulLifecycleState.startedAt _ edge required with running | before
      · exact Option.isSome_iff_ne_none.mpr fun none => starts ⟨running, by rw [none]; rfl⟩
      · exact formed.required before
  · intro forbidden
    obtain ⟨elsewhere, before⟩ := LawfulLifecycleState.unstartedAt _ edge forbidden
    simp only [Lifecycle.moved]
    rw [if_neg fun starts => elsewhere starts.1]
    exact formed.forbidden before
  · constructor
    · exact fun initial => absurd initial (LawfulLifecycleState.fresh _ edge)
    · exact fun zero => absurd zero (Nat.succ_ne_zero _)
  · exact (LawfulLifecycleState.minimumRevision _ edge).trans (Nat.succ_le_succ formed.minimum)

/-- A lifecycle from outside is accepted exactly when it is well formed, and then as it is. -/
theorem fromWire_eq_ok {record : String} {self next : Lifecycle S} :
    fromWire record self.state self.createdAt self.updatedAt self.startedAt self.finishedAt
        self.revision = .ok next ↔ self.WellFormed ∧ self = next := by
  simp only [fromWire, Except.ite_error_eq_ok, Except.ok.injEq]
  constructor
  · rintro ⟨updated, started, finished, terminal, running, last, required, forbidden, first, later,
      minimum, unmoved, rfl⟩
    refine ⟨?_, rfl⟩
    exact
      { updated := not_lt.mp updated
        started := fun at_ member => by
          rw [Option.mem_def.mp member] at started
          simpa using started
        finished := by
          cases ended : self.finishedAt <;> cases terminates : isTerminal self.state <;> simp_all
        required := fun requires => by
          cases begun : self.startedAt <;> simp_all
        forbidden := fun forbids => by
          cases begun : self.startedAt <;> simp_all
        fresh := by
          constructor
          · exact fun initial => not_not.mp fun nonzero => first ⟨initial, nonzero⟩
          · exact fun zero => not_not.mp fun moved => later ⟨moved, zero⟩
        minimum := not_lt.mp minimum
        unmoved := fun zero => not_not.mp fun moved => unmoved ⟨zero, moved⟩ }
  · rintro ⟨formed, rfl⟩
    have started : ∀ at_ ∈ self.startedAt, ¬ (at_ < self.createdAt ∨ self.updatedAt < at_) :=
      fun at_ member => not_or.mpr
        ⟨not_lt.mpr (formed.started at_ member).1, not_lt.mpr (formed.started at_ member).2⟩
    have updated := formed.updated
    refine ⟨not_lt.mpr updated, ?_, ?_, ?_, ?_, ?_, ?_, ?_, ?_, ?_, not_lt.mpr formed.minimum, ?_, rfl⟩
    · cases begun : self.startedAt <;> simp_all
    · rw [formed.finished]
      split_ifs <;> simp [updated]
    · rw [formed.finished]
      split_ifs <;> simp [*]
    · rw [formed.finished]
      split_ifs <;> simp [*]
    · rw [formed.finished]
      split_ifs <;> simp
    · have required := formed.required
      cases begun : self.startedAt <;> simp_all
    · have forbidden := formed.forbidden
      cases begun : self.startedAt <;> simp_all
    · exact fun ⟨initial, nonzero⟩ => nonzero (formed.fresh.mp initial)
    · exact fun ⟨moved, zero⟩ => moved (formed.fresh.mpr zero)
    · exact fun ⟨zero, moved⟩ => moved (formed.unmoved zero)

end Lifecycle

end Harkness.Runtime.Domain.Record
