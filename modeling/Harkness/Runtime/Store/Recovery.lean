import Harkness.Machine.Path
import Harkness.Runtime.Approval.Lifecycle
import Harkness.Runtime.Domain.RoundTrip
import Harkness.Runtime.Store.Event
import Mathlib.Logic.Function.Basic

/-! # Marking one abandoned run

A sweep of one run first reads what is unfinished and describes an event for each of it, and then
marks, in one write transaction, what still is. Tool calls, steps and approval requests are marked
by one loop over what was planned for them. A row that is read passes the checks of its record, so a
row that fails them cannot be read. Several sweeps of the same run interleave with the transitions
its records still make; each read and each transaction is one move. Every statement may be refused
by the database.
-/

namespace Harkness.Runtime.Store

open Domain Domain.Record Approval

abbrev LeaseId := ℕ

/-- Why a run was found abandoned. -/
inductive InterruptionReason where
  | leaseLockReleased
  | leaseReleased
  | noLease
  | leaseExpired
deriving DecidableEq, Repr

def InterruptionReason.asStr : InterruptionReason → String
  | leaseLockReleased => "lease_lock_released"
  | leaseReleased => "lease_released"
  | noLease => "no_lease"
  | leaseExpired => "lease_expired"

/-- The tables a sweep writes record by record. -/
inductive Table where
  | run
  | step
  | toolCall
  | approval
deriving DecidableEq, Repr

/-- What a sweep asks of the database. -/
inductive Statement where
  | begin_
  | list (table : Table)
  | load (table : Table) (id : ℕ)
  | update (table : Table) (id : ℕ)
  | append (kind : EventKind) (id : ℕ)
  | release (lease : LeaseId)
  | commit
deriving DecidableEq

/-- Failures of a sweep. A revision or an instant that no column can hold is a column encoding
error. -/
inductive RecoveryError where
  | query (statement : Statement)
  | notFound (table : Table) (id : ℕ)
  | invalidRecord (table : Table) (error : RunDomainError)
  | invalidTransition (error : RunDomainError)
  | approval (error : ApprovalError)
  | unstorableRevision (table : Table) (revision : ℕ)
  | unstorableInstant (field : String) (at_ : Instant)
deriving DecidableEq

/-- What the store holds of one run, and the leases. -/
structure RunStore (ν : Type) where
  run : Run
  steps : List Step
  toolCalls : List (ToolCall ν)
  approvals : List ApprovalRequest
  events : List (RunEvent (Json.Value ν))
  leases : List (LeaseId × Option Instant)

/-- The arguments of a sweep. -/
structure Cause where
  lease : Option LeaseId
  reason : InterruptionReason
  at_ : Instant

/-- What one recovered run had to be marked. -/
structure RunInterruption where
  run : RunId
  steps : List StepId
  toolCalls : List ToolCallId
  approvals : List ApprovalRequest
deriving DecidableEq

/-- Everything the sweep needs about one run before it takes the write lock. -/
structure Planned (ν : Type) where
  lease : Option LeaseId
  interrupted : RunEvent (Json.Value ν)
  runState : RunEvent (Json.Value ν)
  toolCalls : List (ToolCallId × RunEvent (Json.Value ν))
  steps : List (StepId × RunEvent (Json.Value ν))
  approvals : List (ApprovalId × RunEvent (Json.Value ν))

namespace Recovery

variable {ν ρ : Type} (codecs : Codecs)

def interruptedEvent (cause : Cause) : RunEvent (Json.Value ν) where
  kind := .runInterrupted
  at_ := cause.at_
  stepId := none
  toolCallId := none
  artifactId := none
  payload := .object
    [("reason", .string cause.reason.asStr),
      ("lease_id", match cause.lease with
        | some lease => .string (codecs.formatId lease)
        | none => .null)]

def runStateEvent (cause : Cause) : RunEvent (Json.Value ν) where
  kind := .runStateChanged
  at_ := cause.at_
  stepId := none
  toolCallId := none
  artifactId := none
  payload := .object [("state", .string ExecutionState.interrupted.asStr)]

def toolCallEvent (cause : Cause) (call : ToolCall ν) : RunEvent (Json.Value ν) where
  kind := .toolCallStateChanged
  at_ := cause.at_
  stepId := some call.stepId
  toolCallId := some call.id
  artifactId := none
  payload := .object
    [("state", .string ToolCallState.interrupted.asStr), ("reason", .string cause.reason.asStr)]

def stepEvent (cause : Cause) (step : Step) : RunEvent (Json.Value ν) where
  kind := .stepFinished
  at_ := cause.at_
  stepId := some step.id
  toolCallId := none
  artifactId := none
  payload := .object
    [("state", .string ExecutionState.interrupted.asStr), ("reason", .string cause.reason.asStr)]

/-- `approval::unanswered_event` -/
def unansweredEvent (request : ApprovalRequest) (target : ApprovalState) (at_ : Instant) :
    RunEvent (Json.Value ν) where
  kind := .approvalDecided
  at_ := at_
  stepId := none
  toolCallId := some request.pending.toolCallId
  artifactId := none
  payload := .object
    [("approval_id", .string (codecs.formatId request.id)), ("state", .string target.asStr)]

/-- A transition of a record on its own. -/
def moveTo {ε σ : Type} (refused : ε → RecoveryError) (result : Except ε Unit × σ) :
    Except RecoveryError σ :=
  match result with
  | (.ok (), next) => .ok next
  | (.error error, _) => .error (refused error)

def encodeRevision (table : Table) (revision : ℕ) : Except RecoveryError Unit :=
  if revision ≤ i64Max then .ok () else .error (.unstorableRevision table revision)

def encodeInstant (field : String) (at_ : Instant) : Except RecoveryError Unit :=
  match codecs.formatTimestamp at_ with
  | .ok _ => .ok ()
  | .error _ => .error (.unstorableInstant field at_)

/-- The columns of a lifecycle that a transition changes. -/
def encodeLifecycle {S : Type} (table : Table) (lifecycle : Lifecycle S) :
    Except RecoveryError Unit := do
  encodeRevision table lifecycle.revision
  encodeInstant codecs "updated_at" lifecycle.updatedAt

/-- A row of a run is read back as the run. -/
def decodeRun (run : Run) : Except RecoveryError Run :=
  (Run.tryFrom run.toWire).mapError (.invalidRecord .run)

/-- A kind of record under a run: how one is read, identified, ended and described, and where it is
kept. -/
structure Marking (ν ρ : Type) where
  table : Table
  decode : ρ → Except RecoveryError ρ
  id : ρ → ℕ
  isFinished : ρ → Bool
  mark : Instant → ρ → Except RecoveryError ρ
  encode : ρ → Except RecoveryError Unit
  event : Cause → ρ → RunEvent (Json.Value ν)
  view : RunStore ν → List ρ
  put : List ρ → RunStore ν → RunStore ν

def toolCallMarking : Marking ν (ToolCall ν) where
  table := .toolCall
  decode call := (ToolCall.tryFrom call.toWire).mapError (.invalidRecord .toolCall)
  id call := call.id
  isFinished call := call.lifecycle.state.isTerminal
  mark at_ call := moveTo .invalidTransition (ToolCall.transition .interrupted at_ call)
  encode call := encodeLifecycle codecs .toolCall call.lifecycle
  event := toolCallEvent
  view store := store.toolCalls
  put toolCalls store := { store with toolCalls }

def stepMarking : Marking ν Step where
  table := .step
  decode step := (Step.tryFrom step.toWire).mapError (.invalidRecord .step)
  id step := step.id
  isFinished step := step.lifecycle.state.isTerminal
  mark at_ step := moveTo .invalidTransition (Step.transition .interrupted at_ step)
  encode step := encodeLifecycle codecs .step step.lifecycle
  event := stepEvent
  view store := store.steps
  put steps store := { store with steps }

def approvalMarking : Marking ν ApprovalRequest where
  table := .approval
  decode request := (ApprovalRequest.fromStored request.id request.pending request.effectiveScope
    request.state request.resolvedAt request.decision).mapError .approval
  id request := request.id
  isFinished request := decide (request.state ≠ .pending)
  mark at_ request := moveTo .approval (request.supersede at_)
  encode request := match request.resolvedAt with
    | some at_ => encodeInstant codecs "resolved_at" at_
    | none => .ok ()
  event cause request := unansweredEvent codecs request .superseded cause.at_
  view store := store.approvals
  put approvals store := { store with approvals }

/-- The unfinished records of a kind with the events that describe their end. -/
def Marking.plan (marking : Marking ν ρ) (cause : Cause) (store : RunStore ν) :
    Except RecoveryError (List (ℕ × RunEvent (Json.Value ν))) := do
  let records ← (marking.view store).mapM marking.decode
  return (records.filter fun record => !marking.isFinished record).map fun record =>
    (marking.id record, marking.event cause record)

section Transaction

variable (accepts : Statement → Bool)

def demand (statement : Statement) : Mutation RecoveryError (RunStore ν) Unit :=
  .check (if accepts statement then .ok () else .error (.query statement))

/-- `PreparedEvent::append` -/
def append (id : ℕ) (event : RunEvent (Json.Value ν)) : Mutation RecoveryError (RunStore ν) Unit := do
  Mutation.check (encodeInstant codecs "at" event.at_)
  demand accepts (.append event.kind id)
  Mutation.update fun store => { store with events := store.events ++ [event] }

namespace Marking

variable (marking : Marking ν ρ)

def load (id : ℕ) : Mutation RecoveryError (RunStore ν) ρ := do
  demand accepts (.load marking.table id)
  let store ← Mutation.read
  Mutation.check <| match (marking.view store).find? fun record => marking.id record = id with
    | some record => marking.decode record
    | none => .error (.notFound marking.table id)

/-- Replaces a record by its identity. -/
def replace (record : ρ) (records : List ρ) : List ρ :=
  records.map fun other => if marking.id other = marking.id record then record else other

def update (record : ρ) : Mutation RecoveryError (RunStore ν) Unit := do
  Mutation.check (marking.encode record)
  demand accepts (.update marking.table (marking.id record))
  Mutation.update fun store => marking.put (marking.replace record (marking.view store)) store

/-- Marks what was planned and is still unfinished, with its event. -/
def markEach (at_ : Instant) : List (ℕ × RunEvent (Json.Value ν)) →
    Mutation RecoveryError (RunStore ν) (List ρ)
  | [] => pure []
  | (id, event) :: planned => do
    let record ← marking.load accepts id
    if marking.isFinished record then markEach at_ planned
    else do
      let record ← Mutation.check (marking.mark at_ record)
      marking.update accepts record
      append codecs accepts id event
      let marked ← markEach at_ planned
      pure (record :: marked)

/-- An own transition of a record. -/
def move (id : ℕ) (operation : ρ → Except RecoveryError ρ) :
    Mutation RecoveryError (RunStore ν) Unit := do
  let record ← marking.load accepts id
  let record ← Mutation.check (operation record)
  marking.update accepts record

end Marking

def loadRun : Mutation RecoveryError (RunStore ν) Run := do
  let store ← Mutation.read
  demand accepts (.load .run store.run.id)
  Mutation.check (decodeRun store.run)

def updateRun (run : Run) : Mutation RecoveryError (RunStore ν) Unit := do
  Mutation.check (encodeLifecycle codecs .run run.lifecycle)
  demand accepts (.update .run run.id)
  Mutation.update fun store => { store with run }

/-- The first release of a lease wins. -/
def release (lease : LeaseId) (at_ : Instant) : Mutation RecoveryError (RunStore ν) Unit := do
  Mutation.check (encodeInstant codecs "released_at" at_)
  demand accepts (.release lease)
  Mutation.update fun store => { store with
    leases := store.leases.map fun entry =>
      if entry.1 = lease ∧ entry.2.isNone then (lease, some at_) else entry }

/-- The dead owner is written off with its last run. -/
def releaseOwner (at_ : Instant) : Option LeaseId → Mutation RecoveryError (RunStore ν) Unit
  | some lease => release codecs accepts lease at_
  | none => pure ()

def apply (planned : Planned ν) (at_ : Instant) :
    Mutation RecoveryError (RunStore ν) (Option RunInterruption) := do
  let run ← loadRun accepts
  if run.lifecycle.state.isTerminal then pure none
  else do
    append codecs accepts run.id planned.interrupted
    let toolCalls ← (toolCallMarking codecs).markEach codecs accepts at_ planned.toolCalls
    let steps ← (stepMarking codecs).markEach codecs accepts at_ planned.steps
    let approvals ← (approvalMarking codecs).markEach codecs accepts at_ planned.approvals
    let run ← Mutation.check (moveTo .invalidTransition (Run.transition .interrupted at_ run))
    updateRun codecs accepts run
    append codecs accepts run.id planned.runState
    releaseOwner codecs accepts at_ planned.lease
    pure (some {
      run := run.id
      steps := steps.map fun step => step.id
      toolCalls := toolCalls.map fun call => call.id
      approvals })

/-- A transaction that fails, its commit included, stores nothing. -/
def inWriteTransaction {α : Type} (change : Mutation RecoveryError (RunStore ν) α) :
    Mutation RecoveryError (RunStore ν) α := fun store =>
  if accepts .begin_ then
    match change store with
    | (.ok value, next) =>
      if accepts .commit then (.ok value, next) else (.error (.query .commit), store)
    | (.error error, _) => (.error error, store)
  else (.error (.query .begin_), store)

/-- What a run's own process writes of it. -/
inductive Change (ν : Type) where
  | run (operation : Run.Operation)
  | step (id : StepId) (operation : Step.Operation)
  | toolCall (id : ToolCallId) (operation : ToolCall.Operation ν)
  | approval (id : ApprovalId) (operation : Approval.Operation)
  | log (event : RunEvent (Json.Value ν))

def Change.apply : Change ν → Mutation RecoveryError (RunStore ν) Unit
  | .run operation => do
    let run ← loadRun accepts
    let run ← Mutation.check (moveTo .invalidTransition (Run.apply operation run))
    updateRun codecs accepts run
  | .step id operation => (stepMarking codecs).move accepts id fun step =>
      moveTo .invalidTransition (Step.apply operation step)
  | .toolCall id operation => (toolCallMarking codecs).move accepts id fun call =>
      moveTo .invalidTransition (ToolCall.apply operation call)
  | .approval id operation => (approvalMarking codecs).move accepts id fun request =>
      moveTo .approval (request.apply operation)
  | .log event => do
    let store ← Mutation.read
    append codecs accepts store.run.id event

def applyChanges : List (Change ν) → Mutation RecoveryError (RunStore ν) Unit
  | [] => pure ()
  | change :: changes => do
    change.apply codecs accepts
    applyChanges changes

end Transaction

/-- How far a sweep has come. -/
inductive Sweep (ν : Type) where
  | checking
  | planningToolCalls
  | planningSteps (toolCalls : List (ToolCallId × RunEvent (Json.Value ν)))
  | planningApprovals (toolCalls : List (ToolCallId × RunEvent (Json.Value ν)))
      (steps : List (StepId × RunEvent (Json.Value ν)))
  | applying (planned : Planned ν)
  | returned (result : Except RecoveryError (Option RunInterruption))

section Sweeps

variable {P ν : Type} [DecidableEq P] (codecs : Codecs)

/-- What a sweep goes on with after one read. -/
def Sweep.reading {α : Type} (accepts : Statement → Bool) (statement : Statement)
    (rows : Except RecoveryError α) (phase : α → Sweep ν) : Sweep ν :=
  if accepts statement then
    match rows with
    | .ok read => phase read
    | .error error => .returned (.error error)
  else .returned (.error (.query statement))

/-- The next read of a sweep, or its transaction. -/
def Sweep.next (cause : Cause) (accepts : Statement → Bool) (store : RunStore ν) :
    Sweep ν → Option (Sweep ν × RunStore ν)
  | .checking => some (reading accepts (.load .run store.run.id) (decodeRun store.run) fun run =>
      if run.lifecycle.state.isTerminal then .returned (.ok none) else .planningToolCalls, store)
  | .planningToolCalls => some (reading accepts (.list .toolCall)
      ((toolCallMarking codecs).plan cause store) .planningSteps, store)
  | .planningSteps toolCalls => some (reading accepts (.list .step)
      ((stepMarking codecs).plan cause store) (.planningApprovals toolCalls), store)
  | .planningApprovals toolCalls steps => some (reading accepts (.list .approval)
      ((approvalMarking codecs).plan cause store) fun approvals => .applying {
        lease := cause.lease
        interrupted := interruptedEvent codecs cause
        runState := runStateEvent cause
        toolCalls := toolCalls
        steps := steps
        approvals := approvals }, store)
  | .applying planned =>
    let (result, next) := inWriteTransaction accepts (apply codecs accepts planned cause.at_) store
    some (.returned result, next)
  | .returned _ => none

/-- The store with the sweeps of its run. -/
structure World (P ν : Type) where
  store : RunStore ν
  sweeps : P → Sweep ν

/-- A move of one sweep, or a transaction of the run's own process. -/
inductive Act (P ν : Type) where
  | sweep (sweeper : P) (accepts : Statement → Bool)
  | own (changes : List (Change ν)) (accepts : Statement → Bool)

/-- Each record of a kind has its own identity, was written to its columns and is as its operations keep
one. -/
def Marking.Written {ρ : Type} (marking : Marking ν ρ) (fits : ρ → Prop) (store : RunStore ν) : Prop :=
  ((marking.view store).map marking.id).Nodup ∧
    ∀ record ∈ marking.view store, marking.encode record = .ok () ∧ fits record

structure Stored (store : RunStore ν) : Prop where
  run : encodeLifecycle codecs .run store.run.lifecycle = .ok ()
  shaped : Execution.Shaped store.run.toProgress ∧ store.run.Provenance
  toolCalls : (toolCallMarking codecs).Written ToolCall.Recorded store
  steps : (stepMarking codecs).Written (fun step => Execution.Shaped step.toProgress) store
  approvals : (approvalMarking codecs).Written ApprovalRequest.Consistent store

/-- Where the next move of a sweep reads the tool calls of the run, none of them is stuck. -/
def Sweep.Unstuck (store : RunStore ν) : Sweep ν → Prop
  | .planningToolCalls => ∀ call ∈ store.toolCalls, ¬call.Stuck
  | .applying _ => store.run.lifecycle.state.isTerminal = true ∨
    ∀ call ∈ store.toolCalls, ¬call.Stuck
  | _ => True

def Unstuck (world : World P ν) : Act P ν → Prop
  | .sweep sweeper _ => (world.sweeps sweeper).Unstuck world.store
  | .own .. => True

/-- The sweeps of one run, each with its own cause, and the run's own process. -/
def sweeping (cause : P → Cause) : Machine (World P ν) (Act P ν) where
  Initial world := Stored codecs world.store ∧ ∀ sweeper, world.sweeps sweeper = .checking
  step world
    | .sweep sweeper accepts =>
      ((world.sweeps sweeper).next codecs (cause sweeper) accepts world.store).map fun reached =>
        ⟨reached.2, Function.update world.sweeps sweeper reached.1⟩
    | .own changes accepts =>
      some { world with
        store := (inWriteTransaction accepts (applyChanges codecs accepts changes) world.store).2 }

end Sweeps

end Recovery

end Harkness.Runtime.Store
