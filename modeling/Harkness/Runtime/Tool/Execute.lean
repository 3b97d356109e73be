import Harkness.Machine.Path
import Harkness.Runtime.Domain.State
import Mathlib

/-! # Driving one recorded call to a terminal state

The executor and the thread of the tool's body share the token of the call, a phase that is either
stopped or irreversible first, and a channel for one result. Both take their steps between those of the
caller, who holds a token of their own, and of the clock. What each did is kept beside the state.
-/

namespace Harkness.Runtime.Tool.Execute

open Domain (ToolCallState)

variable {Output Failure : Type}

/-- What the invocation of a tool returns. -/
inductive ToolResult (Output Failure : Type) where
  | succeeded (output : Output)
  | failed (failure : Failure)
  | cancelled
  | timedOut (limit : ℕ)
deriving DecidableEq

/-- How one tool call ended. -/
inductive CallOutcome (Output Failure : Type) where
  | succeeded (output : Output)
  | failed (failure : Failure)
  | cancelled
  | interrupted
  | timedOut (limit : ℕ)
deriving DecidableEq

/-- The lifecycle state an outcome is recorded as; a timeout is a failure of its own kind. -/
def CallOutcome.recordedState : CallOutcome Output Failure → ToolCallState
  | succeeded _ => .succeeded
  | failed _ | timedOut _ => .failed
  | cancelled => .cancelled
  | interrupted => .interrupted

def outcomeOf : ToolResult Output Failure → CallOutcome Output Failure
  | .succeeded output => .succeeded output
  | .failed failure => .failed failure
  | .cancelled => .cancelled
  | .timedOut limit => .timedOut limit

/-- How long a tool is given to unwind after it has been told to stop, in milliseconds. -/
def terminationGrace : ℕ := 500

structure Deadline where
  limit : ℕ
  passes : ℕ
deriving DecidableEq

def Deadline.hasPassed (deadline : Deadline) (now : ℕ) : Bool := deadline.passes ≤ now

/-- One call's relationship with the executor's abandonment boundary. -/
inductive ExecutionPhase where
  | open_
  | stopRequested
  | irreversible
deriving DecidableEq

/-- What is fixed of a call: the state it starts from, its limit if it has one, and the failure that is
recorded for a result the store cannot hold. -/
structure Call (Output Failure : Type) where
  required : ToolCallState
  timeout : Option ℕ
  oversized : Output → Option Failure

/-- The verdict of an executor that has asked for a stop, and since when. -/
structure Stop (Output Failure : Type) where
  verdict : CallOutcome Output Failure
  since : ℕ
deriving DecidableEq

/-- What an outcome rests on: the result received, the verdict of a stop already asked for, and what the
body had returned by then. -/
structure Basis (Output Failure : Type) where
  received : Option (ToolResult Output Failure)
  stopping : Option (CallOutcome Output Failure)
  returned : Option (ToolResult Output Failure)
deriving DecidableEq

/-- How far the executor is. -/
inductive Supervisor (Output Failure : Type) where
  | loading
  | resolving
  | seeding
  | building
  | dispatching (refusal : Option Failure)
  | arming (refusal : Option Failure)
  | waiting (stopping : Option (Stop Output Failure))
  | unanswered (stopping : Option (Stop Output Failure))
  | asking (verdict : CallOutcome Output Failure)
  | finishing (outcome : CallOutcome Output Failure) (basis : Basis Output Failure)
  | done
deriving DecidableEq

/-- How far the thread of the body is. -/
inductive Worker (Output Failure : Type) where
  | unborn
  | gated
  | prepared
  | running
  | answered (result : ToolResult Output Failure)
  | ended
deriving DecidableEq

def Worker.isRunning : Worker Output Failure → Bool
  | running => true
  | _ => false

def Worker.hasEnded : Worker Output Failure → Bool
  | ended => true
  | _ => false

structure Terminal (Output Failure : Type) where
  outcome : CallOutcome Output Failure
  basis : Basis Output Failure
deriving DecidableEq

/-- A call: both tokens, the phase, the clock, the record with its terminal writes, both threads and the
channel between them; and of its history whether the start was recorded and what the caller had asked by
then, whether a write was refused, whether the body ran and what it returned. -/
structure State (Output Failure : Type) where
  caller : Bool
  token : Bool
  phase : ExecutionPhase
  now : ℕ
  deadline : Option Deadline
  record : ToolCallState
  terminals : List (Terminal Output Failure)
  supervisor : Supervisor Output Failure
  worker : Worker Output Failure
  channel : Option (ToolResult Output Failure)
  dispatched : Option Bool
  refused : Bool
  bodyRan : Bool
  returned : Option (ToolResult Output Failure)
deriving DecidableEq

/-- A recorded call that nobody has dispatched. -/
def State.start (record : ToolCallState) : State Output Failure where
  caller := false
  token := false
  phase := .open_
  now := 0
  deadline := none
  record
  terminals := []
  supervisor := .loading
  worker := .unborn
  channel := none
  dispatched := none
  refused := false
  bodyRan := false
  returned := none

/-- The transition into the irreversible phase, which a stop or a deadline can win against. -/
def State.beginIrreversible (state : State Output Failure) : State Output Failure :=
  if state.phase = .stopRequested ∨ state.token = true then state
  else if state.deadline.any (·.hasPassed state.now) then state
  else { state with phase := .irreversible }

def State.requestStop (state : State Output Failure) : State Output Failure :=
  { state with
    phase := if state.phase = .open_ then .stopRequested else state.phase
    token := true }

/-- A body that finished on its own terms outranks the executor's verdict, the echo of a stop does not. -/
def conclude (stopping : Option (CallOutcome Output Failure)) (result : ToolResult Output Failure) :
    CallOutcome Output Failure :=
  match stopping, outcomeOf result with
  | some verdict, .cancelled | some verdict, .timedOut _ => verdict
  | _, reported => reported

/-- The executor takes up an outcome, with what it rests on. -/
def State.settle (state : State Output Failure) (outcome : CallOutcome Output Failure)
    (received : Option (ToolResult Output Failure)) (stopping : Option (Stop Output Failure)) :
    State Output Failure :=
  { state with supervisor := .finishing outcome ⟨received, stopping.map (·.verdict), state.returned⟩ }

/-- A wait for the body: a result, a thread that is gone, or nothing in time. -/
def State.receive (state : State Output Failure) (stopping : Option (Stop Output Failure)) :
    State Output Failure :=
  match state.channel with
  | some result => state.settle (conclude (stopping.map (·.verdict)) result) (some result) stopping
  | none =>
    if state.worker.hasEnded then state.settle ((stopping.map (·.verdict)).getD .interrupted) none stopping
    else { state with supervisor := .unanswered stopping }

/-- The verdict to record, when there is a reason to stop the call. -/
def State.reasonToStop (state : State Output Failure) : Option (CallOutcome Output Failure) :=
  if state.caller = true ∨ state.token = true then some .cancelled
  else (state.deadline.filter (·.hasPassed state.now)).map fun deadline => .timedOut deadline.limit

/-- After an empty wait: the grace is over and the body cannot commit, or there is a reason to stop. -/
def State.inspect (state : State Output Failure) (stopping : Option (Stop Output Failure)) :
    State Output Failure :=
  match stopping with
  | some stop =>
    if stop.since + terminationGrace ≤ state.now ∧ state.phase ≠ .irreversible then
      state.settle stop.verdict none stopping
    else { state with supervisor := .waiting stopping }
  | none =>
    match state.reasonToStop with
    | some verdict => { state with supervisor := .asking verdict }
    | none => { state with supervisor := .waiting none }

/-- The outcome that is recorded: a result the store cannot hold becomes a failure. -/
def Call.recorded (call : Call Output Failure) : CallOutcome Output Failure → CallOutcome Output Failure
  | .succeeded output =>
    match call.oversized output with
    | some failure => .failed failure
    | none => .succeeded output
  | outcome => outcome

/-- The terminal state is written where the record may enter it. -/
def State.finish (call : Call Output Failure) (state : State Output Failure)
    (outcome : CallOutcome Output Failure) (basis : Basis Output Failure) (accepted : Bool) :
    State Output Failure :=
  let recorded := call.recorded outcome
  if accepted ∧ (state.record, recorded.recordedState) ∈ ToolCallState.transitions then
    { state with
      record := recorded.recordedState
      terminals := state.terminals ++ [⟨recorded, basis⟩]
      supervisor := .done }
  else { state with supervisor := .done, refused := true }

inductive Step (Output Failure : Type) where
  | cancel
  | tick
  | load
  | resolve (failure : Option Failure)
  | refuseLimits
  | seed
  | build (failure : Option Failure)
  | dispatch (accepted : Bool)
  | arm
  | receive
  | inspect
  | stop
  | finish (accepted : Bool)
  | gate (failure : Option Failure)
  | beginIrreversible
  | cancelOwn
  | answer (result : ToolResult Output Failure)
  | send
  | die
deriving DecidableEq

def Call.step (call : Call Output Failure) (state : State Output Failure) :
    Step Output Failure → Option (State Output Failure)
  | .cancel => some { state with caller := true }
  | .tick => some { state with now := state.now + 1 }
  | .load =>
    match state.supervisor with
    | .loading =>
      some { state with supervisor := if state.record = call.required then .resolving else .done }
    | _ => none
  | .resolve failure =>
    match state.supervisor, failure with
    | .resolving, some failure => some (state.settle (.failed failure) none none)
    | .resolving, none => some { state with supervisor := .seeding }
    | _, _ => none
  | .refuseLimits =>
    match state.supervisor with
    | .seeding => some { state with supervisor := .done }
    | _ => none
  | .seed =>
    match state.supervisor with
    | .seeding => some { state with token := state.token || state.caller, supervisor := .building }
    | _ => none
  | .build failure =>
    match state.supervisor with
    | .building => some { state with supervisor := .dispatching failure }
    | _ => none
  | .dispatch accepted =>
    match state.supervisor with
    | .dispatching refusal =>
      if accepted ∧ (state.record, ToolCallState.running) ∈ ToolCallState.transitions then
        some { state with
          record := .running, dispatched := some state.caller, supervisor := .arming refusal }
      else some { state with supervisor := .done, refused := true }
    | _ => none
  | .arm =>
    match state.supervisor with
    | .arming (some failure) => some (state.settle (.failed failure) none none)
    | .arming none =>
      some { state with
        deadline := call.timeout.map fun limit => ⟨limit, state.now + limit⟩
        worker := .gated
        supervisor := .waiting none }
    | _ => none
  | .receive =>
    match state.supervisor with
    | .waiting stopping => some (state.receive stopping)
    | _ => none
  | .inspect =>
    match state.supervisor with
    | .unanswered stopping => some (state.inspect stopping)
    | _ => none
  | .stop =>
    match state.supervisor with
    | .asking verdict =>
      some { state.requestStop with supervisor := .waiting (some ⟨verdict, state.now⟩) }
    | _ => none
  | .finish accepted =>
    match state.supervisor with
    | .finishing outcome basis => some (state.finish call outcome basis accepted)
    | _ => none
  | .gate failure =>
    match state.worker with
    | .gated =>
      if state.token then some { state with worker := .answered .cancelled }
      else
        match failure with
        | some failure => some { state with worker := .answered (.failed failure) }
        | none => some { state with worker := .prepared }
    | .prepared =>
      if state.token then some { state with worker := .answered .cancelled }
      else some { state with worker := .running, bodyRan := true }
    | _ => none
  | .beginIrreversible => if state.worker.isRunning then some state.beginIrreversible else none
  | .cancelOwn => if state.worker.isRunning then some { state with token := true } else none
  | .answer result =>
    if state.worker.isRunning then
      some { state with worker := .answered result, returned := some result }
    else none
  | .send =>
    match state.worker with
    | .answered result => some { state with worker := .ended, channel := some result }
    | _ => none
  | .die =>
    match state.worker with
    | .unborn | .ended => none
    | _ => some { state with worker := .ended }

/-- A recorded call, its executor, its body, its caller and the clock. -/
def Call.machine (call : Call Output Failure) : Machine (State Output Failure) (Step Output Failure) where
  Initial state := ∃ record, state = .start record
  step := call.step

end Harkness.Runtime.Tool.Execute
