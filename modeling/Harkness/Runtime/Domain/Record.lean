import Harkness.Runtime.Domain.Lifecycle
import Harkness.Runtime.Policy.Validate
import Harkness.ToMathlib.Json

/-! # Runs, steps and tool calls, and their operations

The three durable records hold a lifecycle, the failure that ended it and the approvals decided on
the way. Every operation checks first, moves the lifecycle and then writes what goes with the move.
Runs and steps share their operations, each under its own name; a tool call has its own, with the
decision of the policy and the output of the tool.
-/

namespace Harkness.Runtime.Domain.Record

open Policy LifecycleState

abbrev TaskId := ℕ
abbrev StepId := ℕ

/-- What every record carries. -/
structure Progress (S : Type) where
  lifecycle : Lifecycle S
  failure : Option Failure
  approvals : List Approval
deriving DecidableEq

def requireState (record : String) (condition : Bool) (reason : String) :
    Except RunDomainError Unit :=
  if condition then .ok () else .error (invalidLifecycle record reason)

def approvalIdentity (record decidedBy : String) : Except RunDomainError String :=
  if isBlank decidedBy then
    .error (invalidLifecycle record "approval decisions require decided_by")
  else .ok decidedBy

def refuseWhen (record : String) (condition : Bool) (reason : String) :
    Except RunDomainError Unit :=
  if condition then .error (invalidLifecycle record reason) else .ok ()

namespace Progress

variable {S : Type} [DecidableEq S] [LifecycleState S]

def new (createdAt : Instant) : Progress S where
  lifecycle := .new createdAt
  failure := none
  approvals := []

/-- Moves the lifecycle of a record. -/
def follow (record : String) (target : S) (at_ : Instant) :
    Mutation RunDomainError (Progress S) Unit :=
  Mutation.focus lifecycle (fun lifecycle self => { self with lifecycle })
    (Lifecycle.transition record target at_)

def setFailure (failure : Failure) : Mutation RunDomainError (Progress S) Unit :=
  Mutation.update fun self => { self with failure := some failure }

/-- Records a decision, dated by the move it led to. -/
def pushApproval (decidedBy : String) (decision : ApprovalOutcome) :
    Mutation RunDomainError (Progress S) Unit :=
  Mutation.update fun self => { self with
    approvals := self.approvals ++ [⟨decidedBy, decision, self.lifecycle.updatedAt⟩] }

end Progress

/-- How a kind of execution record speaks of itself. -/
structure RecordName where
  record : String
  failRequired : String
  approveRequired : String

namespace Execution

variable (name : RecordName)

def transition (target : ExecutionState) (at_ : Instant) :
    Mutation RunDomainError (Progress ExecutionState) Unit := do
  let self ← Mutation.read
  Mutation.check (self.lifecycle.validateEdge target)
  Mutation.check (refuseWhen name.record (target = .failed) name.failRequired)
  Mutation.check (refuseWhen name.record
    (self.lifecycle.state = .waitingForApproval ∧ target = .running) name.approveRequired)
  Progress.follow name.record target at_

def fail (failure : Failure) (at_ : Instant) :
    Mutation RunDomainError (Progress ExecutionState) Unit := do
  Progress.follow name.record .failed at_
  Progress.setFailure failure

def requireWaiting : Mutation RunDomainError (Progress ExecutionState) Unit := do
  let self ← Mutation.read
  Mutation.check (requireState name.record (self.lifecycle.state = .waitingForApproval)
    "approval decisions require waiting_for_approval")

def approve (decidedBy : String) (at_ : Instant) :
    Mutation RunDomainError (Progress ExecutionState) Unit := do
  requireWaiting name
  let decidedBy ← Mutation.check (approvalIdentity name.record decidedBy)
  Progress.follow name.record .running at_
  Progress.pushApproval decidedBy .approved

def rejectApproval (decidedBy : String) (failure : Failure) (at_ : Instant) :
    Mutation RunDomainError (Progress ExecutionState) Unit := do
  requireWaiting name
  let decidedBy ← Mutation.check (approvalIdentity name.record decidedBy)
  Progress.follow name.record .failed at_
  Progress.setFailure failure
  Progress.pushApproval decidedBy .denied

/-- Goes on after a denial that the tool call keeps and the run does not. -/
def resumeAfterDenial (decidedBy : String) (at_ : Instant) :
    Mutation RunDomainError (Progress ExecutionState) Unit := do
  requireWaiting name
  let _ ← Mutation.check (approvalIdentity name.record decidedBy)
  Progress.follow name.record .running at_

end Execution

/-- One attempt at a task. -/
structure Run extends Progress ExecutionState where
  id : RunId
  taskId : TaskId
  retryOf : Option RunId
  workspaceMayBeModified : Bool
deriving DecidableEq

namespace Run

def withId (id : RunId) (taskId : TaskId) (createdAt : Instant) : Run where
  toProgress := .new createdAt
  id := id
  taskId := taskId
  retryOf := none
  workspaceMayBeModified := false

/-- A run that follows an earlier attempt. -/
def retryingWithId (id : RunId) (taskId : TaskId) (original : RunId)
    (workspaceMayBeModified : Bool) (createdAt : Instant) : Run :=
  { withId id taskId createdAt with
    retryOf := some original
    workspaceMayBeModified := workspaceMayBeModified }

def name : RecordName :=
  ⟨"run", "failed transitions require Run::fail", "approval-gated work requires Run::approve"⟩

/-- An operation on what a run has in common with a step. -/
def onProgress (m : Mutation RunDomainError (Progress ExecutionState) Unit) :
    Mutation RunDomainError Run Unit :=
  Mutation.focus toProgress (fun progress self => { self with toProgress := progress }) m

def transition (target : ExecutionState) (at_ : Instant) : Mutation RunDomainError Run Unit :=
  onProgress (Execution.transition name target at_)

def fail (failure : Failure) (at_ : Instant) : Mutation RunDomainError Run Unit :=
  onProgress (Execution.fail name failure at_)

def approve (decidedBy : String) (at_ : Instant) : Mutation RunDomainError Run Unit :=
  onProgress (Execution.approve name decidedBy at_)

def rejectApproval (decidedBy : String) (failure : Failure) (at_ : Instant) :
    Mutation RunDomainError Run Unit :=
  onProgress (Execution.rejectApproval name decidedBy failure at_)

def resumeAfterDenial (decidedBy : String) (at_ : Instant) : Mutation RunDomainError Run Unit :=
  onProgress (Execution.resumeAfterDenial name decidedBy at_)

end Run

/-- One ordered step of a run. -/
structure Step extends Progress ExecutionState where
  id : StepId
  runId : RunId
  ordinal : ℕ
  title : String
deriving DecidableEq

namespace Step

def withId (id : StepId) (runId : RunId) (ordinal : ℕ) (title : String) (createdAt : Instant) :
    Step where
  toProgress := .new createdAt
  id := id
  runId := runId
  ordinal := ordinal
  title := title

def name : RecordName :=
  ⟨"step", "failed transitions require Step::fail", "approval-gated work requires Step::approve"⟩

/-- An operation on what a step has in common with a run. -/
def onProgress (m : Mutation RunDomainError (Progress ExecutionState) Unit) :
    Mutation RunDomainError Step Unit :=
  Mutation.focus toProgress (fun progress self => { self with toProgress := progress }) m

def transition (target : ExecutionState) (at_ : Instant) : Mutation RunDomainError Step Unit :=
  onProgress (Execution.transition name target at_)

def fail (failure : Failure) (at_ : Instant) : Mutation RunDomainError Step Unit :=
  onProgress (Execution.fail name failure at_)

def approve (decidedBy : String) (at_ : Instant) : Mutation RunDomainError Step Unit :=
  onProgress (Execution.approve name decidedBy at_)

def rejectApproval (decidedBy : String) (failure : Failure) (at_ : Instant) :
    Mutation RunDomainError Step Unit :=
  onProgress (Execution.rejectApproval name decidedBy failure at_)

end Step

/-- One requested invocation of a tool; `ν` is the type of the numbers of its payloads. -/
structure ToolCall (ν : Type) extends Progress ToolCallState where
  id : ToolCallId
  runId : RunId
  stepId : StepId
  toolId : String
  toolVersion : String
  input : Json.Value ν
  output : Option (Json.Value ν)
  policyDecision : Option PolicyDecision

namespace ToolCall

variable {ν : Type}

def withId (id : ToolCallId) (step : Step) (toolId toolVersion : String) (input : Json.Value ν)
    (createdAt : Instant) : ToolCall ν where
  toProgress := .new createdAt
  id := id
  runId := step.runId
  stepId := step.id
  toolId := toolId
  toolVersion := toolVersion
  input := input
  output := none
  policyDecision := none

def onProgress (m : Mutation RunDomainError (Progress ToolCallState) Unit) :
    Mutation RunDomainError (ToolCall ν) Unit :=
  Mutation.focus toProgress (fun progress self => { self with toProgress := progress }) m

def follow (target : ToolCallState) (at_ : Instant) : Mutation RunDomainError (ToolCall ν) Unit :=
  onProgress (Progress.follow "tool_call" target at_)

def require (condition : ToolCall ν → Bool) (reason : String) :
    Mutation RunDomainError (ToolCall ν) Unit := do
  let self ← Mutation.read
  Mutation.check (requireState "tool_call" (condition self) reason)

/-- The move that a decision leads to at once. -/
def consequence (decision : PolicyDecision) (at_ : Instant) :
    Mutation RunDomainError (ToolCall ν) Unit :=
  match decision.verdict with
  | .allow => pure ()
  | .ask => follow .awaitingApproval at_
  | .deny => do
    follow .denied at_
    onProgress (Progress.setFailure ⟨"policy", decision.reason⟩)

/-- Records policy and applies its immediate lifecycle consequence. -/
def applyPolicyDecision (decision : PolicyDecision) (at_ : Instant) :
    Mutation RunDomainError (ToolCall ν) Unit := do
  require (fun self => self.lifecycle.state = .pending) "policy evaluation requires pending"
  require (fun self => self.policyDecision.isNone)
    "a tool call may carry only one policy decision"
  Mutation.check (decision.validate.mapError (invalidLifecycle "tool_call"))
  consequence decision at_
  Mutation.update fun self => { self with policyDecision := some decision }

def transition (target : ToolCallState) (at_ : Instant) :
    Mutation RunDomainError (ToolCall ν) Unit := do
  let self ← Mutation.read
  Mutation.check (self.lifecycle.validateEdge target)
  Mutation.check (refuseWhen "tool_call"
    (target = .succeeded ∨ target = .failed ∨ target = .denied)
    "outcome states require an outcome-specific transition method")
  Mutation.check (refuseWhen "tool_call"
    (self.lifecycle.state = .awaitingApproval ∧ target = .running)
    "approval-gated work requires ToolCall::approve")
  follow target at_

def sameVersion (resolved : String) (self : ToolCall ν) : Bool :=
  self.toolVersion.isEmpty || self.toolVersion = resolved

/-- Begins execution, pinning the version of the tool. -/
def dispatch (toolVersion : String) (at_ : Instant) :
    Mutation RunDomainError (ToolCall ν) Unit := do
  require (fun self => self.lifecycle.state = .pending)
    "ToolCall::dispatch begins execution and requires pending"
  require (sameVersion toolVersion)
    "a recorded tool version may not be replaced by a different one"
  follow .running at_
  Mutation.update fun self => { self with toolVersion }

/-- Begins approved execution, pinning the version of the tool. -/
def dispatchApproved (decidedBy toolVersion : String) (at_ : Instant) :
    Mutation RunDomainError (ToolCall ν) Unit := do
  require (fun self => self.lifecycle.state = .awaitingApproval)
    "approval decisions require awaiting_approval"
  require (sameVersion toolVersion)
    "a recorded tool version may not be replaced by a different one"
  let decidedBy ← Mutation.check (approvalIdentity "tool_call" decidedBy)
  follow .running at_
  Mutation.update fun self => { self with toolVersion }
  onProgress (Progress.pushApproval decidedBy .approved)

def succeed (output : Json.Value ν) (at_ : Instant) : Mutation RunDomainError (ToolCall ν) Unit := do
  follow .succeeded at_
  Mutation.update fun self => { self with output := some output }

def fail (failure : Failure) (at_ : Instant) : Mutation RunDomainError (ToolCall ν) Unit := do
  follow .failed at_
  onProgress (Progress.setFailure failure)

def approve (decidedBy : String) (at_ : Instant) : Mutation RunDomainError (ToolCall ν) Unit := do
  require (fun self => self.lifecycle.state = .awaitingApproval)
    "approval decisions require awaiting_approval"
  let decidedBy ← Mutation.check (approvalIdentity "tool_call" decidedBy)
  follow .running at_
  onProgress (Progress.pushApproval decidedBy .approved)

def rejectApproval (decidedBy : String) (failure : Failure) (at_ : Instant) :
    Mutation RunDomainError (ToolCall ν) Unit := do
  require (fun self => self.lifecycle.state = .awaitingApproval)
    "approval decisions require awaiting_approval"
  let decidedBy ← Mutation.check (approvalIdentity "tool_call" decidedBy)
  follow .denied at_
  onProgress (Progress.setFailure failure)
  onProgress (Progress.pushApproval decidedBy .denied)

end ToolCall

end Harkness.Runtime.Domain.Record
