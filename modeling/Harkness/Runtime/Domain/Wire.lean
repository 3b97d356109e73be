import Harkness.Runtime.Domain.Record
import Harkness.Runtime.Rfc3339
import Harkness.ToMathlib.Except

/-! # The wire form of the durable records and its checks

A record is written as JSON with the version of the format, its timestamps as RFC 3339 texts, and read back
through checks of its own: the version, the lifecycle, the outcome that goes with the state, the approvals and
the decision of the policy. A timestamp may have no text. Of the optional fields only the output of a tool may
itself be null, and a null is read as its absence.
-/

namespace Harkness.Runtime.Domain.Record

open Policy

/-- The timestamps of a record, in the form `Time`. -/
structure TimesWire (Time : Type) where
  createdAt : Time
  updatedAt : Time
  startedAt : Option Time
  finishedAt : Option Time
  approvals : List (ApprovalAt Time)

structure RunWire (Time : Type) extends TimesWire Time where
  schemaVersion : ℕ
  id : RunId
  taskId : TaskId
  state : ExecutionState
  revision : ℕ
  failure : Option Failure
  retryOf : Option RunId
  workspaceMayBeModified : Bool

structure StepWire (Time : Type) extends TimesWire Time where
  schemaVersion : ℕ
  id : StepId
  runId : RunId
  ordinal : ℕ
  title : String
  state : ExecutionState
  revision : ℕ
  failure : Option Failure

structure ToolCallWire (ν Time : Type) extends TimesWire Time where
  schemaVersion : ℕ
  id : ToolCallId
  runId : RunId
  stepId : StepId
  toolId : String
  toolVersion : String
  input : Json.Value ν
  state : ToolCallState
  revision : ℕ
  failure : Option Failure
  output : Option (Json.Value ν)
  policyDecision : Option PolicyDecision

def Run.toWire (run : Run) : RunWire Instant where
  schemaVersion := runtimeRecordSchemaVersion
  id := run.id
  taskId := run.taskId
  state := run.lifecycle.state
  revision := run.lifecycle.revision
  createdAt := run.lifecycle.createdAt
  updatedAt := run.lifecycle.updatedAt
  startedAt := run.lifecycle.startedAt
  finishedAt := run.lifecycle.finishedAt
  failure := run.failure
  approvals := run.approvals
  retryOf := run.retryOf
  workspaceMayBeModified := run.workspaceMayBeModified

def Step.toWire (step : Step) : StepWire Instant where
  schemaVersion := runtimeRecordSchemaVersion
  id := step.id
  runId := step.runId
  ordinal := step.ordinal
  title := step.title
  state := step.lifecycle.state
  revision := step.lifecycle.revision
  createdAt := step.lifecycle.createdAt
  updatedAt := step.lifecycle.updatedAt
  startedAt := step.lifecycle.startedAt
  finishedAt := step.lifecycle.finishedAt
  failure := step.failure
  approvals := step.approvals

def ToolCall.toWire {ν : Type} (call : ToolCall ν) : ToolCallWire ν Instant where
  schemaVersion := runtimeRecordSchemaVersion
  id := call.id
  runId := call.runId
  stepId := call.stepId
  toolId := call.toolId
  toolVersion := call.toolVersion
  input := call.input
  state := call.lifecycle.state
  revision := call.lifecycle.revision
  createdAt := call.lifecycle.createdAt
  updatedAt := call.lifecycle.updatedAt
  startedAt := call.lifecycle.startedAt
  finishedAt := call.lifecycle.finishedAt
  failure := call.failure
  output := call.output
  approvals := call.approvals
  policyDecision := call.policyDecision

namespace TimesWire

variable {Time Other : Type}

/-- Converts every timestamp, if each can be. -/
def convert (change : Time → Option Other) (times : TimesWire Time) : Option (TimesWire Other) := do
  let createdAt ← change times.createdAt
  let updatedAt ← change times.updatedAt
  let startedAt ← times.startedAt.mapM change
  let finishedAt ← times.finishedAt.mapM change
  let approvals ← times.approvals.mapM fun approval =>
    (change approval.decidedAt).map fun decidedAt => { approval with decidedAt }
  return { createdAt, updatedAt, startedAt, finishedAt, approvals }

/-- Every timestamp of a record. -/
def all (times : TimesWire Time) : List Time :=
  times.createdAt :: times.updatedAt :: (times.startedAt.toList ++ (times.finishedAt.toList ++
    times.approvals.map (·.decidedAt)))

end TimesWire

/-- How an optional payload is read: an absent field and a null are both no value. -/
def readOptional {ν : Type} : Option (Json.Value ν) → Option (Json.Value ν)
  | some .null => none
  | written => written

/-- The version is looked at before anything else is read. -/
def readTimes (codec : Rfc3339 Instant) (record : String) (schemaVersion : ℕ) (written : TimesWire String) :
    Except (ReadError RunDomainError) (TimesWire Instant) := do
  (validateSchemaVersion record schemaVersion).mapError .record
  match written.convert codec.parse with
  | some times => .ok times
  | none => .error .timestamp

section Json

variable {ν : Type} (codec : Rfc3339 Instant)

def RunWire.serialize (wire : RunWire Instant) : Option (RunWire String) :=
  (wire.toTimesWire.convert codec.format).map fun times => { wire with toTimesWire := times }

def StepWire.serialize (wire : StepWire Instant) : Option (StepWire String) :=
  (wire.toTimesWire.convert codec.format).map fun times => { wire with toTimesWire := times }

def ToolCallWire.serialize (wire : ToolCallWire ν Instant) : Option (ToolCallWire ν String) :=
  (wire.toTimesWire.convert codec.format).map fun times => { wire with toTimesWire := times }

def RunWire.deserialize (written : RunWire String) : Except (ReadError RunDomainError) (RunWire Instant) :=
  (readTimes codec "run" written.schemaVersion written.toTimesWire).map fun times =>
    { written with toTimesWire := times }

def StepWire.deserialize (written : StepWire String) : Except (ReadError RunDomainError) (StepWire Instant) :=
  (readTimes codec "step" written.schemaVersion written.toTimesWire).map fun times =>
    { written with toTimesWire := times }

def ToolCallWire.deserialize (written : ToolCallWire ν String) :
    Except (ReadError RunDomainError) (ToolCallWire ν Instant) :=
  (readTimes codec "tool_call" written.schemaVersion written.toTimesWire).map fun times =>
    { written with toTimesWire := times, output := readOptional written.output }

end Json

def validateFailure (record : String) (required : Bool) (failure : Option Failure) :
    Except RunDomainError Unit :=
  match required, failure with
  | true, none => .error (invalidLifecycle record "failed or denied states require failure detail")
  | false, some _ => .error
    (invalidLifecycle record "failure detail is permitted only in failed or denied states")
  | _, _ => .ok ()

def validateOutput {ν : Type} (state : ToolCallState) (output : Option (Json.Value ν)) :
    Except RunDomainError Unit :=
  match decide (state = .succeeded), output with
  | true, none => .error (invalidLifecycle "tool_call" "succeeded requires output")
  | false, some _ =>
    .error (invalidLifecycle "tool_call" "output is permitted only in succeeded")
  | _, _ => .ok ()

class ApprovalState (S : Type) where
  isInitial : S → Bool
  allowsDeniedApproval : S → Bool
  validateApprovalShape : S → String → Option Instant → ℕ → List Approval →
    Except RunDomainError Unit

def ExecutionState.validateApprovalShape (record : String) (startedAt : Option Instant)
    (revision : ℕ) (approvals : List Approval) : Except RunDomainError Unit :=
  if approvals.isEmpty then .ok ()
  else if startedAt.isNone then
    .error (invalidLifecycle record "execution approval history requires started_at")
  else if 2 ^ 64 ≤ approvals.length * 2 + 1 then
    .error (invalidLifecycle record "approval count cannot be represented by revision")
  else if revision < approvals.length * 2 + 1 then
    .error (invalidLifecycle record "execution approval history requires more lifecycle revisions")
  else .ok ()

instance : ApprovalState ExecutionState where
  isInitial state := state = .queued
  allowsDeniedApproval state := state = .failed
  validateApprovalShape _ := ExecutionState.validateApprovalShape

def ToolCallState.validateApprovalShape (state : ToolCallState) (record : String)
    (revision : ℕ) (approvals : List Approval) : Except RunDomainError Unit :=
  if 1 < approvals.length then
    .error (invalidLifecycle record "a tool call can carry at most one approval decision")
  else match approvals.head? with
    | none => .ok ()
    | some approval =>
      if state = .pending ∨ state = .awaitingApproval then
        .error (invalidLifecycle record
          "an undecided tool-call state cannot carry an approval decision")
      else if revision < 2 then
        .error (invalidLifecycle record
          "a tool-call approval decision requires two lifecycle revisions")
      else if state = .denied ∧ approval.decision ≠ .denied then
        .error (invalidLifecycle record "a denied tool call cannot carry an approved decision")
      else .ok ()

instance : ApprovalState ToolCallState where
  isInitial state := state = .pending
  allowsDeniedApproval state := state = .denied
  validateApprovalShape state record _ := ToolCallState.validateApprovalShape state record

/-- Goes through the approvals from `index` on, and finds the denial among them. -/
def scanApprovals (record : String) (createdAt updatedAt : Instant) :
    ℕ → Option Instant → Option ℕ → List Approval → Except RunDomainError (Option ℕ)
  | _, _, deniedIndex, [] => .ok deniedIndex
  | index, previous, deniedIndex, approval :: approvals =>
    if approval.decidedAt < createdAt ∨ updatedAt < approval.decidedAt then
      .error (invalidTimestamp record "approvals.decided_at"
        "must fall between created_at and updated_at")
    else if previous.any fun at_ => approval.decidedAt < at_ then
      .error (invalidLifecycle record "approval decisions must be ordered by decided_at")
    else if isBlank approval.decidedBy then
      .error (invalidLifecycle record "approval decisions require decided_by")
    else if approval.decision = .denied ∧ deniedIndex.isSome then
      .error (invalidLifecycle record "approval history cannot contain multiple denials")
    else scanApprovals record createdAt updatedAt (index + 1) (some approval.decidedAt)
      (if approval.decision = .denied then some index else deniedIndex) approvals

def validateApprovals {S : Type} [ApprovalState S] (record : String) (state : S)
    (createdAt updatedAt : Instant) (startedAt : Option Instant) (revision : ℕ)
    (approvals : List Approval) : Except RunDomainError Unit := do
  refuseWhen record (ApprovalState.isInitial state && !approvals.isEmpty)
    "the initial state cannot carry approval decisions"
  ApprovalState.validateApprovalShape state record startedAt revision approvals
  refuseWhen record (revision < approvals.length) "approval count cannot exceed revision"
  let deniedIndex ← scanApprovals record createdAt updatedAt 0 none none approvals
  refuseWhen record
    (deniedIndex.any fun index =>
      index + 1 != approvals.length || !ApprovalState.allowsDeniedApproval state)
    "a denied approval must be the final decision and terminal outcome"

def validatePolicyDecision (state : ToolCallState) (failure : Option Failure)
    (approvals : List Approval) (decision : Option PolicyDecision) : Except RunDomainError Unit :=
  match decision with
  | none => .ok ()
  | some decision => do
    decision.validate.mapError (invalidLifecycle "tool_call")
    let consistent : Bool := match decision.verdict with
      | .allow => !(state = .awaitingApproval ∨ state = .denied)
      | .ask => state ≠ .pending
      | .deny => state = .denied ∧ approvals.isEmpty ∧
        failure.any fun failure => failure.kind = "policy" ∧ failure.message = decision.reason
    refuseWhen "tool_call" (!consistent) "policy decision contradicts the tool-call lifecycle"

def Run.tryFrom (wire : RunWire Instant) : Except RunDomainError Run := do
  validateSchemaVersion "run" wire.schemaVersion
  let lifecycle ← Lifecycle.fromWire "run" wire.state wire.createdAt wire.updatedAt wire.startedAt
    wire.finishedAt wire.revision
  validateFailure "run" (wire.state = .failed) wire.failure
  validateApprovals "run" wire.state wire.createdAt wire.updatedAt wire.startedAt wire.revision
    wire.approvals
  refuseWhen "run" (wire.schemaVersion < 4 && (wire.retryOf.isSome || wire.workspaceMayBeModified))
    "schema versions before 4 cannot carry retry provenance"
  refuseWhen "run" (wire.retryOf = some wire.id) "a run cannot be a retry of itself"
  refuseWhen "run" (wire.workspaceMayBeModified && wire.retryOf.isNone)
    "only a retry may claim an earlier attempt modified the workspace"
  return {
    lifecycle
    failure := wire.failure
    approvals := wire.approvals
    id := wire.id
    taskId := wire.taskId
    retryOf := wire.retryOf
    workspaceMayBeModified := wire.workspaceMayBeModified }

def Step.tryFrom (wire : StepWire Instant) : Except RunDomainError Step := do
  validateSchemaVersion "step" wire.schemaVersion
  let lifecycle ← Lifecycle.fromWire "step" wire.state wire.createdAt wire.updatedAt wire.startedAt
    wire.finishedAt wire.revision
  validateFailure "step" (wire.state = .failed) wire.failure
  validateApprovals "step" wire.state wire.createdAt wire.updatedAt wire.startedAt wire.revision
    wire.approvals
  return {
    lifecycle
    failure := wire.failure
    approvals := wire.approvals
    id := wire.id
    runId := wire.runId
    ordinal := wire.ordinal
    title := wire.title }

def ToolCall.tryFrom {ν : Type} (wire : ToolCallWire ν Instant) :
    Except RunDomainError (ToolCall ν) := do
  validateSchemaVersion "tool_call" wire.schemaVersion
  let lifecycle ← Lifecycle.fromWire "tool_call" wire.state wire.createdAt wire.updatedAt
    wire.startedAt wire.finishedAt wire.revision
  validateFailure "tool_call" (wire.state = .failed ∨ wire.state = .denied) wire.failure
  validateOutput wire.state wire.output
  validateApprovals "tool_call" wire.state wire.createdAt wire.updatedAt wire.startedAt
    wire.revision wire.approvals
  refuseWhen "tool_call" (wire.schemaVersion = 1 && wire.policyDecision.isSome)
    "schema version 1 cannot carry a policy decision"
  refuseWhen "tool_call"
    (wire.schemaVersion < 3 && wire.policyDecision.any fun decision =>
      decision.externalRequest.isSome || decision.denialKind.isSome)
    "schema versions before 3 cannot carry external policy decision fields"
  validatePolicyDecision wire.state wire.failure wire.approvals wire.policyDecision
  return {
    lifecycle
    failure := wire.failure
    approvals := wire.approvals
    id := wire.id
    runId := wire.runId
    stepId := wire.stepId
    toolId := wire.toolId
    toolVersion := wire.toolVersion
    input := wire.input
    output := wire.output
    policyDecision := wire.policyDecision }

/-- Whether a record has a JSON form, and comes back from it as it was. -/
def Run.RoundTrips (codec : Rfc3339 Instant) (run : Run) : Prop :=
  ∃ written, run.toWire.serialize codec = some written ∧
    ∃ wire, written.deserialize codec = .ok wire ∧ tryFrom wire = .ok run

def Step.RoundTrips (codec : Rfc3339 Instant) (step : Step) : Prop :=
  ∃ written, step.toWire.serialize codec = some written ∧
    ∃ wire, written.deserialize codec = .ok wire ∧ tryFrom wire = .ok step

def ToolCall.RoundTrips {ν : Type} (codec : Rfc3339 Instant) (call : ToolCall ν) : Prop :=
  ∃ written, call.toWire.serialize codec = some written ∧
    ∃ wire, written.deserialize codec = .ok wire ∧ tryFrom wire = .ok call

end Harkness.Runtime.Domain.Record
