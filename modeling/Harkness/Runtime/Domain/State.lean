import Harkness.Runtime.Tool.Descriptor

/-! # Lifecycle states of the durable records

Runs and steps share one table of edges and tool calls have their own. A record spells its state by
a stable name, carries the version of the format it was written in, and refuses what it cannot do or
cannot read with one vocabulary of errors.
-/

namespace Harkness.Runtime.Domain

/-- Lifecycle state shared by runs and their ordered steps. -/
inductive ExecutionState where
  | queued
  | running
  | waitingForApproval
  | succeeded
  | failed
  | cancelled
  | interrupted
deriving DecidableEq, Repr

namespace ExecutionState

/-- Every execution state in its stable declaration order. -/
def all : List ExecutionState :=
  [queued, running, waitingForApproval, succeeded, failed, cancelled, interrupted]

def asStr : ExecutionState → String
  | queued => "queued"
  | running => "running"
  | waitingForApproval => "waiting_for_approval"
  | succeeded => "succeeded"
  | failed => "failed"
  | cancelled => "cancelled"
  | interrupted => "interrupted"

/-- Whether no later state may follow this state. -/
def isTerminal : ExecutionState → Bool
  | succeeded | failed | cancelled | interrupted => true
  | _ => false

def requiresStartedAt : ExecutionState → Bool
  | running | waitingForApproval | succeeded => true
  | _ => false

def forbidsStartedAt : ExecutionState → Bool
  | queued => true
  | _ => false

/-- Every legal run and step state edge. -/
def transitions : List (ExecutionState × ExecutionState) :=
  [(queued, running), (queued, failed), (queued, cancelled), (queued, interrupted),
    (running, waitingForApproval), (running, succeeded), (running, failed), (running, cancelled),
    (running, interrupted), (waitingForApproval, running), (waitingForApproval, failed),
    (waitingForApproval, cancelled), (waitingForApproval, interrupted)]

end ExecutionState

/-- Lifecycle state of a requested tool invocation. -/
inductive ToolCallState where
  | pending
  | awaitingApproval
  | running
  | succeeded
  | failed
  | denied
  | cancelled
  | interrupted
deriving DecidableEq, Repr

instance : LawfulBEq (ToolCallState × ToolCallState) := inferInstance

namespace ToolCallState

/-- Every tool-call state in its stable declaration order. -/
def all : List ToolCallState :=
  [pending, awaitingApproval, running, succeeded, failed, denied, cancelled, interrupted]

def asStr : ToolCallState → String
  | pending => "pending"
  | awaitingApproval => "awaiting_approval"
  | running => "running"
  | succeeded => "succeeded"
  | failed => "failed"
  | denied => "denied"
  | cancelled => "cancelled"
  | interrupted => "interrupted"

def isTerminal : ToolCallState → Bool
  | succeeded | failed | denied | cancelled | interrupted => true
  | _ => false

def requiresStartedAt : ToolCallState → Bool
  | running | succeeded => true
  | _ => false

def forbidsStartedAt : ToolCallState → Bool
  | pending | awaitingApproval | denied => true
  | _ => false

/-- Every legal tool-call state edge. -/
def transitions : List (ToolCallState × ToolCallState) :=
  [(pending, awaitingApproval), (pending, running), (pending, failed), (pending, denied),
    (pending, cancelled), (pending, interrupted), (awaitingApproval, running),
    (awaitingApproval, denied), (awaitingApproval, cancelled), (awaitingApproval, interrupted),
    (running, succeeded), (running, failed), (running, cancelled), (running, interrupted)]

end ToolCallState

/-- Invalid state changes or persisted record combinations in the runtime domain. -/
inductive RunDomainError where
  | invalidExecutionTransition (source target : ExecutionState)
  | invalidToolCallTransition (source target : ToolCallState)
  | revisionExhausted (record : String)
  | schemaVersionTooOld (record : String) (found minimum : ℕ)
  | schemaVersionTooNew (record : String) (found maximum : ℕ)
  | invalidTimestamp (record field reason : String)
  | invalidLifecycle (record reason : String)
deriving DecidableEq, Repr

/-- Stable machine-readable discriminant for caller-facing error handling. -/
def RunDomainError.kind : RunDomainError → String
  | invalidExecutionTransition .. => "invalid_execution_transition"
  | invalidToolCallTransition .. => "invalid_tool_call_transition"
  | revisionExhausted .. => "revision_exhausted"
  | schemaVersionTooOld .. => "schema_version_too_old"
  | schemaVersionTooNew .. => "schema_version_too_new"
  | invalidTimestamp .. => "invalid_timestamp"
  | invalidLifecycle .. => "invalid_lifecycle"

/-- Version of the record format this build writes. -/
def runtimeRecordSchemaVersion : ℕ := 4

def minimumRuntimeRecordSchemaVersion : ℕ := 1

def validateSchemaVersion (record : String) (found : ℕ) : Except RunDomainError Unit :=
  if found < minimumRuntimeRecordSchemaVersion then
    .error (.schemaVersionTooOld record found minimumRuntimeRecordSchemaVersion)
  else if runtimeRecordSchemaVersion < found then
    .error (.schemaVersionTooNew record found runtimeRecordSchemaVersion)
  else .ok ()

/-- A failure with a stable machine-readable kind and a user-facing message. -/
structure Failure where
  kind : String
  message : String
deriving DecidableEq, Repr

inductive ApprovalOutcome where
  | approved
  | denied
deriving DecidableEq, Repr

/-- One auditable decision made while a record awaited approval, with its time in some form. -/
structure ApprovalAt (Time : Type) where
  decidedBy : String
  decision : ApprovalOutcome
  decidedAt : Time
deriving DecidableEq, Repr

abbrev Approval := ApprovalAt Instant

end Harkness.Runtime.Domain
