import Harkness.Runtime.Domain.Record
import Harkness.Runtime.Store.Column
import Harkness.ToMathlib.Numbered

/-! # The event log of a run

Each run has an append-only log. An event takes the position after the highest its run has, and is
written as one row; reading a row rebuilds the event from its columns. A page is read in either
direction from an exclusive boundary, with one row beyond it deciding whether more follows.
-/

namespace Harkness.Runtime.Store

open Domain Domain.Record

abbrev ArtifactId := ℕ

/-- What an event says happened; a kind this build does not define is kept as stored. -/
inductive EventKind where
  | runStateChanged
  | runInterrupted
  | runRetried
  | stepStarted
  | stepFinished
  | toolCallStateChanged
  | policyDecision
  | toolProgress
  | approvalRequested
  | approvalDecided
  | approvalIdentityDrift
  | artifactCreated
  | agentObservation
  | agentAction
  | agentCheckpoint
  | snapshotCaptured
  | contextCacheRecreated
  | contextIndexCommitted
  | contextIndexEvicted
  | externalAgentHealthChecked
  | externalAgentTrustInvalidated
  | diagnostic
  | unrecognized (spelling : String)
deriving DecidableEq

namespace EventKind

/-- The stable spelling stored in the `kind` column. -/
def asStr : EventKind → String
  | runStateChanged => "run_state_changed"
  | runInterrupted => "run_interrupted"
  | runRetried => "run_retried"
  | stepStarted => "step_started"
  | stepFinished => "step_finished"
  | toolCallStateChanged => "tool_call_state_changed"
  | policyDecision => "policy_decision"
  | toolProgress => "tool_progress"
  | approvalRequested => "approval_requested"
  | approvalDecided => "approval_decided"
  | approvalIdentityDrift => "approval_identity_drift"
  | artifactCreated => "artifact_created"
  | agentObservation => "agent_observation"
  | agentAction => "agent_action"
  | agentCheckpoint => "agent_checkpoint"
  | snapshotCaptured => "snapshot_captured"
  | contextCacheRecreated => "context_cache_recreated"
  | contextIndexCommitted => "context_index_committed"
  | contextIndexEvicted => "context_index_evicted"
  | externalAgentHealthChecked => "external_agent_health_checked"
  | externalAgentTrustInvalidated => "external_agent_trust_invalidated"
  | diagnostic => "diagnostic"
  | unrecognized spelling => spelling

/-- Interprets a stored spelling, keeping an unknown one verbatim. -/
def parse (spelling : String) : EventKind :=
  match spelling with
  | "run_state_changed" => runStateChanged
  | "run_interrupted" => runInterrupted
  | "run_retried" => runRetried
  | "step_started" => stepStarted
  | "step_finished" => stepFinished
  | "tool_call_state_changed" => toolCallStateChanged
  | "policy_decision" => policyDecision
  | "tool_progress" => toolProgress
  | "approval_requested" => approvalRequested
  | "approval_decided" => approvalDecided
  | "approval_identity_drift" => approvalIdentityDrift
  | "artifact_created" => artifactCreated
  | "agent_observation" => agentObservation
  | "agent_action" => agentAction
  | "agent_checkpoint" => agentCheckpoint
  | "snapshot_captured" => snapshotCaptured
  | "context_cache_recreated" => contextCacheRecreated
  | "context_index_committed" => contextIndexCommitted
  | "context_index_evicted" => contextIndexEvicted
  | "external_agent_health_checked" => externalAgentHealthChecked
  | "external_agent_trust_invalidated" => externalAgentTrustInvalidated
  | "diagnostic" => diagnostic
  | other => unrecognized other

/-- What was parsed stores as what it was parsed from. -/
theorem asStr_parse (spelling : String) : (parse spelling).asStr = spelling := by
  unfold parse
  split <;> rfl

/-- A kind that was parsed, or is one of those defined, stores as what it parses from. -/
theorem parse_asStr_parse (spelling : String) : parse (parse spelling).asStr = parse spelling := by
  rw [asStr_parse]

end EventKind

/-- One thing worth recording about a run. -/
structure RunEvent (π : Type) where
  kind : EventKind
  at_ : Instant
  stepId : Option StepId
  toolCallId : Option ToolCallId
  artifactId : Option ArtifactId
  payload : π

/-- An event as the store holds it: a run, a position in its log, and what happened. -/
structure StoredEvent (π : Type) where
  runId : RunId
  seq : ℕ
  event : RunEvent π

/-- The columns of one event. -/
structure EventRow where
  schemaVersion : ℤ
  runId : String
  seq : ℤ
  at_ : String
  kind : String
  stepId : Option String
  toolCallId : Option String
  artifactId : Option String
  payloadJson : String

/-- Which end of a run's log a page is read from. -/
inductive EventOrder where
  | oldest
  | newest
deriving DecidableEq

/-- Bounds and positions one page of a run's log; `from_` is exclusive. -/
structure EventPage where
  limit : ℕ
  order : EventOrder
  from_ : Option ℕ

/-- One page of a run's log, and the boundary to continue from. -/
structure EventListing (π : Type) where
  events : List (StoredEvent π)
  nextCursor : Option ℕ

def runEvent : String := "run_event"

/-- Largest event page the store will assemble in one query. -/
def maxEventPageLimit : ℕ := 1000

/-- The largest integer a column holds. -/
def i64Max : ℕ := 2 ^ 63 - 1

/-- How payloads are spelled as JSON. -/
structure PayloadCodec (π : Type) where
  serialize : π → String
  deserialize : String → Except String π

/-- A payload that was written reads back. -/
def PayloadCodec.Lawful {π : Type} (payloads : PayloadCodec π) : Prop :=
  ∀ payload, ∃ back, payloads.deserialize (payloads.serialize payload) = .ok back

section Log

variable {π : Type} (codecs : Codecs) (payloads : PayloadCodec π)

def decodePayload (record field stored : String) : Except StoreError π :=
  (payloads.deserialize stored).mapError (.columnEncoding record field)

def optionalId (field : String) (stored : Option String) : Except StoreError (Option ℕ) := do
  match ← optionalText runEvent field stored with
  | none => return none
  | some stored => some <$> decodeId codecs runEvent field stored

/-- The rows of one run, which SQL selects by the text of its identifier. -/
def rowsOf (runId : RunId) (table : List EventRow) : List EventRow :=
  table.filter fun row => row.runId = codecs.formatId runId

/-- Reads the next free position for a run. -/
def nextSequence (runId : RunId) (table : List EventRow) : Except StoreError ℕ :=
  let highest := (rowsOf codecs runId table).foldl (fun highest row => max highest row.seq) 0
  if highest < 0 then
    .error (.columnEncoding runEvent "seq"
      (toString highest ++ " is not a representable sequence number"))
  else .ok (highest.toNat + 1)

/-- Appends one event. Whether the run and the records the event names are stored, which other
tables decide, is `contained`. -/
def appendEvent (runId : RunId) (event : RunEvent π) (payloadJson : String) (contained : Bool)
    (table : List EventRow) : Except StoreError (ℕ × List EventRow) := do
  withinInlineLimit runEvent "payload" payloadJson.utf8ByteSize
  let seq ← nextSequence codecs runId table
  if i64Max < seq then
    .error (.columnEncoding runEvent "seq"
      (toString seq ++ " is beyond the storable sequence range"))
  else do
    let row : EventRow := {
      schemaVersion := runtimeRecordSchemaVersion
      runId := codecs.formatId runId
      seq := seq
      at_ := ← encodeTimestamp codecs runEvent "at" event.at_
      kind := ← encodeText runEvent "kind" event.kind.asStr
      stepId := event.stepId.map codecs.formatId
      toolCallId := event.toolCallId.map codecs.formatId
      artifactId := event.artifactId.map codecs.formatId
      payloadJson := payloadJson }
    if contained then return (seq, table ++ [row])
    else .error (.missingParent runEvent (codecs.formatId runId ++ ":" ++ toString seq)
      "run, or a step, tool call, or artifact of that run,")

def storedEvent (row : EventRow) : Except StoreError (StoredEvent π) := do
  let _ ← Store.schemaVersion runEvent row.schemaVersion
  if row.seq < 0 then
    .error (.columnEncoding runEvent "seq"
      (toString row.seq ++ " is not a representable sequence number"))
  else do
    let payloadJson ← text runEvent "payload_json" row.payloadJson
    let event : RunEvent π := {
      kind := EventKind.parse (← text runEvent "kind" row.kind)
      at_ := ← decodeTimestamp codecs runEvent "at" (← text runEvent "at" row.at_)
      stepId := ← optionalId codecs "step_id" row.stepId
      toolCallId := ← optionalId codecs "tool_call_id" row.toolCallId
      artifactId := ← optionalId codecs "artifact_id" row.artifactId
      payload := ← decodePayload payloads runEvent "payload" payloadJson }
    return {
      runId := ← decodeId codecs runEvent "run_id" (← text runEvent "run_id" row.runId)
      seq := row.seq.toNat
      event }

/-- The durable tip of one run's log. -/
def latestSequence (runId : RunId) (table : List EventRow) :
    Except StoreError (Option ℕ) :=
  match rowsOf codecs runId table with
  | [] => .ok none
  | row :: rows =>
    let highest := rows.foldl (fun highest row => max highest row.seq) row.seq
    if highest < 0 then
      .error (.columnEncoding runEvent "seq"
        (toString highest ++ " is not a representable sequence number"))
    else .ok (some highest.toNat)

/-- One page of a run's log, ordered by sequence. -/
def events (runId : RunId) (after : Option ℕ) (limit : ℕ) (table : List EventRow) :
    Except StoreError (List (StoredEvent π)) :=
  if limit = 0 ∨ maxEventPageLimit < limit then
    .error (.invalidPageLimit limit maxEventPageLimit)
  else
    let above := (rowsOf codecs runId table).filter fun row => ↑(min (after.getD 0) i64Max) < row.seq
    ((above.insertionSort fun left right => left.seq ≤ right.seq).take (min limit i64Max)).mapM
      (storedEvent codecs payloads)

/-- An absent boundary is the end the order names. -/
def boundary : EventOrder → Option ℕ → ℕ
  | _, some seq => min seq i64Max
  | .oldest, none => 0
  | .newest, none => i64Max

/-- The rows one statement selects, in its order. -/
def selected (runId : RunId) (page : EventPage) (table : List EventRow) : List EventRow :=
  let bound := boundary page.order page.from_
  match page.order with
  | .oldest => ((rowsOf codecs runId table).filter fun row => (bound : ℤ) < row.seq).insertionSort
      fun left right => left.seq ≤ right.seq
  | .newest => ((rowsOf codecs runId table).filter fun row => row.seq < (bound : ℤ)).insertionSort
      fun left right => right.seq ≤ left.seq

/-- One page of a run's log in either direction. One row beyond the page is read to decide whether a
continuation exists. -/
def eventPage (runId : RunId) (page : EventPage) (table : List EventRow) :
    Except StoreError (EventListing π) :=
  if page.limit = 0 ∨ maxEventPageLimit < page.limit then
    .error (.invalidPageLimit page.limit maxEventPageLimit)
  else do
    let probe := min (page.limit + 1) i64Max
    let events ← ((selected codecs runId page table).take probe).mapM (storedEvent codecs payloads)
    let hasMore := page.limit < events.length
    let kept := events.take page.limit
    return {
      events := kept
      nextCursor := if hasMore then kept.getLast?.map StoredEvent.seq else none }

end Log

end Harkness.Runtime.Store
