import Harkness.Runtime.Approval.Lifecycle
import Harkness.Runtime.Store.Column

/-! # Stored approval requests

A request is inserted as one row and a resolution rewrites the columns it may move. Reading rebuilds
the record through the checks a fresh one passes. The writer refuses a text wider than a column and
a root that is not UTF-8; every request it accepts, whatever answers it got, reads back equal.
-/

namespace Harkness.Runtime.Store

open Approval DateTime

/-- The columns of one approval. -/
structure ApprovalRow where
  schemaVersion : ℤ
  id : String
  runId : String
  toolCallId : String
  toolId : String
  toolVersion : String
  capabilitiesJson : String
  agentExecutableSha256 : Option String
  mcpToolSchemaFingerprint : Option String
  recipeContentHash : Option String
  inputHash : String
  inputSummary : String
  projectId : Option String
  canonicalRoot : String
  risk : String
  requestedScope : String
  effectiveScope : String
  state : String
  createdAt : String
  expiresAt : Option String
  resolvedAt : Option String
  decidedVia : Option String
  decisionVerdict : Option String
  decisionScope : Option String
  decisionReason : Option String
deriving DecidableEq, Repr

def approvalRecord : String := "approval"

def approvalIntegrationIdentitySchemaVersion : ℕ := 3

def columnEncoding (field reason : String) : StoreError :=
  .columnEncoding approvalRecord field reason

def unknownSpelling (codecs : Codecs) (field stored : String) : StoreError :=
  columnEncoding field (codecs.debug stored ++ " is not a spelling this build understands")

def encodeCapabilities (codecs : Codecs) (capabilities : List Capability) :
    Except StoreError String := do
  let encoded ← (codecs.serializeTexts (capabilities.map Capability.asStr)).mapError
    (columnEncoding "capabilities_json")
  encodeText approvalRecord "capabilities_json" encoded

def decodeCapabilities (codecs : Codecs) (stored : String) : Except StoreError (List Capability) :=
  (codecs.deserializeCapabilities Capability.new stored).mapError
    (columnEncoding "capabilities_json")

/-- Passes the decider's explanation on after proving it fits its column. -/
def decisionReason (request : ApprovalRequest) : Except StoreError (Option String) :=
  match request.decision.bind (·.reason) with
  | none => .ok none
  | some reason => some <$> encodeText approvalRecord "decision_reason" reason

def insert (codecs : Codecs) (request : ApprovalRequest) : Except StoreError ApprovalRow := do
  let pending := request.pending
  let toolId ← encodeText approvalRecord "tool_id" pending.tool.id
  let toolVersion ← encodeText approvalRecord "tool_version" pending.tool.version
  let capabilitiesJson ← encodeCapabilities codecs pending.capabilities
  let inputSummary ← encodeText approvalRecord "input_summary" pending.inputSummary
  let canonicalRoot ←
    encodePath codecs approvalRecord "canonical_root" pending.workspace.canonicalRoot
  let createdAt ← encodeTimestamp codecs approvalRecord "created_at" pending.createdAt
  let expiresAt ← encodeOptionalTimestamp codecs approvalRecord "expires_at" pending.expiresAt
  let resolvedAt ← encodeOptionalTimestamp codecs approvalRecord "resolved_at" request.resolvedAt
  let reason ← decisionReason request
  return {
    schemaVersion := Domain.runtimeRecordSchemaVersion
    id := codecs.formatId request.id
    runId := codecs.formatId pending.runId
    toolCallId := codecs.formatId pending.toolCallId
    toolId := toolId
    toolVersion := toolVersion
    capabilitiesJson := capabilitiesJson
    agentExecutableSha256 := pending.integrationIdentity.agentExecutableSha256.map hashToHex
    mcpToolSchemaFingerprint :=
      pending.integrationIdentity.mcpToolSchemaFingerprint.map hashToHex
    recipeContentHash := pending.integrationIdentity.recipeContentHash.map hashToHex
    inputHash := hashToHex pending.inputHash
    inputSummary := inputSummary
    projectId := pending.workspace.projectId.map codecs.formatId
    canonicalRoot := canonicalRoot
    risk := pending.risk.asStr
    requestedScope := pending.requestedScope.asStr
    effectiveScope := request.effectiveScope.asStr
    state := request.state.asStr
    createdAt := createdAt
    expiresAt := expiresAt
    resolvedAt := resolvedAt
    decidedVia := request.decision.map (·.decidedVia.asStr)
    decisionVerdict := request.decision.map (·.verdict.asStr)
    decisionScope := (request.decision.bind (·.scope)).map ApprovalScope.asStr
    decisionReason := reason }

/-- Writes back only the columns a resolution changes. -/
def updateResolution (codecs : Codecs) (request : ApprovalRequest) (row : ApprovalRow) :
    Except StoreError ApprovalRow := do
  let resolvedAt ← encodeOptionalTimestamp codecs approvalRecord "resolved_at" request.resolvedAt
  let reason ← decisionReason request
  return { row with
    state := request.state.asStr
    effectiveScope := request.effectiveScope.asStr
    resolvedAt := resolvedAt
    decidedVia := request.decision.map (·.decidedVia.asStr)
    decisionVerdict := request.decision.map (·.verdict.asStr)
    decisionScope := (request.decision.bind (·.scope)).map ApprovalScope.asStr
    decisionReason := reason }

/-- The value of a closed table that has this spelling. -/
def fromStored {α : Type} (all : List α) (spelling : α → String) (stored : String) : Option α :=
  all.find? fun value => spelling value == stored

/-- Reads a column holding one spelling from a closed table of them. -/
def decodeSpelling {α : Type} (codecs : Codecs) (all : List α) (spelling : α → String)
    (field stored : String) : Except StoreError α := do
  let stored ← text approvalRecord field stored
  match fromStored all spelling stored with
  | some value => return value
  | none => throw (unknownSpelling codecs field stored)

def decodeDigest (field : String) (stored : Option String) :
    Except StoreError (Option Sha256Hash) := do
  match ← optionalText approvalRecord field stored with
  | none => return none
  | some stored => some <$> (Sha256Hash.parse stored).mapError (columnEncoding field)

def decodeProjectId (codecs : Codecs) (stored : Option String) :
    Except StoreError (Option ProjectId) := do
  match ← optionalText approvalRecord "project_id" stored with
  | none => return none
  | some stored => some <$> decodeId codecs approvalRecord "project_id" stored

def decodeIntegrationIdentity (row : ApprovalRow) : Except StoreError IntegrationIdentity := do
  return {
    agentExecutableSha256 := ← decodeDigest "agent_executable_sha256" row.agentExecutableSha256
    mcpToolSchemaFingerprint :=
      ← decodeDigest "mcp_tool_schema_fingerprint" row.mcpToolSchemaFingerprint
    recipeContentHash := ← decodeDigest "recipe_content_hash" row.recipeContentHash }

/-- Rebuilds the decision from the columns that carry it. -/
def decodeDecision (codecs : Codecs) (row : ApprovalRow) (id : ApprovalId)
    (resolvedAt : Option Instant) : Except StoreError (Option ApprovalDecision) := do
  let scope ← optionalText approvalRecord "decision_scope" row.decisionScope
  let reason ← optionalText approvalRecord "decision_reason" row.decisionReason
  let verdict ← optionalText approvalRecord "decision_verdict" row.decisionVerdict
  let decidedVia ← optionalText approvalRecord "decided_via" row.decidedVia
  match verdict, decidedVia with
  | none, none =>
    if scope.isNone && reason.isNone then return none
    else throw (columnEncoding "decision_verdict"
      ("decision_verdict, decided_via, decision_scope and decision_reason "
        ++ "are one decision and must be stored together"))
  | some verdict, some decidedVia =>
    let some decidedAt := resolvedAt
      | throw (columnEncoding "resolved_at" "a decided approval must record when it was decided")
    let some verdict := fromStored ApprovalVerdict.all ApprovalVerdict.asStr verdict
      | throw (unknownSpelling codecs "decision_verdict" verdict)
    let some decidedVia := fromStored DecidedVia.all DecidedVia.asStr decidedVia
      | throw (unknownSpelling codecs "decided_via" decidedVia)
    let scope ← match scope with
      | none => pure none
      | some stored => match fromStored ApprovalScope.all ApprovalScope.asStr stored with
        | some scope => pure (some scope)
        | none => throw (unknownSpelling codecs "decision_scope" stored)
    if breadth : scope.isSome = true ↔ verdict = .granted then
      return some
        { approvalId := id, verdict, scope, decidedAt, decidedVia, reason, breadth }
    else throw (columnEncoding "decision_scope"
      "a granted approval records the scope it authorized and a denied one records none")
  | _, _ => throw (columnEncoding "decision_verdict"
      ("decision_verdict, decided_via, decision_scope and decision_reason "
        ++ "are one decision and must be stored together"))

/-- Rebuilds the request a row records; the schema version is probed before any other column. -/
def decode (codecs : Codecs) (row : ApprovalRow) : Except StoreError ApprovalRequest := do
  let recordSchemaVersion ← schemaVersion approvalRecord row.schemaVersion
  let id ← decodeId codecs approvalRecord "id" (← text approvalRecord "id" row.id)
  let tool ← (ToolIdentity.parse codecs.semver (← text approvalRecord "tool_id" row.toolId)
    (← text approvalRecord "tool_version" row.toolVersion)).mapError
      fun error => columnEncoding "tool" (error.display codecs.debug)
  let projectId ← decodeProjectId codecs row.projectId
  let workspace : WorkspaceBinding :=
    ⟨projectId, codecs.pathOf (← text approvalRecord "canonical_root" row.canonicalRoot)⟩
  let integrationIdentity ← decodeIntegrationIdentity row
  if recordSchemaVersion < approvalIntegrationIdentitySchemaVersion
      ∧ integrationIdentity.isEmpty = false then
    throw (.approval (.inconsistentRecord id
      "schema versions before 3 cannot carry external integration identity"))
  let runId ← decodeId codecs approvalRecord "run_id" (← text approvalRecord "run_id" row.runId)
  let toolCallId ← decodeId codecs approvalRecord "tool_call_id"
    (← text approvalRecord "tool_call_id" row.toolCallId)
  let inputHash ← (InputHash.parse codecs (← text approvalRecord "input_hash" row.inputHash)).mapError
    (columnEncoding "input_hash")
  let risk ← decodeSpelling codecs RiskLevel.all RiskLevel.asStr "risk" row.risk
  let createdAt ← decodeTimestamp codecs approvalRecord "created_at"
    (← text approvalRecord "created_at" row.createdAt)
  let requestedScope ← decodeSpelling codecs ApprovalScope.all ApprovalScope.asStr
    "requested_scope" row.requestedScope
  let capabilities ← decodeCapabilities codecs
    (← text approvalRecord "capabilities_json" row.capabilitiesJson)
  let inputSummary ← text approvalRecord "input_summary" row.inputSummary
  let pending := ((((PendingApproval.new runId toolCallId tool inputHash workspace risk
    createdAt).requesting requestedScope).withCapabilities capabilities).withIntegrationIdentity
      integrationIdentity).summarizedAs inputSummary
  let expiresAt ← decodeOptionalTimestamp codecs approvalRecord "expires_at"
    (← optionalText approvalRecord "expires_at" row.expiresAt)
  let pending := match expiresAt with
    | some expiresAt => pending.expiringAt expiresAt
    | none => pending
  let state ← decodeSpelling codecs ApprovalState.all ApprovalState.asStr "state" row.state
  let resolvedAt ← decodeOptionalTimestamp codecs approvalRecord "resolved_at"
    (← optionalText approvalRecord "resolved_at" row.resolvedAt)
  let decision ← decodeDecision codecs row id resolvedAt
  let effectiveScope ← decodeSpelling codecs ApprovalScope.all ApprovalScope.asStr
    "effective_scope" row.effectiveScope
  (ApprovalRequest.fromStored id pending effectiveScope state resolvedAt decision).mapError .approval

/-- The columns an insertion fills and no resolution moves. -/
structure Binds (codecs : Codecs) (request : ApprovalRequest) (row : ApprovalRow) : Prop where
  schemaVersion : row.schemaVersion = Domain.runtimeRecordSchemaVersion
  id : row.id = codecs.formatId request.id
  runId : row.runId = codecs.formatId request.pending.runId
  toolCallId : row.toolCallId = codecs.formatId request.pending.toolCallId
  toolId : encodeText approvalRecord "tool_id" request.pending.tool.id = .ok row.toolId
  toolVersion :
    encodeText approvalRecord "tool_version" request.pending.tool.version = .ok row.toolVersion
  capabilities : encodeCapabilities codecs request.pending.capabilities = .ok row.capabilitiesJson
  executable : row.agentExecutableSha256 =
    request.pending.integrationIdentity.agentExecutableSha256.map hashToHex
  schema : row.mcpToolSchemaFingerprint =
    request.pending.integrationIdentity.mcpToolSchemaFingerprint.map hashToHex
  recipe : row.recipeContentHash =
    request.pending.integrationIdentity.recipeContentHash.map hashToHex
  inputHash : row.inputHash = hashToHex request.pending.inputHash
  inputSummary :
    encodeText approvalRecord "input_summary" request.pending.inputSummary = .ok row.inputSummary
  projectId : row.projectId = request.pending.workspace.projectId.map codecs.formatId
  canonicalRoot : encodePath codecs approvalRecord "canonical_root"
    request.pending.workspace.canonicalRoot = .ok row.canonicalRoot
  risk : row.risk = request.pending.risk.asStr
  requestedScope : row.requestedScope = request.pending.requestedScope.asStr
  createdAt :
    encodeTimestamp codecs approvalRecord "created_at" request.pending.createdAt = .ok row.createdAt
  expiresAt : encodeOptionalTimestamp codecs approvalRecord "expires_at" request.pending.expiresAt =
    .ok row.expiresAt

/-- The columns a resolution fills. -/
structure Resolves (codecs : Codecs) (request : ApprovalRequest) (row : ApprovalRow) : Prop where
  effectiveScope : row.effectiveScope = request.effectiveScope.asStr
  state : row.state = request.state.asStr
  resolvedAt : encodeOptionalTimestamp codecs approvalRecord "resolved_at" request.resolvedAt =
    .ok row.resolvedAt
  decidedVia : row.decidedVia = request.decision.map (·.decidedVia.asStr)
  verdict : row.decisionVerdict = request.decision.map (·.verdict.asStr)
  scope : row.decisionScope = (request.decision.bind (·.scope)).map ApprovalScope.asStr
  reason : decisionReason request = .ok row.decisionReason

theorem insert_eq_ok {codecs : Codecs} {request : ApprovalRequest} {row : ApprovalRow}
    (inserted : insert codecs request = .ok row) :
    Binds codecs request row ∧ Resolves codecs request row := by
  simp only [insert, Except.bind_eq_ok] at inserted
  obtain ⟨toolId, id, toolVersion, version, capabilitiesJson, capabilities, inputSummary, summary,
    canonicalRoot, root, createdAt, created, expiresAt, expires, resolvedAt, resolved, reason,
    explained, filled⟩ := inserted
  cases filled
  exact ⟨⟨rfl, rfl, rfl, rfl, id, version, capabilities, rfl, rfl, rfl, rfl, summary, rfl, root, rfl,
    rfl, created, expires⟩, rfl, rfl, resolved, rfl, rfl, rfl, explained⟩

theorem updateResolution_eq_ok {codecs : Codecs} {request : ApprovalRequest}
    {row next : ApprovalRow} (updated : updateResolution codecs request row = .ok next) :
    Resolves codecs request next ∧
      ∀ other, Binds codecs other row → Binds codecs other next := by
  simp only [updateResolution, Except.bind_eq_ok] at updated
  obtain ⟨resolvedAt, resolved, reason, explained, filled⟩ := updated
  cases filled
  exact ⟨⟨rfl, rfl, resolved, rfl, rfl, rfl, explained⟩, fun other binds => { binds with }⟩

/-- A pending approval as its constructor and setters build it. -/
inductive Built (codecs : Codecs) : PendingApproval → Prop
  | new {runId : RunId} {toolCallId : ToolCallId} {tool : ToolIdentity} {inputHash : InputHash}
      {workspace : WorkspaceBinding} {risk : RiskLevel} {createdAt : Instant}
      (run : runId < 2 ^ 128) (call : toolCallId < 2 ^ 128) (parsed : tool.Parsed codecs.semver)
      (project : ∀ projectId, workspace.projectId = some projectId → projectId < 2 ^ 128)
      (created : Representable createdAt) :
      Built codecs (.new runId toolCallId tool inputHash workspace risk createdAt)
  | requesting {pending : PendingApproval} (built : Built codecs pending) (scope : ApprovalScope) :
      Built codecs (pending.requesting scope)
  | withCapabilities {pending : PendingApproval} (built : Built codecs pending)
      {capabilities : List Capability}
      (parsed : ∀ capability ∈ capabilities, ∃ value, Capability.new value = .ok capability) :
      Built codecs (pending.withCapabilities capabilities)
  | withIntegrationIdentity {pending : PendingApproval} (built : Built codecs pending)
      (identity : IntegrationIdentity) : Built codecs (pending.withIntegrationIdentity identity)
  | summarizedAs {pending : PendingApproval} (built : Built codecs pending) (summary : String) :
      Built codecs (pending.summarizedAs summary)
  | expiringAt {pending : PendingApproval} (built : Built codecs pending) {at_ : Instant}
      (deadline : Representable at_) : Built codecs (pending.expiringAt at_)

/-- What the setters keep. -/
structure WellFormed (codecs : Codecs) (pending : PendingApproval) : Prop where
  runId : pending.runId < 2 ^ 128
  toolCallId : pending.toolCallId < 2 ^ 128
  projectId : ∀ id, pending.workspace.projectId = some id → id < 2 ^ 128
  tool : pending.tool.Parsed codecs.semver
  parsed : ∀ capability ∈ pending.capabilities,
    Capability.new capability.asStr = .ok capability
  sorted : pending.capabilities.Pairwise (·.spelling ≤ ·.spelling)
  distinct : pending.capabilities.IsChain (· ≠ ·)
  createdAt : Representable pending.createdAt
  expiresAt : ∀ at_, pending.expiresAt = some at_ → Representable at_

theorem Built.wellFormed {codecs : Codecs} {pending : PendingApproval}
    (built : Built codecs pending) : WellFormed codecs pending := by
  induction built with
  | new run call parsed project created =>
    exact ⟨run, call, project, parsed, fun _ member => absurd member List.not_mem_nil, .nil, .nil,
      created, fun _ deadline => by cases deadline⟩
  | requesting _ _ ih => exact { ih with }
  | @withCapabilities pending _ capabilities parsed ih =>
    refine { ih with parsed := ?_, sorted := ?_, distinct := List.isChain_destutter _ _ }
    · intro capability member
      rcases List.mem_append.mp (List.mem_mergeSort.mp
        ((List.destutter_sublist _ _).subset member)) with known | added
      · exact ih.parsed capability known
      · obtain ⟨value, named⟩ := parsed capability added
        exact Capability.new_asStr named
    · have sorted : ((pending.capabilities ++ capabilities).mergeSort
          fun left right => left.spelling ≤ right.spelling).Pairwise
            fun left right => decide (left.spelling ≤ right.spelling) = true :=
        List.pairwise_mergeSort (by simpa only [decide_eq_true_eq] using fun _ _ _ => le_trans)
          (by simpa only [Bool.or_eq_true, decide_eq_true_eq] using fun _ _ => le_total _ _) _
      simp only [decide_eq_true_eq] at sorted
      exact sorted.sublist (List.destutter_sublist _ _)
  | withIntegrationIdentity _ _ ih => exact { ih with }
  | summarizedAs _ _ ih => exact { ih with }
  | expiringAt _ deadline ih =>
    refine { ih with expiresAt := ?_ }
    intro at_ same
    obtain rfl := Option.some.inj same
    exact deadline

/-- Capabilities already sorted and distinct are recorded as they are. -/
theorem withCapabilities_self {pending : PendingApproval} {capabilities : List Capability}
    (none : pending.capabilities = []) (sorted : capabilities.Pairwise (·.spelling ≤ ·.spelling))
    (distinct : capabilities.IsChain (· ≠ ·)) :
    pending.withCapabilities capabilities = { pending with capabilities } := by
  have kept : capabilities.mergeSort (fun left right => left.spelling ≤ right.spelling) =
      capabilities :=
    List.mergeSort_of_pairwise (by simpa only [decide_eq_true_eq] using sorted)
  rw [PendingApproval.withCapabilities, none, List.nil_append, kept,
    List.destutter_of_isChain _ _ distinct]

theorem expiresAt_self (pending : PendingApproval) : (match pending.expiresAt with
    | some expiresAt => ({ pending with expiresAt := none } : PendingApproval).expiringAt expiresAt
    | none => { pending with expiresAt := none }) = pending := by
  obtain ⟨_, _, _, _, _, _, _, _, _, _, expiresAt, _⟩ := pending
  cases expiresAt <;> rfl

section Columns

variable {codecs : Codecs}

theorem decodeSpelling_riskLevel (risk : RiskLevel) (field : String) :
    decodeSpelling codecs RiskLevel.all RiskLevel.asStr field risk.asStr = .ok risk := by
  rw [decodeSpelling, text_of_le (by cases risk <;> decide)]
  cases risk <;> rfl

theorem decodeSpelling_scope (scope : ApprovalScope) (field : String) :
    decodeSpelling codecs ApprovalScope.all ApprovalScope.asStr field scope.asStr = .ok scope := by
  rw [decodeSpelling, text_of_le (by cases scope <;> decide)]
  cases scope <;> rfl

theorem decodeSpelling_state (state : ApprovalState) (field : String) :
    decodeSpelling codecs ApprovalState.all ApprovalState.asStr field state.asStr = .ok state := by
  rw [decodeSpelling, text_of_le (by cases state <;> decide)]
  cases state <;> rfl

theorem utf8ByteSize_hashToHex (hash : BitVec 256) : (hashToHex hash).utf8ByteSize = 64 := by
  rw [hashToHex, String.utf8ByteSize_ofList, Hex.utf8Len_digits]

theorem parseHash_hashToHex (hash : BitVec 256) : parseHash (hashToHex hash) = .ok hash := by
  have read : Hex.readFrom 0 (hashToHex hash).toList = some hash.toNat := by
    rw [hashToHex, String.toList_ofList]
    exact Hex.read_digits (hash.isLt.trans_eq (by norm_num))
  rw [parseHash, if_neg (not_not.mpr (utf8ByteSize_hashToHex hash)), read]
  exact congrArg Except.ok (BitVec.ofNat_toNat 256 hash ▸ by rw [BitVec.setWidth_eq])

theorem text_hash {record field : String} (hash : BitVec 256) :
    text record field (hashToHex hash) = .ok (hashToHex hash) :=
  text_of_le (by rw [utf8ByteSize_hashToHex]; decide)

theorem decodeDigest_map (field : String) (hash : Option Sha256Hash) :
    decodeDigest field (hash.map hashToHex) = .ok hash := by
  cases hash with
  | none => rfl
  | some hash =>
    have stored : optionalText approvalRecord field (some (hashToHex hash)) =
        .ok (some (hashToHex hash)) := by
      rw [optionalText, text_hash]
      rfl
    rw [Option.map_some, decodeDigest, stored]
    simp only [bind, Except.bind, Sha256Hash.parse, parseHash_hashToHex, Except.mapError]
    rfl

theorem decodeProjectId_map (lawful : codecs.Lawful) {projectId : Option ProjectId}
    (small : ∀ id, projectId = some id → id < 2 ^ 128) :
    decodeProjectId codecs (projectId.map codecs.formatId) = .ok projectId := by
  cases projectId with
  | none => rfl
  | some id =>
    have stored : optionalText approvalRecord "project_id" (some (codecs.formatId id)) =
        .ok (some (codecs.formatId id)) := by
      rw [optionalText, text_id lawful (small id rfl)]
      rfl
    rw [Option.map_some, decodeProjectId, stored]
    simp only [bind, Except.bind, decodeId_formatId lawful (small id rfl)]
    rfl

theorem encodeCapabilities_eq_ok {capabilities : List Capability} {stored : String} :
    encodeCapabilities codecs capabilities = .ok stored ↔
      codecs.serializeTexts (capabilities.map Capability.asStr) = .ok stored ∧
        stored.utf8ByteSize ≤ maxInlinePayloadBytes := by
  simp only [encodeCapabilities, Except.bind_eq_ok, Except.mapError_eq_ok, encodeText_eq_ok]
  constructor
  · rintro ⟨text, serialized, fits, rfl⟩
    exact ⟨serialized, fits⟩
  · rintro ⟨serialized, fits⟩
    exact ⟨stored, serialized, fits, rfl⟩

theorem decodeCapabilities_of_encode (lawful : codecs.Lawful) {capabilities : List Capability}
    {stored : String}
    (parsed : ∀ capability ∈ capabilities, Capability.new capability.asStr = .ok capability)
    (encoded : encodeCapabilities codecs capabilities = .ok stored) :
    text approvalRecord "capabilities_json" stored = .ok stored ∧
      decodeCapabilities codecs stored = .ok capabilities := by
  obtain ⟨serialized, fits⟩ := encodeCapabilities_eq_ok.mp encoded
  refine ⟨text_of_le fits, ?_⟩
  rw [decodeCapabilities, lawful.capabilities capabilities stored parsed serialized]
  rfl

theorem encodePath_eq_ok {record field : String} {path : List String} {stored : String} :
    encodePath codecs record field path = .ok stored ↔
      codecs.pathText path = some stored ∧ stored.utf8ByteSize ≤ maxInlinePayloadBytes := by
  unfold encodePath
  cases codecs.pathText path with
  | none => simp only [reduceCtorEq, false_and]
  | some text =>
    simp only [encodeText_eq_ok, Option.some.injEq]
    constructor
    · rintro ⟨fits, rfl⟩
      exact ⟨rfl, fits⟩
    · rintro ⟨rfl, fits⟩
      exact ⟨fits, rfl⟩

theorem decisionReason_eq_ok {request : ApprovalRequest} {stored : Option String}
    (encoded : decisionReason request = .ok stored) :
    stored = request.decision.bind (·.reason) ∧
      optionalText approvalRecord "decision_reason" stored = .ok stored := by
  unfold decisionReason at encoded
  cases given : request.decision.bind (·.reason) with
  | none =>
    rw [given] at encoded
    cases encoded
    exact ⟨rfl, rfl⟩
  | some reason =>
    rw [given] at encoded
    obtain ⟨text, written, rfl⟩ := Except.map_eq_ok.mp encoded
    obtain ⟨fits, rfl⟩ := encodeText_eq_ok.mp written
    refine ⟨rfl, optionalText_of_le fun text same => ?_⟩
    obtain rfl := Option.some.inj same
    exact fits

/-- The decision a row carries is the one that was recorded, at the time the request resolved. -/
theorem decodeDecision_of_resolves {request : ApprovalRequest} {row : ApprovalRow}
    (resolves : Resolves codecs request row) (consistent : request.Consistent)
    (moment : ∀ decision, request.decision = some decision →
      request.resolvedAt = some decision.decidedAt) :
    decodeDecision codecs row request.id request.resolvedAt = .ok request.decision := by
  obtain ⟨reason, reasonText⟩ := decisionReason_eq_ok resolves.reason
  unfold decodeDecision
  rw [reasonText, reason, resolves.scope, resolves.verdict, resolves.decidedVia]
  cases held : request.decision with
  | none => rfl
  | some decision =>
    obtain ⟨id, verdict, scope, decidedAt, decidedVia, because, breadth⟩ := decision
    obtain ⟨answers, -, -, -⟩ := consistent.answer _ held
    dsimp only at answers
    subst answers
    rw [moment _ held]
    have scopeText : optionalText approvalRecord "decision_scope" (scope.map ApprovalScope.asStr) =
        .ok (scope.map ApprovalScope.asStr) :=
      optionalText_of_le fun text same => by
        obtain ⟨named, -, rfl⟩ := Option.map_eq_some_iff.mp same
        cases named <;> decide
    have verdictText : optionalText approvalRecord "decision_verdict" (some verdict.asStr) =
        .ok (some verdict.asStr) :=
      optionalText_of_le fun text same => by
        obtain rfl := Option.some.inj same
        cases verdict <;> decide
    have viaText : optionalText approvalRecord "decided_via" (some decidedVia.asStr) =
        .ok (some decidedVia.asStr) :=
      optionalText_of_le fun text same => by
        obtain rfl := Option.some.inj same
        cases decidedVia <;> decide
    have verdictRead : fromStored ApprovalVerdict.all ApprovalVerdict.asStr verdict.asStr =
        some verdict := by cases verdict <;> rfl
    have viaRead : fromStored DecidedVia.all DecidedVia.asStr decidedVia.asStr =
        some decidedVia := by cases decidedVia <;> rfl
    simp only [Option.bind_some, Option.map_some, scopeText, verdictText, viaText, bind,
      Except.bind, verdictRead, viaRead]
    cases scope with
    | none => simp only [Option.map_none, pure, Except.pure, breadth, dite_true]
    | some scope =>
      have scopeRead : fromStored ApprovalScope.all ApprovalScope.asStr scope.asStr =
          some scope := by cases scope <;> rfl
      simp only [Option.map_some, scopeRead, pure, Except.pure, breadth, dite_true]

theorem decodeIntegrationIdentity_of_binds {request : ApprovalRequest} {row : ApprovalRow}
    (binds : Binds codecs request row) :
    decodeIntegrationIdentity row = .ok request.pending.integrationIdentity := by
  rw [decodeIntegrationIdentity, binds.executable, binds.schema, binds.recipe, decodeDigest_map,
    decodeDigest_map, decodeDigest_map]
  rfl

/-- A row that holds a consistent request decodes to it. -/
theorem decode_of_binds (lawful : codecs.Lawful) {request : ApprovalRequest} {row : ApprovalRow}
    (binds : Binds codecs request row) (resolves : Resolves codecs request row)
    (wellFormed : WellFormed codecs request.pending) (id : request.id < 2 ^ 128)
    (consistent : request.Consistent)
    (moment : ∀ decision, request.decision = some decision →
      request.resolvedAt = some decision.decidedAt)
    (resolved : ∀ at_, request.resolvedAt = some at_ → Representable at_) :
    decode codecs row = .ok request := by
  have version : schemaVersion approvalRecord row.schemaVersion =
      .ok Domain.runtimeRecordSchemaVersion := by
    rw [binds.schemaVersion]
    rfl
  have current : ¬(Domain.runtimeRecordSchemaVersion < approvalIntegrationIdentitySchemaVersion ∧
      request.pending.integrationIdentity.isEmpty = false) :=
    fun older => absurd older.1 (by decide)
  obtain ⟨idFits, toolId⟩ := encodeText_eq_ok.mp binds.toolId
  obtain ⟨versionFits, toolVersion⟩ := encodeText_eq_ok.mp binds.toolVersion
  obtain ⟨tool, -, -⟩ := wellFormed.tool.parse_self lawful.semver
  have projectId := decodeProjectId_map lawful wellFormed.projectId
  obtain ⟨utf8, rootFits⟩ := encodePath_eq_ok.mp binds.canonicalRoot
  have root := lawful.path _ _ utf8
  have inputHash : InputHash.parse codecs (hashToHex request.pending.inputHash) =
      .ok request.pending.inputHash := by
    rw [InputHash.parse, parseHash_hashToHex]
    rfl
  obtain ⟨createdText, created⟩ :=
    decodeTimestamp_of_encode lawful.timestamps wellFormed.createdAt binds.createdAt
  obtain ⟨capabilitiesText, capabilities⟩ :=
    decodeCapabilities_of_encode lawful wellFormed.parsed binds.capabilities
  obtain ⟨summaryFits, summary⟩ := encodeText_eq_ok.mp binds.inputSummary
  obtain ⟨expiresText, expires⟩ :=
    decodeOptionalTimestamp_of_encode lawful.timestamps wellFormed.expiresAt binds.expiresAt
  obtain ⟨resolvedText, resolution⟩ :=
    decodeOptionalTimestamp_of_encode lawful.timestamps resolved resolves.resolvedAt
  have decision := decodeDecision_of_resolves resolves consistent moment
  have rebuilt := ApprovalRequest.fromStored_eq_ok.mpr consistent
  have pending : ((((PendingApproval.new request.pending.runId request.pending.toolCallId
      request.pending.tool request.pending.inputHash
      ⟨request.pending.workspace.projectId, request.pending.workspace.canonicalRoot⟩
      request.pending.risk request.pending.createdAt).requesting
        request.pending.requestedScope).withCapabilities
          request.pending.capabilities).withIntegrationIdentity
            request.pending.integrationIdentity).summarizedAs request.pending.inputSummary =
      { request.pending with expiresAt := none } := by
    rw [withCapabilities_self rfl wellFormed.sorted wellFormed.distinct]
    rfl
  unfold decode
  rw [version, binds.id, text_id lawful id]
  simp only [bind, Except.bind, decodeId_formatId lawful id, toolId, toolVersion,
    text_of_le idFits, text_of_le versionFits, tool, Except.mapError, binds.projectId, projectId,
    text_of_le rootFits, root, decodeIntegrationIdentity_of_binds binds, current, if_false,
    binds.runId, text_id lawful wellFormed.runId, decodeId_formatId lawful wellFormed.runId,
    binds.toolCallId, text_id lawful wellFormed.toolCallId,
    decodeId_formatId lawful wellFormed.toolCallId, binds.inputHash, text_hash, inputHash,
    binds.risk, decodeSpelling_riskLevel, createdText, created, binds.requestedScope,
    decodeSpelling_scope, capabilitiesText, capabilities, summary, text_of_le summaryFits,
    pending, expiresText, expires, resolves.state, decodeSpelling_state, resolvedText, resolution,
    decision, resolves.effectiveScope]
  rw [expiresAt_self, rebuilt]

end Columns

/-- The clock an operation carries names a date. -/
def ClockRepresentable : Operation → Prop
  | .decide decision => Representable decision.decidedAt
  | .resolve _ at_ => Representable at_

/-- The texts of a pending approval that the writer bounds each fit their column. -/
structure Storable (codecs : Codecs) (pending : PendingApproval) : Prop where
  capabilities : ∃ text,
    codecs.serializeTexts (pending.capabilities.map Capability.asStr) = .ok text ∧
      text.utf8ByteSize ≤ maxInlinePayloadBytes
  inputSummary : pending.inputSummary.utf8ByteSize ≤ maxInlinePayloadBytes
  canonicalRoot : ∃ text, codecs.pathText pending.workspace.canonicalRoot = some text ∧
    text.utf8ByteSize ≤ maxInlinePayloadBytes

/-- A decider's explanation, if there is one, fits its column. -/
def ReasonFits (request : ApprovalRequest) : Prop :=
  ∀ reason, request.decision.bind (·.reason) = some reason →
    reason.utf8ByteSize ≤ maxInlinePayloadBytes

/-- What a run leaves of the request, and when it was resolved. -/
structure Answered (request final : ApprovalRequest) : Prop where
  id : final.id = request.id
  pending : final.pending = request.pending
  moment : ∀ decision, final.decision = some decision → final.resolvedAt = some decision.decidedAt
  clock : ∀ at_, final.resolvedAt = some at_ → Representable at_

theorem run_answered {id : ApprovalId} {pending : PendingApproval}
    {request final : ApprovalRequest} {operations : List Operation}
    (opened : ApprovalRequest.openWithId id pending = .ok request)
    (ran : ApprovalRequest.question.run request operations = final)
    (clocks : ∀ operation ∈ operations, ClockRepresentable operation) :
    Answered request final := by
  obtain rfl := ApprovalRequest.openWithId_eq_ok opened
  rcases ApprovalRequest.run_ends ran with ⟨-, rfl⟩ | ⟨-, operation, member, ends⟩
  · exact ⟨rfl, rfl, fun _ held => (by cases held), fun _ resolved => (by cases resolved)⟩
  · have clock := clocks operation member
    cases ends with
    | decided =>
      refine ⟨rfl, rfl, fun decision held => ?_, fun at_ resolved => ?_⟩
      · obtain rfl := Option.some.inj held
        rfl
      · obtain rfl := Option.some.inj resolved
        exact clock
    | resolved =>
      refine ⟨rfl, rfl, fun decision held => (by cases held), fun at_ resolved => ?_⟩
      obtain rfl := Option.some.inj resolved
      exact clock

section Writing

variable {codecs : Codecs}

theorem decisionReason_isOk {request : ApprovalRequest} :
    (∃ stored, decisionReason request = .ok stored) ↔ ReasonFits request := by
  unfold decisionReason ReasonFits
  cases request.decision.bind (·.reason) with
  | none => simp only [Except.ok.injEq, exists_eq', reduceCtorEq, false_imp_iff, implies_true]
  | some reason =>
    simp only [Except.map_eq_ok, encodeText_eq_ok, Option.some.injEq, forall_eq']
    constructor
    · rintro ⟨_, _, ⟨fits, _⟩, _⟩
      exact fits
    · exact fun fits => ⟨some reason, reason, ⟨fits, rfl⟩, rfl⟩

theorem encodeOptionalTimestamp_isOk (lawful : codecs.Lawful) (record field : String)
    {at_ : Option Instant}
    (representable : ∀ instant, at_ = some instant → Representable instant) :
    ∃ stored, encodeOptionalTimestamp codecs record field at_ = .ok stored := by
  cases at_ with
  | none => exact ⟨none, rfl⟩
  | some at_ =>
    refine ⟨some (String.ofList (timestampText at_)), ?_⟩
    rw [encodeOptionalTimestamp, (decodeTimestamp_encodeTimestamp lawful.timestamps _ _ (representable at_ rfl)).1]
    rfl

/-- A resolution is written exactly when the explanation it carries fits. -/
theorem updateResolution_isOk (lawful : codecs.Lawful) {request : ApprovalRequest}
    (resolved : ∀ at_, request.resolvedAt = some at_ → Representable at_) (row : ApprovalRow) :
    (∃ next, updateResolution codecs request row = .ok next) ↔ ReasonFits request := by
  rw [← decisionReason_isOk]
  constructor
  · rintro ⟨next, updated⟩
    exact ⟨next.decisionReason, (updateResolution_eq_ok updated).1.reason⟩
  · rintro ⟨reason, explained⟩
    obtain ⟨resolvedAt, spelled⟩ :=
      encodeOptionalTimestamp_isOk lawful approvalRecord "resolved_at" resolved
    simp only [updateResolution, spelled, explained, bind, Except.bind, pure, Except.pure,
      Except.ok.injEq, exists_eq']

/-- A request just opened is inserted exactly when its texts fit. -/
theorem insert_isOk (lawful : codecs.Lawful) {request : ApprovalRequest}
    (wellFormed : WellFormed codecs request.pending) (unresolved : request.resolvedAt = none)
    (unanswered : request.decision = none) :
    (∃ row, insert codecs request = .ok row) ↔ Storable codecs request.pending := by
  constructor
  · rintro ⟨row, inserted⟩
    obtain ⟨binds, -⟩ := insert_eq_ok inserted
    exact {
      capabilities := ⟨_, encodeCapabilities_eq_ok.mp binds.capabilities⟩
      inputSummary := (encodeText_eq_ok.mp binds.inputSummary).1
      canonicalRoot := ⟨_, encodePath_eq_ok.mp binds.canonicalRoot⟩ }
  · rintro ⟨⟨capabilities, serialized⟩, summary, ⟨root, spelled⟩⟩
    obtain ⟨-, idShort, versionShort⟩ := wellFormed.tool.parse_self lawful.semver
    have created : encodeTimestamp codecs approvalRecord "created_at" request.pending.createdAt =
        .ok (String.ofList (timestampText request.pending.createdAt)) :=
      (decodeTimestamp_encodeTimestamp lawful.timestamps _ _ wellFormed.createdAt).1
    obtain ⟨expiresAt, expires⟩ :=
      encodeOptionalTimestamp_isOk lawful approvalRecord "expires_at" wellFormed.expiresAt
    have resolved : encodeOptionalTimestamp codecs approvalRecord "resolved_at"
        request.resolvedAt = .ok none := by rw [unresolved]; rfl
    have reason : decisionReason request = .ok none := by rw [decisionReason, unanswered]; rfl
    simp only [insert, encodeText_eq_ok.mpr ⟨identifier_fits idShort, rfl⟩,
      encodeText_eq_ok.mpr ⟨identifier_fits versionShort, rfl⟩,
      encodeCapabilities_eq_ok.mpr serialized, encodeText_eq_ok.mpr ⟨summary, rfl⟩,
      encodePath_eq_ok.mpr spelled, created, expires, resolved, reason, bind, Except.bind, pure,
      Except.pure, Except.ok.injEq, exists_eq']

/-- Every request opened from a pending approval and answered by any run of decisions and
resolutions survives storage. It is inserted exactly when its capabilities, summary and root fit
their columns, and its resolution is written exactly when the reason given fits; the inserted row
decodes to the request as opened, and the updated row to the request as answered. -/
theorem approval_survives_storage (lawful : codecs.Lawful) {id : ApprovalId}
    {pending : PendingApproval} {request final : ApprovalRequest} {operations : List Operation}
    (small : id < 2 ^ 128) (built : Built codecs pending)
    (clocks : ∀ operation ∈ operations, ClockRepresentable operation)
    (opened : ApprovalRequest.openWithId id pending = .ok request)
    (ran : ApprovalRequest.question.run request operations = final) :
    ((∃ row, insert codecs request = .ok row) ↔ Storable codecs pending) ∧
    ∀ row, insert codecs request = .ok row →
      decode codecs row = .ok request ∧
      ((∃ next, updateResolution codecs final row = .ok next) ↔ ReasonFits final) ∧
      ∀ next, updateResolution codecs final row = .ok next → decode codecs next = .ok final := by
  have consistent := ApprovalRequest.consistent_of_openWithId opened
  have answered := run_answered opened ran clocks
  have settled := ApprovalRequest.run_consistent consistent ran
  have wellFormed := built.wellFormed
  obtain rfl := ApprovalRequest.openWithId_eq_ok opened
  refine ⟨insert_isOk lawful wellFormed rfl rfl, fun row inserted => ?_⟩
  obtain ⟨binds, resolves⟩ := insert_eq_ok inserted
  refine ⟨?_, updateResolution_isOk lawful answered.clock row, fun next updated => ?_⟩
  · exact decode_of_binds lawful binds resolves wellFormed small consistent
      (fun _ held => by cases held) (fun _ resolved => by cases resolved)
  · obtain ⟨resolves, kept⟩ := updateResolution_eq_ok updated
    have moved : Binds codecs final row := by
      obtain ⟨finalId, finalPending, _, _, _, _⟩ := final
      obtain ⟨rfl, rfl, -, -⟩ := answered
      exact { binds with }
    exact decode_of_binds lawful (kept final moved) resolves (answered.pending ▸ wellFormed)
      (answered.id ▸ small) settled answered.moment answered.clock

end Writing

def sampleId (id : ℕ) : String :=
  String.ofList (Hex.digits 8 (id / 16 ^ 24) ++ '-' :: (Hex.digits 4 (id / 16 ^ 20) ++
    '-' :: (Hex.digits 4 (id / 16 ^ 16) ++ '-' :: (Hex.digits 4 (id / 16 ^ 12) ++
      '-' :: Hex.digits 12 id))))

def sampleRoot (text : String) : List String :=
  ((text.toList.splitOn '/').filter (· ≠ [])).map String.ofList

/-- The strings of a JSON array of strings that hold no comma and no escape. -/
def sampleTexts (text : String) : List String :=
  if text = "[]" then []
  else ((text.toList.drop 1).dropLast.splitOn ',').map fun quoted =>
    String.ofList (quoted.drop 1).dropLast

def sampleCodecs : Codecs where
  formatTimestamp at_ := .ok (String.ofList (timestampFormat.flatMap (FormatItem.text (.of at_))))
  parseTimestamp text := (readItems timestampFormat .unset text.toList).map Parts.instant
  formatId := sampleId
  parseId text := match Hex.readFrom 0 (text.toList.filter (· ≠ '-')) with
    | some id => .ok id
    | none => .error "invalid character"
  pathText root :=
    let text := "/" ++ "/".intercalate root
    if sampleRoot text = root then some text else none
  pathOf := sampleRoot
  serializeTexts texts :=
    let text := "[" ++ ",".intercalate (texts.map fun text => "\"" ++ text ++ "\"") ++ "]"
    if sampleTexts text = texts then .ok text else .error "escape"
  deserializeCapabilities element text :=
    ((sampleTexts text).mapM element).mapError fun error => error.display String.quote
  semver value := if value = "1.0.0" then .ok ⟨"1.0.0", ""⟩ else .error "unexpected character"
  debug := String.quote

theorem readFrom_sampleId {id : ℕ} (small : id < 2 ^ 128) :
    Hex.readFrom 0 ((sampleId id).toList.filter (· ≠ '-')) = some id ∧
      (sampleId id).utf8ByteSize = 36 := by
  have plain (width value : ℕ) :
      (Hex.digits width value).filter (· ≠ '-') = Hex.digits width value :=
    List.filter_eq_self.mpr fun _ member => decide_eq_true (Hex.ne_hyphen_of_mem_digits member)
  have joined : (sampleId id).toList.filter (· ≠ '-') = Hex.digits 32 id := by
    rw [sampleId, String.toList_ofList]
    simp only [List.filter_append, List.filter_cons, plain, ne_eq, not_true_eq_false, decide_false,
      Bool.false_eq_true, if_false]
    rw [← Hex.digits_add 4 12, ← Hex.digits_add 4 16, ← Hex.digits_add 4 20, ← Hex.digits_add 8 24]
  constructor
  · rw [joined, Hex.read_digits (small.trans_eq (by norm_num))]
  · rw [sampleId, String.utf8ByteSize_ofList]
    simp only [String.utf8Len_append, String.utf8Len_cons, Hex.utf8Len_digits]
    decide

theorem mapM_new {capabilities : List Capability}
    (parsed : ∀ capability ∈ capabilities, Capability.new capability.asStr = .ok capability) :
    (capabilities.map Capability.asStr).mapM Capability.new = .ok capabilities := by
  induction capabilities with
  | nil => rfl
  | cons capability rest ih =>
    rw [List.map_cons, List.mapM_cons, parsed capability List.mem_cons_self,
      ih fun other member => parsed other (List.mem_cons_of_mem _ member)]
    rfl

theorem sampleCodecs_lawful : sampleCodecs.Lawful where
  timestamps := ⟨fun _ _ => rfl, fun _ _ read _ => congrArg (Option.map Parts.instant) read⟩
  id id small := by
    obtain ⟨read, size⟩ := readFrom_sampleId small
    refine ⟨?_, size⟩
    simp only [sampleCodecs, read]
  path root text spelled := by
    simp only [sampleCodecs] at spelled ⊢
    split_ifs at spelled with same
    obtain rfl := Option.some.inj spelled
    exact same
  capabilities capabilities text parsed serialized := by
    simp only [sampleCodecs] at serialized ⊢
    split_ifs at serialized with same
    obtain rfl := Except.ok.inj serialized
    rw [same, mapM_new parsed]
    rfl
  semver value version read := by
    simp only [sampleCodecs] at read
    split_ifs at read with same
    obtain rfl := Except.ok.inj read
    exact same.symm

/-- A request for a check, summarized in so many characters. -/
def samplePending (length : ℕ) : PendingApproval :=
  ((PendingApproval.new 1 2 ⟨"check.run", "1.0.0"⟩ 5 ⟨none, ["work"]⟩ .execute 0).requesting
    .toolForRun).summarizedAs (String.ofList (List.replicate length 'a'))

theorem samplePending_built (length : ℕ) : Built sampleCodecs (samplePending length) := by
  refine .summarizedAs (.requesting (.new (by decide) (by decide) ?_ ?_ (by decide)) _) _
  · exact ⟨"check.run", "1.0.0", by rfl⟩
  · rintro projectId ⟨⟩

theorem utf8ByteSize_inputSummary (length : ℕ) :
    (samplePending length).inputSummary.utf8ByteSize = length := by
  change (String.ofList (List.replicate length 'a')).utf8ByteSize = length
  rw [String.utf8ByteSize_ofList]
  induction length with
  | zero => rfl
  | succ length ih => rw [List.replicate_succ, String.utf8Len_cons, ih]; rfl

def sampleOpened (length : ℕ) : ApprovalRequest :=
  ⟨7, samplePending length, .toolForRun, .pending, none, none⟩

def sampleAnswer : ApprovalDecision :=
  (ApprovalDecision.grant 7 .exactCall .cli (10 ^ 9)).because "once"

def sampleAnswered : ApprovalRequest :=
  ⟨7, samplePending 9, .exactCall, .granted, some (10 ^ 9), some sampleAnswer⟩

/-- A grant for one call, with a reason, survives storage. -/
theorem approval_survives_storage_sample : ∃ row next,
    insert sampleCodecs (sampleOpened 9) = .ok row ∧
      updateResolution sampleCodecs sampleAnswered row = .ok next ∧
        decode sampleCodecs next = .ok sampleAnswered := by
  have clocks : ∀ operation ∈ [Operation.decide sampleAnswer], ClockRepresentable operation := by
    intro operation member
    rw [List.mem_singleton.mp member]
    change Representable (10 ^ 9)
    decide
  obtain ⟨written, survives⟩ := approval_survives_storage sampleCodecs_lawful (by decide)
    (samplePending_built 9) clocks
    (rfl : ApprovalRequest.openWithId 7 (samplePending 9) = .ok (sampleOpened 9))
    (rfl : ApprovalRequest.question.run (sampleOpened 9) _ = sampleAnswered)
  have storable : Storable sampleCodecs (samplePending 9) := {
    capabilities := ⟨"[]", rfl, by decide⟩
    inputSummary := by rw [utf8ByteSize_inputSummary]; decide
    canonicalRoot := ⟨"/work", by decide, by decide⟩ }
  obtain ⟨row, inserted⟩ := written.mpr storable
  obtain ⟨-, updated, read⟩ := survives row inserted
  have explained : ReasonFits sampleAnswered := by
    intro reason given
    obtain rfl := Option.some.inj given
    decide
  obtain ⟨next, resolved⟩ := updated.mpr explained
  exact ⟨row, next, inserted, resolved, read next resolved⟩

theorem insert_of_wide {length : ℕ} (wide : maxInlinePayloadBytes < length) :
    insert sampleCodecs (sampleOpened length) =
      .error (.payloadTooLarge "approval" "input_summary" length) := by
  have summary : encodeText approvalRecord "input_summary" (samplePending length).inputSummary =
      .error (.payloadTooLarge "approval" "input_summary" length) := by
    rw [encodeText, utf8ByteSize_inputSummary, withinInlineLimit, if_pos wide]
    rfl
  have toolId : encodeText approvalRecord "tool_id" (samplePending length).tool.id =
      .ok "check.run" := rfl
  have toolVersion : encodeText approvalRecord "tool_version" (samplePending length).tool.version =
      .ok "1.0.0" := rfl
  have capabilities : encodeCapabilities sampleCodecs (samplePending length).capabilities =
      .ok "[]" := rfl
  simp only [insert, sampleOpened, toolId, toolVersion, capabilities, summary, bind, Except.bind]

theorem sampleOpened_opened (length : ℕ) :
    ApprovalRequest.openWithId 7 (samplePending length) = .ok (sampleOpened length) := rfl

/-- A summary wider than its column is refused by the writer, not stored. -/
theorem oversized_summary_refused :
    sampleCodecs.Lawful ∧ Built sampleCodecs (samplePending 65537) ∧
      ApprovalRequest.openWithId 7 (samplePending 65537) = .ok (sampleOpened 65537) ∧
        insert sampleCodecs (sampleOpened 65537) =
          .error (.payloadTooLarge "approval" "input_summary" 65537) :=
  ⟨sampleCodecs_lawful, samplePending_built _, sampleOpened_opened _, insert_of_wide (by decide)⟩

end Harkness.Runtime.Store
