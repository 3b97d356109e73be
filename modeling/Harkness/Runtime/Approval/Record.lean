import Harkness.Runtime.Policy.External
import Mathlib.Data.List.Destutter

/-! # The durable approval request and the decision that ends it

A request is opened pending, with its scope already reduced to the ceiling of its risk. A human
decision or a resolution without an answer ends it; every other state is final. Instants are
compared and never read here: each operation carries the caller's own clock.
-/

namespace Harkness.Runtime.Approval

abbrev ApprovalId := ℕ
abbrev InputHash := BitVec 256

/-- Lifecycle state of one durable approval request. -/
inductive ApprovalState where
  | pending
  | granted
  | denied
  | expired
  | cancelled
  | superseded
deriving DecidableEq, Repr

/-- Every approval state in its stable declaration order. -/
def ApprovalState.all : List ApprovalState :=
  [pending, granted, denied, expired, cancelled, superseded]

def ApprovalState.asStr : ApprovalState → String
  | pending => "pending"
  | granted => "granted"
  | denied => "denied"
  | expired => "expired"
  | cancelled => "cancelled"
  | superseded => "superseded"

/-- Whether no later state may follow this state. -/
def ApprovalState.isTerminal : ApprovalState → Bool
  | pending => false
  | _ => true

/-- Every legal approval state edge: a star out of `pending`. -/
def approvalTransitions : List (ApprovalState × ApprovalState) :=
  [(.pending, .granted), (.pending, .denied), (.pending, .expired), (.pending, .cancelled),
    (.pending, .superseded)]

/-- How far a grant reaches once it exists. -/
inductive ApprovalScope where
  | exactCall
  | toolForRun
  | capabilityForRun
deriving DecidableEq, Repr

namespace ApprovalScope

/-- Every scope in its stable declaration order. -/
def all : List ApprovalScope := [exactCall, toolForRun, capabilityForRun]

def asStr : ApprovalScope → String
  | exactCall => "exact_call"
  | toolForRun => "tool_for_run"
  | capabilityForRun => "capability_for_run"

/-- One call is within every scope; the two run-wide scopes are about different things. -/
instance : PartialOrder ApprovalScope where
  le narrow wide := narrow = exactCall ∨ narrow = wide
  le_refl _ := .inr rfl
  le_trans a b c left right := by
    rcases left with left | rfl
    · exact .inl left
    · exact right
  le_antisymm a b left right := by
    rcases left with rfl | same
    · rcases right with same | same <;> exact same.symm
    · exact same

instance (narrow wide : ApprovalScope) : Decidable (narrow ≤ wide) :=
  inferInstanceAs (Decidable (narrow = exactCall ∨ narrow = wide))

theorem exactCall_le (scope : ApprovalScope) : exactCall ≤ scope := .inl rfl

theorem le_exactCall {scope : ApprovalScope} (within : scope ≤ exactCall) : scope = exactCall :=
  le_antisymm within (exactCall_le scope)

/-- The scope a request at `risk` may actually be stored with. -/
def ceiling (scope : ApprovalScope) (risk : RiskLevel) : ApprovalScope :=
  if risk = .remoteWrite ∨ risk = .destructive then exactCall else scope

theorem ceiling_le (scope : ApprovalScope) (risk : RiskLevel) : scope.ceiling risk ≤ scope := by
  unfold ceiling
  split_ifs with bounded
  · exact exactCall_le scope
  · exact le_refl scope

end ApprovalScope

/-- What a human answered. -/
inductive ApprovalVerdict where
  | granted
  | denied
deriving DecidableEq, Repr

/-- Every verdict in its stable declaration order. -/
def ApprovalVerdict.all : List ApprovalVerdict := [granted, denied]

def ApprovalVerdict.asStr : ApprovalVerdict → String
  | granted => "granted"
  | denied => "denied"

def ApprovalVerdict.state : ApprovalVerdict → ApprovalState
  | granted => .granted
  | denied => .denied

/-- Which surface a decision arrived from. -/
inductive DecidedVia where
  | cli
  | gui
deriving DecidableEq, Repr

/-- Every surface in its stable declaration order. -/
def DecidedVia.all : List DecidedVia := [cli, gui]

def DecidedVia.asStr : DecidedVia → String
  | cli => "cli"
  | gui => "gui"

/-- The workspace identity an approval is bound to: both halves matter. -/
structure WorkspaceBinding where
  projectId : Option ProjectId
  canonicalRoot : List String
deriving DecidableEq, Repr

/-- The answer that resolves one pending approval. A grant carries the scope it authorizes and a
denial carries none, whether built here or read back. -/
structure ApprovalDecision where
  approvalId : ApprovalId
  verdict : ApprovalVerdict
  scope : Option ApprovalScope
  decidedAt : Instant
  decidedVia : DecidedVia
  reason : Option String
  breadth : scope.isSome = true ↔ verdict = .granted
deriving DecidableEq

namespace ApprovalDecision

/-- Allows the request, authorizing exactly `scope`. -/
def grant (approvalId : ApprovalId) (scope : ApprovalScope) (decidedVia : DecidedVia)
    (decidedAt : Instant) : ApprovalDecision where
  approvalId := approvalId
  verdict := .granted
  scope := some scope
  decidedAt := decidedAt
  decidedVia := decidedVia
  reason := none
  breadth := iff_of_true rfl rfl

/-- Refuses the request. -/
def deny (approvalId : ApprovalId) (decidedVia : DecidedVia) (decidedAt : Instant) :
    ApprovalDecision where
  approvalId := approvalId
  verdict := .denied
  scope := none
  decidedAt := decidedAt
  decidedVia := decidedVia
  reason := none
  breadth := by decide

/-- Attaches the decider's explanation. -/
def because (decision : ApprovalDecision) (reason : String) : ApprovalDecision :=
  { decision with reason := some reason }

end ApprovalDecision

/-- Everything known about a call that needs a human answer, before one exists. -/
structure PendingApproval where
  runId : RunId
  toolCallId : ToolCallId
  tool : ToolIdentity
  capabilities : List Capability
  integrationIdentity : IntegrationIdentity
  inputHash : InputHash
  inputSummary : String
  workspace : WorkspaceBinding
  risk : RiskLevel
  requestedScope : ApprovalScope
  expiresAt : Option Instant
  createdAt : Instant
deriving DecidableEq

namespace PendingApproval

/-- Describes the narrowest possible request: this exact call, no expiry. -/
def new (runId : RunId) (toolCallId : ToolCallId) (tool : ToolIdentity) (inputHash : InputHash)
    (workspace : WorkspaceBinding) (risk : RiskLevel) (createdAt : Instant) :
    PendingApproval where
  runId := runId
  toolCallId := toolCallId
  tool := tool
  capabilities := []
  integrationIdentity := .none
  inputHash := inputHash
  inputSummary := ""
  workspace := workspace
  risk := risk
  requestedScope := .exactCall
  expiresAt := none
  createdAt := createdAt

/-- Asks for a broader scope than one call. -/
def requesting (self : PendingApproval) (scope : ApprovalScope) : PendingApproval :=
  { self with requestedScope := scope }

/-- Records the capabilities the tool's descriptor declares, sorted and deduplicated. -/
def withCapabilities (self : PendingApproval) (capabilities : List Capability) :
    PendingApproval :=
  { self with
    capabilities := ((self.capabilities ++ capabilities).mergeSort
      fun left right => left.spelling ≤ right.spelling).destutter (· ≠ ·) }

/-- Binds the external subject identities observed for this operation. -/
def withIntegrationIdentity (self : PendingApproval) (identity : IntegrationIdentity) :
    PendingApproval :=
  { self with integrationIdentity := identity }

/-- Attaches the human-readable digest of the input. -/
def summarizedAs (self : PendingApproval) (summary : String) : PendingApproval :=
  { self with inputSummary := summary }

/-- Sets a wall-clock deadline for a human to answer. -/
def expiringAt (self : PendingApproval) (at_ : Instant) : PendingApproval :=
  { self with expiresAt := some at_ }

end PendingApproval

/-- Failures raised while creating or resolving an approval. -/
inductive ApprovalError where
  | invalidTransition (id : ApprovalId) (source target : ApprovalState)
  | alreadyResolved (id : ApprovalId) (state : ApprovalState)
  | decisionIdentityMismatch (request decision : ApprovalId)
  | scopeExceedsRequest (id : ApprovalId) (effective requested : ApprovalScope)
  | expired (id : ApprovalId) (expiresAt : Instant)
  | scopeRequiresCapability (scope : ApprovalScope)
  | invalidIntegrationIdentity (reason : String)
  | uncanonicalizableInput (pointer reason : String)
  | inconsistentRecord (id : ApprovalId) (reason : String)
deriving DecidableEq

/-- Stable machine-readable discriminant for caller-facing error handling. -/
def ApprovalError.kind : ApprovalError → String
  | invalidTransition .. => "approval_invalid_transition"
  | alreadyResolved .. => "approval_already_resolved"
  | decisionIdentityMismatch .. => "approval_decision_identity_mismatch"
  | scopeExceedsRequest .. => "approval_scope_exceeds_request"
  | expired .. => "approval_expired"
  | scopeRequiresCapability .. => "approval_scope_requires_capability"
  | invalidIntegrationIdentity .. => "approval_invalid_integration_identity"
  | uncanonicalizableInput .. => "approval_uncanonicalizable_input"
  | inconsistentRecord .. => "approval_inconsistent_record"

/-- One durable question, persisted before any human is shown anything. -/
structure ApprovalRequest where
  id : ApprovalId
  pending : PendingApproval
  effectiveScope : ApprovalScope
  state : ApprovalState
  resolvedAt : Option Instant
  decision : Option ApprovalDecision
deriving DecidableEq

def validateIntegrationIdentity (capabilities : List Capability)
    (identity : IntegrationIdentity) : Except String Unit :=
  match capabilities.filterMap ExternalCapability.fromCapability with
  | [] =>
    if identity.isEmpty then .ok ()
    else .error "a local operation cannot carry external integration identity"
  | [capability] => capability.validateIdentityShape identity
  | _ => .error "an approval must describe exactly one external operation"

namespace ApprovalRequest

/-- Opens a pending request under a caller-chosen identity. -/
def openWithId (id : ApprovalId) (pending : PendingApproval) :
    Except ApprovalError ApprovalRequest :=
  let effectiveScope := pending.requestedScope.ceiling pending.risk
  if effectiveScope = .capabilityForRun ∧ pending.capabilities.isEmpty then
    .error (.scopeRequiresCapability .capabilityForRun)
  else match validateIntegrationIdentity pending.capabilities pending.integrationIdentity with
    | .error reason => .error (.invalidIntegrationIdentity reason)
    | .ok () => .ok
        { id, pending, effectiveScope, state := .pending, resolvedAt := none, decision := none }

/-- The rules a stored decision is checked against. -/
def checkStoredDecision (id : ApprovalId) (pending : PendingApproval)
    (effectiveScope : ApprovalScope) (state : ApprovalState) :
    Option ApprovalDecision → Except String Unit
  | none =>
    if state = .granted ∨ state = .denied then
      .error "a decided approval records the decision that resolved it"
    else .ok ()
  | some decision =>
    if ¬(state = .granted ∨ state = .denied) then
      .error "an approval nobody answered must record no decision"
    else if decision.approvalId ≠ id then
      .error "its decision answers a different approval"
    else if decision.verdict.state ≠ state then
      .error "its state disagrees with the verdict that produced it"
    else if pending.expiresAt.any fun at_ => at_ ≤ decision.decidedAt then
      .error "it was decided after the deadline for answering it"
    else if decision.verdict = .granted ∧ decision.scope ≠ some effectiveScope then
      .error "its effective scope is not the scope its decision authorized"
    else .ok ()

/-- Rebuilds a stored record, re-checking every rule a fresh one passes. -/
def fromStored (id : ApprovalId) (pending : PendingApproval) (effectiveScope : ApprovalScope)
    (state : ApprovalState) (resolvedAt : Option Instant) (decision : Option ApprovalDecision) :
    Except ApprovalError ApprovalRequest :=
  let refuse := fun reason : String => Except.error (.inconsistentRecord id reason)
  let ceiling := pending.requestedScope.ceiling pending.risk
  if effectiveScope ≠ ceiling ∧ effectiveScope ≠ .exactCall then
    refuse "its effective scope is broader than its requested scope and risk allow"
  else if effectiveScope = .capabilityForRun ∧ pending.capabilities.isEmpty then
    refuse "it is scoped to a capability but names none"
  else match validateIntegrationIdentity pending.capabilities pending.integrationIdentity with
    | .error reason => refuse reason
    | .ok () =>
      if state.isTerminal ≠ resolvedAt.isSome then
        refuse "a resolved approval records when it was resolved, and a pending one does not"
      else match checkStoredDecision id pending effectiveScope state decision with
        | .error reason => refuse reason
        | .ok () => .ok { id, pending, effectiveScope, state, resolvedAt, decision }

/-- At what breadths a decision on this request would be accepted, narrowest first. -/
def grantableScopes (self : ApprovalRequest) : List ApprovalScope :=
  if self.effectiveScope = .exactCall then [.exactCall]
  else [.exactCall, self.effectiveScope]

/-- Whether this request has passed a wall-clock expiry it was given. -/
def isExpired (self : ApprovalRequest) (at_ : Instant) : Bool :=
  self.pending.expiresAt.any fun expiry => expiry ≤ at_

/-- Records a human decision and the state change it produces. -/
def decide (self : ApprovalRequest) (decision : ApprovalDecision) :
    Except ApprovalError Unit × ApprovalRequest :=
  if self.state.isTerminal then (.error (.alreadyResolved self.id self.state), self)
  else if decision.approvalId ≠ self.id then
    (.error (.decisionIdentityMismatch self.id decision.approvalId), self)
  else if self.isExpired decision.decidedAt then
    (.error (.expired self.id (self.pending.expiresAt.getD decision.decidedAt)), self)
  else match decision.scope.filter fun scope =>
      scope ≠ self.effectiveScope ∧ scope ≠ .exactCall with
    | some scope => (.error (.scopeExceedsRequest self.id self.effectiveScope scope), self)
    | none =>
      (.ok (),
        { self with
          state := decision.verdict.state
          resolvedAt := some decision.decidedAt
          effectiveScope := decision.scope.getD self.effectiveScope
          decision := some decision })

/-- Resolves a pending request without an answer. -/
def resolve (self : ApprovalRequest) (target : ApprovalState) (at_ : Instant) :
    Except ApprovalError Unit × ApprovalRequest :=
  if (target = .granted ∨ target = .denied) ∨ (self.state, target) ∉ approvalTransitions then
    (.error (.invalidTransition self.id self.state target), self)
  else (.ok (), { self with state := target, resolvedAt := some at_ })

def expire (self : ApprovalRequest) (at_ : Instant) := self.resolve .expired at_
def cancel (self : ApprovalRequest) (at_ : Instant) := self.resolve .cancelled at_
def supersede (self : ApprovalRequest) (at_ : Instant) := self.resolve .superseded at_

end ApprovalRequest

end Harkness.Runtime.Approval
