import Harkness.Runtime.Approval.Record
import Harkness.Runtime.Policy.Decision

/-! # Binding a live grant to the exact request it was given for

A grant is projected from a granted request and from nothing else. Matching compares the run and
the workspace whatever the scope, then the axes that give the scope its meaning, then the external
identity as a whole. `Covers` states what a match means, and a match is exactly that.
-/

namespace Harkness.Runtime.Approval

open Policy

/-- A granted approval, in the shape the matcher compares against. -/
structure ApprovalGrant where
  approvalId : ApprovalId
  runId : RunId
  toolCallId : ToolCallId
  workspace : WorkspaceBinding
  tool : ToolIdentity
  capabilities : List Capability
  integrationIdentity : IntegrationIdentity
  inputHash : InputHash
  scope : ApprovalScope
deriving DecidableEq

/-- One identity component that changed after an approval was granted. -/
inductive IntegrationIdentityField where
  | agentExecutableSha256
  | mcpToolSchemaFingerprint
  | recipeContentHash
deriving DecidableEq, Repr

/-- Observable identity drift for an otherwise applicable approval grant. -/
structure IntegrationIdentityDrift where
  approvalId : ApprovalId
  changedFields : List IntegrationIdentityField
deriving DecidableEq

def IntegrationIdentityDrift.between (approvalId : ApprovalId)
    (approved observed : IntegrationIdentity) : IntegrationIdentityDrift where
  approvalId := approvalId
  changedFields :=
    (if approved.agentExecutableSha256 ≠ observed.agentExecutableSha256 then
      [.agentExecutableSha256] else []) ++
    (if approved.mcpToolSchemaFingerprint ≠ observed.mcpToolSchemaFingerprint then
      [.mcpToolSchemaFingerprint] else []) ++
    (if approved.recipeContentHash ≠ observed.recipeContentHash then
      [.recipeContentHash] else [])

/-- Result of matching one grant to one candidate call. -/
inductive GrantMatch where
  | matched (grant : RunGrant)
  | identityDrift (drift : IntegrationIdentityDrift)
  | notApplicable
deriving DecidableEq

/-- Complete result of matching a run's grants to one candidate. -/
structure GrantMatches where
  grants : List RunGrant
  identityDrifts : List IntegrationIdentityDrift
deriving DecidableEq

/-- The call being evaluated, in the shape the matcher compares against. -/
structure CandidateCall where
  runId : RunId
  toolCallId : ToolCallId
  workspace : WorkspaceBinding
  tool : ToolIdentity
  capabilities : List Capability
  integrationIdentity : IntegrationIdentity
  inputHash : InputHash
deriving DecidableEq

namespace ApprovalGrant

/-- Projects a granted request, and nothing else, into a grant. -/
def of (request : ApprovalRequest) : Option ApprovalGrant :=
  if request.state = .granted then
    some
      { approvalId := request.id
        runId := request.pending.runId
        toolCallId := request.pending.toolCallId
        workspace := request.pending.workspace
        tool := request.pending.tool
        capabilities := request.pending.capabilities
        integrationIdentity := request.pending.integrationIdentity
        inputHash := request.pending.inputHash
        scope := request.effectiveScope }
  else none

def scopeAppliesExceptIdentity (grant : ApprovalGrant) (candidate : CandidateCall) : Bool :=
  grant.runId == candidate.runId && grant.workspace == candidate.workspace &&
    match grant.scope with
    | .exactCall =>
      grant.toolCallId == candidate.toolCallId && grant.tool == candidate.tool &&
        grant.inputHash == candidate.inputHash
    | .toolForRun => grant.tool == candidate.tool
    | .capabilityForRun =>
      !candidate.capabilities.isEmpty &&
        candidate.capabilities.all fun required => grant.capabilities.contains required

/-- Narrows a durable scope to the projection policy consumes. -/
def policyScope : ApprovalScope → RunGrantScope
  | .exactCall => .exactCall
  | .toolForRun => .toolForRun
  | .capabilityForRun => .capabilityForRun

/-- Explains whether this grant matches, including identity drift. -/
def matchCandidate (self : ApprovalGrant) (candidate : CandidateCall) : GrantMatch :=
  if ¬self.scopeAppliesExceptIdentity candidate then .notApplicable
  else if self.integrationIdentity ≠ candidate.integrationIdentity then
    .identityDrift
      (.between self.approvalId self.integrationIdentity candidate.integrationIdentity)
  else .matched ⟨policyScope self.scope, self.integrationIdentity⟩

/-- Projects this grant into policy, if and only if it covers the candidate. -/
def matching (self : ApprovalGrant) (candidate : CandidateCall) : Option RunGrant :=
  match self.matchCandidate candidate with
  | .matched grant => some grant
  | .identityDrift _ | .notApplicable => none

end ApprovalGrant

/-- Whether the grant authorizes the candidate. -/
def grantApplies (grant : ApprovalGrant) (candidate : CandidateCall) : Bool :=
  match grant.matchCandidate candidate with
  | .matched _ => true
  | .identityDrift _ | .notApplicable => false

/-- One grant's contribution to the matches collected so far. -/
def GrantMatches.add (matches_ : GrantMatches) (grant : ApprovalGrant) (candidate : CandidateCall) :
    GrantMatches :=
  match grant.matchCandidate candidate with
  | .matched matched => { matches_ with grants := matches_.grants ++ [matched] }
  | .identityDrift drift =>
    { matches_ with identityDrifts := matches_.identityDrifts ++ [drift] }
  | .notApplicable => matches_

/-- Every applicable grant and every identity drift observed for the candidate. -/
def matchingGrantsDetailed (grants : List ApprovalGrant) (candidate : CandidateCall) :
    GrantMatches :=
  grants.foldl (fun matches_ grant => matches_.add grant candidate) ⟨[], []⟩

/-- Every applicable grant for the candidate. -/
def matchingGrants (grants : List ApprovalGrant) (candidate : CandidateCall) : List RunGrant :=
  (matchingGrantsDetailed grants candidate).grants

namespace ApprovalRequest

/-- The grant this request became, if it became one. -/
def grant (self : ApprovalRequest) : Option ApprovalGrant := ApprovalGrant.of self

/-- What a scope asks of a call beyond its run, its workspace and its external identity. -/
def WithinScope (self : ApprovalRequest) (candidate : CandidateCall) : ApprovalScope → Prop
  | .exactCall =>
    self.pending.toolCallId = candidate.toolCallId ∧ self.pending.tool = candidate.tool ∧
      self.pending.inputHash = candidate.inputHash
  | .toolForRun => self.pending.tool = candidate.tool
  | .capabilityForRun =>
    candidate.capabilities ≠ [] ∧
      ∀ required ∈ candidate.capabilities, required ∈ self.pending.capabilities

/-- A human granted this request, and its effective scope reaches the candidate: the same run, the
same workspace, the same external identity, and every axis the scope names. -/
structure Covers (request : ApprovalRequest) (candidate : CandidateCall) : Prop where
  granted : request.state = .granted
  run : request.pending.runId = candidate.runId
  workspace : request.pending.workspace = candidate.workspace
  identity : request.pending.integrationIdentity = candidate.integrationIdentity
  scope : request.WithinScope candidate request.effectiveScope

end ApprovalRequest

namespace ApprovalGrant

theorem of_eq_some {request : ApprovalRequest} {grant : ApprovalGrant}
    (projected : of request = some grant) : request.state = .granted ∧
      grant.scope = request.effectiveScope ∧
      grant.integrationIdentity = request.pending.integrationIdentity ∧
      ∀ candidate, grant.scopeAppliesExceptIdentity candidate = true ↔
        request.pending.runId = candidate.runId ∧
          request.pending.workspace = candidate.workspace ∧
          request.WithinScope candidate request.effectiveScope := by
  unfold of at projected
  split_ifs at projected with granted
  obtain rfl := Option.some.inj projected
  refine ⟨granted, rfl, rfl, fun candidate => ?_⟩
  simp only [scopeAppliesExceptIdentity, Bool.and_eq_true, beq_iff_eq, and_assoc,
    ApprovalRequest.WithinScope]
  cases request.effectiveScope with
  | exactCall => simp only [Bool.and_eq_true, beq_iff_eq, and_assoc]
  | toolForRun => simp only [beq_iff_eq]
  | capabilityForRun =>
    simp only [Bool.and_eq_true, Bool.not_eq_true', List.isEmpty_eq_false_iff, List.all_eq_true,
      List.contains_iff_mem]

theorem matchCandidate_eq_matched {self : ApprovalGrant} {candidate : CandidateCall}
    {grant : RunGrant} : self.matchCandidate candidate = .matched grant ↔
      self.scopeAppliesExceptIdentity candidate = true ∧
        self.integrationIdentity = candidate.integrationIdentity ∧
        grant = ⟨policyScope self.scope, self.integrationIdentity⟩ := by
  unfold matchCandidate
  split_ifs with applies differs
  · exact iff_of_false id fun ⟨_, same, _⟩ => differs same
  · rw [GrantMatch.matched.injEq]
    exact ⟨fun shape => ⟨applies, not_not.mp differs, shape.symm⟩, fun ⟨_, _, shape⟩ => shape.symm⟩
  · exact iff_of_false id fun ⟨here, _⟩ => applies here

end ApprovalGrant

private theorem mem_foldl_add {grants : List ApprovalGrant} {candidate : CandidateCall}
    {found : GrantMatches} {grant : RunGrant} :
    grant ∈ (grants.foldl (fun matches_ next => matches_.add next candidate) found).grants ↔
      grant ∈ found.grants ∨
        ∃ source ∈ grants, source.matchCandidate candidate = .matched grant := by
  induction grants generalizing found with
  | nil => simp only [List.foldl_nil, List.not_mem_nil, false_and, exists_false, or_false]
  | cons source rest ih =>
    rw [List.foldl_cons, ih]
    simp only [List.mem_cons, exists_eq_or_imp, GrantMatches.add]
    cases outcome : source.matchCandidate candidate with
    | matched other =>
      simp only [List.mem_append, List.mem_singleton, GrantMatch.matched.injEq, or_assoc,
        eq_comm (a := other)]
    | identityDrift drift => simp only [reduceCtorEq, false_or]
    | notApplicable => simp only [reduceCtorEq, false_or]

/-- What policy is handed is exactly what some grant matched to. -/
theorem mem_matchingGrants {grants : List ApprovalGrant} {candidate : CandidateCall}
    {grant : RunGrant} : grant ∈ matchingGrants grants candidate ↔
      ∃ source ∈ grants, source.matchCandidate candidate = .matched grant := by
  unfold matchingGrants matchingGrantsDetailed
  rw [mem_foldl_add]
  simp only [List.not_mem_nil, false_or]

/-- The grants policy is handed for a candidate come from the requests that cover it, each with
its effective scope and its identity. -/
theorem mem_matchingGrants_requests {requests : List ApprovalRequest} {candidate : CandidateCall}
    {grant : RunGrant} :
    grant ∈ matchingGrants (requests.filterMap ApprovalRequest.grant) candidate ↔
      ∃ request ∈ requests, request.Covers candidate ∧
        grant = ⟨ApprovalGrant.policyScope request.effectiveScope,
          request.pending.integrationIdentity⟩ := by
  rw [mem_matchingGrants]
  constructor
  · rintro ⟨source, member, outcome⟩
    obtain ⟨request, stored, projected⟩ := List.mem_filterMap.mp member
    obtain ⟨granted, scope, identity, applies⟩ := ApprovalGrant.of_eq_some projected
    obtain ⟨here, same, shape⟩ := ApprovalGrant.matchCandidate_eq_matched.mp outcome
    obtain ⟨run, workspace, within⟩ := (applies candidate).mp here
    rw [scope, identity] at shape
    exact ⟨request, stored, ⟨granted, run, workspace, identity.symm.trans same, within⟩, shape⟩
  · rintro ⟨request, stored, covers, rfl⟩
    obtain ⟨source, projected⟩ : ∃ source, ApprovalGrant.of request = some source :=
      ⟨_, if_pos covers.granted⟩
    obtain ⟨_, scope, identity, applies⟩ := ApprovalGrant.of_eq_some projected
    refine ⟨source, List.mem_filterMap.mpr ⟨request, stored, projected⟩, ?_⟩
    rw [ApprovalGrant.matchCandidate_eq_matched]
    refine ⟨(applies candidate).mpr ⟨covers.run, covers.workspace, covers.scope⟩,
      identity.trans covers.identity, ?_⟩
    rw [scope, identity]

end Harkness.Runtime.Approval
