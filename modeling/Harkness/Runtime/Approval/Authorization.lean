import Harkness.Runtime.Approval.Matcher
import Harkness.Runtime.Policy.Layers

/-! # What stands behind an allow

Policy sees only that the matcher accepted a grant and at what breadth. Composed with the matcher,
an allow above plain observation traces back to a stored request a human granted, for the same run
and workspace, whose effective scope reaches the call; at the two risks that are asked call by call
it is a grant of that exact call.
-/

namespace Harkness.Runtime.Approval

open Policy

/-- The same recorded call, tool and version, and canonical input. -/
def ApprovalRequest.Exact (request : ApprovalRequest) (candidate : CandidateCall) : Prop :=
  request.pending.toolCallId = candidate.toolCallId ∧ request.pending.tool = candidate.tool ∧
    request.pending.inputHash = candidate.inputHash

/-- The request with the grants the matcher hands over, out of what is stored, for a candidate. -/
def consider (request : PolicyRequest) (requests : List ApprovalRequest)
    (candidate : CandidateCall) : PolicyRequest :=
  request.withGrants (matchingGrants (requests.filterMap ApprovalRequest.grant) candidate)

/-- A grant that can answer a request is for the identity observed, and exact where the risk
demands it. -/
theorem answers_iff {request : PolicyRequest} {grant : RunGrant} :
    answers request grant = true ↔ (exactOnly request.risk = true → grant.scope = .exactCall) ∧
      grant.integrationIdentity = request.observedIdentity := by
  unfold answers PolicyRequest.observedIdentity
  rw [Bool.and_eq_true]
  refine and_congr ?_ ?_
  · cases exactOnly request.risk <;>
      simp only [Bool.not_false, Bool.not_true, Bool.true_or, Bool.false_or, beq_iff_eq,
        Bool.false_eq_true, false_imp_iff, true_imp_iff]
  · cases request.external with
    | none => exact IntegrationIdentity.isEmpty_iff
    | some external => exact beq_iff_eq

theorem exactOnly_iff {risk : RiskLevel} :
    exactOnly risk = true ↔ risk = .remoteWrite ∨ risk = .destructive := by
  simp only [exactOnly, Bool.or_eq_true, beq_iff_eq]

/-- An exact-call projection comes from an exact-call scope only. -/
theorem policyScope_eq_exactCall {scope : ApprovalScope} :
    ApprovalGrant.policyScope scope = .exactCall ↔ scope = .exactCall := by
  cases scope <;> decide

/-- With the grants the matcher hands over, an allow above plain observation rests on a stored
request that covers the call; and no grants whatever turn a forced push, a matching deny rule or an
untrusted workspace above plain observation into anything but a deny. -/
theorem evaluate_authorized (engine : PolicyEngine) (request : PolicyRequest)
    (requests : List ApprovalRequest) (candidate : CandidateCall) :
    ((engine.evaluate (consider request requests candidate)).verdict = .allow →
        request.risk ≠ .observe →
        (engine.evaluate (consider request requests candidate)).source = .runGrant ∧
          ∃ stored ∈ requests, stored.Covers candidate ∧
            stored.pending.integrationIdentity = request.observedIdentity ∧
            (request.risk = .remoteWrite ∨ request.risk = .destructive →
              stored.effectiveScope = .exactCall ∧ stored.Exact candidate)) ∧
      ∀ grants : List RunGrant,
        (request.forcePush.isForcing = true ∨ DeniedByRule engine request ∨
          (request.trust = .untrusted ∧ request.risk ≠ .observe)) →
        (engine.evaluate (request.withGrants grants)).verdict = .deny := by
  refine ⟨?_, ?_⟩
  · intro allowed above
    obtain ⟨source, grant, member, answer⟩ := evaluate_allow allowed above
    obtain ⟨stored, listed, covers, rfl⟩ := mem_matchingGrants_requests.mp member
    obtain ⟨exact_, identity⟩ := answers_iff.mp answer
    refine ⟨source, stored, listed, covers, identity, fun remote => ?_⟩
    have scope := policyScope_eq_exactCall.mp (exact_ (exactOnly_iff.mpr remote))
    have within := covers.scope
    rw [scope] at within
    exact ⟨scope, within⟩
  · rintro grants (forcing | denied | ⟨untrusted, above⟩)
    · exact evaluate_forced forcing
    · exact evaluate_deniedByRule denied
    · exact evaluate_untrusted untrusted above

/-- A recorded call of one tool in one workspace, with the approval asked for it. -/
def samplePending (tool : String) (risk : RiskLevel) : PendingApproval where
  runId := 1
  toolCallId := 2
  tool := ⟨tool, "1.0.0"⟩
  capabilities := []
  integrationIdentity := .none
  inputHash := 5
  inputSummary := tool
  workspace := ⟨some 3, ["work"]⟩
  risk := risk
  requestedScope := .toolForRun
  expiresAt := none
  createdAt := 0

def sampleGranted (tool : String) (risk : RiskLevel) : ApprovalRequest where
  id := 7
  pending := samplePending tool risk
  effectiveScope := .exactCall
  state := .granted
  resolvedAt := some 1
  decision := some (.grant 7 .exactCall .cli 1)

def sampleCall (tool : String) : CandidateCall where
  runId := 1
  toolCallId := 2
  workspace := ⟨some 3, ["work"]⟩
  tool := ⟨tool, "1.0.0"⟩
  capabilities := []
  integrationIdentity := .none
  inputHash := 5

def sampleRequest (tool : String) (risk : RiskLevel) (trust : TrustState) : PolicyRequest where
  descriptor := ⟨⟨tool, "1.0.0"⟩, risk, [], false⟩
  classification := classifyRequest ⟨⟨tool, "1.0.0"⟩, risk, [], false⟩ [] {}
  trust := trust
  mode := .interactive
  grants := []
  external := none

/-- A remote write is allowed by the grant of that exact call. -/
theorem evaluate_authorized_sample :
    ∃ stored ∈ [sampleGranted "git.publish" .remoteWrite],
      stored.Covers (sampleCall "git.publish") ∧ stored.Exact (sampleCall "git.publish") := by
  have authorized := (evaluate_authorized ⟨.loaded .empty, .loaded none⟩
    (sampleRequest "git.publish" .remoteWrite .trusted) [sampleGranted "git.publish" .remoteWrite]
    (sampleCall "git.publish")).1 (by decide) (by decide)
  obtain ⟨-, stored, listed, covers, -, exact_⟩ := authorized
  exact ⟨stored, listed, covers, (exact_ (by decide)).2⟩

/-- Observing an untrusted workspace is asked about, and a human's grant of that call allows it. -/
theorem untrusted_observation_allowed :
    (ApprovalRequest.openWithId 7 (samplePending "fs.read" .observe)).map
        (fun opened => (opened.decide (.grant 7 .exactCall .cli 1)).2) =
      .ok (sampleGranted "fs.read" .observe) ∧
    (sampleRequest "fs.read" .observe .untrusted).trust = .untrusted ∧
    (PolicyEngine.evaluate ⟨.loaded .empty, .loaded none⟩
      (consider (sampleRequest "fs.read" .observe .untrusted)
        [sampleGranted "fs.read" .observe] (sampleCall "fs.read"))).verdict = .allow := by
  decide

end Harkness.Runtime.Approval
