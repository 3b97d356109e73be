import Harkness.Runtime.Domain.Operations
import Harkness.Runtime.Domain.Wire

/-! # Recording the decisions of the policy engine

A decision is valid where the external facts it rests on are classified one way. A valid decision is recorded
on every pending call, with the move it leads to, and passes the check that is made when the call is loaded.
-/

namespace Harkness.Runtime.Domain

open Policy Record

namespace Record.ToolCall

variable {ν : Type}

/-- A call that is still as it was made, which loading checks as well: a pending one has made no move and holds
no approval. -/
structure Fresh (call : ToolCall ν) : Prop where
  pending : call.lifecycle.state = .pending
  unmoved : call.lifecycle.revision = 0
  unapproved : call.approvals = []
  undecided : call.policyDecision = none

/-- A fresh call can follow every edge. -/
theorem Fresh.follows {call : ToolCall ν} (fresh : call.Fresh) {target : ToolCallState}
    (edge : (.pending, target) ∈ ToolCallState.transitions) : call.lifecycle.Follows target := by
  constructor
  · rw [fresh.pending]
    exact edge
  · rw [fresh.unmoved]
    decide

/-- A valid decision is applied to a fresh call with the move that it leads to. -/
theorem Fresh.applyPolicyDecision {call next : ToolCall ν} (fresh : call.Fresh) {decision : PolicyDecision}
    (valid : decision.validate = .ok ()) {at_ : Instant}
    (moved : ToolCall.consequence decision at_ call = (.ok (), next)) :
    ToolCall.applyPolicyDecision decision at_ call =
      (.ok (), { next with policyDecision := some decision }) := by
  simp only [ToolCall.applyPolicyDecision, Mutation.bind_eq_ok, require_eq_ok, Mutation.check_eq_ok,
    decide_eq_true_eq, Option.isNone_iff_eq_none, Except.mapError_eq_ok, Mutation.update_eq_ok]
  exact ⟨(), call, ⟨fresh.pending, rfl⟩, (), call, ⟨fresh.undecided, rfl⟩, (), call, ⟨valid, rfl⟩, (), next,
    moved, rfl⟩

/-- A call that a valid decision was applied to loads with it. -/
theorem Fresh.recordable {call : ToolCall ν} (fresh : call.Fresh) {decision : PolicyDecision}
    (valid : decision.validate = .ok ()) (at_ : Instant) :
    ∃ recorded, ToolCall.applyPolicyDecision decision at_ call = (.ok (), recorded) ∧
      recorded.policyDecision = some decision ∧
      validatePolicyDecision recorded.lifecycle.state recorded.failure recorded.approvals
        recorded.policyDecision = .ok () := by
  have checked : ∀ (state : ToolCallState) (failure : Option Failure) (approvals : List Approval), _ →
      validatePolicyDecision state failure approvals (some decision) = .ok () :=
    fun state failure approvals consistent => Except.bind_eq_ok.mpr
      ⟨(), Except.mapError_eq_ok.mpr valid, refuseWhen_eq_ok.mpr consistent⟩
  cases verdict : decision.verdict with
  | allow =>
    have moved : ToolCall.consequence decision at_ call = (.ok (), call) := by
      rw [consequence, verdict]
      rfl
    refine ⟨_, fresh.applyPolicyDecision valid moved, rfl, checked _ _ _ ?_⟩
    simp [verdict, fresh.pending]
  | ask =>
    have moved : ToolCall.consequence decision at_ call = (.ok (), call.moved .awaitingApproval at_) := by
      rw [consequence, verdict]
      exact follow_eq_ok.mpr ⟨fresh.follows (by decide), rfl⟩
    refine ⟨_, fresh.applyPolicyDecision valid moved, rfl, checked _ _ _ ?_⟩
    simp [verdict, ToolCall.moved, Lifecycle.moved]
  | deny =>
    have moved : ToolCall.consequence decision at_ call = (.ok (), { call.moved .denied at_ with
        failure := some ⟨"policy", decision.reason⟩ }) := by
      rw [consequence, verdict]
      exact Mutation.bind_eq_ok.mpr ⟨(), _, follow_eq_ok.mpr ⟨fresh.follows (by decide), rfl⟩, rfl⟩
    refine ⟨_, fresh.applyPolicyDecision valid moved, rfl, checked _ _ _ ?_⟩
    simp [verdict, ToolCall.moved, Lifecycle.moved, fresh.unapproved]

end Record.ToolCall

/-- A decision of the evaluator passes validation, is applied to any pending undecided call and loads back with
it, exactly when the two classifications of the external facts agree. -/
theorem evaluate_recordable_iff {ν : Type} (engine : PolicyEngine) (request : PolicyRequest) :
    ((engine.evaluate request).validate = .ok () ∧
      ∀ (call : ToolCall ν) (at_ : Instant), call.Fresh →
        ∃ recorded, ToolCall.applyPolicyDecision (engine.evaluate request) at_ call = (.ok (), recorded) ∧
          recorded.policyDecision = some (engine.evaluate request) ∧
          validatePolicyDecision recorded.lifecycle.state recorded.failure recorded.approvals
            recorded.policyDecision = .ok ()) ↔
      ClassificationsAgree request := by
  rw [← evaluate_validate_iff engine request]
  exact ⟨And.left, fun valid => ⟨valid, fun _ at_ fresh => fresh.recordable valid at_⟩⟩

/-- A tool that declares two external operations, called without the schema one of them needs. -/
def twoOperations : PolicyRequest where
  descriptor := ⟨⟨"mcp.search", "1.0.0"⟩, .execute,
    [ExternalCapability.connectMcpServer.capability, ExternalCapability.invokeMcpTool.capability],
    false⟩
  classification := ⟨.execute, .none, by decide⟩
  trust := .trusted
  mode := .interactive
  grants := []
  external := some (.invokeMcpTool ⟨.execute, .none, by decide⟩ none)

/-- Its refusal fails validation, so no pending record can take it and the call stays pending. -/
theorem twoOperations_wedged :
    let engine : PolicyEngine := ⟨.loaded .empty, .loaded none⟩
    let call : ToolCall Empty := .withId 0 (.withId 0 0 0 "search" 0) "mcp.search" "1.0.0" .null 0
    (engine.evaluate twoOperations).verdict = .deny ∧
      (engine.evaluate twoOperations).validate ≠ .ok () ∧
      (ToolCall.applyPolicyDecision (engine.evaluate twoOperations) 1 call).1 =
        .error (.invalidLifecycle "tool_call"
          "external policy context carries missing or irrelevant identity evidence") ∧
      (ToolCall.applyPolicyDecision (engine.evaluate twoOperations) 1 call).2.lifecycle.state = .pending := by
  decide

end Harkness.Runtime.Domain
