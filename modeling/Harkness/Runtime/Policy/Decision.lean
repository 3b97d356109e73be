import Harkness.Runtime.Policy.External

/-! # Policy decisions and what makes one well formed

The inspectable result of an evaluation, the request it is about, and the check a decision passes
before a record may hold it. Verdicts are ordered so that taking the greater one combines layers
safely.
-/

namespace Harkness.Runtime.Policy

/-- Policy severity, ordered so `max` is the safe way to combine layers. -/
inductive PolicyVerdict where
  | allow
  | ask
  | deny
deriving DecidableEq, Repr

namespace PolicyVerdict

def rank : PolicyVerdict → ℕ
  | allow => 0
  | ask => 1
  | deny => 2

theorem rank_injective : Function.Injective rank := by
  intro a b same
  cases a <;> cases b <;> first | rfl | contradiction

instance : LinearOrder PolicyVerdict := LinearOrder.lift' rank rank_injective

def asStr : PolicyVerdict → String
  | allow => "allow"
  | ask => "ask"
  | deny => "deny"

theorem le_deny (verdict : PolicyVerdict) : verdict ≤ deny := by
  cases verdict <;> decide

theorem allow_le (verdict : PolicyVerdict) : allow ≤ verdict := by
  cases verdict <;> decide

end PolicyVerdict

/-- Layer responsible for the binding verdict. -/
inductive PolicySource where
  | builtIn
  | userPolicy
  | repositoryPolicy
  | runGrant
deriving DecidableEq, Repr

def PolicySource.asStr : PolicySource → String
  | builtIn => "built_in"
  | userPolicy => "user_policy"
  | repositoryPolicy => "repository_policy"
  | runGrant => "run_grant"

/-- Scope of a grant after the exact-request matcher has accepted it. -/
inductive RunGrantScope where
  | exactCall
  | toolForRun
  | capabilityForRun
deriving DecidableEq, Repr

/-- Narrow projection of a live grant already matched by the approval module. -/
structure RunGrant where
  scope : RunGrantScope
  integrationIdentity : IntegrationIdentity
deriving DecidableEq, Repr

/-- Concrete facts policy consumes after validation and boundary checking. -/
structure PolicyRequest where
  descriptor : ToolDescriptor
  classification : RequestClassification
  trust : TrustState
  mode : ExecutionMode
  grants : List RunGrant
  external : Option ExternalPolicyContext
deriving DecidableEq

namespace PolicyRequest

/-- Effective risk: the classification, floored at the declared risk and at the external
capability's own floor. -/
def risk (request : PolicyRequest) : RiskLevel :=
  let base := max request.classification.risk request.descriptor.risk
  match request.external with
  | none => base
  | some external => max base external.riskFloor

def forcePush (request : PolicyRequest) : ForcePush := request.classification.forcePush

/-- Attaches grants the approval module already matched to this candidate. -/
def withGrants (request : PolicyRequest) (grants : List RunGrant) : PolicyRequest :=
  { request with grants }

/-- The external identities observed for the request; none for a local one. -/
def observedIdentity (request : PolicyRequest) : IntegrationIdentity :=
  match request.external with
  | none => .none
  | some external => external.identity

theorem classified_le_risk (request : PolicyRequest) :
    request.classification.risk ≤ request.risk := by
  unfold risk
  split
  · exact le_max_left _ _
  · exact (le_max_left _ _).trans (le_max_left _ _)

/-- The external operations the descriptor declares. -/
def declaredExternal (request : PolicyRequest) : List ExternalCapability :=
  request.descriptor.capabilities.filterMap ExternalCapability.fromCapability

end PolicyRequest

/-- The Unicode white-space characters, which trimming removes. -/
def isWhiteSpace (character : Char) : Bool :=
  let point := character.toNat
  (0x9 ≤ point && point ≤ 0xD) || point == 0x20 || point == 0x85 || point == 0xA0
    || point == 0x1680 || (0x2000 ≤ point && point ≤ 0x200A) || point == 0x2028
    || point == 0x2029 || point == 0x202F || point == 0x205F || point == 0x3000

/-- Whether nothing remains of a text after trimming it. -/
def isBlank (text : String) : Bool := text.toList.all isWhiteSpace

theorem isBlank_append (left right : String) :
    isBlank (left ++ right) = (isBlank left && isBlank right) := by
  simp only [isBlank, String.toList_append, List.all_append]

/-- Complete inspectable result of one policy evaluation. -/
structure PolicyDecision where
  verdict : PolicyVerdict
  reason : String
  source : PolicySource
  oneCallOnly : Bool
  externalRequest : Option ExternalPolicyContext
  denialKind : Option String
deriving DecidableEq

namespace PolicyDecision

def new (verdict : PolicyVerdict) (reason : String) (source : PolicySource)
    (oneCallOnly : Bool) : PolicyDecision where
  verdict := verdict
  reason := reason
  source := source
  oneCallOnly := oneCallOnly
  externalRequest := none
  denialKind := none

def forRequest (decision : PolicyDecision) (request : PolicyRequest) : PolicyDecision :=
  { decision with externalRequest := request.external }

def deniedAs (decision : PolicyDecision) (kind : String) : PolicyDecision :=
  { decision with denialKind := some kind }

/-- The checks on a decision's external context and the denial kind it carries. -/
def validateExternal (decision : PolicyDecision) : Except String Unit :=
  match decision.externalRequest with
  | some external =>
    if external.schemaVersion ≠ externalPolicyContextSchemaVersion then
      .error "external policy context was written by a newer Harkness build"
    else match external.validateIdentityShape with
      | .error _ =>
        if decision.verdict = .deny ∧ decision.denialKind = external.invalidIdentityDenialKind then
          .ok ()
        else .error "external policy context carries missing or irrelevant identity evidence"
      | .ok () =>
        if decision.denialKind.any fun kind =>
            kind != external.capability.noninteractiveDenialKind
              && kind != externalIdentityContextInvalid then
          .error "external denial kind does not match the evaluated request"
        else .ok ()
  | none =>
    if decision.denialKind.isSome ∧ decision.denialKind ≠ some externalIdentityContextInvalid then
      .error "an external denial kind requires an external request context"
    else .ok ()

def validate (decision : PolicyDecision) : Except String Unit :=
  if isBlank decision.reason then .error "policy decisions require a non-empty reason"
  else if decision.oneCallOnly ∧ decision.verdict ≠ .ask then
    .error "only an approval request may be marked one-call-only"
  else if decision.source = .runGrant ∧ decision.verdict ≠ .allow then
    .error "a run grant may only produce an allow decision"
  else if decision.denialKind.isSome ∧ decision.verdict ≠ .deny then
    .error "only a denial may carry a denial kind"
  else if decision.denialKind.any fun kind => !externalPolicyDenialKinds.contains kind then
    .error "policy decision carries an unknown external denial kind"
  else decision.validateExternal

end PolicyDecision

end Harkness.Runtime.Policy
