import Harkness.Runtime.Policy.Classification
import Mathlib.Data.BitVec

/-! # External operations and the identity evidence they carry

Typed external capabilities lie over the open capability vocabulary. A context names the operation
being evaluated and the identities observed for it. Two classifications of a bad identity live
here: whether its shape is the operation's, and which denial kind describes what is wrong with it.
They agree on which identities are bad.
-/

namespace Harkness.Runtime

abbrev Sha256Hash := BitVec 256

/-- The external identities an authorization is bound to; absence is part of the identity. -/
structure IntegrationIdentity where
  agentExecutableSha256 : Option Sha256Hash := none
  mcpToolSchemaFingerprint : Option Sha256Hash := none
  recipeContentHash : Option Sha256Hash := none
deriving DecidableEq, Repr

namespace IntegrationIdentity

def none : IntegrationIdentity := {}

/-- Whether no external identity participates in this request. -/
def isEmpty (identity : IntegrationIdentity) : Bool :=
  identity.agentExecutableSha256.isNone && identity.mcpToolSchemaFingerprint.isNone
    && identity.recipeContentHash.isNone

theorem isEmpty_iff {identity : IntegrationIdentity} : identity.isEmpty = true ↔ identity = none := by
  obtain ⟨executable, schema, recipe⟩ := identity
  simp only [isEmpty, Bool.and_eq_true, Option.isNone_iff_eq_none, none,
    IntegrationIdentity.mk.injEq, and_assoc]

end IntegrationIdentity

/-- External-integration operations understood by the policy engine. -/
inductive ExternalCapability where
  | launchExternalAgent
  | connectMcpServer
  | invokeMcpTool
  | readForgeResource
  | pushRemoteBranch
  | createPullRequest
  | modifyForgeResource
  | executeWorkflowRecipe
deriving DecidableEq, Repr

namespace ExternalCapability

/-- Every external capability in stable declaration order. -/
def all : List ExternalCapability :=
  [launchExternalAgent, connectMcpServer, invokeMcpTool, readForgeResource, pushRemoteBranch,
    createPullRequest, modifyForgeResource, executeWorkflowRecipe]

def asStr : ExternalCapability → String
  | launchExternalAgent => "launch_external_agent"
  | connectMcpServer => "connect_mcp_server"
  | invokeMcpTool => "invoke_mcp_tool"
  | readForgeResource => "read_forge_resource"
  | pushRemoteBranch => "push_remote_branch"
  | createPullRequest => "create_pull_request"
  | modifyForgeResource => "modify_forge_resource"
  | executeWorkflowRecipe => "execute_workflow_recipe"

/-- Parses a canonical capability value; unknown capabilities are not errors. -/
def fromCapability (capability : Capability) : Option ExternalCapability :=
  all.find? fun kind => kind.asStr == capability.asStr

/-- The open-vocabulary capability a tool descriptor declares. -/
def capability (kind : ExternalCapability) : Capability := ⟨kind.asStr⟩

theorem mem_all (kind : ExternalCapability) : kind ∈ all := by
  cases kind <;> decide

theorem asStr_injective : Function.Injective asStr := by
  intro a b same
  cases a <;> cases b <;> first | rfl | (revert same; decide)

private theorem asStr_of_found {capability : Capability} {kind : ExternalCapability}
    (found : fromCapability capability = some kind) : kind.asStr = capability.asStr := by
  have named := List.find?_some found
  exact beq_iff_eq.mp named

theorem fromCapability_eq_some {capability : Capability} {kind : ExternalCapability} :
    fromCapability capability = some kind ↔ kind.asStr = capability.asStr := by
  constructor
  · exact asStr_of_found
  · intro same
    cases found : fromCapability capability with
    | none =>
      have absent := List.find?_eq_none.mp found kind kind.mem_all
      rw [same] at absent
      exact absurd (beq_self_eq_true _) absent
    | some other => rw [asStr_injective ((asStr_of_found found).trans same.symm)]

/-- Lowest risk at which this operation may be evaluated. -/
def riskFloor (kind : ExternalCapability) (classifiedRisk : RiskLevel) : RiskLevel :=
  match kind with
  | launchExternalAgent | connectMcpServer | invokeMcpTool => max classifiedRisk .execute
  | readForgeResource => max classifiedRisk .network
  | pushRemoteBranch | createPullRequest | modifyForgeResource => max classifiedRisk .remoteWrite
  | executeWorkflowRecipe => classifiedRisk

theorem le_riskFloor (kind : ExternalCapability) (classifiedRisk : RiskLevel) :
    classifiedRisk ≤ kind.riskFloor classifiedRisk := by
  cases kind <;> first | exact le_max_left _ _ | exact le_refl _

/-- Capability-specific refusal emitted when an approval cannot be answered. -/
def noninteractiveDenialKind : ExternalCapability → String
  | launchExternalAgent => "noninteractive_external_agent_launch_denied"
  | connectMcpServer => "noninteractive_mcp_server_connect_denied"
  | invokeMcpTool => "noninteractive_mcp_tool_invoke_denied"
  | readForgeResource => "noninteractive_forge_resource_read_denied"
  | pushRemoteBranch => "noninteractive_remote_branch_push_denied"
  | createPullRequest => "noninteractive_pull_request_create_denied"
  | modifyForgeResource => "noninteractive_forge_resource_modify_denied"
  | executeWorkflowRecipe => "noninteractive_workflow_recipe_execute_denied"

def validateIdentityShape (kind : ExternalCapability) (identity : IntegrationIdentity) :
    Except String Unit :=
  let executable := identity.agentExecutableSha256.isSome
  let schema := identity.mcpToolSchemaFingerprint.isSome
  let recipe := identity.recipeContentHash.isSome
  let validShape := match kind with
    | launchExternalAgent | connectMcpServer => executable && !schema && !recipe
    | invokeMcpTool => !executable && schema && !recipe
    | executeWorkflowRecipe => !executable && !schema && recipe
    | readForgeResource | pushRemoteBranch | createPullRequest | modifyForgeResource =>
      !executable && !schema && !recipe
  if validShape then .ok ()
  else .error "external operation carries missing or irrelevant identity evidence"

end ExternalCapability

/-- One permission option an ACP agent supplied with a permission request. -/
inductive AcpPermissionOption where
  | allowOnce
  | allowAlways
  | rejectOnce
  | rejectAlways
deriving DecidableEq, Repr

/-- Advisory MCP tool annotations; a server controls these values. -/
structure McpToolAnnotations where
  readOnlyHint : Option Bool := none
  destructiveHint : Option Bool := none
  idempotentHint : Option Bool := none
  openWorldHint : Option Bool := none
deriving DecidableEq, Repr

/-- External permission information retained as advisory audit context. -/
structure ExternalPermissionContext where
  acpOption : Option AcpPermissionOption := none
  mcpAnnotations : Option McpToolAnnotations := none
deriving DecidableEq, Repr

/-- Stable denial kinds produced when an external operation cannot be authorized. -/
def externalPolicyDenialKinds : List String :=
  ["noninteractive_external_agent_launch_denied", "noninteractive_mcp_server_connect_denied",
    "noninteractive_mcp_tool_invoke_denied", "noninteractive_forge_resource_read_denied",
    "noninteractive_remote_branch_push_denied", "noninteractive_pull_request_create_denied",
    "noninteractive_forge_resource_modify_denied", "noninteractive_workflow_recipe_execute_denied",
    "agent_executable_identity_required", "mcp_tool_schema_identity_required",
    "recipe_content_identity_required", "external_identity_context_invalid"]

/-- The denial kind of a call that does not declare exactly the operation its context names. -/
abbrev externalIdentityContextInvalid : String := "external_identity_context_invalid"

theorem noninteractiveDenialKind_mem (kind : ExternalCapability) :
    kind.noninteractiveDenialKind ∈ externalPolicyDenialKinds := by
  cases kind <;> repeat first | exact List.Mem.head _ | apply List.Mem.tail

def externalPolicyContextSchemaVersion : ℕ := 1

/-- External-integration facts attached to one policy evaluation. Every producer writes the
current schema version, and decoding refuses any other. -/
structure ExternalPolicyContext where
  schemaVersion : ℕ
  capability : ExternalCapability
  classifiedRisk : RiskLevel
  identity : IntegrationIdentity
  externalPermissionContext : Option ExternalPermissionContext
  current : schemaVersion = externalPolicyContextSchemaVersion
deriving DecidableEq

namespace ExternalPolicyContext

def fromParts (capability : ExternalCapability) (classifiedRisk : RiskLevel)
    (identity : IntegrationIdentity) : ExternalPolicyContext where
  schemaVersion := externalPolicyContextSchemaVersion
  capability := capability
  classifiedRisk := classifiedRisk
  identity := identity
  externalPermissionContext := none
  current := rfl

def fixed (capability : ExternalCapability) (identity : IntegrationIdentity) :
    ExternalPolicyContext :=
  let risk : RiskLevel := match capability with
    | .launchExternalAgent | .connectMcpServer | .invokeMcpTool => .execute
    | .readForgeResource => .network
    | .pushRemoteBranch | .createPullRequest | .modifyForgeResource => .remoteWrite
    | .executeWorkflowRecipe => .observe
  fromParts capability risk identity

/-- Starts an ACP-agent launch context from the executable observation. -/
def launchExternalAgent (executable : Option Sha256Hash) : ExternalPolicyContext :=
  fixed .launchExternalAgent { agentExecutableSha256 := executable }

def connectMcpServer (executable : Option Sha256Hash) : ExternalPolicyContext :=
  fixed .connectMcpServer { agentExecutableSha256 := executable }

def invokeMcpTool (classification : RequestClassification) (schema : Option Sha256Hash) :
    ExternalPolicyContext :=
  fromParts .invokeMcpTool classification.risk { mcpToolSchemaFingerprint := schema }

def readForgeResource : ExternalPolicyContext := fixed .readForgeResource .none
def pushRemoteBranch : ExternalPolicyContext := fixed .pushRemoteBranch .none
def createPullRequest : ExternalPolicyContext := fixed .createPullRequest .none
def modifyForgeResource : ExternalPolicyContext := fixed .modifyForgeResource .none

/-- The classification is the greatest risk of the compiled steps. -/
def executeWorkflowRecipe (stepRisks : List RiskLevel) (content : Option Sha256Hash) :
    ExternalPolicyContext :=
  fromParts .executeWorkflowRecipe (stepRisks.foldl max .observe) { recipeContentHash := content }

/-- Attaches untrusted external permission hints for audit and presentation. -/
def withPermissionContext (context : ExternalPolicyContext)
    (hints : ExternalPermissionContext) : ExternalPolicyContext :=
  { context with externalPermissionContext := some hints }

/-- Effective external risk after applying the fixed capability floor. -/
def riskFloor (context : ExternalPolicyContext) : RiskLevel :=
  context.capability.riskFloor context.classifiedRisk

/-- The context as classified, but not below a risk. -/
def flooredAt (context : ExternalPolicyContext) (risk : RiskLevel) : ExternalPolicyContext :=
  { context with classifiedRisk := max context.classifiedRisk risk }

/-- The capability's own floor may be taken before another or after it. -/
theorem riskFloor_flooredAt (context : ExternalPolicyContext) (risk : RiskLevel) :
    (context.flooredAt risk).riskFloor = max risk context.riskFloor := by
  obtain ⟨version, capability, classified, identity, hints, current⟩ := context
  simp only [flooredAt, riskFloor]
  cases capability <;> simp only [ExternalCapability.riskFloor] <;>
    first | exact max_comm _ _ | (rw [max_comm classified, max_assoc])

def validateDeclaration (context : ExternalPolicyContext) (declared : List Capability) :
    Except String Unit :=
  if declared.any fun capability => capability.asStr == context.capability.asStr then .ok ()
  else .error "external policy context names a capability the tool did not declare"

def validateIdentityShape (context : ExternalPolicyContext) : Except String Unit :=
  context.capability.validateIdentityShape context.identity

/-- Stable refusal for a required identity that is absent. -/
def identityDenialKind (context : ExternalPolicyContext) : Option String :=
  match context.capability with
  | .launchExternalAgent | .connectMcpServer =>
    if context.identity.agentExecutableSha256.isNone then
      some "agent_executable_identity_required" else none
  | .invokeMcpTool =>
    if context.identity.mcpToolSchemaFingerprint.isNone then
      some "mcp_tool_schema_identity_required" else none
  | .executeWorkflowRecipe =>
    if context.identity.recipeContentHash.isNone then
      some "recipe_content_identity_required" else none
  | _ => none

/-- Stable denial kind for the context's exact invalid identity shape. -/
def invalidIdentityDenialKind (context : ExternalPolicyContext) : Option String :=
  let executable := context.identity.agentExecutableSha256.isSome
  let schema := context.identity.mcpToolSchemaFingerprint.isSome
  let recipe := context.identity.recipeContentHash.isSome
  let hasIrrelevantIdentity := match context.capability with
    | .launchExternalAgent | .connectMcpServer => schema || recipe
    | .invokeMcpTool => executable || recipe
    | .executeWorkflowRecipe => executable || schema
    | .readForgeResource | .pushRemoteBranch | .createPullRequest | .modifyForgeResource =>
      executable || schema || recipe
  if hasIrrelevantIdentity then some externalIdentityContextInvalid
  else context.identityDenialKind

/-- The two classifications of an identity agree on which ones are bad. -/
theorem invalidIdentityDenialKind_eq_none (context : ExternalPolicyContext) :
    context.invalidIdentityDenialKind = none ↔ context.validateIdentityShape = .ok () := by
  obtain ⟨_, capability, _, ⟨executable, schema, recipe⟩, _, _⟩ := context
  cases capability <;> cases executable <;> cases schema <;> cases recipe <;>
    simp [invalidIdentityDenialKind, identityDenialKind, validateIdentityShape,
      ExternalCapability.validateIdentityShape]

private theorem identityDenialKind_mem {context : ExternalPolicyContext} {kind : String}
    (denied : context.identityDenialKind = some kind) : kind ∈ externalPolicyDenialKinds := by
  unfold identityDenialKind at denied
  split at denied
  all_goals
    first
    | contradiction
    | split_ifs at denied
      obtain rfl := Option.some.inj denied
      decide

/-- A denial kind the identity classification yields is one of the stable table. -/
theorem invalidIdentityDenialKind_mem {context : ExternalPolicyContext} {kind : String}
    (denied : context.invalidIdentityDenialKind = some kind) :
    kind ∈ externalPolicyDenialKinds := by
  unfold invalidIdentityDenialKind at denied
  dsimp only at denied
  split_ifs at denied with irrelevant
  · obtain rfl := Option.some.inj denied
    decide
  · exact identityDenialKind_mem denied

theorem validateDeclaration_eq_ok {context : ExternalPolicyContext} {declared : List Capability} :
    context.validateDeclaration declared = .ok () ↔
      context.capability ∈ declared.filterMap ExternalCapability.fromCapability := by
  rw [List.mem_filterMap]
  simp only [validateDeclaration, ExternalCapability.fromCapability_eq_some]
  split_ifs with named
  · obtain ⟨capability, member, same⟩ := List.any_eq_true.mp named
    exact iff_of_true rfl ⟨capability, member, (beq_iff_eq.mp same).symm⟩
  · refine iff_of_false (by intro same; cases same) ?_
    rintro ⟨capability, member, same⟩
    exact named (List.any_eq_true.mpr ⟨capability, member, beq_iff_eq.mpr same.symm⟩)

end ExternalPolicyContext

end Harkness.Runtime
