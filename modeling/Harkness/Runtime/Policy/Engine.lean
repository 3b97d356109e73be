import Harkness.Runtime.Policy.Decision

/-! # Layered policy evaluation

Declaration and identity checks, the force-push refusal, load failures, the built-in table, the two
rule files, grants, and the noninteractive rule, in the order the evaluator runs them. Evaluation
reads no clock and no file: what could not be loaded is a value that denies.
-/

namespace Harkness.Runtime.Policy

/-- Versioned policy rules shared by global and repository files; each map as its entries. -/
structure PolicyFile where
  version : ℕ
  risks : List (RiskLevel × PolicyVerdict)
  tools : List (String × PolicyVerdict)
  externalCapabilities : List (ExternalCapability × PolicyVerdict)
deriving DecidableEq, Repr

def policySchemaVersion : ℕ := 2

namespace PolicyFile

def empty : PolicyFile := ⟨policySchemaVersion, [], [], []⟩

/-- The last of the entries whose verdict no other exceeds. -/
def maxByVerdict : List (PolicyVerdict × String) → Option (PolicyVerdict × String)
  | [] => none
  | first :: rest =>
    some (rest.foldl (fun best next => if best.1 ≤ next.1 then next else best) first)

/-- The rules of this file that match the request, each with the selector it names. -/
def matching (file : PolicyFile) (request : PolicyRequest) : List (PolicyVerdict × String) :=
  let tool := (file.tools.lookup request.descriptor.id).map fun verdict =>
    (verdict, "tool " ++ request.descriptor.id)
  let risk := (file.risks.lookup request.risk).map fun verdict =>
    (verdict, "risk " ++ request.risk.asStr)
  let external := request.external.bind fun context =>
    (file.externalCapabilities.lookup context.capability).map fun verdict =>
      (verdict, "external capability " ++ context.capability.asStr)
  [tool, risk, external].filterMap id

/-- The strictest rule in this file that matches the request. -/
def selected (file : PolicyFile) (request : PolicyRequest) : Option (PolicyVerdict × String) :=
  maxByVerdict (file.matching request)

end PolicyFile

/-- Typed failure while loading a policy file. -/
inductive PolicyLoadError where
  | unreadable (path reason : String)
  | malformed (path reason : String)
  | versionTooNew (path : String) (found maximum : ℕ)
deriving DecidableEq, Repr

def PolicyLoadError.display : PolicyLoadError → String
  | unreadable path reason => "policy file " ++ path ++ " is unreadable: " ++ reason
  | malformed path reason => "policy file " ++ path ++ " is malformed: " ++ reason
  | versionTooNew path found maximum =>
    "policy file " ++ path ++ " uses version " ++ toString found
      ++ ", newer than supported version " ++ toString maximum ++ "; upgrade Harkness"

/-- A layer as it stood when the run began: its rules, or why they could not be read. -/
inductive LoadedPolicy (α : Type) where
  | loaded (policy : α)
  | failed (error : PolicyLoadError)
deriving DecidableEq, Repr

/-- Policy layers loaded once at the edge of a run. -/
structure PolicyEngine where
  user : LoadedPolicy PolicyFile
  repository : LoadedPolicy (Option PolicyFile)
deriving DecidableEq, Repr

/-- The verdict the layers have produced so far, the layer that bound it, and why. -/
structure Standing where
  verdict : PolicyVerdict
  source : PolicySource
  reason : String
deriving DecidableEq, Repr

def riskLabel : RiskLevel → String
  | .observe => "observation"
  | .workspaceWrite => "workspace write"
  | .execute => "execution"
  | .network => "network access"
  | .remoteWrite => "remote write"
  | .destructive => "destructive work"

def builtIn (request : PolicyRequest) : Standing :=
  match request.trust, request.risk with
  | .trusted, .observe =>
    ⟨.allow, .builtIn, request.risk.asStr ++ " is allowed by the trusted-workspace default"⟩
  | .trusted, _ =>
    ⟨.ask, .builtIn, riskLabel request.risk ++ " requires approval (built-in default for "
      ++ request.risk.asStr ++ ")"⟩
  | .untrusted, .observe =>
    ⟨.ask, .builtIn,
      "workspace observation requires approval because the workspace is untrusted"⟩
  | .untrusted, _ => ⟨.deny, .builtIn, "denied: workspace is untrusted"⟩

/-- A selected rule binds only when it is stricter than what stands. -/
def foldLayer (standing : Standing) (selected : Option (PolicyVerdict × String))
    (layer : PolicySource) : Standing :=
  match selected with
  | none => standing
  | some (candidate, selector) =>
    if standing.verdict < candidate then
      ⟨candidate, layer, candidate.asStr ++ " by " ++ layer.asStr ++ " rule for " ++ selector⟩
    else standing

def loadFailure (error : PolicyLoadError) (source : PolicySource) : PolicyDecision :=
  .new .deny ("denied: " ++ error.display) source false

/-- Whether only an exact-call grant can answer at this risk. -/
def exactOnly (risk : RiskLevel) : Bool := risk == .remoteWrite || risk == .destructive

/-- Whether a grant already matched to this candidate can answer the request. -/
def answers (request : PolicyRequest) (grant : RunGrant) : Bool :=
  (!exactOnly request.risk || grant.scope == .exactCall) &&
    match request.external with
    | none => grant.integrationIdentity.isEmpty
    | some external => grant.integrationIdentity == external.identity

/-- A built-in refusal that carries a denial kind. -/
def refusal (request : PolicyRequest) (reason kind : String) : PolicyDecision :=
  ((PolicyDecision.new .deny ("denied: " ++ reason) .builtIn false).forRequest request).deniedAs kind

/-- The declaration and identity checks that come before anything else. -/
def externalRefusal (request : PolicyRequest) : Option PolicyDecision :=
  if 1 < request.declaredExternal.length then
    some (refusal request "a tool call must declare exactly one external operation"
      externalIdentityContextInvalid)
  else match request.external with
    | none => request.declaredExternal.head?.map fun declared =>
      refusal request (declared.asStr ++ " requires external policy context")
        externalIdentityContextInvalid
    | some external =>
      match external.validateDeclaration request.descriptor.capabilities with
      | .error reason => some (refusal request reason externalIdentityContextInvalid)
      | .ok () => external.invalidIdentityDenialKind.map fun kind =>
        refusal request (external.capability.asStr
          ++ " requires valid observed identity evidence before evaluation") kind

/-- What the three layers say, folded in order. -/
def layered (user : PolicyFile) (repository : Option PolicyFile) (request : PolicyRequest) :
    Standing :=
  let standing := foldLayer (builtIn request) (user.selected request) .userPolicy
  match repository with
  | none => standing
  | some repository => foldLayer standing (repository.selected request) .repositoryPolicy

/-- Grants and the noninteractive rule, over what the layers say. -/
def conclude (request : PolicyRequest) (standing : Standing) : PolicyDecision :=
  if standing.verdict = .ask ∧ request.grants.any (answers request) then
    (PolicyDecision.new .allow "allowed: a live run-scoped grant matches this request" .runGrant
      false).forRequest request
  else if standing.verdict = .ask ∧ request.mode = .nonInteractive then
    let decision := (PolicyDecision.new .deny
      ("denied: " ++ ("noninteractive execution cannot answer approval; " ++ standing.reason))
      standing.source false).forRequest request
    match request.external with
    | none => decision
    | some external => decision.deniedAs external.capability.noninteractiveDenialKind
  else
    (PolicyDecision.new standing.verdict standing.reason standing.source
      (standing.verdict == .ask && exactOnly request.risk)).forRequest request

/-- Evaluates a fully classified request without I/O, clock reads, or locks. -/
def PolicyEngine.evaluate (self : PolicyEngine) (request : PolicyRequest) : PolicyDecision :=
  match externalRefusal request with
  | some refused => refused
  | none =>
    if request.forcePush.isForcing then
      (PolicyDecision.new .deny ("denied: " ++ ("force push is not permitted in v0.3 ("
        ++ request.forcePush.asStr ++ ")")) .builtIn false).forRequest request
    else match self.user, self.repository with
      | .failed error, _ => (loadFailure error .userPolicy).forRequest request
      | .loaded _, .failed error => (loadFailure error .repositoryPolicy).forRequest request
      | .loaded user, .loaded repository => conclude request (layered user repository request)

/-- The context names the one external operation the tool declares. -/
def PolicyRequest.Declares (request : PolicyRequest) (external : ExternalPolicyContext) : Prop :=
  request.declaredExternal.length ≤ 1 ∧ external.capability ∈ request.declaredExternal

instance (request : PolicyRequest) (external : ExternalPolicyContext) :
    Decidable (request.Declares external) :=
  inferInstanceAs (Decidable (_ ∧ _))

/-- Everything an evaluation can return, with what led to it. -/
inductive Evaluated (engine : PolicyEngine) (request : PolicyRequest) : PolicyDecision → Prop
  | undeclared {reason : String}
      (differs : ∀ external, request.external = some external → ¬request.Declares external) :
      Evaluated engine request (refusal request reason externalIdentityContextInvalid)
  | unidentified {external : ExternalPolicyContext} {reason kind : String}
      (present : request.external = some external) (declares : request.Declares external)
      (invalid : external.invalidIdentityDenialKind = some kind) :
      Evaluated engine request (refusal request reason kind)
  | forced {variant : String}
      (identified : ∀ external, request.external = some external →
        external.validateIdentityShape = .ok ())
      (forcing : request.forcePush.isForcing = true) :
      Evaluated engine request
        ((PolicyDecision.new .deny ("denied: " ++ variant) .builtIn false).forRequest request)
  | failed {error : PolicyLoadError} {source : PolicySource}
      (identified : ∀ external, request.external = some external →
        external.validateIdentityShape = .ok ())
      (layer : source = .userPolicy ∨ source = .repositoryPolicy) :
      Evaluated engine request ((loadFailure error source).forRequest request)
  | concluded {user : PolicyFile} {repository : Option PolicyFile}
      (identified : ∀ external, request.external = some external →
        request.Declares external ∧ external.validateIdentityShape = .ok ())
      (unforced : request.forcePush.isForcing = false)
      (loaded : engine = ⟨.loaded user, .loaded repository⟩) :
      Evaluated engine request (conclude request (layered user repository request))

/-- A refusal before any layer is read names either a declaration or an identity at fault. -/
theorem externalRefusal_eq_some {engine : PolicyEngine} {request : PolicyRequest}
    {decision : PolicyDecision} (refused : externalRefusal request = some decision) :
    Evaluated engine request decision := by
  unfold externalRefusal at refused
  split_ifs at refused with many
  · obtain rfl := Option.some.inj refused
    exact .undeclared fun _ _ declares => absurd many (not_lt.mpr declares.1)
  · cases present : request.external with
    | none =>
      rw [present] at refused
      obtain ⟨declared, -, rfl⟩ := Option.map_eq_some_iff.mp refused
      exact .undeclared fun _ other => by rw [present] at other; cases other
    | some external =>
      rw [present] at refused
      cases declaration : external.validateDeclaration request.descriptor.capabilities with
      | error reason =>
        simp only [declaration, Option.some.injEq] at refused
        obtain rfl := refused
        refine .undeclared fun other same declares => ?_
        obtain rfl := Option.some.inj (present.symm.trans same)
        rw [ExternalPolicyContext.validateDeclaration_eq_ok.mpr declares.2] at declaration
        cases declaration
      | ok _ =>
        simp only [declaration] at refused
        obtain ⟨kind, invalid, rfl⟩ := Option.map_eq_some_iff.mp refused
        exact .unidentified present ⟨not_lt.mp many,
          ExternalPolicyContext.validateDeclaration_eq_ok.mp declaration⟩ invalid

/-- What passes the first checks declares its operation and carries the identity it needs. -/
theorem externalRefusal_eq_none {request : PolicyRequest} {external : ExternalPolicyContext}
    (admitted : externalRefusal request = none) (present : request.external = some external) :
    request.Declares external ∧ external.validateIdentityShape = .ok () := by
  unfold externalRefusal at admitted
  split_ifs at admitted with many
  rw [present] at admitted
  cases declaration : external.validateDeclaration request.descriptor.capabilities with
  | error reason =>
    simp only [declaration] at admitted
    cases admitted
  | ok _ =>
    simp only [declaration, Option.map_eq_none_iff] at admitted
    exact ⟨⟨not_lt.mp many, ExternalPolicyContext.validateDeclaration_eq_ok.mp declaration⟩,
      external.invalidIdentityDenialKind_eq_none.mp admitted⟩

theorem evaluate_cases (engine : PolicyEngine) (request : PolicyRequest) :
    Evaluated engine request (engine.evaluate request) := by
  obtain ⟨user, repository⟩ := engine
  unfold PolicyEngine.evaluate
  cases refused : externalRefusal request with
  | some decision => exact externalRefusal_eq_some refused
  | none =>
    have identified : ∀ external, request.external = some external →
        request.Declares external ∧ external.validateIdentityShape = .ok () :=
      fun _ present => externalRefusal_eq_none refused present
    dsimp only
    split_ifs with forcing
    · exact .forced (fun external present => (identified external present).2) forcing
    · cases user with
      | failed error =>
        exact .failed (fun external present => (identified external present).2) (.inl rfl)
      | loaded user =>
        cases repository with
        | failed error =>
          exact .failed (fun external present => (identified external present).2) (.inr rfl)
        | loaded repository =>
          exact .concluded identified (Bool.eq_false_iff.mpr forcing) rfl

end Harkness.Runtime.Policy
