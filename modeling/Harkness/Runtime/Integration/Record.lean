import Harkness.Platform.PathBuf
import Harkness.Runtime.Integration.IdentityWire
import Harkness.Runtime.Rfc3339
import Mathlib

/-! # Trust records

A record is a grant: it is made trusted, and withdrawn, invalidated and granted again along a table of
states. Checking compares what was granted with what is observed now, field by field in the order in
which the reasons are reported, and ordering versions is left to the `semver` package.
-/

namespace Harkness.Runtime.Integration

/-- The part of `semver` that versions are compared by: reading a version, and the requirement a caret
before a version stands for. -/
structure Semver where
  Version : Type
  parse : String → Option Version
  caret : Version → Option (Version → Bool)

/-- Every legal trust state edge. -/
def trustTransitions : List (TrustState × TrustState) :=
  [(.untrusted, .trusted), (.trusted, .revoked), (.trusted, .invalidated), (.invalidated, .trusted),
    (.invalidated, .revoked)]

def TrustState.canBecome (source target : TrustState) : Bool := (source, target) ∈ trustTransitions

def TrustState.requiresInvalidationReason (state : TrustState) : Bool := state = .invalidated

inductive TrustScopeKind where
  | global
  | workspace
deriving DecidableEq, Repr

/-- How far a grant reaches. -/
inductive TrustScope where
  | global
  | workspace (root : List (Fin 256))
deriving DecidableEq

def TrustScope.kind : TrustScope → TrustScopeKind
  | .global => .global
  | .workspace _ => .workspace

def TrustScope.root : TrustScope → Option (List (Fin 256))
  | .global => none
  | .workspace root => some root

inductive InvalidationReason where
  | workspacePathChanged
  | executableHashChanged
  | endpointHostChanged
  | repositoryRemoteChanged
  | toolSchemaFingerprintChanged
  | recipeContentHashChanged
  | capabilityExpansion
  | incompatibleVersionChange
deriving DecidableEq, Repr

/-- The order in which reasons are reported when more than one applies. -/
def InvalidationReason.precedence : List InvalidationReason :=
  [.workspacePathChanged, .executableHashChanged, .endpointHostChanged, .repositoryRemoteChanged,
    .toolSchemaFingerprintChanged, .recipeContentHashChanged, .capabilityExpansion,
    .incompatibleVersionChange]

inductive TrustCheck where
  | valid
  | notTrusted
  | invalidate (reason : InvalidationReason)
deriving DecidableEq, Repr

/-- Nanoseconds since the epoch and the offset they were written with, in seconds. -/
structure OffsetDateTime where
  nanoseconds : ℤ
  offset : ℤ
deriving DecidableEq

/-- One durable trust grant, bound to the exact identity it was made about. -/
structure TrustRecord where
  subjectKind : SubjectKind
  identityBasis : IdentityBasis
  scope : TrustScope
  state : TrustState
  invalidationReason : Option InvalidationReason
  grantedAt : OffsetDateTime
deriving DecidableEq

/-- One subject as it exists now, and the workspace it was observed in. -/
structure ObservedIdentity where
  basis : IdentityBasis
  workspace : Option (List (Fin 256))

def trustRecord : String := "trust_record"

def validateUtc (field : String) (timestamp : OffsetDateTime) : Except IntegrationDomainError Unit :=
  if timestamp.offset = 0 then .ok ()
  else .error (.invalidTimestamp trustRecord field "must use the UTC offset")

def validateScope (scope : TrustScope) : Except IntegrationDomainError Unit :=
  match scope.root with
  | none => .ok ()
  | some root =>
    if root = [] then .error (.invalidRecord trustRecord "a workspace scope cannot name an empty root")
    else if isRootedAnywhere root = false then
      .error (.invalidRecord trustRecord "a workspace scope must start from a filesystem root")
    else .ok ()

/-- What a kind of subject is recognized by: whether it is there, and how it is called. -/
def evidence (subjectKind : SubjectKind) (basis : IdentityBasis) (scope : TrustScope) : Bool × String :=
  match subjectKind with
  | .agentExecutable => (basis.executable.isSome, "an executable path and content digest")
  | .mcpServer => (basis.executable.isSome || basis.endpoint.isSome, "an executable or an endpoint")
  | .mcpToolSchema => (basis.schemaFingerprint.isSome, "a tool schema fingerprint")
  | .recipe => (basis.contentHash.isSome, "a recipe content hash")
  | .forgeAccount =>
    (basis.endpoint.any (·.resource.isSome), "an endpoint naming the account on its host")
  | .forgeRepository =>
    (basis.endpoint.any (·.resource.isSome), "an endpoint naming the repository on its host")
  | .workspace => (scope.root.isSome, "a workspace-scoped grant")

def requireEvidence (subjectKind : SubjectKind) (basis : IdentityBasis) (scope : TrustScope) :
    Except IntegrationDomainError Unit :=
  let (present, required) := evidence subjectKind basis scope
  if present then .ok () else .error (.missingIdentityEvidence subjectKind required)

namespace TrustRecord

/-- Records that a user trusted one subject at one exact identity. -/
def grant (subjectKind : SubjectKind) (identityBasis : IdentityBasis) (scope : TrustScope)
    (grantedAt : OffsetDateTime) : Except IntegrationDomainError TrustRecord := do
  validateUtc "granted_at" grantedAt
  validateScope scope
  requireEvidence subjectKind identityBasis scope
  .ok { subjectKind, identityBasis, scope, state := .trusted, invalidationReason := none, grantedAt }

def fromParts (subjectKind : SubjectKind) (identityBasis : IdentityBasis) (scope : TrustScope)
    (state : TrustState) (invalidationReason : Option InvalidationReason) (grantedAt : OffsetDateTime) :
    Except IntegrationDomainError TrustRecord := do
  validateUtc "granted_at" grantedAt
  validateScope scope
  requireEvidence subjectKind identityBasis scope
  if state = .untrusted then
    .error (.invalidRecord trustRecord "an untrusted subject is the absence of a record, not a record")
  else if state.requiresInvalidationReason ≠ invalidationReason.isSome then
    .error (.invalidRecord trustRecord
      "an invalidation reason is required by invalidated and permitted nowhere else")
  else .ok { subjectKind, identityBasis, scope, state, invalidationReason, grantedAt }

/-- A call that changes a record in place and may be refused halfway. -/
abbrev Update := ExceptT IntegrationDomainError (StateM TrustRecord)

def transition (target : TrustState) : Update Unit := do
  let record ← get
  if record.state.canBecome target then set { record with state := target }
  else throw (.invalidTrustTransition record.state target)

/-- Withdraws the grant on an explicit user decision. -/
def revoke : Update Unit := do
  transition .revoked
  modify fun record => { record with invalidationReason := none }

/-- Records that the subject drifted from the identity that was trusted. -/
def invalidate (reason : InvalidationReason) : Update Unit := do
  transition .invalidated
  modify fun record => { record with invalidationReason := some reason }

/-- Re-affirms the grant against the identity that is there now. -/
def regrant (identityBasis : IdentityBasis) (grantedAt : OffsetDateTime) : Update Unit := do
  let record ← get
  liftExcept (validateUtc "granted_at" grantedAt)
  liftExcept (requireEvidence record.subjectKind identityBasis record.scope)
  transition .trusted
  modify fun record => { record with identityBasis, invalidationReason := none, grantedAt }
where
  liftExcept (checked : Except IntegrationDomainError Unit) : Update Unit := ExceptT.mk (pure checked)

end TrustRecord

def executableHashChanged (trusted observed : IdentityBasis) : Bool :=
  trusted.executable.map (·.sha256) ≠ observed.executable.map (·.sha256)

def endpointHostChanged (trusted observed : IdentityBasis) : Bool :=
  trusted.endpoint.map (·.host) ≠ observed.endpoint.map (·.host)

def endpointResourceChanged (trusted observed : IdentityBasis) : Bool :=
  trusted.endpoint.bind (·.resource) ≠ observed.endpoint.bind (·.resource)

def schemaFingerprintChanged (trusted observed : IdentityBasis) : Bool :=
  trusted.schemaFingerprint ≠ observed.schemaFingerprint

def contentHashChanged (trusted observed : IdentityBasis) : Bool :=
  trusted.contentHash ≠ observed.contentHash

/-- Whether the subject may now do more, or is now controlled by someone else. -/
def authoritySurfaceWidened (trusted observed : IdentityBasis) : Bool :=
  trusted.configurationSource ≠ observed.configurationSource ||
    (observed.capabilities.val.sort (· ≤ ·)).any fun capability =>
      capability ∉ trusted.capabilities.val

def versionsAreCompatible (semver : Semver) (trusted observed : String) : Bool :=
  trusted = observed ||
    match semver.parse trusted, semver.parse observed with
    | some trusted, some observed =>
      match semver.caret trusted with
      | some compatible => compatible observed
      | none => false
    | _, _ => false

/-- Whether either version the subject reports is incompatible with the grant. -/
def versionIsIncompatible (semver : Semver) (trusted observed : IdentityBasis) : Bool :=
  if trusted.protocolVersion ≠ observed.protocolVersion then true
  else
    match trusted.subjectVersion, observed.subjectVersion with
    | none, none => false
    | some trusted, some observed => !versionsAreCompatible semver trusted observed
    | _, _ => true

/-- The comparisons of an identity, in the order of precedence. -/
def identityChecks (semver : Semver) :
    List (InvalidationReason × (IdentityBasis → IdentityBasis → Bool)) :=
  [(.executableHashChanged, executableHashChanged), (.endpointHostChanged, endpointHostChanged),
    (.repositoryRemoteChanged, endpointResourceChanged),
    (.toolSchemaFingerprintChanged, schemaFingerprintChanged),
    (.recipeContentHashChanged, contentHashChanged), (.capabilityExpansion, authoritySurfaceWidened),
    (.incompatibleVersionChange, versionIsIncompatible semver)]

/-- Whether a scope is confined to another workspace than the observed one. -/
def TrustScope.isLeftIn (scope : TrustScope) (workspace : Option (List (Fin 256))) : Bool :=
  match scope.root with
  | none => false
  | some root => workspace.map Platform.components ≠ some (Platform.components root)

/-- Decides whether a grant still describes the subject in front of you. -/
def TrustRecord.check (semver : Semver) (record : TrustRecord) (observed : ObservedIdentity) : TrustCheck :=
  if record.state ≠ .trusted then .notTrusted
  else if record.scope.isLeftIn observed.workspace then .invalidate .workspacePathChanged
  else
    match (identityChecks semver).find? fun check => check.2 record.identityBasis observed.basis with
    | some (reason, _) => .invalidate reason
    | none => .valid

def integrationRecordSchemaVersion : ℕ := 1

def minimumIntegrationRecordSchemaVersion : ℕ := 1

def validateSchemaVersion (record : String) (found : ℕ) : Except IntegrationDomainError Unit :=
  if found < minimumIntegrationRecordSchemaVersion then
    .error (.schemaVersionTooOld record found minimumIntegrationRecordSchemaVersion)
  else if found > integrationRecordSchemaVersion then
    .error (.schemaVersionTooNew record found integrationRecordSchemaVersion)
  else .ok ()

/-- The representation a record is written and read through. -/
structure TrustRecordWire (Identity Path Time : Type) where
  schemaVersion : ℕ
  subjectKind : SubjectKind
  identity : Identity
  scope : TrustScopeKind
  workspace : Option Path
  state : TrustState
  invalidationReason : Option InvalidationReason
  grantedAt : Time

def TrustRecord.toWire (record : TrustRecord) :
    TrustRecordWire IdentityBasis (List (Fin 256)) OffsetDateTime where
  schemaVersion := integrationRecordSchemaVersion
  subjectKind := record.subjectKind
  identity := record.identityBasis
  scope := record.scope.kind
  workspace := record.scope.root
  state := record.state
  invalidationReason := record.invalidationReason
  grantedAt := record.grantedAt

/-- The scope two flat fields spell. -/
def scopeOf : TrustScopeKind → Option (List (Fin 256)) → Except IntegrationDomainError TrustScope
  | .global, none => .ok .global
  | .workspace, some root => .ok (.workspace root)
  | .global, some _ => .error (.invalidRecord trustRecord "a global grant cannot name a workspace")
  | .workspace, none =>
    .error (.invalidRecord trustRecord
      "a workspace-scoped grant requires the workspace it is confined to")

def TrustRecord.tryFrom (wire : TrustRecordWire IdentityBasis (List (Fin 256)) OffsetDateTime) :
    Except IntegrationDomainError TrustRecord := do
  validateSchemaVersion trustRecord wire.schemaVersion
  let scope ← scopeOf wire.scope wire.workspace
  fromParts wire.subjectKind wire.identity scope wire.state wire.invalidationReason wire.grantedAt

/-- The text of a timestamp in UTC, as those of all records are. -/
def OffsetDateTime.format (codec : Rfc3339 ℤ) (timestamp : OffsetDateTime) : Option String :=
  if timestamp.offset = 0 then codec.format timestamp.nanoseconds else none

/-- What is stored of a record, unless one of its paths or its timestamp has no text. -/
def TrustRecord.serialize (codec : Rfc3339 ℤ) (record : TrustRecord) :
    Option (TrustRecordWire IdentityWire String String) := do
  let wire := record.toWire
  let identity ← wire.identity.serialize
  let workspace ← wire.workspace.mapM pathText
  let grantedAt ← wire.grantedAt.format codec
  return { wire with identity, workspace, grantedAt }

/-- Reads a stored record. -/
def TrustRecord.deserialize (codec : Rfc3339 ℤ) (stored : TrustRecordWire IdentityWire String String) :
    Except (ReadError IntegrationDomainError) TrustRecord := do
  let identity ← (IdentityBasis.deserialize stored.identity).mapError .record
  match codec.parse stored.grantedAt with
  | none => .error .timestamp
  | some nanoseconds =>
    (tryFrom { stored with
      identity, workspace := stored.workspace.map textPath, grantedAt := ⟨nanoseconds, 0⟩ }).mapError .record

end Harkness.Runtime.Integration
