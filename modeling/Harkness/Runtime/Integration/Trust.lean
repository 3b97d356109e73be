import Harkness.Runtime.Integration.Record

/-! # What a trust record is bound to

A call either changes nothing or takes one edge of the table together with the fields that go with it.
Every record that was granted or read therefore keeps its evidence and says why it is invalidated. Its
check compares every fact of the identity, an absent one included, and nothing written is lost.
-/

namespace Harkness.Runtime.Integration

open TrustRecord (Update)

/-- What a kind of subject is recognized by is there. -/
def Recognized (subjectKind : SubjectKind) (basis : IdentityBasis) (scope : TrustScope) : Prop :=
  match subjectKind with
  | .agentExecutable => ∃ executable, basis.executable = some executable
  | .mcpServer => (∃ executable, basis.executable = some executable) ∨
      ∃ endpoint, basis.endpoint = some endpoint
  | .mcpToolSchema => ∃ fingerprint, basis.schemaFingerprint = some fingerprint
  | .recipe => ∃ contentHash, basis.contentHash = some contentHash
  | .forgeAccount | .forgeRepository =>
    ∃ endpoint resource, basis.endpoint = some endpoint ∧ endpoint.resource = some resource
  | .workspace => ∃ root, scope = .workspace root

theorem recognized_iff {subjectKind : SubjectKind} {basis : IdentityBasis} {scope : TrustScope} :
    (evidence subjectKind basis scope).1 = true ↔ Recognized subjectKind basis scope := by
  cases subjectKind with
  | workspace => cases scope <;> simp [evidence, Recognized, TrustScope.root]
  | mcpServer => simp [evidence, Recognized, Option.isSome_iff_exists]
  | forgeAccount | forgeRepository =>
    cases h : basis.endpoint <;> simp [evidence, Recognized, h, Option.isSome_iff_exists]
  | agentExecutable | mcpToolSchema | recipe =>
    simp [evidence, Recognized, Option.isSome_iff_exists]

theorem requireEvidence_eq_ok {subjectKind : SubjectKind} {basis : IdentityBasis} {scope : TrustScope} :
    requireEvidence subjectKind basis scope = .ok () ↔ Recognized subjectKind basis scope := by
  rw [requireEvidence, ← recognized_iff]
  dsimp only
  split <;> simp_all

theorem validateUtc_eq_ok {field : String} {timestamp : OffsetDateTime} :
    validateUtc field timestamp = .ok () ↔ timestamp.offset = 0 := by
  rw [validateUtc]
  split <;> simp_all

/-- A root that observations can match. -/
def ValidScope (scope : TrustScope) : Prop :=
  ∀ root, scope = .workspace root → root ≠ [] ∧ isRootedAnywhere root = true

theorem validateScope_eq_ok {scope : TrustScope} : validateScope scope = .ok () ↔ ValidScope scope := by
  cases scope with
  | global => simp [validateScope, TrustScope.root, ValidScope]
  | workspace root =>
    simp only [validateScope, TrustScope.root, Except.ite_error_eq_ok, ValidScope,
      TrustScope.workspace.injEq, forall_eq', Bool.not_eq_false, and_true]

namespace TrustRecord

inductive Call where
  | revoke
  | invalidate (reason : InvalidationReason)
  | regrant (identityBasis : IdentityBasis) (grantedAt : OffsetDateTime)

def Call.update : Call → Update Unit
  | .revoke => TrustRecord.revoke
  | .invalidate reason => TrustRecord.invalidate reason
  | .regrant identityBasis grantedAt => TrustRecord.regrant identityBasis grantedAt

/-- What a call answers, and the record it leaves. -/
def Call.run (call : Call) (record : TrustRecord) : Except IntegrationDomainError Unit × TrustRecord :=
  call.update.run.run record

/-- What accepted calls do. -/
inductive Effect (record : TrustRecord) : Call → TrustRecord → Prop where
  | revoke (live : record.state = .trusted ∨ record.state = .invalidated) :
    Effect record .revoke { record with state := .revoked, invalidationReason := none }
  | invalidate {reason : InvalidationReason} (trusted : record.state = .trusted) :
    Effect record (.invalidate reason)
      { record with state := .invalidated, invalidationReason := some reason }
  | regrant {identityBasis : IdentityBasis} {grantedAt : OffsetDateTime}
    (invalidated : record.state = .invalidated) (utc : grantedAt.offset = 0)
    (recognized : Recognized record.subjectKind identityBasis record.scope) :
    Effect record (.regrant identityBasis grantedAt)
      { record with identityBasis, state := .trusted, invalidationReason := none, grantedAt }

/-- A sequence stops at its first refusal, with what was changed before it. -/
theorem run_bind {α β : Type} (first : Update α) (rest : α → Update β) (record : TrustRecord) :
    (first >>= rest).run.run record =
      match first.run.run record with
      | (.ok value, record) => (rest value).run.run record
      | (.error error, record) => (.error error, record) := by
  change (ExceptT.bindCont rest (first.run.run record).1).run (first.run.run record).2 = _
  rcases first.run.run record with ⟨_ | _, _⟩ <;> rfl

theorem run_get (record : TrustRecord) : (get : Update TrustRecord).run.run record = (.ok record, record) :=
  rfl

theorem run_liftExcept (checked : Except IntegrationDomainError Unit) (record : TrustRecord) :
    (regrant.liftExcept checked).run.run record = (checked, record) := rfl

/-- A transition is taken along an edge of the table, or refused with nothing changed. -/
theorem run_transition (record : TrustRecord) (target : TrustState) :
    (transition target).run.run record =
      if record.state.canBecome target then (.ok (), { record with state := target })
      else (.error (.invalidTrustTransition record.state target), record) := by
  change (if record.state.canBecome target then (set { record with state := target } : Update Unit)
    else throw (.invalidTrustTransition record.state target)).run.run record = _
  split <;> rfl

theorem canBecome_revoked {state : TrustState} :
    state.canBecome .revoked ↔ state = .trusted ∨ state = .invalidated := by
  cases state <;> decide

theorem canBecome_invalidated {state : TrustState} : state.canBecome .invalidated ↔ state = .trusted := by
  cases state <;> decide

theorem canBecome_trusted {state : TrustState} :
    state.canBecome .trusted ↔ state = .untrusted ∨ state = .invalidated := by
  cases state <;> decide

/-- A call is refused and changes nothing, or takes effect as a whole. -/
theorem run_cases (call : Call) (record : TrustRecord) (granted : record.state ≠ .untrusted) :
    (∃ error, call.run record = (.error error, record)) ∨
      ∃ next, call.run record = (.ok (), next) ∧ Effect record call next := by
  cases call with
  | revoke =>
    rw [Call.run, Call.update, TrustRecord.revoke, run_bind, run_transition]
    by_cases allowed : record.state.canBecome .revoked
    · rw [if_pos allowed]
      exact .inr ⟨_, rfl, .revoke (canBecome_revoked.mp allowed)⟩
    · rw [if_neg allowed]
      exact .inl ⟨_, rfl⟩
  | invalidate reason =>
    rw [Call.run, Call.update, TrustRecord.invalidate, run_bind, run_transition]
    by_cases allowed : record.state.canBecome .invalidated
    · rw [if_pos allowed]
      exact .inr ⟨_, rfl, .invalidate (canBecome_invalidated.mp allowed)⟩
    · rw [if_neg allowed]
      exact .inl ⟨_, rfl⟩
  | regrant identityBasis grantedAt =>
    rw [Call.run, Call.update, TrustRecord.regrant, run_bind, run_get]
    dsimp only
    rw [run_bind, run_liftExcept]
    cases utc : validateUtc "granted_at" grantedAt with
    | error error => exact .inl ⟨error, rfl⟩
    | ok =>
      dsimp only
      rw [run_bind, run_liftExcept]
      cases recognized : requireEvidence record.subjectKind identityBasis record.scope with
      | error error => exact .inl ⟨error, rfl⟩
      | ok =>
        dsimp only
        rw [run_bind, run_transition]
        by_cases allowed : record.state.canBecome .trusted
        · rw [if_pos allowed]
          have invalidated := (canBecome_trusted.mp allowed).resolve_left granted
          exact .inr ⟨_, rfl, .regrant invalidated (validateUtc_eq_ok.mp utc)
            (requireEvidence_eq_ok.mp recognized)⟩
        · rw [if_neg allowed]
          exact .inl ⟨_, rfl⟩

end TrustRecord

/-- A record that says enough to be checked, and why it is invalidated when it is. -/
structure TrustRecord.WellFormed (record : TrustRecord) : Prop where
  utc : record.grantedAt.offset = 0
  scope : ValidScope record.scope
  recognized : Recognized record.subjectKind record.identityBasis record.scope
  granted : record.state ≠ .untrusted
  reason : record.invalidationReason.isSome ↔ record.state = .invalidated

theorem TrustRecord.fromParts_eq_ok {subjectKind : SubjectKind} {identityBasis : IdentityBasis}
    {scope : TrustScope} {state : TrustState} {invalidationReason : Option InvalidationReason}
    {grantedAt : OffsetDateTime} {record : TrustRecord} :
    fromParts subjectKind identityBasis scope state invalidationReason grantedAt = .ok record ↔
      record = ⟨subjectKind, identityBasis, scope, state, invalidationReason, grantedAt⟩ ∧
        record.WellFormed := by
  have reasons : (state.requiresInvalidationReason = invalidationReason.isSome) ↔
      (invalidationReason.isSome ↔ state = .invalidated) := by
    rw [Bool.eq_iff_iff, TrustState.requiresInvalidationReason, decide_eq_true_iff]
    exact iff_comm
  simp only [fromParts, Except.bind_unit_eq_ok, validateUtc_eq_ok, validateScope_eq_ok, requireEvidence_eq_ok,
    Except.ite_error_eq_ok, not_not, reasons, Except.ok.injEq, ne_eq]
  constructor
  · rintro ⟨utc, scope, recognized, granted, reason, rfl⟩
    exact ⟨rfl, utc, scope, recognized, granted, reason⟩
  · rintro ⟨rfl, wellFormed⟩
    exact ⟨wellFormed.utc, wellFormed.scope, wellFormed.recognized, wellFormed.granted, wellFormed.reason, rfl⟩

namespace TrustRecord

theorem WellFormed.ofGrant {subjectKind : SubjectKind} {identityBasis : IdentityBasis} {scope : TrustScope}
    {grantedAt : OffsetDateTime} {record : TrustRecord}
    (granted : grant subjectKind identityBasis scope grantedAt = .ok record) :
    record = ⟨subjectKind, identityBasis, scope, .trusted, none, grantedAt⟩ ∧ record.WellFormed := by
  simp only [grant, Except.bind_unit_eq_ok, validateUtc_eq_ok, validateScope_eq_ok, requireEvidence_eq_ok,
    Except.ok.injEq] at granted
  obtain ⟨utc, scope, recognized, rfl⟩ := granted
  exact ⟨rfl, utc, scope, recognized, by simp, by simp⟩

theorem tryFrom_eq_ok {wire : TrustRecordWire IdentityBasis (List (Fin 256)) OffsetDateTime} {record : TrustRecord} :
    tryFrom wire = .ok record ↔
      validateSchemaVersion trustRecord wire.schemaVersion = .ok () ∧
        ∃ scope, scopeOf wire.scope wire.workspace = .ok scope ∧
          record = ⟨wire.subjectKind, wire.identity, scope, wire.state, wire.invalidationReason,
            wire.grantedAt⟩ ∧ record.WellFormed := by
  rw [tryFrom, Except.bind_unit_eq_ok, Except.bind_eq_ok]
  simp only [fromParts_eq_ok]

theorem Effect.wellFormed {record next : TrustRecord} {call : Call} (effect : Effect record call next)
    (before : record.WellFormed) : next.WellFormed := by
  cases effect with
  | revoke => exact { before with granted := by simp, reason := by simp }
  | invalidate => exact { before with granted := by simp, reason := by simp }
  | regrant invalidated utc recognized =>
    exact ⟨utc, before.scope, recognized, by simp, by simp⟩

theorem WellFormed.run {record : TrustRecord} (before : record.WellFormed) (call : Call) :
    (call.run record).2.WellFormed := by
  rcases run_cases call record before.granted with ⟨error, refused⟩ | ⟨next, accepted, effect⟩
  · rw [refused]
    exact before
  · rw [accepted]
    exact effect.wellFormed before

/-- The records there can be: granted, read, or changed by calls. -/
inductive Reachable : TrustRecord → Prop where
  | granted {subjectKind : SubjectKind} {identityBasis : IdentityBasis} {scope : TrustScope}
      {grantedAt : OffsetDateTime} {record : TrustRecord}
      (made : grant subjectKind identityBasis scope grantedAt = .ok record) : Reachable record
  | read {wire : TrustRecordWire IdentityBasis (List (Fin 256)) OffsetDateTime} {record : TrustRecord}
      (made : tryFrom wire = .ok record) : Reachable record
  | called {record : TrustRecord} (reached : Reachable record) (call : Call) :
      Reachable (call.run record).2

theorem Reachable.wellFormed {record : TrustRecord} (reached : Reachable record) : record.WellFormed := by
  induction reached with
  | granted made => exact (WellFormed.ofGrant made).2
  | read made =>
    obtain ⟨_, _, _, _, wellFormed⟩ := tryFrom_eq_ok.mp made
    exact wellFormed
  | called _ call ih => exact ih.run call

end TrustRecord

/-- The same version, or one that a version it can be read as allows after it. -/
def Upgrades (semver : Semver) (granted observed : Option String) : Prop :=
  granted = observed ∨
    ∃ old new older newer compatible, granted = some old ∧ observed = some new ∧
      semver.parse old = some older ∧ semver.parse new = some newer ∧
      semver.caret older = some compatible ∧ compatible newer = true

/-- The observed workspace is the one a scope is confined to. -/
def TrustScope.Confines (scope : TrustScope) (workspace : Option (List (Fin 256))) : Prop :=
  ∀ root, scope = .workspace root →
    ∃ path, workspace = some path ∧ Platform.components path = Platform.components root

/-- What changed between a grant and an observation, by the reason reported for it. -/
def Drifted (semver : Semver) (record : TrustRecord) (observed : ObservedIdentity) :
    InvalidationReason → Prop
  | .workspacePathChanged => ¬ record.scope.Confines observed.workspace
  | .executableHashChanged =>
    record.identityBasis.executable.map (·.sha256) ≠ observed.basis.executable.map (·.sha256)
  | .endpointHostChanged =>
    record.identityBasis.endpoint.map (·.host) ≠ observed.basis.endpoint.map (·.host)
  | .repositoryRemoteChanged =>
    record.identityBasis.endpoint.bind (·.resource) ≠ observed.basis.endpoint.bind (·.resource)
  | .toolSchemaFingerprintChanged =>
    record.identityBasis.schemaFingerprint ≠ observed.basis.schemaFingerprint
  | .recipeContentHashChanged => record.identityBasis.contentHash ≠ observed.basis.contentHash
  | .capabilityExpansion =>
    record.identityBasis.configurationSource ≠ observed.basis.configurationSource ∨
      ¬ observed.basis.capabilities.val ⊆ record.identityBasis.capabilities.val
  | .incompatibleVersionChange =>
    record.identityBasis.protocolVersion ≠ observed.basis.protocolVersion ∨
      ¬ Upgrades semver record.identityBasis.subjectVersion observed.basis.subjectVersion

theorem isLeftIn_iff {scope : TrustScope} {workspace : Option (List (Fin 256))} :
    scope.isLeftIn workspace = true ↔ ¬ scope.Confines workspace := by
  cases scope with
  | global => simp [TrustScope.isLeftIn, TrustScope.root, TrustScope.Confines]
  | workspace root => simp [TrustScope.isLeftIn, TrustScope.root, TrustScope.Confines]

theorem authoritySurfaceWidened_iff {trusted observed : IdentityBasis} :
    authoritySurfaceWidened trusted observed = true ↔
      trusted.configurationSource ≠ observed.configurationSource ∨
        ¬ observed.capabilities.val ⊆ trusted.capabilities.val := by
  rw [Finset.not_subset]
  simp [authoritySurfaceWidened]

theorem versionsAreCompatible_iff {semver : Semver} {old new : String} :
    versionsAreCompatible semver old new = true ↔ Upgrades semver (some old) (some new) := by
  simp only [versionsAreCompatible, Bool.or_eq_true, decide_eq_true_eq, Upgrades, Option.some.injEq]
  refine or_congr_right ⟨fun matching => ?_, ?_⟩
  · split at matching
    · split at matching
      · exact ⟨old, new, _, _, _, rfl, rfl, ‹_›, ‹_›, ‹_›, matching⟩
      · cases matching
    · cases matching
  · rintro ⟨_, _, older, newer, compatible, rfl, rfl, parsedOld, parsedNew, caret, matching⟩
    simpa only [parsedOld, parsedNew, caret] using matching

theorem versionIsIncompatible_iff {semver : Semver} {trusted observed : IdentityBasis} :
    versionIsIncompatible semver trusted observed = true ↔
      trusted.protocolVersion ≠ observed.protocolVersion ∨
        ¬ Upgrades semver trusted.subjectVersion observed.subjectVersion := by
  rw [versionIsIncompatible]
  by_cases speaking : trusted.protocolVersion = observed.protocolVersion
  · simp only [speaking, ne_eq, not_true_eq_false, ↓reduceIte, false_or, Upgrades]
    cases trusted.subjectVersion with
    | none => cases observed.subjectVersion <;> simp
    | some old =>
      cases observed.subjectVersion with
      | none => simp
      | some new =>
        rw [← Upgrades, ← versionsAreCompatible_iff]
        simp
  · simp [speaking]

section Check

variable {semver : Semver} {record : TrustRecord} {observed : ObservedIdentity} {reason : InvalidationReason}

/-- The comparison of identities a reason is reported by. -/
def comparison (semver : Semver) : InvalidationReason → IdentityBasis → IdentityBasis → Bool
  | .workspacePathChanged => fun _ _ => false
  | .executableHashChanged => executableHashChanged
  | .endpointHostChanged => endpointHostChanged
  | .repositoryRemoteChanged => endpointResourceChanged
  | .toolSchemaFingerprintChanged => schemaFingerprintChanged
  | .recipeContentHashChanged => contentHashChanged
  | .capabilityExpansion => authoritySurfaceWidened
  | .incompatibleVersionChange => versionIsIncompatible semver

/-- The table lists the reasons in the order of precedence, the workspace being compared before it. -/
theorem identityChecks_eq : identityChecks semver =
    InvalidationReason.precedence.tail.map fun reason => (reason, comparison semver reason) := rfl

def changed (semver : Semver) (record : TrustRecord) (observed : ObservedIdentity)
    (reason : InvalidationReason) : Bool :=
  if reason = .workspacePathChanged then record.scope.isLeftIn observed.workspace
  else comparison semver reason record.identityBasis observed.basis

theorem changed_iff : changed semver record observed reason = true ↔ Drifted semver record observed reason := by
  cases reason with
  | workspacePathChanged => exact isLeftIn_iff
  | capabilityExpansion => exact authoritySurfaceWidened_iff
  | incompatibleVersionChange => exact versionIsIncompatible_iff
  | executableHashChanged | endpointHostChanged | repositoryRemoteChanged
    | toolSchemaFingerprintChanged | recipeContentHashChanged => exact decide_eq_true_iff

theorem check_of_trusted (trusted : record.state = .trusted) : record.check semver observed =
    match InvalidationReason.precedence.find? (changed semver record observed) with
    | some reason => .invalidate reason
    | none => .valid := by
  have identities : InvalidationReason.precedence.tail.find?
      (fun reason => comparison semver reason record.identityBasis observed.basis) =
      InvalidationReason.precedence.tail.find? (changed semver record observed) := rfl
  rw [TrustRecord.check, if_neg (not_not.mpr trusted), identityChecks_eq, List.find?_map,
    show InvalidationReason.precedence = .workspacePathChanged :: InvalidationReason.precedence.tail from rfl,
    List.find?_cons, List.tail_cons, ← identities]
  cases left : record.scope.isLeftIn observed.workspace with
  | true => simp [changed, left]
  | false =>
    have stayed : changed semver record observed .workspacePathChanged = false := left
    rw [stayed]
    simp only [Bool.false_eq_true, ↓reduceIte, Function.comp_def]
    cases InvalidationReason.precedence.tail.find?
      (fun reason => comparison semver reason record.identityBasis observed.basis) <;> rfl

/-- A check passes exactly when nothing changed. -/
theorem check_eq_valid_iff : record.check semver observed = .valid ↔
    record.state = .trusted ∧ ∀ reason, ¬ Drifted semver record observed reason := by
  by_cases trusted : record.state = .trusted
  · have all : ∀ reason, reason ∈ InvalidationReason.precedence := by
      intro reason
      cases reason <;> decide
    rw [check_of_trusted trusted]
    cases found : InvalidationReason.precedence.find? (changed semver record observed) with
    | none =>
      simp only [trusted, true_and, true_iff]
      exact fun reason drifted =>
        List.find?_eq_none.mp found reason (all reason) (changed_iff.mpr drifted)
    | some reason =>
      have drifted := changed_iff.mp (List.find?_some found)
      simp only [reduceCtorEq, trusted, true_and, false_iff]
      exact fun same => same reason drifted
  · simp [TrustRecord.check, trusted]

/-- A change is reported by the first reason in the order of precedence. -/
theorem check_eq_invalidate_iff : record.check semver observed = .invalidate reason ↔
    record.state = .trusted ∧ Drifted semver record observed reason ∧
      ∃ earlier later, InvalidationReason.precedence = earlier ++ reason :: later ∧
        ∀ other ∈ earlier, ¬ Drifted semver record observed other := by
  by_cases trusted : record.state = .trusted
  · have first : InvalidationReason.precedence.find? (changed semver record observed) = some reason ↔ _ :=
      List.find?_eq_some_iff_append
    simp only [changed_iff, Bool.not_eq_true', ← Bool.not_eq_true] at first
    rw [check_of_trusted trusted]
    simp only [trusted, true_and]
    rw [← first]
    cases InvalidationReason.precedence.find? (changed semver record observed) <;> simp
  · simp [TrustRecord.check, trusted]

end Check

/-- Everything a grant says of its subject holds of an observation. -/
structure Covers (semver : Semver) (record : TrustRecord) (observed : ObservedIdentity) : Prop where
  trusted : record.state = .trusted
  workspace : record.scope.Confines observed.workspace
  executable : record.identityBasis.executable.map (·.sha256) = observed.basis.executable.map (·.sha256)
  host : record.identityBasis.endpoint.map (·.host) = observed.basis.endpoint.map (·.host)
  resource : record.identityBasis.endpoint.bind (·.resource) = observed.basis.endpoint.bind (·.resource)
  schemaFingerprint : record.identityBasis.schemaFingerprint = observed.basis.schemaFingerprint
  contentHash : record.identityBasis.contentHash = observed.basis.contentHash
  configurationSource : record.identityBasis.configurationSource = observed.basis.configurationSource
  capabilities : observed.basis.capabilities.val ⊆ record.identityBasis.capabilities.val
  protocolVersion : record.identityBasis.protocolVersion = observed.basis.protocolVersion
  subjectVersion : Upgrades semver record.identityBasis.subjectVersion observed.basis.subjectVersion

theorem covers_iff {semver : Semver} {record : TrustRecord} {observed : ObservedIdentity} :
    record.check semver observed = .valid ↔ Covers semver record observed := by
  rw [check_eq_valid_iff]
  constructor
  · rintro ⟨trusted, same⟩
    obtain ⟨source, capabilities⟩ := not_or.mp (same .capabilityExpansion)
    obtain ⟨protocol, version⟩ := not_or.mp (same .incompatibleVersionChange)
    exact ⟨trusted, not_not.mp (same .workspacePathChanged), not_not.mp (same .executableHashChanged),
      not_not.mp (same .endpointHostChanged), not_not.mp (same .repositoryRemoteChanged),
      not_not.mp (same .toolSchemaFingerprintChanged), not_not.mp (same .recipeContentHashChanged),
      not_not.mp source, not_not.mp capabilities, not_not.mp protocol, not_not.mp version⟩
  · intro covers
    refine ⟨covers.trusted, fun reason drifted => ?_⟩
    cases reason with
    | workspacePathChanged => exact drifted covers.workspace
    | executableHashChanged => exact drifted covers.executable
    | endpointHostChanged => exact drifted covers.host
    | repositoryRemoteChanged => exact drifted covers.resource
    | toolSchemaFingerprintChanged => exact drifted covers.schemaFingerprint
    | recipeContentHashChanged => exact drifted covers.contentHash
    | capabilityExpansion =>
      exact drifted.elim (· covers.configurationSource) (· covers.capabilities)
    | incompatibleVersionChange =>
      exact drifted.elim (· covers.protocolVersion) (· covers.subjectVersion)

/-- A fact of an identity that it may carry or not. -/
inductive Evidence where
  | executable
  | endpoint
  | resource
  | schemaFingerprint
  | contentHash
  | subjectVersion
  | protocolVersion

namespace IdentityBasis

def Carries (basis : IdentityBasis) : Evidence → Prop
  | .executable => basis.executable ≠ none
  | .endpoint => basis.endpoint ≠ none
  | .resource => basis.endpoint.bind (·.resource) ≠ none
  | .schemaFingerprint => basis.schemaFingerprint ≠ none
  | .contentHash => basis.contentHash ≠ none
  | .subjectVersion => basis.subjectVersion ≠ none
  | .protocolVersion => basis.protocolVersion ≠ none

/-- An identity less one of its facts. -/
def without (basis : IdentityBasis) : Evidence → IdentityBasis
  | .executable => { basis with executable := none }
  | .endpoint => { basis with endpoint := none }
  | .resource => { basis with
      endpoint := basis.endpoint.map fun endpoint => ⟨endpoint.host, none, endpoint.host_valid,
        endpoint.host_lowercase, validText_none⟩ }
  | .schemaFingerprint => { basis with schemaFingerprint := none }
  | .contentHash => { basis with contentHash := none }
  | .subjectVersion => { basis with subjectVersion := none, subjectVersion_valid := validText_none }
  | .protocolVersion => { basis with protocolVersion := none, protocolVersion_valid := validText_none }

end IdentityBasis

/-- A trusted record is bound to one identity: that one is valid, and it less any fact is not. -/
structure TrustRecord.BoundTo (semver : Semver) (record : TrustRecord) (basis : IdentityBasis) : Prop where
  same (workspace : Option (List (Fin 256))) :
    record.scope.Confines workspace → record.check semver ⟨basis, workspace⟩ = .valid
  without (workspace : Option (List (Fin 256))) (fact : Evidence) :
    basis.Carries fact → record.check semver ⟨basis.without fact, workspace⟩ ≠ .valid
  unplaced : record.scope ≠ .global → record.check semver ⟨basis, none⟩ ≠ .valid

theorem TrustRecord.boundTo_identityBasis (semver : Semver) {record : TrustRecord}
    (trusted : record.state = .trusted) : record.BoundTo semver record.identityBasis where
  same workspace confined := covers_iff.mpr ⟨trusted, confined, rfl, rfl, rfl, rfl, rfl, rfl, subset_rfl, rfl,
    .inl rfl⟩
  without workspace fact carried := by
    intro valid
    have covers := covers_iff.mp valid
    cases fact with
    | executable => exact carried (Option.map_eq_none_iff.mp covers.executable)
    | endpoint => exact carried (Option.map_eq_none_iff.mp covers.host)
    | resource =>
      have gone : (record.identityBasis.without .resource).endpoint.bind (·.resource) = none := by
        change (record.identityBasis.endpoint.map _).bind _ = none
        cases record.identityBasis.endpoint <;> rfl
      exact carried (covers.resource.trans gone)
    | schemaFingerprint => exact carried covers.schemaFingerprint
    | contentHash => exact carried covers.contentHash
    | subjectVersion =>
      rcases covers.subjectVersion with same | ⟨_, _, _, _, _, _, absent, _⟩
      · exact carried same
      · cases absent
    | protocolVersion => exact carried covers.protocolVersion
  unplaced confined valid := by
    cases scope : record.scope with
    | global => exact confined scope
    | workspace root =>
      obtain ⟨path, observed, _⟩ := (covers_iff.mp valid).workspace root scope
      cases observed

namespace TrustRecord

/-- A record is what its wire form spells. -/
theorem tryFrom_toWire {record : TrustRecord} (wellFormed : record.WellFormed) :
    tryFrom record.toWire = .ok record := by
  refine tryFrom_eq_ok.mpr ⟨rfl, record.scope, ?_, rfl, wellFormed⟩
  change scopeOf record.scope.kind record.scope.root = .ok record.scope
  cases record.scope <;> rfl

/-- Whatever could be written is read back. -/
theorem deserialize_serialize {codec : Rfc3339 ℤ} (lawful : codec.Lawful FourDigitYear)
    {record : TrustRecord} {stored : TrustRecordWire IdentityWire String String}
    (wellFormed : record.WellFormed) (written : record.serialize codec = some stored) :
    deserialize codec stored = .ok record := by
  simp only [serialize, Option.bind_eq_bind, Option.bind_eq_some_iff, Option.pure_def, Option.some.injEq]
    at written
  obtain ⟨identity, identityWritten, workspace, placed, grantedAt, dated, rfl⟩ := written
  have read : workspace.map textPath = record.toWire.workspace := by
    cases root : record.toWire.workspace with
    | none =>
      rw [root] at placed
      obtain rfl := Option.some.inj placed
      rfl
    | some path =>
      rw [root] at placed
      obtain ⟨text, readable, rfl⟩ := Option.map_eq_some_iff.mp placed
      exact congrArg some (textPath_pathText readable)
  have utc : record.toWire.grantedAt.offset = 0 := wellFormed.utc
  rw [OffsetDateTime.format, if_pos utc] at dated
  have same : (⟨record.toWire.grantedAt.nanoseconds, 0⟩ : OffsetDateTime) = record.toWire.grantedAt := by
    rw [← utc]
  rw [deserialize, Except.bind_eq_ok]
  refine ⟨_, Except.mapError_eq_ok.mpr (IdentityBasis.deserialize_serialize identityWritten), ?_⟩
  dsimp only
  rw [lawful.parse _ _ dated, Except.mapError_eq_ok, read, same]
  exact tryFrom_toWire wellFormed

/-- A reachable record changes only where a call is accepted, never leaves revocation, keeps its evidence
and its reason, is valid exactly for what it covers and otherwise names the first change, is bound to the
identity it was granted at, and is read back from what is written of it. -/
theorem trust_binds (semver : Semver) {codec : Rfc3339 ℤ} (lawful : codec.Lawful FourDigitYear)
    {record : TrustRecord} (reached : Reachable record) :
    (∀ (call : Call) (error : IntegrationDomainError),
        (call.run record).1 = .error error → (call.run record).2 = record) ∧
      (record.state = .revoked → ∀ call : Call, (call.run record).2.state = .revoked) ∧
      (record.invalidationReason.isSome ↔ record.state = .invalidated) ∧
      Recognized record.subjectKind record.identityBasis record.scope ∧
      (∀ observed, record.check semver observed = .valid ↔ Covers semver record observed) ∧
      (∀ observed reason, record.check semver observed = .invalidate reason ↔
        record.state = .trusted ∧ Drifted semver record observed reason ∧
          ∃ earlier later, InvalidationReason.precedence = earlier ++ reason :: later ∧
            ∀ other ∈ earlier, ¬ Drifted semver record observed other) ∧
      (∀ subjectKind basis scope grantedAt, grant subjectKind basis scope grantedAt = .ok record →
        record.BoundTo semver basis) ∧
      (∀ basis grantedAt, ((Call.regrant basis grantedAt).run record).1 = .ok () →
        ((Call.regrant basis grantedAt).run record).2.BoundTo semver basis) ∧
      tryFrom record.toWire = .ok record ∧
      ∀ stored, record.serialize codec = some stored → deserialize codec stored = .ok record := by
  have wellFormed := reached.wellFormed
  have cases_ := fun call : Call => run_cases call record wellFormed.granted
  refine ⟨fun call error refused => ?_, fun revoked call => ?_, wellFormed.reason, wellFormed.recognized,
    fun _ => covers_iff, fun _ _ => check_eq_invalidate_iff, fun kind basis scope grantedAt made => ?_,
    fun basis grantedAt accepted => ?_, tryFrom_toWire wellFormed,
    fun _ => deserialize_serialize lawful wellFormed⟩
  · rcases cases_ call with ⟨_, same⟩ | ⟨next, same, _⟩
    · rw [same]
    · rw [same] at refused
      cases refused
  · rcases cases_ call with ⟨_, same⟩ | ⟨next, same, effect⟩
    · rw [same]
      exact revoked
    · cases effect with
      | revoke => rw [same]
      | invalidate trusted => rw [revoked] at trusted; cases trusted
      | regrant invalidated => rw [revoked] at invalidated; cases invalidated
  · obtain ⟨rfl, _⟩ := WellFormed.ofGrant made
    exact boundTo_identityBasis semver rfl
  · rcases cases_ (.regrant basis grantedAt) with ⟨_, same⟩ | ⟨next, same, effect⟩
    · rw [same] at accepted
      cases accepted
    · rw [same]
      cases effect with
      | regrant => exact boundTo_identityBasis semver rfl

/-- Versions of three numbers, each a digit, and the caret of those from 1.0.0 on. -/
def sampleSemver : Semver where
  Version := ℕ × ℕ × ℕ
  parse
    | "1.4.2" => some (1, 4, 2)
    | "1.4.3" => some (1, 4, 3)
    | _ => none
  caret version := some fun other =>
    other.1 = version.1 ∧ (version.2.1 < other.2.1 ∨ version.2.1 = other.2.1 ∧ version.2.2 ≤ other.2.2)

def sampleBasis (version : String) (valid : ValidText version) : IdentityBasis where
  displayName := "agent"
  subjectVersion := some version
  protocolVersion := none
  executable := some ⟨[47, 97], Vector.replicate 32 7,
    by simp [ValidExecutablePath, isRootedAnywhere, maxExecutablePathLength]⟩
  endpoint := none
  schemaFingerprint := none
  contentHash := none
  capabilities := .empty
  configurationSource := .user
  displayName_valid := by decide
  subjectVersion_valid := by simpa using valid
  protocolVersion_valid := validText_none

def sampleRecord : TrustRecord :=
  ⟨.agentExecutable, sampleBasis "1.4.2" (by decide), .workspace [47, 119], .trusted, none, ⟨0, 0⟩⟩

/-- A patch release of a trusted agent is still trusted in its workspace. -/
theorem trust_binds_upgrade : sampleRecord.check sampleSemver
    ⟨sampleBasis "1.4.3" (by decide), some [47, 119, 47]⟩ = .valid := by
  have made : grant .agentExecutable (sampleBasis "1.4.2" (by decide)) (.workspace [47, 119]) ⟨0, 0⟩ =
      .ok sampleRecord := rfl
  obtain ⟨-, -, -, -, valid, -⟩ := trust_binds sampleSemver nanosecondTexts_lawful (.granted made)
  refine (valid _).mpr ⟨rfl, ?_, rfl, rfl, rfl, rfl, rfl, rfl, subset_rfl, rfl, ?_⟩
  · intro root confined
    obtain rfl : [47, 119] = root := TrustScope.workspace.inj confined
    exact ⟨_, rfl, by decide⟩
  · exact .inr ⟨"1.4.2", "1.4.3", (1, 4, 2), (1, 4, 3), _, rfl, rfl, rfl, rfl, rfl, by decide⟩

end TrustRecord

end Harkness.Runtime.Integration
