import Harkness.Runtime.Policy.Layers

/-! # Tightening never loosens

A policy is tightened by adding rules to either file, or by making a rule it has stricter. Every
stage of an evaluation is monotone in what stands before it, so the verdict only rises. The declared
risk is a floor, so an understated classification changes no verdict at all.
-/

namespace Harkness.Runtime.Policy

/-- Every rule of the one table is in the other, no less strict. -/
def RulesKept {κ : Type} [BEq κ] (rules more : List (κ × PolicyVerdict)) : Prop :=
  ∀ key verdict, rules.lookup key = some verdict →
    ∃ stricter, more.lookup key = some stricter ∧ verdict ≤ stricter

theorem RulesKept.refl {κ : Type} [BEq κ] (rules : List (κ × PolicyVerdict)) :
    RulesKept rules rules :=
  fun _ verdict present => ⟨verdict, present, le_refl verdict⟩

theorem RulesKept.append {κ : Type} [BEq κ] (rules added : List (κ × PolicyVerdict)) :
    RulesKept rules (rules ++ added) := by
  intro key verdict present
  refine ⟨verdict, ?_, le_refl verdict⟩
  rw [List.lookup_append, present, Option.some_or]

/-- The file with rules added, or made stricter. -/
structure PolicyFile.Tightens (file more : PolicyFile) : Prop where
  risks : RulesKept file.risks more.risks
  tools : RulesKept file.tools more.tools
  externalCapabilities : RulesKept file.externalCapabilities more.externalCapabilities

/-- The repository's rules tightened; a repository without a file has none. -/
def RepositoryTightens (repository : Option PolicyFile) (more : Option PolicyFile) : Prop :=
  ∀ file, repository = some file → ∃ stricter, more = some stricter ∧ file.Tightens stricter

theorem PolicyFile.Tightens.refl (file : PolicyFile) : file.Tightens file :=
  ⟨.refl _, .refl _, .refl _⟩

/-- Adding rules for keys that have none is the plainest way to tighten a file. -/
theorem PolicyFile.tightens_append (file : PolicyFile)
    (risks : List (RiskLevel × PolicyVerdict)) (tools : List (String × PolicyVerdict))
    (external : List (ExternalCapability × PolicyVerdict)) :
    file.Tightens { file with
      risks := file.risks ++ risks
      tools := file.tools ++ tools
      externalCapabilities := file.externalCapabilities ++ external } :=
  ⟨.append _ _, .append _ _, .append _ _⟩

/-- Either loaded layer, or both, tightened. -/
structure PolicyEngine.Tightens (engine more : PolicyEngine) : Prop where
  user : ∀ stricter, more.user = .loaded stricter →
    ∃ file, engine.user = .loaded file ∧ file.Tightens stricter
  repository : ∀ stricter, more.repository = .loaded stricter →
    ∃ rules, engine.repository = .loaded rules ∧ RepositoryTightens rules stricter

/-- A rule that matches is still matched by one no less strict. -/
theorem PolicyFile.Tightens.matching {file more : PolicyFile} (tightens : file.Tightens more)
    {request : PolicyRequest} {rule : PolicyVerdict × String}
    (member : rule ∈ file.matching request) :
    ∃ stricter ∈ more.matching request, rule.1 ≤ stricter.1 := by
  simp only [PolicyFile.matching, List.mem_filterMap, List.mem_cons, List.not_mem_nil, or_false,
    id_eq, exists_eq_right] at member ⊢
  rcases member with tool | risk | external
  · obtain ⟨verdict, present, rfl⟩ := Option.map_eq_some_iff.mp tool.symm
    obtain ⟨stricter, kept, bound⟩ := tightens.tools _ _ present
    exact ⟨(stricter, _), .inl (by rw [kept]; rfl), bound⟩
  · obtain ⟨verdict, present, rfl⟩ := Option.map_eq_some_iff.mp risk.symm
    obtain ⟨stricter, kept, bound⟩ := tightens.risks _ _ present
    exact ⟨(stricter, _), .inr (.inl (by rw [kept]; rfl)), bound⟩
  · obtain ⟨context, given, rule⟩ := Option.bind_eq_some_iff.mp external.symm
    obtain ⟨verdict, present, rfl⟩ := Option.map_eq_some_iff.mp rule
    obtain ⟨stricter, kept, bound⟩ := tightens.externalCapabilities _ _ present
    exact ⟨(stricter, _), .inr (.inr (by rw [given, Option.bind_some, kept]; rfl)), bound⟩

private theorem foldl_mem (rest : List (PolicyVerdict × String)) (first : PolicyVerdict × String) :
    rest.foldl (fun best next => if best.1 ≤ next.1 then next else best) first ∈ first :: rest := by
  induction rest generalizing first with
  | nil => exact List.mem_cons_self
  | cons next rest ih =>
    rw [List.foldl_cons]
    rcases List.mem_cons.mp (ih (if first.1 ≤ next.1 then next else first)) with same | later
    · rw [same]
      split_ifs
      · exact List.mem_cons_of_mem _ List.mem_cons_self
      · exact List.mem_cons_self
    · exact List.mem_cons_of_mem _ (List.mem_cons_of_mem _ later)

theorem PolicyFile.selected_mem {file : PolicyFile} {request : PolicyRequest}
    {rule : PolicyVerdict × String} (selected : file.selected request = some rule) :
    rule ∈ file.matching request := by
  unfold PolicyFile.selected at selected
  cases rules : file.matching request with
  | nil => rw [rules] at selected; cases selected
  | cons first rest =>
    rw [rules] at selected
    obtain rfl := Option.some.inj selected
    exact foldl_mem rest first

/-- What a layer binds is monotone in what stood before it and in its own rules. -/
theorem foldLayer_mono {standing stricter : Standing} {file more : PolicyFile}
    {request : PolicyRequest} (raised : standing.verdict ≤ stricter.verdict)
    (tightens : file.Tightens more) (layer : PolicySource) :
    (foldLayer standing (file.selected request) layer).verdict ≤
      (foldLayer stricter (more.selected request) layer).verdict := by
  cases selected : file.selected request with
  | none => exact raised.trans (le_foldLayer _ _ _)
  | some rule =>
    obtain ⟨kept, member, bound⟩ := tightens.matching (file.selected_mem selected)
    obtain ⟨best, strictest, above⟩ := more.le_selected member
    have bound : rule.1 ≤ (foldLayer stricter (more.selected request) layer).verdict := by
      rw [strictest]
      exact (bound.trans above).trans (selected_le_foldLayer stricter best layer)
    rw [foldLayer]
    split_ifs
    · exact bound
    · exact raised.trans (le_foldLayer _ _ _)

theorem layered_mono {user stricter : PolicyFile} {repository more : Option PolicyFile}
    {request : PolicyRequest} (users : user.Tightens stricter)
    (repositories : RepositoryTightens repository more) :
    (layered user repository request).verdict ≤ (layered stricter more request).verdict := by
  have first : (layered user none request).verdict ≤ (layered stricter none request).verdict :=
    foldLayer_mono (le_refl _) users .userPolicy
  cases repository with
  | none =>
    cases more with
    | none => exact first
    | some more => exact first.trans (le_foldLayer _ _ _)
  | some repository =>
    obtain ⟨more, rfl, tightens⟩ := repositories repository rfl
    exact foldLayer_mono first tightens .repositoryPolicy

/-- An ask that is not answered by a grant stays at least an ask. -/
theorem conclude_ask {request : PolicyRequest} {standing : Standing}
    (asks : standing.verdict = .ask) : (conclude request standing).verdict =
      if request.grants.any (answers request) then .allow
      else if request.mode = .nonInteractive then .deny else .ask := by
  unfold conclude
  simp only [asks, true_and]
  split_ifs
  · rfl
  · cases request.external <;> rfl
  · rfl

theorem conclude_verdict_allow {request : PolicyRequest} {standing : Standing}
    (allows : standing.verdict = .allow) : (conclude request standing).verdict = .allow := by
  unfold conclude
  rw [allows, if_neg fun both => PolicyVerdict.noConfusion both.1,
    if_neg fun both => PolicyVerdict.noConfusion both.1]
  rfl

/-- Grants and the noninteractive rule see only the verdict, and keep its order. -/
theorem conclude_mono {request : PolicyRequest} {standing stricter : Standing}
    (raised : standing.verdict ≤ stricter.verdict) :
    (conclude request standing).verdict ≤ (conclude request stricter).verdict := by
  cases after : stricter.verdict with
  | deny =>
    rw [conclude_deny after]
    exact PolicyVerdict.le_deny _
  | ask =>
    cases before : standing.verdict with
    | allow =>
      rw [conclude_verdict_allow before]
      exact PolicyVerdict.allow_le _
    | ask => rw [conclude_ask before, conclude_ask after]
    | deny => rw [before, after] at raised; exact absurd raised (by decide)
  | allow =>
    have before : standing.verdict = .allow :=
      le_antisymm (raised.trans_eq after) (PolicyVerdict.allow_le _)
    rw [conclude_verdict_allow before]
    exact PolicyVerdict.allow_le _

/-- Rules added to either file, or made stricter, never loosen a verdict. -/
theorem evaluate_mono {engine more : PolicyEngine} (tightens : engine.Tightens more)
    (request : PolicyRequest) :
    (engine.evaluate request).verdict ≤ (more.evaluate request).verdict := by
  obtain ⟨moreUser, moreRepository⟩ := more
  cases refused : externalRefusal request with
  | some decision => simp only [PolicyEngine.evaluate, refused, le_refl]
  | none =>
    cases forcing : request.forcePush.isForcing with
    | true => simp only [PolicyEngine.evaluate, refused, forcing, if_true, le_refl]
    | false =>
      cases moreUser with
      | failed error =>
        refine (PolicyVerdict.le_deny _).trans_eq ?_
        simp only [PolicyEngine.evaluate, refused, forcing, Bool.false_eq_true, if_false]
        rfl
      | loaded stricter =>
        cases moreRepository with
        | failed error =>
          refine (PolicyVerdict.le_deny _).trans_eq ?_
          simp only [PolicyEngine.evaluate, refused, forcing, Bool.false_eq_true, if_false]
          rfl
        | loaded moreRules =>
          obtain ⟨user, repository⟩ := engine
          obtain ⟨file, rfl, users⟩ := tightens.user stricter rfl
          obtain ⟨rules, rfl, repositories⟩ := tightens.repository moreRules rfl
          simp only [PolicyEngine.evaluate, refused, forcing, Bool.false_eq_true, if_false]
          exact conclude_mono (layered_mono users repositories)

/-- Requests for one call that may differ in the risk it was classified at. An external context
records a classified risk of its own, which counts from the declared risk up. -/
structure PolicyRequest.SameCall (request other : PolicyRequest) : Prop where
  descriptor : request.descriptor = other.descriptor
  trust : request.trust = other.trust
  mode : request.mode = other.mode
  grants : request.grants = other.grants
  forcePush : request.forcePush = other.forcePush
  external : request.external.map (·.flooredAt request.descriptor.risk) =
    other.external.map (·.flooredAt request.descriptor.risk)

/-- The effective risk is that of the contexts floored at the declared risk. -/
theorem PolicyRequest.risk_eq_floored (request : PolicyRequest) : request.risk =
    ((request.external.map (·.flooredAt request.descriptor.risk)).map (·.riskFloor)).elim
      (max request.classification.risk request.descriptor.risk)
      (max (max request.classification.risk request.descriptor.risk) ·) := by
  unfold risk
  cases request.external with
  | none => rfl
  | some external =>
    simp only [Option.map_some, Option.elim_some, ExternalPolicyContext.riskFloor_flooredAt]
    rw [← max_assoc (max _ _), max_assoc _ request.descriptor.risk request.descriptor.risk, max_self]

/-- Understating the risk of a call does not lower its effective risk. -/
theorem PolicyRequest.SameCall.risk_eq {request other : PolicyRequest}
    (same : request.SameCall other) (below : request.classification.risk ≤ request.descriptor.risk)
    (declared : other.classification.risk ≤ other.descriptor.risk) : request.risk = other.risk := by
  rw [request.risk_eq_floored, other.risk_eq_floored, ← same.descriptor, same.external,
    max_eq_right below, max_eq_right (same.descriptor ▸ declared)]

/-- What the declaration and identity checks refuse does not depend on the classified risk. -/
theorem PolicyRequest.SameCall.externalRefusal_verdict {request other : PolicyRequest}
    (same : request.SameCall other) : (externalRefusal request).map (·.verdict) =
      (externalRefusal other).map (·.verdict) := by
  have declared : request.declaredExternal = other.declaredExternal := by
    simp only [PolicyRequest.declaredExternal, same.descriptor]
  have contexts := same.external
  unfold externalRefusal
  rw [declared, same.descriptor]
  by_cases many : 1 < other.declaredExternal.length
  · rw [if_pos many, if_pos many]
    rfl
  · rw [if_neg many, if_neg many]
    cases mine : request.external <;> cases theirs : other.external <;>
      simp only [mine, theirs, Option.map_some, Option.map_none, reduceCtorEq, Option.some.injEq]
        at contexts
    · simp only [Option.map_map]
      rfl
    · next context otherContext =>
      have capability : context.capability = otherContext.capability :=
        congrArg (·.capability) contexts
      have identity : context.identity = otherContext.identity := congrArg (·.identity) contexts
      have declaration : context.validateDeclaration other.descriptor.capabilities =
          otherContext.validateDeclaration other.descriptor.capabilities := by
        simp only [ExternalPolicyContext.validateDeclaration, capability]
      have kinds : context.invalidIdentityDenialKind = otherContext.invalidIdentityDenialKind := by
        simp only [ExternalPolicyContext.invalidIdentityDenialKind,
          ExternalPolicyContext.identityDenialKind, capability, identity]
      simp only [declaration, kinds]
      cases otherContext.validateDeclaration other.descriptor.capabilities with
      | error reason => rfl
      | ok _ => cases otherContext.invalidIdentityDenialKind <;> rfl

/-- Every input of the layers but the classification is the same for one call. -/
theorem PolicyRequest.SameCall.layered_eq {request other : PolicyRequest}
    (same : request.SameCall other) (risk : request.risk = other.risk) (user : PolicyFile)
    (repository : Option PolicyFile) :
    layered user repository request = layered user repository other := by
  have capability : request.external.map (·.capability) = other.external.map (·.capability) := by
    simpa only [Option.map_map, Function.comp_def, ExternalPolicyContext.flooredAt]
      using congrArg (Option.map (·.capability)) same.external
  have matching (file : PolicyFile) : file.matching request = file.matching other := by
    unfold PolicyFile.matching
    rw [risk, same.descriptor]
    cases mine : request.external <;> cases theirs : other.external <;>
      simp only [mine, theirs, Option.map_some, Option.map_none, reduceCtorEq, Option.some.injEq]
        at capability
    · rfl
    · simp only [Option.bind_some, capability]
  have selected (file : PolicyFile) : file.selected request = file.selected other := by
    rw [PolicyFile.selected, matching, PolicyFile.selected]
  have start : builtIn request = builtIn other := by
    unfold builtIn
    rw [risk, same.trust]
  simp only [layered, start, selected]

/-- A grant answers the call, at whatever risk it was classified. -/
theorem PolicyRequest.SameCall.answers_eq {request other : PolicyRequest}
    (same : request.SameCall other) (risk : request.risk = other.risk) (grant : RunGrant) :
    answers request grant = answers other grant := by
  have identity : request.external.map (·.identity) = other.external.map (·.identity) := by
    simpa only [Option.map_map, Function.comp_def, ExternalPolicyContext.flooredAt]
      using congrArg (Option.map (·.identity)) same.external
  unfold answers
  rw [risk]
  cases mine : request.external <;> cases theirs : other.external <;>
    simp only [mine, theirs, Option.map_some, Option.map_none, reduceCtorEq, Option.some.injEq]
      at identity
  · rfl
  · simp only [identity]

theorem conclude_verdict (request : PolicyRequest) (standing : Standing) :
    (conclude request standing).verdict = match standing.verdict with
      | .allow => .allow
      | .ask => if request.grants.any (answers request) then .allow
        else if request.mode = .nonInteractive then .deny else .ask
      | .deny => .deny := by
  cases stands : standing.verdict with
  | allow => exact conclude_verdict_allow stands
  | ask => exact conclude_ask stands
  | deny => exact conclude_deny stands

/-- A call classified below the declared risk is decided as one classified at it. -/
theorem evaluate_sameCall {request other : PolicyRequest} (same : request.SameCall other)
    (below : request.classification.risk ≤ request.descriptor.risk)
    (declared : other.classification.risk = other.descriptor.risk) (engine : PolicyEngine) :
    (engine.evaluate request).verdict = (engine.evaluate other).verdict := by
  have risk := same.risk_eq below declared.le
  have refusals := same.externalRefusal_verdict
  have answers : answers request = answers other := funext (same.answers_eq risk)
  unfold PolicyEngine.evaluate
  cases mine : externalRefusal request <;> cases theirs : externalRefusal other <;>
    simp only [mine, theirs, Option.map_some, Option.map_none, reduceCtorEq, Option.some.injEq]
      at refusals
  · dsimp only
    rw [same.forcePush]
    split_ifs
    · rfl
    · obtain ⟨user, repository⟩ := engine
      cases user with
      | failed error => rfl
      | loaded user =>
        cases repository with
        | failed error => rfl
        | loaded repository =>
          simp only [conclude_verdict, same.layered_eq risk, same.grants, same.mode, answers]
  · exact refusals

/-- Adding rules to either file never loosens a verdict, and understating the risk of a call does
not change it. -/
theorem tightening_never_loosens (engine : PolicyEngine) :
    (∀ more, engine.Tightens more → ∀ request,
      (engine.evaluate request).verdict ≤ (more.evaluate request).verdict) ∧
    ∀ request other : PolicyRequest, request.SameCall other →
      request.classification.risk ≤ request.descriptor.risk →
      other.classification.risk = other.descriptor.risk →
      (engine.evaluate request).verdict = (engine.evaluate other).verdict := by
  refine ⟨fun more tightens request => evaluate_mono tightens request, ?_⟩
  intro request other same below declared
  exact evaluate_sameCall same below declared engine

/-- An untrusted repository denies workspace writes the built-in table asks about. -/
def repositoryDenies : PolicyEngine :=
  ⟨.loaded .empty, .loaded (some { PolicyFile.empty with risks := [(.workspaceWrite, .deny)] })⟩

/-- A workspace write, classified at some risk. -/
def writeRequest (risk : RiskLevel) : PolicyRequest where
  descriptor := ⟨⟨"fs.write", "1.0.0"⟩, .workspaceWrite, [], false⟩
  classification := ⟨risk, .none, by intro forcing; cases forcing⟩
  trust := .trusted
  mode := .interactive
  grants := []
  external := none

theorem tightening_never_loosens_sample :
    (PolicyEngine.evaluate ⟨.loaded .empty, .loaded (some .empty)⟩ (writeRequest .observe)).verdict ≤
      (repositoryDenies.evaluate (writeRequest .observe)).verdict ∧
    (repositoryDenies.evaluate (writeRequest .observe)).verdict =
      (repositoryDenies.evaluate (writeRequest .workspaceWrite)).verdict := by
  have tightens : PolicyEngine.Tightens ⟨.loaded .empty, .loaded (some .empty)⟩ repositoryDenies := by
    refine ⟨?_, ?_⟩
    · rintro stricter rules
      obtain rfl := LoadedPolicy.loaded.inj rules
      exact ⟨.empty, rfl, .refl _⟩
    · rintro stricter rules
      obtain rfl := LoadedPolicy.loaded.inj rules
      refine ⟨some .empty, rfl, fun file same => ?_⟩
      obtain rfl := Option.some.inj same
      exact ⟨_, rfl, PolicyFile.tightens_append .empty [(.workspaceWrite, .deny)] [] []⟩
  exact ⟨(tightening_never_loosens _).1 repositoryDenies tightens (writeRequest .observe),
    (tightening_never_loosens repositoryDenies).2 (writeRequest .observe)
      (writeRequest .workspaceWrite) ⟨rfl, rfl, rfl, rfl, rfl, rfl⟩ (by decide) rfl⟩

end Harkness.Runtime.Policy
