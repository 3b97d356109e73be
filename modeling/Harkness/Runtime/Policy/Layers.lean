import Harkness.Runtime.Policy.Engine

/-! # What the layers bind

Folding a layer never weakens what stands and is at least as strict as any rule of the layer that
matches. So a deny anywhere is a deny everywhere after it, and above plain observation an allow can
only come from a grant that answers an ask.
-/

namespace Harkness.Runtime.Policy

theorem le_foldLayer (standing : Standing) (selected : Option (PolicyVerdict × String))
    (layer : PolicySource) : standing.verdict ≤ (foldLayer standing selected layer).verdict := by
  unfold foldLayer
  split
  · exact le_refl _
  · split_ifs with stricter
    · exact le_of_lt stricter
    · exact le_refl _

theorem selected_le_foldLayer (standing : Standing) (rule : PolicyVerdict × String)
    (layer : PolicySource) : rule.1 ≤ (foldLayer standing (some rule) layer).verdict := by
  unfold foldLayer
  dsimp only
  split_ifs with stricter
  · exact le_refl _
  · exact not_lt.mp stricter

private theorem foldl_stricter (rest : List (PolicyVerdict × String))
    (first : PolicyVerdict × String) :
    let best := rest.foldl (fun best next => if best.1 ≤ next.1 then next else best) first
    first.1 ≤ best.1 ∧ ∀ rule ∈ rest, rule.1 ≤ best.1 := by
  induction rest generalizing first with
  | nil => exact ⟨le_refl _, fun rule member => absurd member List.not_mem_nil⟩
  | cons next rest ih =>
    obtain ⟨kept, others⟩ := ih (if first.1 ≤ next.1 then next else first)
    refine ⟨le_trans ?_ kept, ?_⟩
    · split_ifs with exceeded
      · exact exceeded
      · exact le_refl _
    · intro rule member
      rcases List.mem_cons.mp member with rfl | member
      · refine le_trans ?_ kept
        split_ifs with exceeded
        · exact le_refl _
        · exact le_of_not_ge exceeded
      · exact others rule member

/-- The rule a file selects is at least as strict as every rule of it that matches. -/
theorem PolicyFile.le_selected {file : PolicyFile} {request : PolicyRequest}
    {rule : PolicyVerdict × String} (member : rule ∈ file.matching request) :
    ∃ best, file.selected request = some best ∧ rule.1 ≤ best.1 := by
  unfold selected
  cases rules : file.matching request with
  | nil =>
    rw [rules] at member
    exact absurd member List.not_mem_nil
  | cons first rest =>
    refine ⟨_, rfl, ?_⟩
    obtain ⟨kept, others⟩ := foldl_stricter rest first
    rw [rules] at member
    rcases List.mem_cons.mp member with rfl | member
    · exact kept
    · exact others rule member

/-- A rule of a loaded layer that matches the request with a deny. -/
def DeniedByRule (engine : PolicyEngine) (request : PolicyRequest) : Prop :=
  ∃ file selector, (engine.user = .loaded file ∨ engine.repository = .loaded (some file)) ∧
    (.deny, selector) ∈ file.matching request

theorem builtIn_le_layered (user : PolicyFile) (repository : Option PolicyFile)
    (request : PolicyRequest) :
    (builtIn request).verdict ≤ (layered user repository request).verdict := by
  have standing := le_foldLayer (builtIn request) (user.selected request) .userPolicy
  cases repository with
  | none => exact standing
  | some repository => exact standing.trans (le_foldLayer _ _ _)

/-- Both files' matching rules are respected. -/
theorem matching_le_layered {user : PolicyFile} {repository : Option PolicyFile}
    {request : PolicyRequest} {file : PolicyFile} (layer : file = user ∨ repository = some file)
    {rule : PolicyVerdict × String} (member : rule ∈ file.matching request) :
    rule.1 ≤ (layered user repository request).verdict := by
  obtain ⟨best, selected, stricter⟩ := file.le_selected member
  rcases layer with rfl | rfl
  · have standing := selected_le_foldLayer (builtIn request) best .userPolicy
    rw [← selected] at standing
    cases repository with
    | none => exact stricter.trans standing
    | some repository => exact (stricter.trans standing).trans (le_foldLayer _ _ _)
  · refine stricter.trans ?_
    unfold layered
    dsimp only
    rw [selected]
    exact selected_le_foldLayer _ best _

/-- Above plain observation the built-in table never allows. -/
theorem builtIn_ne_allow {request : PolicyRequest} (above : request.risk ≠ .observe) :
    (builtIn request).verdict ≠ .allow := by
  unfold builtIn
  split
  · next risk => exact absurd risk above
  · exact PolicyVerdict.noConfusion
  · exact PolicyVerdict.noConfusion
  · exact PolicyVerdict.noConfusion

theorem builtIn_untrusted {request : PolicyRequest} (untrusted : request.trust = .untrusted)
    (above : request.risk ≠ .observe) : (builtIn request).verdict = .deny := by
  unfold builtIn
  rw [untrusted]
  split
  · next trusted _ => cases trusted
  · next trusted _ => cases trusted
  · next risk => exact absurd risk above
  · rfl

theorem conclude_deny {request : PolicyRequest} {standing : Standing}
    (denied : standing.verdict = .deny) : (conclude request standing).verdict = .deny := by
  unfold conclude
  rw [denied, if_neg fun both => PolicyVerdict.noConfusion both.1,
    if_neg fun both => PolicyVerdict.noConfusion both.1]
  rfl

/-- An allow is what the layers say, or a grant that answers their ask. -/
theorem conclude_allow {request : PolicyRequest} {standing : Standing}
    (allowed : (conclude request standing).verdict = .allow) : standing.verdict = .allow ∨
      standing.verdict = .ask ∧ (conclude request standing).source = .runGrant ∧
        ∃ grant ∈ request.grants, answers request grant = true := by
  unfold conclude at allowed ⊢
  split_ifs at allowed ⊢ with granted headless
  · exact .inr ⟨granted.1, rfl, List.any_eq_true.mp granted.2⟩
  · cases present : request.external <;> rw [present] at allowed <;> cases allowed
  · exact .inl allowed

/-- An evaluation denies, or reaches the layers with no force selected. -/
theorem evaluate_deny_or (engine : PolicyEngine) (request : PolicyRequest) :
    (engine.evaluate request).verdict = .deny ∨ ∃ user repository,
      engine = ⟨.loaded user, .loaded repository⟩ ∧ request.forcePush.isForcing = false ∧
        engine.evaluate request = conclude request (layered user repository request) := by
  have evaluated := evaluate_cases engine request
  generalize engine.evaluate request = decision at evaluated
  cases evaluated with
  | undeclared _ => exact .inl rfl
  | unidentified _ _ _ => exact .inl rfl
  | forced _ _ => exact .inl rfl
  | failed _ _ => exact .inl rfl
  | @concluded user repository _ unforced loaded =>
    exact .inr ⟨user, repository, loaded, unforced, rfl⟩

/-- No grant reaches past a deny of the layers. -/
theorem evaluate_deny {engine : PolicyEngine} {request : PolicyRequest}
    (denied : ∀ user repository, engine = ⟨.loaded user, .loaded repository⟩ →
      (layered user repository request).verdict = .deny) :
    (engine.evaluate request).verdict = .deny := by
  rcases evaluate_deny_or engine request with deny | ⟨user, repository, loaded, -, same⟩
  · exact deny
  · rw [same]
    exact conclude_deny (denied user repository loaded)

theorem evaluate_forced {engine : PolicyEngine} {request : PolicyRequest}
    (forcing : request.forcePush.isForcing = true) : (engine.evaluate request).verdict = .deny := by
  rcases evaluate_deny_or engine request with deny | ⟨_, _, _, unforced, _⟩
  · exact deny
  · rw [forcing] at unforced
    cases unforced

theorem evaluate_deniedByRule {engine : PolicyEngine} {request : PolicyRequest}
    (denied : DeniedByRule engine request) : (engine.evaluate request).verdict = .deny := by
  obtain ⟨file, selector, layer, member⟩ := denied
  refine evaluate_deny fun user repository loaded => ?_
  subst loaded
  have within : file = user ∨ repository = some file := by
    rcases layer with same | same
    · exact .inl (LoadedPolicy.loaded.inj same).symm
    · exact .inr (LoadedPolicy.loaded.inj same)
  exact le_antisymm (PolicyVerdict.le_deny _) (matching_le_layered within member)

theorem evaluate_untrusted {engine : PolicyEngine} {request : PolicyRequest}
    (untrusted : request.trust = .untrusted) (above : request.risk ≠ .observe) :
    (engine.evaluate request).verdict = .deny := by
  refine evaluate_deny fun user repository _ => ?_
  have bound := builtIn_le_layered user repository request
  rw [builtIn_untrusted untrusted above] at bound
  exact le_antisymm (PolicyVerdict.le_deny _) bound

/-- Above plain observation, an allow comes from a grant that answers the request. -/
theorem evaluate_allow {engine : PolicyEngine} {request : PolicyRequest}
    (allowed : (engine.evaluate request).verdict = .allow) (above : request.risk ≠ .observe) :
    (engine.evaluate request).source = .runGrant ∧
      ∃ grant ∈ request.grants, answers request grant = true := by
  rcases evaluate_deny_or engine request with deny | ⟨user, repository, -, -, same⟩
  · rw [allowed] at deny
    cases deny
  · rw [same] at allowed ⊢
    rcases conclude_allow allowed with stands | ⟨-, source, granted⟩
    · have bound := builtIn_le_layered user repository request
      rw [stands] at bound
      exact absurd (le_antisymm bound (by cases (builtIn request).verdict <;> decide))
        (builtIn_ne_allow above)
    · exact ⟨source, granted⟩

end Harkness.Runtime.Policy
