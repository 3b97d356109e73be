import Harkness.Runtime.Policy.Engine

/-! # The evaluator against the validator

Every decision the evaluator returns passes the checks on its own fields. The checks on its
external context are passed as well, except where the evaluator refused the declaration and the
identity happens to be bad in a way that has a denial kind of its own: the evaluator names the
declaration and the validator expects the identity's kind.
-/

namespace Harkness.Runtime.Policy

private theorem nonblank_append_left {left : String} (nonblank : isBlank left = false)
    (right : String) : isBlank (left ++ right) = false := by
  rw [isBlank_append, nonblank, Bool.false_and]

private theorem nonblank_append_right (left : String) {right : String}
    (nonblank : isBlank right = false) : isBlank (left ++ right) = false := by
  rw [isBlank_append, nonblank, Bool.and_false]

private theorem nonblank_ofList {first : Char} {rest : List Char} (dark : isWhiteSpace first = false) :
    isBlank (String.ofList (first :: rest)) = false := by
  rw [isBlank, String.toList_ofList, List.all_cons, dark, Bool.false_and]

private theorem nonblank_cons (first : Char) {rest : List Char}
    (nonblank : isBlank (String.ofList rest) = false) :
    isBlank (String.ofList (first :: rest)) = false := by
  rw [isBlank, String.toList_ofList] at nonblank
  rw [isBlank, String.toList_ofList, List.all_cons, nonblank, Bool.and_false]

private theorem denied_nonblank (reason : String) : isBlank ("denied: " ++ reason) = false :=
  nonblank_append_left (nonblank_ofList (by decide)) reason

/-- The checks a decision's own fields pass, whatever its external context. -/
structure PolicyDecision.Formed (decision : PolicyDecision) : Prop where
  explained : isBlank decision.reason = false
  oneCall : decision.oneCallOnly = true → decision.verdict = .ask
  granted : decision.source = .runGrant → decision.verdict = .allow
  denied : ∀ kind, decision.denialKind = some kind →
    decision.verdict = .deny ∧ kind ∈ externalPolicyDenialKinds

/-- Only the external checks remain for a decision whose own fields are in order. -/
theorem PolicyDecision.Formed.validate_eq {decision : PolicyDecision} (formed : decision.Formed) :
    decision.validate = decision.validateExternal := by
  have oneCall : ¬(decision.oneCallOnly = true ∧ decision.verdict ≠ .ask) :=
    fun both => both.2 (formed.oneCall both.1)
  have granted : ¬(decision.source = .runGrant ∧ decision.verdict ≠ .allow) :=
    fun both => both.2 (formed.granted both.1)
  have denied : ¬(decision.denialKind.isSome = true ∧ decision.verdict ≠ .deny) := by
    rintro ⟨present, differs⟩
    obtain ⟨kind, same⟩ := Option.isSome_iff_exists.mp present
    exact differs (formed.denied kind same).1
  have known : ¬(decision.denialKind.any fun kind =>
      !externalPolicyDenialKinds.contains kind) = true := by
    cases same : decision.denialKind with
    | none => exact Bool.false_ne_true
    | some kind =>
      have member := List.contains_iff_mem.mpr (formed.denied kind same).2
      rw [Option.any_some, member]
      exact Bool.false_ne_true
  rw [PolicyDecision.validate, formed.explained, if_neg Bool.false_ne_true, if_neg oneCall,
    if_neg granted, if_neg denied, if_neg known]

/-- The layers always say why, and never in a grant's name. -/
structure Standing.Explained (standing : Standing) : Prop where
  explained : isBlank standing.reason = false
  ungranted : standing.source ≠ .runGrant

theorem builtIn_explained (request : PolicyRequest) : (builtIn request).Explained := by
  unfold builtIn
  split
  · refine ⟨nonblank_append_right _ ?_, PolicySource.noConfusion⟩
    exact nonblank_cons _ (nonblank_ofList (by decide))
  · refine ⟨?_, PolicySource.noConfusion⟩
    refine nonblank_append_left (nonblank_append_left (nonblank_append_right _ ?_) _) _
    exact nonblank_cons _ (nonblank_ofList (by decide))
  · exact ⟨nonblank_ofList (by decide), PolicySource.noConfusion⟩
  · exact ⟨nonblank_ofList (by decide), PolicySource.noConfusion⟩

theorem foldLayer_explained {standing : Standing} (explained : standing.Explained)
    (selected : Option (PolicyVerdict × String)) {layer : PolicySource}
    (ungranted : layer ≠ .runGrant) : (foldLayer standing selected layer).Explained := by
  unfold foldLayer
  split
  · exact explained
  · split_ifs with stricter
    · refine ⟨?_, ungranted⟩
      refine nonblank_append_left (nonblank_append_right _ ?_) _
      exact nonblank_cons _ (nonblank_ofList (by decide))
    · exact explained

theorem layered_explained (user : PolicyFile) (repository : Option PolicyFile)
    (request : PolicyRequest) : (layered user repository request).Explained := by
  have standing : (foldLayer (builtIn request) (user.selected request) .userPolicy).Explained :=
    foldLayer_explained (builtIn_explained request) _ (by decide)
  cases repository with
  | none => exact standing
  | some repository => exact foldLayer_explained standing _ (by decide)

theorem refusal_formed (request : PolicyRequest) (reason : String) {kind : String}
    (known : kind ∈ externalPolicyDenialKinds) : (refusal request reason kind).Formed where
  explained := denied_nonblank reason
  oneCall one := by cases one
  granted grant := by cases grant
  denied other same := by
    obtain rfl := Option.some.inj same
    exact ⟨rfl, known⟩

theorem denied_formed (request : PolicyRequest) (reason : String) {source : PolicySource}
    (ungranted : source ≠ .runGrant) :
    ((PolicyDecision.new .deny ("denied: " ++ reason) source false).forRequest request).Formed where
  explained := denied_nonblank reason
  oneCall one := by cases one
  granted grant := absurd grant ungranted
  denied kind same := by cases same

theorem conclude_formed (request : PolicyRequest) {standing : Standing}
    (explained : standing.Explained) : (conclude request standing).Formed := by
  unfold conclude
  split_ifs with granted headless
  · exact {
      explained := nonblank_ofList (by decide)
      oneCall := fun one => Bool.noConfusion one
      granted := fun _ => rfl
      denied := fun kind same => by cases same }
  · have plain := denied_formed request
      ("noninteractive execution cannot answer approval; " ++ standing.reason) explained.ungranted
    cases external : request.external with
    | none => exact plain
    | some context =>
      refine { plain with denied := fun kind same => ⟨rfl, ?_⟩ }
      obtain rfl := Option.some.inj same
      exact noninteractiveDenialKind_mem context.capability
  · exact {
      explained := explained.explained
      oneCall := fun one => beq_iff_eq.mp (Bool.and_eq_true_iff.mp one).1
      granted := fun grant => absurd grant explained.ungranted
      denied := fun kind same => by cases same }

/-- Every decision the evaluator returns is in order in its own fields. -/
theorem evaluate_formed (engine : PolicyEngine) (request : PolicyRequest) :
    (engine.evaluate request).Formed := by
  have evaluated := evaluate_cases engine request
  generalize engine.evaluate request = decision at evaluated
  cases evaluated with
  | undeclared _ => exact refusal_formed request _ (by decide)
  | unidentified _ _ invalid =>
    exact refusal_formed request _ (ExternalPolicyContext.invalidIdentityDenialKind_mem invalid)
  | forced _ _ => exact denied_formed request _ (by decide)
  | failed _ layer =>
    refine denied_formed request _ ?_
    rcases layer with rfl | rfl <;> decide
  | concluded _ _ _ => exact conclude_formed request (layered_explained _ _ request)

/-- The two classifications of a request's external facts agree: its tool declares the operation
named, or the identity is not bad in a way of its own. -/
def ClassificationsAgree (request : PolicyRequest) : Prop :=
  ∀ external, request.external = some external → request.Declares external ∨
    external.invalidIdentityDenialKind = none ∨
    external.invalidIdentityDenialKind = some externalIdentityContextInvalid

instance (request : PolicyRequest) : Decidable (ClassificationsAgree request) :=
  match present : request.external with
  | none => .isTrue fun external other => by rw [present] at other; cases other
  | some external =>
    decidable_of_iff (request.Declares external ∨ external.invalidIdentityDenialKind = none ∨
        external.invalidIdentityDenialKind = some externalIdentityContextInvalid)
      ⟨fun holds other same => by
          obtain rfl := Option.some.inj (present.symm.trans same); exact holds,
        fun agree => agree external present⟩

/-- The external checks pass when the identity is the operation's and any denial kind is the
operation's own. -/
theorem validateExternal_of_identified {decision : PolicyDecision} {request : PolicyRequest}
    (subject : decision.externalRequest = request.external)
    (identified : ∀ external, request.external = some external →
      external.validateIdentityShape = .ok ())
    (denial : decision.denialKind = none ∨ ∃ external, request.external = some external ∧
      decision.denialKind = some external.capability.noninteractiveDenialKind) :
    decision.validateExternal = .ok () := by
  unfold PolicyDecision.validateExternal
  rw [subject]
  cases present : request.external with
  | none =>
    rcases denial with none | ⟨external, other, _⟩
    · simp only [none, Option.isSome_none, Bool.false_eq_true, false_and, if_false]
    · rw [present] at other
      cases other
  | some external =>
    simp only [external.current, ne_eq, not_true_eq_false, if_false, identified external present]
    rcases denial with none | ⟨other, same, kind⟩
    · rw [none]
      rfl
    · obtain rfl := Option.some.inj (present.symm.trans same)
      simp only [kind, Option.any_some, bne_self_eq_false, Bool.false_and, Bool.false_eq_true,
        if_false]

/-- A refusal under a denial kind passes the external checks exactly when that is the kind the
identity calls for, where the identity is bad. -/
theorem refusal_validateExternal {request : PolicyRequest} {external : ExternalPolicyContext}
    (present : request.external = some external) (reason kind : String)
    (shared : external.invalidIdentityDenialKind = none → kind = externalIdentityContextInvalid) :
    (refusal request reason kind).validateExternal = .ok () ↔
      external.invalidIdentityDenialKind = none ∨
        external.invalidIdentityDenialKind = some kind := by
  have evaluated : (refusal request reason kind).externalRequest = some external := present
  unfold PolicyDecision.validateExternal
  rw [evaluated]
  simp only [external.current, ne_eq, not_true_eq_false, if_false]
  cases shape : external.validateIdentityShape with
  | ok _ =>
    have valid := external.invalidIdentityDenialKind_eq_none.mpr shape
    obtain rfl := shared valid
    refine iff_of_true ?_ (.inl valid)
    simp only [refusal, PolicyDecision.deniedAs, Option.any_some, bne_self_eq_false,
      Bool.and_false, Bool.false_eq_true, if_false]
  | error _ =>
    have invalid : external.invalidIdentityDenialKind ≠ none := by
      intro valid
      rw [external.invalidIdentityDenialKind_eq_none.mp valid] at shape
      cases shape
    simp only [refusal, PolicyDecision.deniedAs, PolicyDecision.forRequest, PolicyDecision.new,
      true_and, invalid, false_or]
    split_ifs with agrees
    · exact iff_of_true rfl agrees.symm
    · exact iff_of_false (by intro same; cases same) (fun same => agrees same.symm)

/-- Without a context, a refusal passes only under the kind a missing context has. -/
theorem refusal_validateExternal_local {request : PolicyRequest} (absent : request.external = none)
    (reason : String) :
    (refusal request reason externalIdentityContextInvalid).validateExternal = .ok () := by
  simp only [PolicyDecision.validateExternal, refusal, PolicyDecision.deniedAs,
    PolicyDecision.forRequest, absent, ne_eq, not_true_eq_false, and_false, if_false]

private theorem agree_of_identified {request : PolicyRequest}
    (identified : ∀ external, request.external = some external →
      external.validateIdentityShape = .ok ()) : ClassificationsAgree request :=
  fun external present =>
    .inr (.inl (external.invalidIdentityDenialKind_eq_none.mpr (identified external present)))

theorem conclude_validateExternal {request : PolicyRequest}
    (identified : ∀ external, request.external = some external →
      external.validateIdentityShape = .ok ()) (standing : Standing) :
    (conclude request standing).validateExternal = .ok () := by
  unfold conclude
  split_ifs with granted headless
  · exact validateExternal_of_identified rfl identified (.inl rfl)
  · cases present : request.external with
    | none => exact validateExternal_of_identified rfl identified (.inl rfl)
    | some external =>
      exact validateExternal_of_identified rfl identified (.inr ⟨external, present, rfl⟩)
  · exact validateExternal_of_identified rfl identified (.inl rfl)

/-- A decision the evaluator returns passes validation exactly when the two classifications of
the request's external facts agree. -/
theorem evaluate_validate_iff (engine : PolicyEngine) (request : PolicyRequest) :
    (engine.evaluate request).validate = .ok () ↔ ClassificationsAgree request := by
  rw [(evaluate_formed engine request).validate_eq]
  have evaluated := evaluate_cases engine request
  generalize engine.evaluate request = decision at evaluated
  cases evaluated with
  | @undeclared reason differs =>
    cases present : request.external with
    | none =>
      refine iff_of_true (refusal_validateExternal_local present reason) ?_
      intro external other
      rw [present] at other
      cases other
    | some external =>
      rw [refusal_validateExternal present reason _ fun _ => rfl]
      constructor
      · intro agree other same
        obtain rfl := Option.some.inj (present.symm.trans same)
        exact .inr agree
      · intro agree
        exact (agree external present).resolve_left (differs external present)
  | @unidentified external reason kind present declares invalid =>
    have rejected : external.invalidIdentityDenialKind ≠ none := by rw [invalid]; exact nofun
    refine iff_of_true ?_ ?_
    · exact (refusal_validateExternal present reason kind (absurd · rejected)).mpr (.inr invalid)
    · intro other same
      obtain rfl := Option.some.inj (present.symm.trans same)
      exact .inl declares
  | forced identified _ =>
    exact iff_of_true (validateExternal_of_identified rfl identified (.inl rfl))
      (agree_of_identified identified)
  | failed identified _ =>
    exact iff_of_true (validateExternal_of_identified rfl identified (.inl rfl))
      (agree_of_identified identified)
  | concluded identified _ _ =>
    have shaped := fun external present => (identified external present).2
    exact iff_of_true (conclude_validateExternal shaped _) (agree_of_identified shaped)

end Harkness.Runtime.Policy
