import Harkness.Machine.OneShot
import Harkness.Runtime.Approval.Matcher

/-! # A question is answered once

Deciding and resolving are the only operations on a request. Each is refused without effect or takes
the request out of `pending`, so a run of them, whatever the clocks and answers, ends where it began
or at the result of the one operation that was accepted.
-/

namespace Harkness.Runtime.Approval

/-- One call on a request, with the answer and the clock the caller supplies. -/
inductive Operation where
  | decide (decision : ApprovalDecision)
  | resolve (target : ApprovalState) (at_ : Instant)
deriving DecidableEq

namespace ApprovalRequest

def apply (self : ApprovalRequest) : Operation → Except ApprovalError Unit × ApprovalRequest
  | .decide decision => self.decide decision
  | .resolve target at_ => self.resolve target at_

/-- The two ways out of `pending`. -/
inductive Ends (self : ApprovalRequest) : Operation → ApprovalRequest → Prop
  | decided {decision : ApprovalDecision}
      (pending : self.state = .pending)
      (answers : decision.approvalId = self.id)
      (inTime : self.isExpired decision.decidedAt = false)
      (offered : ∀ scope, decision.scope = some scope → scope ∈ self.grantableScopes) :
      Ends self (.decide decision)
        { self with
          state := decision.verdict.state
          resolvedAt := some decision.decidedAt
          effectiveScope := decision.scope.getD self.effectiveScope
          decision := some decision }
  | resolved {target : ApprovalState} {at_ : Instant}
      (pending : self.state = .pending)
      (unanswered : target = .expired ∨ target = .cancelled ∨ target = .superseded) :
      Ends self (.resolve target at_) { self with state := target, resolvedAt := some at_ }

theorem mem_grantableScopes {self : ApprovalRequest} {scope : ApprovalScope} :
    scope ∈ self.grantableScopes ↔ scope = .exactCall ∨ scope = self.effectiveScope := by
  unfold grantableScopes
  split_ifs with exact_
  · rw [List.mem_singleton, exact_, or_self]
  · rw [List.mem_cons, List.mem_singleton]

theorem isTerminal_eq_false {state : ApprovalState} : state.isTerminal = false ↔ state = .pending := by
  cases state <;> decide

/-- A decision is accepted on an open question, in time, at an offered scope, and then only. -/
theorem decide_eq_ok {self next : ApprovalRequest} {decision : ApprovalDecision} :
    self.decide decision = (.ok (), next) ↔ self.Ends (.decide decision) next := by
  unfold decide
  constructor
  · intro accepted
    split_ifs at accepted with terminal other late
    · cases accepted
    · cases accepted
    · cases accepted
    · split at accepted
      · cases accepted
      · next within =>
        cases accepted
        refine .decided (isTerminal_eq_false.mp (Bool.eq_false_iff.mpr terminal)) (not_not.mp other)
          (Bool.eq_false_iff.mpr late) fun scope same => ?_
        rw [same, Option.filter_eq_none_iff] at within
        have offered := within scope rfl
        simp only [Bool.not_eq_true, decide_eq_false_iff_not, not_and_or, not_not] at offered
        exact mem_grantableScopes.mpr offered.symm
  · intro ends
    cases ends with
    | decided pending answers inTime offered =>
      have waiting := Bool.eq_false_iff.mp (isTerminal_eq_false.mpr pending)
      have within : decision.scope.filter
          (fun scope => scope ≠ self.effectiveScope ∧ scope ≠ .exactCall) = none := by
        refine Option.filter_eq_none_iff.mpr fun scope same => ?_
        have member := mem_grantableScopes.mp (offered scope same)
        simp only [Bool.not_eq_true, decide_eq_false_iff_not, not_and_or, not_not]
        exact member.symm
      rw [if_neg waiting, if_neg (not_not.mpr answers), if_neg (Bool.eq_false_iff.mp inTime), within]

/-- A resolution is accepted on an open question, to a state nobody answers, and then only. -/
theorem resolve_eq_ok {self next : ApprovalRequest} {target : ApprovalState} {at_ : Instant} :
    self.resolve target at_ = (.ok (), next) ↔ self.Ends (.resolve target at_) next := by
  have edges : (self.state, target) ∈ approvalTransitions ∧
      ¬(target = .granted ∨ target = .denied) ↔
        self.state = .pending ∧ (target = .expired ∨ target = .cancelled ∨ target = .superseded) := by
    cases self.state <;> cases target <;> decide
  unfold resolve
  constructor
  · intro accepted
    split_ifs at accepted with refused
    · cases accepted
    · cases accepted
      rw [not_or, not_not] at refused
      obtain ⟨pending, unanswered⟩ := edges.mp refused.symm
      exact .resolved pending unanswered
  · intro ends
    cases ends with
    | resolved pending unanswered =>
      have edge := edges.mpr ⟨pending, unanswered⟩
      rw [if_neg (not_or.mpr ⟨edge.2, not_not.mpr edge.1⟩)]

theorem apply_eq_ok {self next : ApprovalRequest} {operation : Operation} :
    self.apply operation = (.ok (), next) ↔ self.Ends operation next := by
  cases operation with
  | decide decision => exact decide_eq_ok
  | resolve target at_ => exact resolve_eq_ok

/-- A refused operation leaves the request as it was. -/
theorem apply_of_error {self : ApprovalRequest} {operation : Operation} {error : ApprovalError}
    (refused : (self.apply operation).1 = .error error) : (self.apply operation).2 = self := by
  cases operation with
  | decide decision =>
    change (self.decide decision).1 = _ at refused
    change (self.decide decision).2 = _
    unfold decide at refused ⊢
    split_ifs at refused ⊢ <;> first | rfl | skip
    split at refused <;> first | rfl | cases refused
  | resolve target at_ =>
    change (self.resolve target at_).1 = _ at refused
    change (self.resolve target at_).2 = _
    unfold resolve at refused ⊢
    split_ifs at refused ⊢ with unmoved
    rfl

theorem Ends.pending {self next : ApprovalRequest} {operation : Operation}
    (ends : self.Ends operation next) : self.state = .pending := by
  cases ends with
  | decided pending => exact pending
  | resolved pending => exact pending

theorem Ends.terminal {self next : ApprovalRequest} {operation : Operation}
    (ends : self.Ends operation next) : next.state.isTerminal = true := by
  cases ends with
  | @decided decision =>
    change decision.verdict.state.isTerminal = true
    cases decision.verdict <;> rfl
  | resolved _ unanswered => rcases unanswered with rfl | rfl | rfl <;> rfl

/-- A request under decisions and resolutions closes once. -/
def question : OneShot ApprovalRequest Operation ApprovalError where
  apply := apply
  closed request := request.state.isTerminal = true
  refused := apply_of_error
  opened {self operation} accepted terminal := by
    have ends := apply_eq_ok.mp (Prod.ext accepted rfl)
    rw [ends.pending] at terminal
    cases terminal
  closes {self operation} accepted := (apply_eq_ok.mp (Prod.ext accepted rfl)).terminal

/-- What opening a request fixes. -/
theorem openWithId_eq_ok {id : ApprovalId} {pending : PendingApproval} {request : ApprovalRequest}
    (opened : openWithId id pending = .ok request) :
    request = ⟨id, pending, pending.requestedScope.ceiling pending.risk, .pending, none, none⟩ := by
  unfold openWithId at opened
  dsimp only at opened
  split_ifs at opened
  split at opened
  · cases opened
  · exact (Except.ok.inj opened).symm

/-- An accepted operation keeps the question and narrows its scope at most to the one call. -/
theorem Ends.narrows {self next : ApprovalRequest} {operation : Operation}
    (ends : self.Ends operation next) : next.id = self.id ∧ next.pending = self.pending ∧
      next.effectiveScope ≤ self.effectiveScope := by
  cases ends with
  | @decided decision _ _ _ offered =>
    refine ⟨rfl, rfl, ?_⟩
    change decision.scope.getD self.effectiveScope ≤ self.effectiveScope
    cases named : decision.scope with
    | none => exact le_refl _
    | some scope =>
      rcases mem_grantableScopes.mp (offered scope named) with rfl | same
      · exact ApprovalScope.exactCall_le _
      · exact le_of_eq same
  | resolved => exact ⟨rfl, rfl, le_refl _⟩

/-- Only a decision in time makes a request a grant, at the scope the decision names. -/
theorem Ends.granted {self next : ApprovalRequest} {operation : Operation}
    (ends : self.Ends operation next) (granted : next.state = .granted) :
    ∃ decision, operation = .decide decision ∧ decision.verdict = .granted ∧
      next.decision = some decision ∧ decision.scope = some next.effectiveScope ∧
      self.isExpired decision.decidedAt = false := by
  cases ends with
  | @decided decision _ _ inTime _ =>
    have verdict : decision.verdict = .granted := by
      change decision.verdict.state = .granted at granted
      cases same : decision.verdict with
      | granted => rfl
      | denied => rw [same] at granted; cases granted
    obtain ⟨scope, named⟩ := Option.isSome_iff_exists.mp (decision.breadth.mpr verdict)
    refine ⟨decision, rfl, verdict, rfl, ?_, inTime⟩
    change decision.scope = some (decision.scope.getD self.effectiveScope)
    rw [named, Option.getD_some]
  | resolved _ unanswered =>
    change _ = ApprovalState.granted at granted
    rcases unanswered with rfl | rfl | rfl <;> cases granted

theorem isExpired_eq_false {self : ApprovalRequest} {at_ : Instant} :
    self.isExpired at_ = false ↔
      ∀ expiry, self.pending.expiresAt = some expiry → at_ < expiry := by
  unfold isExpired
  cases self.pending.expiresAt with
  | none => simp only [Option.any_none, reduceCtorEq, false_imp_iff, implies_true]
  | some expiry =>
    simp only [Option.any_some, decide_eq_false_iff_not, not_le, Option.some.injEq, forall_eq']

/-- A run leaves the request as it was, or ends it by one of its operations. -/
theorem run_ends {request final : ApprovalRequest} {operations : List Operation}
    (ran : question.run request operations = final) :
    ((question.outcomes request operations).countP OneShot.accepted = 0 ∧ final = request) ∨
      ((question.outcomes request operations).countP OneShot.accepted = 1 ∧
        ∃ operation ∈ operations, request.Ends operation final) := by
  rcases question.run_cases request operations with
    ⟨none, same⟩ | ⟨one, -, operation, member, accepted, same⟩
  · exact .inl ⟨none, ran.symm.trans same⟩
  · have result : request.apply operation = (.ok (), final) :=
      Prod.ext accepted (same.symm.trans ran)
    exact .inr ⟨one, operation, member, apply_eq_ok.mp result⟩

/-- The scope a run leaves is within the ceiling the request was opened at. -/
theorem run_effectiveScope_le {id : ApprovalId} {pending : PendingApproval}
    {request final : ApprovalRequest} {operations : List Operation}
    (opened : openWithId id pending = .ok request)
    (ran : question.run request operations = final) :
    final.effectiveScope ≤ pending.requestedScope.ceiling pending.risk := by
  obtain rfl := openWithId_eq_ok opened
  rcases run_ends ran with ⟨-, rfl⟩ | ⟨-, operation, -, ends⟩
  · exact le_refl _
  · exact ends.narrows.2.2

/-- An opened request under any decisions and resolutions, with any clocks and answers. It closes at
most once and then stays; what is refused changes nothing; the scopes it offers are the scopes it
accepts while open and in time; its scope stays within what was asked and within the ceiling of its
risk; and it is a grant only through a human's decision, made in time, for the scope it carries. -/
theorem answered_once {id : ApprovalId} {pending : PendingApproval}
    {request final : ApprovalRequest} {operations : List Operation}
    (opened : openWithId id pending = .ok request)
    (ran : question.run request operations = final) :
    (((question.outcomes request operations).countP OneShot.accepted = 0 ∧ final = request) ∨
      ((question.outcomes request operations).countP OneShot.accepted = 1 ∧
        final.state.isTerminal = true)) ∧
    (∀ before after, operations = before ++ after →
      (question.run request before).state.isTerminal = true →
      final = question.run request before) ∧
    (∀ operation error, (final.apply operation).1 = .error error →
      (final.apply operation).2 = final) ∧
    (∀ decision scope, (final.decide decision).1 = .ok () → decision.scope = some scope →
      scope ∈ final.grantableScopes) ∧
    (∀ scope via at_, final.state = .pending → final.isExpired at_ = false →
      scope ∈ final.grantableScopes →
      (final.decide (.grant final.id scope via at_)).1 = .ok ()) ∧
    final.effectiveScope ≤ pending.requestedScope ∧
    final.effectiveScope ≤ pending.requestedScope.ceiling pending.risk ∧
    (∀ grant, final.grant = some grant →
      grant.scope = final.effectiveScope ∧
      (pending.risk = .remoteWrite ∨ pending.risk = .destructive → grant.scope = .exactCall) ∧
      ∃ decision, .decide decision ∈ operations ∧ decision.verdict = .granted ∧
        final.decision = some decision ∧ decision.scope = some grant.scope ∧
        ∀ expiry, pending.expiresAt = some expiry → decision.decidedAt < expiry) := by
  have scope := run_effectiveScope_le opened ran
  refine ⟨?_, ?_, ?_, ?_, ?_, scope.trans (ApprovalScope.ceiling_le _ _), scope, ?_⟩
  · rcases run_ends ran with unmoved | ⟨one, operation, -, ends⟩
    · exact .inl unmoved
    · exact .inr ⟨one, ends.terminal⟩
  · rintro before after rfl terminal
    exact ran.symm.trans (OneShot.run_of_closed_prefix terminal)
  · exact fun operation error refused => apply_of_error refused
  · intro decision scope accepted named
    obtain ⟨next, ends⟩ : ∃ next, final.Ends (.decide decision) next :=
      ⟨_, decide_eq_ok.mp (Prod.ext accepted rfl)⟩
    cases ends with
    | decided _ _ _ offered => exact offered scope named
  · intro scope via at_ waiting inTime offered
    have ends : final.Ends (.decide (.grant final.id scope via at_)) _ :=
      .decided waiting rfl inTime fun other same => by
        obtain rfl := Option.some.inj same
        exact offered
    exact congrArg Prod.fst (decide_eq_ok.mpr ends)
  · intro grant projected
    obtain ⟨granted, breadth, -⟩ := ApprovalGrant.of_eq_some projected
    refine ⟨breadth, fun remote => ?_, ?_⟩
    · rw [ApprovalScope.ceiling, if_pos remote] at scope
      exact breadth.trans (ApprovalScope.le_exactCall scope)
    · obtain rfl := openWithId_eq_ok opened
      rcases run_ends ran with ⟨-, rfl⟩ | ⟨-, operation, member, ends⟩
      · cases granted
      · obtain ⟨decision, rfl, verdict, held, named, inTime⟩ := ends.granted granted
        refine ⟨decision, member, verdict, held, ?_, isExpired_eq_false.mp inTime⟩
        rw [named, breadth]

/-- A question asked with a deadline, and answers to it: for another question, too late, in time at
the narrower scope, and a cancellation after that. -/
def sampleQuestion : PendingApproval where
  runId := 1
  toolCallId := 2
  tool := ⟨"check.run", "1.0.0"⟩
  capabilities := []
  integrationIdentity := .none
  inputHash := 5
  inputSummary := "check.run"
  workspace := ⟨none, ["work"]⟩
  risk := .execute
  requestedScope := .toolForRun
  expiresAt := some 10
  createdAt := 0

def sampleAnswers : List Operation :=
  [.decide (.grant 9 .toolForRun .cli 2), .decide (.grant 7 .toolForRun .gui 12),
    .decide (.grant 7 .exactCall .cli 3), .resolve .cancelled 4]

/-- The answer in time is the one that counts. -/
theorem answered_once_sample : ∃ decision, .decide decision ∈ sampleAnswers ∧
    decision.verdict = .granted ∧ decision.scope = some .exactCall ∧
      ∀ expiry, sampleQuestion.expiresAt = some expiry → decision.decidedAt < expiry := by
  have opened : openWithId 7 sampleQuestion =
      .ok ⟨7, sampleQuestion, .toolForRun, .pending, none, none⟩ := rfl
  obtain ⟨-, -, -, -, -, -, -, grants⟩ :=
    answered_once opened (rfl : question.run _ sampleAnswers = _)
  obtain ⟨-, -, decision, member, verdict, -, named, inTime⟩ := grants _ rfl
  exact ⟨decision, member, verdict, named, inTime⟩

/-- The claims a record makes across its columns. -/
structure Consistent (request : ApprovalRequest) : Prop where
  scope : request.effectiveScope = request.pending.requestedScope.ceiling request.pending.risk ∨
    request.effectiveScope = .exactCall
  named : request.effectiveScope = .capabilityForRun → request.pending.capabilities ≠ []
  identity : validateIntegrationIdentity request.pending.capabilities
    request.pending.integrationIdentity = .ok ()
  resolved : request.state.isTerminal = request.resolvedAt.isSome
  decided : request.decision.isSome = true ↔ request.state = .granted ∨ request.state = .denied
  answer : ∀ decision, request.decision = some decision →
    decision.approvalId = request.id ∧ decision.verdict.state = request.state ∧
      request.isExpired decision.decidedAt = false ∧
      (decision.verdict = .granted → decision.scope = some request.effectiveScope)

theorem consistent_of_openWithId {id : ApprovalId} {pending : PendingApproval}
    {request : ApprovalRequest} (opened : openWithId id pending = .ok request) :
    request.Consistent := by
  have same := openWithId_eq_ok opened
  unfold openWithId at opened
  dsimp only at opened
  split_ifs at opened with unnamed
  split at opened
  · cases opened
  · next identity =>
    subst same
    exact {
      scope := .inl rfl
      named := fun capability empty => unnamed ⟨capability, by rw [empty]; rfl⟩
      identity := identity
      resolved := rfl
      decided := iff_of_false Bool.false_ne_true (by rintro (waiting | waiting) <;> cases waiting)
      answer := fun decision held => by cases held }

theorem Ends.consistent {self next : ApprovalRequest} {operation : Operation}
    (ends : self.Ends operation next) (consistent : self.Consistent) : next.Consistent := by
  have waiting := ends.pending
  have unanswered : self.decision = none := by
    rw [← Option.not_isSome_iff_eq_none, consistent.decided, waiting]
    decide
  cases ends with
  | @decided decision _ answers inTime offered =>
    have breadth : decision.scope.getD self.effectiveScope = .exactCall ∨
        decision.scope.getD self.effectiveScope = self.effectiveScope := by
      cases named : decision.scope with
      | none => exact .inr rfl
      | some scope => exact mem_grantableScopes.mp (offered scope named)
    exact {
      scope := by
        rcases breadth with narrowed | kept
        · exact .inr narrowed
        · exact consistent.scope.imp kept.trans kept.trans
      named := by
        intro capability
        rcases breadth with narrowed | kept
        · cases narrowed.symm.trans capability
        · exact consistent.named (kept.symm.trans capability)
      identity := consistent.identity
      resolved := by
        change decision.verdict.state.isTerminal = true
        cases decision.verdict <;> rfl
      decided := by
        change true = true ↔ decision.verdict.state = _ ∨ decision.verdict.state = _
        cases decision.verdict <;> decide
      answer := by
        intro other held
        obtain rfl := Option.some.inj held
        refine ⟨answers, rfl, inTime, fun verdict => ?_⟩
        obtain ⟨scope, named⟩ := Option.isSome_iff_exists.mp (decision.breadth.mpr verdict)
        change decision.scope = some (decision.scope.getD self.effectiveScope)
        rw [named, Option.getD_some] }
  | @resolved target _ _ closes =>
    exact {
      scope := consistent.scope
      named := consistent.named
      identity := consistent.identity
      resolved := by rcases closes with rfl | rfl | rfl <;> rfl
      decided := by
        change self.decision.isSome = true ↔ target = _ ∨ target = _
        rw [unanswered]
        rcases closes with rfl | rfl | rfl <;> decide
      answer := fun decision held => by
        change self.decision = some decision at held
        rw [unanswered] at held
        cases held }

/-- A run keeps the record consistent. -/
theorem run_consistent {request final : ApprovalRequest} {operations : List Operation}
    (consistent : request.Consistent) (ran : question.run request operations = final) :
    final.Consistent := by
  rcases run_ends ran with ⟨-, rfl⟩ | ⟨-, operation, -, ends⟩
  · exact consistent
  · exact ends.consistent consistent

private theorem checkStoredDecision_eq_ok {request : ApprovalRequest} :
    checkStoredDecision request.id request.pending request.effectiveScope request.state
        request.decision = .ok () ↔
      (request.decision.isSome = true ↔ request.state = .granted ∨ request.state = .denied) ∧
      ∀ decision, request.decision = some decision →
        decision.approvalId = request.id ∧ decision.verdict.state = request.state ∧
          request.isExpired decision.decidedAt = false ∧
          (decision.verdict = .granted → decision.scope = some request.effectiveScope) := by
  cases held : request.decision with
  | none =>
    simp only [checkStoredDecision, Option.isSome_none, Bool.false_eq_true, false_iff, reduceCtorEq,
      false_imp_iff, implies_true, and_true, ite_eq_right_iff, imp_false]
  | some decision =>
    simp only [checkStoredDecision, Option.isSome_some, true_iff, Option.some.injEq, forall_eq']
    unfold isExpired
    split_ifs with undecided other verdict late scope
    all_goals simp_all

/-- A row is rebuilt as the record it was written from. -/
theorem eq_of_fromStored {request read : ApprovalRequest}
    (rebuilt : fromStored request.id request.pending request.effectiveScope request.state
      request.resolvedAt request.decision = .ok read) : read = request := by
  unfold fromStored at rebuilt
  dsimp only at rebuilt
  split at rebuilt
  · cases rebuilt
  split at rebuilt
  · cases rebuilt
  split at rebuilt
  · cases rebuilt
  split at rebuilt
  · cases rebuilt
  split at rebuilt
  · cases rebuilt
  exact (Except.ok.inj rebuilt).symm

/-- A stored row is rebuilt exactly when the record it describes is consistent. -/
theorem fromStored_eq_ok {request : ApprovalRequest} :
    fromStored request.id request.pending request.effectiveScope request.state request.resolvedAt
        request.decision = .ok request ↔ request.Consistent := by
  unfold fromStored
  dsimp only
  constructor
  · intro rebuilt
    split at rebuilt
    · cases rebuilt
    next broader =>
    split at rebuilt
    · cases rebuilt
    next unnamed =>
    split at rebuilt
    · cases rebuilt
    next identity =>
    split at rebuilt
    · cases rebuilt
    next unresolved =>
    split at rebuilt
    · cases rebuilt
    next checked =>
    obtain ⟨decided, answer⟩ := checkStoredDecision_eq_ok.mp checked
    rw [not_and_or, not_not, not_not] at broader
    refine ⟨broader, fun capability empty => ?_, identity, not_not.mp unresolved, decided, answer⟩
    exact unnamed ⟨capability, by rw [empty]; rfl⟩
  · intro consistent
    have checked := checkStoredDecision_eq_ok.mpr ⟨consistent.decided, consistent.answer⟩
    have bounded : ¬(request.effectiveScope ≠
        request.pending.requestedScope.ceiling request.pending.risk ∧
        request.effectiveScope ≠ .exactCall) := by
      rw [not_and_or, not_not, not_not]
      exact consistent.scope
    have named : ¬(request.effectiveScope = .capabilityForRun ∧
        request.pending.capabilities.isEmpty = true) :=
      fun both => consistent.named both.1 (List.isEmpty_iff.mp both.2)
    rw [if_neg bounded, if_neg named]
    simp only [consistent.identity, consistent.resolved, checked, ne_eq, not_true_eq_false,
      if_false]

end ApprovalRequest

end Harkness.Runtime.Approval
