import Harkness.Runtime.Domain.Record

/-! # What the operations of the durable records do

Each operation is inverted once: an accepted one is a constructor of `Moves`, with the edge it
followed and all that it wrote. Every operation is atomic. From the two, over any sequence of
operations: the lifecycle stays well formed, each edge counts one revision, a final state is never
left, and a call that policy sent to approval runs only with an approval on record.
-/

namespace Harkness.Runtime.Domain.Record

open Policy LifecycleState

theorem requireState_eq_ok {record reason : String} {condition : Bool} {u : Unit} :
    requireState record condition reason = .ok u ↔ condition = true := by
  cases condition <;> simp [requireState]

theorem refuseWhen_eq_ok {record reason : String} {condition : Bool} {u : Unit} :
    refuseWhen record condition reason = .ok u ↔ ¬condition = true := by
  cases condition <;> simp [refuseWhen]

theorem approvalIdentity_eq_ok {record decidedBy identity : String} :
    approvalIdentity record decidedBy = .ok identity ↔
      isBlank decidedBy = false ∧ decidedBy = identity := by
  cases blank : isBlank decidedBy <;> simp [approvalIdentity, blank]

section Progress

variable {S : Type} [DecidableEq S] [LifecycleState S]

/-- An edge of the table, with room for the revision it counts. -/
def Lifecycle.Follows (self : Lifecycle S) (target : S) : Prop :=
  (self.state, target) ∈ transitions ∧ self.revision + 1 < 2 ^ 64

def Progress.moved (self : Progress S) (target : S) (at_ : Instant) : Progress S :=
  { self with lifecycle := self.lifecycle.moved target at_ }

theorem Progress.follow_eq_ok {record : String} {target : S} {at_ : Instant}
    {self next : Progress S} {u : Unit} :
    Progress.follow record target at_ self = (.ok u, next) ↔
      self.lifecycle.Follows target ∧ self.moved target at_ = next := by
  rw [follow, Mutation.focus_eq_ok]
  simp only [Lifecycle.transition_eq_ok, Lifecycle.Follows]
  constructor
  · rintro ⟨_, ⟨edge, room, rfl⟩, rfl⟩
    exact ⟨⟨edge, room⟩, rfl⟩
  · rintro ⟨⟨edge, room⟩, rfl⟩
    exact ⟨_, ⟨edge, room, rfl⟩, rfl⟩

theorem Progress.atomic_follow (record : String) (target : S) (at_ : Instant) :
    (Progress.follow record target at_).Atomic :=
  (Lifecycle.atomic_transition record target at_).focus fun _ => rfl

end Progress

namespace Execution

inductive Operation where
  | transition (target : ExecutionState) (at_ : Instant)
  | fail (failure : Failure) (at_ : Instant)
  | approve (decidedBy : String) (at_ : Instant)
  | rejectApproval (decidedBy : String) (failure : Failure) (at_ : Instant)
  | resumeAfterDenial (decidedBy : String) (at_ : Instant)

variable (name : RecordName)

def apply : Operation → Mutation RunDomainError (Progress ExecutionState) Unit
  | .transition target at_ => transition name target at_
  | .fail failure at_ => fail name failure at_
  | .approve decidedBy at_ => approve name decidedBy at_
  | .rejectApproval decidedBy failure at_ => rejectApproval name decidedBy failure at_
  | .resumeAfterDenial decidedBy at_ => resumeAfterDenial name decidedBy at_

/-- What an accepted operation on a run or a step does. -/
inductive Moves (self : Progress ExecutionState) : Operation → Progress ExecutionState → Prop
  | transition {target : ExecutionState} {at_ : Instant} :
      self.lifecycle.Follows target → target ≠ .failed →
      ¬(self.lifecycle.state = .waitingForApproval ∧ target = .running) →
      Moves self (.transition target at_) (self.moved target at_)
  | fail {failure : Failure} {at_ : Instant} :
      self.lifecycle.Follows .failed →
      Moves self (.fail failure at_) { self.moved .failed at_ with failure := some failure }
  | approve {decidedBy : String} {at_ : Instant} :
      self.lifecycle.state = .waitingForApproval → self.lifecycle.Follows .running →
      isBlank decidedBy = false →
      Moves self (.approve decidedBy at_)
        { self.moved .running at_ with
          approvals := self.approvals ++ [⟨decidedBy, .approved, max at_ self.lifecycle.updatedAt⟩] }
  | rejectApproval {decidedBy : String} {failure : Failure} {at_ : Instant} :
      self.lifecycle.state = .waitingForApproval → self.lifecycle.Follows .failed →
      isBlank decidedBy = false →
      Moves self (.rejectApproval decidedBy failure at_)
        { self.moved .failed at_ with
          failure := some failure
          approvals := self.approvals ++ [⟨decidedBy, .denied, max at_ self.lifecycle.updatedAt⟩] }
  | resumeAfterDenial {decidedBy : String} {at_ : Instant} :
      self.lifecycle.state = .waitingForApproval → self.lifecycle.Follows .running →
      isBlank decidedBy = false →
      Moves self (.resumeAfterDenial decidedBy at_) (self.moved .running at_)

theorem requireWaiting_eq_ok {self next : Progress ExecutionState} {u : Unit} :
    requireWaiting name self = (.ok u, next) ↔
      self.lifecycle.state = .waitingForApproval ∧ self = next := by
  simp only [requireWaiting, Mutation.bind_eq_ok, Mutation.read_eq_ok, Mutation.check_eq_ok,
    requireState_eq_ok, decide_eq_true_eq]
  constructor
  · rintro ⟨_, _, ⟨rfl, rfl⟩, waiting, rfl⟩
    exact ⟨waiting, rfl⟩
  · rintro ⟨waiting, rfl⟩
    exact ⟨_, _, ⟨rfl, rfl⟩, waiting, rfl⟩

theorem moves_of_apply {op : Operation} {self next : Progress ExecutionState}
    (accepted : apply name op self = (.ok (), next)) : Moves self op next := by
  cases op with
  | transition target at_ =>
    simp only [apply, transition, Mutation.bind_eq_ok, Mutation.read_eq_ok, Mutation.check_eq_ok,
      Lifecycle.validateEdge_eq_ok, refuseWhen_eq_ok, decide_eq_true_eq, Progress.follow_eq_ok]
      at accepted
    obtain ⟨_, _, ⟨rfl, rfl⟩, _, _, ⟨-, rfl⟩, _, _, ⟨notFailed, rfl⟩, _, _, ⟨ungated, rfl⟩, follows,
      rfl⟩ := accepted
    exact .transition follows notFailed ungated
  | fail failure at_ =>
    simp only [apply, fail, Mutation.bind_eq_ok, Progress.follow_eq_ok, Progress.setFailure,
      Mutation.update_eq_ok] at accepted
    obtain ⟨_, _, ⟨follows, rfl⟩, rfl⟩ := accepted
    exact .fail follows
  | approve decidedBy at_ =>
    simp only [apply, approve, Mutation.bind_eq_ok, requireWaiting_eq_ok, Mutation.check_eq_ok,
      approvalIdentity_eq_ok, Progress.follow_eq_ok, Progress.pushApproval,
      Mutation.update_eq_ok] at accepted
    obtain ⟨_, _, ⟨waiting, rfl⟩, _, _, ⟨⟨named, rfl⟩, rfl⟩, _, _, ⟨follows, rfl⟩, rfl⟩ := accepted
    exact .approve waiting follows named
  | rejectApproval decidedBy failure at_ =>
    simp only [apply, rejectApproval, Mutation.bind_eq_ok, requireWaiting_eq_ok,
      Mutation.check_eq_ok, approvalIdentity_eq_ok, Progress.follow_eq_ok, Progress.setFailure,
      Progress.pushApproval, Mutation.update_eq_ok] at accepted
    obtain ⟨_, _, ⟨waiting, rfl⟩, _, _, ⟨⟨named, rfl⟩, rfl⟩, _, _, ⟨follows, rfl⟩, _, _, rfl, rfl⟩ :=
      accepted
    exact .rejectApproval waiting follows named
  | resumeAfterDenial decidedBy at_ =>
    simp only [apply, resumeAfterDenial, Mutation.bind_eq_ok, requireWaiting_eq_ok,
      Mutation.check_eq_ok, approvalIdentity_eq_ok, Progress.follow_eq_ok] at accepted
    obtain ⟨_, _, ⟨waiting, rfl⟩, _, _, ⟨⟨named, rfl⟩, rfl⟩, follows, rfl⟩ := accepted
    exact .resumeAfterDenial waiting follows named

theorem readOnly_requireWaiting : (requireWaiting name).ReadOnly := fun _ => rfl

theorem atomic_apply (op : Operation) : (apply name op).Atomic := by
  cases op with
  | transition target at_ =>
    refine Mutation.readOnly_read.bind fun self => Mutation.readOnly_check.bind fun _ => ?_
    refine Mutation.readOnly_check.bind fun _ => Mutation.readOnly_check.bind fun _ => ?_
    exact Progress.atomic_follow _ _ _
  | fail failure at_ =>
    exact (Progress.atomic_follow _ _ _).bind fun _ => Mutation.total_update
  | approve decidedBy at_ =>
    refine (readOnly_requireWaiting name).bind fun _ => Mutation.readOnly_check.bind fun _ => ?_
    exact (Progress.atomic_follow _ _ _).bind fun _ => Mutation.total_update
  | rejectApproval decidedBy failure at_ =>
    refine (readOnly_requireWaiting name).bind fun _ => Mutation.readOnly_check.bind fun _ => ?_
    refine (Progress.atomic_follow _ _ _).bind fun _ => ?_
    exact Mutation.total_update.bind fun _ => Mutation.total_update
  | resumeAfterDenial decidedBy at_ =>
    refine (readOnly_requireWaiting name).bind fun _ => Mutation.readOnly_check.bind fun _ => ?_
    exact Progress.atomic_follow _ _ _

end Execution

namespace ToolCall

variable {ν : Type}

inductive Operation (ν : Type) where
  | applyPolicyDecision (decision : PolicyDecision) (at_ : Instant)
  | transition (target : ToolCallState) (at_ : Instant)
  | dispatch (toolVersion : String) (at_ : Instant)
  | dispatchApproved (decidedBy toolVersion : String) (at_ : Instant)
  | succeed (output : Json.Value ν) (at_ : Instant)
  | fail (failure : Failure) (at_ : Instant)
  | approve (decidedBy : String) (at_ : Instant)
  | rejectApproval (decidedBy : String) (failure : Failure) (at_ : Instant)

def apply : Operation ν → Mutation RunDomainError (ToolCall ν) Unit
  | .applyPolicyDecision decision at_ => applyPolicyDecision decision at_
  | .transition target at_ => transition target at_
  | .dispatch toolVersion at_ => dispatch toolVersion at_
  | .dispatchApproved decidedBy toolVersion at_ => dispatchApproved decidedBy toolVersion at_
  | .succeed output at_ => succeed output at_
  | .fail failure at_ => fail failure at_
  | .approve decidedBy at_ => approve decidedBy at_
  | .rejectApproval decidedBy failure at_ => rejectApproval decidedBy failure at_

def moved (self : ToolCall ν) (target : ToolCallState) (at_ : Instant) : ToolCall ν :=
  { self with lifecycle := self.lifecycle.moved target at_ }

/-- What an accepted operation on a tool call does. -/
inductive Moves (self : ToolCall ν) : Operation ν → ToolCall ν → Prop
  | allow {decision : PolicyDecision} {at_ : Instant} :
      self.lifecycle.state = .pending → self.policyDecision = none →
      decision.validate = .ok () → decision.verdict = .allow →
      Moves self (.applyPolicyDecision decision at_) { self with policyDecision := some decision }
  | ask {decision : PolicyDecision} {at_ : Instant} :
      self.lifecycle.state = .pending → self.policyDecision = none →
      decision.validate = .ok () → decision.verdict = .ask →
      self.lifecycle.Follows .awaitingApproval →
      Moves self (.applyPolicyDecision decision at_)
        { self.moved .awaitingApproval at_ with policyDecision := some decision }
  | deny {decision : PolicyDecision} {at_ : Instant} :
      self.lifecycle.state = .pending → self.policyDecision = none →
      decision.validate = .ok () → decision.verdict = .deny → self.lifecycle.Follows .denied →
      Moves self (.applyPolicyDecision decision at_)
        { self.moved .denied at_ with
          failure := some ⟨"policy", decision.reason⟩
          policyDecision := some decision }
  | transition {target : ToolCallState} {at_ : Instant} :
      self.lifecycle.Follows target → ¬(target = .succeeded ∨ target = .failed ∨ target = .denied) →
      ¬(self.lifecycle.state = .awaitingApproval ∧ target = .running) →
      Moves self (.transition target at_) (self.moved target at_)
  | dispatch {toolVersion : String} {at_ : Instant} :
      self.lifecycle.state = .pending → self.sameVersion toolVersion →
      self.lifecycle.Follows .running →
      Moves self (.dispatch toolVersion at_) { self.moved .running at_ with toolVersion }
  | dispatchApproved {decidedBy toolVersion : String} {at_ : Instant} :
      self.lifecycle.state = .awaitingApproval → self.sameVersion toolVersion →
      isBlank decidedBy = false → self.lifecycle.Follows .running →
      Moves self (.dispatchApproved decidedBy toolVersion at_)
        { self.moved .running at_ with
          toolVersion
          approvals := self.approvals ++ [⟨decidedBy, .approved, max at_ self.lifecycle.updatedAt⟩] }
  | succeed {output : Json.Value ν} {at_ : Instant} :
      self.lifecycle.Follows .succeeded →
      Moves self (.succeed output at_) { self.moved .succeeded at_ with output := some output }
  | fail {failure : Failure} {at_ : Instant} :
      self.lifecycle.Follows .failed →
      Moves self (.fail failure at_) { self.moved .failed at_ with failure := some failure }
  | approve {decidedBy : String} {at_ : Instant} :
      self.lifecycle.state = .awaitingApproval → isBlank decidedBy = false →
      self.lifecycle.Follows .running →
      Moves self (.approve decidedBy at_)
        { self.moved .running at_ with
          approvals := self.approvals ++ [⟨decidedBy, .approved, max at_ self.lifecycle.updatedAt⟩] }
  | rejectApproval {decidedBy : String} {failure : Failure} {at_ : Instant} :
      self.lifecycle.state = .awaitingApproval → isBlank decidedBy = false →
      self.lifecycle.Follows .denied →
      Moves self (.rejectApproval decidedBy failure at_)
        { self.moved .denied at_ with
          failure := some failure
          approvals := self.approvals ++ [⟨decidedBy, .denied, max at_ self.lifecycle.updatedAt⟩] }

theorem follow_eq_ok {target : ToolCallState} {at_ : Instant} {self next : ToolCall ν} {u : Unit} :
    follow target at_ self = (.ok u, next) ↔
      self.lifecycle.Follows target ∧ self.moved target at_ = next := by
  simp only [follow, onProgress, Mutation.focus_eq_ok, Progress.follow_eq_ok]
  constructor
  · rintro ⟨_, ⟨follows, rfl⟩, rfl⟩
    exact ⟨follows, rfl⟩
  · rintro ⟨follows, rfl⟩
    exact ⟨_, ⟨follows, rfl⟩, rfl⟩

theorem setFailure_eq_ok {failure : Failure} {self next : ToolCall ν} {u : Unit} :
    onProgress (Progress.setFailure failure) self = (.ok u, next) ↔
      { self with failure := some failure } = next := by
  simp only [onProgress, Mutation.focus_eq_ok, Progress.setFailure, Mutation.update_eq_ok,
    exists_eq_left']

theorem pushApproval_eq_ok {decidedBy : String} {decision : ApprovalOutcome} {self next : ToolCall ν}
    {u : Unit} :
    onProgress (Progress.pushApproval decidedBy decision) self = (.ok u, next) ↔
      { self with
        approvals := self.approvals ++ [⟨decidedBy, decision, self.lifecycle.updatedAt⟩] } =
        next := by
  simp only [onProgress, Mutation.focus_eq_ok, Progress.pushApproval, Mutation.update_eq_ok,
    exists_eq_left']

theorem require_eq_ok {condition : ToolCall ν → Bool} {reason : String} {self next : ToolCall ν}
    {u : Unit} :
    require condition reason self = (.ok u, next) ↔ condition self = true ∧ self = next := by
  simp only [require, Mutation.bind_eq_ok, Mutation.read_eq_ok, Mutation.check_eq_ok,
    requireState_eq_ok]
  constructor
  · rintro ⟨_, _, ⟨rfl, rfl⟩, holds, rfl⟩
    exact ⟨holds, rfl⟩
  · rintro ⟨holds, rfl⟩
    exact ⟨_, _, ⟨rfl, rfl⟩, holds, rfl⟩

theorem moves_of_apply {op : Operation ν} {self next : ToolCall ν}
    (accepted : apply op self = (.ok (), next)) : Moves self op next := by
  cases op with
  | applyPolicyDecision decision at_ =>
    simp only [apply, applyPolicyDecision, Mutation.bind_eq_ok, require_eq_ok, Mutation.check_eq_ok,
      decide_eq_true_eq, Option.isNone_iff_eq_none, Except.mapError_eq_ok, Mutation.update_eq_ok]
      at accepted
    obtain ⟨_, _, ⟨pending, rfl⟩, _, _, ⟨undecided, rfl⟩, _, _, ⟨valid, rfl⟩, _, _, moved, rfl⟩ :=
      accepted
    cases verdict : decision.verdict with
    | allow =>
      simp only [consequence, verdict, Mutation.pure_eq_ok] at moved
      obtain ⟨-, rfl⟩ := moved
      exact .allow pending undecided valid verdict
    | ask =>
      simp only [consequence, verdict, follow_eq_ok] at moved
      obtain ⟨follows, rfl⟩ := moved
      exact .ask pending undecided valid verdict follows
    | deny =>
      simp only [consequence, verdict, Mutation.bind_eq_ok, follow_eq_ok, setFailure_eq_ok] at moved
      obtain ⟨_, _, ⟨follows, rfl⟩, rfl⟩ := moved
      exact .deny pending undecided valid verdict follows
  | transition target at_ =>
    simp only [apply, transition, Mutation.bind_eq_ok, Mutation.read_eq_ok, Mutation.check_eq_ok,
      Lifecycle.validateEdge_eq_ok, refuseWhen_eq_ok, decide_eq_true_eq, follow_eq_ok] at accepted
    obtain ⟨_, _, ⟨rfl, rfl⟩, _, _, ⟨-, rfl⟩, _, _, ⟨ordinary, rfl⟩, _, _, ⟨ungated, rfl⟩, follows,
      rfl⟩ := accepted
    exact .transition follows ordinary ungated
  | dispatch toolVersion at_ =>
    simp only [apply, dispatch, Mutation.bind_eq_ok, require_eq_ok, decide_eq_true_eq, follow_eq_ok,
      Mutation.update_eq_ok] at accepted
    obtain ⟨_, _, ⟨pending, rfl⟩, _, _, ⟨same, rfl⟩, _, _, ⟨follows, rfl⟩, rfl⟩ := accepted
    exact .dispatch pending same follows
  | dispatchApproved decidedBy toolVersion at_ =>
    simp only [apply, dispatchApproved, Mutation.bind_eq_ok, require_eq_ok, decide_eq_true_eq,
      Mutation.check_eq_ok, approvalIdentity_eq_ok, follow_eq_ok, Mutation.update_eq_ok,
      pushApproval_eq_ok] at accepted
    obtain ⟨_, _, ⟨awaiting, rfl⟩, _, _, ⟨same, rfl⟩, _, _, ⟨⟨named, rfl⟩, rfl⟩, _, _, ⟨follows, rfl⟩,
      _, _, rfl, rfl⟩ := accepted
    exact .dispatchApproved awaiting same named follows
  | succeed output at_ =>
    simp only [apply, succeed, Mutation.bind_eq_ok, follow_eq_ok, Mutation.update_eq_ok] at accepted
    obtain ⟨_, _, ⟨follows, rfl⟩, rfl⟩ := accepted
    exact .succeed follows
  | fail failure at_ =>
    simp only [apply, fail, Mutation.bind_eq_ok, follow_eq_ok, setFailure_eq_ok] at accepted
    obtain ⟨_, _, ⟨follows, rfl⟩, rfl⟩ := accepted
    exact .fail follows
  | approve decidedBy at_ =>
    simp only [apply, approve, Mutation.bind_eq_ok, require_eq_ok, decide_eq_true_eq,
      Mutation.check_eq_ok, approvalIdentity_eq_ok, follow_eq_ok, pushApproval_eq_ok] at accepted
    obtain ⟨_, _, ⟨awaiting, rfl⟩, _, _, ⟨⟨named, rfl⟩, rfl⟩, _, _, ⟨follows, rfl⟩, rfl⟩ := accepted
    exact .approve awaiting named follows
  | rejectApproval decidedBy failure at_ =>
    simp only [apply, rejectApproval, Mutation.bind_eq_ok, require_eq_ok, decide_eq_true_eq,
      Mutation.check_eq_ok, approvalIdentity_eq_ok, follow_eq_ok, setFailure_eq_ok,
      pushApproval_eq_ok] at accepted
    obtain ⟨_, _, ⟨awaiting, rfl⟩, _, _, ⟨⟨named, rfl⟩, rfl⟩, _, _, ⟨follows, rfl⟩, _, _, rfl, rfl⟩ :=
      accepted
    exact .rejectApproval awaiting named follows

theorem readOnly_require (condition : ToolCall ν → Bool) (reason : String) :
    (require condition reason).ReadOnly := fun _ => rfl

theorem atomic_follow (target : ToolCallState) (at_ : Instant) :
    (follow target at_ : Mutation RunDomainError (ToolCall ν) Unit).Atomic :=
  (Progress.atomic_follow _ _ _).focus fun _ => rfl

theorem total_onProgress_update (f : Progress ToolCallState → Progress ToolCallState) :
    (onProgress (Mutation.update f) : Mutation RunDomainError (ToolCall ν) Unit).Total :=
  fun _ => ⟨(), rfl⟩

theorem atomic_consequence (decision : PolicyDecision) (at_ : Instant) :
    (consequence decision at_ : Mutation RunDomainError (ToolCall ν) Unit).Atomic := by
  unfold consequence
  cases decision.verdict with
  | allow => exact Mutation.total_pure.atomic
  | ask => exact atomic_follow _ _
  | deny => exact (atomic_follow _ _).bind fun _ => total_onProgress_update _

theorem atomic_apply (op : Operation ν) : (apply op).Atomic := by
  cases op with
  | applyPolicyDecision decision at_ =>
    refine (readOnly_require _ _).bind fun _ => (readOnly_require _ _).bind fun _ => ?_
    refine Mutation.readOnly_check.bind fun _ => ?_
    exact (atomic_consequence decision at_).bind fun _ => Mutation.total_update
  | transition target at_ =>
    refine Mutation.readOnly_read.bind fun self => Mutation.readOnly_check.bind fun _ => ?_
    refine Mutation.readOnly_check.bind fun _ => Mutation.readOnly_check.bind fun _ => ?_
    exact atomic_follow _ _
  | dispatch toolVersion at_ =>
    refine (readOnly_require _ _).bind fun _ => (readOnly_require _ _).bind fun _ => ?_
    exact (atomic_follow _ _).bind fun _ => Mutation.total_update
  | dispatchApproved decidedBy toolVersion at_ =>
    refine (readOnly_require _ _).bind fun _ => (readOnly_require _ _).bind fun _ => ?_
    refine Mutation.readOnly_check.bind fun _ => (atomic_follow _ _).bind fun _ => ?_
    exact Mutation.total_update.bind fun _ => total_onProgress_update _
  | succeed output at_ => exact (atomic_follow _ _).bind fun _ => Mutation.total_update
  | fail failure at_ => exact (atomic_follow _ _).bind fun _ => total_onProgress_update _
  | approve decidedBy at_ =>
    refine (readOnly_require _ _).bind fun _ => Mutation.readOnly_check.bind fun _ => ?_
    exact (atomic_follow _ _).bind fun _ => total_onProgress_update _
  | rejectApproval decidedBy failure at_ =>
    refine (readOnly_require _ _).bind fun _ => Mutation.readOnly_check.bind fun _ => ?_
    refine (atomic_follow _ _).bind fun _ => ?_
    exact (total_onProgress_update _).bind fun _ => total_onProgress_update _

end ToolCall

end Harkness.Runtime.Domain.Record
