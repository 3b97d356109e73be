import Harkness.Runtime.Domain.Operations

/-! # Every sequence of operations keeps a record in order

The operations of the three records are put in one form, and what holds of one operation is carried
over any sequence of them, with any clock readings: refused operations change nothing, each edge
counts one revision, times stay in order, a final state is never left. A call that policy sent to
approval starts only by an operation that records the approval.
-/

namespace Harkness.Runtime.Domain.Record

open Policy LifecycleState

abbrev Run.Operation := Execution.Operation

namespace Run

def apply : Operation → Mutation RunDomainError Run Unit
  | .transition target at_ => transition target at_
  | .fail failure at_ => fail failure at_
  | .approve decidedBy at_ => approve decidedBy at_
  | .rejectApproval decidedBy failure at_ => rejectApproval decidedBy failure at_
  | .resumeAfterDenial decidedBy at_ => resumeAfterDenial decidedBy at_

theorem apply_eq (op : Operation) : apply op = onProgress (Execution.apply name op) := by
  cases op <;> rfl

/-- A run as it is made: afresh, or to retry another. -/
inductive Built : Run → Prop
  | fresh (id : RunId) (taskId : TaskId) (createdAt : Instant) : Built (withId id taskId createdAt)
  | retrying (id : RunId) (taskId : TaskId) (original : RunId) (workspaceMayBeModified : Bool)
      (createdAt : Instant) :
      Built (retryingWithId id taskId original workspaceMayBeModified createdAt)

end Run

namespace Step

/-- As for a run, which alone goes on after a denial. -/
inductive Operation where
  | transition (target : ExecutionState) (at_ : Instant)
  | fail (failure : Failure) (at_ : Instant)
  | approve (decidedBy : String) (at_ : Instant)
  | rejectApproval (decidedBy : String) (failure : Failure) (at_ : Instant)

def Operation.execution : Operation → Execution.Operation
  | .transition target at_ => .transition target at_
  | .fail failure at_ => .fail failure at_
  | .approve decidedBy at_ => .approve decidedBy at_
  | .rejectApproval decidedBy failure at_ => .rejectApproval decidedBy failure at_

def apply : Operation → Mutation RunDomainError Step Unit
  | .transition target at_ => transition target at_
  | .fail failure at_ => fail failure at_
  | .approve decidedBy at_ => approve decidedBy at_
  | .rejectApproval decidedBy failure at_ => rejectApproval decidedBy failure at_

theorem apply_eq (op : Operation) : apply op = onProgress (Execution.apply name op.execution) := by
  cases op <;> rfl

end Step

/-- What an accepted operation does to a lifecycle: without a target it rests in an open state, and with one
it follows the edge there. -/
def Arrives {S : Type} [DecidableEq S] [LifecycleState S] (self next : Lifecycle S) (at_ : Instant) :
    Option S → Prop
  | none => next = self ∧ isTerminal self.state = false
  | some target => self.Follows target ∧ next = self.moved target at_

/-- The state that an operation on a run or a step moves to. -/
def Execution.Operation.target : Execution.Operation → ExecutionState
  | .transition target _ => target
  | .fail _ _ | .rejectApproval _ _ _ => .failed
  | .approve _ _ | .resumeAfterDenial _ _ => .running

/-- The reading of the clock that an operation is made with. -/
def Execution.Operation.at_ : Execution.Operation → Instant
  | .transition _ at_ | .fail _ at_ | .approve _ at_ | .rejectApproval _ _ at_
  | .resumeAfterDenial _ at_ => at_

def ToolCall.Operation.at_ {ν : Type} : ToolCall.Operation ν → Instant
  | .applyPolicyDecision _ at_ | .transition _ at_ | .dispatch _ at_ | .dispatchApproved _ _ at_
  | .succeed _ at_ | .fail _ at_ | .approve _ at_ | .rejectApproval _ _ at_ => at_

/-- The state that an operation on a tool call moves to; a decision that allows the call moves nothing. -/
def ToolCall.Operation.target {ν : Type} : ToolCall.Operation ν → Option ToolCallState
  | .applyPolicyDecision decision _ =>
    match decision.verdict with
    | .allow => none
    | .ask => some .awaitingApproval
    | .deny => some .denied
  | .transition target _ => some target
  | .dispatch _ _ | .dispatchApproved _ _ _ | .approve _ _ => some .running
  | .succeed _ _ => some .succeeded
  | .fail _ _ => some .failed
  | .rejectApproval _ _ _ => some .denied

theorem Execution.Moves.arrives {self next : Progress ExecutionState} {op : Execution.Operation}
    (moves : Moves self op next) : Arrives self.lifecycle next.lifecycle op.at_ (some op.target) := by
  cases moves with
  | transition follows => exact ⟨follows, rfl⟩
  | fail follows => exact ⟨follows, rfl⟩
  | approve _ follows => exact ⟨follows, rfl⟩
  | rejectApproval _ follows => exact ⟨follows, rfl⟩
  | resumeAfterDenial _ follows => exact ⟨follows, rfl⟩

theorem ToolCall.Moves.arrives {ν : Type} {self next : ToolCall ν} {op : ToolCall.Operation ν}
    (moves : Moves self op next) : Arrives self.lifecycle next.lifecycle op.at_ op.target := by
  cases moves with
  | allow pending _ _ verdict =>
    rw [Operation.target, verdict]
    exact ⟨rfl, by rw [pending]; rfl⟩
  | ask _ _ _ verdict follows =>
    rw [Operation.target, verdict]
    exact ⟨follows, rfl⟩
  | deny _ _ _ verdict follows =>
    rw [Operation.target, verdict]
    exact ⟨follows, rfl⟩
  | transition follows => exact ⟨follows, rfl⟩
  | dispatch _ _ follows => exact ⟨follows, rfl⟩
  | dispatchApproved _ _ _ follows => exact ⟨follows, rfl⟩
  | succeed follows => exact ⟨follows, rfl⟩
  | fail follows => exact ⟨follows, rfl⟩
  | approve _ _ follows => exact ⟨follows, rfl⟩
  | rejectApproval _ _ follows => exact ⟨follows, rfl⟩

/-- What is asked of a record and of every operation on it. -/
structure Disciplined {σ Op S : Type} [DecidableEq S] [LifecycleState S]
    (apply : Op → Mutation RunDomainError σ Unit) (lifecycle : σ → Lifecycle S)
    (at_ : Op → Instant) (target : Op → Option S) (self : σ) : Prop where
  inOrder : (lifecycle self).createdAt ≤ (lifecycle self).updatedAt ∧
    ∀ at_ ∈ (lifecycle self).startedAt,
      (lifecycle self).createdAt ≤ at_ ∧ at_ ≤ (lifecycle self).updatedAt
  finished : (lifecycle self).finishedAt =
    if isTerminal (lifecycle self).state then some (lifecycle self).updatedAt else none
  refused : ∀ op e, (apply op self).1 = .error e → (apply op self).2 = self
  /-- An accepted operation with a target follows the edge there, counts it and never turns the time back. -/
  counted : ∀ op next, apply op self = (.ok (), next) → ∀ state ∈ target op,
    ((lifecycle self).state, state) ∈ transitions ∧ (lifecycle next).state = state ∧
      (lifecycle next).revision = (lifecycle self).revision + 1 ∧
      (lifecycle next).updatedAt = max (at_ op) (lifecycle self).updatedAt
  rested : ∀ op next, apply op self = (.ok (), next) → target op = none →
    lifecycle next = lifecycle self
  final : isTerminal (lifecycle self).state → ∀ op, ∃ e, (apply op self).1 = .error e

section Generic

variable {σ Op S : Type} [DecidableEq S] [LifecycleState S] [LawfulLifecycleState S]
  {apply : Op → Mutation RunDomainError σ Unit} {lifecycle : σ → Lifecycle S} {at_ : Op → Instant}
  {target : Op → Option S}

theorem Arrives.wellFormed {self next : Lifecycle S} {at_ : Instant} {state : Option S}
    (arrives : Arrives self next at_ state) (formed : self.WellFormed) : next.WellFormed := by
  cases state with
  | none => exact arrives.1 ▸ formed
  | some state => exact arrives.2 ▸ formed.moved arrives.1.1 at_

/-- Neither a record at rest nor one at the start of an edge is in a final state. -/
theorem Arrives.unfinished {self next : Lifecycle S} {at_ : Instant} {state : Option S}
    (arrives : Arrives self next at_ state) : isTerminal self.state = false := by
  cases state with
  | none => exact arrives.2
  | some state => exact LawfulLifecycleState.open_ _ arrives.1.1

/-- Atomic operations that rest in an open state or arrive keep every record in order. -/
theorem disciplined (atomic : ∀ op, (apply op).Atomic)
    (moves : ∀ op self next, apply op self = (.ok (), next) →
      Arrives (lifecycle self) (lifecycle next) (at_ op) (target op))
    {self : σ} (formed : (lifecycle self).WellFormed) (ops : List Op) :
    (lifecycle (Mutation.after apply self ops)).WellFormed ∧
      Disciplined apply lifecycle at_ target (Mutation.after apply self ops) := by
  have kept := Mutation.after_invariant apply (P := fun self => (lifecycle self).WellFormed) atomic
    (fun op self next formed accepted => (moves op self next accepted).wellFormed formed) formed ops
  refine ⟨kept, ⟨kept.updated, kept.started⟩, kept.finished, fun op => atomic op _, ?_, ?_, ?_⟩
  · intro op next accepted state arriving
    have arrives := moves op _ next accepted
    rw [Option.mem_def.mp arriving] at arrives
    obtain ⟨follows, same⟩ := arrives
    rw [same]
    exact ⟨follows.1, rfl, rfl, rfl⟩
  · intro op next accepted resting
    have arrives := moves op _ next accepted
    rw [resting] at arrives
    exact arrives.1
  · intro terminal op
    generalize Mutation.after apply self ops = reached at terminal
    rcases result : apply op reached with ⟨outcome, next⟩
    cases outcome with
    | error e => exact ⟨e, rfl⟩
    | ok _ =>
      have open_ := (moves op reached next result).unfinished
      rw [terminal] at open_
      cases open_

end Generic

theorem Run.atomic_apply (op : Operation) : (apply op).Atomic := by
  rw [apply_eq]
  exact (Execution.atomic_apply name op).focus fun _ => rfl

theorem Step.atomic_apply (op : Operation) : (apply op).Atomic := by
  rw [apply_eq]
  exact (Execution.atomic_apply name op.execution).focus fun _ => rfl

/-- What an operation on a run does to what it has in common with a step. -/
theorem Run.moves_of_apply {op : Operation} {self next : Run}
    (accepted : apply op self = (.ok (), next)) :
    Execution.Moves self.toProgress op next.toProgress ∧
      next = { self with toProgress := next.toProgress } := by
  rw [apply_eq, onProgress, Mutation.focus_eq_ok] at accepted
  obtain ⟨progress, accepted, rfl⟩ := accepted
  exact ⟨Execution.moves_of_apply name accepted, rfl⟩

theorem Step.moves_of_apply {op : Operation} {self next : Step}
    (accepted : apply op self = (.ok (), next)) :
    Execution.Moves self.toProgress op.execution next.toProgress ∧
      next = { self with toProgress := next.toProgress } := by
  rw [apply_eq, onProgress, Mutation.focus_eq_ok] at accepted
  obtain ⟨progress, accepted, rfl⟩ := accepted
  exact ⟨Execution.moves_of_apply name accepted, rfl⟩

namespace ToolCall

variable {ν : Type}

/-- Whether policy said that the call must be approved. -/
def Asked (self : ToolCall ν) : Prop :=
  ∃ decision, self.policyDecision = some decision ∧ decision.verdict = .ask

/-- A call that policy sent to approval has left the initial state, and has started only if an
approval is on record. -/
structure Gated (call : ToolCall ν) : Prop where
  left : call.Asked → call.lifecycle.state ≠ .pending
  approved : call.Asked → call.lifecycle.startedAt.isSome →
    ∃ approval ∈ call.approvals, approval.decision = .approved

theorem gated_withId (id : ToolCallId) (step : Step) (toolId toolVersion : String)
    (input : Json.Value ν) (createdAt : Instant) :
    (withId id step toolId toolVersion input createdAt).Gated where
  left := fun ⟨_, decided, _⟩ => by cases decided
  approved := fun ⟨_, decided, _⟩ => by cases decided

/-- A decision other than asking leaves the gate aside. -/
private theorem gated_of_verdict {next : ToolCall ν} {decision : PolicyDecision}
    (decided : next.policyDecision = some decision) (verdict : decision.verdict ≠ .ask) :
    next.Gated := by
  have aside : ¬ next.Asked := by
    rintro ⟨other, same, ask⟩
    obtain rfl := Option.some.inj (decided.symm.trans same)
    exact verdict ask
  exact ⟨fun asked => absurd asked aside, fun asked => absurd asked aside⟩

/-- A move that does not start a call sent to approval keeps it gated, if approvals are only added. -/
private theorem Gated.moved {self next : ToolCall ν} (gated : self.Gated) {target : ToolCallState}
    {at_ : Instant} (follows : self.lifecycle.Follows target)
    (elsewhere : self.Asked → target ≠ .running)
    (same : next.lifecycle = self.lifecycle.moved target at_)
    (decided : next.policyDecision = self.policyDecision)
    (approvals : ∃ more, next.approvals = self.approvals ++ more) : next.Gated := by
  have asked : next.Asked → self.Asked := by
    rintro ⟨decision, here, ask⟩
    exact ⟨decision, decided ▸ here, ask⟩
  constructor
  · intro _
    rw [same]
    exact LawfulLifecycleState.fresh _ follows.1
  · intro ask begun
    rw [same, Lifecycle.moved] at begun
    dsimp only at begun
    rw [if_neg fun running => elsewhere (asked ask) running.1] at begun
    obtain ⟨approval, member, decision⟩ := gated.approved (asked ask) begun
    obtain ⟨more, added⟩ := approvals
    exact ⟨approval, added ▸ List.mem_append_left more member, decision⟩

/-- The states that execution is entered from. -/
private theorem source_of_running {source : ToolCallState}
    (edge : (source, ToolCallState.running) ∈ ToolCallState.transitions) :
    source = .pending ∨ source = .awaitingApproval := by
  cases source <;> first | decide | exact absurd edge (by decide)

/-- A move that records an approval leaves the call gated. -/
private theorem Gated.of_approved {next : ToolCall ν} {approval : Approval}
    (running : next.lifecycle.state = .running) (member : approval ∈ next.approvals)
    (decision : approval.decision = .approved) : next.Gated where
  left := fun _ => by rw [running]; decide
  approved := fun _ _ => ⟨approval, member, decision⟩

theorem Gated.kept {self next : ToolCall ν} {op : Operation ν} (gated : self.Gated)
    (formed : self.lifecycle.WellFormed) (moves : Moves self op next) : next.Gated := by
  have none : ∃ more, self.approvals = self.approvals ++ more := ⟨[], (List.append_nil _).symm⟩
  cases moves with
  | allow pending _ _ verdict => exact gated_of_verdict rfl (by rw [verdict]; decide)
  | deny pending _ _ verdict follows => exact gated_of_verdict rfl (by rw [verdict]; decide)
  | ask pending _ _ verdict follows =>
    have unstarted : self.lifecycle.startedAt = .none :=
      formed.forbidden (by rw [pending]; rfl)
    constructor
    · exact fun _ => LawfulLifecycleState.fresh _ follows.1
    · intro _ begun
      simp [ToolCall.moved, Lifecycle.moved, unstarted, LifecycleState.running] at begun
  | transition follows ordinary ungated =>
    refine gated.moved follows (fun asked running => ?_) rfl rfl none
    rw [running] at follows ungated
    rcases source_of_running follows.1 with pending | awaiting
    · exact gated.left asked pending
    · exact ungated ⟨awaiting, rfl⟩
  | dispatch pending same follows =>
    exact gated.moved follows (fun asked => absurd pending (gated.left asked)) rfl rfl none
  | dispatchApproved awaiting same named follows =>
    exact .of_approved rfl (List.mem_append_right _ List.mem_cons_self) rfl
  | succeed follows => exact gated.moved follows (fun _ => by decide) rfl rfl none
  | fail follows => exact gated.moved follows (fun _ => by decide) rfl rfl none
  | approve awaiting named follows =>
    exact .of_approved rfl (List.mem_append_right _ List.mem_cons_self) rfl
  | rejectApproval awaiting named follows =>
    exact gated.moved follows (fun _ => by decide) rfl rfl ⟨_, rfl⟩

/-- A call that policy sent to approval is started by no operation but one that records the
approval. -/
theorem Gated.entered {self next : ToolCall ν} {op : Operation ν} (gated : self.Gated)
    (asked : self.Asked) (moves : Moves self op next) (running : next.lifecycle.state = .running) :
    ∃ decidedBy, ((∃ at_, op = .approve decidedBy at_) ∨
        ∃ toolVersion at_, op = .dispatchApproved decidedBy toolVersion at_) ∧
      next.approvals =
        self.approvals ++ [⟨decidedBy, .approved, next.lifecycle.updatedAt⟩] := by
  have left := gated.left asked
  cases moves with
  | allow pending => exact absurd pending left
  | ask pending => exact absurd pending left
  | deny pending => exact absurd pending left
  | @transition target at_ follows ordinary ungated =>
    obtain rfl : target = .running := running
    rcases source_of_running follows.1 with pending | awaiting
    · exact absurd pending left
    · exact absurd ⟨awaiting, rfl⟩ ungated
  | dispatch pending => exact absurd pending left
  | dispatchApproved => exact ⟨_, .inr ⟨_, _, rfl⟩, rfl⟩
  | succeed => cases running
  | fail => cases running
  | approve => exact ⟨_, .inl ⟨_, rfl⟩, rfl⟩
  | rejectApproval => cases running

end ToolCall

/-- Whatever operations are made on a run, a step or a tool call, with whatever clock readings, the
record is in order and a refused operation leaves it as it was; an accepted one arrives at its target
along one edge, which it counts; and a call that policy sent to approval has started, and starts, only
with an approval on record. -/
theorem records_disciplined {ν : Type} :
    (∀ (run : Run) (ops : List Run.Operation), run.Built →
      Disciplined Run.apply (·.lifecycle) (·.at_) (fun op => some op.target)
        (Mutation.after Run.apply run ops)) ∧
    (∀ (id : StepId) (runId : RunId) (ordinal : ℕ) (title : String) (createdAt : Instant)
      (ops : List Step.Operation),
      Disciplined Step.apply (·.lifecycle) (·.execution.at_) (fun op => some op.execution.target)
        (Mutation.after Step.apply (Step.withId id runId ordinal title createdAt) ops)) ∧
    ∀ (id : ToolCallId) (step : Step) (toolId toolVersion : String) (input : Json.Value ν)
      (createdAt : Instant) (ops : List (ToolCall.Operation ν)),
      let call := Mutation.after ToolCall.apply
        (ToolCall.withId id step toolId toolVersion input createdAt) ops
      Disciplined ToolCall.apply (·.lifecycle) (·.at_) (·.target) call ∧
        (call.Asked → call.lifecycle.startedAt.isSome →
          ∃ approval ∈ call.approvals, approval.decision = .approved) ∧
        ∀ op next, call.Asked → ToolCall.apply op call = (.ok (), next) →
          next.lifecycle.state = .running →
          ∃ decidedBy, ((∃ at_, op = .approve decidedBy at_) ∨
              ∃ toolVersion at_, op = .dispatchApproved decidedBy toolVersion at_) ∧
            next.approvals =
              call.approvals ++ [⟨decidedBy, .approved, next.lifecycle.updatedAt⟩] := by
  refine ⟨?_, ?_, ?_⟩
  · intro run ops built
    have formed : run.lifecycle.WellFormed := by
      cases built <;> exact Lifecycle.wellFormed_new _
    have moves : ∀ (op : Run.Operation) (self next : Run), Run.apply op self = (.ok (), next) →
        Arrives self.lifecycle next.lifecycle op.at_ (some op.target) :=
      fun op self next accepted => (Run.moves_of_apply accepted).1.arrives
    exact (disciplined Run.atomic_apply moves formed ops).2
  · intro id runId ordinal title createdAt ops
    have moves : ∀ (op : Step.Operation) (self next : Step), Step.apply op self = (.ok (), next) →
        Arrives self.lifecycle next.lifecycle op.execution.at_ (some op.execution.target) :=
      fun op self next accepted => (Step.moves_of_apply accepted).1.arrives
    exact (disciplined Step.atomic_apply moves (Lifecycle.wellFormed_new createdAt) ops).2
  · intro id step toolId toolVersion input createdAt ops call
    have moves : ∀ (op : ToolCall.Operation ν) self next, ToolCall.apply op self = (.ok (), next) →
        Arrives self.lifecycle next.lifecycle op.at_ op.target :=
      fun op self next accepted => (ToolCall.moves_of_apply accepted).arrives
    have gated : call.lifecycle.WellFormed ∧ call.Gated := by
      refine Mutation.after_invariant ToolCall.apply
        (P := fun call => call.lifecycle.WellFormed ∧ call.Gated) ToolCall.atomic_apply ?_
        ⟨Lifecycle.wellFormed_new createdAt, ToolCall.gated_withId _ _ _ _ _ _⟩ ops
      rintro op self next ⟨formed, gated⟩ accepted
      exact ⟨(moves op self next accepted).wellFormed formed,
        gated.kept formed (ToolCall.moves_of_apply accepted)⟩
    refine ⟨(disciplined ToolCall.atomic_apply moves (Lifecycle.wellFormed_new createdAt) ops).2,
      gated.2.approved, ?_⟩
    intro op next asked accepted running
    exact gated.2.entered asked (ToolCall.moves_of_apply accepted) running

private def sampleStep : Step := .withId 1 2 0 "edit" 5

private def askFirst : PolicyDecision := .new .ask "writes files" .builtIn false

private def sampleCall : ToolCall Empty :=
  Mutation.after ToolCall.apply (.withId 3 sampleStep "fs.write" "1.0.0" .null 5)
    [.applyPolicyDecision askFirst 4, .dispatch "1.0.0" 6]

theorem records_disciplined_sample :
    Disciplined Run.apply (·.lifecycle) (·.at_) (fun op => some op.target)
      (Mutation.after Run.apply (.retryingWithId 7 8 6 true 5) [.transition .running 3]) ∧
    ∃ decidedBy, (ToolCall.apply (.approve "ada" 6) sampleCall).2.approvals =
      [⟨decidedBy, .approved, 6⟩] := by
  obtain ⟨runs, -, calls⟩ := records_disciplined (ν := Empty)
  refine ⟨runs _ _ (.retrying 7 8 6 true 5), ?_⟩
  obtain ⟨-, -, entered⟩ := calls 3 sampleStep "fs.write" "1.0.0" .null 5
    [.applyPolicyDecision askFirst 4, .dispatch "1.0.0" 6]
  obtain ⟨decidedBy, -, recorded⟩ := entered (.approve "ada" 6) _ ⟨askFirst, rfl, rfl⟩ rfl rfl
  exact ⟨decidedBy, recorded⟩

end Harkness.Runtime.Domain.Record
