import Harkness.Runtime.Store.Approval
import Harkness.Runtime.Store.RecoveryMark

/-! # An abandoned run is marked once

Sweeps and the run's own transactions interleave freely. Own transactions only let the rows grow, so
every sweep stays ready for its transaction. The transaction that finds the run unfinished ends it,
and every later one finds it ended; a transaction that fails leaves the store as it was. A tool call that
policy allowed and that was sent to approval cannot be read, and stops every sweep that comes to it.
-/

namespace Harkness.Runtime.Store.Recovery

open Domain Domain.Record Approval

variable {ν ρ : Type} {codecs : Codecs} {accepts : Statement → Bool} {store : RunStore ν}

/-- Own writes let the rows grow. -/
def Grew (codecs : Codecs) (before after : RunStore ν) : Prop :=
  Later codecs before after ∧ Stored codecs after

/-- A record that was read is written as what an operation of its own makes of it. -/
theorem Marking.results_move {marking : Marking ν ρ} {fits : ρ → Prop}
    (lawful : marking.Lawful codecs fits) (stored : Stored codecs store) {id : ℕ}
    {operation : ρ → Except RecoveryError ρ}
    (moves : ∀ record next, operation record = .ok next → fits record →
      marking.decode record = .ok record → marking.Grows record next ∧ fits next) :
    (marking.move accepts id operation).Results store (fun _ after => Grew codecs store after)
      fun _ => True := by
  refine (results_load lawful (fun _ _ => trivial) (fun _ => trivial) fun _ _ _ _ _ => trivial).bind ?_
  rintro record _ ⟨rfl, member, -, read⟩
  refine (Mutation.results_check fun _ _ => trivial).bind ?_
  rintro next _ ⟨moved, rfl⟩
  refine (results_update (fun _ _ => trivial) fun _ _ => trivial).imp ?_
  rintro _ _ ⟨rfl, written⟩
  have fitting := ((lawful.stored _ stored).2 record member).2
  obtain ⟨grows, fits⟩ := moves record next moved fitting read
  exact lawful.kept_replace stored member grows ⟨written, fits⟩

theorem grows_step {operation : Step.Operation} {step next : Step}
    (moved : moveTo .invalidTransition (Step.apply operation step) = .ok next)
    (shaped : Execution.Shaped step.toProgress) :
    (@stepMarking ν codecs).Grows step next ∧ Execution.Shaped next.toProgress := by
  obtain ⟨moves, same⟩ := Step.moves_of_apply ((moveTo_eq_ok _).mp moved)
  have arrives : Arrives step.lifecycle next.lifecycle operation.execution.at_
    (some operation.execution.target) := moves.arrives
  refine ⟨.of_unfinished arrives.unfinished ?_ fun cause => ?_, shaped.kept moves⟩
  · rw [same]
    rfl
  · rw [same]
    rfl

theorem grows_toolCall {operation : ToolCall.Operation ν} {call next : ToolCall ν}
    (moved : moveTo .invalidTransition (ToolCall.apply operation call) = .ok next)
    (recorded : call.Recorded) (read : (toolCallMarking codecs).decode call = .ok call) :
    (toolCallMarking codecs).Grows call next ∧ next.Recorded := by
  have moves := ToolCall.moves_of_apply ((moveTo_eq_ok _).mp moved)
  have consistent := recorded.consistent (Except.mapError_eq_ok.mp read)
  have unfinished : call.lifecycle.state.isTerminal = false := moves.arrives.unfinished
  have same : next.id = call.id ∧ next.stepId = call.stepId := by
    cases moves <;> exact ⟨rfl, rfl⟩
  refine ⟨.of_unfinished unfinished same.1 fun cause => ?_, recorded.kept consistent moves⟩
  change toolCallEvent cause next = toolCallEvent cause call
  rw [toolCallEvent, toolCallEvent, same.1, same.2]

theorem grows_approval {operation : Approval.Operation} {request next : ApprovalRequest}
    (moved : moveTo .approval (request.apply operation) = .ok next) (consistent : request.Consistent) :
    (@approvalMarking ν codecs).Grows request next ∧ next.Consistent := by
  have ends := ApprovalRequest.apply_eq_ok.mp ((moveTo_eq_ok _).mp moved)
  obtain ⟨id, pending, -⟩ := ends.narrows
  refine ⟨.of_unfinished (decide_eq_false (not_not.mpr ends.pending)) id fun cause => ?_,
    ends.consistent consistent⟩
  change unansweredEvent codecs next .superseded cause.at_ = _
  rw [unansweredEvent, pending, id]
  rfl

theorem Change.results_apply (stored : Stored codecs store) (change : Change ν) :
    (change.apply codecs accepts).Results store (fun _ after => Grew codecs store after)
      fun _ => True := by
  cases change with
  | run operation =>
    refine (results_loadRun stored fun _ _ => trivial).bind ?_
    rintro _ _ ⟨rfl, rfl⟩
    next store =>
    refine (Mutation.results_check fun _ _ => trivial).bind ?_
    rintro next _ ⟨moved, rfl⟩
    obtain ⟨moves, same⟩ := Run.moves_of_apply ((moveTo_eq_ok _).mp moved)
    refine (results_updateRun (fun _ _ => trivial) fun _ _ => trivial).imp ?_
    rintro _ _ ⟨rfl, written⟩
    have provenance : next.Provenance := by
      rw [same]
      exact ⟨stored.shaped.2.other, stored.shaped.2.warned⟩
    refine ⟨later_run (by rw [same]) moves.arrives.unfinished (List.prefix_refl _), written,
      ⟨stored.shaped.1.kept moves, provenance⟩, stored.toolCalls, stored.steps, stored.approvals⟩
  | step id operation =>
    exact Marking.results_move lawful_step stored fun _ _ moved shaped _ => grows_step moved shaped
  | toolCall id operation =>
    exact Marking.results_move lawful_toolCall stored fun _ _ => grows_toolCall
  | approval id operation =>
    exact Marking.results_move lawful_approval stored fun _ _ moved consistent _ =>
      grows_approval moved consistent
  | log event =>
    refine Mutation.results_read.bind ?_
    rintro _ _ ⟨rfl, rfl⟩
    refine (results_append (fun _ _ => trivial) fun _ _ => trivial).imp ?_
    rintro _ _ rfl
    exact ⟨later_log (List.prefix_append _ _), stored.log _⟩

theorem results_applyChanges (stored : Stored codecs store) (changes : List (Change ν)) :
    (applyChanges codecs accepts changes).Results store (fun _ after => Grew codecs store after)
      fun _ => True := by
  induction changes generalizing store with
  | nil => exact ⟨.refl store, stored⟩
  | cons change changes ih =>
    refine (Change.results_apply stored change).bind ?_
    rintro _ mid ⟨first, kept⟩
    exact (ih kept).imp fun _ after rest => ⟨first.trans rest.1, rest.2⟩

/-- A transaction either publishes what its body ends in or leaves the store as it was. -/
theorem inWriteTransaction_cases {α : Type} {change : Mutation RecoveryError (RunStore ν) α}
    {good : α → RunStore ν → Prop} {bad : RecoveryError → Prop}
    (results : change.Results store good bad)
    (refusal : ∀ statement, accepts statement = false → bad (.query statement)) :
    (∃ value after, inWriteTransaction accepts change store = (.ok value, after) ∧
        good value after) ∨
      ∃ error, inWriteTransaction accepts change store = (.error error, store) ∧ bad error := by
  unfold inWriteTransaction
  unfold Mutation.Results at results
  cases begun : accepts .begin_ with
  | false => exact .inr ⟨_, if_neg Bool.false_ne_true, refusal _ begun⟩
  | true =>
    rw [if_pos rfl]
    rcases ran : change store with ⟨error | value, after⟩
    · rw [ran] at results
      exact .inr ⟨error, rfl, results⟩
    · rw [ran] at results
      cases committed : accepts .commit with
      | false => exact .inr ⟨_, if_neg Bool.false_ne_true, refusal _ committed⟩
      | true => exact .inl ⟨value, after, if_pos rfl, results⟩

theorem grew_own (accepts : Statement → Bool) (stored : Stored codecs store)
    (changes : List (Change ν)) :
    Grew codecs store
      (inWriteTransaction accepts (applyChanges codecs accepts changes) store).2 := by
  rcases inWriteTransaction_cases (results_applyChanges stored changes) fun _ _ => trivial with
    ⟨_, after, same, grew⟩ | ⟨_, same, -⟩
  · rw [same]
    exact grew
  · rw [same]
    exact ⟨.refl store, stored⟩

theorem Marking.Current.later {marking : Marking ν ρ} {cause : Cause}
    {planned : List (ℕ × RunEvent (Json.Value ν))} {records grown : List ρ}
    (current : marking.Current cause planned records) (grows : marking.Grown records grown) :
    marking.Current cause planned grown := by
  obtain ⟨earlier, before, same⟩ := current
  exact ⟨earlier, before.trans grows, same⟩

/-- A plan is of the rows as they are, and each of them was read. -/
theorem Marking.Lawful.plan {marking : Marking ν ρ} {fits : ρ → Prop} {cause : Cause}
    (lawful : marking.Lawful codecs fits) {planned : List (ℕ × RunEvent (Json.Value ν))}
    (plan : marking.plan cause store = .ok planned) :
    marking.Current cause planned (marking.view store) ∧
      ∀ record ∈ marking.view store, marking.decode record = .ok record := by
  obtain ⟨records, read, same⟩ := Except.bind_eq_ok.mp plan
  obtain ⟨rfl, each⟩ := Except.eq_of_mapM_eq_ok lawful.decoded read
  exact ⟨⟨_, .refl marking _, (Except.ok.inj same).symm⟩, each⟩

theorem Marking.unreadable_of_plan {marking : Marking ν ρ} {cause : Cause} {error : RecoveryError}
    (plan : marking.plan cause store = .error error) :
    ∃ record ∈ marking.view store, marking.decode record = .error error := by
  rcases Except.bind_eq_error.mp plan with refused | ⟨records, -, refused⟩
  · exact Except.exists_of_mapM_eq_error refused
  · cases refused

theorem Ended.later {before after : RunStore ν} (ended : Ended before)
    (later : Later codecs before after) : Ended after where
  run := by rw [later.over_ ended.run]; exact ended.run
  toolCalls := later.toolCalls.all_finished ended.toolCalls
  steps := later.steps.all_finished ended.steps
  approvals := fun request member => by
    have closed : ∀ request ∈ before.approvals,
        (@approvalMarking ν codecs).isFinished request = true := fun request held =>
      decide_eq_true fun pending => by
        have terminal := ended.approvals request held
        rw [pending] at terminal
        cases terminal
    have finished := of_decide_eq_true (later.approvals.all_finished closed request member)
    cases open_ : request.state.isTerminal with
    | true => rfl
    | false => exact absurd (ApprovalRequest.isTerminal_eq_false.mp open_) finished

/-- What a sweep knows of the store. -/
def Sweep.Sound (codecs : Codecs) (cause : Cause) (store : RunStore ν) : Sweep ν → Prop
  | .checking | .planningToolCalls => True
  | .planningSteps toolCalls =>
    (toolCallMarking codecs).Current cause toolCalls store.toolCalls
  | .planningApprovals toolCalls steps =>
    (toolCallMarking codecs).Current cause toolCalls store.toolCalls ∧
      (stepMarking codecs).Current cause steps store.steps
  | .applying planned => Ready codecs cause planned store
  | .returned (.ok none) => store.run.lifecycle.state.isTerminal = true
  | .returned (.ok (some _)) => Ended store
  | .returned (.error _) => True

theorem Sweep.Sound.later {cause : Cause} {before after : RunStore ν} {sweep : Sweep ν}
    (sound : sweep.Sound codecs cause before) (later : Later codecs before after) :
    sweep.Sound codecs cause after := by
  cases sweep with
  | checking => trivial
  | planningToolCalls => trivial
  | planningSteps toolCalls => exact Marking.Current.later sound later.toolCalls
  | planningApprovals toolCalls steps =>
    exact ⟨sound.1.later later.toolCalls, sound.2.later later.steps⟩
  | applying planned =>
    exact { sound with
      toolCalls := sound.toolCalls.later later.toolCalls
      steps := sound.steps.later later.steps
      approvals := sound.approvals.later later.approvals }
  | returned result =>
    rcases result with error | (_ | marked)
    · trivial
    · change before.run.lifecycle.state.isTerminal = true at sound
      change after.run.lifecycle.state.isTerminal = true
      rw [later.over_ sound]
      exact sound
    · exact Ended.later sound later

/-- The move of a sweep that marks the run. -/
def Marked (sweep : Sweep ν) : Prop := ∃ marked, sweep = .returned (.ok (some marked))

/-- All that a move of a sweep can do: it reads on, finds the run ended or fails, with the store left
alone, or it marks the run. Where it is not free to read the tool calls it fails, and where it is it fails
only if it is barred. -/
inductive Turns (codecs : Codecs) (cause : Cause) (accepts : Statement → Bool)
    (store : RunStore ν) (free : Prop) : Sweep ν → RunStore ν → Prop
  | reads {sweep : Sweep ν} : free → (∀ result, sweep ≠ .returned result) →
      sweep.Sound codecs cause store → Turns codecs cause accepts store free sweep store
  | over_ : free → store.run.lifecycle.state.isTerminal = true →
      Turns codecs cause accepts store free (.returned (.ok none)) store
  | fails {error : RecoveryError} : (free → Barred codecs accepts cause.at_ error) →
      Turns codecs cause accepts store free (.returned (.error error)) store
  | marks {marked : RunInterruption} {after : RunStore ν} : free →
      Interrupted codecs cause store after marked → Stored codecs after →
      Turns codecs cause accepts store free (.returned (.ok (some marked))) after

theorem Sweep.turns_of_reading {α : Type} {cause : Cause} {free : Prop} {statement : Statement}
    {rows : Except RecoveryError α} {phase : α → Sweep ν}
    (turns : ∀ read, rows = .ok read → Turns codecs cause accepts store free (phase read) store)
    (unreadable : ∀ error, rows = .error error → ¬free) :
    Turns codecs cause accepts store free (reading accepts statement rows phase) store := by
  unfold reading
  split_ifs with accepted
  · cases rows with
    | ok read => exact turns read rfl
    | error error => exact .fails fun free => absurd free (unreadable error rfl)
  · exact .fails fun _ => .refused (Bool.eq_false_iff.mpr accepted)

theorem Sweep.turns_of_next {cause : Cause} {sweep next : Sweep ν} {after : RunStore ν}
    (stored : Stored codecs store) (sound : sweep.Sound codecs cause store)
    (moved : sweep.next codecs cause accepts store = some (next, after)) :
    Turns codecs cause accepts store (sweep.Unstuck store) next after := by
  cases sweep with
  | checking =>
    obtain ⟨rfl, rfl⟩ := Prod.mk.inj (Option.some.inj moved)
    refine turns_of_reading (fun run read => ?_) fun error refused => ?_
    · obtain rfl := Except.ok.inj (stored.decodeRun.symm.trans read)
      split_ifs with over_
      · exact .over_ trivial over_
      · exact .reads trivial (fun _ same => by cases same) trivial
    · rw [stored.decodeRun] at refused
      cases refused
  | planningToolCalls =>
    obtain ⟨rfl, rfl⟩ := Prod.mk.inj (Option.some.inj moved)
    refine turns_of_reading (fun planned plan => ?_) fun error refused free => ?_
    · obtain ⟨current, each⟩ := lawful_toolCall.plan plan
      refine .reads (fun call member stuck => ?_) (fun _ same => by cases same) current
      exact stuck.not_valid (ToolCall.tryFrom_eq_ok (Except.mapError_eq_ok.mp (each call member))).2
    · obtain ⟨call, member, refused⟩ := Marking.unreadable_of_plan refused
      exact free call member (stuck_of_decode stored member refused)
  | planningSteps toolCalls =>
    obtain ⟨rfl, rfl⟩ := Prod.mk.inj (Option.some.inj moved)
    refine turns_of_reading (fun planned plan => ?_) fun error refused => ?_
    · exact .reads trivial (fun _ same => by cases same) ⟨sound, (lawful_step.plan plan).1⟩
    · obtain ⟨step, member, refused⟩ := Marking.unreadable_of_plan refused
      rw [decode_step stored member] at refused
      cases refused
  | planningApprovals toolCalls steps =>
    obtain ⟨rfl, rfl⟩ := Prod.mk.inj (Option.some.inj moved)
    refine turns_of_reading (fun planned plan => ?_) fun error refused => ?_
    · exact .reads trivial (fun _ same => by cases same)
        ⟨rfl, rfl, rfl, sound.1, sound.2, (lawful_approval.plan plan).1⟩
    · obtain ⟨request, member, refused⟩ := Marking.unreadable_of_plan refused
      rw [decode_approval stored member] at refused
      cases refused
  | applying planned =>
    simp only [Sweep.next] at moved
    rcases inWriteTransaction_cases (results_apply accepts stored sound)
      fun _ refused => .inl (.refused refused) with
        ⟨result, last, same, concludes⟩ | ⟨error, same, hindered⟩
    · rw [same] at moved
      obtain ⟨rfl, rfl⟩ := Prod.mk.inj (Option.some.inj moved)
      cases result with
      | none =>
        obtain ⟨over_, rfl⟩ := concludes
        exact .over_ (.inl over_) over_
      | some marked => exact .marks (.inr concludes.1.unstuck) concludes.1 concludes.2
    · rw [same] at moved
      obtain ⟨rfl, rfl⟩ := Prod.mk.inj (Option.some.inj moved)
      refine .fails fun free => hindered.resolve_right ?_
      rintro ⟨unfinished, call, member, stuck⟩
      rcases free with over_ | none
      · exact absurd (unfinished.symm.trans over_) Bool.false_ne_true
      · exact none call member stuck
  | returned result => cases moved

section Turns

variable {cause : Cause} {free : Prop} {sweep : Sweep ν} {after : RunStore ν}

theorem Turns.grew (stored : Stored codecs store) (turns : Turns codecs cause accepts store free sweep after) :
    Grew codecs store after := by
  cases turns with
  | reads => exact ⟨.refl _, stored⟩
  | over_ => exact ⟨.refl _, stored⟩
  | fails => exact ⟨.refl _, stored⟩
  | marks _ interrupted kept => exact ⟨interrupted.later, kept⟩

/-- Only an unfinished run is marked. -/
theorem Turns.interrupted {marked : RunInterruption}
    (turns : Turns codecs cause accepts store free (.returned (.ok (some marked))) after) :
    Interrupted codecs cause store after marked := by
  cases turns with
  | reads _ open_ => exact absurd rfl (open_ _)
  | marks _ interrupted => exact interrupted

theorem Turns.barred {error : RecoveryError}
    (turns : Turns codecs cause accepts store free (.returned (.error error)) after) (clear : free) :
    Barred codecs accepts cause.at_ error := by
  cases turns with
  | reads _ open_ => exact absurd rfl (open_ _)
  | fails barred => exact barred clear

theorem Turns.failed (turns : Turns codecs cause accepts store free sweep after) (stuck : ¬free) :
    (∃ error, sweep = .returned (.error error)) ∧ after = store := by
  cases turns with
  | reads free => exact absurd free stuck
  | over_ free => exact absurd free stuck
  | fails => exact ⟨⟨_, rfl⟩, rfl⟩
  | marks free => exact absurd free stuck

theorem Turns.same (turns : Turns codecs cause accepts store free sweep after) (unmarked : ¬Marked sweep) :
    after = store := by
  cases turns with
  | reads => rfl
  | over_ => rfl
  | fails => rfl
  | marks => exact absurd ⟨_, rfl⟩ unmarked

theorem Turns.sound (turns : Turns codecs cause accepts store free sweep after) :
    sweep.Sound codecs cause after := by
  cases turns with
  | reads _ _ sound => exact sound
  | over_ _ over_ => exact over_
  | fails => trivial
  | marks _ interrupted => exact interrupted.ended

end Turns

section Runs

variable {P : Type} [DecidableEq P] {cause : P → Cause} {start world next : World P ν}
  {acts : List (Act P ν)}

/-- What holds of the store and of every sweep, whatever happened since the start. -/
structure Holds (codecs : Codecs) (cause : P → Cause) (start world : World P ν) : Prop where
  stored : Stored codecs world.store
  later : Later codecs start.store world.store
  sound : ∀ sweeper, (world.sweeps sweeper).Sound codecs (cause sweeper) world.store
  once : ∀ first second, Marked (world.sweeps first) → Marked (world.sweeps second) → first = second

theorem step_sweep {sweeper : P}
    (step : (sweeping codecs cause).step world (.sweep sweeper accepts) = some next) :
    ∃ sweep, (world.sweeps sweeper).next codecs (cause sweeper) accepts world.store =
        some (sweep, next.store) ∧
      next.sweeps = Function.update world.sweeps sweeper sweep := by
  obtain ⟨⟨sweep, after⟩, moved, rfl⟩ := Option.map_eq_some_iff.mp step
  exact ⟨sweep, moved, rfl⟩

theorem Holds.turns {sweeper : P} (holds : Holds codecs cause start world)
    (step : (sweeping codecs cause).step world (.sweep sweeper accepts) = some next) :
    Turns codecs (cause sweeper) accepts world.store (Unstuck world (.sweep sweeper accepts))
        (next.sweeps sweeper) next.store ∧
      ∀ other, other ≠ sweeper → next.sweeps other = world.sweeps other := by
  obtain ⟨sweep, moved, same⟩ := step_sweep step
  rw [same]
  refine ⟨?_, fun other apart => Function.update_of_ne apart _ _⟩
  rw [Function.update_self]
  exact Sweep.turns_of_next holds.stored (holds.sound sweeper) moved

theorem Holds.step {act : Act P ν} (holds : Holds codecs cause start world)
    (step : (sweeping codecs cause).step world act = some next) :
    Holds codecs cause start next := by
  cases act with
  | own changes accepts =>
    obtain rfl := Option.some.inj step
    obtain ⟨later, stored⟩ := grew_own accepts holds.stored changes
    exact {
      stored := stored
      later := holds.later.trans later
      sound := fun sweeper => (holds.sound sweeper).later later
      once := holds.once }
  | sweep sweeper accepts =>
    obtain ⟨turns, others⟩ := holds.turns step
    obtain ⟨later, stored⟩ := turns.grew holds.stored
    refine ⟨stored, holds.later.trans later, fun other => ?_, fun first second one two => ?_⟩
    · by_cases same : other = sweeper
      · exact same ▸ turns.sound
      · rw [others other same]
        exact (holds.sound other).later later
    · -- whoever marked the run before had ended it, so no other sweep can mark it now
      have alone : ∀ other, other ≠ sweeper → Marked (next.sweeps sweeper) →
          ¬Marked (next.sweeps other) := by
        rintro other apart ⟨marked, same⟩ ⟨earlier, held⟩
        rw [others other apart] at held
        rw [same] at turns
        have ended := holds.sound other
        rw [held] at ended
        exact absurd (turns.interrupted.unfinished.symm.trans (Ended.run ended)) Bool.false_ne_true
      by_cases here : first = sweeper
      · by_cases there : second = sweeper
        · exact here.trans there.symm
        · exact absurd two (alone second there (here ▸ one))
      · by_cases there : second = sweeper
        · exact absurd one (alone first here (there ▸ two))
        · rw [others first here] at one
          rw [others second there] at two
          exact holds.once first second one two

theorem holds_of_path (initial : (sweeping codecs cause).Initial start)
    (path : (sweeping codecs cause).Path start acts world) : Holds codecs cause start world := by
  refine path.preserves (fun _ _ _ holds step => holds.step step) ?_
  have checking := initial.2
  refine ⟨initial.1, .refl _, fun sweeper => ?_, fun first _ marked => ?_⟩
  · rw [checking sweeper]
    trivial
  · obtain ⟨_, same⟩ := marked
    rw [checking first] at same
    cases same

/-- What a sweep has returned stays. -/
theorem step_returned {act : Act P ν} {sweeper : P}
    {result : Except RecoveryError (Option RunInterruption)}
    (returned : world.sweeps sweeper = .returned result)
    (step : (sweeping codecs cause).step world act = some next) :
    next.sweeps sweeper = .returned result := by
  cases act with
  | own changes accepts =>
    obtain rfl := Option.some.inj step
    exact returned
  | sweep mover accepts =>
    obtain ⟨sweep, moved, same⟩ := step_sweep step
    have apart : sweeper ≠ mover := by
      rintro rfl
      rw [returned] at moved
      cases moved
    rw [same, Function.update_of_ne apart]
    exact returned

/-- What any interleaving of sweeps of one run with the run's own transactions comes to. -/
structure MarkedOnce (codecs : Codecs) (cause : P → Cause) (start : World P ν)
    (acts : List (Act P ν)) (final : World P ν) : Prop where
  /-- At most one sweep returns markings. -/
  once : ∀ first second marked other,
    final.sweeps first = .returned (.ok (some marked)) →
    final.sweeps second = .returned (.ok (some other)) → first = second
  /-- A sweep that returns none has found the run over. -/
  over_ : ∀ sweeper, final.sweeps sweeper = .returned (.ok none) →
    final.store.run.lifecycle.state.isTerminal = true
  /-- A run that was unfinished and is over was ended by a sweep, or by itself. -/
  ended : start.store.run.lifecycle.state.isTerminal = false →
    final.store.run.lifecycle.state.isTerminal = true →
    (∃ sweeper marked, final.sweeps sweeper = .returned (.ok (some marked))) ∨
      ∃ leading changes accepts rest before after,
        acts = leading ++ .own changes accepts :: rest ∧
        (sweeping codecs cause).Path start leading before ∧
        (sweeping codecs cause).step before (.own changes accepts) = some after ∧
        before.store.run.lifecycle.state.isTerminal = false ∧
        after.store.run.lifecycle.state.isTerminal = true
  /-- The sweep that returns markings made them in one move, and all is over since. -/
  marked : ∀ sweeper marked, final.sweeps sweeper = .returned (.ok (some marked)) →
    Ended final.store ∧ ∃ leading accepts rest before after,
      acts = leading ++ .sweep sweeper accepts :: rest ∧
      (sweeping codecs cause).Path start leading before ∧
      (sweeping codecs cause).step before (.sweep sweeper accepts) = some after ∧
      (sweeping codecs cause).Path after rest final ∧
      Interrupted codecs (cause sweeper) before.store after.store marked
  /-- Every other move of a sweep leaves the store alone. -/
  quiet : ∀ leading sweeper accepts rest before after,
    acts = leading ++ .sweep sweeper accepts :: rest →
    (sweeping codecs cause).Path start leading before →
    (sweeping codecs cause).step before (.sweep sweeper accepts) = some after →
    (¬∃ marked, after.sweeps sweeper = .returned (.ok (some marked))) → after.store = before.store
  /-- No event and no finished record changes. -/
  kept : Later codecs start.store final.store

/-- A sweep fails only for a refused statement or an unwritable column. -/
def Unfailing (codecs : Codecs) (cause : P → Cause) (acts : List (Act P ν)) (final : World P ν) : Prop :=
  ∀ sweeper error, final.sweeps sweeper = .returned (.error error) →
    ∃ accepts, .sweep sweeper accepts ∈ acts ∧ Barred codecs accepts (cause sweeper).at_ error

/-- A sweep that has returned has done so in a move of its own. -/
theorem exists_return (initial : (sweeping codecs cause).Initial start)
    (path : (sweeping codecs cause).Path start acts world) {sweeper : P}
    {result : Except RecoveryError (Option RunInterruption)}
    (returned : world.sweeps sweeper = .returned result) :
    ∃ leading accepts rest before after, acts = leading ++ .sweep sweeper accepts :: rest ∧
      (sweeping codecs cause).Path start leading before ∧
      (sweeping codecs cause).step before (.sweep sweeper accepts) = some after ∧
      (sweeping codecs cause).Path after rest world ∧
      Turns codecs (cause sweeper) accepts before.store (Unstuck before (.sweep sweeper accepts))
        (.returned result) after.store := by
  have running : start.sweeps sweeper ≠ .returned result := by
    rw [initial.2 sweeper]
    exact fun same => by cases same
  obtain ⟨leading, act, rest, before, after, split, first, open_, step, closed, last⟩ :=
    path.exists_turn (P := fun world => world.sweeps sweeper = .returned result) running returned
  have holds := holds_of_path initial first
  cases act with
  | own changes accepts =>
    obtain rfl := Option.some.inj step
    exact absurd closed open_
  | sweep mover accepts =>
    obtain ⟨turns, others⟩ := holds.turns step
    obtain rfl : sweeper = mover := by
      by_contra apart
      exact open_ ((others sweeper apart).symm.trans closed)
    exact ⟨leading, accepts, rest, before, after, split, first, step, last, closed ▸ turns⟩

theorem markedOnce_of_path (initial : (sweeping codecs cause).Initial start)
    (path : (sweeping codecs cause).Path start acts world) :
    MarkedOnce codecs cause start acts world := by
  have holds := holds_of_path initial path
  refine
    { once := fun first second _ _ one two => holds.once first second ⟨_, one⟩ ⟨_, two⟩
      over_ := fun sweeper returned => ?_
      ended := fun unfinished over_ => ?_
      marked := fun sweeper marked returned => ?_
      quiet := ?_
      kept := holds.later }
  · have sound := holds.sound sweeper
    rw [returned] at sound
    exact sound
  · obtain ⟨leading, act, rest, before, after, split, first, open_, step, closed, last⟩ :=
      path.exists_turn (P := fun world => world.store.run.lifecycle.state.isTerminal = true)
        (Bool.eq_false_iff.mp unfinished) over_
    have then_ := holds_of_path initial first
    cases act with
    | own changes accepts =>
      exact .inr ⟨leading, changes, accepts, rest, before, after, split, first, step,
        Bool.eq_false_iff.mpr open_, closed⟩
    | sweep sweeper accepts =>
      obtain ⟨turns, -⟩ := then_.turns step
      by_cases marked : Marked (after.sweeps sweeper)
      · obtain ⟨marked, returned⟩ := marked
        refine .inl ⟨sweeper, marked, ?_⟩
        exact last.preserves (P := fun world => world.sweeps sweeper = .returned (.ok (some marked)))
          (fun _ _ _ held step => step_returned held step) returned
      · rw [turns.same marked] at closed
        exact absurd closed open_
  · have sound := holds.sound sweeper
    rw [returned] at sound
    obtain ⟨leading, accepts, rest, before, after, split, first, step, last, turns⟩ :=
      exists_return initial path returned
    exact ⟨sound, leading, accepts, rest, before, after, split, first, step, last, turns.interrupted⟩
  · intro leading sweeper accepts rest before after split first step unmarked
    exact ((holds_of_path initial first).turns step).1.same unmarked

/-- In any interleaving of any number of sweeps of one run with its own transactions, a run is marked
at most once, all of it and at once. Where no sweep comes to a stuck call, none fails because of the state
that a record is in; a move of a sweep that comes to one fails. -/
theorem marked_once (initial : (sweeping codecs cause).Initial start)
    (path : (sweeping codecs cause).Path start acts world) :
    MarkedOnce codecs cause start acts world ∧
      ((sweeping codecs cause).Each Unstuck start acts → Unfailing codecs cause acts world) ∧
      ∀ leading sweeper accepts rest before after,
        acts = leading ++ .sweep sweeper accepts :: rest →
        (sweeping codecs cause).Path start leading before →
        (sweeping codecs cause).step before (.sweep sweeper accepts) = some after →
        ¬Unstuck before (.sweep sweeper accepts) →
        (∃ error, after.sweeps sweeper = .returned (.error error)) ∧ after.store = before.store := by
  refine ⟨markedOnce_of_path initial path, ?_, ?_⟩
  · intro clear sweeper error returned
    obtain ⟨leading, accepts, rest, before, after, rfl, first, step, last, turns⟩ :=
      exists_return initial path returned
    exact ⟨accepts, List.mem_append_right _ List.mem_cons_self,
      turns.barred (clear leading _ rest before rfl first)⟩
  · intro leading sweeper accepts rest before after split first step stuck
    exact ((holds_of_path initial first).turns step).1.failed stuck

/-- A running run with a step, a call and an open question, all unfinished. -/
private def sampleRows : RunStore Empty where
  run := { Run.withId 1 2 5 with lifecycle := (Record.Lifecycle.new 5).moved .running 6 }
  steps := [.withId 3 1 0 "edit" 5]
  toolCalls := [.withId 4 (.withId 3 1 0 "edit" 5) "fs.write" "1.0.0" .null 5]
  approvals :=
    [⟨7, .new 1 4 ⟨"fs.write", "1.0.0"⟩ 0 ⟨none, []⟩ .execute 5, .exactCall, .pending, none, none⟩]
  events := []
  leases := [(9, none)]

private def sampleCause (_ : Bool) : Cause := ⟨some 9, .leaseLockReleased, 4⟩

private def sampleStart : World Bool Empty := ⟨sampleRows, fun _ => .checking⟩

private theorem sampleStart_initial : (sweeping sampleCodecs sampleCause).Initial sampleStart := by
  have begun : Run.apply (.transition .running 6) (.withId 1 2 5) = (.ok (), sampleRows.run) := rfl
  have shaped := (Execution.shaped_new 5).kept (Run.moves_of_apply begun).1
  have opened : ApprovalRequest.openWithId 7 (.new 1 4 ⟨"fs.write", "1.0.0"⟩ 0 ⟨none, []⟩ .execute 5) =
      .ok ⟨7, .new 1 4 ⟨"fs.write", "1.0.0"⟩ 0 ⟨none, []⟩ .execute 5, .exactCall, .pending, none, none⟩ := rfl
  refine ⟨⟨rfl, ⟨shaped, nofun, nofun⟩, ⟨by decide, ?_⟩, ⟨by decide, ?_⟩, ⟨by decide, ?_⟩⟩, fun _ => rfl⟩
  · rintro _ (_ | ⟨_, ⟨⟩⟩)
    exact ⟨rfl, ToolCall.recorded_withId _ _ _ _ _ _⟩
  · rintro _ (_ | ⟨_, ⟨⟩⟩)
    exact ⟨rfl, Execution.shaped_new 5⟩
  · rintro _ (_ | ⟨_, ⟨⟩⟩)
    exact ⟨rfl, ApprovalRequest.consistent_of_openWithId opened⟩

/-- Both sweeps plan, the step ends on its own, and then both run their transactions. -/
private def sampleActs : List (Act Bool Empty) :=
  let accepts : Statement → Bool := fun _ => true
  let plans := List.replicate 4 [.sweep false accepts, .sweep true accepts]
  plans.flatten ++
    [.own [.step 3 (.transition .cancelled 7)] accepts, .sweep false accepts, .sweep true accepts]

theorem marked_once_sample : ∃ final : World Bool Empty,
    MarkedOnce sampleCodecs sampleCause sampleStart sampleActs final ∧
      Unfailing sampleCodecs sampleCause sampleActs final ∧
      (∃ marked, final.sweeps false = .returned (.ok (some marked)) ∧ marked.steps = [] ∧
        marked.toolCalls = [4]) ∧
      final.sweeps true = .returned (.ok none) := by
  obtain ⟨final, ran⟩ : ∃ final,
      (sweeping sampleCodecs sampleCause).run? sampleStart sampleActs = some final := ⟨_, rfl⟩
  have undecided : (sweeping sampleCodecs sampleCause).checks
      (fun world _ => world.store.toolCalls.all fun call => call.policyDecision.isNone)
      sampleStart sampleActs = true := rfl
  have clear : (sweeping sampleCodecs sampleCause).Each Unstuck sampleStart sampleActs := by
    refine (Machine.each_of_checks undecided).imp fun world act none => ?_
    have free : ∀ call ∈ world.store.toolCalls, ¬call.Stuck := by
      rintro call member ⟨-, decision, decided, -⟩
      have absent := List.all_eq_true.mp none call member
      rw [Option.mem_def.mp decided] at absent
      cases absent
    cases act with
    | own => trivial
    | sweep sweeper =>
      change (world.sweeps sweeper).Unstuck world.store
      cases world.sweeps sweeper with
      | planningToolCalls => exact free
      | applying => exact .inr free
      | _ => trivial
  obtain ⟨once, unfailing, -⟩ := marked_once sampleStart_initial (Machine.run?_eq_some_iff.mp ran)
  refine ⟨final, once, unfailing clear, ?_⟩
  obtain rfl := Option.some.inj ran
  exact ⟨⟨_, rfl, rfl, rfl⟩, rfl⟩

/-- Policy allows the call, the run sends it to approval all the same, and a sweep comes to it. -/
private def stuckActs : List (Act Bool Empty) :=
  let accepts : Statement → Bool := fun _ => true
  [.own [.toolCall 4 (.applyPolicyDecision (.new .allow "reads only" .builtIn false) 6)] accepts,
    .own [.toolCall 4 (.transition .awaitingApproval 7)] accepts,
    .sweep false accepts, .sweep false accepts]

/-- With every statement accepted, the sweep is refused the row of the call, and the run stays as it is. -/
theorem recovery_stuck : ∃ final : World Bool Empty,
    (sweeping sampleCodecs sampleCause).Initial sampleStart ∧
      (sweeping sampleCodecs sampleCause).Path sampleStart stuckActs final ∧
      ¬Unfailing sampleCodecs sampleCause stuckActs final ∧
      final.sweeps false = .returned (.error (.invalidRecord .toolCall (.invalidLifecycle "tool_call"
        "policy decision contradicts the tool-call lifecycle"))) ∧
      final.store.run.lifecycle.state = .running := by
  obtain ⟨final, ran⟩ : ∃ final,
      (sweeping sampleCodecs sampleCause).run? sampleStart stuckActs = some final := ⟨_, rfl⟩
  have path := Machine.run?_eq_some_iff.mp ran
  obtain rfl := Option.some.inj ran
  refine ⟨_, sampleStart_initial, path, fun unfailing => ?_, rfl, rfl⟩
  obtain ⟨accepts, -, ⟨statement, same, -⟩ | unwritable⟩ := unfailing false _ rfl
  · cases same
  · exact unwritable

end Runs

end Harkness.Runtime.Store.Recovery
