import Harkness.Runtime.Tool.Execute

/-! # What the record of a supervised call says

While the caller does not cancel between the reading of their token and the dispatch, and the executor does
not give up on a body that can still commit or has already answered, the record of a call is what became of
the body.
-/

namespace Harkness.Runtime.Tool.Execute

open Domain (ToolCallState)

variable {Output Failure : Type} {call : Call Output Failure} {state next : State Output Failure}

/-- A result on the body's own terms, which no stop accounts for. -/
def ToolResult.Own : ToolResult Output Failure → Prop
  | succeeded _ | failed _ => True
  | cancelled | timedOut _ => False

/-- A verdict of the executor on a body it has stopped. -/
def CallOutcome.Verdict : CallOutcome Output Failure → Prop
  | cancelled | timedOut _ => True
  | succeeded _ | failed _ | interrupted => False

/-- The body has not answered on its own terms. -/
def State.Silent (state : State Output Failure) : Prop :=
  ∀ result, state.returned = some result → ¬ result.Own

/-- The executor's reason for a stop: somebody cancelled, or the deadline has passed. -/
def State.Reason (state : State Output Failure) (verdict : CallOutcome Output Failure) : Prop :=
  verdict = .cancelled ∧ (state.caller = true ∨ state.token = true) ∨
    ∃ deadline, state.deadline = some deadline ∧ deadline.hasPassed state.now = true ∧
      verdict = .timedOut deadline.limit

/-- The executor may give up on a body that can no longer commit and has not answered on its own terms. -/
def State.Abandonable (state : State Output Failure) : Prop :=
  state.phase ≠ .irreversible ∧ state.Silent

/-- The steps outside the two windows: no cancellation between the reading of the caller's token and the
dispatch, and no verdict while the body can still commit or has answered on its own terms. -/
def Quiet (state : State Output Failure) : Step Output Failure → Prop
  | .cancel =>
    match state.supervisor with
    | .building | .dispatching _ => False
    | _ => True
  | .receive =>
    match state.supervisor with
    | .waiting (some _) =>
      state.channel = none → state.worker.hasEnded = true → state.Abandonable
    | _ => True
  | .inspect =>
    match state.supervisor with
    | .unanswered (some stop) =>
      stop.since + terminationGrace ≤ state.now → state.phase ≠ .irreversible → state.Silent
    | _ => True
  | _ => True

/-- The steps of the executor and of the clock, by which a call ends when nobody else steps. -/
def Step.Ends : Step Output Failure → Prop
  | .arm | .receive | .inspect | .stop | .tick | .finish true => True
  | _ => False

/-- The executor can end the call with one terminal record. -/
def Call.Ends (call : Call Output Failure) : State Output Failure → Prop :=
  call.machine.Leads Step.Ends fun last => last.supervisor = .done ∧ last.terminals.length = 1

/-- What is true of one terminal record. -/
structure Terminal.Honest (call : Call Output Failure) (state : State Output Failure)
    (terminal : Terminal Output Failure) : Prop where
  /-- A verdict the body did not return is recorded only where it has not entered its irreversible phase. -/
  uncommitted : terminal.basis.received = none → terminal.outcome.Verdict → state.phase = .stopRequested
  /-- No verdict replaces what the body had returned on its own terms. -/
  kept : ∀ result, terminal.basis.returned = some result → result.Own →
    terminal.outcome = call.recorded (outcomeOf result) ∨ terminal.outcome = .interrupted
  /-- What the body returned on its own terms is recorded as returned, stop or not. -/
  reported : ∀ result, terminal.basis.received = some result → result.Own →
    terminal.outcome = call.recorded (outcomeOf result)
  /-- The echo of a stop is recorded with the executor's reason for it. -/
  echoed : ∀ result verdict, terminal.basis.received = some result → ¬ result.Own →
    terminal.basis.stopping = some verdict → terminal.outcome = verdict
  reason : ∀ verdict, terminal.basis.stopping = some verdict → state.Reason verdict

/-- What is true of a call, wherever it is. -/
structure Honest (call : Call Output Failure) (state : State Output Failure) : Prop where
  once : state.terminals.length ≤ 1
  /-- A call that was started has one terminal record when the executor is done with it. -/
  recorded : state.dispatched.isSome → state.supervisor = .done → state.refused = false →
    state.terminals.length = 1
  /-- It can be brought there when the body is gone, or can still be stopped and there is a reason to. -/
  ends : state.dispatched.isSome → state.supervisor ≠ .done →
    (state.worker.hasEnded = true ∨ state.phase ≠ .irreversible ∧
      (state.caller = true ∨ state.token = true ∨ state.deadline.isSome)) → call.Ends state
  terminals : ∀ terminal ∈ state.terminals, terminal.Honest call state
  /-- No body runs for a call that was cancelled before its dispatch or whose start was not recorded. -/
  body : state.bodyRan = true → state.dispatched = some false

/-- The steps of the caller, of the clock and of the body. -/
def Step.Outside : Step Output Failure → Prop
  | .cancel | .tick | .gate _ | .beginIrreversible | .cancelOwn | .answer _ | .send | .die => True
  | _ => False

/-- What the caller, the clock and the body may change. -/
structure Grows (state : State Output Failure) (step : Step Output Failure) (next : State Output Failure) :
    Prop where
  supervisor : next.supervisor = state.supervisor
  record : next.record = state.record
  terminals : next.terminals = state.terminals
  refused : next.refused = state.refused
  dispatched : next.dispatched = state.dispatched
  deadline : next.deadline = state.deadline
  asked : state.caller = true → next.caller = true
  caller : step ≠ .cancel → next.caller = state.caller
  token : state.token = true → next.token = true
  now : state.now ≤ next.now
  stopped : state.phase = .stopRequested → next.phase = .stopRequested
  closed : state.phase ≠ .open_ → next.phase ≠ .open_
  unborn : state.worker = .unborn → next.worker = .unborn

namespace Grows

variable {step : Step Output Failure}

/-- A change of the threads alone. -/
theorem of_threads (worker : Worker Output Failure) (channel returned : Option (ToolResult Output Failure))
    (bodyRan : Bool) (born : state.worker ≠ .unborn) :
    Grows state step { state with worker, channel, returned, bodyRan } :=
  ⟨rfl, rfl, rfl, rfl, rfl, rfl, id, fun _ => rfl, id, le_rfl, id, id, fun unborn => absurd unborn born⟩

theorem beginIrreversible (state : State Output Failure) :
    Grows state step state.beginIrreversible := by
  unfold State.beginIrreversible
  split
  · exact ⟨rfl, rfl, rfl, rfl, rfl, rfl, id, fun _ => rfl, id, le_rfl, id, id, id⟩
  · rename_i unstopped
    split
    · exact ⟨rfl, rfl, rfl, rfl, rfl, rfl, id, fun _ => rfl, id, le_rfl, id, id, id⟩
    · exact ⟨rfl, rfl, rfl, rfl, rfl, rfl, id, fun _ => rfl, id, le_rfl,
        fun stopped => absurd (.inl stopped) unstopped, fun _ => nofun, id⟩

theorem reason (grows : Grows state step next) {verdict : CallOutcome Output Failure}
    (reason : state.Reason verdict) : next.Reason verdict := by
  rcases reason with ⟨rfl, asked⟩ | ⟨deadline, same, passed, rfl⟩
  · exact .inl ⟨rfl, asked.imp grows.asked grows.token⟩
  · refine .inr ⟨deadline, grows.deadline.trans same, ?_, rfl⟩
    have passes : deadline.passes ≤ state.now := of_decide_eq_true passed
    exact decide_eq_true (passes.trans grows.now)

end Grows

theorem Worker.ne_unborn_of_isRunning {worker : Worker Output Failure} (running : worker.isRunning = true) :
    worker ≠ .unborn := by
  rintro rfl
  cases running

theorem Call.step_grows {step : Step Output Failure} (outside : step.Outside)
    (taken : call.step state step = some next) : Grows state step next := by
  cases step with
  | cancel =>
    cases taken
    exact ⟨rfl, rfl, rfl, rfl, rfl, rfl, fun _ => rfl, absurd rfl, id, le_rfl, id, id, id⟩
  | tick =>
    cases taken
    exact ⟨rfl, rfl, rfl, rfl, rfl, rfl, id, fun _ => rfl, id, Nat.le_succ _, id, id, id⟩
  | beginIrreversible =>
    simp only [Call.step, Option.ite_none_right_eq_some, Option.some.injEq] at taken
    exact taken.2 ▸ .beginIrreversible state
  | cancelOwn =>
    simp only [Call.step, Option.ite_none_right_eq_some, Option.some.injEq] at taken
    cases taken.2
    exact ⟨rfl, rfl, rfl, rfl, rfl, rfl, id, fun _ => rfl, fun _ => rfl, le_rfl, id, id, id⟩
  | answer result =>
    simp only [Call.step, Option.ite_none_right_eq_some, Option.some.injEq] at taken
    cases taken.2
    exact .of_threads _ _ _ _ (Worker.ne_unborn_of_isRunning taken.1)
  | gate failure =>
    simp only [Call.step] at taken
    split at taken
    case h_1 gated =>
      have born : state.worker ≠ .unborn := by rw [gated]; nofun
      split at taken
      · cases taken; exact .of_threads _ _ _ _ born
      · split at taken <;> cases taken <;> exact .of_threads _ _ _ _ born
    case h_2 prepared =>
      have born : state.worker ≠ .unborn := by rw [prepared]; nofun
      split at taken <;> cases taken <;> exact .of_threads _ _ _ _ born
    case h_3 => cases taken
  | send =>
    simp only [Call.step] at taken
    split at taken
    case h_1 answered =>
      cases taken
      exact .of_threads _ _ _ _ (by rw [answered]; nofun)
    case h_2 => cases taken
  | die =>
    simp only [Call.step] at taken
    split at taken
    case h_1 => cases taken
    case h_2 => cases taken
    case h_3 born _ =>
      cases taken
      exact .of_threads _ _ _ _ born
  | load | resolve | refuseLimits | seed | build | dispatch | arm | receive | inspect | stop | finish =>
    cases outside

/-- The body and its channel are as they were; what a step of the executor leaves alone. -/
structure Spares (state next : State Output Failure) : Prop where
  caller : next.caller = state.caller
  worker : next.worker = state.worker
  channel : next.channel = state.channel
  returned : next.returned = state.returned
  bodyRan : next.bodyRan = state.bodyRan
  token : state.token = true → next.token = true
  dispatched : next.dispatched = state.dispatched ∨
    (∃ refusal, state.supervisor = .dispatching refusal) ∧ next.dispatched = some state.caller

theorem State.receive_spares (state : State Output Failure) (stopping : Option (Stop Output Failure)) :
    Spares state (state.receive stopping) := by
  unfold State.receive
  split
  · exact ⟨rfl, rfl, rfl, rfl, rfl, id, .inl rfl⟩
  · split <;> exact ⟨rfl, rfl, rfl, rfl, rfl, id, .inl rfl⟩

theorem State.inspect_spares (state : State Output Failure) (stopping : Option (Stop Output Failure)) :
    Spares state (state.inspect stopping) := by
  unfold State.inspect
  split <;> split <;> exact ⟨rfl, rfl, rfl, rfl, rfl, id, .inl rfl⟩

theorem State.finish_spares (state : State Output Failure) (outcome : CallOutcome Output Failure)
    (basis : Basis Output Failure) (accepted : Bool) :
    Spares state (state.finish call outcome basis accepted) := by
  unfold State.finish
  dsimp only
  split <;> exact ⟨rfl, rfl, rfl, rfl, rfl, id, .inl rfl⟩

theorem Call.step_spares {step : Step Output Failure} (inside : ¬ step.Outside)
    (later : step ≠ .arm) (taken : call.step state step = some next) : Spares state next := by
  cases step with
  | cancel | tick | gate | beginIrreversible | cancelOwn | answer | send | die => exact absurd trivial inside
  | arm => exact absurd rfl later
  | load | refuseLimits | build | stop =>
    simp only [Call.step] at taken
    split at taken <;> cases taken
    exact ⟨rfl, rfl, rfl, rfl, rfl, by simp [State.requestStop], .inl rfl⟩
  | seed =>
    simp only [Call.step] at taken
    split at taken <;> cases taken
    exact ⟨rfl, rfl, rfl, rfl, rfl, fun set => by simp [set], .inl rfl⟩
  | resolve failure =>
    simp only [Call.step] at taken
    split at taken <;> cases taken <;> exact ⟨rfl, rfl, rfl, rfl, rfl, id, .inl rfl⟩
  | dispatch accepted =>
    simp only [Call.step] at taken
    split at taken
    case h_1 refusal here =>
      split at taken <;> cases taken
      · exact ⟨rfl, rfl, rfl, rfl, rfl, id, .inr ⟨⟨refusal, here⟩, rfl⟩⟩
      · exact ⟨rfl, rfl, rfl, rfl, rfl, id, .inl rfl⟩
    case h_2 => cases taken
  | receive =>
    simp only [Call.step] at taken
    split at taken <;> cases taken
    exact state.receive_spares _
  | inspect =>
    simp only [Call.step] at taken
    split at taken <;> cases taken
    exact state.inspect_spares _
  | finish accepted =>
    simp only [Call.step] at taken
    split at taken <;> cases taken
    exact state.finish_spares _ _ _

/-- Where what the body has returned is, and under which conditions it was started. -/
structure Threads (state : State Output Failure) : Prop where
  returned : ∀ result, state.returned = some result → state.worker = .answered result ∨
    state.worker = .ended ∧ (state.channel = none ∨ state.channel = some result)
  channel : state.channel ≠ none → state.worker = .ended
  body : state.bodyRan = true → state.dispatched = some false
  started : state.worker ≠ .unborn → state.dispatched.isSome
  gated : state.dispatched = some true → state.token = true

namespace Threads

theorem start (record : ToolCallState) : Threads (.start record : State Output Failure) where
  returned := nofun
  channel := absurd rfl
  body := nofun
  started := absurd rfl
  gated := nofun

/-- A body that runs past the gate was dispatched before its caller cancelled. -/
theorem dispatched_uncancelled (threads : Threads state) (born : state.worker ≠ .unborn)
    (open_ : state.token = false) : state.dispatched = some false := by
  obtain ⟨cancelled, dispatched⟩ := Option.isSome_iff_exists.mp (threads.started born)
  cases cancelled with
  | false => exact dispatched
  | true => rw [threads.gated dispatched] at open_; cases open_

theorem silent_of_alive (threads : Threads state) (unanswered : ∀ result, state.worker ≠ .answered result)
    (alive : state.worker ≠ .ended) : state.returned = none := by
  cases returned : state.returned with
  | none => rfl
  | some result =>
    rcases threads.returned result returned with answered | ⟨ended, -⟩
    · exact absurd answered (unanswered result)
    · exact absurd ended alive

theorem empty_of_alive (threads : Threads state) (alive : state.worker ≠ .ended) :
    state.channel = none := by
  by_contra full
  exact alive (threads.channel full)

/-- What is in the channel is what the body returned, if it returned anything. -/
theorem returned_of_channel (threads : Threads state) {result : ToolResult Output Failure}
    (sent : state.channel = some result) :
    ∀ other, state.returned = some other → other = result := by
  intro other returned
  rcases threads.returned other returned with answered | ⟨-, empty | full⟩
  · have ended := threads.channel (by rw [sent]; nofun)
    rw [ended] at answered
    cases answered
  · rw [sent] at empty; cases empty
  · rw [sent] at full; cases full; rfl

/-- The threads are as they were, but for the phase, the clock and the tokens. -/
theorem of_same (threads : Threads state) (worker : next.worker = state.worker)
    (channel : next.channel = state.channel) (returned : next.returned = state.returned)
    (bodyRan : next.bodyRan = state.bodyRan) (dispatched : next.dispatched = state.dispatched)
    (token : state.token = true → next.token = true) : Threads next where
  returned := by rw [returned, worker, channel]; exact threads.returned
  channel := by rw [channel, worker]; exact threads.channel
  body := by rw [bodyRan, dispatched]; exact threads.body
  started := by rw [worker, dispatched]; exact threads.started
  gated started := token (threads.gated (dispatched ▸ started))

theorem gate (threads : Threads state) {failure : Option Failure}
    (taken : call.step state (.gate failure) = some next) : Threads next := by
  simp only [Call.step] at taken
  split at taken
  case h_1 gated =>
    have silent := threads.silent_of_alive (by rw [gated]; nofun) (by rw [gated]; nofun)
    have empty := threads.empty_of_alive (by rw [gated]; nofun)
    have started : state.dispatched.isSome := threads.started (by rw [gated]; nofun)
    split at taken
    · cases taken
      exact ⟨by rw [silent]; nofun, absurd empty, threads.body, fun _ => started, threads.gated⟩
    · split at taken <;> cases taken <;>
      exact ⟨by rw [silent]; nofun, absurd empty, threads.body, fun _ => started, threads.gated⟩
  case h_2 prepared =>
    have silent := threads.silent_of_alive (by rw [prepared]; nofun) (by rw [prepared]; nofun)
    have empty := threads.empty_of_alive (by rw [prepared]; nofun)
    have born : state.worker ≠ .unborn := by rw [prepared]; nofun
    split at taken
    · cases taken
      exact ⟨by rw [silent]; nofun, absurd empty, threads.body, fun _ => threads.started born,
        threads.gated⟩
    · rename_i untripped
      cases taken
      exact ⟨by rw [silent]; nofun, absurd empty,
        fun _ => threads.dispatched_uncancelled born (Bool.eq_false_iff.mpr untripped),
        fun _ => threads.started born, threads.gated⟩
  case h_3 => cases taken

theorem answer (threads : Threads state) {result : ToolResult Output Failure}
    (taken : call.step state (.answer result) = some next) : Threads next := by
  simp only [Call.step, Option.ite_none_right_eq_some, Option.some.injEq] at taken
  obtain ⟨running, taken⟩ := taken
  cases taken
  have alive : state.worker ≠ .ended := fun ended => by rw [ended] at running; cases running
  have born := Worker.ne_unborn_of_isRunning running
  exact ⟨fun other same => .inl (by cases same; rfl), absurd (threads.empty_of_alive alive),
    threads.body, fun _ => threads.started born, threads.gated⟩

theorem send (threads : Threads state) (taken : call.step state .send = some next) : Threads next := by
  simp only [Call.step] at taken
  split at taken
  case h_1 result answered =>
    cases taken
    refine ⟨fun other returned => .inr ⟨rfl, .inr ?_⟩, fun _ => rfl, threads.body,
      fun _ => threads.started (by rw [answered]; nofun), threads.gated⟩
    rcases threads.returned other returned with same | ⟨ended, -⟩
    · rw [answered] at same; cases same; rfl
    · rw [answered] at ended; cases ended
  case h_2 => cases taken

theorem die (threads : Threads state) (taken : call.step state .die = some next) : Threads next := by
  simp only [Call.step] at taken
  split at taken
  case h_1 => cases taken
  case h_2 => cases taken
  case h_3 born alive =>
    cases taken
    exact ⟨fun _ _ => .inr ⟨rfl, .inl (threads.empty_of_alive alive)⟩, fun _ => rfl, threads.body,
      fun _ => threads.started born, threads.gated⟩

end Threads

theorem Call.step_threads_outside (threads : Threads state) {step : Step Output Failure}
    (outside : step.Outside) (taken : call.step state step = some next) : Threads next := by
  cases step with
  | cancel | tick => cases taken; exact threads.of_same rfl rfl rfl rfl rfl id
  | gate failure => exact threads.gate taken
  | beginIrreversible =>
    simp only [Call.step, Option.ite_none_right_eq_some, Option.some.injEq] at taken
    rw [← taken.2]
    unfold State.beginIrreversible
    split
    · exact threads
    · split
      · exact threads
      · exact threads.of_same rfl rfl rfl rfl rfl id
  | cancelOwn =>
    simp only [Call.step, Option.ite_none_right_eq_some, Option.some.injEq] at taken
    cases taken.2
    exact threads.of_same rfl rfl rfl rfl rfl fun _ => rfl
  | answer result => exact threads.answer taken
  | send => exact threads.send taken
  | die => exact threads.die taken
  | load | resolve | refuseLimits | seed | build | dispatch | arm | receive | inspect | stop | finish =>
    cases outside

/-- What an outcome may rest on. -/
structure Sound (state : State Output Failure) (outcome : CallOutcome Output Failure)
    (basis : Basis Output Failure) : Prop where
  stopping : ∀ verdict, basis.stopping = some verdict → state.Reason verdict
  received : ∀ result, basis.received = some result →
    outcome = conclude basis.stopping result ∧ ∀ other, basis.returned = some other → other = result
  inferred : basis.received = none →
    (∃ failure, outcome = .failed failure) ∧ basis.returned = none ∨ outcome = .interrupted ∨
      state.phase = .stopRequested ∧ ∀ result, basis.returned = some result → ¬ result.Own

theorem conclude_of_own {stopping : Option (CallOutcome Output Failure)}
    {result : ToolResult Output Failure} (own : result.Own) :
    conclude stopping result = outcomeOf result := by
  cases result with
  | succeeded | failed => cases stopping <;> rfl
  | cancelled | timedOut => cases own

theorem conclude_of_echo {verdict : CallOutcome Output Failure} {result : ToolResult Output Failure}
    (echo : ¬ result.Own) : conclude (some verdict) result = verdict := by
  cases result with
  | succeeded | failed => exact absurd trivial echo
  | cancelled | timedOut => rfl

theorem State.Reason.recorded {verdict : CallOutcome Output Failure} (reason : state.Reason verdict) :
    call.recorded verdict = verdict := by
  rcases reason with ⟨rfl, -⟩ | ⟨deadline, -, -, rfl⟩ <;> rfl

namespace Sound

variable {outcome : CallOutcome Output Failure} {basis : Basis Output Failure}

/-- What holds of an outcome goes on to hold: a phase in which a stop was asked for is the last one. -/
theorem mono (sound : Sound state outcome basis)
    (reason : ∀ verdict, state.Reason verdict → next.Reason verdict)
    (stopped : state.phase = .stopRequested → next.phase = .stopRequested) :
    Sound next outcome basis where
  stopping verdict same := reason verdict (sound.stopping verdict same)
  received := sound.received
  inferred none := (sound.inferred none).imp_right (.imp_right (.imp_left stopped))

theorem honest (sound : Sound state outcome basis) :
    Terminal.Honest call state ⟨call.recorded outcome, basis⟩ where
  uncommitted none verdict := by
    rcases sound.inferred none with ⟨⟨failure, rfl⟩, -⟩ | rfl | ⟨stopped, -⟩
    · cases verdict
    · cases verdict
    · exact stopped
  kept result returned own := by
    cases received : basis.received with
    | none =>
      rcases sound.inferred received with ⟨-, silent⟩ | rfl | ⟨-, silent⟩
      · rw [returned] at silent; cases silent
      · exact .inr rfl
      · exact absurd own (silent result returned)
    | some sent =>
      obtain ⟨rfl, same⟩ := sound.received sent received
      obtain rfl := same result returned
      exact .inl (congrArg call.recorded (conclude_of_own own))
  reported result received own :=
    congrArg call.recorded ((sound.received result received).1.trans (conclude_of_own own))
  echoed result verdict received echo stopping := by
    have concluded := (sound.received result received).1
    rw [stopping, conclude_of_echo echo] at concluded
    exact (congrArg call.recorded concluded).trans (sound.stopping verdict stopping).recorded
  reason := sound.stopping

end Sound

theorem Terminal.Honest.mono {terminal : Terminal Output Failure} (honest : terminal.Honest call state)
    (reason : ∀ verdict, state.Reason verdict → next.Reason verdict)
    (stopped : state.phase = .stopRequested → next.phase = .stopRequested) :
    terminal.Honest call next where
  uncommitted none verdict := stopped (honest.uncommitted none verdict)
  kept := honest.kept
  reported := honest.reported
  echoed := honest.echoed
  reason verdict same := reason verdict (honest.reason verdict same)

/-- Nothing is recorded of the call and no body exists. -/
structure Untouched (state : State Output Failure) : Prop where
  worker : state.worker = .unborn
  terminals : state.terminals = []
  dispatched : state.dispatched = none
  deadline : state.deadline = none

/-- The start of the call is the last thing that is recorded of it. -/
structure Started (state : State Output Failure) : Prop where
  record : state.record = .running
  terminals : state.terminals = []
  dispatched : state.dispatched.isSome

/-- What is true where the executor is. -/
def Stands (call : Call Output Failure) (state : State Output Failure) : Prop :=
  match state.supervisor with
  | .loading | .resolving | .seeding => Untouched state
  | .building | .dispatching _ => Untouched state ∧ (state.caller = true → state.token = true)
  | .arming _ => Started state ∧ state.worker = .unborn ∧ state.deadline = none
  | .waiting stopping | .unanswered stopping =>
    Started state ∧ ∀ stop, stopping = some stop → state.phase ≠ .open_ ∧ state.Reason stop.verdict
  | .asking verdict => Started state ∧ state.Reason verdict
  | .finishing outcome basis =>
    state.terminals = [] ∧ (state.dispatched.isSome → Started state) ∧ Sound state outcome basis
  | .done =>
    (state.dispatched.isSome → state.refused = false → state.terminals.length = 1) ∧
      state.terminals.length ≤ 1 ∧ ∀ terminal ∈ state.terminals, terminal.Honest call state

namespace Grows

variable {step : Step Output Failure}

theorem untouched (grows : Grows state step next) (untouched : Untouched state) : Untouched next :=
  ⟨grows.unborn untouched.worker, grows.terminals.trans untouched.terminals,
    grows.dispatched.trans untouched.dispatched, grows.deadline.trans untouched.deadline⟩

theorem started (grows : Grows state step next) (started : Started state) : Started next :=
  ⟨grows.record.trans started.record, grows.terminals.trans started.terminals,
    grows.dispatched ▸ started.dispatched⟩

/-- The executor stands where it stood, unless the caller cancels before the dispatch. -/
theorem stands (grows : Grows state step next) (quiet : Quiet state step) (stands : Stands call state) :
    Stands call next := by
  unfold Stands at stands ⊢
  rw [grows.supervisor]
  cases here : state.supervisor with
  | loading | resolving | seeding => rw [here] at stands; exact grows.untouched stands
  | building | dispatching refusal =>
    rw [here] at stands
    refine ⟨grows.untouched stands.1, fun asked => grows.token (stands.2 ?_)⟩
    have other : step ≠ .cancel := by rintro rfl; simp only [Quiet, here] at quiet
    exact grows.caller other ▸ asked
  | arming refusal =>
    rw [here] at stands
    exact ⟨grows.started stands.1, grows.unborn stands.2.1, grows.deadline.trans stands.2.2⟩
  | waiting stopping | unanswered stopping =>
    rw [here] at stands
    exact ⟨grows.started stands.1, fun stop same =>
      ⟨grows.closed (stands.2 stop same).1, grows.reason (stands.2 stop same).2⟩⟩
  | asking verdict => rw [here] at stands; exact ⟨grows.started stands.1, grows.reason stands.2⟩
  | finishing outcome basis =>
    rw [here] at stands
    exact ⟨grows.terminals.trans stands.1, fun dispatched => grows.started (stands.2.1 (grows.dispatched ▸ dispatched)),
      stands.2.2.mono (fun _ => grows.reason) grows.stopped⟩
  | done =>
    rw [here] at stands
    dsimp only at stands ⊢
    rw [grows.dispatched, grows.refused, grows.terminals]
    exact ⟨stands.1, stands.2.1, fun terminal listed =>
      (stands.2.2 terminal listed).mono (fun _ => grows.reason) grows.stopped⟩

end Grows

/-- A call that was never dispatched is done without a record. -/
theorem Untouched.stands_done (untouched : Untouched state) (refused : Bool) :
    Stands call { state with supervisor := .done, refused } := by
  refine ⟨fun dispatched => ?_, ?_, ?_⟩
  · rw [untouched.dispatched] at dispatched; cases dispatched
  · rw [untouched.terminals]; exact Nat.zero_le 1
  · rw [untouched.terminals]; exact List.forall_mem_nil _

/-- A failure before the body exists rests on nothing. -/
theorem Sound.of_unborn (threads : Threads state) (unborn : state.worker = .unborn) (failure : Failure) :
    Sound state (.failed failure) ⟨none, none, state.returned⟩ where
  stopping := nofun
  received := nofun
  inferred _ := .inl ⟨⟨failure, rfl⟩,
    threads.silent_of_alive (by rw [unborn]; nofun) (by rw [unborn]; nofun)⟩

theorem verdict_reason {stopping : Option (Stop Output Failure)}
    (stopped : ∀ stop, stopping = some stop → state.phase ≠ .open_ ∧ state.Reason stop.verdict) :
    ∀ verdict, stopping.map (·.verdict) = some verdict → state.Reason verdict := by
  intro verdict same
  obtain ⟨stop, asked, rfl⟩ := Option.map_eq_some_iff.mp same
  exact (stopped stop asked).2

/-- A phase that a stop has closed and that is not irreversible was stopped. -/
theorem phase_eq_stopRequested {phase : ExecutionPhase} (closed : phase ≠ .open_)
    (reversible : phase ≠ .irreversible) : phase = .stopRequested := by
  cases phase with
  | open_ => exact absurd rfl closed
  | stopRequested => rfl
  | irreversible => exact absurd rfl reversible

section receive

variable (threads : Threads state) (started : Started state) {stopping : Option (Stop Output Failure)}
  (stopped : ∀ stop, stopping = some stop → state.phase ≠ .open_ ∧ state.Reason stop.verdict)
include started stopped

include threads in
theorem stands_receive (quiet : Quiet state .receive) (here : state.supervisor = .waiting stopping) :
    Stands call (state.receive stopping) := by
  have reason := verdict_reason stopped
  unfold State.receive
  cases sent : state.channel with
  | some result =>
    refine ⟨started.terminals, fun _ => ⟨started.1, started.2, started.3⟩, reason, ?_, nofun⟩
    rintro _ ⟨⟩
    exact ⟨rfl, threads.returned_of_channel sent⟩
  | none =>
    cases ended : state.worker.hasEnded with
    | false => exact ⟨⟨started.1, started.2, started.3⟩, stopped⟩
    | true =>
      refine ⟨started.terminals, fun _ => ⟨started.1, started.2, started.3⟩, reason, nofun, fun _ => ?_⟩
      cases stopping with
      | none => exact .inr (.inl rfl)
      | some stop =>
        simp only [Quiet, here] at quiet
        obtain ⟨reversible, silent⟩ := quiet sent ended
        exact .inr (.inr ⟨phase_eq_stopRequested (stopped stop rfl).1 reversible, silent⟩)

theorem stands_inspect (quiet : Quiet state .inspect) (here : state.supervisor = .unanswered stopping) :
    Stands call (state.inspect stopping) := by
  have reason := verdict_reason stopped
  have kept : Started { state with supervisor := .waiting stopping } := ⟨started.1, started.2, started.3⟩
  cases stopping with
  | some stop =>
    simp only [Quiet, here] at quiet
    unfold State.inspect
    dsimp only
    split
    · rename_i over_
      refine ⟨started.terminals, fun _ => ⟨started.1, started.2, started.3⟩, reason, nofun, fun _ => ?_⟩
      exact .inr (.inr ⟨phase_eq_stopRequested (stopped stop rfl).1 over_.2, quiet over_.1 over_.2⟩)
    · exact ⟨kept, stopped⟩
  | none =>
    unfold State.inspect
    dsimp only
    split
    · rename_i verdict asked
      refine ⟨⟨started.1, started.2, started.3⟩, ?_⟩
      unfold State.reasonToStop at asked
      split at asked
      · cases asked; exact .inl ⟨rfl, ‹_›⟩
      · obtain ⟨deadline, passed, rfl⟩ := Option.map_eq_some_iff.mp asked
        obtain ⟨same, passed⟩ := Option.filter_eq_some_iff.mp passed
        exact .inr ⟨deadline, same, passed, rfl⟩
    · exact ⟨kept, stopped⟩

end receive

theorem stands_finish {outcome : CallOutcome Output Failure} {basis : Basis Output Failure}
    (unwritten : state.terminals = []) (sound : Sound state outcome basis) (accepted : Bool) :
    Stands call (state.finish call outcome basis accepted) := by
  unfold State.finish
  dsimp only
  split
  · refine ⟨fun _ _ => by simp [unwritten], by simp [unwritten], fun terminal listed => ?_⟩
    have same : terminal = ⟨call.recorded outcome, basis⟩ := by simpa [unwritten] using listed
    subst same
    exact sound.honest.mono (fun _ => id) id
  · refine ⟨fun _ => nofun, ?_, ?_⟩
    · rw [unwritten]; exact Nat.zero_le 1
    · rw [unwritten]; exact List.forall_mem_nil _

/-- What is true of the threads and of the executor. -/
structure Tracked (call : Call Output Failure) (state : State Output Failure) : Prop where
  threads : Threads state
  stands : Stands call state

theorem Tracked.start (record : ToolCallState) : Tracked call (.start record) where
  threads := .start record
  stands := ⟨rfl, rfl, rfl, rfl⟩

/-- The executor's steps, one by one. -/
theorem Call.step_stands_inside (tracked : Tracked call state) {step : Step Output Failure}
    (inside : ¬ step.Outside) (quiet : Quiet state step) (taken : call.step state step = some next) :
    Stands call next := by
  have threads := tracked.threads
  have stands := tracked.stands
  unfold Stands at stands
  cases step with
  | cancel | tick | gate | beginIrreversible | cancelOwn | answer | send | die => exact absurd trivial inside
  | load =>
    simp only [Call.step] at taken
    split at taken <;> cases taken
    rename_i here
    rw [here] at stands
    by_cases ready : state.record = call.required
    · simp only [ready, if_true]; exact ⟨stands.1, stands.2, stands.3, stands.4⟩
    · simp only [ready, if_false]; exact stands.stands_done _
  | resolve failure =>
    simp only [Call.step] at taken
    split at taken <;> cases taken <;> rename_i here <;> rw [here] at stands
    · refine ⟨stands.terminals, fun dispatched => ?_,
        (Sound.of_unborn threads stands.worker _).mono (fun _ => id) id⟩
      change state.dispatched.isSome at dispatched
      rw [stands.dispatched] at dispatched
      cases dispatched
    · exact ⟨stands.1, stands.2, stands.3, stands.4⟩
  | refuseLimits =>
    simp only [Call.step] at taken
    split at taken <;> cases taken
    rename_i here
    rw [here] at stands
    exact stands.stands_done _
  | seed =>
    simp only [Call.step] at taken
    split at taken <;> cases taken
    rename_i here
    rw [here] at stands
    exact ⟨⟨stands.1, stands.2, stands.3, stands.4⟩, fun asked => by simpa using .inr asked⟩
  | build failure =>
    simp only [Call.step] at taken
    split at taken <;> cases taken
    rename_i here
    rw [here] at stands
    exact ⟨⟨stands.1.1, stands.1.2, stands.1.3, stands.1.4⟩, stands.2⟩
  | dispatch accepted =>
    simp only [Call.step] at taken
    split at taken
    case h_1 here =>
      rw [here] at stands
      split at taken <;> cases taken
      · exact ⟨⟨rfl, stands.1.terminals, rfl⟩, stands.1.worker, stands.1.deadline⟩
      · exact stands.1.stands_done _
    case h_2 => cases taken
  | arm =>
    simp only [Call.step] at taken
    split at taken <;> cases taken <;> rename_i here <;> rw [here] at stands
    · exact ⟨stands.1.terminals, fun _ => ⟨stands.1.1, stands.1.2, stands.1.3⟩,
        (Sound.of_unborn threads stands.2.1 _).mono (fun _ => id) id⟩
    · exact ⟨⟨stands.1.1, stands.1.2, stands.1.3⟩, nofun⟩
  | receive =>
    simp only [Call.step] at taken
    split at taken <;> cases taken
    rename_i here
    rw [here] at stands
    exact stands_receive threads stands.1 stands.2 quiet here
  | inspect =>
    simp only [Call.step] at taken
    split at taken <;> cases taken
    rename_i here
    rw [here] at stands
    exact stands_inspect stands.1 stands.2 quiet here
  | stop =>
    simp only [Call.step] at taken
    split at taken <;> cases taken
    rename_i verdict here
    rw [here] at stands
    refine ⟨⟨stands.1.1, stands.1.2, stands.1.3⟩, ?_⟩
    rintro _ ⟨⟩
    refine ⟨?_, stands.2.imp (fun reason => ⟨reason.1, .inr rfl⟩) id⟩
    dsimp only [State.requestStop]
    split
    · nofun
    · assumption
  | finish accepted =>
    simp only [Call.step] at taken
    split at taken <;> cases taken
    rename_i here
    rw [here] at stands
    exact stands_finish stands.1 stands.2.2 accepted

/-- A step of the executor leaves the body and its channel alone, but for the start of the thread. -/
theorem Call.step_threads_inside (tracked : Tracked call state) {step : Step Output Failure}
    (inside : ¬ step.Outside) (taken : call.step state step = some next) : Threads next := by
  have threads := tracked.threads
  have stands := tracked.stands
  unfold Stands at stands
  by_cases arming : step = .arm
  · subst arming
    simp only [Call.step] at taken
    split at taken <;> cases taken <;> rename_i here <;> rw [here] at stands
    · exact threads.of_same rfl rfl rfl rfl rfl id
    · have silent := threads.silent_of_alive (by rw [stands.2.1]; nofun) (by rw [stands.2.1]; nofun)
      have empty := threads.empty_of_alive (by rw [stands.2.1]; nofun)
      exact ⟨by rw [silent]; nofun, absurd empty, threads.body, fun _ => stands.1.dispatched,
        threads.gated⟩
  · have spares := call.step_spares inside arming taken
    rcases spares.dispatched with same | ⟨⟨refusal, here⟩, dispatched⟩
    · exact threads.of_same spares.worker spares.channel spares.returned spares.bodyRan same spares.token
    · rw [here] at stands
      refine ⟨?_, ?_, fun ran => ?_, fun _ => by rw [dispatched]; rfl, fun started => ?_⟩
      · rw [spares.returned, spares.worker, spares.channel]; exact threads.returned
      · rw [spares.channel, spares.worker]; exact threads.channel
      · have unrecorded := threads.body (spares.bodyRan ▸ ran)
        rw [stands.1.dispatched] at unrecorded
        cases unrecorded
      · rw [dispatched] at started
        exact spares.token (stands.2 (Option.some.inj started))

/-- Every step outside the two windows keeps what is tracked. -/
theorem Tracked.step (tracked : Tracked call state) {step : Step Output Failure} (quiet : Quiet state step)
    (taken : call.step state step = some next) : Tracked call next := by
  by_cases outside : step.Outside
  · exact ⟨call.step_threads_outside tracked.threads outside taken,
      (call.step_grows outside taken).stands quiet tracked.stands⟩
  · exact ⟨call.step_threads_inside tracked outside taken,
      call.step_stands_inside tracked outside quiet taken⟩

theorem tracked_of_reached (reached : call.machine.ReachedBy Quiet state) : Tracked call state := by
  refine reached.invariant ?_ fun _ _ _ tracked quiet taken => tracked.step quiet taken
  rintro _ ⟨record, rfl⟩
  exact .start record

section stepping

variable {stopping : Option (Stop Output Failure)}

theorem Call.step_receive (here : state.supervisor = .waiting stopping) :
    call.step state .receive = some (state.receive stopping) := by
  simp only [Call.step, here]

theorem Call.step_inspect (here : state.supervisor = .unanswered stopping) :
    call.step state .inspect = some (state.inspect stopping) := by
  simp only [Call.step, here]

theorem Call.step_stop {verdict : CallOutcome Output Failure} (here : state.supervisor = .asking verdict) :
    call.step state .stop =
      some { state.requestStop with supervisor := .waiting (some ⟨verdict, state.now⟩) } := by
  simp only [Call.step, here]

theorem Call.step_finish {outcome : CallOutcome Output Failure} {basis : Basis Output Failure}
    (here : state.supervisor = .finishing outcome basis) (accepted : Bool) :
    call.step state (.finish accepted) = some (state.finish call outcome basis accepted) := by
  simp only [Call.step, here]

end stepping

/-- Every terminal state may follow a start. -/
theorem CallOutcome.recordedState_mem (outcome : CallOutcome Output Failure) :
    (ToolCallState.running, outcome.recordedState) ∈ ToolCallState.transitions := by
  have all : ∀ target ∈ [ToolCallState.succeeded, .failed, .cancelled, .interrupted],
      (ToolCallState.running, target) ∈ ToolCallState.transitions := by decide
  apply all
  cases outcome <;> simp [recordedState]

namespace Call.Ends

variable {outcome : CallOutcome Output Failure} {basis : Basis Output Failure}
  {stopping : Option (Stop Output Failure)}

theorem cons (step : Step Output Failure) (ends : step.Ends) (taken : call.step state step = some next)
    (rest : call.Ends next) : call.Ends state :=
  Machine.Leads.step step ends taken rest

theorem of_finishing (here : state.supervisor = .finishing outcome basis) (started : Started state) :
    call.Ends state := by
  have written : state.finish call outcome basis true =
      { state with
        record := (call.recorded outcome).recordedState
        terminals := [⟨call.recorded outcome, basis⟩]
        supervisor := .done } := by
    unfold State.finish
    dsimp only
    rw [started.record, if_pos ⟨rfl, CallOutcome.recordedState_mem _⟩, started.terminals, List.nil_append]
  refine cons (.finish true) trivial (call.step_finish here true) (.here ?_)
  rw [written]
  exact ⟨rfl, rfl⟩

theorem of_settled {received : Option (ToolResult Output Failure)} (started : Started state) :
    call.Ends (state.settle outcome received stopping) :=
  of_finishing rfl ⟨started.1, started.2, started.3⟩

theorem of_waiting (here : state.supervisor = .waiting stopping) (started : Started state)
    (rest : state.worker.hasEnded = false → call.Ends { state with supervisor := .unanswered stopping }) :
    call.Ends state := by
  refine cons .receive trivial (call.step_receive here) ?_
  unfold State.receive
  split
  · exact of_settled started
  · cases ended : state.worker.hasEnded with
    | true => exact of_settled started
    | false => exact rest ended

theorem of_ticks (count : ℕ) (rest : call.Ends { state with now := state.now + count }) :
    call.Ends state := by
  induction count generalizing state with
  | zero => exact rest
  | succ count ih =>
    refine cons .tick trivial rfl (ih ?_)
    rwa [Nat.add_assoc, Nat.add_comm 1]

theorem of_unanswered_stop {stop : Stop Output Failure} (here : state.supervisor = .unanswered (some stop))
    (started : Started state) (reversible : state.phase ≠ .irreversible) : call.Ends state := by
  refine of_ticks (stop.since + terminationGrace)
    (cons .inspect trivial (call.step_inspect here) ?_)
  unfold State.inspect
  dsimp only
  rw [if_pos ⟨Nat.le_add_left _ _, reversible⟩]
  exact of_settled ⟨started.1, started.2, started.3⟩

theorem of_waiting_stop {stop : Stop Output Failure} (here : state.supervisor = .waiting (some stop))
    (started : Started state) (reversible : state.phase ≠ .irreversible) : call.Ends state :=
  of_waiting here started fun _ =>
    of_unanswered_stop rfl ⟨started.1, started.2, started.3⟩ reversible

theorem of_asking {verdict : CallOutcome Output Failure} (here : state.supervisor = .asking verdict)
    (started : Started state)
    (rest : state.phase ≠ .irreversible ∨ state.worker.hasEnded = true) : call.Ends state := by
  refine cons .stop trivial (call.step_stop here) ?_
  rcases rest with reversible | ended
  · refine of_waiting_stop rfl ⟨started.1, started.2, started.3⟩ ?_
    dsimp only [State.requestStop]
    split
    · nofun
    · exact reversible
  · refine of_waiting rfl ⟨started.1, started.2, started.3⟩ fun alive => ?_
    exact absurd (ended.symm.trans alive) nofun

theorem of_unanswered_none (here : state.supervisor = .unanswered none) (started : Started state)
    (rest : state.phase ≠ .irreversible ∧ state.reasonToStop ≠ none ∨ state.worker.hasEnded = true) :
    call.Ends state := by
  refine cons .inspect trivial (call.step_inspect here) ?_
  unfold State.inspect
  dsimp only
  cases asked : state.reasonToStop with
  | some verdict =>
    exact of_asking rfl ⟨started.1, started.2, started.3⟩ (rest.imp_left And.left)
  | none =>
    rcases rest with ⟨-, reason⟩ | ended
    · exact absurd asked reason
    · refine of_waiting rfl ⟨started.1, started.2, started.3⟩ fun alive => ?_
      exact absurd (ended.symm.trans alive) nofun

/-- A limit becomes a reason to stop when the clock has reached it. -/
theorem of_unanswered (here : state.supervisor = .unanswered none) (started : Started state)
    (rest : state.worker.hasEnded = true ∨ state.phase ≠ .irreversible ∧
      (state.caller = true ∨ state.token = true ∨ state.deadline.isSome)) : call.Ends state := by
  rcases rest with ended | ⟨reversible, asked⟩
  · exact of_unanswered_none here started (.inr ended)
  · refine of_ticks ((state.deadline.map (·.passes)).getD 0)
      (of_unanswered_none here ⟨started.1, started.2, started.3⟩ (.inl ⟨reversible, ?_⟩))
    unfold State.reasonToStop
    split
    · nofun
    · rename_i unasked
      have limited : state.deadline.isSome := by
        rcases asked with caller | token | limited
        · exact absurd (.inl caller) unasked
        · exact absurd (.inr token) unasked
        · exact limited
      obtain ⟨deadline, same⟩ := Option.isSome_iff_exists.mp limited
      have passed : deadline.hasPassed (state.now + deadline.passes) = true :=
        decide_eq_true (Nat.le_add_left _ _)
      simp [same, Option.filter, passed]

end Call.Ends

theorem Tracked.ends (tracked : Tracked call state) (dispatched : state.dispatched.isSome)
    (unfinished : state.supervisor ≠ .done)
    (rest : state.worker.hasEnded = true ∨ state.phase ≠ .irreversible ∧
      (state.caller = true ∨ state.token = true ∨ state.deadline.isSome)) : call.Ends state := by
  have stands := tracked.stands
  unfold Stands at stands
  cases here : state.supervisor with
  | loading | resolving | seeding =>
    rw [here] at stands
    rw [stands.dispatched] at dispatched
    cases dispatched
  | building | dispatching =>
    rw [here] at stands
    rw [stands.1.dispatched] at dispatched
    cases dispatched
  | arming refusal =>
    rw [here] at stands
    obtain ⟨started, unborn, unlimited⟩ := stands
    rw [unborn, unlimited] at rest
    cases refusal with
    | some failure =>
      have taken : call.step state .arm = some (state.settle (.failed failure) none none) := by
        simp only [Call.step, here]
      exact .cons .arm trivial taken (.of_settled started)
    | none =>
      refine .cons .arm trivial (by simp only [Call.step, here]; rfl) ?_
      refine .of_waiting rfl ⟨started.1, started.2, started.3⟩ fun _ => ?_
      refine .of_unanswered rfl ⟨started.1, started.2, started.3⟩ (.inr ?_)
      rcases rest with ended | ⟨reversible, caller | token | limited⟩
      · cases ended
      · exact ⟨reversible, .inl caller⟩
      · exact ⟨reversible, .inr (.inl token)⟩
      · cases limited
  | waiting stopping =>
    rw [here] at stands
    cases stopping with
    | some stop =>
      rcases rest with ended | ⟨reversible, -⟩
      · exact .of_waiting here stands.1 fun alive => absurd (ended.symm.trans alive) nofun
      · exact .of_waiting_stop here stands.1 reversible
    | none =>
      exact .of_waiting here stands.1 fun _ =>
        .of_unanswered rfl ⟨stands.1.1, stands.1.2, stands.1.3⟩ rest
  | unanswered stopping =>
    rw [here] at stands
    cases stopping with
    | none => exact .of_unanswered here stands.1 rest
    | some stop =>
      rcases rest with ended | ⟨reversible, -⟩
      · refine .cons .inspect trivial (call.step_inspect here) ?_
        unfold State.inspect
        dsimp only
        split
        · exact .of_settled stands.1
        · exact .of_waiting rfl ⟨stands.1.1, stands.1.2, stands.1.3⟩ fun alive =>
            absurd (ended.symm.trans alive) nofun
      · exact .of_unanswered_stop here stands.1 reversible
  | asking verdict =>
    rw [here] at stands
    exact .of_asking here stands.1 (rest.symm.imp_left And.left)
  | finishing outcome basis =>
    rw [here] at stands
    exact .of_finishing here (stands.2.1 dispatched)
  | done => exact absurd here unfinished

theorem Tracked.honest (tracked : Tracked call state) : Honest call state := by
  have stands := tracked.stands
  unfold Stands at stands
  have fresh : state.terminals = [] → state.terminals.length ≤ 1 ∧
      ∀ terminal ∈ state.terminals, terminal.Honest call state := by
    intro none
    rw [none]
    exact ⟨Nat.zero_le 1, List.forall_mem_nil _⟩
  have written : state.terminals.length ≤ 1 ∧
      ∀ terminal ∈ state.terminals, terminal.Honest call state := by
    cases here : state.supervisor <;> rw [here] at stands
    case loading | resolving | seeding => exact fresh stands.terminals
    case building | dispatching => exact fresh stands.1.terminals
    case arming | waiting | unanswered | asking => exact fresh stands.1.terminals
    case finishing => exact fresh stands.1
    case done => exact stands.2
  refine ⟨written.1, fun dispatched done => ?_, tracked.ends, written.2, tracked.threads.body⟩
  rw [done] at stands
  exact stands.1 dispatched

/-- A call without a limit, of a tool whose results all fit. -/
def sample : Call ℕ ℕ where
  required := .pending
  timeout := none
  oversized _ := none

end Harkness.Runtime.Tool.Execute
