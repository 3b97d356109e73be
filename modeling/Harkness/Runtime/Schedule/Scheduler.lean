import Harkness.Machine.Path
import Harkness.Runtime.Schedule.Section

/-! # Admission, dispatch, cancellation, and shutdown

Every operation and every worker is a thread, and a thread moves by one section at a time: a
section takes its locks, reads and writes what they guard, and ends. Two sections are not one move,
because they read the shutdown flag or try the process limit while another thread may change it:
a submission from the room it waits for to the end of its admission, and each turn of the admission
loop. Between those moves the workspace's lock stays held.
-/

namespace Harkness.Runtime.Schedule

/-- How many calls one run had stopped, and how they were stopped. -/
structure CancelReport where
  queued : ℕ
  running : ℕ
deriving DecidableEq, Repr

/-- Who asked for a stop, and so what follows it. -/
inductive Stopper where
  | submit (waiting : Waiting)
  | cancelRun
  | shutdown
deriving DecidableEq, Repr

/-- One activation of `stop`: the run it is about, or every run, and the counts so far. -/
structure Stop where
  run : Option RunId
  stopper : Stopper
  report : CancelReport
deriving DecidableEq, Repr

/-- Whether a call of the candidate run is to be stopped. -/
def Stop.matching (stop : Stop) (candidate : RunId) : Bool :=
  match stop.run with
  | none => true
  | some run => run == candidate

/-- What an operation returned. -/
inductive Reply where
  | refused (error : ScheduleError)
  | ticket (waiting : Waiting)
  | cancelled (report : CancelReport)
  | shutdown (report : CancelReport) (outstanding : ℕ)
  | alreadyShutDown (outstanding : ℕ)
  | ended
deriving DecidableEq, Repr

/-- A worker whose call is over, with what it will report. -/
structure Ended where
  waiting : Waiting
  settlement : Settlement
deriving DecidableEq, Repr

/-- Where a thread goes on once an admission and its dispatch are done. -/
inductive After where
  | submitted (waiting : Waiting)
  | pumping (todo : List WorkspaceId) (ended : Ended)
  | settling (stop : Stop) (swept : List (WorkspaceId × List Waiting))
deriving DecidableEq, Repr

/-- Where a thread stands: the section it moves by next, with its local variables. -/
inductive Pc where
  | submit (submission : Submission)
  | claiming (submission : Submission)
  | loading (submission : Submission)
  | refusing (call : ToolCallId) (error : ScheduleError)
  | joining (key : WorkspaceKey) (waiting : Waiting)
  | room (id : WorkspaceId) (waiting : Waiting)
  | parked (id : WorkspaceId) (waiting : Waiting)
  | entering (id : WorkspaceId) (waiting : Waiting)
  | pushing (id : WorkspaceId) (waiting : Waiting)
  | admitting (id : WorkspaceId) (ready : List Waiting) (after : After)
  | taking (id : WorkspaceId) (ready : List Waiting) (after : After)
  | dispatching (id : WorkspaceId) (ready : List Waiting) (after : After)
  | submitted (waiting : Waiting)
  | executing (id : WorkspaceId) (waiting : Waiting)
  | completing (id : WorkspaceId) (ended : Ended)
  | pumpInTurn (released : WorkspaceId) (ended : Ended)
  | rotating (todo : List WorkspaceId) (ended : Ended)
  | pumping (todo : List WorkspaceId) (ended : Ended)
  | releasing (ended : Ended)
  | leaving (ended : Ended)
  | reporting (ended : Ended)
  | shutdown
  | stopping (stop : Stop)
  | sweeping (stop : Stop) (todo : List WorkspaceId) (swept : List (WorkspaceId × List Waiting))
  | settling (stop : Stop) (swept : List (WorkspaceId × List Waiting))
  | unclaiming (stop : Stop) (call : ToolCallId) (swept : List (WorkspaceId × List Waiting))
  | waitingIdle (report : CancelReport)
  | replied (reply : Reply)
deriving DecidableEq, Repr

/-- The result of one move: the shared state, where the thread is now, and a thread it spawned. -/
abbrev Move := Inner × Pc × List Pc

/-- Resuming after the `dispatch` that ends an admission. -/
def After.resume : After → Pc
  | submitted waiting => .submitted waiting
  | pumping todo ended => .pumping todo ended
  | settling stop swept => .settling stop swept

/-- What follows the last statement of `stop`. -/
def Stop.return (stop : Stop) : Pc :=
  match stop.stopper with
  | .submit waiting => .replied (.ticket waiting)
  | .cancelRun => .replied (.cancelled stop.report)
  | .shutdown => .waitingIdle stop.report

/-- Rotates a list of workspaces to start where the sweep counter says. -/
def rotated (todo : List WorkspaceId) (sweep : ℕ) : List WorkspaceId :=
  todo.rotate (sweep % todo.length)

namespace Inner

/-- The sections of `submit` up to the queue. -/
def submitMove (inner : Inner) : Pc → Option Move
  | .submit submission =>
    if inner.shuttingDown then
      some (inner, .replied (.refused (.shutdown submission.scheduled.call)), [])
    else some (inner, .claiming submission, [])
  | .claiming submission =>
    if submission.scheduled.call ∈ inner.claimed then
      some (inner, .replied (.refused (.alreadyScheduled submission.scheduled.call)), [])
    else some (inner.claim submission.scheduled.call, .loading submission, [])
  | .loading submission =>
    match submission.record with
    | none =>
      some (inner, .refusing submission.scheduled.call (.execution submission.scheduled.call), [])
    | some (run, tool) =>
      some ({ inner with dispatched := inner.dispatched + 1 },
        .joining submission.scheduled.workspace
          (submission.scheduled.waiting run tool inner.dispatched), [])
  | .refusing call error => some (inner.release call, .replied (.refused error), [])
  | .joining key waiting =>
    match inner.find key with
    | some id => (inner.free id).map fun ws => (inner.join id ws, .room id waiting, [])
    | none => some (inner.create key, .room inner.objects.length waiting, [])
  | .room id waiting =>
    inner.objects[id]?.map fun ws =>
      if workspaceQueueCapacity ≤ ws.queue.length ∧ inner.shuttingDown = false then
        (inner.unlock id, .parked id waiting, [])
      else (inner, .entering id waiting, [])
  -- the wait is timed, so a parked producer may try again at any moment
  | .parked id waiting => (inner.free id).map fun _ => (inner.lock id, .room id waiting, [])
  | .entering id waiting =>
    inner.objects[id]?.map fun ws =>
      if inner.shuttingDown then
        (inner.leaveRoom id ws, .refusing waiting.call (.shutdown waiting.call), [])
      else (inner, .pushing id waiting, [])
  | .pushing id waiting =>
    inner.objects[id]?.map fun ws =>
      (inner.enqueue id ws waiting, .admitting id [] (.submitted waiting), [])
  | _ => none

/-- One turn of `admit`'s loop is the flag, then the tests of the head; `dispatch` follows. -/
def admitMove (inner : Inner) : Pc → Option Move
  | .admitting id ready after =>
    inner.objects[id]?.map fun ws =>
      if ws.queue = [] ∨ inner.shuttingDown = true then
        (inner.unlock id, .dispatching id ready after, [])
      else (inner, .taking id ready after, [])
  | .taking id ready after =>
    inner.objects[id]?.map fun ws =>
      match ws.queue with
      | [] => (inner.unlock id, .dispatching id ready after, [])
      | head :: rest =>
        if ws.lets head then
          if head.spawnsProcesses then
            match inner.processes.tryAcquire with
            | none => (inner.unlock id, .dispatching id ready after, [])
            | some processes =>
              (inner.take id ws head rest processes, .admitting id (ready ++ [head]) after, [])
          else
            (inner.take id ws head rest inner.processes, .admitting id (ready ++ [head]) after, [])
        else (inner.unlock id, .dispatching id ready after, [])
  | .dispatching _ [] after => some (inner, after.resume, [])
  | .dispatching id (waiting :: ready) after =>
    some (inner, .dispatching id ready after, [.executing id waiting])
  | .submitted waiting =>
    if inner.shuttingDown then some (inner, .stopping ⟨none, .submit waiting, ⟨0, 0⟩⟩, [])
    else some (inner, .replied (.ticket waiting), [])
  | _ => none

/-- What a worker does once the executor is done: `complete`, then the claim, the worker count and
the ticket, in the order the guard and the closure drop. -/
def completeMove (inner : Inner) (contended : List WorkspaceId) : Pc → Option Move
  | .completing id ended =>
    (inner.free id).map fun ws =>
      (inner.remove id ws ended.waiting.dispatch,
        if ws.holdsProcess ended.waiting.dispatch then .pumpInTurn id ended
        else .pumping [id] ended, [])
  | .pumpInTurn released ended =>
    some (inner,
      .rotating
        (if released ∈ inner.liveWorkspaces then inner.liveWorkspaces
          else inner.liveWorkspaces ++ [released])
        ended, [])
  | .rotating todo ended =>
    some ({ inner with sweep := inner.sweep + 1 }, .pumping (rotated todo inner.sweep) ended, [])
  | .pumping (id :: todo) ended =>
    (inner.free id).map fun _ => (inner.lock id, .admitting id [] (.pumping todo ended), [])
  | .pumping [] ended => some (inner.forgetIdle contended, .releasing ended, [])
  | .releasing ended => some (inner.release ended.waiting.call, .leaving ended, [])
  | .leaving ended => some ({ inner with live := inner.live - 1 }, .reporting ended, [])
  | .reporting ended =>
    some (inner.send ended.waiting ended.settlement, .replied .ended, [])
  | _ => none

/-- The sections of `stop`, and of `shutdown` around it. -/
def stopMove (inner : Inner) (contended : List WorkspaceId) : Pc → Option Move
  | .shutdown =>
    if inner.shuttingDown then some (inner, .replied (.alreadyShutDown inner.live), [])
    else some ({ inner with shuttingDown := true }, .stopping ⟨none, .shutdown, ⟨0, 0⟩⟩, [])
  | .stopping stop => some (inner, .sweeping stop inner.liveWorkspaces [], [])
  | .sweeping stop (id :: todo) swept =>
    (inner.free id).map fun ws =>
      (inner.stopWorkspace id ws stop.matching,
        .sweeping
          { stop with report :=
            { stop.report with
              running := stop.report.running + (ws.tokens stop.matching).length } }
          todo (swept ++ [(id, ws.swept stop.matching)]), [])
  | .sweeping stop [] swept => some (inner, .settling stop swept, [])
  | .settling stop ((id, waiting :: removed) :: swept) =>
    some (inner.send waiting .cancelled,
      .unclaiming { stop with report := { stop.report with queued := stop.report.queued + 1 } }
        waiting.call ((id, removed) :: swept), [])
  | .unclaiming stop call swept => some (inner.release call, .settling stop swept, [])
  | .settling stop ((id, []) :: swept) =>
    (inner.free id).map fun _ => (inner.lock id, .admitting id [] (.settling stop swept), [])
  | .settling stop [] => some (inner.forgetIdle contended, stop.return, [])
  | .waitingIdle report => some (inner, .replied (.shutdown report inner.live), [])
  | _ => none

/-- One move of a thread, other than the executor's. -/
def move (inner : Inner) (contended : List WorkspaceId) (pc : Pc) : Option Move :=
  inner.submitMove pc <|> inner.admitMove pc <|> inner.completeMove contended pc <|>
    inner.stopMove contended pc

end Inner

/-- A public operation of the scheduler. -/
inductive Operation where
  | submit (submission : Submission)
  | cancelRun (run : RunId)
  | shutdown
deriving DecidableEq, Repr

/-- Where the thread of an operation starts. -/
def Operation.start : Operation → Pc
  | submit submission => .submit submission
  | cancelRun run => .stopping ⟨some run, .cancelRun, ⟨0, 0⟩⟩
  | shutdown => .shutdown

/-- The shared state with every thread there has been. -/
structure Scheduler where
  inner : Inner
  threads : List Pc
deriving DecidableEq

/-- What can happen: an operation begins, a thread moves, an executor hands its worker back, or a
caller trips a token it kept. A panicking executor leaves nothing to report. -/
inductive Action where
  | begin (operation : Operation)
  | advance (thread : ℕ) (contended : List WorkspaceId)
  | finish (thread : ℕ) (panicked : Bool)
  | trip (token : Cancellation)
deriving DecidableEq, Repr

namespace Scheduler

def initial (processes : ℕ) : Scheduler := ⟨.withProcessLimit processes, []⟩

/-- One thread's move, with the threads it leaves. -/
def become (state : Scheduler) (thread : ℕ) (move : Move) : Scheduler :=
  ⟨move.1, state.threads.set thread move.2.1 ++ move.2.2⟩

def step (state : Scheduler) : Action → Option Scheduler
  | .begin operation => some { state with threads := state.threads ++ [operation.start] }
  | .advance thread contended =>
    state.threads[thread]?.bind fun pc =>
      (state.inner.move contended pc).map fun move => state.become thread move
  | .finish thread panicked =>
    match state.threads[thread]? with
    | some (.executing id waiting) =>
      some (state.become thread
        (state.inner, .completing id ⟨waiting, if panicked then .lost else .executed⟩, []))
    | _ => none
  | .trip token =>
    some { state with inner := { state.inner with tripped := insert token state.inner.tripped } }

/-- The scheduler as a machine, from any process limit. -/
def machine : Machine Scheduler Action where
  Initial state := ∃ processes, state = initial processes
  step := step

def advances (thread count : ℕ) : List Action := List.replicate count (.advance thread [])

/-- A call of one worktree, in run 1, with its own token. -/
def sampleCall (call : ToolCallId) (risk : RiskLevel) (tool : Option ToolDescriptor) : Submission :=
  ⟨⟨call, ⟨0, ["work"]⟩, risk, call⟩, some (1, tool)⟩

/-- Call 7 writes and spawns processes, and ends up executing; call 8 reads, and queues behind it. -/
def sampleRun : List Action :=
  .begin (.submit (sampleCall 7 .observe
    (some ⟨⟨"cargo.test", "1.0.0"⟩, .workspaceWrite, [], true⟩))) :: advances 0 13 ++
  .begin (.submit (sampleCall 8 .observe none)) :: advances 2 11

def sample : Option Scheduler := machine.run? (initial 1) sampleRun

theorem sample_isSome : sample.isSome = true := by decide

theorem sample_reachable {state : Scheduler} (ran : sample = some state) : machine.Reachable state :=
  .of_run? ⟨1, rfl⟩ ran

end Scheduler

end Harkness.Runtime.Schedule
