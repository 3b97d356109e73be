import Harkness.Runtime.Schedule.Workspace
import Mathlib

/-! # The scheduler's shared state and the sections that touch it

`Inner` is what every thread shares. Workspace objects are listed in creation order and never
dropped, so an index stands for an `Arc`; the map holds the objects a submission can still find.
A thread holding a workspace's lock over several moves is recorded in `locked`. Three lists are
history that no section reads: what was enqueued, what was admitted, and what was sent to tickets.
-/

namespace Harkness.Runtime.Schedule

/-- Position of a workspace object in creation order. -/
abbrev WorkspaceId := ℕ

/-- How a ticket's one result came about. -/
inductive Settlement where
  | executed
  | cancelled
  | lost
deriving DecidableEq, Repr

inductive ScheduleError where
  | shutdown (call : ToolCallId)
  | alreadyScheduled (call : ToolCallId)
  | workerLost (call : ToolCallId)
  | execution (call : ToolCallId)
deriving DecidableEq, Repr

/-- A recorded tool call, ready to be scheduled against one workspace. -/
structure ScheduledCall where
  call : ToolCallId
  workspace : WorkspaceKey
  risk : RiskLevel
  cancellation : Cancellation
deriving DecidableEq, Repr

/-- A call handed to `submit`, with the answer the run store and the registry give for it. -/
structure Submission where
  scheduled : ScheduledCall
  record : Option (RunId × Option ToolDescriptor)
deriving DecidableEq, Repr

/-- What a tool's registration says about calls of it. -/
structure Declared where
  risk : RiskLevel
  spawnsProcesses : Bool
deriving DecidableEq, Repr

/-- An unresolvable tool falls back to the mildest declaration. -/
def declared : Option ToolDescriptor → Declared
  | none => ⟨RiskLevel.lowest, false⟩
  | some tool => ⟨tool.risk, tool.spawnsProcesses⟩

/-- The queue entry built for a submission under its dispatch number. -/
def ScheduledCall.waiting (scheduled : ScheduledCall) (run : RunId) (tool : Option ToolDescriptor)
    (dispatch : Dispatch) : Waiting where
  dispatch := dispatch
  call := scheduled.call
  run := run
  risk := max scheduled.risk (declared tool).risk
  spawnsProcesses := (declared tool).spawnsProcesses
  cancellation := scheduled.cancellation

/-- The order of the workspace map. -/
def WorkspaceKey.le (first second : WorkspaceKey) : Prop :=
  first.projectId < second.projectId ∨
    first.projectId = second.projectId ∧ first.canonicalRoot ≤ second.canonicalRoot

instance : DecidableRel WorkspaceKey.le := fun _ _ => inferInstanceAs (Decidable (_ ∨ _))

/-- Everything the scheduler owns, shared with every worker it spawns. -/
structure Inner where
  processes : ProcessLimit
  objects : List Workspace
  workspaces : List (WorkspaceKey × WorkspaceId)
  locked : Finset WorkspaceId
  claimed : Finset ToolCallId
  dispatched : ℕ
  sweep : ℕ
  live : ℕ
  shuttingDown : Bool
  tripped : Finset Cancellation
  accepted : List (WorkspaceId × Waiting)
  admitted : List (WorkspaceId × Waiting)
  settled : List (Waiting × Settlement)
deriving DecidableEq

namespace Inner

/-- A scheduler with an explicit process limit. -/
def withProcessLimit (processes : ℕ) : Inner where
  processes := ProcessLimit.new processes
  objects := []
  workspaces := []
  locked := ∅
  claimed := ∅
  dispatched := 0
  sweep := 0
  live := 0
  shuttingDown := false
  tripped := ∅
  accepted := []
  admitted := []
  settled := []

variable (inner : Inner)

/-- The object a key maps to. -/
def find (key : WorkspaceKey) : Option WorkspaceId :=
  (inner.workspaces.find? fun entry => entry.1 == key).map Prod.snd

/-- Every workspace currently known. -/
def liveWorkspaces : List WorkspaceId := inner.workspaces.map Prod.snd

def lock (id : WorkspaceId) : Inner := { inner with locked := insert id inner.locked }

def unlock (id : WorkspaceId) : Inner := { inner with locked := inner.locked.erase id }

/-- Replaces the state behind one workspace's mutex. -/
def put (id : WorkspaceId) (ws : Workspace) : Inner :=
  { inner with objects := inner.objects.set id ws }

/-- The object behind a lock nobody else holds. -/
def free (id : WorkspaceId) : Option Workspace :=
  if id ∈ inner.locked then none else inner.objects[id]?

def claim (call : ToolCallId) : Inner := { inner with claimed := insert call inner.claimed }

def release (call : ToolCallId) : Inner := { inner with claimed := inner.claimed.erase call }

/-- One more producer is about to wait for room in a workspace. -/
def join (id : WorkspaceId) (ws : Workspace) : Inner :=
  (inner.put id { ws with waiting := ws.waiting + 1 }).lock id

/-- The workspace `submit` inserts for a key it does not find, with its first producer. -/
def create (key : WorkspaceKey) : Inner :=
  let id := inner.objects.length
  { inner with
    objects := inner.objects ++ [{ Workspace.create key with waiting := 1 }]
    workspaces := inner.workspaces.orderedInsert (fun a b => a.1.le b.1) (key, id)
    locked := insert id inner.locked }

/-- A producer stops waiting for room without joining the queue. -/
def leaveRoom (id : WorkspaceId) (ws : Workspace) : Inner :=
  (inner.put id { ws with waiting := ws.waiting - 1 }).unlock id

/-- A producer stops waiting for room by joining the queue. -/
def enqueue (id : WorkspaceId) (ws : Workspace) (waiting : Waiting) : Inner :=
  { inner.put id { ws with queue := ws.queue ++ [waiting], waiting := ws.waiting - 1 } with
    accepted := inner.accepted ++ [(id, waiting)] }

/-- A call leaves the front of its queue for the running set, counted as a worker. -/
def take (id : WorkspaceId) (ws : Workspace) (head : Waiting) (rest : List Waiting)
    (processes : ProcessLimit) : Inner :=
  { inner.put id (ws.take head rest) with
    processes := processes
    live := inner.live + 1
    admitted := inner.admitted ++ [(id, head)] }

/-- The first section of `complete`: the entry goes, and with it the process slot it held. -/
def remove (id : WorkspaceId) (ws : Workspace) (dispatch : Dispatch) : Inner :=
  { inner.put id (ws.remove dispatch) with
    processes := if ws.holdsProcess dispatch then inner.processes.release else inner.processes }

/-- Drops the idle workspaces whose lock the sweep gets. `contended` are those whose lock is held
just then by a section that is one move here. -/
def forgetIdle (contended : List WorkspaceId) : Inner :=
  { inner with
    workspaces := inner.workspaces.filter fun entry =>
      (decide (entry.2 ∈ inner.locked) || decide (entry.2 ∈ contended)) ||
        !(inner.objects[entry.2]?.any Workspace.isIdle) }

/-- One workspace's section of `stop`. -/
def stopWorkspace (id : WorkspaceId) (ws : Workspace) (matching : RunId → Bool) : Inner :=
  { inner.put id (ws.sweep matching) with tripped := inner.tripped ∪ (ws.tokens matching).toFinset }

/-- A ticket's sender is used, or dropped with its thread. -/
def send (waiting : Waiting) (settlement : Settlement) : Inner :=
  { inner with settled := inner.settled ++ [(waiting, settlement)] }

end Inner

end Harkness.Runtime.Schedule
