import Harkness.Runtime.Tool.Descriptor
import Mathlib.Data.List.Count

/-! # One workspace's queue and running set, and the process limit

The data behind the scheduler's mutexes, with the operations its lock sections perform on them.
A workspace admits the front of its queue when its own state lets it; the process limit is a
counting semaphore that is only ever tried. Dispatch numbers key the running set.
-/

namespace Harkness.Runtime.Schedule

/-- One project at one canonical root. -/
structure WorkspaceKey where
  projectId : ProjectId
  canonicalRoot : List String
deriving DecidableEq, Repr

/-- Which cancellation token a call carries; several calls may share one. -/
abbrev Cancellation := ℕ

/-- One admitted call's place in its workspace's running set. -/
abbrev Dispatch := ℕ

/-- How many calls one workspace may hold before a submitter is made to wait. -/
def workspaceQueueCapacity : ℕ := 64

/-- How many `observe` calls may run at once per workspace. -/
def workspaceReadConcurrency : ℕ := 4

/-- What one call is waiting for. -/
structure Waiting where
  dispatch : Dispatch
  call : ToolCallId
  run : RunId
  risk : RiskLevel
  spawnsProcesses : Bool
  cancellation : Cancellation
deriving DecidableEq, Repr

/-- What one running call is holding. -/
structure Running where
  run : RunId
  cancellation : Cancellation
  mutating : Bool
  holdsProcess : Bool
deriving DecidableEq, Repr

/-- The entry `admit` inserts for a call it takes from the queue. -/
def Waiting.running (waiting : Waiting) : Running where
  run := waiting.run
  cancellation := waiting.cancellation
  mutating := waiting.risk.mutatesState
  holdsProcess := waiting.spawnsProcesses

/-- The running-set entry of a call, under its dispatch number. -/
def Waiting.entry (waiting : Waiting) : Dispatch × Running := (waiting.dispatch, waiting.running)

/-- One workspace object: its key and the state behind its mutex. `waiting` counts the submitters
parked on a full queue. -/
structure Workspace where
  key : WorkspaceKey
  queue : List Waiting
  running : List (Dispatch × Running)
  waiting : ℕ
deriving DecidableEq, Repr

namespace Workspace

def create (key : WorkspaceKey) : Workspace := ⟨key, [], [], 0⟩

/-- Whether the workspace's single mutation slot is held. -/
def mutating (ws : Workspace) : Bool := ws.running.any fun entry => entry.2.mutating

/-- Read-only calls executing right now. -/
def reads (ws : Workspace) : ℕ := (ws.running.filter fun entry => !entry.2.mutating).length

/-- Whether nothing is queued, running, or waiting to be queued. -/
def isIdle (ws : Workspace) : Bool := ws.queue.isEmpty && ws.running.isEmpty && ws.waiting == 0

/-- The workspace half of `admit`'s test of the head of the queue. -/
def lets (ws : Workspace) (head : Waiting) : Bool :=
  if head.risk.mutatesState then ws.running.isEmpty
  else !(ws.mutating || decide (workspaceReadConcurrency ≤ ws.reads))

/-- Inserting under a key replaces whatever the map held there. -/
def insertRunning (ws : Workspace) (waiting : Waiting) : List (Dispatch × Running) :=
  waiting.entry :: ws.running.filter fun entry => entry.1 != waiting.dispatch

/-- Moves the head of the queue, when it is `waiting`, into the running set. -/
def take (ws : Workspace) (waiting : Waiting) (rest : List Waiting) : Workspace :=
  { ws with queue := rest, running := ws.insertRunning waiting }

/-- Removes one dispatch from the running set. -/
def remove (ws : Workspace) (dispatch : Dispatch) : Workspace :=
  { ws with running := ws.running.filter fun entry => entry.1 != dispatch }

/-- Whether the dispatch being removed was holding a process slot. -/
def holdsProcess (ws : Workspace) (dispatch : Dispatch) : Bool :=
  ws.running.any fun entry => entry.1 == dispatch && entry.2.holdsProcess

def push (ws : Workspace) (waiting : Waiting) : Workspace :=
  { ws with queue := ws.queue ++ [waiting] }

/-- The queue half of `stop`'s section: what matches leaves, the rest keeps its order. -/
def sweep (ws : Workspace) (matches_ : RunId → Bool) : Workspace :=
  { ws with queue := ws.queue.filter fun waiting => !matches_ waiting.run }

def swept (ws : Workspace) (matches_ : RunId → Bool) : List Waiting :=
  ws.queue.filter fun waiting => matches_ waiting.run

/-- The tokens `stop`'s section trips. -/
def tokens (ws : Workspace) (matches_ : RunId → Bool) : List Cancellation :=
  (ws.running.filter fun entry => matches_ entry.2.run).map fun entry => entry.2.cancellation

theorem isIdle_iff {ws : Workspace} :
    ws.isIdle = true ↔ ws.queue = [] ∧ ws.running = [] ∧ ws.waiting = 0 := by
  simp only [isIdle, Bool.and_eq_true, List.isEmpty_iff, beq_iff_eq, and_assoc]

end Workspace

/-- A counting semaphore that is never waited on. -/
structure ProcessLimit where
  capacity : ℕ
  inUse : ℕ
deriving DecidableEq, Repr

namespace ProcessLimit

def new (capacity : ℕ) : ProcessLimit := ⟨max capacity 1, 0⟩

def tryAcquire (limit : ProcessLimit) : Option ProcessLimit :=
  if limit.capacity ≤ limit.inUse then none else some { limit with inUse := limit.inUse + 1 }

/-- Saturates at zero, as the source does. -/
def release (limit : ProcessLimit) : ProcessLimit := { limit with inUse := limit.inUse - 1 }

theorem tryAcquire_eq_none {limit : ProcessLimit} :
    limit.tryAcquire = none ↔ limit.capacity ≤ limit.inUse := by
  unfold tryAcquire
  by_cases full : limit.capacity ≤ limit.inUse
  · simp only [full, if_true]
  · simp only [full, if_false, reduceCtorEq]

theorem tryAcquire_eq_some {limit next : ProcessLimit} :
    limit.tryAcquire = some next ↔
      limit.inUse < limit.capacity ∧ next = { limit with inUse := limit.inUse + 1 } := by
  unfold tryAcquire
  by_cases full : limit.capacity ≤ limit.inUse
  · simp only [full, if_true, reduceCtorEq, not_lt.mpr full, false_and]
  · simp only [full, if_false, Option.some.injEq, not_le.mp full, true_and, eq_comm]

end ProcessLimit

end Harkness.Runtime.Schedule
