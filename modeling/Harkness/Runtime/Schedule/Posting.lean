import Harkness.Runtime.Schedule.Scheduler
import Harkness.ToMathlib.ListTotal
import Mathlib.Data.Multiset.Bind

/-! # What threads hold, and what one move posts

Between its sections a thread answers for things the shared state does not show: a claim, a place
at a full queue, a call it took, a workspace it has yet to pump. `Pc.holdings` lists them, and a
posting is one way a move can change the shared state together with the holdings of all threads.
Every step of the scheduler is a posting, so what all postings keep is an invariant.
-/

namespace Harkness.Runtime.Schedule

/-- One thing a thread answers for. -/
inductive Holding where
  /-- the claim of a call that is being submitted -/
  | submitting (call : ToolCallId)
  /-- a call with a dispatch number that is in no queue yet -/
  | numbered (waiting : Waiting)
  /-- a place among the producers a workspace counts -/
  | producing (id : WorkspaceId)
  /-- the ticket of an accepted call -/
  | ticketed (waiting : Waiting)
  /-- a call with an entry in a workspace's running set -/
  | active (id : WorkspaceId) (waiting : Waiting)
  /-- an admission still to be tried -/
  | pump (id : WorkspaceId)
  /-- an admission still to be tried in every workspace -/
  | pumpAll
  /-- a call out of queue and running set whose ticket is still to be settled -/
  | carried (waiting : Waiting)
  /-- the claim of a call out of queue and running set -/
  | unreleased (call : ToolCallId)
  /-- the one shutdown that stops the scheduler -/
  | shuttingDown
deriving DecidableEq, Repr

/-- A call taken out of queue and running set, with its claim. -/
def Waiting.out (waiting : Waiting) : Multiset Holding :=
  {.carried waiting} + {.unreleased waiting.call}

/-- Calls swept out of one queue, each to be settled, and the pump that follows. -/
def sweptOut (swept : List (WorkspaceId × List Waiting)) : Multiset Holding :=
  swept.total fun entry => {.pump entry.1} + entry.2.total Waiting.out

def pumps (todo : List WorkspaceId) : Multiset Holding := todo.total fun id => {.pump id}

theorem mem_pumps {todo : List WorkspaceId} {id : WorkspaceId} :
    Holding.pump id ∈ pumps todo ↔ id ∈ todo := by
  induction todo with
  | nil => exact iff_of_false (Multiset.notMem_zero _) List.not_mem_nil
  | cons first todo ih =>
    rw [pumps, List.total_cons, Multiset.mem_add, Multiset.mem_singleton, List.mem_cons,
      Holding.pump.injEq]
    exact or_congr_right ih

def actives (id : WorkspaceId) (ready : List Waiting) : Multiset Holding :=
  ready.total fun waiting => {.active id waiting}

def Stop.holdings (stop : Stop) : Multiset Holding :=
  match stop.stopper with
  | .submit waiting => {.ticketed waiting}
  | .cancelRun => 0
  | .shutdown => {.shuttingDown}

def After.holdings : After → Multiset Holding
  | submitted waiting => {.ticketed waiting}
  | pumping todo ended => pumps todo + ended.waiting.out
  | settling stop swept => stop.holdings + sweptOut swept

def Waiting.submission (waiting : Waiting) : Multiset Holding :=
  {.submitting waiting.call} + {.numbered waiting}

/-- Everything a thread answers for where it stands. -/
@[simp] def Pc.holdings : Pc → Multiset Holding
  | submit _ | claiming _ | shutdown => 0
  | loading submission => {.submitting submission.scheduled.call}
  | refusing call _ => {.submitting call}
  | joining _ waiting => waiting.submission
  | room id waiting | parked id waiting | entering id waiting | pushing id waiting =>
    waiting.submission + {.producing id}
  | admitting id ready after | taking id ready after =>
    actives id ready + after.holdings + {.pump id}
  | dispatching id ready after => actives id ready + after.holdings
  | submitted waiting => {.ticketed waiting}
  | executing id waiting => {.active id waiting}
  | completing id ended => {.active id ended.waiting}
  | pumpInTurn _ ended => ended.waiting.out + {.pumpAll}
  | rotating todo ended | pumping todo ended => pumps todo + ended.waiting.out
  | releasing ended => ended.waiting.out
  | leaving ended | reporting ended => {.carried ended.waiting}
  | stopping stop => stop.holdings
  | sweeping stop _ swept | settling stop swept => stop.holdings + sweptOut swept
  | unclaiming stop call swept => stop.holdings + sweptOut swept + {.unreleased call}
  | waitingIdle _ => {.shuttingDown}
  | replied (.ticket waiting) => {.ticketed waiting}
  | replied (.shutdown _ _) => {.shuttingDown}
  | replied _ => 0

/-- What all threads answer for. -/
def Scheduler.holdings (state : Scheduler) : Multiset Holding := state.threads.total Pc.holdings

/-- Whether `admit` would take the head of a workspace's queue, the flag apart. -/
def Inner.admits (inner : Inner) (ws : Workspace) : Bool :=
  match ws.queue with
  | [] => false
  | head :: _ =>
    ws.lets head && (!head.spawnsProcesses || decide (inner.processes.inUse < inner.processes.capacity))

/-- The ways a move changes the shared state, with what its thread gives up and what it gains. -/
inductive Posting : Inner → Multiset Holding → Inner → Multiset Holding → Prop
  | quiet {inner locked sweep live} : Posting inner 0 { inner with locked, sweep, live } 0
  | trip {inner} (token : Cancellation) :
      Posting inner 0 { inner with tripped := insert token inner.tripped } 0
  | claim {inner call} (fresh : call ∉ inner.claimed) :
      Posting inner 0 (inner.claim call) {.submitting call}
  | number {inner} (waiting : Waiting) (numbered : waiting.dispatch = inner.dispatched) :
      Posting inner {.submitting waiting.call} { inner with dispatched := inner.dispatched + 1 }
        waiting.submission
  | refuse {inner} (call : ToolCallId) : Posting inner {.submitting call} (inner.release call) 0
  | join {inner key id ws} (found : inner.find key = some id)
      (present : inner.objects[id]? = some ws) :
      Posting inner 0 (inner.join id ws) {.producing id}
  | create {inner key} (absent : inner.find key = none) :
      Posting inner 0 (inner.create key) {.producing inner.objects.length}
  | leaveRoom {inner id ws} (waiting : Waiting) (present : inner.objects[id]? = some ws)
      (stopping : inner.shuttingDown = true) :
      Posting inner (waiting.submission + {.producing id}) (inner.leaveRoom id ws)
        {.submitting waiting.call}
  | enqueue {inner id ws} (waiting : Waiting) (present : inner.objects[id]? = some ws) :
      Posting inner (waiting.submission + {.producing id}) (inner.enqueue id ws waiting)
        ({.ticketed waiting} + {.pump id})
  | endAdmission {inner id ws} (present : inner.objects[id]? = some ws)
      (blocked : inner.shuttingDown = false → inner.admits ws = false) :
      Posting inner {.pump id} (inner.unlock id) 0
  | take {inner id ws head tail processes} (present : inner.objects[id]? = some ws)
      (queue : ws.queue = head :: tail) (lets : ws.lets head = true)
      (slot : if head.spawnsProcesses then inner.processes.tryAcquire = some processes
        else processes = inner.processes) :
      Posting inner {.pump id} (inner.take id ws head tail processes)
        ({.pump id} + {.active id head})
  | complete {inner id ws} (waiting : Waiting) (present : inner.objects[id]? = some ws) :
      Posting inner {.active id waiting} (inner.remove id ws waiting.dispatch)
        (waiting.out + {if ws.holdsProcess waiting.dispatch then .pumpAll else .pump id})
  | snapshot {inner todo} (covers : ∀ id ∈ inner.liveWorkspaces, id ∈ todo) :
      Posting inner {.pumpAll} inner (pumps todo)
  | forget {inner} (contended : List WorkspaceId) : Posting inner 0 (inner.forgetIdle contended) 0
  | release {inner} (call : ToolCallId) : Posting inner {.unreleased call} (inner.release call) 0
  | send {inner} (waiting : Waiting) (settlement : Settlement) :
      Posting inner {.carried waiting} (inner.send waiting settlement) 0
  | shut {inner} (running : inner.shuttingDown = false) :
      Posting inner 0 { inner with shuttingDown := true } {.shuttingDown}
  | sweep {inner id ws} (matching : RunId → Bool) (present : inner.objects[id]? = some ws) :
      Posting inner 0 (inner.stopWorkspace id ws matching)
        ({.pump id} + (ws.swept matching).total Waiting.out)

/-- A posting among everything the threads hold. -/
def Posts (inner : Inner) (held : Multiset Holding) (inner' : Inner) (held' : Multiset Holding) :
    Prop :=
  ∃ rest loss gain, Posting inner loss inner' gain ∧ held = rest + loss ∧ held' = rest + gain

theorem Posting.posts {inner inner' : Inner} {held held' loss gain : Multiset Holding}
    (posting : Posting inner loss inner' gain) (rest : Multiset Holding)
    (before : held = rest + loss) (after : held' = rest + gain) : Posts inner held inner' held' :=
  ⟨rest, loss, gain, posting, before, after⟩

/-- A move that keeps what its thread holds, and changes no more than locks and counters. -/
theorem Posts.quiet {inner : Inner} {held held' : Multiset Holding} {locked : Finset WorkspaceId}
    {sweep live : ℕ} (same : held' = held) :
    Posts inner held { inner with locked, sweep, live } held' :=
  Posting.quiet.posts held (add_zero held).symm (by rw [same, add_zero])

theorem Posts.same {inner : Inner} {held held' : Multiset Holding} (same : held' = held) :
    Posts inner held inner held' :=
  @Posts.quiet inner held held' inner.locked inner.sweep inner.live same

/-- What other threads hold does not matter. -/
theorem Posts.frame {inner inner' : Inner} {held held' : Multiset Holding}
    (posts : Posts inner held inner' held') (others : Multiset Holding) :
    Posts inner (others + held) inner' (others + held') := by
  obtain ⟨rest, loss, gain, posting, rfl, rfl⟩ := posts
  exact posting.posts (others + rest) (add_assoc others rest loss).symm
    (add_assoc others rest gain).symm

namespace Inner

variable {inner inner' : Inner} {pc pc' : Pc} {spawned : List Pc} {contended : List WorkspaceId}

theorem free_eq_some {id : WorkspaceId} {ws : Workspace} :
    inner.free id = some ws ↔ id ∉ inner.locked ∧ inner.objects[id]? = some ws := by
  unfold free
  by_cases held : id ∈ inner.locked
  · simp only [held, if_true, reduceCtorEq, not_true_eq_false, false_and]
  · simp only [held, if_false, not_false_eq_true, true_and]

private theorem submitMove_posts (success : inner.submitMove pc = some (inner', pc', spawned)) :
    Posts inner pc.holdings inner' (pc'.holdings + spawned.total Pc.holdings) := by
  cases pc <;> simp only [submitMove, reduceCtorEq] at success
  case submit submission =>
    split_ifs at success <;> cases success <;> exact .same rfl
  case claiming submission =>
    split_ifs at success with taken
    · cases success
      exact .same rfl
    · cases success
      exact (Posting.claim taken).posts 0 rfl rfl
  case loading submission =>
    split at success
    · cases success
      exact .same (by simp only [Pc.holdings, List.total_nil, add_zero])
    · rename_i run tool _
      cases success
      exact (Posting.number (submission.scheduled.waiting run tool inner.dispatched) rfl).posts 0
        (by simp only [Pc.holdings, ScheduledCall.waiting, zero_add])
        (by simp only [Pc.holdings, List.total_nil, add_zero, zero_add])
  case refusing call error =>
    cases success
    exact (Posting.refuse call).posts 0 (by simp only [Pc.holdings, zero_add]) rfl
  case joining key waiting =>
    split at success
    · rename_i id found
      obtain ⟨ws, free, same⟩ := Option.map_eq_some_iff.mp success
      cases same
      exact (Posting.join found (free_eq_some.mp free).2).posts waiting.submission
        (add_zero _).symm (by simp only [Pc.holdings, List.total_nil, add_zero])
    · rename_i absent
      cases success
      exact (Posting.create absent).posts waiting.submission (add_zero _).symm
        (by simp only [Pc.holdings, List.total_nil, add_zero])
  case room id waiting =>
    obtain ⟨ws, present, same⟩ := Option.map_eq_some_iff.mp success
    split_ifs at same <;> cases same
    · exact .quiet rfl
    · exact .same rfl
  case parked id waiting =>
    obtain ⟨ws, free, same⟩ := Option.map_eq_some_iff.mp success
    cases same
    exact .quiet rfl
  case entering id waiting =>
    obtain ⟨ws, present, same⟩ := Option.map_eq_some_iff.mp success
    split_ifs at same with stopping <;> cases same
    · exact (Posting.leaveRoom waiting present stopping).posts 0
        (by simp only [Pc.holdings, zero_add])
        (by simp only [Pc.holdings, List.total_nil, add_zero, zero_add])
    · exact .same rfl
  case pushing id waiting =>
    obtain ⟨ws, present, same⟩ := Option.map_eq_some_iff.mp success
    cases same
    exact (Posting.enqueue waiting present).posts 0 (by simp only [Pc.holdings, zero_add])
      (by simp only [Pc.holdings, actives, After.holdings, List.total_nil, add_zero, zero_add])

theorem admits_of_admitMove {id : WorkspaceId} {ready : List Waiting} {after : After}
    {ws : Workspace} (present : inner.objects[id]? = some ws)
    (success : inner.admitMove (.taking id ready after) = some (inner', pc', spawned)) :
    (inner.admits ws = false ∧ inner' = inner.unlock id ∧ pc' = .dispatching id ready after ∧
        spawned = []) ∨
      ∃ head tail processes, ws.queue = head :: tail ∧ ws.lets head = true ∧
        (if head.spawnsProcesses then inner.processes.tryAcquire = some processes
          else processes = inner.processes) ∧
        inner' = inner.take id ws head tail processes ∧
        pc' = .admitting id (ready ++ [head]) after ∧ spawned = [] := by
  simp only [admitMove, present, Option.map_some, Option.some.injEq] at success
  cases queue : ws.queue with
  | nil =>
    simp only [queue, Prod.mk.injEq] at success
    exact .inl ⟨by simp only [admits, queue], success.1.symm, success.2.1.symm, success.2.2.symm⟩
  | cons head tail =>
    simp only [queue] at success
    by_cases lets : ws.lets head = true
    · by_cases spawns : head.spawnsProcesses = true
      · simp only [lets, spawns, if_true] at success
        cases acquired : inner.processes.tryAcquire with
        | none =>
          have full := ProcessLimit.tryAcquire_eq_none.mp acquired
          simp only [acquired, Prod.mk.injEq] at success
          refine .inl ⟨?_, success.1.symm, success.2.1.symm, success.2.2.symm⟩
          simp only [admits, queue, lets, spawns, not_lt.mpr full, decide_false, Bool.not_true,
            Bool.or_false, Bool.and_false]
        | some processes =>
          simp only [acquired, Prod.mk.injEq] at success
          refine .inr ⟨head, tail, processes, rfl, lets, ?_, success.1.symm, success.2.1.symm,
            success.2.2.symm⟩
          simp only [spawns, if_true]
      · simp only [lets, if_true, spawns, Bool.false_eq_true, if_false, Prod.mk.injEq] at success
        refine .inr ⟨head, tail, inner.processes, rfl, lets, ?_, success.1.symm, success.2.1.symm,
          success.2.2.symm⟩
        simp only [spawns, Bool.false_eq_true, if_false]
    · simp only [lets, Bool.false_eq_true, if_false, Prod.mk.injEq] at success
      refine .inl ⟨?_, success.1.symm, success.2.1.symm, success.2.2.symm⟩
      simp only [admits, queue, lets, Bool.false_and]

private theorem admitMove_posts (success : inner.admitMove pc = some (inner', pc', spawned)) :
    Posts inner pc.holdings inner' (pc'.holdings + spawned.total Pc.holdings) := by
  cases pc <;> try (simp only [admitMove, reduceCtorEq] at success; done)
  case admitting id ready after =>
    obtain ⟨ws, present, same⟩ := Option.map_eq_some_iff.mp success
    split_ifs at same with ends <;> cases same
    · refine (Posting.endAdmission present ?_).posts (actives id ready + after.holdings) rfl
        (by simp only [Pc.holdings, List.total_nil, add_zero])
      intro running
      rcases ends with empty | stopping
      · simp only [admits, empty]
      · simp only [running, Bool.false_eq_true] at stopping
    · exact .same (by simp only [Pc.holdings, List.total_nil, add_zero])
  case taking id ready after =>
    have present : ∃ ws, inner.objects[id]? = some ws := by
      obtain ⟨ws, present, _⟩ := Option.map_eq_some_iff.mp success
      exact ⟨ws, present⟩
    obtain ⟨ws, present⟩ := present
    rcases admits_of_admitMove present success with
      ⟨blocked, rfl, rfl, rfl⟩ | ⟨head, tail, processes, queue, lets, slot, rfl, rfl, rfl⟩
    · exact (Posting.endAdmission present fun _ => blocked).posts
        (actives id ready + after.holdings) rfl
        (by simp only [Pc.holdings, List.total_nil, add_zero])
    · refine (Posting.take present queue lets slot).posts
        (actives id ready + after.holdings) rfl ?_
      simp only [Pc.holdings, actives, List.total_append, List.total_cons, List.total_nil, add_zero]
      abel
  case dispatching id ready after =>
    cases ready with
    | nil =>
      cases success
      exact .same (by cases after <;> simp only [After.resume, Pc.holdings, After.holdings, actives,
        List.total_nil, add_zero, zero_add])
    | cons waiting ready =>
      cases success
      refine .same ?_
      simp only [Pc.holdings, actives, List.total_cons, List.total_nil, add_zero]
      abel
  case submitted waiting =>
    simp only [admitMove] at success
    split_ifs at success <;> cases success <;> exact .same rfl

private theorem pumps_rotated (todo : List WorkspaceId) (sweep : ℕ) :
    pumps (rotated todo sweep) = pumps todo := by
  unfold pumps List.total rotated
  exact ((List.rotate_perm todo _).map _).sum_eq

private theorem completeMove_posts
    (success : inner.completeMove contended pc = some (inner', pc', spawned)) :
    Posts inner pc.holdings inner' (pc'.holdings + spawned.total Pc.holdings) := by
  cases pc <;> try (simp only [completeMove, reduceCtorEq] at success; done)
  case completing id ended =>
    obtain ⟨ws, free, same⟩ := Option.map_eq_some_iff.mp success
    cases same
    refine (Posting.complete ended.waiting (free_eq_some.mp free).2).posts 0
      (by simp only [Pc.holdings, zero_add]) ?_
    split_ifs
    · simp only [Pc.holdings, List.total_nil, add_zero, zero_add]
    · simp only [Pc.holdings, pumps, List.total_cons, List.total_nil, zero_add, add_comm]
  case pumpInTurn released ended =>
    have covers : ∀ id ∈ inner.liveWorkspaces, id ∈
        (if released ∈ inner.liveWorkspaces then inner.liveWorkspaces
          else inner.liveWorkspaces ++ [released]) := by
      intro id known
      split_ifs
      · exact known
      · exact List.mem_append_left _ known
    cases success
    exact (Posting.snapshot covers).posts ended.waiting.out rfl
      (by rw [Pc.holdings, List.total_nil, add_zero, add_comm])
  case rotating todo ended =>
    cases success
    exact .quiet (by simp only [Pc.holdings, pumps_rotated, List.total_nil, add_zero])
  case pumping todo ended =>
    cases todo with
    | nil =>
      cases success
      exact (Posting.forget contended).posts ended.waiting.out
        (by simp only [Pc.holdings, pumps, List.total_nil, zero_add, add_zero])
        (by simp only [Pc.holdings, List.total_nil])
    | cons id todo =>
      obtain ⟨ws, free, same⟩ := Option.map_eq_some_iff.mp success
      cases same
      refine .quiet ?_
      simp only [Pc.holdings, After.holdings, actives, pumps, List.total_nil, List.total_cons,
        add_zero]
      abel
  case releasing ended =>
    cases success
    exact (Posting.release ended.waiting.call).posts {.carried ended.waiting} rfl rfl
  case leaving ended =>
    cases success
    exact .quiet rfl
  case reporting ended =>
    cases success
    exact (Posting.send ended.waiting ended.settlement).posts 0
      (by simp only [Pc.holdings, zero_add]) rfl

private theorem stopMove_posts
    (success : inner.stopMove contended pc = some (inner', pc', spawned)) :
    Posts inner pc.holdings inner' (pc'.holdings + spawned.total Pc.holdings) := by
  cases pc <;> try (simp only [stopMove, reduceCtorEq] at success; done)
  case shutdown =>
    simp only [stopMove] at success
    split_ifs at success with already <;> cases success
    · exact .same rfl
    · exact (Posting.shut (Bool.eq_false_iff.mpr already)).posts 0 rfl rfl
  case stopping stop =>
    cases success
    exact .same (by simp only [Pc.holdings, sweptOut, List.total_nil, add_zero])
  case sweeping stop todo swept =>
    cases todo with
    | nil =>
      cases success
      exact .same (by simp only [Pc.holdings, List.total_nil, add_zero])
    | cons id todo =>
      obtain ⟨ws, free, same⟩ := Option.map_eq_some_iff.mp success
      cases same
      refine (Posting.sweep stop.matching (free_eq_some.mp free).2).posts
        (stop.holdings + sweptOut swept) (add_zero _).symm ?_
      simp only [Pc.holdings, Stop.holdings, sweptOut, List.total_append, List.total_cons,
        List.total_nil, add_zero, add_assoc]
  case settling stop swept =>
    rcases swept with _ | ⟨⟨id, removed⟩, swept⟩
    · cases success
      have same : stop.return.holdings = stop.holdings := by
        obtain ⟨run, stopper, report⟩ := stop
        cases stopper <;> rfl
      exact (Posting.forget contended).posts stop.holdings
        (by simp only [Pc.holdings, sweptOut, List.total_nil, add_zero])
        (by rw [same, List.total_nil])
    · cases removed with
      | nil =>
        obtain ⟨ws, free, same⟩ := Option.map_eq_some_iff.mp success
        cases same
        refine .quiet ?_
        simp only [Pc.holdings, After.holdings, actives, sweptOut, List.total_nil, List.total_cons,
          add_zero]
        abel
      | cons waiting removed =>
        cases success
        refine (Posting.send waiting .cancelled).posts (stop.holdings +
          sweptOut ((id, removed) :: swept) + {.unreleased waiting.call}) ?_ ?_
        · simp only [Pc.holdings, sweptOut, List.total_cons, Waiting.out]
          abel
        · simp only [Pc.holdings, Stop.holdings, List.total_nil, add_zero]
  case unclaiming stop call swept =>
    cases success
    exact (Posting.release call).posts (stop.holdings + sweptOut swept) rfl rfl
  case waitingIdle report =>
    cases success
    exact .same rfl

theorem move_posts (success : inner.move contended pc = some (inner', pc', spawned)) :
    Posts inner pc.holdings inner' (pc'.holdings + spawned.total Pc.holdings) := by
  simp only [move, Option.orElse_eq_some] at success
  rcases success with submits | ⟨_, admits | ⟨_, completes | ⟨_, stops⟩⟩⟩
  · exact submitMove_posts submits
  · exact admitMove_posts admits
  · exact completeMove_posts completes
  · exact stopMove_posts stops

end Inner

namespace Scheduler

variable {state next : Scheduler}

/-- A thread that moves leaves the holdings of the others alone. -/
theorem holdings_become {thread : ℕ} {pc : Pc} (move : Move)
    (present : state.threads[thread]? = some pc) :
    ∃ others, state.holdings = others + pc.holdings ∧
      (state.become thread move).holdings =
        others + (move.2.1.holdings + move.2.2.total Pc.holdings) := by
  obtain ⟨others, split⟩ := List.exists_total_eq_add Pc.holdings present
  refine ⟨others, by rw [holdings, split, add_comm], ?_⟩
  have balance := List.total_set Pc.holdings move.2.1 present
  rw [split] at balance
  have moved : (state.threads.set thread move.2.1).total Pc.holdings =
      others + move.2.1.holdings := by
    refine add_right_cancel (b := pc.holdings) ?_
    rw [balance]
    abel
  rw [holdings, become, List.total_append, moved, add_assoc]

/-- Every step posts. -/
theorem step_posts {action : Action} (success : state.step action = some next) :
    Posts state.inner state.holdings next.inner next.holdings := by
  cases action with
  | begin operation =>
    cases success
    refine .same ?_
    have empty : operation.start.holdings = 0 := by cases operation <;> rfl
    rw [holdings, List.total_append, List.total_cons, List.total_nil, empty]
    simp only [add_zero, holdings]
  | advance thread contended =>
    obtain ⟨pc, present, success⟩ := Option.bind_eq_some_iff.mp success
    obtain ⟨⟨inner, pc', spawned⟩, moved, rfl⟩ := Option.map_eq_some_iff.mp success
    obtain ⟨others, before, after⟩ := holdings_become (inner, pc', spawned) present
    rw [before, after]
    exact (Inner.move_posts moved).frame others
  | finish thread panicked =>
    simp only [step] at success
    split at success
    · rename_i id waiting present
      cases success
      obtain ⟨others, before, after⟩ := holdings_become (state.inner,
        .completing id ⟨waiting, if panicked then .lost else .executed⟩, []) present
      rw [before, after]
      exact .same (by simp only [Pc.holdings, List.total_nil, add_zero])
    · contradiction
  | trip token =>
    cases success
    exact (Posting.trip token).posts state.holdings (add_zero _).symm (add_zero _).symm

end Scheduler

end Harkness.Runtime.Schedule
