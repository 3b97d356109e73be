import Harkness.Runtime.Schedule.Tickets

/-! # What a stop reaches

A stop reads the map once and then sweeps one workspace after another. A call it has to reach is
exposed: queued, or running with its token untripped. Exposure of an accepted call only ever ends,
and where one is exposed its workspace is in the map, so what was accepted before the stop began is
exposed only where the stop has yet to sweep.
-/

namespace Harkness.Runtime.Schedule

/-- Queued in a workspace, or running there with its token untripped. -/
def Inner.Exposed (inner : Inner) (id : WorkspaceId) (waiting : Waiting) : Prop :=
  ∃ ws, inner.objects[id]? = some ws ∧
    (waiting ∈ ws.queue ∨ waiting.entry ∈ ws.running ∧ waiting.cancellation ∉ inner.tripped)

variable {inner inner' : Inner} {rest loss gain : Multiset Holding} {id : WorkspaceId}
  {waiting : Waiting} {pc pc' : Pc} {spawned : List Pc} {contended : List WorkspaceId}

/-- An object with an exposed call is in the map. -/
theorem Mapped.live (mapped : Mapped inner) (exposed : inner.Exposed id waiting) :
    id ∈ inner.liveWorkspaces := by
  obtain ⟨ws, present, place⟩ := exposed
  have busy : ws.isIdle = false := by
    refine Bool.eq_false_iff.mpr fun idle => ?_
    obtain ⟨queue, running, _⟩ := Workspace.isIdle_iff.mp idle
    rcases place with queued | ⟨entry, _⟩
    · exact List.not_mem_nil (queue ▸ queued)
    · exact List.not_mem_nil (running ▸ entry)
  exact List.mem_map_of_mem (mapped.busy id ws present busy)

private theorem exposed_put {ws : Workspace} (ws' : Workspace) (present : inner.objects[id]? = some ws)
    (objects : inner'.objects = (inner.put id ws').objects) (tripped : inner.tripped ⊆ inner'.tripped)
    (queue : waiting ∈ ws'.queue → waiting ∈ ws.queue)
    (running : waiting.entry ∈ ws'.running → waiting ∈ ws.queue ∨ waiting.entry ∈ ws.running)
    {other : WorkspaceId} (exposed : inner'.Exposed other waiting) : inner.Exposed other waiting := by
  obtain ⟨found, there, place⟩ := exposed
  rw [objects, Inner.objects_put ws' present] at there
  split_ifs at there with same
  · cases there
    subst same
    refine ⟨ws, present, ?_⟩
    rcases place with queued | ⟨entry, untripped⟩
    · exact .inl (queue queued)
    · exact (running entry).imp_right fun old => ⟨old, fun before => untripped (tripped before)⟩
  · refine ⟨found, there, place.imp_right fun entry => ⟨entry.1, fun before => ?_⟩⟩
    exact entry.2 (tripped before)

/-- An accepted call is never exposed anew. -/
theorem Posting.exposed (posting : Posting inner loss inner' gain)
    (ledger : Ledger inner (rest + loss)) (accepted : waiting ∈ inner.accepted.map Prod.snd)
    (exposed : inner'.Exposed id waiting) : inner.Exposed id waiting := by
  cases posting
  case enqueue home ws other present =>
    have numbered : other ∈ (rest + (other.submission + {Holding.producing home})).bind
        Holding.unplaced := by
      rw [Multiset.add_bind, Multiset.add_bind, Waiting.submission, Multiset.add_bind]
      simp only [Multiset.singleton_bind, Holding.unplaced, Multiset.mem_add, Multiset.mem_singleton,
        or_true, true_or]
    have apart : waiting ≠ other := by
      rintro rfl
      have distinct := ledger.numbers.distinct
      rw [Multiset.map_add, Multiset.nodup_add] at distinct
      exact Multiset.disjoint_left.mp distinct.2.2 (Multiset.mem_map_of_mem _ accepted)
        (Multiset.mem_map_of_mem _ numbered)
    refine exposed_put { ws with queue := ws.queue ++ [other], waiting := ws.waiting - 1 }
      present rfl (Finset.Subset.refl _) (fun queued => ?_) .inr exposed
    exact (List.mem_append.mp queued).resolve_right fun new => apart (List.mem_singleton.mp new)
  case take home ws head tail processes present queue lets slot =>
    refine exposed_put (ws.take head tail) present rfl (Finset.Subset.refl _)
      (fun queued => by rw [queue]; exact List.mem_cons_of_mem head queued) (fun entry => ?_) exposed
    rw [Workspace.take, ledger.insertRunning_eq present (queue ▸ List.mem_cons_self)] at entry
    rcases List.mem_cons.mp entry with same | old
    · have head_accepted : head ∈ inner.accepted.map Prod.snd := by
        refine ledger.accepted_of_queued ?_
        obtain ⟨others, split⟩ := Inner.queued_eq_add present
        rw [split, queue]
        exact Multiset.mem_add.mpr (.inl (Multiset.mem_coe.mpr List.mem_cons_self))
      obtain rfl := ledger.eq_of_dispatch accepted head_accepted (congrArg Prod.fst same)
      rw [queue]
      exact .inl List.mem_cons_self
    · exact .inr old
  case complete home ws other present =>
    exact exposed_put (ws.remove other.dispatch) present rfl (Finset.Subset.refl _) (fun queued => queued)
      (fun entry => .inr (List.mem_filter.mp entry).1) exposed
  case sweep home ws matching present =>
    refine exposed_put (ws.sweep matching) present ?_ ?_
      (fun queued => (List.mem_filter.mp queued).1) .inr exposed
    · rfl
    · exact Finset.subset_union_left
  case join key home ws found present =>
    exact exposed_put { ws with waiting := ws.waiting + 1 } present rfl
      (Finset.Subset.refl _) (fun queued => queued) .inr exposed
  case leaveRoom home ws other present stopping =>
    exact exposed_put { ws with waiting := ws.waiting - 1 } present rfl
      (Finset.Subset.refl _) (fun queued => queued) .inr exposed
  case create key absent =>
    obtain ⟨ws, there, place⟩ := exposed
    rcases Nat.lt_or_ge id inner.objects.length with old | beyond
    · rw [Inner.create, List.getElem?_append_left old] at there
      exact ⟨ws, there, place⟩
    · rw [Inner.create, List.getElem?_append_right beyond] at there
      obtain rfl := List.mem_singleton.mp (List.mem_of_getElem? there)
      rcases place with queued | ⟨entry, _⟩
      · exact absurd queued List.not_mem_nil
      · exact absurd entry List.not_mem_nil
  case trip token =>
    obtain ⟨ws, there, place⟩ := exposed
    refine ⟨ws, there, place.imp_right fun entry => ⟨entry.1, fun before => ?_⟩⟩
    exact entry.2 (Finset.mem_insert_of_mem before)
  all_goals exact exposed

/-- The history of acceptance only grows. -/
theorem Posting.accepted (posting : Posting inner loss inner' gain) :
    inner.accepted <+: inner'.accepted := by
  cases posting
  case enqueue home ws other present => exact List.prefix_append _ _
  all_goals exact List.prefix_rfl

/-- A workspace just swept exposes no call of the runs swept for. -/
theorem Inner.not_exposed_of_sweep {ws : Workspace} {matching : RunId → Bool}
    (present : inner.objects[id]? = some ws) (matched : matching waiting.run = true) :
    ¬ (inner.stopWorkspace id ws matching).Exposed id waiting := by
  rintro ⟨found, there, place⟩
  change (inner.put id (ws.sweep matching)).objects[id]? = some found at there
  rw [Inner.objects_put _ present, if_pos rfl] at there
  cases there
  rcases place with queued | ⟨entry, untripped⟩
  · have kept := (List.mem_filter.mp queued).2
    rw [matched] at kept
    contradiction
  · refine untripped (Finset.mem_union_right _ (List.mem_toFinset.mpr ?_))
    exact List.mem_map.mpr ⟨waiting.entry, List.mem_filter.mpr ⟨entry, matched⟩, rfl⟩

namespace Inner

theorem move_cases {move : Move} (moved : inner.move contended pc = some move) :
    inner.submitMove pc = some move ∨ inner.admitMove pc = some move ∨
      inner.completeMove contended pc = some move ∨ inner.stopMove contended pc = some move := by
  simp only [Inner.move, Option.orElse_eq_some] at moved
  rcases moved with submits | ⟨_, admits | ⟨_, completes | ⟨_, stops⟩⟩⟩
  · exact .inl submits
  · exact .inr (.inl admits)
  · exact .inr (.inr (.inl completes))
  · exact .inr (.inr (.inr stops))

theorem move_sweeping {stop : Stop} {todo : List WorkspaceId}
    {swept : List (WorkspaceId × List Waiting)}
    (moved : inner.move contended (.sweeping stop (id :: todo) swept) = some (inner', pc', spawned)) :
    ∃ ws report, inner.objects[id]? = some ws ∧ inner' = inner.stopWorkspace id ws stop.matching ∧
      pc' = .sweeping { stop with report := report } todo (swept ++ [(id, ws.swept stop.matching)]) := by
  obtain ⟨ws, free, same⟩ := Option.map_eq_some_iff.mp moved
  cases same
  exact ⟨ws, _, (free_eq_some.mp free).2, rfl, rfl⟩

end Inner

/-- Where a thread in an admission goes on. -/
def Pc.after? : Pc → Option After
  | admitting _ _ after | taking _ _ after | dispatching _ _ after => some after
  | _ => none

theorem Inner.admitMove_of_after {after : After} (inside : pc.after? = some after)
    (moved : inner.move contended pc = some (inner', pc', spawned)) :
    inner.admitMove pc = some (inner', pc', spawned) := by
  rcases Inner.move_cases moved with submits | admits | completes | stops
  · cases pc <;> contradiction
  · exact admits
  · cases pc <;> contradiction
  · cases pc <;> contradiction

/-- Admission and dispatch go on where they were told to. -/
theorem Inner.move_after {after : After} (inside : pc.after? = some after)
    (moved : inner.move contended pc = some (inner', pc', spawned)) :
    pc'.after? = some after ∨ pc' = after.resume := by
  have admits := Inner.admitMove_of_after inside moved
  cases pc <;> simp only [Pc.after?, reduceCtorEq, Option.some.injEq] at inside
  case admitting id ready other =>
    obtain ⟨ws, _, same⟩ := Option.map_eq_some_iff.mp admits
    split_ifs at same <;> cases same <;> exact .inl (congrArg some inside)
  case taking id ready other =>
    obtain ⟨ws, present, _⟩ := Option.map_eq_some_iff.mp admits
    rcases admits_of_admitMove present admits with
      ⟨_, _, rfl, _⟩ | ⟨_, _, _, _, _, _, _, rfl, _⟩ <;> exact .inl (congrArg some inside)
  case dispatching id ready other =>
    cases ready with
    | nil =>
      cases admits
      exact .inr (congrArg After.resume inside)
    | cons waiting ready =>
      cases admits
      exact .inl (congrArg some inside)

/-- Whether a thread is an activation of `stop` about a run, or about every run, or is done. -/
def Pc.stops (run : Option RunId) : Pc → Prop
  | shutdown => run = none
  | stopping stop | sweeping stop _ _ | settling stop _ | unclaiming stop _ _ => stop.run = run
  | admitting _ _ after | taking _ _ after | dispatching _ _ after =>
    ∃ stop swept, after = .settling stop swept ∧ stop.run = run
  | waitingIdle _ | replied _ => True
  | _ => False

/-- Whether a thread's stop has yet to sweep a workspace. -/
def Pc.willSweep (id : WorkspaceId) : Pc → Prop
  | shutdown | stopping _ => True
  | sweeping _ todo _ => id ∈ todo
  | _ => False

theorem Pc.stops_of_after {after : After} {run : Option RunId} (inside : pc.after? = some after) :
    pc.stops run ↔ ∃ stop swept, after = .settling stop swept ∧ stop.run = run := by
  cases pc <;> simp only [after?, reduceCtorEq, Option.some.injEq] at inside
  all_goals
    subst inside
    rfl

/-- A call some stop about a run is about. -/
def Concerns (run : Option RunId) (waiting : Waiting) : Prop := run = none ∨ run = some waiting.run

theorem Stop.matching_of_concerns {stop : Stop} {run : Option RunId} (same : stop.run = run)
    (concerns : Concerns run waiting) : stop.matching waiting.run = true := by
  unfold Stop.matching
  rw [same]
  rcases concerns with rfl | rfl
  · rfl
  · exact beq_self_eq_true waiting.run

/-- The step lemma of a stop: as it moves, what is exposed stays within what it has yet to sweep,
unless it was a shutdown that found the flag set. -/
theorem Pc.stops_move {run : Option RunId} {calls : List Waiting} (mapped : Mapped inner)
    (concerned : ∀ waiting ∈ calls, Concerns run waiting)
    (shrinks : ∀ waiting ∈ calls, ∀ id, inner'.Exposed id waiting → inner.Exposed id waiting)
    (stops : pc.stops run)
    (covers : ∀ waiting ∈ calls, ∀ id, inner.Exposed id waiting → pc.willSweep id)
    (moved : inner.move contended pc = some (inner', pc', spawned)) :
    pc'.stops run ∧ ((run = none ∧ ∃ live, pc' = .replied (.alreadyShutDown live)) ∨
      ∀ waiting ∈ calls, ∀ id, inner'.Exposed id waiting → pc'.willSweep id) := by
  -- once a stop has swept everything, nothing it is about is exposed any more
  have done : (∀ id, ¬ pc.willSweep id) → ∀ waiting ∈ calls, ∀ id, inner'.Exposed id waiting →
      pc'.willSweep id := fun past waiting member id exposed =>
    absurd (covers waiting member id (shrinks waiting member id exposed)) (past id)
  cases pc <;> simp only [Pc.stops] at stops
  case shutdown =>
    change inner.stopMove contended .shutdown = _ at moved
    simp only [Inner.stopMove] at moved
    split_ifs at moved <;> cases moved
    · exact ⟨trivial, .inl ⟨stops, _, rfl⟩⟩
    · exact ⟨stops.symm, .inr fun _ _ _ _ => trivial⟩
  case stopping stop =>
    cases moved
    exact ⟨stops, .inr fun waiting member id exposed => mapped.live exposed⟩
  case sweeping stop todo swept =>
    cases todo with
    | nil =>
      cases moved
      exact ⟨stops, .inr (done fun id => List.not_mem_nil)⟩
    | cons home todo =>
      obtain ⟨ws, report, present, rfl, rfl⟩ := Inner.move_sweeping moved
      refine ⟨stops, .inr fun waiting member id exposed => ?_⟩
      have before := covers waiting member id (shrinks waiting member id exposed)
      refine (List.mem_cons.mp before).resolve_left ?_
      rintro rfl
      exact Inner.not_exposed_of_sweep present
        (Stop.matching_of_concerns stops (concerned waiting member)) exposed
  case admitting | taking | dispatching =>
    obtain ⟨stop, swept, rfl, same⟩ := stops
    refine ⟨?_, .inr (done fun id => False.elim)⟩
    rcases Inner.move_after rfl moved with inside | rfl
    · exact (Pc.stops_of_after inside).mpr ⟨stop, swept, rfl, same⟩
    · exact same
  case settling stop swept =>
    refine ⟨?_, .inr (done fun id => False.elim)⟩
    rcases swept with _ | ⟨⟨home, _ | ⟨first, removed⟩⟩, swept⟩
    · cases moved
      obtain ⟨_, stopper, _⟩ := stop
      cases stopper <;> trivial
    · obtain ⟨ws, _, same⟩ := Option.map_eq_some_iff.mp moved
      cases same
      exact ⟨stop, swept, rfl, stops⟩
    · cases moved
      exact stops
  case unclaiming stop call swept =>
    cases moved
    exact ⟨stops, .inr (done fun id => False.elim)⟩
  case waitingIdle report =>
    cases moved
    exact ⟨trivial, .inr (done fun id => False.elim)⟩
  case replied reply => cases moved

namespace Scheduler

variable {state next start : Scheduler} {action : Action} {thread : ℕ}

/-- What one step does to one thread: nothing, its own move, or the end of its executor. -/
theorem step_thread (step : state.step action = some next)
    (present : state.threads[thread]? = some pc) :
    next.threads[thread]? = some pc ∨
      (∃ contended move, state.inner.move contended pc = some move ∧ next = state.become thread move) ∨
        ∃ id waiting, pc = .executing id waiting := by
  obtain ⟨bound, _⟩ := List.getElem?_eq_some_iff.mp present
  have kept : ∀ {other : ℕ} (move : Move), other ≠ thread →
      (state.become other move).threads[thread]? = some pc := by
    intro other move apart
    rw [become, List.getElem?_append_left (by rw [List.length_set]; exact bound),
      List.getElem?_set_ne apart, present]
  cases action with
  | begin operation =>
    cases step
    exact .inl (by rw [List.getElem?_append_left bound, present])
  | trip token =>
    cases step
    exact .inl present
  | advance other contended =>
    obtain ⟨moving, there, success⟩ := Option.bind_eq_some_iff.mp step
    obtain ⟨move, moved, rfl⟩ := Option.map_eq_some_iff.mp success
    by_cases same : other = thread
    · subst same
      obtain rfl := Option.some.inj (present.symm.trans there)
      exact .inr (.inl ⟨contended, move, moved, rfl⟩)
    · exact .inl (kept move same)
  | finish other panicked =>
    simp only [Scheduler.step] at step
    split at step
    · rename_i id waiting there
      cases step
      by_cases same : other = thread
      · subst same
        exact .inr (.inr ⟨id, waiting, Option.some.inj (present.symm.trans there)⟩)
      · exact .inl (kept _ same)
    · contradiction

theorem become_threads (present : state.threads[thread]? = some pc) (move : Move) :
    (state.become thread move).threads[thread]? = some move.2.1 := by
  obtain ⟨bound, _⟩ := List.getElem?_eq_some_iff.mp present
  rw [become, List.getElem?_append_left (by rw [List.length_set]; exact bound),
    List.getElem?_set_self bound]

theorem exposed_step (ledger : Ledger state.inner state.holdings)
    (step : state.step action = some next) (accepted : waiting ∈ state.inner.accepted.map Prod.snd)
    (exposed : next.inner.Exposed id waiting) : state.inner.Exposed id waiting := by
  obtain ⟨rest, loss, gain, posting, before, _⟩ := step_posts step
  rw [before] at ledger
  exact posting.exposed ledger accepted exposed

theorem accepted_step (step : state.step action = some next)
    (accepted : waiting ∈ state.inner.accepted.map Prod.snd) :
    waiting ∈ next.inner.accepted.map Prod.snd := by
  obtain ⟨rest, loss, gain, posting, _, _⟩ := step_posts step
  exact (posting.accepted.map Prod.snd).subset accepted

/-- A stop on its way: what it is about is exposed only where it has yet to sweep. -/
structure Stopping (state : Scheduler) (thread : ℕ) (run : Option RunId) (calls : List Waiting) :
    Prop where
  accepted : ∀ waiting ∈ calls, waiting ∈ state.inner.accepted.map Prod.snd
  reaches : ∃ pc, state.threads[thread]? = some pc ∧ pc.stops run ∧
    ((run = none ∧ ∃ live, pc = .replied (.alreadyShutDown live)) ∨
      ∀ waiting ∈ calls, ∀ id, state.inner.Exposed id waiting → pc.willSweep id)

theorem Stopping.step {run : Option RunId} {calls : List Waiting}
    (stopping : state.Stopping thread run calls) (ledger : Ledger state.inner state.holdings)
    (concerned : ∀ waiting ∈ calls, Concerns run waiting) (step : state.step action = some next) :
    next.Stopping thread run calls := by
  obtain ⟨accepted, pc, present, stops, reaches⟩ := stopping
  have shrinks : ∀ waiting ∈ calls, ∀ id, next.inner.Exposed id waiting →
      state.inner.Exposed id waiting := fun waiting member id exposed =>
    exposed_step ledger step (accepted waiting member) exposed
  refine ⟨fun waiting member => accepted_step step (accepted waiting member), ?_⟩
  rcases step_thread step present with kept | ⟨contended, move, moved, rfl⟩ | ⟨_, _, rfl⟩
  · refine ⟨pc, kept, stops, reaches.imp_right fun covers waiting member id exposed => ?_⟩
    exact covers waiting member id (shrinks waiting member id exposed)
  · rcases reaches with ⟨_, live, rfl⟩ | covers
    · contradiction
    · exact ⟨move.2.1, become_threads present move,
        Pc.stops_move ledger.mapped concerned shrinks stops covers moved⟩
  · exact absurd stops id

/-- The run lemma of a stop. -/
theorem Stopping.path {run : Option RunId} {calls : List Waiting} {actions : List Action}
    (stopping : state.Stopping thread run calls) (reachable : machine.Reachable state)
    (concerned : ∀ waiting ∈ calls, Concerns run waiting)
    (path : machine.Path state actions next) : next.Stopping thread run calls := by
  have both : machine.Reachable next ∧ next.Stopping thread run calls := by
    refine path.preserves (P := fun state : Scheduler =>
      machine.Reachable state ∧ state.Stopping thread run calls) ?_ ⟨reachable, stopping⟩
    rintro state action next ⟨here, stopping⟩ step
    exact ⟨here.step step, stopping.step (ledger here) concerned step⟩
  exact both.2

end Scheduler

end Harkness.Runtime.Schedule
