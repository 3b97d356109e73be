import Harkness.Runtime.Schedule.Stop
import Harkness.Runtime.Schedule.WakeUp

/-! # Submissions that race with a shutdown

A submission that joins a queue after the shutdown began is swept by the shutdown, or by its own
submitter, which looks at the flag once more after its admission. So when both have returned, the
call is in no queue and what runs of it is cancelled.
-/

namespace Harkness.Runtime.Schedule

variable {inner inner' : Inner} {id : WorkspaceId} {waiting : Waiting} {pc pc' : Pc}
  {spawned : List Pc} {contended : List WorkspaceId}

/-- Whether a thread will still sweep a workspace for every run, on behalf of the shutdown or of a
submission: a stop that has not come to it, or the submitter of a call on its way to look at the
flag again. -/
def Pc.closes (stopper : Stopper) (id : WorkspaceId) : Pc → Prop
  | stopping stop => stop.run = none ∧ stop.stopper = stopper
  | sweeping stop todo _ => (stop.run = none ∧ stop.stopper = stopper) ∧ id ∈ todo
  | admitting _ _ after | taking _ _ after | dispatching _ _ after =>
    ∃ waiting, after = .submitted waiting ∧ stopper = .submit waiting
  | submitted waiting => stopper = .submit waiting
  | _ => False

theorem Pc.closes_of_after {after : After} {stopper : Stopper} (inside : pc.after? = some after) :
    pc.closes stopper id ↔ ∃ waiting, after = .submitted waiting ∧ stopper = .submit waiting := by
  cases pc <;> simp only [after?, reduceCtorEq, Option.some.injEq] at inside
  all_goals
    subst inside
    rfl

/-- A thread that is to sweep a workspace still is after its move, or the call is not exposed. -/
theorem Pc.closes_move {stopper : Stopper} (mapped : Mapped inner)
    (flag : inner.shuttingDown = true) (closes : pc.closes stopper id)
    (before : inner.Exposed id waiting) (exposed : inner'.Exposed id waiting)
    (moved : inner.move contended pc = some (inner', pc', spawned)) : pc'.closes stopper id := by
  cases pc <;> simp only [Pc.closes] at closes
  case stopping stop =>
    cases moved
    exact ⟨closes, mapped.live before⟩
  case sweeping stop todo swept =>
    obtain ⟨⟨every, same⟩, member⟩ := closes
    cases todo with
    | nil => exact absurd member List.not_mem_nil
    | cons home todo =>
      obtain ⟨ws, report, present, rfl, rfl⟩ := Inner.move_sweeping moved
      refine ⟨⟨every, same⟩, (List.mem_cons.mp member).resolve_left ?_⟩
      rintro rfl
      exact Inner.not_exposed_of_sweep present (Stop.matching_of_concerns every (.inl rfl)) exposed
  case admitting | taking | dispatching =>
    obtain ⟨other, rfl, rfl⟩ := closes
    rcases Inner.move_after rfl moved with inside | rfl
    · exact (Pc.closes_of_after inside).mpr ⟨other, rfl, rfl⟩
    · rfl
  case submitted other =>
    subst closes
    rcases Inner.move_cases moved with submits | admits | completes | stops
    · contradiction
    · simp only [Inner.admitMove, flag, if_true] at admits
      cases admits
      exact ⟨rfl, rfl⟩
    · contradiction
    · contradiction

private theorem submitMove_flag_accepted
    (moved : inner.submitMove pc = some (inner', pc', spawned)) :
    inner'.shuttingDown = inner.shuttingDown ∧ (inner'.accepted = inner.accepted ∨
      ∃ id waiting, pc' = .admitting id [] (.submitted waiting) ∧
        inner'.accepted = inner.accepted ++ [(id, waiting)]) := by
  cases pc <;> simp only [Inner.submitMove, reduceCtorEq] at moved
  case submit | claiming =>
    split_ifs at moved <;> cases moved <;> exact ⟨rfl, .inl rfl⟩
  case loading =>
    split at moved <;> cases moved <;> exact ⟨rfl, .inl rfl⟩
  case refusing =>
    cases moved
    exact ⟨rfl, .inl rfl⟩
  case joining =>
    split at moved
    · obtain ⟨ws, _, same⟩ := Option.map_eq_some_iff.mp moved
      cases same
      exact ⟨rfl, .inl rfl⟩
    · cases moved
      exact ⟨rfl, .inl rfl⟩
  case room | entering =>
    obtain ⟨ws, _, same⟩ := Option.map_eq_some_iff.mp moved
    split_ifs at same <;> cases same <;> exact ⟨rfl, .inl rfl⟩
  case parked =>
    obtain ⟨ws, _, same⟩ := Option.map_eq_some_iff.mp moved
    cases same
    exact ⟨rfl, .inl rfl⟩
  case pushing =>
    obtain ⟨ws, _, same⟩ := Option.map_eq_some_iff.mp moved
    cases same
    exact ⟨rfl, .inr ⟨_, _, rfl, rfl⟩⟩

private theorem admitMove_flag_accepted
    (moved : inner.admitMove pc = some (inner', pc', spawned)) :
    inner'.shuttingDown = inner.shuttingDown ∧ inner'.accepted = inner.accepted := by
  cases pc <;> try (simp only [Inner.admitMove, reduceCtorEq] at moved; done)
  case admitting =>
    obtain ⟨ws, _, same⟩ := Option.map_eq_some_iff.mp moved
    split_ifs at same <;> cases same <;> exact ⟨rfl, rfl⟩
  case taking =>
    obtain ⟨ws, present, _⟩ := Option.map_eq_some_iff.mp moved
    rcases Inner.admits_of_admitMove present moved with
      ⟨_, rfl, _, _⟩ | ⟨_, _, _, _, _, _, rfl, _, _⟩ <;> exact ⟨rfl, rfl⟩
  case dispatching id ready after =>
    cases ready <;> cases moved <;> exact ⟨rfl, rfl⟩
  case submitted =>
    simp only [Inner.admitMove] at moved
    split_ifs at moved <;> cases moved <;> exact ⟨rfl, rfl⟩

private theorem completeMove_flag_accepted
    (moved : inner.completeMove contended pc = some (inner', pc', spawned)) :
    inner'.shuttingDown = inner.shuttingDown ∧ inner'.accepted = inner.accepted := by
  cases pc <;> try (simp only [Inner.completeMove, reduceCtorEq] at moved; done)
  case completing =>
    obtain ⟨ws, _, same⟩ := Option.map_eq_some_iff.mp moved
    cases same
    exact ⟨rfl, rfl⟩
  case pumping todo ended =>
    cases todo with
    | nil =>
      cases moved
      exact ⟨rfl, rfl⟩
    | cons id todo =>
      obtain ⟨ws, _, same⟩ := Option.map_eq_some_iff.mp moved
      cases same
      exact ⟨rfl, rfl⟩
  all_goals
    cases moved
    exact ⟨rfl, rfl⟩

private theorem stopMove_flag_accepted
    (moved : inner.stopMove contended pc = some (inner', pc', spawned)) :
    inner'.accepted = inner.accepted ∧ (inner'.shuttingDown = inner.shuttingDown ∨
      pc' = .stopping ⟨none, .shutdown, ⟨0, 0⟩⟩) := by
  cases pc <;> try (simp only [Inner.stopMove, reduceCtorEq] at moved; done)
  case shutdown =>
    simp only [Inner.stopMove] at moved
    split_ifs at moved <;> cases moved
    · exact ⟨rfl, .inl rfl⟩
    · exact ⟨rfl, .inr rfl⟩
  case sweeping stop todo swept =>
    cases todo with
    | nil =>
      cases moved
      exact ⟨rfl, .inl rfl⟩
    | cons id todo =>
      obtain ⟨ws, _, same⟩ := Option.map_eq_some_iff.mp moved
      cases same
      exact ⟨rfl, .inl rfl⟩
  case settling stop swept =>
    rcases swept with _ | ⟨⟨id, _ | ⟨first, removed⟩⟩, swept⟩
    · cases moved
      exact ⟨rfl, .inl rfl⟩
    · obtain ⟨ws, _, same⟩ := Option.map_eq_some_iff.mp moved
      cases same
      exact ⟨rfl, .inl rfl⟩
    · cases moved
      exact ⟨rfl, .inl rfl⟩
  all_goals
    cases moved
    exact ⟨rfl, .inl rfl⟩

theorem Pc.not_closes_of_outside {stopper : Stopper} (outside : pc.outside = true) :
    ¬ pc.closes stopper id := by
  cases pc <;> first | contradiction | exact not_false

theorem Pc.no_carried (outside : pc.outside = true) (waiting : Waiting) :
    Holding.carried waiting ∉ pc.holdings := by
  cases pc <;> simp only [Pc.outside, Bool.false_eq_true] at outside
  case parked id other =>
    simp only [holdings, Waiting.submission, Multiset.mem_add, Multiset.mem_singleton, reduceCtorEq,
      or_self, not_false_eq_true]
  case replied reply =>
    cases reply <;> simp only [holdings, Multiset.mem_singleton, Multiset.notMem_zero, reduceCtorEq,
      not_false_eq_true]
  all_goals simp only [holdings, Multiset.mem_singleton, reduceCtorEq, not_false_eq_true]

/-- The one move that sets the flag begins a stop of everything, and the one move that accepts a
call goes on to look at the flag. -/
theorem Inner.move_flag_accepted (moved : inner.move contended pc = some (inner', pc', spawned)) :
    (inner'.shuttingDown = inner.shuttingDown ∨ pc' = .stopping ⟨none, .shutdown, ⟨0, 0⟩⟩) ∧
      (inner'.accepted = inner.accepted ∨
        ∃ id waiting, pc' = .admitting id [] (.submitted waiting) ∧
          inner'.accepted = inner.accepted ++ [(id, waiting)]) := by
  rcases Inner.move_cases moved with submits | admits | completes | stops
  · obtain ⟨flag, accepted⟩ := submitMove_flag_accepted submits
    exact ⟨.inl flag, accepted⟩
  · obtain ⟨flag, accepted⟩ := admitMove_flag_accepted admits
    exact ⟨.inl flag, .inl accepted⟩
  · obtain ⟨flag, accepted⟩ := completeMove_flag_accepted completes
    exact ⟨.inl flag, .inl accepted⟩
  · obtain ⟨accepted, flag⟩ := stopMove_flag_accepted stops
    exact ⟨flag, .inl accepted⟩

namespace Scheduler

variable {state next : Scheduler} {action : Action}

/-- Once the flag is set, where an accepted call is exposed the shutdown or the call's own submitter
has yet to sweep. -/
def Closing (state : Scheduler) : Prop :=
  state.inner.shuttingDown = true → ∀ waiting ∈ state.inner.accepted.map Prod.snd, ∀ id,
    state.inner.Exposed id waiting → ∃ (thread : ℕ) (pc : Pc), state.threads[thread]? = some pc ∧
      (pc.closes .shutdown id ∨ pc.closes (.submit waiting) id)

private theorem step_flag_accepted (step : state.step action = some next) :
    (next.inner.shuttingDown = state.inner.shuttingDown ∧
        next.inner.accepted = state.inner.accepted) ∨
      ∃ (thread : ℕ) (pc : Pc) (contended : List WorkspaceId) (move : Move),
        state.threads[thread]? = some pc ∧ state.inner.move contended pc = some move ∧
          next = state.become thread move := by
  cases action with
  | begin operation =>
    cases step
    exact .inl ⟨rfl, rfl⟩
  | trip token =>
    cases step
    exact .inl ⟨rfl, rfl⟩
  | advance thread contended =>
    obtain ⟨pc, present, success⟩ := Option.bind_eq_some_iff.mp step
    obtain ⟨move, moved, rfl⟩ := Option.map_eq_some_iff.mp success
    exact .inr ⟨thread, pc, contended, move, present, moved, rfl⟩
  | finish thread panicked =>
    simp only [Scheduler.step] at step
    split at step
    · cases step
      exact .inl ⟨rfl, rfl⟩
    · contradiction

theorem Closing.step (closing : state.Closing) (ledger : Ledger state.inner state.holdings)
    (step : state.step action = some next) : next.Closing := by
  intro flag waiting accepted id exposed
  by_cases old : state.inner.shuttingDown = true ∧ waiting ∈ state.inner.accepted.map Prod.snd
  · have before := exposed_step ledger step old.2 exposed
    obtain ⟨thread, pc, present, closes⟩ := closing old.1 waiting old.2 id before
    rcases step_thread step present with kept | ⟨contended, move, moved, rfl⟩ | ⟨_, _, rfl⟩
    · exact ⟨thread, pc, kept, closes⟩
    · refine ⟨thread, move.2.1, become_threads present move, closes.imp ?_ ?_⟩
      · exact fun closes => Pc.closes_move ledger.mapped old.1 closes before exposed moved
      · exact fun closes => Pc.closes_move ledger.mapped old.1 closes before exposed moved
    · exact absurd closes (by simp only [Pc.closes, or_self, not_false_eq_true])
  · rcases step_flag_accepted step with ⟨same, history⟩ | ⟨thread, pc, contended, move, there, moved, rfl⟩
    · rw [same] at flag
      rw [history] at accepted
      exact absurd ⟨flag, accepted⟩ old
    · have present := become_threads there move
      obtain ⟨flagged, entered⟩ := Inner.move_flag_accepted moved
      rcases flagged with same | began
      · rcases entered with history | ⟨home, other, entered, history⟩
        · exact absurd ⟨same ▸ flag, history ▸ accepted⟩ old
        · refine ⟨thread, move.2.1, present, .inr ?_⟩
          have own : waiting = other := by
            have member : waiting ∈ (state.inner.accepted ++ [(home, other)]).map Prod.snd :=
              history ▸ accepted
            rw [List.map_append, List.mem_append] at member
            exact List.mem_singleton.mp (member.resolve_left fun earlier => old ⟨same ▸ flag, earlier⟩)
          rw [entered, own]
          exact ⟨other, rfl, rfl⟩
      · refine ⟨thread, move.2.1, present, .inl ?_⟩
        rw [began]
        exact ⟨rfl, rfl⟩

theorem closing (reachable : machine.Reachable state) : state.Closing := by
  refine reachable.invariant_of (P := Closing) (fun state => ledger) ?_ ?_
  · rintro state ⟨processes, rfl⟩ flag
    contradiction
  · exact fun state action next ledger closing step => closing.step ledger step

private theorem holds_of_closes {pc : Pc} {stopper : Stopper} (closes : pc.closes stopper id) :
    (stopper = .shutdown → Holding.shuttingDown ∈ pc.holdings) ∧
      ∀ waiting, stopper = .submit waiting → Holding.ticketed waiting ∈ pc.holdings := by
  cases pc <;> simp only [Pc.closes] at closes
  case stopping stop =>
    obtain ⟨_, rfl⟩ := closes
    refine ⟨fun same => ?_, fun waiting same => ?_⟩ <;> rw [Pc.holdings, Stop.holdings, same] <;>
      exact Multiset.mem_singleton_self _
  case sweeping stop todo swept =>
    obtain ⟨⟨_, rfl⟩, _⟩ := closes
    refine ⟨fun same => ?_, fun waiting same => ?_⟩ <;> rw [Pc.holdings, Stop.holdings, same] <;>
      exact Multiset.mem_add.mpr (.inl (Multiset.mem_singleton_self _))
  case submitted other =>
    subst closes
    refine ⟨fun same => (by cases same), fun waiting same => ?_⟩
    cases same
    exact Multiset.mem_singleton_self _
  case dispatching ready after =>
    obtain ⟨other, rfl, rfl⟩ := closes
    refine ⟨fun same => (by cases same), fun waiting same => ?_⟩
    cases same
    exact Multiset.mem_add.mpr (.inr (Multiset.mem_singleton_self _))
  all_goals
    obtain ⟨other, rfl, rfl⟩ := closes
    refine ⟨fun same => (by cases same), fun waiting same => ?_⟩
    cases same
    exact Multiset.mem_add.mpr (.inl (Multiset.mem_add.mpr (.inr (Multiset.mem_singleton_self _))))

/-- Two threads that hold one thing count twice. -/
private theorem count_of_two {first second : ℕ} {a b : Pc} {holding : Holding}
    (left : state.threads[first]? = some a) (right : state.threads[second]? = some b)
    (apart : first ≠ second) (holds : holding ∈ a.holdings) (again : holding ∈ b.holdings) :
    2 ≤ state.holdings.count holding := by
  obtain ⟨others, split⟩ := List.exists_total_eq_add_add Pc.holdings left right apart
  rw [holdings, split, Multiset.count_add, Multiset.count_add]
  have one := Multiset.one_le_count_iff_mem.mpr holds
  have two := Multiset.one_le_count_iff_mem.mpr again
  omega

theorem accepted_of_ticket {thread : ℕ} (ledger : Ledger state.inner state.holdings)
    (ticket : state.threads[thread]? = some (.replied (.ticket waiting))) :
    waiting ∈ state.inner.accepted.map Prod.snd := by
  have own : Holding.ticketed waiting ∈ (Pc.replied (.ticket waiting)).holdings :=
    Multiset.mem_singleton_self _
  have one := Multiset.one_le_count_iff_mem.mpr
    (mem_holdings.mpr ⟨_, List.mem_of_getElem? ticket, own⟩)
  rw [ledger.tickets waiting] at one
  exact List.count_pos_iff.mp one

/-- When the shutdown and the submission of a call have both returned, the call is not exposed. -/
theorem not_exposed_of_returned (reachable : machine.Reachable state) {first second : ℕ}
    {report : CancelReport} {live : ℕ}
    (shut : state.threads[first]? = some (.replied (.shutdown report live)))
    (ticket : state.threads[second]? = some (.replied (.ticket waiting))) :
    ¬ state.inner.Exposed id waiting := by
  intro exposed
  have ledger := ledger reachable
  have holds : Holding.shuttingDown ∈ (Pc.replied (.shutdown report live)).holdings :=
    Multiset.mem_singleton_self _
  have own : Holding.ticketed waiting ∈ (Pc.replied (.ticket waiting)).holdings :=
    Multiset.mem_singleton_self _
  have flagged := ledger.shutdown
  have counted := ledger.tickets waiting
  have once := List.nodup_iff_count_le_one.mp
    (Multiset.Nodup.of_map Waiting.dispatch ledger.accepted_distinct) waiting
  have flag : state.inner.shuttingDown = true := by
    have one := Multiset.one_le_count_iff_mem.mpr
      (mem_holdings.mpr ⟨_, List.mem_of_getElem? shut, holds⟩)
    by_contra unset
    rw [if_neg unset] at flagged
    omega
  have accepted := accepted_of_ticket ledger ticket
  obtain ⟨thread, pc, present, closes | closes⟩ := closing reachable flag waiting accepted id exposed
  · have apart : thread ≠ first := by
      rintro rfl
      cases present.symm.trans shut
      exact closes
    have two := count_of_two present shut apart ((holds_of_closes closes).1 rfl) holds
    rw [if_pos flag] at flagged
    omega
  · have apart : thread ≠ second := by
      rintro rfl
      cases present.symm.trans ticket
      exact closes
    have two := count_of_two present ticket apart ((holds_of_closes closes).2 waiting rfl) own
    omega

end Scheduler

def Stopper.submits (call : ToolCallId) : Stopper → Prop
  | submit waiting => waiting.call = call
  | _ => False

def After.submits (call : ToolCallId) : After → Prop
  | submitted waiting => waiting.call = call
  | settling stop _ => stop.stopper.submits call
  | pumping _ _ => False

/-- Whether a thread is the submission of a call, on its way or returned. -/
def Pc.submits (call : ToolCallId) : Pc → Prop
  | submit submission | claiming submission | loading submission => submission.scheduled.call = call
  | refusing _ _ | replied (.refused _) => True
  | joining _ waiting | room _ waiting | parked _ waiting | entering _ waiting | pushing _ waiting
  | submitted waiting | replied (.ticket waiting) => waiting.call = call
  | admitting _ _ after | taking _ _ after | dispatching _ _ after => after.submits call
  | stopping stop | sweeping stop _ _ | settling stop _ | unclaiming stop _ _ =>
    stop.stopper.submits call
  | _ => False

theorem Pc.submits_of_after {after : After} {call : ToolCallId} (inside : pc.after? = some after) :
    pc.submits call ↔ after.submits call := by
  cases pc <;> simp only [after?, reduceCtorEq, Option.some.injEq] at inside
  all_goals
    subst inside
    rfl

private theorem submits_submitMove {call : ToolCallId} (submits : pc.submits call)
    (moved : inner.submitMove pc = some (inner', pc', spawned)) : pc'.submits call := by
  cases pc <;> simp only [Inner.submitMove, reduceCtorEq] at moved
  case submit | claiming =>
    split_ifs at moved <;> cases moved <;> trivial
  case loading =>
    split at moved <;> cases moved <;> trivial
  case refusing =>
    cases moved
    trivial
  case joining =>
    split at moved
    · obtain ⟨ws, _, same⟩ := Option.map_eq_some_iff.mp moved
      cases same
      exact submits
    · cases moved
      exact submits
  case room | entering =>
    obtain ⟨ws, _, same⟩ := Option.map_eq_some_iff.mp moved
    split_ifs at same <;> cases same <;> trivial
  case parked | pushing =>
    obtain ⟨ws, _, same⟩ := Option.map_eq_some_iff.mp moved
    cases same
    exact submits

private theorem submits_stopMove {call : ToolCallId} (submits : pc.submits call)
    (moved : inner.stopMove contended pc = some (inner', pc', spawned)) : pc'.submits call := by
  cases pc <;> try (simp only [Inner.stopMove, reduceCtorEq] at moved; done)
  case sweeping stop todo swept =>
    cases todo with
    | nil =>
      cases moved
      exact submits
    | cons id todo =>
      obtain ⟨ws, _, same⟩ := Option.map_eq_some_iff.mp moved
      cases same
      exact submits
  case settling stop swept =>
    rcases swept with _ | ⟨⟨id, _ | ⟨first, removed⟩⟩, swept⟩
    · cases moved
      obtain ⟨_, stopper, _⟩ := stop
      cases stopper <;> exact submits
    · obtain ⟨ws, _, same⟩ := Option.map_eq_some_iff.mp moved
      cases same
      exact submits
    · cases moved
      exact submits
  case stopping | unclaiming =>
    cases moved
    exact submits
  all_goals exact absurd submits id

/-- A submission stays one until it is refused or returns its ticket. -/
theorem Pc.submits_move {call : ToolCallId} (submits : pc.submits call)
    (moved : inner.move contended pc = some (inner', pc', spawned)) : pc'.submits call := by
  by_cases inside : ∃ after, pc.after? = some after
  · obtain ⟨after, inside⟩ := inside
    have goal := (Pc.submits_of_after inside).mp submits
    rcases Inner.move_after inside moved with still | rfl
    · exact (Pc.submits_of_after still).mpr goal
    · cases after <;> exact goal
  rcases Inner.move_cases moved with enters | admits | completes | stops
  · exact submits_submitMove submits enters
  · cases pc <;> try contradiction
    case submitted waiting =>
      simp only [Inner.admitMove] at admits
      split_ifs at admits <;> cases admits <;> exact submits
    all_goals exact absurd ⟨_, rfl⟩ inside
  · cases pc <;> contradiction
  · exact submits_stopMove submits stops

namespace Scheduler

variable {state next start : Scheduler} {actions : List Action} {thread : ℕ}

theorem submits_path (call : ToolCallId) (path : machine.Path state actions next)
    (before : ∃ pc, state.threads[thread]? = some pc ∧ pc.submits call) :
    ∃ pc, next.threads[thread]? = some pc ∧ pc.submits call := by
  refine path.preserves (P := fun state : Scheduler =>
    ∃ pc, state.threads[thread]? = some pc ∧ pc.submits call) ?_ before
  rintro state action next ⟨pc, present, submits⟩ step
  rcases step_thread step present with kept | ⟨contended, move, moved, rfl⟩ | ⟨_, _, rfl⟩
  · exact ⟨pc, kept, submits⟩
  · exact ⟨move.2.1, become_threads present move, Pc.submits_move submits moved⟩
  · exact absurd submits id

/-- A call no scheduler will start any more: in no queue, its running entry, if there is one,
cancelled, and in one of the other places. -/
structure Stopped (state : Scheduler) (waiting : Waiting) : Prop where
  unqueued : state.inner.timesQueued waiting = 0
  tripped : ∀ ws ∈ state.inner.objects, ∀ entry ∈ ws.running, entry.1 = waiting.dispatch →
    entry.2.cancellation ∈ state.inner.tripped
  placed : state.inner.timesRunning waiting + state.timesCarried waiting +
    state.inner.timesSettled waiting = 1

theorem stopped_of_not_exposed (ledger : Ledger state.inner state.holdings)
    (accepted : waiting ∈ state.inner.accepted.map Prod.snd)
    (hidden : ∀ id, ¬ state.inner.Exposed id waiting) : state.Stopped waiting := by
  have unqueued : state.inner.timesQueued waiting = 0 := by
    refine Multiset.count_eq_zero.mpr fun queued => ?_
    obtain ⟨ws, member, there⟩ := Inner.mem_queued.mp queued
    obtain ⟨id, present⟩ := List.getElem?_of_mem member
    exact hidden id ⟨ws, present, .inl there⟩
  refine ⟨unqueued, ?_, ?_⟩
  · intro ws member entry running same
    obtain ⟨id, present⟩ := List.getElem?_of_mem member
    obtain ⟨other, active, rfl⟩ := ledger.active_of_entry present running
    obtain rfl := ledger.eq_of_dispatch (ledger.accepted_of_active active) accepted same
    by_contra untripped
    exact hidden id ⟨ws, present, .inr ⟨running, untripped⟩⟩
  · have place := ledger.one_place accepted
    rw [unqueued, zero_add] at place
    exact place

/-- A stop that has returned left nothing it is about exposed, unless it was a shutdown that found
another one under way. -/
theorem Stopping.hidden {run : Option RunId} {calls : List Waiting} {reply : Reply}
    (stopping : state.Stopping thread run calls)
    (returned : state.threads[thread]? = some (.replied reply)) :
    (run = none ∧ ∃ live, reply = .alreadyShutDown live) ∨
      ∀ waiting ∈ calls, ∀ id, ¬ state.inner.Exposed id waiting := by
  obtain ⟨_, pc, present, _, reaches⟩ := stopping
  obtain rfl := Option.some.inj (present.symm.trans returned)
  rcases reaches with ⟨every, live, same⟩ | covers
  · exact .inl ⟨every, live, Pc.replied.inj same⟩
  · exact .inr fun waiting member id exposed => covers waiting member id exposed

/-- Once a `cancel_run`, or the shutdown that set the flag, has returned, every call accepted before
it began and matching it is stopped; a submission is refused, or returns the ticket of a call that
is stopped once the shutdown has returned too; and when every thread is outside the scheduler's
sections, each accepted call is settled, or running and cancelled. -/
theorem stop_reaches {operation : Operation} {reply : Reply} (reachable : machine.Reachable start)
    (path : machine.Path start (.begin operation :: actions) state)
    (returned : state.threads[start.threads.length]? = some (.replied reply)) :
    (match operation with
      | .cancelRun run => ∀ waiting ∈ start.inner.accepted.map Prod.snd, waiting.run = run →
          state.Stopped waiting
      | .shutdown => (∃ live, reply = .alreadyShutDown live) ∨
          ∀ waiting ∈ start.inner.accepted.map Prod.snd, state.Stopped waiting
      | .submit submission => (∃ error, reply = .refused error) ∨
          ∃ waiting, reply = .ticket waiting ∧ waiting.call = submission.scheduled.call ∧
            ((∃ (thread : ℕ) (report : CancelReport) (live : ℕ),
              state.threads[thread]? = some (.replied (.shutdown report live))) →
                state.Stopped waiting)) ∧
      (state.inner.shuttingDown = true → (∀ pc ∈ state.threads, pc.outside = true) →
        ∀ waiting ∈ state.inner.accepted.map Prod.snd,
          state.Stopped waiting ∧ state.timesCarried waiting = 0) := by
  have here := reachable.path path
  have ledger := ledger here
  cases path with | cons begun path =>
  cases begun
  have began := reachable.step (a := .begin operation) rfl
  have stands : (start.threads ++ [operation.start])[start.threads.length]? =
      some operation.start := List.getElem?_concat_length ..
  have stopped : ∀ (run : Option RunId) (calls : List Waiting), operation.start.stops run →
      (∀ id, operation.start.willSweep id) →
      (∀ waiting ∈ calls, waiting ∈ start.inner.accepted.map Prod.snd ∧ Concerns run waiting) →
      (run = none ∧ ∃ live, reply = .alreadyShutDown live) ∨
        ∀ waiting ∈ calls, state.Stopped waiting := by
    intro run calls stops sweeps about
    have stopping : Stopping { start with threads := start.threads ++ [operation.start] }
        start.threads.length run calls :=
      ⟨fun waiting member => (about waiting member).1, operation.start, stands, stops,
        .inr fun _ _ id _ => sweeps id⟩
    have reached := stopping.path began (fun waiting member => (about waiting member).2) path
    refine (reached.hidden returned).imp_right fun hidden waiting member => ?_
    exact stopped_of_not_exposed ledger (reached.accepted waiting member) (hidden waiting member)
  refine ⟨?_, ?_⟩
  · cases operation with
    | cancelRun run =>
      intro waiting accepted same
      rcases stopped (some run) [waiting] rfl (fun _ => trivial) (by
        rintro other member
        obtain rfl := List.mem_singleton.mp member
        exact ⟨accepted, .inr (congrArg some same.symm)⟩) with ⟨never, _⟩ | all
      · contradiction
      · exact all waiting List.mem_cons_self
    | shutdown =>
      exact (stopped none _ rfl (fun _ => trivial)
        fun waiting accepted => ⟨accepted, .inl rfl⟩).imp_left And.right
    | submit submission =>
      obtain ⟨pc, present, submits⟩ := submits_path submission.scheduled.call path
        ⟨_, stands, rfl⟩
      obtain rfl := Option.some.inj (present.symm.trans returned)
      cases reply with
      | refused error => exact .inl ⟨error, rfl⟩
      | ticket waiting =>
        refine .inr ⟨waiting, rfl, submits, ?_⟩
        rintro ⟨thread, report, live, shut⟩
        exact stopped_of_not_exposed ledger (accepted_of_ticket ledger returned)
          fun id => not_exposed_of_returned here shut returned
      | _ => exact absurd submits id
  · intro flag outside waiting accepted
    refine ⟨stopped_of_not_exposed ledger accepted fun id exposed => ?_, ?_⟩
    · obtain ⟨thread, pc, present, closes⟩ := closing here flag waiting accepted id exposed
      have still := outside pc (List.mem_of_getElem? present)
      exact closes.elim (Pc.not_closes_of_outside still) (Pc.not_closes_of_outside still)
    · refine Multiset.count_eq_zero.mpr fun carried => ?_
      obtain ⟨pc, member, holds⟩ := mem_holdings.mp carried
      exact Pc.no_carried (outside pc member) waiting holds

/-- The small run, shut down by one thread until it returns. -/
private def sampleShutDown : Option Scheduler :=
  machine.run? (sample.get sample_isSome) (.begin .shutdown :: advances 3 11)

private theorem sampleShutDown_isSome : sampleShutDown.isSome = true := by decide

theorem stop_reaches_sample : ∃ start state, sample = some start ∧
    machine.Path start (.begin .shutdown :: advances 3 11) state ∧
      state.threads[start.threads.length]? = some (.replied (.shutdown ⟨1, 1⟩ 1)) ∧
        (((∃ live, Reply.shutdown ⟨1, 1⟩ 1 = .alreadyShutDown live) ∨
          ∀ waiting ∈ start.inner.accepted.map Prod.snd, state.Stopped waiting) ∧
          (state.inner.shuttingDown = true → (∀ pc ∈ state.threads, pc.outside = true) →
            ∀ waiting ∈ state.inner.accepted.map Prod.snd,
              state.Stopped waiting ∧ state.timesCarried waiting = 0)) :=
  ⟨sample.get sample_isSome, sampleShutDown.get sampleShutDown_isSome, (Option.some_get _).symm,
    Machine.run?_eq_some_iff.mp (Option.some_get sampleShutDown_isSome).symm, by decide,
    stop_reaches (sample_reachable (Option.some_get _).symm)
      (Machine.run?_eq_some_iff.mp (Option.some_get sampleShutDown_isSome).symm) (by decide)⟩

/-- The small run, with one shutdown past the flag. -/
private def sampleClosing : Option Scheduler :=
  machine.run? (initial 1) (sampleRun ++ [.begin .shutdown, .advance 3 []])

private theorem sampleClosing_isSome : sampleClosing.isSome = true := by decide

/-- A second shutdown that finds the flag set, and so returns at once. -/
private def sampleAgain : Option Scheduler :=
  machine.run? (sampleClosing.get sampleClosing_isSome) [.begin .shutdown, .advance 4 []]

private theorem sampleAgain_isSome : sampleAgain.isSome = true := by decide

/-- A shutdown that finds another one under way returns while calls are still queued with unsettled
tickets, or running with untripped tokens. -/
theorem second_shutdown_returns : ∃ start state reply, machine.Reachable start ∧
    machine.Path start [.begin .shutdown, .advance 4 []] state ∧
      state.threads[start.threads.length]? = some (.replied reply) ∧
        (∃ waiting ∈ start.inner.accepted.map Prod.snd, state.inner.timesQueued waiting = 1 ∧
          state.inner.timesSettled waiting = 0) ∧
        ∃ waiting ∈ start.inner.accepted.map Prod.snd, state.inner.timesRunning waiting = 1 ∧
          waiting.cancellation ∉ state.inner.tripped :=
  ⟨sampleClosing.get sampleClosing_isSome, sampleAgain.get sampleAgain_isSome, .alreadyShutDown 1,
    .of_run? ⟨1, rfl⟩ (Option.some_get sampleClosing_isSome).symm,
    Machine.run?_eq_some_iff.mp (Option.some_get sampleAgain_isSome).symm, by decide, by decide,
    by decide⟩

end Scheduler

end Harkness.Runtime.Schedule
