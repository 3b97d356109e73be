import Harkness.Runtime.Schedule.Ledger

/-! # No lost wake-up

Whatever makes the head of a queue admissible leaves a thread that has yet to try it: a submission
that joined the queue, a completion that freed the workspace, a stop that swept it, or a completion
that freed a process slot and so owes every workspace a try. A thread gives that up only after the
test failed, and until something changes the test fails again.
-/

namespace Harkness.Runtime.Schedule

/-- A workspace whose head would be admitted is one some thread has yet to pump. -/
def Awake (inner : Inner) (held : Multiset Holding) : Prop :=
  inner.shuttingDown = false → ∀ id ws, inner.objects[id]? = some ws → inner.admits ws = true →
    Holding.pump id ∈ held ∨ Holding.pumpAll ∈ held

variable {inner inner' : Inner} {rest loss gain held : Multiset Holding} {id : WorkspaceId}
  {ws ws' : Workspace}

namespace Inner

theorem admits_eq_of_same (queue : ws'.queue = ws.queue) (running : ws'.running = ws.running) :
    inner.admits ws' = inner.admits ws := by
  cases ws
  cases ws'
  dsimp only at queue running
  subst queue running
  rfl

/-- Fewer free slots admit no more. -/
theorem admits_of_more_in_use (capacity : inner'.processes.capacity = inner.processes.capacity)
    (more : inner.processes.inUse ≤ inner'.processes.inUse) (admitted : inner'.admits ws = true) :
    inner.admits ws = true := by
  unfold admits at admitted ⊢
  split at admitted
  · exact admitted
  · rw [Bool.and_eq_true, Bool.or_eq_true, decide_eq_true_eq] at admitted ⊢
    refine ⟨admitted.1, admitted.2.imp_right fun room => ?_⟩
    omega

theorem queue_of_admits (admitted : inner.admits ws = true) : ws.queue ≠ [] := by
  intro empty
  simp only [admits, empty, Bool.false_eq_true] at admitted

end Inner

/-- A posting that gives up no pump leaves the scheduler awake when each head that is admissible
afterwards was so before, or is pumped by the thread that moved. -/
private theorem Awake.keep (awake : Awake inner (rest + loss))
    (flag : inner'.shuttingDown = false → inner.shuttingDown = false)
    (given : ∀ id, Holding.pump id ∉ loss) (all : Holding.pumpAll ∉ loss)
    (admissible : ∀ id ws', inner'.objects[id]? = some ws' → inner'.admits ws' = true →
      (Holding.pump id ∈ gain ∨ Holding.pumpAll ∈ gain) ∨
        ∃ ws, inner.objects[id]? = some ws ∧ inner.admits ws = true) :
    Awake inner' (rest + gain) := by
  intro running id ws' present admitted
  simp only [Multiset.mem_add]
  rcases admissible id ws' present admitted with (pump | pumpAll) | ⟨ws, there, before⟩
  · exact .inl (.inr pump)
  · exact .inr (.inr pumpAll)
  · rcases awake (flag running) id ws there before with pump | pumpAll
    · exact .inl (.inl ((Multiset.mem_add.mp pump).resolve_right (given id)))
    · exact .inr (.inl ((Multiset.mem_add.mp pumpAll).resolve_right all))

/-- The admissible heads after a change to one object: that object's own, and the old ones. -/
private theorem admissible_put (ws' : Workspace) (present : inner.objects[id]? = some ws)
    {other : WorkspaceId} {found : Workspace}
    (there : (inner.put id ws').objects[other]? = some found) :
    other = id ∧ found = ws' ∨ inner.objects[other]? = some found := by
  rw [Inner.objects_put ws' present] at there
  split_ifs at there with same
  · exact .inl ⟨same, (Option.some.inj there).symm⟩
  · exact .inr there

/-- A changed object with the queue and the running set it had admits the same head. -/
private theorem admissible_untouched (ws' : Workspace) (present : inner.objects[id]? = some ws)
    (queue : ws'.queue = ws.queue) (running : ws'.running = ws.running) {other : WorkspaceId}
    {found : Workspace} (there : (inner.put id ws').objects[other]? = some found)
    (admitted : inner.admits found = true) :
    ∃ ws, inner.objects[other]? = some ws ∧ inner.admits ws = true := by
  rcases admissible_put ws' present there with ⟨rfl, rfl⟩ | old
  · exact ⟨ws, present, by rwa [← Inner.admits_eq_of_same queue running]⟩
  · exact ⟨found, old, admitted⟩

private theorem notMem_submission {waiting : Waiting} {home : WorkspaceId} {holding : Holding}
    (other : ∀ call waiting id, holding ≠ .submitting call ∧ holding ≠ .numbered waiting ∧
      holding ≠ .producing id) : holding ∉ waiting.submission + {.producing home} := by
  intro member
  simp only [Waiting.submission, Multiset.mem_add, Multiset.mem_singleton] at member
  rcases member with (submitting | numbered) | producing
  · exact (other waiting.call waiting home).1 submitting
  · exact (other waiting.call waiting home).2.1 numbered
  · exact (other waiting.call waiting home).2.2 producing

/-- The step lemma: what makes a head admissible also gives a thread the pump for it. -/
theorem Posting.awake (posting : Posting inner loss inner' gain)
    (ledger : Ledger inner (rest + loss)) (awake : Awake inner (rest + loss)) :
    Awake inner' (rest + gain) := by
  cases posting
  case endAdmission id ws present blocked =>
    intro running other found there admitted
    have apart : other ≠ id := by
      rintro rfl
      obtain rfl : ws = found := Option.some.inj (present.symm.trans there)
      exact absurd admitted (Bool.eq_false_iff.mp (blocked running))
    have held := awake running other found there admitted
    simp only [Multiset.mem_add, Multiset.mem_singleton, Holding.pump.injEq, apart, or_false,
      reduceCtorEq] at held
    rw [add_zero]
    exact held
  case take id ws head tail processes present queue lets slot =>
    have capacity : processes.capacity = inner.processes.capacity ∧
        inner.processes.inUse ≤ processes.inUse := by
      split_ifs at slot
      · obtain ⟨_, rfl⟩ := ProcessLimit.tryAcquire_eq_some.mp slot
        exact ⟨rfl, Nat.le_succ _⟩
      · rw [slot]
        exact ⟨rfl, le_rfl⟩
    intro running other found there admitted
    by_cases same : other = id
    · subst same
      exact .inl (Multiset.mem_add.mpr (.inr (Multiset.mem_add.mpr (.inl
        (Multiset.mem_singleton_self _)))))
    · have old := (admissible_put (ws.take head tail) present there).resolve_left
        fun here => same here.1
      have before := Inner.admits_of_more_in_use capacity.1 capacity.2 admitted
      have held := awake running other found old before
      simp only [Multiset.mem_add, Multiset.mem_singleton, Holding.pump.injEq, same, or_false,
        reduceCtorEq] at held ⊢
      exact held
  case snapshot todo covers =>
    intro running id ws present admitted
    have busy : ws.isIdle = false := Bool.eq_false_iff.mpr fun idle =>
      Inner.queue_of_admits admitted (Workspace.isIdle_iff.mp idle).1
    have member := covers id (List.mem_map_of_mem (ledger.mapped.busy id ws present busy))
    exact .inl (Multiset.mem_add.mpr (.inr (mem_pumps.mpr member)))
  case complete id ws waiting present =>
    refine awake.keep (fun running => running) (fun _ => ?_) ?_ fun other found there admitted => ?_
    · simp only [Multiset.mem_singleton, reduceCtorEq, not_false_eq_true]
    · simp only [Multiset.mem_singleton, reduceCtorEq, not_false_eq_true]
    · -- a freed slot owes every workspace a try, and otherwise only this one has changed
      by_cases released : ws.holdsProcess waiting.dispatch = true
      · rw [if_pos released]
        exact .inl (.inr (Multiset.mem_add.mpr (.inr (Multiset.mem_singleton_self _))))
      · rcases admissible_put (ws.remove waiting.dispatch) present there with ⟨rfl, _⟩ | old
        · rw [if_neg released]
          exact .inl (.inl (Multiset.mem_add.mpr (.inr (Multiset.mem_singleton_self _))))
        · refine .inr ⟨found, old, ?_⟩
          refine Inner.admits_of_more_in_use ?_ ?_ admitted <;>
            rw [Inner.remove, if_neg released]
  case enqueue id ws waiting present =>
    refine awake.keep (fun running => running) (fun _ => ?_) ?_ fun other found there admitted => ?_
    · exact notMem_submission fun _ _ _ => ⟨nofun, nofun, nofun⟩
    · exact notMem_submission fun _ _ _ => ⟨nofun, nofun, nofun⟩
    · rcases admissible_put _ present there with ⟨rfl, _⟩ | old
      · exact .inl (.inl (Multiset.mem_add.mpr (.inr (Multiset.mem_singleton_self _))))
      · exact .inr ⟨found, old, admitted⟩
  case sweep id ws matching present =>
    refine awake.keep (fun running => running) (fun _ => Multiset.notMem_zero _)
      (Multiset.notMem_zero _) fun other found there admitted => ?_
    rcases admissible_put (ws.sweep matching) present there with ⟨rfl, _⟩ | old
    · exact .inl (.inl (Multiset.mem_add.mpr (.inl (Multiset.mem_singleton_self _))))
    · exact .inr ⟨found, old, admitted⟩
  case create key absent =>
    refine awake.keep (fun running => running) (fun _ => Multiset.notMem_zero _)
      (Multiset.notMem_zero _) fun other found there admitted => .inr ?_
    rcases Nat.lt_or_ge other inner.objects.length with old | beyond
    · rw [Inner.create, List.getElem?_append_left old] at there
      exact ⟨found, there, admitted⟩
    · rw [Inner.create, List.getElem?_append_right beyond] at there
      have new := List.mem_singleton.mp (List.mem_of_getElem? there)
      subst new
      exact absurd rfl (Inner.queue_of_admits admitted)
  case join key id ws found present =>
    exact awake.keep (fun running => running) (fun _ => Multiset.notMem_zero _)
      (Multiset.notMem_zero _) fun other found there admitted =>
        .inr (admissible_untouched { ws with waiting := ws.waiting + 1 } present rfl rfl there admitted)
  case leaveRoom id ws waiting present stopping =>
    refine awake.keep (fun running => running) (fun _ => ?_) ?_ fun other found there admitted =>
        .inr (admissible_untouched { ws with waiting := ws.waiting - 1 } present rfl rfl there admitted)
    · exact notMem_submission fun _ _ _ => ⟨nofun, nofun, nofun⟩
    · exact notMem_submission fun _ _ _ => ⟨nofun, nofun, nofun⟩
  case shut running =>
    intro running
    contradiction
  all_goals
    exact awake.keep (fun running => running)
      (by simp only [Multiset.mem_singleton, Multiset.notMem_zero, reduceCtorEq, not_false_eq_true,
        implies_true])
      (by simp only [Multiset.mem_singleton, Multiset.notMem_zero, reduceCtorEq, not_false_eq_true])
      fun id ws present admitted => .inr ⟨ws, present, admitted⟩

/-- Whether a thread is outside every section of the scheduler: back with its caller, in the
executor, or waiting for room or for the workers without a lock. -/
def Pc.outside : Pc → Bool
  | executing _ _ | parked _ _ | waitingIdle _ | replied _ => true
  | _ => false

theorem Pc.no_pump {pc : Pc} (outside : pc.outside = true) :
    (∀ id, Holding.pump id ∉ pc.holdings) ∧ Holding.pumpAll ∉ pc.holdings := by
  cases pc <;> simp only [Pc.outside, Bool.false_eq_true] at outside
  case parked id waiting =>
    exact ⟨fun _ => notMem_submission fun _ _ _ => ⟨nofun, nofun, nofun⟩,
      notMem_submission fun _ _ _ => ⟨nofun, nofun, nofun⟩⟩
  case replied reply =>
    cases reply <;> simp only [holdings, Multiset.mem_singleton, Multiset.notMem_zero, reduceCtorEq,
      not_false_eq_true, implies_true, and_self]
  all_goals simp only [holdings, Multiset.mem_singleton, reduceCtorEq, not_false_eq_true,
    implies_true, and_self]

namespace Scheduler

variable {state : Scheduler}

theorem awake (reachable : machine.Reachable state) : Awake state.inner state.holdings := by
  refine reachable.invariant_of (P := fun state : Scheduler => Awake state.inner state.holdings)
    (fun state => ledger) ?_ ?_
  · rintro state ⟨processes, rfl⟩ _ id ws present
    exact absurd present (Option.some_ne_none ws).symm
  · intro state action next ledger awake step
    obtain ⟨rest, loss, gain, posting, before, after⟩ := step_posts step
    rw [before] at ledger awake
    rw [after]
    exact posting.awake ledger awake

theorem mem_holdings {holding : Holding} :
    holding ∈ state.holdings ↔ ∃ pc ∈ state.threads, holding ∈ pc.holdings := by
  unfold holdings
  induction state.threads with
  | nil => simp only [List.total_nil, Multiset.notMem_zero, List.not_mem_nil, false_and, exists_false]
  | cons pc threads ih =>
    simp only [List.total_cons, Multiset.mem_add, List.mem_cons, exists_eq_or_imp, ih]

/-- With every thread outside the scheduler's sections and no shutdown, no queue has a head that
its workspace and the process limit would admit. -/
theorem no_lost_wakeup (reachable : machine.Reachable state)
    (running : state.inner.shuttingDown = false)
    (outside : ∀ pc ∈ state.threads, pc.outside = true) :
    ∀ (id : WorkspaceId) (ws : Workspace), state.inner.objects[id]? = some ws →
      state.inner.admits ws = false := by
  intro id ws present
  refine Bool.eq_false_iff.mpr fun admitted => ?_
  rcases awake reachable running id ws present admitted with pump | pumpAll
  · obtain ⟨pc, member, holds⟩ := mem_holdings.mp pump
    exact (Pc.no_pump (outside pc member)).1 id holds
  · obtain ⟨pc, member, holds⟩ := mem_holdings.mp pumpAll
    exact (Pc.no_pump (outside pc member)).2 holds

theorem no_lost_wakeup_sample : ∃ state, sample = some state ∧
    (∃ ws, state.inner.objects[0]? = some ws ∧ ws.queue ≠ []) ∧
    ∀ (id : WorkspaceId) (ws : Workspace), state.inner.objects[id]? = some ws →
      state.inner.admits ws = false :=
  ⟨sample.get sample_isSome, (Option.some_get _).symm, ⟨_, rfl, by decide⟩,
    no_lost_wakeup (sample_reachable (Option.some_get _).symm) (by decide) (by decide)⟩

end Scheduler

end Harkness.Runtime.Schedule
