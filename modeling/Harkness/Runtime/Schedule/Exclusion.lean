import Harkness.Runtime.Schedule.Ledger

/-! # One mutation, or a few reads, per workspace

The running set of one workspace object is exclusive because `admit` tests it before it inserts.
That the calls of one key are exclusive needs the map too: `forget_idle` may drop an object and a
later submission create another for the same key, but two objects of one key never both run calls.
-/

namespace Harkness.Runtime.Schedule

/-- Nothing, one mutating call alone, or read-only calls within the limit. -/
def Exclusive (running : List Running) : Prop :=
  running = [] ∨ (∃ call, running = [call] ∧ call.mutating = true) ∨
    (∀ call ∈ running, call.mutating = false) ∧ running.length ≤ workspaceReadConcurrency

/-- The calls running for a key, over every object there has been for it. -/
def Inner.runningFor (inner : Inner) (key : WorkspaceKey) : List Running :=
  inner.objects.flatMap fun ws => if ws.key = key then ws.running.map Prod.snd else []

theorem Exclusive.sublist {running fewer : List Running} (exclusive : Exclusive running)
    (sublist : fewer.Sublist running) : Exclusive fewer := by
  rcases exclusive with rfl | ⟨call, rfl, mutating⟩ | ⟨reads, few⟩
  · exact .inl (List.sublist_nil.mp sublist)
  · rcases List.sublist_singleton.mp sublist with rfl | rfl
    · exact .inl rfl
    · exact .inr (.inl ⟨call, rfl, mutating⟩)
  · exact .inr (.inr ⟨fun call member => reads call (sublist.subset member),
      sublist.length_le.trans few⟩)

/-- Two entries of an exclusive set are both reads. -/
theorem Exclusive.reads_of_pair {running : List Running} {first second : Running}
    {others : Multiset Running} (exclusive : Exclusive running)
    (pair : (running : Multiset Running) = first ::ₘ second ::ₘ others) :
    first.mutating = false ∧ second.mutating = false := by
  rcases exclusive with rfl | ⟨call, rfl, _⟩ | ⟨reads, _⟩
  · exact absurd pair.symm (Multiset.cons_ne_zero)
  · have size := congrArg Multiset.card pair
    simp only [Multiset.coe_card, List.length_singleton, Multiset.card_cons] at size
    omega
  · have member : ∀ call, call ∈ running ↔ call = first ∨ call = second ∨ call ∈ others := by
      intro call
      rw [← Multiset.mem_coe, pair, Multiset.mem_cons, Multiset.mem_cons]
    exact ⟨reads first ((member first).mpr (.inl rfl)),
      reads second ((member second).mpr (.inr (.inl rfl)))⟩

namespace Workspace

/-- The admission test keeps the running set exclusive. -/
theorem exclusive_take {ws : Workspace} {head : Waiting} {tail : List Waiting}
    (lets : ws.lets head = true) : Exclusive ((ws.take head tail).running.map Prod.snd) := by
  rw [take, insertRunning, List.map_cons]
  simp only [Workspace.lets] at lets
  split_ifs at lets with mutates
  · rw [List.isEmpty_iff.mp lets]
    exact .inr (.inl ⟨_, rfl, mutates⟩)
  · rw [Bool.not_eq_true', Bool.or_eq_false_iff, decide_eq_false_iff_not, not_le] at lets
    obtain ⟨still, room⟩ := lets
    have reads : ∀ entry ∈ ws.running, entry.2.mutating = false := by
      intro entry member
      exact Bool.eq_false_iff.mpr (List.any_eq_false.mp still entry member)
    have all : ws.reads = ws.running.length := by
      refine congrArg List.length (List.filter_eq_self.mpr fun entry member => ?_)
      rw [reads entry member]
      rfl
    refine .inr (.inr ⟨?_, ?_⟩)
    · intro call member
      rcases List.mem_cons.mp member with rfl | member
      · exact Bool.eq_false_iff.mpr mutates
      · obtain ⟨entry, kept, rfl⟩ := List.mem_map.mp member
        exact reads entry (List.mem_filter.mp kept).1
    · rw [List.length_cons, List.length_map]
      have fewer := List.length_filter_le (fun entry : Dispatch × Running =>
        entry.1 != head.dispatch) ws.running
      omega

theorem exclusive_remove {ws : Workspace} (dispatch : Dispatch)
    (exclusive : Exclusive (ws.running.map Prod.snd)) :
    Exclusive ((ws.remove dispatch).running.map Prod.snd) :=
  exclusive.sublist (List.filter_sublist.map Prod.snd)

end Workspace

variable {inner inner' : Inner} {held loss gain : Multiset Holding} {id : WorkspaceId}
  {ws : Workspace}

/-- Every object's running set is exclusive. -/
def Inner.Exclusive (inner : Inner) : Prop :=
  ∀ ws ∈ inner.objects, Schedule.Exclusive (ws.running.map Prod.snd)

private theorem exclusive_put (exclusive : inner.Exclusive) (ws' : Workspace)
    (kept : Exclusive (ws'.running.map Prod.snd)) : (inner.put id ws').Exclusive := by
  intro found member
  rcases List.mem_or_eq_of_mem_set member with old | rfl
  · exact exclusive found old
  · exact kept

theorem Posting.exclusive (posting : Posting inner loss inner' gain) (exclusive : inner.Exclusive) :
    inner'.Exclusive := by
  -- the sections that leave a running set alone differ in the rest of the object only
  have untouched : ∀ {id} {ws ws' : Workspace}, inner.objects[id]? = some ws →
      ws'.running = ws.running → (inner.put id ws').Exclusive := by
    intro id ws ws' present same
    refine exclusive_put exclusive ws' ?_
    rw [same]
    exact exclusive ws (List.mem_of_getElem? present)
  cases posting
  case join key id ws found present => exact untouched present rfl
  case leaveRoom id ws waiting present stopping => exact untouched present rfl
  case enqueue id ws waiting present => exact untouched present rfl
  case sweep id ws matching present => exact untouched present rfl
  case create key absent =>
    intro found member
    rcases List.mem_append.mp member with there | new
    · exact exclusive found there
    · rw [List.mem_singleton.mp new]
      exact .inl rfl
  case take id ws head tail processes present queue lets slot =>
    exact exclusive_put exclusive _ (Workspace.exclusive_take lets)
  case complete id ws waiting present =>
    exact exclusive_put exclusive _ (Workspace.exclusive_remove waiting.dispatch
      (exclusive ws (List.mem_of_getElem? present)))
  all_goals exact exclusive

theorem Scheduler.exclusive {state : Scheduler} (reachable : machine.Reachable state) :
    state.inner.Exclusive := by
  refine reachable.invariant (P := fun state : Scheduler => state.inner.Exclusive) ?_ ?_
  · rintro state ⟨processes, rfl⟩ ws member
    exact absurd member List.not_mem_nil
  · intro state action next exclusive step
    obtain ⟨rest, loss, gain, posting, _, _⟩ := Scheduler.step_posts step
    exact posting.exclusive exclusive

/-- Two objects of one key do not both have something to do. -/
theorem Mapped.unique (mapped : Mapped inner) {other : WorkspaceId} {ws' : Workspace}
    (present : inner.objects[id]? = some ws) (there : inner.objects[other]? = some ws')
    (busy : ws.isIdle = false) (working : ws'.isIdle = false) (key : ws.key = ws'.key) :
    id = other := by
  have first := mapped.busy id ws present busy
  have second := mapped.busy other ws' there working
  rw [← key] at second
  exact (Prod.ext_iff.mp (List.inj_on_of_nodup_map mapped.keys first second rfl)).2

private theorem busy_of_running (running : ws.running ≠ []) : ws.isIdle = false := by
  exact Bool.eq_false_iff.mpr fun idle => running (Workspace.isIdle_iff.mp idle).2.1

/-- The calls of a key run in one object. -/
theorem Mapped.runningFor_eq (mapped : Mapped inner) (present : inner.objects[id]? = some ws)
    (running : ws.running ≠ []) : inner.runningFor ws.key = ws.running.map Prod.snd := by
  have alone : ∀ other found, inner.objects[other]? = some found → other ≠ id →
      (if found.key = ws.key then found.running.map Prod.snd else []) = [] := by
    intro other found there apart
    split_ifs with same
    · by_contra some
      have working := busy_of_running fun none => some (by rw [none, List.map_nil])
      exact apart (mapped.unique there present working (busy_of_running running) same)
    · rfl
  have flat := List.flatMap_eq_of_getElem? (fun found : Workspace =>
    if found.key = ws.key then found.running.map Prod.snd else []) present alone
  rw [Inner.runningFor, flat, if_pos rfl]

theorem Mapped.exclusive_runningFor (mapped : Mapped inner) (exclusive : inner.Exclusive)
    (key : WorkspaceKey) : Exclusive (inner.runningFor key) := by
  by_cases idle : ∀ ws ∈ inner.objects, ws.key = key → ws.running = []
  · refine .inl (List.flatMap_eq_nil_iff.mpr fun ws member => ?_)
    split_ifs with same
    · rw [idle ws member same, List.map_nil]
    · rfl
  · simp only [not_forall] at idle
    obtain ⟨ws, member, rfl, running⟩ := idle
    obtain ⟨id, present⟩ := List.getElem?_of_mem member
    rw [mapped.runningFor_eq present running]
    exact exclusive ws member

/-- A worker thread is running a call of a key. -/
def Scheduler.Executes (state : Scheduler) (key : WorkspaceKey) (thread : ℕ) (waiting : Waiting) :
    Prop :=
  ∃ id ws, state.threads[thread]? = some (.executing id waiting) ∧
    state.inner.objects[id]? = some ws ∧ ws.key = key

variable {state : Scheduler} {waiting : Waiting}

private theorem entry_mem (ledger : Ledger state.inner state.holdings) {thread : ℕ}
    (executes : state.threads[thread]? = some (.executing id waiting))
    (present : state.inner.objects[id]? = some ws) : waiting.entry ∈ ws.running := by
  obtain ⟨others, split⟩ := List.exists_total_eq_add Pc.holdings executes
  have running := ledger.running id
  rw [Inner.runningAt_eq present, Scheduler.holdings, split, Multiset.add_bind] at running
  rw [← Multiset.mem_coe, running, Pc.holdings, Multiset.singleton_bind, Holding.activeAt, if_pos rfl]
  refine Multiset.mem_map_of_mem _ (Multiset.mem_add.mpr (.inl ?_))
  exact Multiset.mem_singleton_self waiting

private theorem entries_mem (ledger : Ledger state.inner state.holdings) {first second : ℕ}
    {a b : Waiting} (apart : first ≠ second)
    (left : state.threads[first]? = some (.executing id a))
    (right : state.threads[second]? = some (.executing id b))
    (present : state.inner.objects[id]? = some ws) :
    ∃ others, (ws.running : Multiset (Dispatch × Running)) = a.entry ::ₘ b.entry ::ₘ others := by
  obtain ⟨others, split⟩ := List.exists_total_eq_add_add Pc.holdings left right apart
  have running := ledger.running id
  rw [Inner.runningAt_eq present, Scheduler.holdings, split, Multiset.add_bind,
    Multiset.add_bind] at running
  refine ⟨(others.bind (Holding.activeAt id)).map Waiting.entry, ?_⟩
  rw [running, Pc.holdings, Pc.holdings, Multiset.singleton_bind, Multiset.singleton_bind,
    Holding.activeAt, Holding.activeAt, if_pos rfl, if_pos rfl, Multiset.map_add, Multiset.map_add,
    Multiset.map_singleton, Multiset.map_singleton, add_assoc, Multiset.singleton_add,
    Multiset.singleton_add]

/-- In every reachable state the calls of a key are exclusive: those with a running entry, and so
those a worker is executing. -/
theorem workspace_exclusive (reachable : Scheduler.machine.Reachable state) (key : WorkspaceKey) :
    Exclusive (state.inner.runningFor key) ∧
      (∀ thread waiting, state.Executes key thread waiting →
        waiting.running ∈ state.inner.runningFor key) ∧
      ∀ first second a b, first ≠ second → state.Executes key first a →
        state.Executes key second b →
          a.risk.mutatesState = false ∧ b.risk.mutatesState = false := by
  have ledger := Scheduler.ledger reachable
  have exclusive := Scheduler.exclusive reachable
  refine ⟨ledger.mapped.exclusive_runningFor exclusive key, ?_, ?_⟩
  · rintro thread waiting ⟨id, ws, executes, present, rfl⟩
    have member := entry_mem ledger executes present
    rw [ledger.mapped.runningFor_eq present (List.ne_nil_of_mem member)]
    exact List.mem_map_of_mem member
  · rintro first second a b apart ⟨id, ws, left, present, rfl⟩ ⟨other, ws', right, there, key⟩
    have busy := busy_of_running (List.ne_nil_of_mem (entry_mem ledger left present))
    have working := busy_of_running (List.ne_nil_of_mem (entry_mem ledger right there))
    obtain rfl := ledger.mapped.unique present there busy working key.symm
    obtain ⟨others, pair⟩ := entries_mem ledger apart left right present
    have calls : (ws.running.map Prod.snd : Multiset Running) =
        a.running ::ₘ b.running ::ₘ others.map Prod.snd := by
      rw [← Multiset.map_coe, pair, Multiset.map_cons, Multiset.map_cons]
      rfl
    exact (exclusive ws (List.mem_of_getElem? present)).reads_of_pair calls

theorem workspace_exclusive_sample : ∃ state, Scheduler.sample = some state ∧
    (state.inner.runningFor ⟨0, ["work"]⟩).length = 1 ∧
    (Exclusive (state.inner.runningFor ⟨0, ["work"]⟩) ∧
      (∀ thread waiting, state.Executes ⟨0, ["work"]⟩ thread waiting →
        waiting.running ∈ state.inner.runningFor ⟨0, ["work"]⟩) ∧
      ∀ first second a b, first ≠ second → state.Executes ⟨0, ["work"]⟩ first a →
        state.Executes ⟨0, ["work"]⟩ second b →
          a.risk.mutatesState = false ∧ b.risk.mutatesState = false) :=
  ⟨Scheduler.sample.get Scheduler.sample_isSome, (Option.some_get _).symm, by decide,
    workspace_exclusive (Scheduler.sample_reachable (Option.some_get _).symm) ⟨0, ["work"]⟩⟩

end Harkness.Runtime.Schedule
