import Harkness.Runtime.Schedule.Exclusion
import Harkness.Runtime.Schedule.Stop
import Harkness.Runtime.Schedule.WakeUp

/-! # The order of one workspace's calls

The histories tell which calls were enqueued for a key and which were admitted, over every object
there has been for it. What was admitted, followed by what is queued, is always a part of what was
enqueued, in its order. A stop filters queues, and pumps each workspace it swept before it returns:
a survivor that its workspace alone would let through stays so until it is admitted or another stop
sweeps it, since a running set gains only what was ahead of it.
-/

namespace Harkness.Runtime.Schedule

/-- The calls a history has for a key, over every object there has been for it. -/
def Inner.callsFor (inner : Inner) (history : List (WorkspaceId × Waiting)) (key : WorkspaceKey) :
    List Waiting :=
  (history.filter fun entry => (inner.objects[entry.1]?).map Workspace.key == some key).map Prod.snd

/-- What was admitted for a key, then what is queued for it, is a part of what was enqueued. -/
structure InOrder (inner : Inner) : Prop where
  enqueued : ∀ entry ∈ inner.accepted, entry.1 < inner.objects.length
  taken : ∀ entry ∈ inner.admitted, entry.1 < inner.objects.length
  order : ∀ (id : WorkspaceId) (ws : Workspace), inner.objects[id]? = some ws →
    (inner.callsFor inner.admitted ws.key ++ ws.queue).Sublist
      (inner.callsFor inner.accepted ws.key)

variable {inner inner' : Inner} {rest loss gain : Multiset Holding} {id : WorkspaceId}
  {ws ws' : Workspace} {waiting : Waiting} {pc pc' : Pc} {spawned : List Pc}
  {contended : List WorkspaceId} {history : List (WorkspaceId × Waiting)} {key : WorkspaceKey}

namespace Inner

/-- A history is told apart by the keys of the objects alone. -/
theorem callsFor_congr (keys : inner'.objects.map Workspace.key = inner.objects.map Workspace.key) :
    inner'.callsFor = inner.callsFor := by
  funext history key
  unfold callsFor
  simp only [← List.getElem?_map, keys]

theorem keys_put (ws' : Workspace) (present : inner.objects[id]? = some ws) (same : ws'.key = ws.key) :
    (inner.put id ws').objects.map Workspace.key = inner.objects.map Workspace.key := by
  refine List.ext_getElem? fun other => ?_
  rw [List.getElem?_map, List.getElem?_map, objects_put ws' present]
  split_ifs with here
  · rw [here, present, Option.map_some, Option.map_some, same]
  · rfl

/-- One more entry counts for the key of its object, and for no other. -/
theorem callsFor_concat (present : inner.objects[id]? = some ws) :
    inner.callsFor (history ++ [(id, waiting)]) key =
      inner.callsFor history key ++ if ws.key = key then [waiting] else [] := by
  unfold callsFor
  rw [List.filter_append, List.map_append]
  by_cases same : ws.key = key
  · simp only [present, Option.map_some, same, List.filter_cons, beq_self_eq_true, if_true,
      List.filter_nil, List.map_cons, List.map_nil]
  · have other : (some ws.key == some key) = false :=
      beq_eq_false_iff_ne.mpr fun equal => same (Option.some.inj equal)
    simp only [present, Option.map_some, other, same, List.filter_cons, Bool.false_eq_true, if_false,
      List.filter_nil, List.map_nil]

/-- A new object adds nothing to a history of the old ones. -/
theorem callsFor_create (bounded : ∀ entry ∈ history, entry.1 < inner.objects.length)
    (fresh : WorkspaceKey) : (inner.create fresh).callsFor history key = inner.callsFor history key := by
  unfold callsFor
  congr 1
  refine List.filter_congr fun entry member => ?_
  rw [create, List.getElem?_append_left (bounded entry member)]

theorem callsFor_eq_nil (unknown : ∀ ws ∈ inner.objects, ws.key ≠ key) :
    inner.callsFor history key = [] := by
  refine List.map_eq_nil_iff.mpr (List.filter_eq_nil_iff.mpr fun entry _ same => ?_)
  obtain ⟨ws, present, named⟩ := Option.map_eq_some_iff.mp (beq_iff_eq.mp same)
  exact unknown ws (List.mem_of_getElem? present) named

end Inner

namespace InOrder

theorem admitted_sublist (order : InOrder inner) (key : WorkspaceKey) :
    (inner.callsFor inner.admitted key).Sublist (inner.callsFor inner.accepted key) := by
  by_cases known : ∃ ws ∈ inner.objects, ws.key = key
  · obtain ⟨ws, member, rfl⟩ := known
    obtain ⟨id, present⟩ := List.mem_iff_getElem?.mp member
    exact (List.sublist_append_left _ _).trans (order.order id ws present)
  · rw [Inner.callsFor_eq_nil fun ws member named => known ⟨ws, member, named⟩]
    exact List.nil_sublist _

/-- Where queues at most lose calls and the histories stay, the order stays. -/
theorem keep (order : InOrder inner)
    (keys : inner'.objects.map Workspace.key = inner.objects.map Workspace.key)
    (accepted : inner'.accepted = inner.accepted) (admitted : inner'.admitted = inner.admitted)
    (queues : ∀ (id : WorkspaceId) (ws' : Workspace), inner'.objects[id]? = some ws' →
      ∃ ws, inner.objects[id]? = some ws ∧ ws.key = ws'.key ∧ ws'.queue.Sublist ws.queue) :
    InOrder inner' := by
  have size : inner'.objects.length = inner.objects.length := by
    rw [← List.length_map Workspace.key, keys, List.length_map]
  refine ⟨?_, ?_, fun id ws' there => ?_⟩
  · rw [accepted, size]
    exact order.enqueued
  · rw [admitted, size]
    exact order.taken
  · obtain ⟨ws, present, named, fewer⟩ := queues id ws' there
    rw [Inner.callsFor_congr keys, accepted, admitted, ← named]
    exact (List.Sublist.append_left fewer _).trans (order.order id ws present)

/-- A change to one object that keeps its key and at most shortens its queue keeps the order. -/
theorem put (order : InOrder inner) (ws' : Workspace) (present : inner.objects[id]? = some ws)
    (objects : inner'.objects = (inner.put id ws').objects) (named : ws'.key = ws.key)
    (queue : ws'.queue.Sublist ws.queue) (accepted : inner'.accepted = inner.accepted)
    (admitted : inner'.admitted = inner.admitted) : InOrder inner' := by
  refine order.keep ?_ accepted admitted fun other found there => ?_
  · rw [objects, Inner.keys_put ws' present named]
  · rw [objects, Inner.objects_put ws' present] at there
    split_ifs at there with here
    · cases there
      exact ⟨ws, here ▸ present, named.symm, queue⟩
    · exact ⟨found, there, rfl, List.Sublist.refl _⟩

theorem create (order : InOrder inner) (fresh : WorkspaceKey) : InOrder (inner.create fresh) where
  enqueued entry member := (order.enqueued entry member).trans_le
    (List.length_append ▸ Nat.le_add_right _ _)
  taken entry member := (order.taken entry member).trans_le
    (List.length_append ▸ Nat.le_add_right _ _)
  order id ws there := by
    change ((inner.create fresh).callsFor inner.admitted ws.key ++ ws.queue).Sublist
      ((inner.create fresh).callsFor inner.accepted ws.key)
    rw [Inner.callsFor_create order.taken, Inner.callsFor_create order.enqueued]
    rcases Nat.lt_or_ge id inner.objects.length with old | beyond
    · rw [Inner.create, List.getElem?_append_left old] at there
      exact order.order id ws there
    · rw [Inner.create, List.getElem?_append_right beyond] at there
      obtain rfl := List.mem_singleton.mp (List.mem_of_getElem? there)
      rw [Workspace.create, List.append_nil]
      exact order.admitted_sublist fresh

theorem enqueue (order : InOrder inner) (present : inner.objects[id]? = some ws) (waiting : Waiting) :
    InOrder (inner.enqueue id ws waiting) := by
  obtain ⟨bound, _⟩ := List.getElem?_eq_some_iff.mp present
  have keys : (inner.enqueue id ws waiting).objects.map Workspace.key =
      inner.objects.map Workspace.key := Inner.keys_put _ present rfl
  have size : (inner.enqueue id ws waiting).objects.length = inner.objects.length :=
    List.length_set
  refine ⟨fun entry member => ?_, ?_, fun other found there => ?_⟩
  · rw [size]
    rcases List.mem_append.mp member with old | new
    · exact order.enqueued entry old
    · rw [List.mem_singleton.mp new]
      exact bound
  · rw [size]
    exact order.taken
  · rw [Inner.callsFor_congr keys]
    change (inner.callsFor inner.admitted found.key ++ found.queue).Sublist
      (inner.callsFor (inner.accepted ++ [(id, waiting)]) found.key)
    rw [Inner.callsFor_concat present]
    change (inner.put id _).objects[other]? = some found at there
    rw [Inner.objects_put _ present] at there
    split_ifs at there with here
    · cases there
      rw [if_pos rfl, ← List.append_assoc]
      exact List.Sublist.append_right (order.order id ws present) [waiting]
    · exact (order.order other found there).trans (List.sublist_append_left _ _)

/-- No other object of the key has a queue, so what is taken was the first of the key's calls. -/
theorem take (order : InOrder inner) (mapped : Mapped inner) (present : inner.objects[id]? = some ws)
    {head : Waiting} {tail : List Waiting} (queue : ws.queue = head :: tail)
    (processes : ProcessLimit) : InOrder (inner.take id ws head tail processes) := by
  obtain ⟨bound, _⟩ := List.getElem?_eq_some_iff.mp present
  have keys : (inner.take id ws head tail processes).objects.map Workspace.key =
      inner.objects.map Workspace.key := Inner.keys_put (ws.take head tail) present rfl
  have size : (inner.take id ws head tail processes).objects.length = inner.objects.length :=
    List.length_set
  have whole := order.order id ws present
  rw [queue] at whole
  refine ⟨?_, fun entry member => ?_, fun other found there => ?_⟩
  · rw [size]
    exact order.enqueued
  · rw [size]
    rcases List.mem_append.mp member with old | new
    · exact order.taken entry old
    · rw [List.mem_singleton.mp new]
      exact bound
  · rw [Inner.callsFor_congr keys]
    change (inner.callsFor (inner.admitted ++ [(id, head)]) found.key ++ found.queue).Sublist
      (inner.callsFor inner.accepted found.key)
    rw [Inner.callsFor_concat present, List.append_assoc]
    change (inner.put id (ws.take head tail)).objects[other]? = some found at there
    rw [Inner.objects_put _ present] at there
    split_ifs at there with here
    · cases there
      have named : ws.key = (ws.take head tail).key := rfl
      rw [if_pos named]
      exact whole
    · split_ifs with same
      · have busy : ws.isIdle = false := Bool.eq_false_iff.mpr fun idle => by
          rw [(Workspace.isIdle_iff.mp idle).1] at queue
          contradiction
        have empty : found.queue = [] := by
          by_contra some
          have working : found.isIdle = false :=
            Bool.eq_false_iff.mpr fun idle => some (Workspace.isIdle_iff.mp idle).1
          exact here (mapped.unique present there busy working same).symm
        rw [empty, ← same]
        refine List.Sublist.trans (List.Sublist.append_left ?_ _) whole
        exact List.Sublist.cons_cons head (List.nil_sublist tail)
      · exact order.order other found there

end InOrder

/-- The step lemma of the order. -/
theorem Posting.inOrder (posting : Posting inner loss inner' gain)
    (mapped : Mapped inner) (order : InOrder inner) : InOrder inner' := by
  cases posting
  case enqueue home ws other present => exact order.enqueue present other
  case take home ws head tail processes present queue lets slot =>
    exact order.take mapped present queue processes
  case create key absent => exact order.create key
  case join key home ws found present =>
    exact order.put { ws with waiting := ws.waiting + 1 } present rfl rfl (List.Sublist.refl _) rfl rfl
  case leaveRoom home ws other present stopping =>
    exact order.put { ws with waiting := ws.waiting - 1 } present rfl rfl (List.Sublist.refl _) rfl rfl
  case complete home ws other present =>
    exact order.put (ws.remove other.dispatch) present rfl rfl (List.Sublist.refl _) rfl rfl
  case sweep home ws matching present =>
    exact order.put (ws.sweep matching) present rfl rfl List.filter_sublist rfl rfl
  all_goals
    exact order.keep rfl rfl rfl fun id ws there => ⟨ws, there, rfl, List.Sublist.refl _⟩

/-- The history of admission only grows. -/
theorem Posting.admitted (posting : Posting inner loss inner' gain) :
    inner.admitted <+: inner'.admitted := by
  cases posting
  case take home ws head tail processes present queue lets slot => exact List.prefix_append _ _
  all_goals exact List.prefix_rfl

namespace Workspace

/-- Fewer running calls let through no less. -/
theorem lets_of_sublist {head : Waiting} (fewer : ws'.running.Sublist ws.running)
    (lets : ws.lets head = true) : ws'.lets head = true := by
  unfold Workspace.lets at lets ⊢
  split_ifs at lets ⊢ with mutates
  · rw [List.isEmpty_iff] at lets ⊢
    exact List.sublist_nil.mp (lets ▸ fewer)
  · rw [Bool.not_eq_true', Bool.or_eq_false_iff, decide_eq_false_iff_not, not_le] at lets ⊢
    obtain ⟨still, few⟩ := lets
    refine ⟨?_, lt_of_le_of_lt (fewer.filter _).length_le few⟩
    rw [Workspace.mutating, List.any_eq_false] at still ⊢
    exact fun entry member => still entry (fewer.subset member)

/-- The calls of a queue that the workspace alone would let through, one after another. -/
def letsThrough : Workspace → List Waiting → List Waiting
  | _, [] => []
  | ws, head :: rest =>
    if ws.lets head then head :: letsThrough { ws with running := head.entry :: ws.running } rest
    else []

theorem mem_letsThrough_cons {head : Waiting} {tail : List Waiting} :
    waiting ∈ ws.letsThrough (head :: tail) ↔ ws.lets head = true ∧ (waiting = head ∨
      waiting ∈ ({ ws with running := head.entry :: ws.running } : Workspace).letsThrough tail) := by
  rw [letsThrough]
  by_cases lets : ws.lets head = true
  · rw [if_pos lets, List.mem_cons]
    exact (and_iff_right lets).symm
  · rw [if_neg lets]
    exact iff_of_false List.not_mem_nil fun both => lets both.1

theorem letsThrough_of_sublist {queue : List Waiting} (fewer : ws'.running.Sublist ws.running)
    (through : waiting ∈ ws.letsThrough queue) : waiting ∈ ws'.letsThrough queue := by
  induction queue generalizing ws ws' with
  | nil => exact through
  | cons head tail ih =>
    obtain ⟨lets, place⟩ := mem_letsThrough_cons.1 through
    refine mem_letsThrough_cons.2 ⟨lets_of_sublist fewer lets, place.imp_right fun later => ?_⟩
    exact ih (fewer.cons_cons head.entry) later

theorem letsThrough_append {queue more : List Waiting} (through : waiting ∈ ws.letsThrough queue) :
    waiting ∈ ws.letsThrough (queue ++ more) := by
  induction queue generalizing ws with
  | nil => exact absurd through List.not_mem_nil
  | cons head tail ih =>
    obtain ⟨lets, place⟩ := mem_letsThrough_cons.1 through
    exact mem_letsThrough_cons.2 ⟨lets, place.imp_right ih⟩

/-- Taking other calls out of the queue stops none that stays. -/
theorem letsThrough_filter {queue : List Waiting} {kept : Waiting → Bool}
    (through : waiting ∈ ws.letsThrough queue) (stays : kept waiting = true) :
    waiting ∈ ws.letsThrough (queue.filter kept) := by
  induction queue generalizing ws with
  | nil => exact absurd through List.not_mem_nil
  | cons head tail ih =>
    obtain ⟨lets, place⟩ := mem_letsThrough_cons.1 through
    by_cases keeps : kept head = true
    · rw [List.filter_cons_of_pos keeps]
      exact mem_letsThrough_cons.2 ⟨lets, place.imp_right ih⟩
    · rw [List.filter_cons_of_neg keeps]
      rcases place with rfl | later
      · exact absurd stays keeps
      · exact letsThrough_of_sublist (List.sublist_cons_self head.entry ws.running) (ih later)

theorem mem_of_letsThrough {queue : List Waiting} (through : waiting ∈ ws.letsThrough queue) :
    waiting ∈ queue := by
  induction queue generalizing ws with
  | nil => exact through
  | cons head tail ih =>
    obtain ⟨_, place⟩ := mem_letsThrough_cons.1 through
    exact List.mem_cons.mpr (place.imp_right ih)

end Workspace

/-- What one section does to one workspace: it may end calls, a call joins the queue, the head is
taken, or a stop sweeps the queue. -/
inductive Change (pc : Pc) (inner' : Inner) (id : WorkspaceId) (ws : Workspace) : Workspace → Prop
  | still {ws' : Workspace} (queue : ws'.queue = ws.queue)
      (running : ws'.running.Sublist ws.running) : Change pc inner' id ws ws'
  | joined {ws' : Workspace} (last : Waiting) (queue : ws'.queue = ws.queue ++ [last])
      (running : ws'.running = ws.running) : Change pc inner' id ws ws'
  | taken {ws' : Workspace} (head : Waiting) (queue : ws.queue = head :: ws'.queue)
      (running : ws'.running = ws.insertRunning head) (admitted : (id, head) ∈ inner'.admitted) :
      Change pc inner' id ws ws'
  | swept (stop : Stop) (todo : List WorkspaceId) (swept : List (WorkspaceId × List Waiting))
      (here : pc = .sweeping stop (id :: todo) swept) :
      Change pc inner' id ws (ws.sweep stop.matching)

namespace Inner

private theorem change_same (objects : inner'.objects = inner.objects)
    (present : inner.objects[id]? = some ws) :
    ∃ ws', inner'.objects[id]? = some ws' ∧ Change pc inner' id ws ws' :=
  ⟨ws, objects ▸ present, .still rfl (List.Sublist.refl _)⟩

private theorem change_put {home : WorkspaceId} {found changed : Workspace}
    (there : inner.objects[home]? = some found)
    (objects : inner'.objects = (inner.put home changed).objects)
    (own : Change pc inner' home found changed) (present : inner.objects[id]? = some ws) :
    ∃ ws', inner'.objects[id]? = some ws' ∧ Change pc inner' id ws ws' := by
  by_cases same : id = home
  · subst same
    obtain rfl := Option.some.inj (there.symm.trans present)
    exact ⟨changed, by rw [objects, objects_put changed there, if_pos rfl], own⟩
  · refine ⟨ws, ?_, .still rfl (List.Sublist.refl _)⟩
    rw [objects, objects_put changed there, if_neg same, present]

private theorem submitMove_change (present : inner.objects[id]? = some ws)
    (success : inner.submitMove pc = some (inner', pc', spawned)) :
    ∃ ws', inner'.objects[id]? = some ws' ∧ Change pc inner' id ws ws' := by
  cases pc <;> simp only [submitMove, reduceCtorEq] at success
  case submit submission =>
    split_ifs at success <;> cases success <;> exact change_same rfl present
  case claiming submission =>
    split_ifs at success <;> cases success <;> exact change_same rfl present
  case loading submission =>
    split at success <;> cases success <;> exact change_same rfl present
  case refusing call error =>
    cases success
    exact change_same rfl present
  case joining key waiting =>
    split at success
    · obtain ⟨found, free, same⟩ := Option.map_eq_some_iff.mp success
      cases same
      exact change_put (free_eq_some.mp free).2 rfl (.still rfl (List.Sublist.refl _)) present
    · cases success
      obtain ⟨bound, _⟩ := List.getElem?_eq_some_iff.mp present
      refine ⟨ws, ?_, .still rfl (List.Sublist.refl _)⟩
      rw [create, List.getElem?_append_left bound, present]
  case room home waiting =>
    obtain ⟨found, there, same⟩ := Option.map_eq_some_iff.mp success
    split_ifs at same <;> cases same <;> exact change_same rfl present
  case parked home waiting =>
    obtain ⟨found, free, same⟩ := Option.map_eq_some_iff.mp success
    cases same
    exact change_same rfl present
  case entering home waiting =>
    obtain ⟨found, there, same⟩ := Option.map_eq_some_iff.mp success
    split_ifs at same <;> cases same
    · exact change_put there rfl (.still rfl (List.Sublist.refl _)) present
    · exact change_same rfl present
  case pushing home waiting =>
    obtain ⟨found, there, same⟩ := Option.map_eq_some_iff.mp success
    cases same
    exact change_put there rfl (.joined waiting rfl rfl) present

private theorem admitMove_change (present : inner.objects[id]? = some ws)
    (success : inner.admitMove pc = some (inner', pc', spawned)) :
    ∃ ws', inner'.objects[id]? = some ws' ∧ Change pc inner' id ws ws' := by
  cases pc <;> try (simp only [admitMove, reduceCtorEq] at success; done)
  case admitting home ready after =>
    obtain ⟨found, there, same⟩ := Option.map_eq_some_iff.mp success
    split_ifs at same <;> cases same <;> exact change_same rfl present
  case taking home ready after =>
    obtain ⟨found, there, _⟩ := Option.map_eq_some_iff.mp success
    rcases admits_of_admitMove there success with
      ⟨_, rfl, _⟩ | ⟨head, tail, processes, queue, _, _, rfl, _⟩
    · exact change_same rfl present
    · refine change_put there rfl (.taken head queue rfl ?_) present
      exact List.mem_append_right _ (List.mem_singleton_self _)
  case dispatching home ready after =>
    cases ready <;> cases success <;> exact change_same rfl present
  case submitted waiting =>
    simp only [admitMove] at success
    split_ifs at success <;> cases success <;> exact change_same rfl present

private theorem completeMove_change (present : inner.objects[id]? = some ws)
    (success : inner.completeMove contended pc = some (inner', pc', spawned)) :
    ∃ ws', inner'.objects[id]? = some ws' ∧ Change pc inner' id ws ws' := by
  cases pc <;> try (simp only [completeMove, reduceCtorEq] at success; done)
  case completing home ended =>
    obtain ⟨found, free, same⟩ := Option.map_eq_some_iff.mp success
    cases same
    exact change_put (free_eq_some.mp free).2 rfl (.still rfl List.filter_sublist) present
  case pumping todo ended =>
    cases todo with
    | nil =>
      cases success
      exact change_same rfl present
    | cons home todo =>
      obtain ⟨found, _, same⟩ := Option.map_eq_some_iff.mp success
      cases same
      exact change_same rfl present
  all_goals
    cases success
    exact change_same rfl present

private theorem stopMove_change (present : inner.objects[id]? = some ws)
    (success : inner.stopMove contended pc = some (inner', pc', spawned)) :
    ∃ ws', inner'.objects[id]? = some ws' ∧ Change pc inner' id ws ws' := by
  cases pc <;> try (simp only [stopMove, reduceCtorEq] at success; done)
  case shutdown =>
    simp only [stopMove] at success
    split_ifs at success <;> cases success <;> exact change_same rfl present
  case sweeping stop todo swept =>
    cases todo with
    | nil =>
      cases success
      exact change_same rfl present
    | cons home todo =>
      obtain ⟨found, free, same⟩ := Option.map_eq_some_iff.mp success
      cases same
      exact change_put (free_eq_some.mp free).2 rfl (.swept stop todo swept rfl) present
  case settling stop swept =>
    rcases swept with _ | ⟨⟨home, _ | ⟨first, removed⟩⟩, swept⟩
    · cases success
      exact change_same rfl present
    · obtain ⟨found, _, same⟩ := Option.map_eq_some_iff.mp success
      cases same
      exact change_same rfl present
    · cases success
      exact change_same rfl present
  all_goals
    cases success
    exact change_same rfl present

theorem move_change (present : inner.objects[id]? = some ws)
    (moved : inner.move contended pc = some (inner', pc', spawned)) :
    ∃ ws', inner'.objects[id]? = some ws' ∧ Change pc inner' id ws ws' := by
  rcases move_cases moved with submits | admits | completes | stops
  · exact submitMove_change present submits
  · exact admitMove_change present admits
  · exact completeMove_change present completes
  · exact stopMove_change present stops

end Inner

/-- Whether the head of a workspace's queue waits for a process slot, and none is free. -/
def Inner.AwaitsSlot (inner : Inner) (id : WorkspaceId) : Prop :=
  ∃ ws head tail, inner.objects[id]? = some ws ∧ ws.queue = head :: tail ∧
    head.spawnsProcesses = true ∧ inner.processes.tryAcquire = none

/-- A head that the workspace lets through is kept back by the process limit alone. -/
theorem Inner.awaitsSlot (present : inner.objects[id]? = some ws)
    (blocked : inner.admits ws = false) (through : waiting ∈ ws.letsThrough ws.queue) :
    inner.AwaitsSlot id := by
  cases queue : ws.queue with
  | nil =>
    rw [queue] at through
    exact absurd through List.not_mem_nil
  | cons head tail =>
    rw [queue] at through
    have lets := (Workspace.mem_letsThrough_cons.1 through).1
    simp only [admits, queue, lets, Bool.true_and, Bool.or_eq_false_iff, Bool.not_eq_false',
      decide_eq_false_iff_not, not_lt] at blocked
    exact ⟨ws, head, tail, present, queue, blocked.1, ProcessLimit.tryAcquire_eq_none.mpr blocked.2⟩

/-- Whether a thread's stop has swept a workspace and has yet to end an admission of it. -/
def Pc.willPump (id : WorkspaceId) : Pc → Prop
  | sweeping _ _ swept | settling _ swept | unclaiming _ _ swept => id ∈ swept.map Prod.fst
  | admitting home _ after | taking home _ after =>
    ∃ stop swept, after = .settling stop swept ∧ (id = home ∨ id ∈ swept.map Prod.fst)
  | dispatching _ _ after => ∃ stop swept, after = .settling stop swept ∧ id ∈ swept.map Prod.fst
  | _ => False

theorem Pc.not_willPump_of_outside (outside : pc.outside = true) : ¬ pc.willPump id := by
  cases pc <;> simp only [Pc.outside, Bool.false_eq_true] at outside <;> exact fun pumps => pumps

/-- A stop gives up a workspace it swept only by an admission that ends. -/
theorem Pc.willPump_move (pumps : pc.willPump id)
    (moved : inner.move contended pc = some (inner', pc', spawned)) :
    pc'.willPump id ∨ inner' = inner.unlock id ∧ (inner.shuttingDown = true ∨
      ∃ ws, inner.objects[id]? = some ws ∧ inner.admits ws = false) := by
  cases pc <;> simp only [Pc.willPump] at pumps
  case sweeping stop todo swept =>
    cases todo with
    | nil =>
      cases moved
      exact .inl pumps
    | cons home todo =>
      obtain ⟨ws, report, _, _, rfl⟩ := Inner.move_sweeping moved
      refine .inl ?_
      rw [Pc.willPump, List.map_append]
      exact List.mem_append_left _ pumps
  case settling stop swept =>
    rcases swept with _ | ⟨⟨home, _ | ⟨first, removed⟩⟩, swept⟩
    · exact absurd pumps List.not_mem_nil
    · obtain ⟨ws, _, same⟩ := Option.map_eq_some_iff.mp moved
      cases same
      exact .inl ⟨stop, swept, rfl, List.mem_cons.mp pumps⟩
    · cases moved
      exact .inl pumps
  case unclaiming stop call swept =>
    cases moved
    exact .inl pumps
  case admitting home ready after =>
    obtain ⟨stop, swept, rfl, place⟩ := pumps
    obtain ⟨ws, present, same⟩ := Option.map_eq_some_iff.mp (Inner.admitMove_of_after rfl moved)
    split_ifs at same with ends <;> cases same
    · rcases place with rfl | later
      · refine .inr ⟨rfl, ends.symm.imp_right fun empty => ⟨ws, present, ?_⟩⟩
        simp only [Inner.admits, empty]
      · exact .inl ⟨stop, swept, rfl, later⟩
    · exact .inl ⟨stop, swept, rfl, place⟩
  case taking home ready after =>
    obtain ⟨stop, swept, rfl, place⟩ := pumps
    have admits := Inner.admitMove_of_after rfl moved
    obtain ⟨ws, present, _⟩ := Option.map_eq_some_iff.mp admits
    rcases Inner.admits_of_admitMove present admits with
      ⟨blocked, rfl, rfl, _⟩ | ⟨_, _, _, _, _, _, _, rfl, _⟩
    · rcases place with rfl | later
      · exact .inr ⟨rfl, .inr ⟨ws, present, blocked⟩⟩
      · exact .inl ⟨stop, swept, rfl, later⟩
    · exact .inl ⟨stop, swept, rfl, place⟩
  case dispatching home ready after =>
    obtain ⟨stop, swept, rfl, later⟩ := pumps
    cases ready with
    | nil =>
      cases moved
      exact .inl later
    | cons waiting ready =>
      cases moved
      exact .inl ⟨stop, swept, rfl, later⟩

namespace Scheduler

variable {state next last : Scheduler} {action : Action} {actions : List Action} {thread : ℕ}

theorem inOrder (reachable : machine.Reachable state) : InOrder state.inner := by
  refine reachable.invariant_of (P := fun state : Scheduler => InOrder state.inner)
    (fun state => ledger) ?_ ?_
  · rintro state ⟨processes, rfl⟩
    exact ⟨nofun, nofun, fun id ws present => absurd present (Option.some_ne_none ws).symm⟩
  · intro state action next ledger order step
    obtain ⟨rest, loss, gain, posting, _, _⟩ := step_posts step
    exact posting.inOrder ledger.mapped order

/-- Whether a move is a stop taking a call out of a workspace's queue. -/
def SweepsOut (id : WorkspaceId) (waiting : Waiting) (state : Scheduler) (action : Action) : Prop :=
  ∃ thread contended stop todo swept ws, action = .advance thread contended ∧
    state.threads[thread]? = some (.sweeping stop (id :: todo) swept) ∧
    state.inner.objects[id]? = some ws ∧ waiting ∈ ws.swept stop.matching

/-- Admitted, or queued where the workspace alone would let it through in its turn. -/
def LetThrough (state : Scheduler) (id : WorkspaceId) (waiting : Waiting) : Prop :=
  (id, waiting) ∈ state.inner.admitted ∨
    ∃ ws, state.inner.objects[id]? = some ws ∧ waiting ∈ ws.letsThrough ws.queue

/-- The step lemma of a survivor. -/
theorem LetThrough.step (through : state.LetThrough id waiting)
    (ledger : Ledger state.inner state.holdings) (stays : ¬ SweepsOut id waiting state action)
    (step : state.step action = some next) : next.LetThrough id waiting := by
  rcases through with admitted | ⟨ws, present, through⟩
  · obtain ⟨rest, loss, gain, posting, _, _⟩ := step_posts step
    exact .inl (posting.admitted.subset admitted)
  · cases action with
    | begin operation =>
      cases step
      exact .inr ⟨ws, present, through⟩
    | trip token =>
      cases step
      exact .inr ⟨ws, present, through⟩
    | finish thread panicked =>
      simp only [Scheduler.step] at step
      split at step
      · cases step
        exact .inr ⟨ws, present, through⟩
      · contradiction
    | advance thread contended =>
      obtain ⟨pc, there, success⟩ := Option.bind_eq_some_iff.mp step
      obtain ⟨⟨inner', pc', spawned⟩, moved, rfl⟩ := Option.map_eq_some_iff.mp success
      obtain ⟨ws', after, change⟩ := Inner.move_change present moved
      cases change with
      | still queue running =>
        refine .inr ⟨ws', after, ?_⟩
        rw [queue]
        exact Workspace.letsThrough_of_sublist running through
      | joined last queue running =>
        refine .inr ⟨ws', after, ?_⟩
        rw [queue]
        refine Workspace.letsThrough_append (Workspace.letsThrough_of_sublist ?_ through)
        rw [running]
      | taken head queue running admitted =>
        have member : head ∈ ws.queue := queue ▸ List.mem_cons_self
        rw [queue] at through
        rcases (Workspace.mem_letsThrough_cons.1 through).2 with rfl | later
        · exact .inl admitted
        · refine .inr ⟨ws', after, Workspace.letsThrough_of_sublist ?_ later⟩
          rw [running, ledger.insertRunning_eq present member]
      | swept stop todo swept here =>
        have kept : (!stop.matching waiting.run) = true := by
          rw [Bool.not_eq_true']
          refine Bool.eq_false_iff.mpr fun matched => stays ?_
          refine ⟨thread, contended, stop, todo, swept, ws, rfl, here ▸ there, present, ?_⟩
          exact List.mem_filter.mpr ⟨Workspace.mem_of_letsThrough through, matched⟩
        have later : waiting ∈ ws.letsThrough (ws.sweep stop.matching).queue :=
          Workspace.letsThrough_filter through kept
        refine .inr ⟨ws.sweep stop.matching, after, ?_⟩
        exact Workspace.letsThrough_of_sublist (List.Sublist.refl ws.running) later

/-- The run lemma of a survivor. -/
theorem LetThrough.path (through : state.LetThrough id waiting) (reachable : machine.Reachable state)
    (path : machine.Path state actions next)
    (stays : machine.Each (fun state action => ¬ SweepsOut id waiting state action) state actions) :
    next.LetThrough id waiting := by
  have both : machine.Reachable next ∧ next.LetThrough id waiting := by
    refine path.preserves_of (P := fun state : Scheduler =>
      machine.Reachable state ∧ state.LetThrough id waiting) ?_ stays ⟨reachable, through⟩
    rintro state action next ⟨here, through⟩ kept step
    exact ⟨here.step step, through.step (ledger here) kept step⟩
  exact both.2

/-- At some point of a run each survivor in a workspace is admitted, unless a stop has swept it since, the
scheduler is shutting down, or the head of the queue has to wait for a process slot. -/
def Pumps (id : WorkspaceId) (survivors : List Waiting) (start : Scheduler) (actions : List Action) :
    Prop :=
  ∃ first second mid, actions = first ++ second ∧ machine.Path start first mid ∧
    ∀ survivor ∈ survivors,
      machine.Each (fun state action => ¬ SweepsOut id survivor state action) start first →
      (id, survivor) ∈ mid.inner.admitted ∨ mid.inner.shuttingDown = true ∨ mid.inner.AwaitsSlot id

theorem accepted_nodup (reachable : machine.Reachable state) (key : WorkspaceKey) :
    (state.inner.callsFor state.inner.accepted key).Nodup := by
  have distinct := (ledger reachable).accepted_distinct
  rw [Multiset.map_coe, Multiset.coe_nodup] at distinct
  exact distinct.of_map.sublist (List.filter_sublist.map Prod.snd)

/-- A thread that has swept a workspace ends an admission of it before it is outside. -/
theorem pumps_of_swept {survivors : List Waiting} (reachable : machine.Reachable state)
    (present : state.threads[thread]? = some pc) (owes : pc.willPump id)
    (through : ∀ survivor ∈ survivors, state.LetThrough id survivor)
    (path : machine.Path state actions last) (returned : last.threads[thread]? = some pc')
    (outside : pc'.outside = true) : Pumps id survivors state actions := by
  obtain ⟨first, action, second, before, after, rfl, leading, owing, step, given, _⟩ :=
    path.exists_turn (P := fun state : Scheduler =>
      ¬ ∃ pc, state.threads[thread]? = some pc ∧ pc.willPump id)
      (fun none => none ⟨pc, present, owes⟩) (by
        rintro ⟨found, there, pumps⟩
        obtain rfl := Option.some.inj (returned.symm.trans there)
        exact Pc.not_willPump_of_outside outside pumps)
  obtain ⟨here, standing, pumps⟩ := not_not.mp owing
  have turn : machine.Path state (first ++ [action]) after := leading.append (.cons step (.nil after))
  refine ⟨first ++ [action], second, after, by rw [List.append_assoc]; rfl, turn, ?_⟩
  intro survivor member stays
  rcases step_thread step standing with kept | ⟨contended, move, moved, rfl⟩ | ⟨_, _, rfl⟩
  · exact absurd ⟨here, kept, pumps⟩ given
  · obtain ⟨inner', pc', spawned⟩ := move
    rcases Pc.willPump_move pumps moved with still | ⟨rfl, ends⟩
    · exact absurd ⟨pc', become_threads standing _, still⟩ given
    · rcases (through survivor member).path reachable turn stays with admitted | ⟨ws, there, lets⟩
      · exact .inl admitted
      · rcases ends with shutting | ⟨found, located, blocked⟩
        · exact .inr (.inl shutting)
        · obtain rfl := Option.some.inj (located.symm.trans there)
          have waits : before.inner.AwaitsSlot id := Inner.awaitsSlot located blocked lets
          exact .inr (.inr waits)
  · exact absurd pumps fun none => none

/-- What is admitted for a workspace, and then what is queued for it, is in the order it was enqueued,
each call once. A stop's sweep of a workspace leaves the calls that do not match as they were
and touches no other workspace; and by the time the stop has returned, it has pumped the survivors
that the workspace alone lets through after the sweep. -/
theorem queue_order (reachable : machine.Reachable state) :
    (∀ (id : WorkspaceId) (ws : Workspace), state.inner.objects[id]? = some ws →
      (state.inner.callsFor state.inner.accepted ws.key).Nodup ∧
        (state.inner.callsFor state.inner.admitted ws.key ++ ws.queue).Sublist
          (state.inner.callsFor state.inner.accepted ws.key)) ∧
      ∀ (thread : ℕ) (contended : List WorkspaceId) (stop : Stop) (id : WorkspaceId)
        (todo : List WorkspaceId) (swept : List (WorkspaceId × List Waiting)) (next : Scheduler),
        state.threads[thread]? = some (.sweeping stop (id :: todo) swept) →
        state.step (.advance thread contended) = some next →
        ∃ ws, state.inner.objects[id]? = some ws ∧
          next.inner.objects = state.inner.objects.set id
            { ws with queue := ws.queue.filter fun waiting => !stop.matching waiting.run } ∧
          ∀ (actions : List Action) (last : Scheduler) (pc : Pc), machine.Path next actions last →
            last.threads[thread]? = some pc → pc.outside = true →
            Pumps id ((ws.sweep stop.matching).letsThrough (ws.sweep stop.matching).queue)
              next actions := by
  refine ⟨fun id ws present => ⟨accepted_nodup reachable ws.key, ?_⟩, ?_⟩
  · exact (inOrder reachable).order id ws present
  · intro thread contended stop id todo swept next standing step
    have reached : machine.Reachable next := reachable.step (a := .advance thread contended) step
    obtain ⟨pc, there, success⟩ := Option.bind_eq_some_iff.mp step
    obtain rfl := Option.some.inj (standing.symm.trans there)
    obtain ⟨⟨inner', pc', spawned⟩, moved, rfl⟩ := Option.map_eq_some_iff.mp success
    obtain ⟨ws, report, present, rfl, rfl⟩ := Inner.move_sweeping moved
    refine ⟨ws, present, rfl, fun actions last pc path returned outside => ?_⟩
    refine pumps_of_swept reached (become_threads standing _) ?_ (fun survivor member => ?_) path
      returned outside
    · rw [Pc.willPump, List.map_append]
      exact List.mem_append_right _ (List.mem_singleton_self id)
    · refine .inr ⟨ws.sweep stop.matching, ?_, member⟩
      exact (Inner.objects_put (ws.sweep stop.matching) present).trans (if_pos rfl)

private def callOf (call : ToolCallId) (run : RunId) (risk : RiskLevel) : Submission :=
  ⟨⟨call, ⟨0, ["work"]⟩, risk, call⟩, some (run, none)⟩

/-- A read executes, run 2 has a write queued behind it, run 3 a read behind that, and run 2 is being
cancelled. -/
private def sampleBlocked : Option Scheduler :=
  machine.run? (initial 1) (
    .begin (.submit (callOf 7 1 .observe)) :: advances 0 13 ++
    .begin (.submit (callOf 8 2 .workspaceWrite)) :: advances 2 11 ++
    .begin (.submit (callOf 9 3 .observe)) :: advances 3 11 ++ [.begin (.cancelRun 2), .advance 4 []])

private theorem sampleBlocked_isSome : sampleBlocked.isSome = true := by decide

private def sampleSwept : Option Scheduler :=
  (sampleBlocked.get sampleBlocked_isSome).step (.advance 4 [])

private theorem sampleSwept_isSome : sampleSwept.isSome = true := by decide

private def sampleReturned : Option Scheduler :=
  machine.run? (sampleSwept.get sampleSwept_isSome) (advances 4 10)

private theorem sampleReturned_isSome : sampleReturned.isSome = true := by decide

/-- The read of run 3 is the survivor, and the cancellation pumps it. -/
theorem queue_order_sample : ∃ state next last ws, machine.Reachable state ∧
    state.step (.advance 4 []) = some next ∧ machine.Path next (advances 4 10) last ∧
    last.threads[4]? = some (.replied (.cancelled ⟨1, 0⟩)) ∧ state.inner.objects[0]? = some ws ∧
    ws.queue = [⟨1, 8, 2, .workspaceWrite, false, 8⟩, ⟨2, 9, 3, .observe, false, 9⟩] ∧
    next.inner.objects = state.inner.objects.set 0
      { ws with queue := [⟨2, 9, 3, .observe, false, 9⟩] } ∧
    Pumps 0 [⟨2, 9, 3, .observe, false, 9⟩] next (advances 4 10) := by
  have reachable : machine.Reachable (sampleBlocked.get sampleBlocked_isSome) :=
    .of_run? ⟨1, rfl⟩ (Option.some_get sampleBlocked_isSome).symm
  have path : machine.Path (sampleSwept.get sampleSwept_isSome) (advances 4 10)
      (sampleReturned.get sampleReturned_isSome) :=
    Machine.run?_eq_some_iff.mp (Option.some_get sampleReturned_isSome).symm
  obtain ⟨ws, present, swept, pumps⟩ := (queue_order reachable).2 4 [] ⟨some 2, .cancelRun, ⟨0, 0⟩⟩
    0 [] [] _ (by decide) (Option.some_get sampleSwept_isSome).symm
  obtain rfl := Option.some.inj (present.symm.trans rfl)
  exact ⟨_, _, _, _, reachable, (Option.some_get sampleSwept_isSome).symm, path, by decide, present,
    by decide, swept, pumps _ _ (.replied (.cancelled ⟨1, 0⟩)) path (by decide) rfl⟩

end Scheduler

end Harkness.Runtime.Schedule
