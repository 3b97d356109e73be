import Harkness.Runtime.Schedule.Section
import Harkness.ToMathlib.ListTotal
import Mathlib.Data.Multiset.Bind
import Mathlib.Data.Multiset.Filter

/-! # The workspace objects and the map

What the scheduler's accounts read of the workspace objects (their queues, running entries and
counted producers), how a change to one object changes it, and what keeps the map honest: an
object that is not idle is the one its key maps to.
-/

namespace Harkness.Runtime.Schedule

/-- The calls in all queues. -/
def Inner.queued (inner : Inner) : Multiset Waiting :=
  inner.objects.total fun ws => (ws.queue : Multiset Waiting)

/-- The running set of a workspace object, empty where there is none. -/
def Inner.runningAt (inner : Inner) (id : WorkspaceId) : Multiset (Dispatch × Running) :=
  match inner.objects[id]? with
  | none => 0
  | some ws => ws.running

/-- The producers a workspace object counts. -/
def Inner.waitingAt (inner : Inner) (id : WorkspaceId) : ℕ :=
  match inner.objects[id]? with
  | none => 0
  | some ws => ws.waiting

/-- Running entries of one object that meet a test. -/
def Workspace.entries (test : Dispatch × Running → Bool) (ws : Workspace) : ℕ :=
  ws.running.countP test

/-- Running entries, over all objects, that meet a test. -/
def Inner.entries (inner : Inner) (test : Dispatch × Running → Bool) : ℕ :=
  inner.objects.total (Workspace.entries test)

/-- A workspace object that is not idle is the one its key maps to. -/
structure Mapped (inner : Inner) : Prop where
  keys : (inner.workspaces.map Prod.fst).Nodup
  valid : ∀ entry ∈ inner.workspaces, ∃ ws, inner.objects[entry.2]? = some ws ∧ ws.key = entry.1
  busy : ∀ id ws, inner.objects[id]? = some ws → ws.isIdle = false → (ws.key, id) ∈ inner.workspaces

namespace Inner

variable {inner : Inner} {id other : WorkspaceId} {ws : Workspace} (ws' : Workspace)

theorem queued_put (present : inner.objects[id]? = some ws) :
    (inner.put id ws').queued + (ws.queue : Multiset Waiting) = inner.queued + ws'.queue :=
  List.total_set (fun ws : Workspace => (ws.queue : Multiset Waiting)) ws' present

theorem queued_put_of_eq (present : inner.objects[id]? = some ws) (same : ws'.queue = ws.queue) :
    (inner.put id ws').queued = inner.queued :=
  List.total_set_of_eq (fun ws : Workspace => (ws.queue : Multiset Waiting)) present (by rw [same])

theorem queued_eq_add (present : inner.objects[id]? = some ws) :
    ∃ others, inner.queued = (ws.queue : Multiset Waiting) + others :=
  List.exists_total_eq_add (fun ws : Workspace => (ws.queue : Multiset Waiting)) present

theorem mem_queued {waiting : Waiting} :
    waiting ∈ inner.queued ↔ ∃ ws ∈ inner.objects, waiting ∈ ws.queue := by
  unfold queued
  induction inner.objects with
  | nil => simp only [List.total_nil, Multiset.notMem_zero, List.not_mem_nil, false_and, exists_false]
  | cons ws objects ih =>
    simp only [List.total_cons, Multiset.mem_add, Multiset.mem_coe, List.mem_cons, exists_eq_or_imp,
      ih]

theorem objects_put (present : inner.objects[id]? = some ws) :
    (inner.put id ws').objects[other]? = if other = id then some ws' else inner.objects[other]? := by
  obtain ⟨bound, _⟩ := List.getElem?_eq_some_iff.mp present
  rw [put, List.getElem?_set]
  split_ifs with first second second
  · rfl
  · exact absurd first.symm second
  · exact absurd second.symm first
  · rfl

theorem runningAt_put (present : inner.objects[id]? = some ws) :
    (inner.put id ws').runningAt other =
      if other = id then (ws'.running : Multiset _) else inner.runningAt other := by
  unfold runningAt
  rw [objects_put ws' present]
  split_ifs <;> rfl

theorem waitingAt_put (present : inner.objects[id]? = some ws) :
    (inner.put id ws').waitingAt other =
      if other = id then ws'.waiting else inner.waitingAt other := by
  unfold waitingAt
  rw [objects_put ws' present]
  split_ifs <;> rfl

theorem waitingAt_put_of_eq (present : inner.objects[id]? = some ws)
    (same : ws'.waiting = ws.waiting) : (inner.put id ws').waitingAt other = inner.waitingAt other := by
  rw [waitingAt_put ws' present]
  split_ifs with here
  · simp only [here, waitingAt, present, same]
  · rfl

theorem runningAt_put_of_eq (present : inner.objects[id]? = some ws)
    (same : ws'.running = ws.running) : (inner.put id ws').runningAt other = inner.runningAt other := by
  rw [runningAt_put ws' present]
  split_ifs with here
  · simp only [here, runningAt, present, same]
  · rfl

theorem runningAt_eq (present : inner.objects[id]? = some ws) :
    inner.runningAt id = (ws.running : Multiset _) := by
  simp only [runningAt, present]

theorem waitingAt_eq (present : inner.objects[id]? = some ws) : inner.waitingAt id = ws.waiting := by
  simp only [waitingAt, present]

theorem entries_put (test : Dispatch × Running → Bool) (present : inner.objects[id]? = some ws) :
    (inner.put id ws').entries test + ws.entries test = inner.entries test + ws'.entries test :=
  List.total_set (Workspace.entries test) ws' present

theorem entries_put_of_eq (test : Dispatch × Running → Bool)
    (present : inner.objects[id]? = some ws) (same : ws'.running = ws.running) :
    (inner.put id ws').entries test = inner.entries test :=
  List.total_set_of_eq (Workspace.entries test) present
    (by rw [Workspace.entries, Workspace.entries, same])

end Inner

theorem Workspace.not_idle_of {ws ws' : Workspace} (after : ws'.isIdle = false)
    (kept : ws.queue = [] ∧ ws.running = [] ∧ ws.waiting = 0 →
      ws'.queue = [] ∧ ws'.running = [] ∧ ws'.waiting = 0) : ws.isIdle = false := by
  refine Bool.eq_false_iff.mpr fun idle => Bool.eq_false_iff.mp after ?_
  exact Workspace.isIdle_iff.mpr (kept (Workspace.isIdle_iff.mp idle))

namespace Mapped

variable {inner inner' : Inner} {id : WorkspaceId} {ws : Workspace}

theorem find (mapped : Mapped inner) {key : WorkspaceKey} (found : inner.find key = some id) :
    (key, id) ∈ inner.workspaces ∧ ∃ ws, inner.objects[id]? = some ws ∧ ws.key = key := by
  obtain ⟨entry, located, rfl⟩ := Option.map_eq_some_iff.mp found
  have same := List.find?_some located
  rw [beq_iff_eq] at same
  have member := List.mem_of_find?_eq_some located
  obtain ⟨ws, present, named⟩ := mapped.valid entry member
  subst same
  exact ⟨member, ws, present, named⟩

theorem notMem_of_find (absent : inner.find key = none) : key ∉ inner.workspaces.map Prod.fst := by
  intro member
  obtain ⟨entry, present, rfl⟩ := List.mem_map.mp member
  have missing := List.find?_eq_none.mp (Option.map_eq_none_iff.mp absent) entry present
  exact missing (beq_self_eq_true entry.1)

/-- A change to one object keeps the map in order when it keeps the key, and busies no object that
the map does not hold. -/
theorem put (mapped : Mapped inner) (ws' : Workspace) (present : inner.objects[id]? = some ws)
    (objects : inner'.objects = (inner.put id ws').objects)
    (workspaces : inner'.workspaces = inner.workspaces) (key : ws'.key = ws.key)
    (busy : ws'.isIdle = false → (ws.key, id) ∈ inner.workspaces) : Mapped inner' where
  keys := by
    rw [workspaces]
    exact mapped.keys
  valid entry member := by
    rw [workspaces] at member
    obtain ⟨old, there, named⟩ := mapped.valid entry member
    rw [objects, Inner.objects_put _ present]
    split_ifs with same
    · rw [same, present, Option.some.injEq] at there
      subst there
      exact ⟨ws', rfl, key.trans named⟩
    · exact ⟨old, there, named⟩
  busy other found there working := by
    rw [objects, Inner.objects_put _ present] at there
    rw [workspaces]
    split_ifs at there with same
    · cases there
      rw [key, same]
      exact busy working
    · exact mapped.busy other found there working

theorem create (mapped : Mapped inner) {key : WorkspaceKey} (absent : inner.find key = none) :
    Mapped (inner.create key) where
  keys := by
    have perm := (List.perm_orderedInsert
      (fun a b : WorkspaceKey × WorkspaceId => a.1.le b.1) (key, inner.objects.length)
      inner.workspaces).map Prod.fst
    exact perm.nodup_iff.mpr (List.nodup_cons.mpr ⟨notMem_of_find absent, mapped.keys⟩)
  valid entry member := by
    rcases (List.mem_orderedInsert _).mp member with rfl | old
    · exact ⟨_, List.getElem?_concat_length .., rfl⟩
    · obtain ⟨ws, there, named⟩ := mapped.valid entry old
      obtain ⟨bound, _⟩ := List.getElem?_eq_some_iff.mp there
      exact ⟨ws, by rw [Inner.create, List.getElem?_append_left bound, there], named⟩
  busy id ws there working := by
    refine (List.mem_orderedInsert _).mpr ?_
    simp only [Inner.create] at there
    rcases Nat.lt_or_ge id inner.objects.length with old | beyond
    · rw [List.getElem?_append_left old] at there
      exact .inr (mapped.busy id ws there working)
    · rw [List.getElem?_append_right beyond] at there
      obtain ⟨first, _⟩ := List.getElem?_eq_some_iff.mp there
      have new := List.mem_singleton.mp (List.mem_of_getElem? there)
      rw [List.length_singleton] at first
      have last : id = inner.objects.length := Nat.le_antisymm (by omega) beyond
      exact .inl (Prod.ext (congrArg Workspace.key new) last)

theorem forgetIdle (mapped : Mapped inner) (contended : List WorkspaceId) :
    Mapped (inner.forgetIdle contended) where
  keys := mapped.keys.sublist (List.filter_sublist.map Prod.fst)
  valid entry member := mapped.valid entry (List.mem_filter.mp member).1
  busy id ws there working := by
    refine List.mem_filter.mpr ⟨mapped.busy id ws there working, ?_⟩
    change inner.objects[id]? = some ws at there
    simp only [there, Option.any_some, working, Bool.not_false, Bool.or_true]

end Mapped

end Harkness.Runtime.Schedule
