import Harkness.Runtime.Schedule.Ledger

/-! # Process slots are neither leaked nor released twice

A slot is taken with the running entry of a call that spawns processes and given back with it, so
the count in use is the number of those entries, and of the calls they belong to.
-/

namespace Harkness.Runtime.Schedule

/-- Running entries that hold a process slot. -/
def Inner.holders (inner : Inner) : ℕ := inner.entries fun entry => entry.2.holdsProcess

/-- The slots a running call needs. -/
def Waiting.slots (waiting : Waiting) : ℕ := if waiting.spawnsProcesses then 1 else 0

/-- Slots of a call from its admission to its completion. -/
def Holding.slots : Holding → ℕ
  | active _ waiting => waiting.slots
  | _ => 0

/-- The slots all running calls need. -/
def Scheduler.slotsNeeded (state : Scheduler) : ℕ := (state.holdings.map Holding.slots).sum

/-- The process limit against the entries that hold it and the calls that need it. -/
structure SlotsAgree (inner : Inner) (held : Multiset Holding) : Prop where
  needed : inner.processes.inUse = (held.map Holding.slots).sum
  bounded : inner.processes.inUse ≤ inner.processes.capacity

variable {inner inner' : Inner} {rest loss gain held : Multiset Holding} {id : WorkspaceId}
  {ws : Workspace}

private theorem slots_total {α : Type} {share : α → Multiset Holding}
    (none : ∀ party, ((share party).map Holding.slots).sum = 0) (parties : List α) :
    ((parties.total share).map Holding.slots).sum = 0 := by
  induction parties with
  | nil => rfl
  | cons party parties ih =>
    rw [List.total_cons, Multiset.map_add, Multiset.sum_add, none, ih]

/-- The entry of a call holds a slot when the call needs one. -/
theorem Ledger.holders_eq (ledger : Ledger inner held) :
    inner.holders = (held.map Holding.slots).sum := by
  rw [Inner.holders, ledger.entries]
  refine congrArg Multiset.sum (Multiset.map_congr rfl fun holding _ => ?_)
  cases holding <;> rfl

private theorem slots_complete (waiting : Waiting) (pump : Bool) (id : WorkspaceId) :
    ((waiting.out + {if pump then .pumpAll else .pump id}).map Holding.slots).sum = 0 := by
  cases pump <;> rfl

/-- The count in use moves with the calls that need a slot, and stays within the capacity. -/
theorem Posting.inUse (posting : Posting inner loss inner' gain)
    (ledger : Ledger inner (rest + loss)) (agree : SlotsAgree inner (rest + loss)) :
    inner'.processes.inUse + (loss.map Holding.slots).sum =
        inner.processes.inUse + (gain.map Holding.slots).sum ∧
      inner'.processes.inUse ≤ inner'.processes.capacity := by
  have bounded := agree.bounded
  cases posting
  case take id ws head tail processes present queue lets slot =>
    change processes.inUse + 0 = inner.processes.inUse + (0 + head.slots) ∧
      processes.inUse ≤ processes.capacity
    rw [Waiting.slots]
    split_ifs at slot ⊢ with spawns
    · obtain ⟨room, rfl⟩ := ProcessLimit.tryAcquire_eq_some.mp slot
      exact ⟨rfl, room⟩
    · rw [slot]
      exact ⟨by omega, bounded⟩
  case complete id ws waiting present =>
    have needed := agree.needed
    rw [Multiset.map_add, Multiset.sum_add] at needed
    change _ = _ + waiting.slots at needed
    rw [slots_complete]
    change (if ws.holdsProcess waiting.dispatch then inner.processes.release
      else inner.processes).inUse + waiting.slots = inner.processes.inUse + 0 ∧
        (if ws.holdsProcess waiting.dispatch then inner.processes.release
          else inner.processes).inUse ≤ (if ws.holdsProcess waiting.dispatch then
            inner.processes.release else inner.processes).capacity
    rw [ledger.holdsProcess_eq present]
    rw [Waiting.slots] at needed ⊢
    split_ifs at needed ⊢ with spawns
    · simp only [ProcessLimit.release]
      omega
    · exact ⟨rfl, bounded⟩
  case sweep id ws matching present =>
    rw [Multiset.map_add, Multiset.sum_add, slots_total fun _ => rfl]
    exact ⟨rfl, bounded⟩
  case snapshot todo covers =>
    rw [pumps, slots_total fun _ => rfl]
    exact ⟨rfl, bounded⟩
  all_goals exact ⟨rfl, bounded⟩

theorem Posting.slotsAgree (posting : Posting inner loss inner' gain)
    (ledger : Ledger inner (rest + loss)) (agree : SlotsAgree inner (rest + loss)) :
    SlotsAgree inner' (rest + gain) := by
  obtain ⟨moved, bounded⟩ := posting.inUse ledger agree
  have needed := agree.needed
  rw [Multiset.map_add, Multiset.sum_add] at needed
  refine ⟨?_, bounded⟩
  rw [Multiset.map_add, Multiset.sum_add]
  omega

namespace Scheduler

variable {state : Scheduler}

theorem slotsAgree (reachable : machine.Reachable state) :
    SlotsAgree state.inner state.holdings := by
  refine reachable.invariant_of
    (P := fun state : Scheduler => SlotsAgree state.inner state.holdings)
    (fun state => ledger) ?_ ?_
  · rintro state ⟨processes, rfl⟩
    exact ⟨rfl, Nat.zero_le _⟩
  · intro state action next ledger agree step
    obtain ⟨rest, loss, gain, posting, before, after⟩ := step_posts step
    rw [before] at ledger agree
    rw [after]
    exact posting.slotsAgree ledger agree

/-- In every reachable state the slots in use are those of the running entries that hold one, and
of the running calls that need one, within the capacity; and a call running in a workspace, from
its admission to its completion, has exactly one entry there, which holds a slot when the call
spawns processes. -/
theorem process_slots (reachable : machine.Reachable state) :
    state.inner.processes.inUse = state.inner.holders ∧
      state.inner.processes.inUse = state.slotsNeeded ∧
      state.inner.processes.inUse ≤ state.inner.processes.capacity ∧
      ∀ id waiting, Holding.active id waiting ∈ state.holdings →
        ∃ ws, state.inner.objects[id]? = some ws ∧
          ws.running.filter (fun entry => entry.1 == waiting.dispatch) = [waiting.entry] := by
  have agree := slotsAgree reachable
  refine ⟨agree.needed.trans (ledger reachable).holders_eq.symm, agree.needed, agree.bounded, ?_⟩
  intro id waiting active
  exact (ledger reachable).entry_of_active active

theorem process_slots_sample : ∃ state, sample = some state ∧
    state.inner.processes = ⟨1, 1⟩ ∧
    (state.inner.processes.inUse = state.inner.holders ∧
      state.inner.processes.inUse = state.slotsNeeded ∧
      state.inner.processes.inUse ≤ state.inner.processes.capacity ∧
      ∀ id waiting, Holding.active id waiting ∈ state.holdings →
        ∃ ws, state.inner.objects[id]? = some ws ∧
          ws.running.filter (fun entry => entry.1 == waiting.dispatch) = [waiting.entry]) :=
  ⟨sample.get sample_isSome, (Option.some_get _).symm, by decide,
    process_slots (sample_reachable (Option.some_get _).symm)⟩

end Scheduler

end Harkness.Runtime.Schedule
