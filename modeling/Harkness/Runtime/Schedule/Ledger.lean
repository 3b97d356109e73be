import Harkness.Runtime.Schedule.Objects
import Harkness.Runtime.Schedule.Posting

/-! # The books of the scheduler balance

Read together with what threads hold, the shared state accounts for every call: an accepted call is
queued, in a thread's hands, or settled; a running entry belongs to the one thread that holds the
call active; a claim belongs to a call being submitted, queued, active, or not yet released; a
producer counted at a full queue is a thread. Dispatch numbers name calls uniquely.
-/

namespace Harkness.Runtime.Schedule

/-- Accepted calls in a thread's hands. -/
def Holding.call : Holding → Multiset Waiting
  | active _ waiting | carried waiting => {waiting}
  | _ => 0

/-- Calls with an entry in one running set. -/
def Holding.activeAt (id : WorkspaceId) : Holding → Multiset Waiting
  | active home waiting => if home = id then {waiting} else 0
  | _ => 0

/-- Calls with a number and no place yet. -/
def Holding.unplaced : Holding → Multiset Waiting
  | numbered waiting => {waiting}
  | _ => 0

/-- Claims a thread answers for. -/
def Holding.claims : Holding → Multiset ToolCallId
  | submitting call | unreleased call => {call}
  | active _ waiting => {waiting.call}
  | _ => 0

/-- Running entries of active calls that meet a test. -/
def Holding.entries (test : Dispatch × Running → Bool) : Holding → ℕ
  | active _ waiting => if test waiting.entry then 1 else 0
  | _ => 0

/-- Calls that carry different numbers, all handed out already. -/
structure Numbered (calls : Multiset Waiting) (next : ℕ) : Prop where
  distinct : (calls.map Waiting.dispatch).Nodup
  bound : ∀ waiting ∈ calls, waiting.dispatch < next

theorem Numbered.of_le {calls fewer : Multiset Waiting} {next : ℕ} (numbered : Numbered calls next)
    (le : fewer ≤ calls) : Numbered fewer next where
  distinct := Multiset.nodup_of_le (Multiset.map_le_map le) numbered.distinct
  bound waiting member := numbered.bound waiting (Multiset.mem_of_le le member)

/-- Handing out the next number. -/
theorem Numbered.add_next {calls : Multiset Waiting} {next : ℕ} {waiting : Waiting}
    (numbered : Numbered calls next) (fresh : waiting.dispatch = next) :
    Numbered (calls + {waiting}) (next + 1) where
  distinct := by
    rw [add_comm, Multiset.singleton_add, Multiset.map_cons, Multiset.nodup_cons]
    refine ⟨fun member => ?_, numbered.distinct⟩
    obtain ⟨other, present, same⟩ := Multiset.mem_map.mp member
    have below := numbered.bound other present
    rw [same, fresh] at below
    exact lt_irrefl next below
  bound other member := by
    rcases Multiset.mem_add.mp member with old | new
    · exact Nat.lt_succ_of_lt (numbered.bound other old)
    · rw [Multiset.mem_singleton.mp new, fresh]
      exact Nat.lt_succ_self next

/-- The accounts of a shared state against the holdings of all threads. -/
structure Ledger (inner : Inner) (held : Multiset Holding) : Prop where
  calls : inner.queued + held.bind Holding.call + (inner.settled.map Prod.fst : List Waiting) =
    (inner.accepted.map Prod.snd : List Waiting)
  numbers : Numbered ((inner.accepted.map Prod.snd : List Waiting) + held.bind Holding.unplaced)
    inner.dispatched
  running : ∀ id, inner.runningAt id = (held.bind (Holding.activeAt id)).map Waiting.entry
  claims : inner.claimed.val = inner.queued.map Waiting.call + held.bind Holding.claims
  entries : ∀ test, inner.entries test = (held.map (Holding.entries test)).sum
  producers : ∀ id, inner.waitingAt id = held.count (.producing id)
  tickets : ∀ waiting, held.count (.ticketed waiting) = (inner.accepted.map Prod.snd).count waiting
  shutdown : held.count .shuttingDown = if inner.shuttingDown then 1 else 0
  mapped : Mapped inner

theorem active_of_mem_activeAt {held : Multiset Holding} {id : WorkspaceId} {waiting : Waiting}
    (member : waiting ∈ held.bind (Holding.activeAt id)) : Holding.active id waiting ∈ held := by
  obtain ⟨holding, holds, member⟩ := Multiset.mem_bind.mp member
  cases holding with
  | active home other =>
    simp only [Holding.activeAt] at member
    split_ifs at member with same
    · rw [Multiset.mem_singleton.mp member, ← same]
      exact holds
    · exact absurd member (Multiset.notMem_zero _)
  | _ => exact absurd member (Multiset.notMem_zero _)

theorem mem_call_of_mem_activeAt {held : Multiset Holding} {id : WorkspaceId} {waiting : Waiting}
    (member : waiting ∈ held.bind (Holding.activeAt id)) : waiting ∈ held.bind Holding.call :=
  Multiset.mem_bind.mpr ⟨_, active_of_mem_activeAt member, Multiset.mem_singleton_self waiting⟩

/-- Two parts of a collection without repeated numbers share no number. -/
private theorem dispatch_ne {first second : Multiset Waiting} {a b : Waiting}
    (distinct : ((first + second).map Waiting.dispatch).Nodup) (left : a ∈ first)
    (right : b ∈ second) : a.dispatch ≠ b.dispatch := by
  rw [Multiset.map_add, Multiset.nodup_add] at distinct
  intro same
  refine Multiset.disjoint_left.mp distinct.2.2 (Multiset.mem_map_of_mem _ left) ?_
  rw [same]
  exact Multiset.mem_map_of_mem _ right

namespace Ledger

variable {inner : Inner} {held : Multiset Holding} {id : WorkspaceId} {ws : Workspace}

theorem accepted_distinct (ledger : Ledger inner held) :
    (((inner.accepted.map Prod.snd : List Waiting) : Multiset Waiting).map Waiting.dispatch).Nodup := by
  have distinct := ledger.numbers.distinct
  rw [Multiset.map_add, Multiset.nodup_add] at distinct
  exact distinct.1

/-- Queued calls and calls in hand carry different numbers. -/
theorem placed_distinct (ledger : Ledger inner held) :
    ((inner.queued + held.bind Holding.call).map Waiting.dispatch).Nodup := by
  have distinct := ledger.accepted_distinct
  rw [← ledger.calls, Multiset.map_add, Multiset.nodup_add] at distinct
  exact distinct.1

/-- A running entry belongs to a call held active. -/
theorem active_of_entry (ledger : Ledger inner held) (present : inner.objects[id]? = some ws)
    {entry : Dispatch × Running} (running : entry ∈ ws.running) :
    ∃ waiting, Holding.active id waiting ∈ held ∧ entry = waiting.entry := by
  have member : entry ∈ inner.runningAt id := by
    rw [Inner.runningAt_eq present]
    exact Multiset.mem_coe.mpr running
  rw [ledger.running id] at member
  obtain ⟨waiting, active, rfl⟩ := Multiset.mem_map.mp member
  exact ⟨waiting, active_of_mem_activeAt active, rfl⟩

/-- The call about to be taken has no running entry yet. -/
theorem head_fresh (ledger : Ledger inner held) (present : inner.objects[id]? = some ws)
    {head : Waiting} (queued : head ∈ ws.queue) {entry : Dispatch × Running}
    (running : entry ∈ ws.running) : entry.1 ≠ head.dispatch := by
  obtain ⟨waiting, active, rfl⟩ := ledger.active_of_entry present running
  obtain ⟨others, split⟩ := Inner.queued_eq_add present
  have left : head ∈ inner.queued := by
    rw [split]
    exact Multiset.mem_add.mpr (.inl (Multiset.mem_coe.mpr queued))
  have right : waiting ∈ held.bind Holding.call :=
    Multiset.mem_bind.mpr ⟨_, active, Multiset.mem_singleton_self waiting⟩
  exact (dispatch_ne ledger.placed_distinct left right).symm

/-- What `admit` inserts replaces nothing. -/
theorem insertRunning_eq (ledger : Ledger inner held) (present : inner.objects[id]? = some ws)
    {head : Waiting} (queued : head ∈ ws.queue) : ws.insertRunning head = head.entry :: ws.running := by
  unfold Workspace.insertRunning
  congr 1
  refine List.filter_eq_self.mpr fun entry running => ?_
  exact bne_iff_ne.mpr (ledger.head_fresh present queued running)

/-- What `complete` removes is the entry of the call it is about, and nothing else. -/
theorem remove_running {rest : Multiset Holding} {waiting : Waiting}
    (ledger : Ledger inner (rest + {.active id waiting})) (present : inner.objects[id]? = some ws) :
    (ws.running : Multiset (Dispatch × Running)) =
        waiting.entry ::ₘ ((ws.remove waiting.dispatch).running : Multiset _) ∧
      ((ws.remove waiting.dispatch).running : Multiset (Dispatch × Running)) =
        (rest.bind (Holding.activeAt id)).map Waiting.entry := by
  have running := ledger.running id
  rw [Inner.runningAt_eq present, Multiset.add_bind, Multiset.singleton_bind] at running
  simp only [Holding.activeAt, if_true, Multiset.map_add, Multiset.map_singleton] at running
  have distinct := ledger.placed_distinct
  rw [Multiset.add_bind, Multiset.singleton_bind, ← add_assoc] at distinct
  have others : ∀ other ∈ rest.bind (Holding.activeAt id), other.dispatch ≠ waiting.dispatch := by
    intro other member
    refine dispatch_ne distinct (Multiset.mem_add.mpr (.inr (mem_call_of_mem_activeAt member))) ?_
    exact Multiset.mem_singleton_self waiting
  have removed : ((ws.remove waiting.dispatch).running : Multiset (Dispatch × Running)) =
      (rest.bind (Holding.activeAt id)).map Waiting.entry := by
    have filtered : ((ws.remove waiting.dispatch).running : Multiset (Dispatch × Running)) =
        (ws.running : Multiset (Dispatch × Running)).filter
          fun entry => (entry.1 != waiting.dispatch) = true := by
      simp only [Multiset.filter_coe, Workspace.remove, Bool.decide_eq_true]
    rw [filtered, running, Multiset.filter_add, Multiset.filter_singleton]
    simp only [Waiting.entry, bne_self_eq_false, Bool.false_eq_true, if_false,
      Multiset.empty_eq_zero, add_zero]
    refine Multiset.filter_eq_self.mpr fun entry member => ?_
    obtain ⟨other, active, rfl⟩ := Multiset.mem_map.mp member
    exact bne_iff_ne.mpr (others other active)
  refine ⟨?_, removed⟩
  rw [removed, running, add_comm, Multiset.singleton_add]

/-- The slot `complete` gives back is the one the call took. -/
theorem holdsProcess_eq {rest : Multiset Holding} {waiting : Waiting}
    (ledger : Ledger inner (rest + {.active id waiting})) (present : inner.objects[id]? = some ws) :
    ws.holdsProcess waiting.dispatch = waiting.spawnsProcesses := by
  have running := (ledger.remove_running present).1
  have member : ∀ entry, entry ∈ ws.running ↔
      entry = waiting.entry ∨ entry ∈ (ws.remove waiting.dispatch).running := by
    intro entry
    rw [← Multiset.mem_coe, running, Multiset.mem_cons, Multiset.mem_coe]
  unfold Workspace.holdsProcess
  rw [Bool.eq_iff_iff, List.any_eq_true]
  constructor
  · rintro ⟨entry, present, matching⟩
    rw [Bool.and_eq_true, beq_iff_eq] at matching
    rcases (member entry).mp present with rfl | removed
    · exact matching.2
    · have kept := (List.mem_filter.mp removed).2
      exact absurd matching.1 (bne_iff_ne.mp kept)
  · intro spawns
    refine ⟨waiting.entry, (member _).mpr (.inl rfl), ?_⟩
    simp only [Waiting.entry, Waiting.running, beq_self_eq_true, Bool.true_and, spawns]

/-- A call held active has one entry in its workspace's running set, and it is its own. -/
theorem entry_of_active (ledger : Ledger inner held) {waiting : Waiting}
    (active : Holding.active id waiting ∈ held) : ∃ ws, inner.objects[id]? = some ws ∧
      ws.running.filter (fun entry => entry.1 == waiting.dispatch) = [waiting.entry] := by
  obtain ⟨rest, rfl⟩ := Multiset.exists_cons_of_mem active
  rw [← Multiset.singleton_add, add_comm] at ledger
  cases present : inner.objects[id]? with
  | none =>
    have running := ledger.running id
    rw [Multiset.add_bind, Multiset.singleton_bind, Holding.activeAt, if_pos rfl, Multiset.map_add,
      Multiset.map_singleton, add_comm, Multiset.singleton_add] at running
    simp only [Inner.runningAt, present] at running
    exact absurd running (Multiset.zero_ne_cons)
  | some ws =>
    have perm := Multiset.coe_eq_coe.mp (ledger.remove_running present).1
    have others : (ws.remove waiting.dispatch).running.filter
        (fun entry => entry.1 == waiting.dispatch) = [] := by
      refine List.filter_eq_nil_iff.mpr fun entry kept matching => ?_
      exact bne_iff_ne.mp (List.mem_filter.mp kept).2 (beq_iff_eq.mp matching)
    refine ⟨ws, rfl, List.perm_singleton.mp ((perm.filter _).trans ?_)⟩
    have own : (waiting.entry.1 == waiting.dispatch) = true := beq_self_eq_true waiting.dispatch
    rw [List.filter_cons, if_pos own, others]

end Ledger

namespace Posting

variable {inner inner' : Inner} {rest loss gain : Multiset Holding}

private theorem total_out_call (removed : List Waiting) :
    (removed.total Waiting.out).bind Holding.call = (removed : Multiset Waiting) := by
  induction removed with
  | nil => rfl
  | cons waiting removed ih =>
    rw [List.total_cons, Multiset.add_bind, ih, ← Multiset.cons_coe, ← Multiset.singleton_add]
    rfl

private theorem total_out_claims (removed : List Waiting) :
    (removed.total Waiting.out).bind Holding.claims = (removed : Multiset Waiting).map Waiting.call := by
  induction removed with
  | nil => rfl
  | cons waiting removed ih =>
    rw [List.total_cons, Multiset.add_bind, ih, ← Multiset.cons_coe, Multiset.map_cons,
      ← Multiset.singleton_add]
    rfl

private theorem queued_enqueue {id : WorkspaceId} {ws : Workspace} (waiting : Waiting)
    (present : inner.objects[id]? = some ws) :
    (inner.enqueue id ws waiting).queued = inner.queued + {waiting} := by
  have balance := Inner.queued_put { ws with
    queue := ws.queue ++ [waiting], waiting := ws.waiting - 1 } present
  refine add_right_cancel (b := (ws.queue : Multiset Waiting)) (balance.trans ?_)
  rw [← Multiset.coe_add, Multiset.coe_singleton]
  abel

private theorem queued_take {id : WorkspaceId} {ws : Workspace} {head : Waiting}
    {tail : List Waiting} (processes : ProcessLimit) (present : inner.objects[id]? = some ws)
    (queue : ws.queue = head :: tail) :
    (inner.take id ws head tail processes).queued + {head} = inner.queued := by
  have balance := Inner.queued_put (ws.take head tail) present
  refine add_right_cancel (b := (tail : Multiset Waiting)) (Eq.trans ?_ balance)
  rw [queue, ← Multiset.cons_coe, ← Multiset.singleton_add, ← add_assoc]
  rfl

private theorem queued_sweep {id : WorkspaceId} {ws : Workspace} (matching : RunId → Bool)
    (present : inner.objects[id]? = some ws) :
    (inner.stopWorkspace id ws matching).queued + (ws.swept matching : Multiset Waiting) =
      inner.queued := by
  have balance := Inner.queued_put (ws.sweep matching) present
  have split : (ws.queue : Multiset Waiting) = (ws.swept matching : Multiset Waiting) +
      ((ws.sweep matching).queue : Multiset Waiting) := by
    rw [Multiset.coe_add]
    exact (Multiset.coe_eq_coe.mpr (List.filter_append_perm _ ws.queue)).symm
  rw [split, ← add_assoc] at balance
  exact add_right_cancel balance

private theorem queued_create (key : WorkspaceKey) : (inner.create key).queued = inner.queued := by
  rw [Inner.queued, Inner.create, List.total_append, List.total_cons, List.total_nil]
  exact add_zero _

private theorem total_out_activeAt (id : WorkspaceId) (removed : List Waiting) :
    (removed.total Waiting.out).bind (Holding.activeAt id) = 0 := by
  induction removed with
  | nil => rfl
  | cons waiting removed ih =>
    rw [List.total_cons, Multiset.add_bind, ih, add_zero]
    rfl

private theorem total_out_unplaced (removed : List Waiting) :
    (removed.total Waiting.out).bind Holding.unplaced = 0 := by
  induction removed with
  | nil => rfl
  | cons waiting removed ih =>
    rw [List.total_cons, Multiset.add_bind, ih, add_zero]
    rfl

private theorem pumps_bind {α : Type} (account : Holding → Multiset α)
    (none : ∀ id, account (.pump id) = 0) (todo : List WorkspaceId) :
    (pumps todo).bind account = 0 := by
  induction todo with
  | nil => rfl
  | cons id todo ih =>
    rw [pumps, List.total_cons, Multiset.add_bind, Multiset.singleton_bind, none, zero_add]
    exact ih

private theorem queued_remove {id : WorkspaceId} {ws : Workspace} (dispatch : Dispatch)
    (present : inner.objects[id]? = some ws) : (inner.remove id ws dispatch).queued = inner.queued :=
  Inner.queued_put_of_eq _ present rfl

private theorem queued_join {id : WorkspaceId} {ws : Workspace}
    (present : inner.objects[id]? = some ws) : (inner.join id ws).queued = inner.queued :=
  Inner.queued_put_of_eq { ws with waiting := ws.waiting + 1 } present rfl

private theorem queued_leaveRoom {id : WorkspaceId} {ws : Workspace}
    (present : inner.objects[id]? = some ws) : (inner.leaveRoom id ws).queued = inner.queued :=
  Inner.queued_put_of_eq { ws with waiting := ws.waiting - 1 } present rfl

/-- Calls only move between queues, hands, tickets, and the history of what was accepted. -/
theorem calls (posting : Posting inner loss inner' gain) :
    inner'.queued + gain.bind Holding.call + (inner'.settled.map Prod.fst : List Waiting) +
        (inner.accepted.map Prod.snd : List Waiting) =
      inner.queued + loss.bind Holding.call + (inner.settled.map Prod.fst : List Waiting) +
        (inner'.accepted.map Prod.snd : List Waiting) := by
  cases posting
  case enqueue id ws waiting present =>
    rw [queued_enqueue waiting present]
    simp only [Inner.enqueue, Inner.put, List.map_append, List.map_cons, List.map_nil,
      ← Multiset.coe_add, Multiset.coe_singleton, Waiting.submission, Multiset.add_bind,
      Multiset.singleton_bind, Holding.call]
    abel
  case take id ws head tail processes present queue lets slot =>
    rw [← queued_take processes present queue]
    simp only [Multiset.add_bind, Multiset.singleton_bind, Holding.call, Inner.take, Inner.put]
    abel
  case complete id ws waiting present =>
    rw [queued_remove waiting.dispatch present]
    have moved : (waiting.out + {if ws.holdsProcess waiting.dispatch then .pumpAll else .pump id}).bind
        Holding.call = {waiting} := by
      split_ifs <;> rfl
    rw [moved]
    rfl
  case send waiting settlement =>
    simp only [Inner.send, List.map_append, List.map_cons, List.map_nil, ← Multiset.coe_add,
      Multiset.coe_singleton, Multiset.singleton_bind, Multiset.zero_bind, Holding.call]
    change inner.queued + 0 + _ + _ = _
    abel
  case sweep id ws matching present =>
    rw [← queued_sweep matching present, Multiset.add_bind, total_out_call]
    simp only [Multiset.singleton_bind, Multiset.zero_bind, Holding.call, Inner.stopWorkspace,
      Inner.put]
    abel
  case create key absent =>
    rw [queued_create]
    rfl
  case join key id ws found present =>
    rw [queued_join present]
    rfl
  case leaveRoom id ws waiting present stopping =>
    rw [queued_leaveRoom present]
    rfl
  case snapshot todo covers =>
    rw [pumps_bind _ fun _ => rfl]
    rfl
  all_goals rfl

/-- Claims follow their calls: a claim is made for a call being submitted, and released when a
submission is refused or a call is over. -/
theorem claims (posting : Posting inner loss inner' gain)
    (covered : ∀ call ∈ loss.bind Holding.claims, call ∈ inner.claimed) :
    inner'.claimed.val + inner.queued.map Waiting.call + loss.bind Holding.claims =
      inner.claimed.val + inner'.queued.map Waiting.call + gain.bind Holding.claims := by
  have released : ∀ call ∈ inner.claimed,
      (inner.claimed.erase call).val + {call} = inner.claimed.val := by
    intro call member
    rw [Finset.erase_val, add_comm, Multiset.singleton_add, Multiset.cons_erase member]
  cases posting
  case claim call fresh =>
    rw [Inner.claim, Finset.insert_val_of_notMem fresh, ← Multiset.singleton_add]
    change {call} + inner.claimed.val + inner.queued.map Waiting.call + 0 =
      inner.claimed.val + inner.queued.map Waiting.call + {call}
    abel
  case refuse call | release call =>
    have member := covered call (Multiset.mem_singleton_self call)
    change (inner.claimed.erase call).val + inner.queued.map Waiting.call + {call} =
      inner.claimed.val + inner.queued.map Waiting.call + 0
    rw [← released call member]
    abel
  case enqueue id ws waiting present =>
    rw [queued_enqueue waiting present, Multiset.map_add]
    change inner.claimed.val + _ + {waiting.call} = inner.claimed.val + (_ + {waiting.call}) + 0
    abel
  case take id ws head tail processes present queue lets slot =>
    rw [← queued_take processes present queue, Multiset.map_add]
    change inner.claimed.val + (_ + {head.call}) + 0 = inner.claimed.val + _ + {head.call}
    abel
  case complete id ws waiting present =>
    rw [queued_remove waiting.dispatch present]
    have moved : (waiting.out + {if ws.holdsProcess waiting.dispatch then .pumpAll else .pump id}).bind
        Holding.claims = {waiting.call} := by
      split_ifs <;> rfl
    rw [moved]
    rfl
  case sweep id ws matching present =>
    rw [← queued_sweep matching present, Multiset.add_bind, total_out_claims, Multiset.map_add]
    change inner.claimed.val + (_ + _) + 0 = inner.claimed.val + _ + (0 + _)
    abel
  case create key absent =>
    rw [queued_create]
    rfl
  case join key id ws found present =>
    rw [queued_join present]
    rfl
  case leaveRoom id ws waiting present stopping =>
    rw [queued_leaveRoom present]
    rfl
  case snapshot todo covers =>
    rw [pumps_bind _ fun _ => rfl]
    rfl
  all_goals rfl

private theorem count_total {α : Type} {holding : Holding} {share : α → Multiset Holding}
    (none : ∀ party, (share party).count holding = 0) (parties : List α) :
    (parties.total share).count holding = 0 := by
  induction parties with
  | nil => rfl
  | cons party parties ih => rw [List.total_cons, Multiset.count_add, none, ih]

private theorem count_submission (waiting : Waiting) (home id : WorkspaceId) :
    (waiting.submission + {.producing home}).count (.producing id) = if id = home then 1 else 0 := by
  rw [Multiset.count_add, Multiset.count_singleton]
  simp only [Holding.producing.injEq]
  exact zero_add _

private theorem waitingAt_leave {home id : WorkspaceId} {ws : Workspace} {queue : List Waiting}
    (present : inner.objects[home]? = some ws)
    (covered : (if id = home then 1 else 0) ≤ inner.waitingAt id) :
    (inner.put home { ws with queue := queue, waiting := ws.waiting - 1 }).waitingAt id +
      (if id = home then 1 else 0) = inner.waitingAt id := by
  rw [Inner.waitingAt_put _ present]
  split_ifs at covered ⊢ with same
  · subst same
    rw [Inner.waitingAt_eq present] at covered ⊢
    exact Nat.sub_add_cancel covered
  · rfl

/-- A producer counted at a full queue is a thread. -/
theorem producers (posting : Posting inner loss inner' gain) (id : WorkspaceId)
    (covered : loss.count (.producing id) ≤ inner.waitingAt id) :
    inner'.waitingAt id + loss.count (.producing id) =
      inner.waitingAt id + gain.count (.producing id) := by
  cases posting
  case join key home ws found present =>
    change ((inner.put home _).waitingAt id) + 0 = _
    rw [Inner.waitingAt_put _ present, Multiset.count_singleton]
    simp only [Holding.producing.injEq]
    split_ifs with same
    · rw [same, Inner.waitingAt_eq present, add_zero]
    · rfl
  case create key absent =>
    rw [Multiset.count_singleton]
    simp only [Holding.producing.injEq, Multiset.count_zero, add_zero, Inner.waitingAt, Inner.create]
    split_ifs with same
    · rw [same, List.getElem?_concat_length, List.getElem?_eq_none le_rfl]
    · rcases Nat.lt_or_ge id inner.objects.length with old | beyond
      · rw [List.getElem?_append_left old, add_zero]
      · have more : (inner.objects ++ [{ Workspace.create key with waiting := 1 }]).length ≤ id := by
          rw [List.length_append, List.length_singleton]
          exact Nat.lt_of_le_of_ne beyond (Ne.symm same)
        rw [List.getElem?_eq_none beyond, List.getElem?_eq_none more]
  case leaveRoom home ws waiting present stopping =>
    rw [count_submission] at covered ⊢
    exact waitingAt_leave present covered
  case enqueue home ws waiting present =>
    rw [count_submission] at covered ⊢
    exact waitingAt_leave present covered
  case take home ws head tail processes present queue lets slot =>
    exact congrArg (· + 0) (Inner.waitingAt_put_of_eq (ws.take head tail) present rfl)
  case complete home ws waiting present =>
    have none : (waiting.out +
        {if ws.holdsProcess waiting.dispatch then .pumpAll else .pump home}).count
          (.producing id) = 0 := by
      split_ifs <;> rfl
    rw [none]
    exact congrArg (· + 0)
      (Inner.waitingAt_put_of_eq (ws.remove waiting.dispatch) present rfl)
  case sweep home ws matching present =>
    have none : ({.pump home} + (ws.swept matching).total Waiting.out).count (.producing id) = 0 := by
      rw [Multiset.count_add, count_total fun _ => rfl]
      rfl
    rw [none]
    exact congrArg (· + 0) (Inner.waitingAt_put_of_eq (ws.sweep matching) present rfl)
  case snapshot todo covers =>
    rw [pumps, count_total fun _ => rfl]
    rfl
  all_goals rfl

/-- Every accepted call has one ticket. -/
theorem tickets (posting : Posting inner loss inner' gain) (waiting : Waiting) :
    gain.count (.ticketed waiting) + (inner.accepted.map Prod.snd).count waiting =
      loss.count (.ticketed waiting) + (inner'.accepted.map Prod.snd).count waiting := by
  cases posting
  case enqueue id ws other present =>
    have gained : (({.ticketed other} + {.pump id} : Multiset Holding)).count (.ticketed waiting) =
        [other].count waiting := by
      rw [Multiset.count_add, Multiset.count_singleton, List.count_singleton]
      simp only [Holding.ticketed.injEq, beq_iff_eq, eq_comm (a := waiting)]
      rfl
    rw [gained, Inner.enqueue]
    simp only [List.map_append, List.count_append, List.map_cons, List.map_nil]
    change _ = 0 + _
    omega
  case complete home ws other present =>
    have none : (other.out + {if ws.holdsProcess other.dispatch then .pumpAll else .pump home}).count
        (.ticketed waiting) = 0 := by
      split_ifs <;> rfl
    rw [none]
    rfl
  case sweep home ws matching present =>
    have none : ({.pump home} + (ws.swept matching).total Waiting.out).count
        (.ticketed waiting) = 0 := by
      rw [Multiset.count_add, count_total fun _ => rfl]
      rfl
    rw [none]
    rfl
  case snapshot todo covers =>
    rw [pumps, count_total fun _ => rfl]
    rfl
  all_goals rfl

/-- One shutdown sets the flag, and nothing clears it. -/
theorem shutdown (posting : Posting inner loss inner' gain) :
    gain.count .shuttingDown + (if inner.shuttingDown then 1 else 0) =
      loss.count .shuttingDown + (if inner'.shuttingDown then 1 else 0) := by
  cases posting
  case shut running =>
    simp only [running, Bool.false_eq_true, if_false, if_true]
    rfl
  case complete home ws other present =>
    have none : (other.out + {if ws.holdsProcess other.dispatch then .pumpAll else .pump home}).count
        .shuttingDown = 0 := by
      split_ifs <;> rfl
    rw [none]
    rfl
  case sweep home ws matching present =>
    have none : ({.pump home} + (ws.swept matching).total Waiting.out).count .shuttingDown = 0 := by
      rw [Multiset.count_add, count_total fun _ => rfl]
      rfl
    rw [none]
    rfl
  case snapshot todo covers =>
    rw [pumps, count_total fun _ => rfl]
    rfl
  all_goals rfl

/-- A call is numbered once, and its number stays with it until it is accepted or refused. -/
theorem numbers (posting : Posting inner loss inner' gain) : ∃ fresh dropped : Multiset Waiting,
    ((inner'.accepted.map Prod.snd : List Waiting) : Multiset Waiting) +
          gain.bind Holding.unplaced + dropped =
        ((inner.accepted.map Prod.snd : List Waiting) : Multiset Waiting) +
          loss.bind Holding.unplaced + fresh ∧
      (fresh = 0 ∧ inner'.dispatched = inner.dispatched ∨
        ∃ waiting, fresh = {waiting} ∧ waiting.dispatch = inner.dispatched ∧
          inner'.dispatched = inner.dispatched + 1) := by
  cases posting
  case number waiting numbered =>
    refine ⟨{waiting}, 0, ?_, .inr ⟨waiting, rfl, numbered, rfl⟩⟩
    change (_ + {waiting} + 0 : Multiset Waiting) = _ + 0 + {waiting}
    rw [add_zero, add_zero]
  case leaveRoom id ws waiting present stopping =>
    refine ⟨0, {waiting}, ?_, .inl ⟨rfl, rfl⟩⟩
    change (_ + 0 + {waiting} : Multiset Waiting) = _ + {waiting} + 0
    rw [add_zero, add_zero]
    rfl
  case enqueue id ws waiting present =>
    refine ⟨0, 0, ?_, .inl ⟨rfl, rfl⟩⟩
    rw [add_zero, add_zero, Inner.enqueue, List.map_append, ← Multiset.coe_add]
    change (_ + {waiting} + 0 : Multiset Waiting) = _ + {waiting}
    rw [add_zero]
  case complete home ws waiting present =>
    have none : (waiting.out + {if ws.holdsProcess waiting.dispatch then .pumpAll else .pump home}).bind
        Holding.unplaced = 0 := by
      split_ifs <;> rfl
    rw [none]
    exact ⟨0, 0, rfl, .inl ⟨rfl, rfl⟩⟩
  case sweep home ws matching present =>
    rw [Multiset.add_bind, total_out_unplaced]
    exact ⟨0, 0, rfl, .inl ⟨rfl, rfl⟩⟩
  case snapshot todo covers =>
    rw [pumps_bind _ fun _ => rfl]
    exact ⟨0, 0, rfl, .inl ⟨rfl, rfl⟩⟩
  all_goals exact ⟨0, 0, rfl, .inl ⟨rfl, rfl⟩⟩

/-- The running entries of active calls that meet a test. -/
private theorem entries_total {α : Type} (test : Dispatch × Running → Bool)
    {share : α → Multiset Holding}
    (none : ∀ party, ((share party).map (Holding.entries test)).sum = 0) (parties : List α) :
    ((parties.total share).map (Holding.entries test)).sum = 0 := by
  induction parties with
  | nil => rfl
  | cons party parties ih => rw [List.total_cons, Multiset.map_add, Multiset.sum_add, none, ih]

private theorem activeAt_singleton (home id : WorkspaceId) (waiting : Waiting) :
    (({.active home waiting} : Multiset Holding).bind (Holding.activeAt id)).map Waiting.entry =
      if home = id then {waiting.entry} else 0 := by
  rw [Multiset.singleton_bind, Holding.activeAt]
  split_ifs <;> rfl

/-- Running entries and calls held active come and go together. -/
theorem running (posting : Posting inner loss inner' gain) (ledger : Ledger inner (rest + loss))
    (id : WorkspaceId) :
    inner'.runningAt id + (loss.bind (Holding.activeAt id)).map Waiting.entry =
      inner.runningAt id + (gain.bind (Holding.activeAt id)).map Waiting.entry := by
  cases posting
  case take home ws head tail processes present queue lets slot =>
    have inserted := ledger.insertRunning_eq present (queue ▸ List.mem_cons_self)
    rw [Multiset.add_bind, Multiset.map_add, activeAt_singleton]
    change (inner.put home (ws.take head tail)).runningAt id + 0 = _ + (0 + _)
    rw [Inner.runningAt_put _ present, zero_add, add_zero]
    by_cases same : id = home
    · rw [if_pos same, if_pos same.symm, same, Inner.runningAt_eq present, Workspace.take, inserted,
        ← Multiset.cons_coe, ← Multiset.singleton_add, add_comm]
    · rw [if_neg same, if_neg (Ne.symm same), add_zero]
  case complete home ws waiting present =>
    have none : ((waiting.out +
        {if ws.holdsProcess waiting.dispatch then .pumpAll else .pump home}).bind
          (Holding.activeAt id)).map Waiting.entry = 0 := by
      split_ifs <;> rfl
    rw [none, activeAt_singleton, add_zero]
    change (inner.put home (ws.remove waiting.dispatch)).runningAt id + _ = _
    rw [Inner.runningAt_put _ present]
    by_cases same : id = home
    · rw [if_pos same, if_pos same.symm, same, Inner.runningAt_eq present,
        (ledger.remove_running present).1, ← Multiset.singleton_add, add_comm]
    · rw [if_neg same, if_neg (Ne.symm same), add_zero]
  case create key absent =>
    change _ + 0 = _ + 0
    rw [add_zero, add_zero]
    simp only [Inner.runningAt, Inner.create]
    rcases Nat.lt_trichotomy id inner.objects.length with old | new | beyond
    · rw [List.getElem?_append_left old]
    · rw [new, List.getElem?_concat_length, List.getElem?_eq_none le_rfl]
      rfl
    · have more : (inner.objects ++ [{ Workspace.create key with waiting := 1 }]).length ≤ id := by
        rw [List.length_append, List.length_singleton]
        exact beyond
      rw [List.getElem?_eq_none beyond.le, List.getElem?_eq_none more]
  case join key home ws found present =>
    exact congrArg (· + 0)
      (Inner.runningAt_put_of_eq { ws with waiting := ws.waiting + 1 } present rfl)
  case leaveRoom home ws waiting present stopping =>
    exact congrArg (· + 0)
      (Inner.runningAt_put_of_eq { ws with waiting := ws.waiting - 1 } present rfl)
  case enqueue home ws waiting present =>
    exact congrArg (· + 0) (Inner.runningAt_put_of_eq { ws with
      queue := ws.queue ++ [waiting], waiting := ws.waiting - 1 } present rfl)
  case sweep home ws matching present =>
    rw [Multiset.add_bind, total_out_activeAt]
    exact congrArg (· + 0) (Inner.runningAt_put_of_eq (ws.sweep matching) present rfl)
  case snapshot todo covers =>
    rw [pumps_bind _ fun _ => rfl]
    rfl
  all_goals rfl

/-- Counted by any test, running entries come and go with the calls held active. -/
theorem entries (posting : Posting inner loss inner' gain) (ledger : Ledger inner (rest + loss))
    (test : Dispatch × Running → Bool) :
    inner'.entries test + (loss.map (Holding.entries test)).sum =
      inner.entries test + (gain.map (Holding.entries test)).sum := by
  cases posting
  case take id ws head tail processes present queue lets slot =>
    have balance := Inner.entries_put (ws.take head tail) test present
    have more : (ws.take head tail).entries test =
        ws.entries test + if test head.entry then 1 else 0 := by
      rw [Workspace.entries, Workspace.take,
        ledger.insertRunning_eq present (queue ▸ List.mem_cons_self), List.countP_cons]
      rfl
    change (inner.put id (ws.take head tail)).entries test + 0 =
      inner.entries test + (0 + if test head.entry then 1 else 0)
    omega
  case complete id ws waiting present =>
    have balance := Inner.entries_put (ws.remove waiting.dispatch) test present
    have fewer : ws.entries test = (ws.remove waiting.dispatch).entries test +
        if test waiting.entry then 1 else 0 := by
      have perm := Multiset.coe_eq_coe.mp (ledger.remove_running present).1
      rw [Workspace.entries, perm.countP_eq, List.countP_cons]
      rfl
    have none : ((waiting.out + {if ws.holdsProcess waiting.dispatch then .pumpAll
        else .pump id}).map (Holding.entries test)).sum = 0 := by
      split_ifs <;> rfl
    rw [none]
    change (inner.put id (ws.remove waiting.dispatch)).entries test +
      (if test waiting.entry then 1 else 0) = inner.entries test + 0
    omega
  case join key id ws found present =>
    exact congrArg (· + 0)
      (Inner.entries_put_of_eq { ws with waiting := ws.waiting + 1 } test present rfl)
  case leaveRoom id ws waiting present stopping =>
    exact congrArg (· + 0)
      (Inner.entries_put_of_eq { ws with waiting := ws.waiting - 1 } test present rfl)
  case enqueue id ws waiting present =>
    exact congrArg (· + 0) (Inner.entries_put_of_eq { ws with
      queue := ws.queue ++ [waiting], waiting := ws.waiting - 1 } test present rfl)
  case create key absent =>
    rw [Inner.entries, Inner.create, List.total_append]
    rfl
  case sweep id ws matching present =>
    rw [Multiset.map_add, Multiset.sum_add, entries_total test fun _ => rfl]
    exact congrArg (· + 0) (Inner.entries_put_of_eq (ws.sweep matching) test present rfl)
  case snapshot todo covers =>
    rw [pumps, entries_total test fun _ => rfl]
    rfl
  all_goals rfl

/-- Only a producer that found its workspace in the map, under the map's lock, adds to it. -/
theorem mapped (posting : Posting inner loss inner' gain) (ledger : Ledger inner (rest + loss)) :
    Mapped inner' := by
  have mapped := ledger.mapped
  cases posting
  case join key id ws found present =>
    obtain ⟨member, old, there, named⟩ := mapped.find found
    obtain rfl : ws = old := Option.some.inj (present.symm.trans there)
    subst named
    exact mapped.put _ present rfl rfl rfl fun _ => member
  case create key absent => exact mapped.create absent
  case leaveRoom id ws waiting present stopping =>
    refine mapped.put { ws with waiting := ws.waiting - 1 } present rfl rfl rfl fun after => ?_
    refine mapped.busy id ws present (Workspace.not_idle_of after ?_)
    rintro ⟨queue, running, none⟩
    exact ⟨queue, running, by rw [none]⟩
  case enqueue id ws waiting present =>
    refine mapped.put { ws with
      queue := ws.queue ++ [waiting], waiting := ws.waiting - 1 } present rfl rfl rfl fun _ => ?_
    refine mapped.busy id ws present (Bool.eq_false_iff.mpr fun idle => ?_)
    have none := (Workspace.isIdle_iff.mp idle).2.2
    have counted := ledger.producers id
    rw [Inner.waitingAt_eq present, none, Multiset.count_add, count_submission, if_pos rfl] at counted
    omega
  case take id ws head tail processes present queue lets slot =>
    refine mapped.put (ws.take head tail) present rfl rfl rfl fun _ => ?_
    refine mapped.busy id ws present (Bool.eq_false_iff.mpr fun idle => ?_)
    rw [(Workspace.isIdle_iff.mp idle).1] at queue
    exact absurd queue.symm (List.cons_ne_nil head tail)
  case complete id ws waiting present =>
    refine mapped.put (ws.remove waiting.dispatch) present rfl rfl rfl fun after => ?_
    refine mapped.busy id ws present (Workspace.not_idle_of after ?_)
    rintro ⟨queue, running, none⟩
    exact ⟨queue, by rw [Workspace.remove, running, List.filter_nil], none⟩
  case sweep id ws matching present =>
    refine mapped.put (ws.sweep matching) present rfl rfl rfl fun after => ?_
    refine mapped.busy id ws present (Workspace.not_idle_of after ?_)
    rintro ⟨queue, running, none⟩
    exact ⟨by rw [Workspace.sweep, queue, List.filter_nil], running, none⟩
  case forget contended => exact mapped.forgetIdle contended
  all_goals exact ⟨mapped.keys, mapped.valid, mapped.busy⟩

/-- The step lemma of the books. -/
theorem ledger (posting : Posting inner loss inner' gain) (ledger : Ledger inner (rest + loss)) :
    Ledger inner' (rest + gain) :=
  { -- the accounts are additive, so what one posting moves is all that changes
    calls := by
      have before := ledger.calls
      have moved := posting.calls
      rw [Multiset.add_bind] at before ⊢
      refine add_right_cancel (b := ((inner.accepted.map Prod.snd : List Waiting) : Multiset Waiting)) ?_
      calc _ = rest.bind Holding.call + (inner'.queued + gain.bind Holding.call +
            (inner'.settled.map Prod.fst : List Waiting) +
            (inner.accepted.map Prod.snd : List Waiting)) := by abel
        _ = _ := by rw [moved, ← before]; abel
    numbers := by
      have before := ledger.numbers
      obtain ⟨fresh, dropped, moved, next⟩ := posting.numbers
      rw [Multiset.add_bind] at before ⊢
      have total : (inner'.accepted.map Prod.snd : List Waiting) +
          (rest.bind Holding.unplaced + gain.bind Holding.unplaced) + dropped =
          (inner.accepted.map Prod.snd : List Waiting) +
            (rest.bind Holding.unplaced + loss.bind Holding.unplaced) + fresh := by
        rw [add_left_comm, add_assoc, moved]
        abel
      refine Numbered.of_le ?_ (Multiset.le_add_right _ dropped)
      rw [total]
      rcases next with ⟨rfl, same⟩ | ⟨waiting, rfl, numbered, more⟩
      · rw [add_zero, same]
        exact before
      · rw [more]
        exact before.add_next numbered
    running := fun id => by
      have before := ledger.running id
      have moved := posting.running ledger id
      rw [Multiset.add_bind, Multiset.map_add] at before ⊢
      rw [before, add_right_comm] at moved
      exact add_right_cancel moved
    claims := by
      have before := ledger.claims
      rw [Multiset.add_bind] at before ⊢
      have moved := posting.claims fun call member => by
        rw [← Finset.mem_val, before]
        exact Multiset.mem_add.mpr (.inr (Multiset.mem_add.mpr (.inr member)))
      rw [before] at moved
      refine add_right_cancel (b := inner.queued.map Waiting.call + loss.bind Holding.claims) ?_
      rw [← add_assoc, moved]
      abel
    entries := fun test => by
      have before := ledger.entries test
      have moved := posting.entries ledger test
      rw [Multiset.map_add, Multiset.sum_add] at before ⊢
      omega
    producers := fun id => by
      have before := ledger.producers id
      rw [Multiset.count_add] at before ⊢
      have moved := posting.producers id (by omega)
      omega
    tickets := fun waiting => by
      have before := ledger.tickets waiting
      have moved := posting.tickets waiting
      rw [Multiset.count_add] at before ⊢
      omega
    shutdown := by
      have before := ledger.shutdown
      have moved := posting.shutdown
      rw [Multiset.count_add] at before ⊢
      omega
    mapped := posting.mapped ledger }

end Posting

theorem Posts.ledger {inner inner' : Inner} {held held' : Multiset Holding}
    (posts : Posts inner held inner' held') (ledger : Ledger inner held) : Ledger inner' held' := by
  obtain ⟨rest, loss, gain, posting, rfl, rfl⟩ := posts
  exact posting.ledger ledger

theorem Ledger.start (processes : ℕ) : Ledger (.withProcessLimit processes) 0 where
  calls := rfl
  numbers := ⟨Multiset.nodup_zero, fun _ member => absurd member (Multiset.notMem_zero _)⟩
  running _ := rfl
  claims := rfl
  entries _ := rfl
  producers _ := rfl
  tickets _ := rfl
  shutdown := rfl
  mapped := ⟨List.nodup_nil, fun _ member => absurd member List.not_mem_nil,
    fun _ _ present => absurd present (Option.some_ne_none _).symm⟩

/-- The books balance in every reachable state. -/
theorem Scheduler.ledger {state : Scheduler} (reachable : machine.Reachable state) :
    Ledger state.inner state.holdings := by
  refine reachable.invariant (P := fun state : Scheduler => Ledger state.inner state.holdings) ?_ ?_
  · rintro state ⟨processes, rfl⟩
    exact .start processes
  · exact fun state action next ledger step => (Scheduler.step_posts step).ledger ledger

end Harkness.Runtime.Schedule
