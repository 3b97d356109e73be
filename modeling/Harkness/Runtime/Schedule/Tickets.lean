import Harkness.Runtime.Schedule.Ledger
import Mathlib.Algebra.Order.BigOperators.Group.Multiset
import Mathlib.Algebra.Order.Group.Nat

/-! # One place and one ticket for every accepted call

An accepted call is at every moment in exactly one place: a queue, a running set, the hands of the
worker or the stop that settles it next, or among the settled. A claim names a call that is being
submitted, is in a queue or a running set, or is still to be released by the thread that took it out.
-/

namespace Harkness.Runtime.Schedule

/-- How many places a call has in queues. -/
def Inner.timesQueued (inner : Inner) (waiting : Waiting) : ℕ := inner.queued.count waiting

/-- How many running entries a call has. -/
def Inner.timesRunning (inner : Inner) (waiting : Waiting) : ℕ :=
  inner.entries fun entry => entry.1 == waiting.dispatch

/-- How many times a call's ticket was settled. -/
def Inner.timesSettled (inner : Inner) (waiting : Waiting) : ℕ :=
  (inner.settled.map Prod.fst).count waiting

/-- How many threads took a call out and have yet to settle it. -/
def Scheduler.timesCarried (state : Scheduler) (waiting : Waiting) : ℕ :=
  state.holdings.count (.carried waiting)

/-- A call identity some accepted call has in a queue or a running set. -/
def Scheduler.Live (state : Scheduler) (call : ToolCallId) : Prop :=
  ∃ waiting ∈ state.inner.accepted.map Prod.snd, waiting.call = call ∧
    (state.inner.timesQueued waiting ≠ 0 ∨ state.inner.timesRunning waiting ≠ 0)

instance (state : Scheduler) (call : ToolCallId) : Decidable (state.Live call) :=
  inferInstanceAs (Decidable (∃ waiting ∈ state.inner.accepted.map Prod.snd, waiting.call = call ∧
    (state.inner.timesQueued waiting ≠ 0 ∨ state.inner.timesRunning waiting ≠ 0)))

variable {inner : Inner} {held : Multiset Holding} {state : Scheduler}

namespace Ledger

/-- Accepted calls are named by their numbers. -/
theorem eq_of_dispatch (ledger : Ledger inner held) {a b : Waiting}
    (left : a ∈ inner.accepted.map Prod.snd) (right : b ∈ inner.accepted.map Prod.snd)
    (same : a.dispatch = b.dispatch) : a = b :=
  Multiset.inj_on_of_nodup_map ledger.accepted_distinct a left b right same

theorem accepted_of_call (ledger : Ledger inner held) {waiting : Waiting}
    (member : waiting ∈ held.bind Holding.call) : waiting ∈ inner.accepted.map Prod.snd := by
  rw [← Multiset.mem_coe, ← ledger.calls]
  exact Multiset.mem_add.mpr (.inl (Multiset.mem_add.mpr (.inr member)))

theorem accepted_of_active (ledger : Ledger inner held) {id : WorkspaceId} {waiting : Waiting}
    (active : Holding.active id waiting ∈ held) : waiting ∈ inner.accepted.map Prod.snd :=
  ledger.accepted_of_call
    (Multiset.mem_bind.mpr ⟨_, active, Multiset.mem_singleton_self waiting⟩)

theorem accepted_of_queued (ledger : Ledger inner held) {waiting : Waiting}
    (member : waiting ∈ inner.queued) : waiting ∈ inner.accepted.map Prod.snd := by
  rw [← Multiset.mem_coe, ← ledger.calls]
  exact Multiset.mem_add.mpr (.inl (Multiset.mem_add.mpr (.inl member)))

private theorem sum_carried (waiting : Waiting) (held : Multiset Holding) :
    (held.map fun holding => if holding = .carried waiting then 1 else 0).sum =
      held.count (.carried waiting) := by
  induction held using Multiset.induction with
  | empty => rfl
  | cons holding held ih =>
    rw [Multiset.map_cons, Multiset.sum_cons, ih, Multiset.count_cons, add_comm]
    simp only [eq_comm]

/-- A call in hand is active or carried, and only its own running entry has its number. -/
private theorem count_call (ledger : Ledger inner held) {waiting : Waiting}
    (accepted : waiting ∈ inner.accepted.map Prod.snd) :
    (held.bind Holding.call).count waiting =
      inner.timesRunning waiting + held.count (.carried waiting) := by
  have each : ∀ holding ∈ held, holding.call.count waiting =
      holding.entries (fun entry => entry.1 == waiting.dispatch) +
        if holding = .carried waiting then 1 else 0 := by
    intro holding member
    cases holding with
    | active id other =>
      simp only [Holding.call, Holding.entries, Waiting.entry, Multiset.count_singleton,
        reduceCtorEq, if_false, add_zero, beq_iff_eq]
      refine if_congr ⟨fun same => same ▸ rfl, fun same => ?_⟩ rfl rfl
      exact ledger.eq_of_dispatch accepted (ledger.accepted_of_active member) same.symm
    | carried other =>
      simp only [Holding.call, Holding.entries, Multiset.count_singleton, Holding.carried.injEq,
        zero_add, eq_comm]
    | _ => rfl
  rw [Multiset.count_bind, Multiset.map_congr rfl each, Multiset.sum_map_add, sum_carried,
    Inner.timesRunning, ledger.entries]

/-- An accepted call is in one place. -/
theorem one_place (ledger : Ledger inner held) {waiting : Waiting}
    (accepted : waiting ∈ inner.accepted.map Prod.snd) :
    inner.timesQueued waiting + inner.timesRunning waiting + held.count (.carried waiting) +
      inner.timesSettled waiting = 1 := by
  have counted := congrArg (Multiset.count waiting) ledger.calls
  have once := Multiset.count_eq_one_of_mem
    (Multiset.Nodup.of_map Waiting.dispatch ledger.accepted_distinct) (Multiset.mem_coe.mpr accepted)
  rw [once, Multiset.count_add, Multiset.count_add, ledger.count_call accepted,
    Multiset.coe_count] at counted
  simp only [Inner.timesQueued, Inner.timesSettled]
  omega

theorem active_of_timesRunning (ledger : Ledger inner held) {waiting : Waiting}
    (accepted : waiting ∈ inner.accepted.map Prod.snd) (running : inner.timesRunning waiting ≠ 0) :
    ∃ id, Holding.active id waiting ∈ held := by
  rw [Inner.timesRunning, ledger.entries, ne_eq, Multiset.sum_eq_zero_iff] at running
  simp only [not_forall] at running
  obtain ⟨count, member, positive⟩ := running
  obtain ⟨holding, holds, rfl⟩ := Multiset.mem_map.mp member
  cases holding with
  | active id other =>
    have same : other.dispatch = waiting.dispatch := by
      by_contra apart
      exact positive (if_neg fun matching => apart (beq_iff_eq.mp matching))
    obtain rfl := ledger.eq_of_dispatch (ledger.accepted_of_active holds) accepted same
    exact ⟨id, holds⟩
  | _ => exact absurd rfl positive

theorem timesRunning_of_active (ledger : Ledger inner held) {id : WorkspaceId} {waiting : Waiting}
    (active : Holding.active id waiting ∈ held) : inner.timesRunning waiting ≠ 0 := by
  rw [Inner.timesRunning, ledger.entries]
  intro none
  have zero := Multiset.sum_eq_zero_iff.mp none _ (Multiset.mem_map_of_mem _ active)
  simp only [Holding.entries, Waiting.entry, beq_self_eq_true, if_true, one_ne_zero] at zero

theorem claims_distinct (ledger : Ledger inner held) :
    (inner.queued.map Waiting.call + held.bind Holding.claims).Nodup := by
  rw [← ledger.claims]
  exact inner.claimed.nodup

/-- Two different holdings do not answer for one claim. -/
theorem claim_once (ledger : Ledger inner held) {call : ToolCallId} {first second : Holding}
    (left : first ∈ held) (right : second ∈ held) (claims : call ∈ first.claims)
    (again : call ∈ second.claims) : first = second := by
  by_contra apart
  have distinct := (Multiset.nodup_add.mp ledger.claims_distinct).2.1
  obtain ⟨others, rfl⟩ := Multiset.exists_cons_of_mem left
  have there := (Multiset.mem_cons.mp right).resolve_left (Ne.symm apart)
  rw [Multiset.cons_bind, Multiset.nodup_add] at distinct
  exact Multiset.disjoint_left.mp distinct.2.2 claims (Multiset.mem_bind.mpr ⟨second, there, again⟩)

/-- A queued call and a holding do not answer for one claim. -/
theorem claim_queued (ledger : Ledger inner held) {waiting : Waiting} {holding : Holding}
    (queued : waiting ∈ inner.queued) (member : holding ∈ held) :
    waiting.call ∉ holding.claims := by
  intro claims
  refine Multiset.disjoint_left.mp (Multiset.nodup_add.mp ledger.claims_distinct).2.2
    (Multiset.mem_map_of_mem _ queued) (Multiset.mem_bind.mpr ⟨holding, member, claims⟩)

end Ledger

namespace Scheduler

/-- A live call is queued or held active. -/
theorem live_cases (ledger : Ledger state.inner state.holdings) {waiting : Waiting}
    (accepted : waiting ∈ state.inner.accepted.map Prod.snd)
    (live : state.inner.timesQueued waiting ≠ 0 ∨ state.inner.timesRunning waiting ≠ 0) :
    waiting ∈ state.inner.queued ∨ ∃ id, Holding.active id waiting ∈ state.holdings :=
  live.imp Multiset.count_ne_zero.mp (ledger.active_of_timesRunning accepted)

/-- One identity is not live twice. -/
theorem live_once (ledger : Ledger state.inner state.holdings) {a b : Waiting}
    (left : a ∈ state.inner.queued ∨ ∃ id, Holding.active id a ∈ state.holdings)
    (right : b ∈ state.inner.queued ∨ ∃ id, Holding.active id b ∈ state.holdings)
    (same : a.call = b.call) : a = b := by
  rcases left with queued | ⟨id, active⟩ <;> rcases right with queued' | ⟨id', active'⟩
  · exact Multiset.inj_on_of_nodup_map (Multiset.nodup_add.mp ledger.claims_distinct).1 a queued b
      queued' same
  · exact absurd (Multiset.mem_singleton.mpr same) (ledger.claim_queued queued active')
  · exact absurd (Multiset.mem_singleton.mpr same.symm) (ledger.claim_queued queued' active)
  · have one := ledger.claim_once active active' (Multiset.mem_singleton_self a.call)
      (Multiset.mem_singleton.mpr same)
    injection one

theorem mem_claimed (ledger : Ledger state.inner state.holdings) (call : ToolCallId) :
    call ∈ state.inner.claimed ↔ Holding.submitting call ∈ state.holdings ∨ state.Live call ∨
      Holding.unreleased call ∈ state.holdings := by
  rw [← Finset.mem_val, ledger.claims, Multiset.mem_add, Multiset.mem_bind]
  constructor
  · rintro (queued | ⟨holding, holds, claims⟩)
    · obtain ⟨waiting, member, rfl⟩ := Multiset.mem_map.mp queued
      exact .inr (.inl ⟨waiting, ledger.accepted_of_queued member, rfl,
        .inl (Multiset.count_ne_zero.mpr member)⟩)
    · cases holding with
      | submitting other =>
        obtain rfl := Multiset.mem_singleton.mp claims
        exact .inl holds
      | unreleased other =>
        obtain rfl := Multiset.mem_singleton.mp claims
        exact .inr (.inr holds)
      | active id waiting =>
        obtain rfl := Multiset.mem_singleton.mp claims
        exact .inr (.inl ⟨waiting, ledger.accepted_of_active holds, rfl,
          .inr (ledger.timesRunning_of_active holds)⟩)
      | _ => exact absurd claims (Multiset.notMem_zero _)
  · rintro (holds | ⟨waiting, accepted, rfl, live⟩ | holds)
    · exact .inr ⟨_, holds, Multiset.mem_singleton_self call⟩
    · rcases live_cases ledger accepted live with queued | ⟨id, active⟩
      · exact .inl (Multiset.mem_map_of_mem _ queued)
      · exact .inr ⟨_, active, Multiset.mem_singleton_self waiting.call⟩
    · exact .inr ⟨_, holds, Multiset.mem_singleton_self call⟩

/-- In every reachable state an accepted call is in exactly one place, so it is settled at most once;
a claimed identity is being submitted, live, or in the hands of a thread that has yet to release it;
and no identity is live twice, or live while it is being submitted. -/
theorem one_ticket (reachable : machine.Reachable state) :
    (∀ waiting ∈ state.inner.accepted.map Prod.snd,
        state.inner.timesQueued waiting + state.inner.timesRunning waiting +
          state.timesCarried waiting + state.inner.timesSettled waiting = 1) ∧
      (∀ waiting ∈ state.inner.settled.map Prod.fst, waiting ∈ state.inner.accepted.map Prod.snd) ∧
      (∀ call, call ∈ state.inner.claimed ↔ Holding.submitting call ∈ state.holdings ∨
        state.Live call ∨ Holding.unreleased call ∈ state.holdings) ∧
      (∀ call, Holding.submitting call ∈ state.holdings → ¬ state.Live call) ∧
      ∀ a ∈ state.inner.accepted.map Prod.snd, ∀ b ∈ state.inner.accepted.map Prod.snd,
        (state.inner.timesQueued a ≠ 0 ∨ state.inner.timesRunning a ≠ 0) →
        (state.inner.timesQueued b ≠ 0 ∨ state.inner.timesRunning b ≠ 0) →
          a.call = b.call → a = b := by
  have ledger := ledger reachable
  refine ⟨fun waiting accepted => ledger.one_place accepted, ?_, mem_claimed ledger, ?_, ?_⟩
  · intro waiting settled
    rw [← Multiset.mem_coe, ← ledger.calls]
    exact Multiset.mem_add.mpr (.inr settled)
  · rintro call submitting ⟨waiting, accepted, rfl, live⟩
    rcases live_cases ledger accepted live with queued | ⟨id, active⟩
    · exact ledger.claim_queued queued submitting (Multiset.mem_singleton_self waiting.call)
    · have one := ledger.claim_once submitting active (Multiset.mem_singleton_self waiting.call)
        (Multiset.mem_singleton_self waiting.call)
      contradiction
  · intro a left b right live live' same
    exact live_once ledger (live_cases ledger left live) (live_cases ledger right live') same

theorem one_ticket_sample : ∃ state, sample = some state ∧ state.inner.claimed = {7, 8} ∧
    ((∀ waiting ∈ state.inner.accepted.map Prod.snd,
        state.inner.timesQueued waiting + state.inner.timesRunning waiting +
          state.timesCarried waiting + state.inner.timesSettled waiting = 1) ∧
      (∀ waiting ∈ state.inner.settled.map Prod.fst, waiting ∈ state.inner.accepted.map Prod.snd) ∧
      (∀ call, call ∈ state.inner.claimed ↔ Holding.submitting call ∈ state.holdings ∨
        state.Live call ∨ Holding.unreleased call ∈ state.holdings) ∧
      (∀ call, Holding.submitting call ∈ state.holdings → ¬ state.Live call) ∧
      ∀ a ∈ state.inner.accepted.map Prod.snd, ∀ b ∈ state.inner.accepted.map Prod.snd,
        (state.inner.timesQueued a ≠ 0 ∨ state.inner.timesRunning a ≠ 0) →
        (state.inner.timesQueued b ≠ 0 ∨ state.inner.timesRunning b ≠ 0) →
          a.call = b.call → a = b) :=
  ⟨sample.get sample_isSome, (Option.some_get _).symm, by decide,
    one_ticket (sample_reachable (Option.some_get _).symm)⟩

/-- The small run, with the worker of call 7 past the first section of its completion. -/
def sampleCompleting : Option Scheduler :=
  machine.run? (initial 1) (sampleRun ++ [.finish 1 false, .advance 1 []])

private theorem sampleCompleting_isSome : sampleCompleting.isSome = true := by decide

/-- A worker frees its slots before it hands the result over: between the two its call is in no
queue and no running set and its ticket is unsettled, and its identity is claimed though it is
neither being submitted nor live. -/
theorem completed_before_settled : ∃ state, machine.Reachable state ∧
    ∃ waiting ∈ state.inner.accepted.map Prod.snd, state.inner.timesQueued waiting = 0 ∧
      state.inner.timesRunning waiting = 0 ∧ state.inner.timesSettled waiting = 0 ∧
        waiting.call ∈ state.inner.claimed ∧
          Holding.submitting waiting.call ∉ state.holdings ∧ ¬ state.Live waiting.call :=
  ⟨sampleCompleting.get sampleCompleting_isSome, .of_run? ⟨1, rfl⟩ (Option.some_get _).symm,
    by decide⟩

end Scheduler

end Harkness.Runtime.Schedule
