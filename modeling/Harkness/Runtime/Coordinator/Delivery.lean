import Harkness.Runtime.Coordinator.Follow

/-! # The receivers of a run

While no event is recorded once the last publish of the run is over, and no read of a replay fails while
events wait in the queue, every receiver follows the log: an open one has heard of what the publisher has
come to, a closed one of everything, unless it lags or a read has failed.
-/

namespace Harkness.Runtime.Coordinator

open Store

variable {π : Type} {state next : State π} {receiver : EventReceiver π}

/-- Nothing more is published: the worker's last publish is over, or the run ended elsewhere. -/
def State.Over (state : State π) : Prop :=
  match state.worker with
  | .published | .removed | .ended => True
  | .elsewhere => state.terminal = true
  | .starting | .driving => False

/-- The steps outside the two defects: no event is recorded when nothing more is published, and no read of a
replay fails while an event waits in the queue. -/
def Quiet (state : State π) : Step π → Prop
  | .append _ | .settle _ => ¬ state.Over
  | .replay index true =>
    ∀ receiver, state.receivers[index]? = some receiver → receiver.reads = true →
      ∀ stored, EventDelivery.event stored ∉ receiver.subscriber.items
  | _ => True

/-- What is true of a receiver in a state of the run. -/
inductive Kept (state : State π) (receiver : EventReceiver π) : Prop where
  | open_ (attached : receiver.attached = true) (open_ : receiver.subscriber.closed = false)
    (disconnected : receiver.disconnected = false) (unended : state.closed = false)
    (following : Following state.log receiver (max receiver.tip (state.cursor.getD 0)))
  | closed (heard : ℕ) (following : Following state.log receiver heard)
    (closed : receiver.subscriber.closed = true) (over_ : state.Over)
    (full : state.failed = false → heard = state.log.length)
    (empty : receiver.disconnected = true → receiver.subscriber.items = [] ∧ Replayed receiver.replay)
  | lagging (lagging : Lagging state.log receiver) (disconnected : receiver.disconnected = false)
  | lagged (lagged : Lagged state.log receiver)
  | broken (broken : Broken state.log receiver) (failed : state.failed = true)

theorem Kept.follows (kept : Kept state receiver) : Follows state.log receiver := by
  cases kept with
  | open_ _ _ _ _ following => exact .following _ following
  | closed heard following => exact .following heard following
  | lagging lagging => exact .lagging lagging
  | lagged lagged => exact .lagged lagged
  | broken broken => exact .broken broken

/-- A receiver nobody touches is kept while the log and the cursor stay. -/
theorem Kept.of_same (kept : Kept state receiver) (log : next.log = state.log)
    (cursor : next.cursor = state.cursor)
    (closed : next.closed = state.closed ∨ receiver.subscriber.closed = true)
    (failed : state.failed = true → next.failed = true) (over_ : state.Over → next.Over) :
    Kept next receiver := by
  cases kept with
  | open_ attached open_ disconnected unended following =>
    refine .open_ attached open_ disconnected ?_ (by rw [log, cursor]; exact following)
    rcases closed with same | closed
    · exact same.trans unended
    · rw [open_] at closed; cases closed
  | closed heard following closed over' full empty =>
    refine .closed heard (by rw [log]; exact following) closed (over_ over') (fun unfailed => ?_) empty
    rw [log]
    refine full (Bool.eq_false_iff.mpr fun set => ?_)
    rw [failed set] at unfailed
    cases unfailed
  | lagging lagging disconnected => exact .lagging (by rw [log]; exact lagging) disconnected
  | lagged lagged => exact .lagged (by rw [log]; exact lagged)
  | broken broken set => exact .broken (by rw [log]; exact broken) (failed set)

/-- While something may be published the log may grow. -/
theorem Kept.grow (kept : Kept state receiver) (grown : state.log <+: next.log)
    (cursor : next.cursor = state.cursor) (closed : next.closed = state.closed)
    (failed : next.failed = state.failed) (open_ : ¬ state.Over) : Kept next receiver := by
  cases kept with
  | open_ attached open_ disconnected unended following =>
    exact .open_ attached open_ disconnected (closed.trans unended) (cursor ▸ following.grow grown)
  | closed heard following closed over_ => exact absurd over_ open_
  | lagging lagging disconnected => exact .lagging (lagging.grow grown) disconnected
  | lagged lagged => exact .lagged (lagged.grow grown)
  | broken broken set => exact .broken (broken.grow grown) (failed.trans set)

theorem Subscriber.push_of_closed {subscriber : Subscriber π} (closed : subscriber.closed = true)
    (event : StoredEvent π) : subscriber.push event = subscriber := by
  unfold Subscriber.push
  rw [if_pos closed, ite_self]

theorem Subscriber.close_of_closed {subscriber : Subscriber π} (closed : subscriber.closed = true) :
    subscriber.close = subscriber :=
  congrArg (fun closed => Subscriber.mk _ closed _) closed.symm

theorem Kept.closed_of_ne_open (kept : Kept state receiver) :
    receiver.subscriber.closed = true ∨ receiver.attached = true ∧ receiver.subscriber.closed = false ∧
      receiver.disconnected = false ∧ state.closed = false ∧
      Following state.log receiver (max receiver.tip (state.cursor.getD 0)) := by
  cases kept with
  | open_ attached open_ disconnected unended following =>
    exact .inr ⟨attached, open_, disconnected, unended, following⟩
  | closed _ _ closed => exact .inl closed
  | lagging lagging => exact .inl lagging.closed
  | lagged lagged => exact .inl lagged.closed
  | broken broken => exact .inl broken.closed

/-- What is true of a run and of its delivery. -/
structure Tracked (state : State π) : Prop where
  logged : Logged state.log
  cursor : state.cursor.getD 0 ≤ state.log.length
  pending : ∀ pending last, state.holder = .publisher pending last →
    pending <+: state.log.drop (state.cursor.getD 0)
  last : ∀ pending, state.holder = .publisher pending true → state.worker = .driving
  /-- The tip a subscription has read, which is the end of the log where it will be closed. -/
  tip : ∀ terminal tip, state.holder = .subscription terminal tip →
    (tip.getD 0 ≤ state.log.length ∧ state.cursor.getD 0 ≤ tip.getD 0 ∧ tip ≠ some 0) ∧
      (terminal = true → state.terminal = true) ∧
        (state.Over → (state.worker = .elsewhere → terminal = true) → tip.getD 0 = state.log.length)
  fresh : state.worker = .starting → state.terminal = false
  published : state.Over → state.worker ≠ .elsewhere → state.failed = false →
    state.cursor.getD 0 = state.log.length
  ended : state.closed = true ↔ state.worker = .ended
  receivers : ∀ receiver ∈ state.receivers, Kept state receiver

theorem Logged.concat {log : List (StoredEvent π)} (logged : Logged log) (run : RunId)
    (event : RunEvent π) : Logged (log ++ [⟨run, log.length + 1, event⟩]) := by
  refine List.numbered_concat.2 ⟨logged, ?_⟩
  push_cast
  rfl

theorem logged_mapIdx (run : RunId) (history : List (RunEvent π)) :
    Logged (history.mapIdx fun i event => (⟨run, i + 1, event⟩ : StoredEvent π)) := by
  intro i within
  simp only [List.getElem_mapIdx]
  push_cast
  rfl

namespace Tracked

theorem start (run : RunId) (history : List (RunEvent π)) (here terminal : Bool) :
    Tracked (State.start run (history.mapIdx fun i event => ⟨run, i + 1, event⟩) here terminal) where
  logged := logged_mapIdx run history
  cursor := Nat.zero_le _
  pending := nofun
  last := nofun
  tip := nofun
  fresh := by cases here <;> simp [State.start]
  published := by cases here <;> simp [State.start, State.Over]
  ended := by cases here <;> simp [State.start]
  receivers := List.forall_mem_nil _

variable (tracked : Tracked state)
include tracked

/-- An event is recorded, and the record of the run may become terminal with it. -/
theorem record (open_ : ¬ state.Over) (event : RunEvent π) (terminal : Bool)
    (kept : state.terminal = true → terminal = true)
    (settles : terminal = state.terminal ∨ state.worker = .driving ∨ state.worker = .elsewhere) :
    Tracked { state.record event with terminal } := by
  have grown : state.log <+: (state.record event).log := List.prefix_append _ _
  have longer : state.log.length ≤ (state.record event).log.length := grown.length_le
  refine ⟨tracked.logged.concat state.run event, tracked.cursor.trans longer, ?_, tracked.last, ?_, ?_, ?_,
    tracked.ended, ?_⟩
  · intro pending last held
    have before := tracked.pending pending last held
    change pending <+: (state.log ++ _).drop (state.cursor.getD 0)
    rw [List.drop_append_of_le_length tracked.cursor]
    exact before.trans (List.prefix_append _ _)
  · intro loaded tip held
    obtain ⟨⟨bound, reached, positive⟩, terminal', -⟩ := tracked.tip loaded tip held
    refine ⟨⟨bound.trans longer, reached, positive⟩, fun set => kept (terminal' set), fun over_ elsewhere => ?_⟩
    -- A run that is over elsewhere was terminal when its record was loaded.
    refine absurd ?_ open_
    unfold State.Over at over_ ⊢
    cases here : state.worker with
    | elsewhere => exact terminal' (elsewhere here)
    | starting | driving => simp only [State.record, here] at over_
    | published | removed | ended => trivial
  · intro starting
    rcases settles with rfl | driving | elsewhere
    · exact tracked.fresh starting
    · exact absurd (starting.symm.trans driving) nofun
    · exact absurd (starting.symm.trans elsewhere) nofun
  · intro over_ here
    refine absurd ?_ open_
    unfold State.Over at over_ ⊢
    cases worker : state.worker with
    | elsewhere => exact absurd worker here
    | starting | driving => simp only [State.record, worker] at over_
    | published | removed | ended => trivial
  · intro receiver listed
    exact (tracked.receivers receiver listed).grow grown rfl rfl rfl open_

theorem activate (starting : state.worker = .starting) : Tracked { state with worker := .driving } := by
  have unover : ¬ state.Over := by rw [State.Over, starting]; exact id
  refine ⟨tracked.logged, tracked.cursor, tracked.pending, fun _ _ => rfl, ?_, nofun, fun over_ => ?_, ?_, ?_⟩
  · intro terminal tip held
    obtain ⟨bounds, loaded, -⟩ := tracked.tip terminal tip held
    exact ⟨bounds, loaded, fun over_ => absurd over_ id⟩
  · exact absurd over_ id
  · exact iff_of_false (fun closed => by rw [tracked.ended.mp closed] at starting; cases starting) nofun
  · intro receiver listed
    exact (tracked.receivers receiver listed).of_same rfl rfl (.inl rfl) id fun over_ => absurd over_ unover

theorem publish (last : Bool) (ready : last = true → state.worker = .driving) :
    Tracked { state with holder := .publisher [] last } := by
  refine ⟨tracked.logged, tracked.cursor, ?_, ?_, nofun, tracked.fresh, tracked.published, tracked.ended, ?_⟩
  · rintro _ _ ⟨⟩
    exact List.nil_prefix
  · rintro _ ⟨⟩
    exact ready rfl
  · intro receiver listed
    exact (tracked.receivers receiver listed).of_same rfl rfl (.inl rfl) id id

/-- The publisher lets go, at a read that failed or with everything published. -/
theorem release {pending : List (StoredEvent π)} {last : Bool} (held : state.holder = .publisher pending last)
    (failed : Bool) (kept : state.failed = true → failed = true)
    (reached : failed = false → state.cursor.getD 0 = state.log.length) :
    Tracked { state.release last with failed } := by
  have over_ : state.Over → ({ state.release last with failed } : State π).Over := by
    intro over_
    cases last with
    | false => exact over_
    | true => trivial
  refine ⟨tracked.logged, tracked.cursor, nofun, nofun, nofun, fun starting => ?_, fun _ _ => reached, ?_, ?_⟩
  · cases last with
    | false => exact tracked.fresh starting
    | true => cases starting
  · cases last with
    | false => exact tracked.ended
    | true =>
      have driving := tracked.last pending held
      exact iff_of_false (fun closed => by rw [tracked.ended.mp closed] at driving; cases driving) nofun
  · intro receiver listed
    exact (tracked.receivers receiver listed).of_same rfl rfl (.inl rfl) kept over_

theorem read {last : Bool} (held : state.holder = .publisher [] last)
    (fails : Bool) (taken : state.step (.read fails) = some next) : Tracked next := by
  simp only [State.step, held] at taken
  cases fails with
  | true => cases taken; exact tracked.release held true (fun _ => rfl) (absurd · Bool.noConfusion)
  | false =>
    simp only [Bool.false_eq_true, if_false] at taken
    split at taken
    · rename_i empty
      cases taken
      refine tracked.release held state.failed id fun _ => le_antisymm tracked.cursor ?_
      rw [page, List.take_eq_nil_iff] at empty
      rcases empty with none | none
      · cases none
      · exact List.drop_eq_nil_iff.mp none
    · cases taken
      refine ⟨tracked.logged, tracked.cursor, ?_, ?_, ?_, tracked.fresh, tracked.published, tracked.ended, ?_⟩
      · rintro _ _ ⟨⟩
        exact List.take_prefix _ _
      · rintro _ ⟨⟩
        exact tracked.last _ held
      · intro _ _ other
        cases other
      · intro receiver listed
        exact (tracked.receivers receiver listed).of_same rfl rfl (.inl rfl) id id

/-- One event is pushed to every receiver the publisher has. -/
theorem offer {event : StoredEvent π} {rest : List (StoredEvent π)} {last : Bool}
    (held : state.holder = .publisher (event :: rest) last) :
    Tracked { state.forward (·.push event) with
      cursor := some event.seq, holder := .publisher rest last } := by
  have pending := tracked.pending _ _ held
  have inside : state.cursor.getD 0 < state.log.length := by
    by_contra late
    rw [List.drop_eq_nil_of_le (Nat.not_lt.mp late), List.prefix_nil] at pending
    cases pending
  rw [List.drop_eq_getElem_cons inside, List.cons_prefix_cons] at pending
  obtain ⟨rfl, rest_⟩ := pending
  have seq := tracked.logged.seq inside
  refine ⟨tracked.logged, ?_, ?_, ?_, nofun, tracked.fresh, fun over_ here unfailed => ?_, tracked.ended, ?_⟩
  · rw [seq]; exact inside
  · rintro _ _ ⟨⟩
    rw [seq]
    exact rest_
  · rintro _ ⟨⟩
    exact tracked.last _ held
  · have reached := tracked.published over_ here unfailed
    omega
  · intro receiver listed
    obtain ⟨before, member, rfl⟩ := List.mem_map.mp listed
    have kept := tracked.receivers before member
    rcases kept.closed_of_ne_open with closed | ⟨attached, open_, disconnected, unended, following⟩
    · have same : (if before.attached = true then
          { before with subscriber := before.subscriber.push state.log[state.cursor.getD 0] }
          else before) = before := by
        rw [Subscriber.push_of_closed closed]
        exact ite_self _
      rw [same]
      cases kept with
      | open_ _ open_ => rw [open_] at closed; cases closed
      | closed heard following _ over_ full empty => exact .closed heard following closed over_ full empty
      | lagging lagging disconnected => exact .lagging lagging disconnected
      | lagged lagged => exact .lagged lagged
      | broken broken set => exact .broken broken set
    · rw [if_pos attached]
      rcases following.push tracked.logged open_ inside with ⟨still, further⟩ | lagging
      · refine .open_ attached still disconnected unended ?_
        dsimp only [Option.getD_some]
        rw [seq]
        exact further
      · exact .lagging lagging disconnected

theorem subscribe (terminal : Bool) (loaded : terminal = true → state.terminal = true) :
    Tracked { state with
      holder := .subscription terminal (state.log.getLast?.map StoredEvent.seq) } := by
  have last := tracked.logged.getLast?_seq
  refine ⟨tracked.logged, tracked.cursor, nofun, nofun, ?_, tracked.fresh, tracked.published, tracked.ended, ?_⟩
  · rintro _ _ ⟨⟩
    refine ⟨⟨last.le, tracked.cursor.trans last.ge, fun zero => ?_⟩, loaded, fun _ _ => last⟩
    rw [zero, Option.getD_some] at last
    rw [List.eq_nil_of_length_eq_zero last.symm] at zero
    cases zero
  · intro receiver listed
    exact (tracked.receivers receiver listed).of_same rfl rfl (.inl rfl) id id

omit tracked in
/-- A receiver that has just subscribed is to replay everything up to its tip. -/
theorem following_new {log : List (StoredEvent π)} {tip : Option ℕ} (bound : tip.getD 0 ≤ log.length)
    (positive : tip ≠ some 0) (subscriber : Subscriber π) (items : subscriber.items = [])
    (liveAfter : subscriber.liveAfter = tip) (attached : Bool) :
    Following log (.new subscriber attached tip) (tip.getD 0) := by
  have exhausted : tip.isNone = decide (tip.getD 0 ≤ 0) := by
    cases tip with
    | none => rfl
    | some tip =>
      exact (decide_eq_false fun none => positive (congrArg some (Nat.le_zero.mp none))).symm
  refine ⟨⟨bound, rfl, .inl ⟨le_rfl, Nat.zero_le _, rfl, exhausted⟩, nofun⟩, fun replayed => ?_, ?_, le_rfl,
    bound, Nat.zero_le _, liveAfter⟩
  · have none := replayed.exhausted
    change tip.isNone = true at none
    rw [exhausted] at none
    exact of_decide_eq_true none
  · change subscriber.items = asEvents (log.between (max 0 (tip.getD 0)) (tip.getD 0))
    rw [items, List.between_eq_nil (le_max_right _ _)]
    rfl

theorem attach {terminal : Bool} {tip : Option ℕ} (held : state.holder = .subscription terminal tip) :
    Tracked { state with
      holder := .nobody, receivers := state.receivers ++ [state.subscribed terminal tip] } := by
  obtain ⟨⟨bound, reached, positive⟩, loaded, full⟩ := tracked.tip terminal tip held
  refine ⟨tracked.logged, tracked.cursor, nofun, nofun, nofun, tracked.fresh, tracked.published, tracked.ended, ?_⟩
  intro receiver listed
  rcases List.mem_append.mp listed with before | new
  · exact (tracked.receivers receiver before).of_same rfl rfl (.inl rfl) id id
  · rw [List.mem_singleton] at new
    subst new
    unfold State.subscribed
    split
    · rename_i unheard
      -- Nothing is published any more, so the tip that was read is the end of the log.
      have over_ : state.Over ∧ (state.worker = .elsewhere → terminal = true) := by
        rw [Bool.or_eq_true, Bool.and_eq_true, Bool.not_eq_true'] at unheard
        unfold State.Over
        rcases unheard with closed | ⟨set, inactive⟩
        · rw [tracked.ended.mp closed]
          exact ⟨trivial, nofun⟩
        · cases here : state.worker with
          | elsewhere => exact ⟨loaded set, fun _ => set⟩
          | starting => rw [tracked.fresh here] at loaded; exact absurd (loaded set) nofun
          | driving | published => rw [here] at inactive; cases inactive
          | removed | ended => exact ⟨trivial, nofun⟩
      exact .closed _ (following_new bound positive (Subscriber.new tip).close rfl rfl false) rfl over_.1
        (fun _ => full over_.1 over_.2) nofun
    · rename_i heard
      rw [Bool.or_eq_true, not_or, Bool.not_eq_true] at heard
      refine .open_ rfl rfl rfl heard.1 ?_
      have heard : max (EventReceiver.new (.new tip) true tip : EventReceiver π).tip (state.cursor.getD 0) =
          tip.getD 0 := max_eq_left reached
      dsimp only
      rw [heard]
      exact following_new bound positive (.new tip) rfl rfl true

/-- One receiver takes a step of its own. -/
theorem set {index : ℕ} {changed : EventReceiver π} (failed : Bool) (kept : state.failed = true → failed = true)
    (changed_ : Kept { state with receivers := state.receivers.set index changed, failed } changed) :
    Tracked { state with receivers := state.receivers.set index changed, failed } := by
  refine ⟨tracked.logged, tracked.cursor, tracked.pending, tracked.last, tracked.tip, tracked.fresh,
    fun over_ here unfailed => tracked.published over_ here (Bool.eq_false_iff.mpr fun set => ?_), tracked.ended, ?_⟩
  · rw [kept set] at unfailed
    cases unfailed
  · intro receiver listed
    rcases List.mem_or_eq_of_mem_set listed with before | rfl
    · exact (tracked.receivers receiver before).of_same rfl rfl (.inl rfl) kept id
    · exact changed_

end Tracked

section receiver

variable {log : List (StoredEvent π)} (logged : Logged state.log) (kept : Kept state receiver)
include kept

include logged in
/-- The first part of a receive whose read succeeds. -/
theorem Kept.replayNext (idle : receiver.polling = false) :
    Kept state (receiver.replayNext (some (page state.log receiver.replay.cursor))) := by
  obtain ⟨same, attached', disconnected', tip'⟩ :=
    replayNext_subscriber receiver (page state.log receiver.replay.cursor)
  cases kept with
  | open_ attached open_ disconnected unended following =>
    refine .open_ (attached'.trans attached) (by rw [same]; exact open_) (disconnected'.trans disconnected)
      unended ?_
    rw [tip']
    exact following.replayNext logged idle
  | closed heard following closed over_ full empty =>
    refine .closed heard (following.replayNext logged idle) (by rw [same]; exact closed) over_ full ?_
    rw [disconnected', same]
    intro reported
    obtain ⟨none, replayed⟩ := empty reported
    rw [replayNext_of_replayed replayed]
    exact ⟨none, replayed⟩
  | lagging lagging disconnected =>
    exact .lagging (lagging.replayNext logged idle) (disconnected'.trans disconnected)
  | lagged lagged =>
    rw [replayNext_of_replayed lagged.replayed]
    exact .lagged ⟨lagged.replayed, lagged.closed, lagged.items, lagged.missed⟩
  | broken broken set =>
    rw [replayNext_of_replayed broken.replayed]
    exact .broken ⟨broken.replayed, broken.closed, broken.items, broken.delivered, broken.within⟩ set

/-- The first part of a receive whose read fails while no event waits in the queue. -/
theorem Kept.fail (reads : receiver.reads = true)
    (quiet : ∀ stored, EventDelivery.event stored ∉ receiver.subscriber.items) (set : next.failed = true)
    (log : next.log = state.log) : Kept next (receiver.replayNext none) := by
  have unreported : receiver.disconnected = false := by
    rw [EventReceiver.reads, Bool.and_eq_true, Bool.not_eq_true'] at reads
    obtain ⟨-, unexhausted⟩ := reads
    refine Bool.eq_false_iff.mpr fun reported => ?_
    have replayed : Replayed receiver.replay := by
      cases kept with
      | open_ _ _ disconnected | lagging _ disconnected => rw [disconnected] at reported; cases reported
      | closed _ _ _ _ _ empty => exact (empty reported).2
      | lagged lagged => exact lagged.replayed
      | broken broken => exact broken.replayed
    rw [replayed.exhausted] at unexhausted
    cases unexhausted
  rcases kept.follows.fail reads quiet with lagging | broken
  · refine .lagging (by rw [log]; exact lagging) ?_
    rw [replayNext_none reads]
    exact unreported
  · exact .broken (by rw [log]; exact broken) set

/-- The second part of a receive. -/
theorem Kept.receive (polling : receiver.polling = true) {after : EventReceiver π}
    (taken : receiver.receive = some after) : Kept state after := by
  cases kept with
  | open_ attached open_ disconnected unended following =>
    have further := following.receive polling taken
    unfold EventReceiver.receive at taken
    split at taken
    · cases taken
      exact .open_ attached open_ disconnected unended further
    · rw [open_] at taken
      cases taken
  | closed heard following closed over_ full empty =>
    have further := following.receive polling taken
    unfold EventReceiver.receive at taken
    split at taken
    · rename_i item rest held
      cases taken
      refine .closed heard further closed over_ full fun reported => ?_
      rw [(empty reported).1] at held
      cases held
    · rename_i held
      rw [if_pos closed] at taken
      cases taken
      exact .closed heard further closed over_ full fun _ => ⟨held, following.trail.polling polling⟩
  | lagging lagging => exact .lagged (lagging.receive polling taken)
  | lagged lagged =>
    rw [receive_of_empty lagged.items lagged.closed] at taken
    cases taken
    exact .lagged ⟨lagged.replayed, lagged.closed, lagged.items, lagged.missed⟩
  | broken broken set =>
    rw [receive_of_empty broken.items broken.closed] at taken
    cases taken
    exact .broken ⟨broken.replayed, broken.closed, broken.items, broken.delivered, broken.within⟩ set

/-- A receive that does not wait is given up. -/
theorem Kept.giveUp (open_ : receiver.subscriber.closed = false) :
    Kept state { receiver with polling := false } := by
  rcases kept.closed_of_ne_open with closed | ⟨attached, -, disconnected, unended, following⟩
  · rw [closed] at open_
    cases open_
  · refine .open_ attached open_ disconnected unended ⟨⟨following.trail.tip, following.trail.delivered,
      following.trail.replay, nofun⟩, following.passed, following.items, following.tip, following.within,
      following.delivered, following.liveAfter⟩

end receiver

namespace Tracked

variable (tracked : Tracked state)
include tracked

theorem replay {index : ℕ} {fails : Bool} (quiet : Quiet state (.replay index fails))
    (taken : state.step (.replay index fails) = some next) : Tracked next := by
  simp only [State.step] at taken
  split at taken
  · cases taken
  · rename_i receiver found
    have kept := tracked.receivers receiver (List.mem_of_getElem? found)
    split at taken <;> cases taken
    rename_i idle
    rw [Bool.not_eq_true] at idle
    refine tracked.set _ (fun set => by rw [set, Bool.true_or]) ?_
    cases fails with
    | false =>
      have same := kept.replayNext tracked.logged idle
      exact same.of_same rfl rfl (.inl rfl) (fun set => by rw [set, Bool.true_or]) id
    | true =>
      cases reads : receiver.reads with
      | true => exact kept.fail reads (quiet receiver found reads) (by simp) rfl
      | false =>
        have same : receiver.replayNext none =
            receiver.replayNext (some (page state.log receiver.replay.cursor)) := by
          unfold EventReceiver.replayNext
          rw [if_neg (by rw [reads]; exact Bool.false_ne_true),
            if_neg (by rw [reads]; exact Bool.false_ne_true)]
        simp only [if_true, same]
        exact (kept.replayNext tracked.logged idle).of_same rfl rfl (.inl rfl) (fun set => by rw [set, Bool.true_or]) id

theorem receive {index : ℕ} (taken : state.step (.receive index) = some next) : Tracked next := by
  simp only [State.step] at taken
  split at taken
  · cases taken
  · rename_i receiver found
    have kept := tracked.receivers receiver (List.mem_of_getElem? found)
    split at taken
    · rename_i polling
      obtain ⟨after, received, rfl⟩ := Option.map_eq_some_iff.mp taken
      exact tracked.set state.failed id ((kept.receive polling received).of_same rfl rfl (.inl rfl) id id)
    · cases taken

theorem giveUp {index : ℕ} (taken : state.step (.giveUp index) = some next) : Tracked next := by
  simp only [State.step] at taken
  split at taken
  · cases taken
  · rename_i receiver found
    have kept := tracked.receivers receiver (List.mem_of_getElem? found)
    split at taken <;> cases taken
    rename_i waits
    rw [Bool.and_eq_true, Bool.not_eq_true'] at waits
    exact tracked.set state.failed id ((kept.giveUp waits.2).of_same rfl rfl (.inl rfl) id id)

theorem remove (published : state.worker = .published) : Tracked { state with worker := .removed } := by
  have over_ : state.Over := by rw [State.Over, published]; trivial
  refine ⟨tracked.logged, tracked.cursor, tracked.pending, fun pending held => ?_, ?_, nofun,
    fun _ _ => tracked.published over_ (by rw [published]; nofun), ?_, ?_⟩
  · rw [tracked.last pending held] at published
    cases published
  · intro terminal tip held
    obtain ⟨bounds, loaded, full⟩ := tracked.tip terminal tip held
    exact ⟨bounds, loaded, fun _ _ => full over_ (by rw [published]; nofun)⟩
  · exact iff_of_false (fun closed => by rw [tracked.ended.mp closed] at published; cases published) nofun
  · intro receiver listed
    exact (tracked.receivers receiver listed).of_same rfl rfl (.inl rfl) id fun _ => trivial

/-- The worker closes every receiver the delivery has, and all that subscribe from then on. -/
theorem close (removed : state.worker = .removed) (free : state.holder = .nobody) :
    Tracked { state.forward (·.close) with closed := true, worker := .ended } := by
  have over_ : state.Over := by rw [State.Over, removed]; trivial
  have published := tracked.published over_ (by rw [removed]; nofun)
  refine ⟨tracked.logged, tracked.cursor, fun _ _ held => ?_, fun _ held => ?_, fun _ _ held => ?_, nofun,
    fun _ _ => published, iff_of_true rfl rfl, ?_⟩
  · exact absurd (free.symm.trans held) nofun
  · exact absurd (free.symm.trans held) nofun
  · exact absurd (free.symm.trans held) nofun
  · intro receiver listed
    obtain ⟨before, member, rfl⟩ := List.mem_map.mp listed
    have kept := tracked.receivers before member
    rcases kept.closed_of_ne_open with closed | ⟨attached, open_, disconnected, unended, following⟩
    · have same : (if before.attached = true then { before with subscriber := before.subscriber.close }
          else before) = before := by
        rw [Subscriber.close_of_closed closed]
        exact ite_self _
      rw [same]
      exact kept.of_same rfl rfl (.inr closed) id fun _ => trivial
    · rw [if_pos attached]
      refine .closed _ ⟨⟨following.trail.tip, following.trail.delivered, following.trail.replay,
        following.trail.polling⟩, following.passed, following.items, following.tip, following.within,
        following.delivered, following.liveAfter⟩ rfl trivial (fun unfailed => ?_) fun reported => ?_
      · rw [published unfailed]
        exact max_eq_right following.trail.tip
      · dsimp only at reported
        rw [disconnected] at reported
        cases reported

theorem step {step : Step π} (quiet : Quiet state step) (taken : state.step step = some next) :
    Tracked next := by
  cases step with
  | append event =>
    cases taken
    exact tracked.record quiet event state.terminal id (.inl rfl)
  | settle event =>
    simp only [State.step] at taken
    split at taken <;> cases taken <;> rename_i here
    · exact tracked.record quiet event true (fun _ => rfl) (.inr (.inl here))
    · exact tracked.record quiet event true (fun _ => rfl) (.inr (.inr here))
  | activate =>
    simp only [State.step] at taken
    split at taken <;> cases taken
    rename_i here
    exact tracked.activate here
  | publish last =>
    simp only [State.step] at taken
    split at taken
    · split at taken <;> cases taken
      rename_i ready
      exact tracked.publish last ready
    · cases taken
  | read fails =>
    have held := taken
    simp only [State.step] at held
    split at held
    · rename_i holder
      exact tracked.read holder fails taken
    · cases held
  | offer =>
    simp only [State.step] at taken
    split at taken <;> cases taken
    rename_i held
    exact tracked.offer held
  | subscribe terminal =>
    simp only [State.step] at taken
    split at taken
    · split at taken <;> cases taken
      rename_i loaded
      exact tracked.subscribe terminal loaded
    · cases taken
  | attach =>
    simp only [State.step] at taken
    split at taken <;> cases taken
    rename_i held
    exact tracked.attach held
  | replay index fails => exact tracked.replay quiet taken
  | receive index => exact tracked.receive taken
  | giveUp index => exact tracked.giveUp taken
  | remove =>
    simp only [State.step] at taken
    split at taken <;> cases taken
    rename_i here
    exact tracked.remove here
  | close =>
    simp only [State.step] at taken
    split at taken <;> cases taken
    rename_i here free
    exact tracked.close here free

end Tracked

theorem tracked_of_reached (reached : delivery.ReachedBy Quiet state) : Tracked state := by
  refine reached.invariant ?_ fun _ _ _ tracked quiet taken => tracked.step quiet taken
  rintro _ ⟨run, history, here, terminal, rfl⟩
  exact .start run history here terminal

end Harkness.Runtime.Coordinator
