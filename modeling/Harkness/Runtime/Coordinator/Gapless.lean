import Harkness.Runtime.Coordinator.Delivery

/-! # One gapless history

What a receiver delivers is the beginning of the log of the run, and all of it where it reports that it is
disconnected; and when the run has ended it comes to report so.
-/

namespace Harkness.Runtime.Coordinator

open Store

variable {π : Type} {state next : State π} {receiver : EventReceiver π} {index : ℕ}

/-- The steps of the consumer of one receiver whose reads succeed. -/
def Step.Consumes (index : ℕ) : Step π → Prop
  | .replay other false | .receive other => other = index
  | _ => False

/-- The receiver reports that it is disconnected when its consumer goes on. -/
def State.Disconnects (state : State π) (index : ℕ) : Prop :=
  delivery.Leads (Step.Consumes index)
    (fun last => ∃ receiver, last.receivers[index]? = some receiver ∧ receiver.disconnected = true) state

/-- What is true of the receivers of a run. -/
structure Gapless (state : State π) : Prop where
  /-- The events of the run are numbered from one. -/
  numbered : state.log.map StoredEvent.seq = List.range' 1 state.log.length
  /-- The first events are delivered, each once; after them at most the notice that some were withheld. -/
  history : ∀ receiver ∈ state.receivers, ∃ count ≤ state.log.length,
    receiver.delivered = asEvents (state.log.take count) ∨ count < state.log.length ∧
      ∃ run last, receiver.delivered = asEvents (state.log.take count) ++ [.lagged run last]
  /-- A receiver that is not lagged reports that it is disconnected after it has delivered every event. -/
  complete : state.failed = false → ∀ receiver ∈ state.receivers, receiver.disconnected = true →
    (∀ run last, EventDelivery.lagged run last ∉ receiver.delivered) → receiver.delivered = asEvents state.log
  /-- When the run has ended every receiver comes to report so. -/
  ends : state.worker = .ended → ∀ index < state.receivers.length, state.Disconnects index

/-- What a receive that succeeds changes: it comes to the queue, or delivers an event of the replay. -/
theorem Follows.advance (logged : Logged state.log) (idle : receiver.polling = false)
    (follows : Follows state.log receiver) :
    let after := receiver.replayNext (some (page state.log receiver.replay.cursor))
    after.polling = true ∧ after.delivered = receiver.delivered ∨
      after.polling = false ∧ after.delivered.length = receiver.delivered.length + 1 ∧
        receiver.delivered.length + 1 ≤ receiver.tip := by
  have moves (trail : Trail state.log receiver) :
      (receiver.replayNext (some (page state.log receiver.replay.cursor))).polling = true ∧
        (receiver.replayNext (some (page state.log receiver.replay.cursor))).delivered =
          receiver.delivered ∨
      (receiver.replayNext (some (page state.log receiver.replay.cursor))).polling = false ∧
        (receiver.replayNext (some (page state.log receiver.replay.cursor))).delivered.length =
          receiver.delivered.length + 1 ∧ receiver.delivered.length + 1 ≤ receiver.tip := by
    cases (trail.replayNext logged idle).2.2 with
    | delivers delivered length inside replaying polling => exact .inr ⟨polling, length, inside⟩
    | turns same replayed => rw [same]; exact .inl ⟨rfl, rfl⟩
  cases follows with
  | following heard following => exact moves following.trail
  | lagging lagging => exact moves lagging.trail
  | lagged lagged => rw [replayNext_of_replayed lagged.replayed]; exact .inl ⟨rfl, rfl⟩
  | broken broken => rw [replayNext_of_replayed broken.replayed]; exact .inl ⟨rfl, rfl⟩

theorem Follows.receive {log : List (StoredEvent π)} (follows : Follows log receiver)
    (polling : receiver.polling = true) {item : EventDelivery π} {rest : List (EventDelivery π)}
    (held : receiver.subscriber.items = item :: rest) {after : EventReceiver π}
    (taken : receiver.receive = some after) : Follows log after := by
  cases follows with
  | following heard following => exact .following heard (following.receive polling taken)
  | lagging lagging => exact .lagged (lagging.receive polling taken)
  | lagged lagged => rw [lagged.items] at held; cases held
  | broken broken => rw [broken.items] at held; cases held

/-- How many steps a consumer takes at most until the receiver reports its end. -/
def EventReceiver.remaining (receiver : EventReceiver π) : ℕ :=
  2 * (receiver.tip - receiver.delivered.length + receiver.subscriber.items.length) +
    if receiver.polling then 0 else 1

/-- A closed receiver reports its end after what is left of its replay and of its queue. -/
theorem disconnects_of_closed (logged : Logged state.log) (found : state.receivers[index]? = some receiver)
    (follows : Follows state.log receiver) (closed : receiver.subscriber.closed = true) :
    state.Disconnects index := by
  induction count : receiver.remaining using Nat.strong_induction_on generalizing state receiver with
  | h count ih =>
    have within : index < state.receivers.length := (List.getElem?_eq_some_iff.mp found).1
    cases polling : receiver.polling with
    | false =>
      have taken : state.step (.replay index false) = some { state with
          receivers := state.receivers.set index
            (receiver.replayNext (some (page state.log receiver.replay.cursor)))
          failed := state.failed || (false && receiver.reads) } := by
        simp only [State.step, found, polling, Bool.false_eq_true, if_false]
      obtain ⟨same, -, -, tip⟩ := replayNext_subscriber receiver (page state.log receiver.replay.cursor)
      refine .step (.replay index false) rfl taken (ih _ ?_ logged (List.getElem?_set_self within)
        (follows.replayNext logged polling) (by rw [same]; exact closed) rfl)
      have moves := follows.advance logged polling
      simp only [EventReceiver.remaining, same, tip, polling, Bool.false_eq_true, if_false] at count ⊢
      rcases moves with ⟨turned, delivered⟩ | ⟨still, delivered, inside⟩
      · simp only [turned, delivered, if_true]
        omega
      · simp only [still, delivered, Bool.false_eq_true, if_false]
        omega
    | true =>
      cases held : receiver.subscriber.items with
      | nil =>
        have received := receive_of_empty held closed
        have taken : state.step (.receive index) = some { state with
            receivers := state.receivers.set index
              { receiver with polling := false, disconnected := true } } := by
          simp only [State.step, found, polling, if_true, received, Option.map_some]
        exact .step (.receive index) rfl taken (.here ⟨_, List.getElem?_set_self within, rfl⟩)
      | cons item rest =>
        have received : receiver.receive = some { receiver with
            subscriber := { receiver.subscriber with items := rest }
            polling := false
            delivered := receiver.delivered ++ [item] } := by
          unfold EventReceiver.receive
          rw [held]
        have taken : state.step (.receive index) = some { state with
            receivers := state.receivers.set index { receiver with
              subscriber := { receiver.subscriber with items := rest }
              polling := false
              delivered := receiver.delivered ++ [item] } } := by
          simp only [State.step, found, polling, if_true, received, Option.map_some]
        refine .step (.receive index) rfl taken (ih _ ?_ logged (List.getElem?_set_self within)
          (follows.receive polling held received) closed rfl)
        simp only [EventReceiver.remaining, held, polling, if_true, List.length_cons, List.length_append,
          List.length_nil, Bool.false_eq_true, if_false, EventReceiver.tip] at count ⊢
        omega

theorem Logged.map_seq {log : List (StoredEvent π)} (logged : Logged log) :
    log.map StoredEvent.seq = List.range' 1 log.length := by
  refine List.ext_getElem (by rw [List.length_map, List.length_range']) fun i within _ => ?_
  rw [List.length_map] at within
  rw [List.getElem_map, List.getElem_range', logged.seq within]
  omega

/-- What a receiver has delivered, in each of its states. -/
theorem Follows.history {log : List (StoredEvent π)} (follows : Follows log receiver) :
    ∃ count ≤ log.length, receiver.delivered = asEvents (log.take count) ∨ count < log.length ∧
      ∃ run last, receiver.delivered = asEvents (log.take count) ++ [.lagged run last] := by
  cases follows with
  | following heard following =>
    exact ⟨_, following.delivered.trans following.within, .inl following.trail.delivered⟩
  | lagging lagging => exact ⟨_, lagging.missed.le, .inl lagging.trail.delivered⟩
  | lagged lagged =>
    obtain ⟨count, run, last, missed, delivered⟩ := lagged.missed
    exact ⟨count, missed.le, .inr ⟨missed, run, last, delivered⟩⟩
  | broken broken => exact ⟨_, broken.within, .inl broken.delivered⟩

/-- A receiver that reports its end without a notice has delivered everything, if no read has failed. -/
theorem Kept.complete (kept : Kept state receiver) (unfailed : state.failed = false)
    (reported : receiver.disconnected = true)
    (kept_up : ∀ run last, EventDelivery.lagged run last ∉ receiver.delivered) :
    receiver.delivered = asEvents state.log := by
  cases kept with
  | open_ _ _ disconnected | lagging _ disconnected => rw [disconnected] at reported; cases reported
  | closed heard following _ _ full empty =>
    obtain ⟨none, replayed⟩ := empty reported
    obtain rfl := full unfailed
    have items := following.items
    have passed := following.passed replayed
    rw [none, eq_comm, asEvents_eq_nil_iff, List.between_eq_nil_iff le_rfl, max_eq_left passed] at items
    rw [following.trail.delivered, List.take_of_length_le items]
  | lagged lagged =>
    obtain ⟨count, run, last, -, delivered⟩ := lagged.missed
    refine absurd ?_ (kept_up run last)
    rw [delivered]
    exact List.mem_append_right _ (List.mem_singleton_self _)
  | broken _ failed => rw [unfailed] at failed; cases failed

/-- In every run outside the two defects the subscriptions show one gapless history. -/
theorem gapless_of_quiet (reached : delivery.ReachedBy Quiet state) : Gapless state := by
  have tracked := tracked_of_reached reached
  refine ⟨tracked.logged.map_seq, fun receiver listed => (tracked.receivers receiver listed).follows.history,
    fun unfailed receiver listed => (tracked.receivers receiver listed).complete unfailed,
    fun ended index within => ?_⟩
  have kept := tracked.receivers _ (List.getElem_mem within)
  refine disconnects_of_closed tracked.logged (List.getElem?_eq_getElem within) kept.follows ?_
  rcases kept.closed_of_ne_open with closed | ⟨-, -, -, unended, -⟩
  · exact closed
  · rw [tracked.ended.mpr ended] at unended
    cases unended

/-- An event of a run. -/
def sampleEvent (kind : EventKind) : RunEvent Unit where
  kind
  at_ := 0
  stepId := none
  toolCallId := none
  artifactId := none
  payload := ()

/-- A run of this coordinator with one event. -/
def sampleStart : State Unit :=
  .start 1 ([sampleEvent .runStateChanged].mapIdx fun i event => ⟨1, i + 1, event⟩) true false

/-- A receiver subscribes behind one event, is behind by another, and sees the run to its end. -/
def followedRun : List (Step Unit) :=
  [.activate, .subscribe false, .attach, .append (sampleEvent .diagnostic), .publish false, .read false,
    .offer, .offer, .read false, .replay 0 false, .replay 0 false, .receive 0,
    .settle (sampleEvent .runStateChanged), .publish true, .read false, .offer, .read false, .remove, .close]

theorem gapless_of_quiet_followed :
    ∃ last : State Unit, delivery.ReachedBy Quiet last ∧ last.worker = .ended ∧ last.receivers.length = 1 ∧
      Gapless last := by
  have start : delivery.ReachedBy Quiet sampleStart := .start ⟨_, _, _, _, rfl⟩
  have reached := start.walks followedRun
    ⟨_, rfl, trivial, _, rfl, trivial, _, rfl, trivial, _, rfl, id, _, rfl, trivial, _, rfl, trivial,
      _, rfl, trivial, _, rfl, trivial, _, rfl, trivial, _, rfl, trivial, _, rfl, trivial, _, rfl, trivial,
      _, rfl, id, _, rfl, trivial, _, rfl, trivial, _, rfl, trivial, _, rfl, trivial, _, rfl, trivial,
      _, rfl, trivial, rfl⟩
  exact ⟨_, reached, rfl, rfl, gapless_of_quiet reached⟩

/-- The only read of a replay fails while an event waits in the queue. -/
def brokenRun : List (Step Unit) :=
  [.activate, .subscribe false, .attach, .append (sampleEvent .diagnostic), .publish false, .read false,
    .offer, .offer, .read false, .replay 0 true, .receive 0]

/-- A retry is recorded in the log of the run between its last publish and the end of its stream. -/
def retriedRun : List (Step Unit) :=
  [.activate, .subscribe false, .attach, .settle (sampleEvent .runStateChanged), .publish true, .read false,
    .offer, .offer, .read false, .append (sampleEvent .runRetried), .remove, .close, .replay 0 false,
    .replay 0 false, .receive 0, .replay 0 false, .receive 0]

/-- After a replay that has failed the second event is delivered without the first, and a receiver reports
its end without the event that was recorded after the last publish. -/
theorem defects_gap :
    (∃ state : State Unit, delivery.ReachedBy (fun _ _ => True) state ∧ ¬ Gapless state ∧
      state.receivers.map (·.delivered) = [[.event ⟨1, 2, sampleEvent .diagnostic⟩]]) ∧
    ∃ state : State Unit, delivery.ReachedBy (fun _ _ => True) state ∧ ¬ Gapless state ∧
      state.failed = false ∧ state.log.length = 3 ∧
      state.receivers.map (fun receiver => (receiver.delivered.length, receiver.disconnected)) =
        [(2, true)] := by
  have start : delivery.ReachedBy (fun _ _ => True) sampleStart := .start ⟨_, _, _, _, rfl⟩
  constructor
  · have reached := start.walks brokenRun
      ⟨_, rfl, trivial, _, rfl, trivial, _, rfl, trivial, _, rfl, trivial, _, rfl, trivial,
        _, rfl, trivial, _, rfl, trivial, _, rfl, trivial, _, rfl, trivial, _, rfl, trivial,
        _, rfl, trivial, rfl⟩
    refine ⟨_, reached, fun gapless => ?_, rfl⟩
    obtain ⟨count, -, whole | ⟨-, run, last, lagged⟩⟩ :=
      gapless.history _ (List.mem_singleton.mpr rfl)
    · cases count <;> cases congrArg List.head? whole
    · cases count <;> cases congrArg List.head? lagged
  · have reached := start.walks retriedRun
      ⟨_, rfl, trivial, _, rfl, trivial, _, rfl, trivial, _, rfl, trivial, _, rfl, trivial,
        _, rfl, trivial, _, rfl, trivial, _, rfl, trivial, _, rfl, trivial, _, rfl, trivial,
        _, rfl, trivial, _, rfl, trivial, _, rfl, trivial, _, rfl, trivial, _, rfl, trivial,
        _, rfl, trivial, _, rfl, trivial, rfl⟩
    refine ⟨_, reached, fun gapless => ?_, rfl, rfl, rfl⟩
    have complete := gapless.complete rfl _ (List.mem_singleton.mpr rfl) rfl fun run last listed => by
      have held : EventDelivery.lagged run last ∈
          [.event ⟨1, 1, sampleEvent .runStateChanged⟩, .event ⟨1, 2, sampleEvent .runStateChanged⟩] := listed
      simp at held
    cases congrArg List.length complete

end Harkness.Runtime.Coordinator
