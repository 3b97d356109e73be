import Harkness.Machine.Path
import Harkness.Runtime.Store.EventLog

/-! # Subscribing to the events of one run

A receiver replays the history up to the tip that was read when it subscribed, page by page, and then takes
from a bounded queue what is published after it. One lock covers the publisher's cursor, the list of
subscribers and the reading of the tip; the queues have locks of their own. The consumer, the appenders,
the publishers and the worker that ends the run take their steps in any order.
-/

namespace Harkness.Runtime.Coordinator

open Store

variable {π : Type}

/-- Maximum live events retained for one subscriber. -/
def subscriberCapacity : ℕ := 64

/-- Events read from the store at a time. -/
def defaultEventPageLimit : ℕ := 200

/-- One item delivered by a run subscription. -/
inductive EventDelivery (π : Type) where
  | event (stored : StoredEvent π)
  | lagged (run : RunId) (lastAvailable : ℕ)

/-- What a read of the store answers: the first events after a position. -/
def page (log : List (StoredEvent π)) (after : Option ℕ) : List (StoredEvent π) :=
  (log.drop (after.getD 0)).take defaultEventPageLimit

/-- The store answers a read so, for any table that stands for the log. -/
theorem events_eq_page {codecs : Codecs} {payloads : PayloadCodec π} {table : List EventRow}
    {history : List (RunId × RunEvent π)} (recorded : Recorded codecs payloads table history)
    {run : RunId} (small : run < 2 ^ 128) {after : Option ℕ} (bound : after.getD 0 ≤ i64Max) :
    events codecs payloads run after defaultEventPageLimit table =
      .ok (page (log payloads run history) after) := by
  have start : boundary .oldest after = after.getD 0 := by
    cases after with
    | none => rfl
    | some after => exact Nat.min_eq_left bound
  rw [events_of_recorded recorded small after (by decide) (by decide), page, pageOf]
  simp only [remaining, start]

structure Subscriber (π : Type) where
  items : List (EventDelivery π)
  closed : Bool
  liveAfter : Option ℕ

namespace Subscriber

def new (liveAfter : Option ℕ) : Subscriber π where
  items := []
  closed := false
  liveAfter

/-- A full queue is dropped for the notice that it was, and takes nothing more. -/
def push (subscriber : Subscriber π) (event : StoredEvent π) : Subscriber π :=
  if subscriber.liveAfter.any fun tip => event.seq ≤ tip then subscriber
  else if subscriber.closed then subscriber
  else if subscriberCapacity ≤ subscriber.items.length then
    { subscriber with items := [.lagged event.runId event.seq], closed := true }
  else { subscriber with items := subscriber.items ++ [.event event] }

def close (subscriber : Subscriber π) : Subscriber π := { subscriber with closed := true }

end Subscriber

structure ReplayState (π : Type) where
  tip : Option ℕ
  cursor : Option ℕ
  items : List (StoredEvent π)
  exhausted : Bool

namespace ReplayState

def new (tip : Option ℕ) : ReplayState π where
  tip
  cursor := none
  items := []
  exhausted := tip.isNone

/-- The events of a page that are not past the tip are taken up. -/
def extend (replay : ReplayState π) (page : List (StoredEvent π)) : ReplayState π :=
  let tip := replay.tip.getD 0
  let items := replay.items ++ page.takeWhile fun event => event.seq ≤ tip
  let cursor := (items.getLast?.map StoredEvent.seq).or replay.cursor
  { replay with items, cursor, exhausted := cursor.all fun cursor => tip ≤ cursor }

end ReplayState

/-- A receiver: the queue it shares with the publisher and whether the publisher has it, the replay, whether
the receive under way has come to the queue, and of its history what it delivered and whether it reported
that it is disconnected. -/
structure EventReceiver (π : Type) where
  subscriber : Subscriber π
  attached : Bool
  replay : ReplayState π
  polling : Bool
  delivered : List (EventDelivery π)
  disconnected : Bool

namespace EventReceiver

def new (subscriber : Subscriber π) (attached : Bool) (tip : Option ℕ) : EventReceiver π where
  subscriber
  attached
  replay := .new tip
  polling := false
  delivered := []
  disconnected := false

/-- The next replayed event is delivered, or the receive comes to the queue. -/
def popReplay (receiver : EventReceiver π) : EventReceiver π :=
  match receiver.replay.items with
  | event :: rest =>
    { receiver with
      replay := { receiver.replay with items := rest }
      delivered := receiver.delivered ++ [.event event] }
  | [] => { receiver with polling := true }

/-- Whether a receive reads the store. -/
def reads (receiver : EventReceiver π) : Bool :=
  receiver.replay.items.isEmpty && !receiver.replay.exhausted

/-- The first part of a receive, given the page a read answers, if it does not fail. -/
def replayNext (receiver : EventReceiver π) (read : Option (List (StoredEvent π))) : EventReceiver π :=
  if receiver.reads then
    match read with
    | none =>
      { receiver with
        replay := { receiver.replay with exhausted := true }
        subscriber := receiver.subscriber.close
        polling := true }
    | some page => { receiver with replay := receiver.replay.extend page }.popReplay
  else receiver.popReplay

/-- The second part of a receive, which waits where the queue is empty and open. -/
def receive (receiver : EventReceiver π) : Option (EventReceiver π) :=
  match receiver.subscriber.items with
  | item :: rest =>
    some { receiver with
      subscriber := { receiver.subscriber with items := rest }
      polling := false
      delivered := receiver.delivered ++ [item] }
  | [] =>
    if receiver.subscriber.closed then some { receiver with polling := false, disconnected := true }
    else none

end EventReceiver

/-- Who holds the delivery of the run: a publisher with the events it has read and not offered, the worker's
last one or another, or a subscription that has read the tip. -/
inductive Holder (π : Type) where
  | nobody
  | publisher (pending : List (StoredEvent π)) (last : Bool)
  | subscription (terminal : Bool) (tip : Option ℕ)

/-- How far the worker of the run is; a run may be driven elsewhere. -/
inductive Worker where
  | elsewhere
  | starting
  | driving
  | published
  | removed
  | ended
deriving DecidableEq

/-- Whether the run has a worker here in the map of active runs. -/
def Worker.isActive : Worker → Bool
  | driving | published => true
  | elsewhere | starting | removed | ended => false

/-- The events of the run in the store and whether its record is terminal, the worker, the delivery with its
cursor, and every receiver; and whether a read of a replay or of a publish has failed. -/
structure State (π : Type) where
  run : RunId
  log : List (StoredEvent π)
  terminal : Bool
  worker : Worker
  holder : Holder π
  closed : Bool
  cursor : Option ℕ
  receivers : List (EventReceiver π)
  failed : Bool

/-- A run somebody has recorded, here or elsewhere. -/
def State.start (run : RunId) (log : List (StoredEvent π)) (here terminal : Bool) : State π where
  run
  log
  terminal := !here && terminal
  worker := if here then .starting else .elsewhere
  holder := .nobody
  closed := false
  cursor := none
  receivers := []
  failed := false

inductive Step (π : Type) where
  | append (event : RunEvent π)
  | settle (event : RunEvent π)
  | activate
  | publish (last : Bool)
  | read (fails : Bool)
  | offer
  | subscribe (terminal : Bool)
  | attach
  | replay (index : ℕ) (fails : Bool)
  | receive (index : ℕ)
  | giveUp (index : ℕ)
  | remove
  | close

/-- An event is recorded as the last of the run. -/
def State.record (state : State π) (event : RunEvent π) : State π :=
  { state with log := state.log ++ [⟨state.run, state.log.length + 1, event⟩] }

/-- Every receiver the publisher has is changed. -/
def State.forward (state : State π) (change : Subscriber π → Subscriber π) : State π :=
  { state with
    receivers := state.receivers.map fun receiver =>
      if receiver.attached then { receiver with subscriber := change receiver.subscriber } else receiver }

/-- The publisher is done, with everything published or at a read that failed. -/
def State.release (state : State π) (last : Bool) : State π :=
  { state with holder := .nobody, worker := if last then .published else state.worker }

/-- What the receiver of a subscription is: closed where nobody will publish to it. -/
def State.subscribed (state : State π) (terminal : Bool) (tip : Option ℕ) : EventReceiver π :=
  if state.closed || (terminal && !state.worker.isActive) then .new (Subscriber.new tip).close false tip
  else .new (.new tip) true tip

def State.step (state : State π) : Step π → Option (State π)
  | .append event => some (state.record event)
  | .settle event =>
    match state.worker with
    | .driving | .elsewhere => some { state.record event with terminal := true }
    | _ => none
  | .activate =>
    match state.worker with
    | .starting => some { state with worker := .driving }
    | _ => none
  | .publish last =>
    match state.holder with
    | .nobody =>
      if last = true → state.worker = .driving then some { state with holder := .publisher [] last }
      else none
    | _ => none
  | .read fails =>
    match state.holder with
    | .publisher [] last =>
      if fails then some { state.release last with failed := true }
      else
        match page state.log state.cursor with
        | [] => some (state.release last)
        | pending => some { state with holder := .publisher pending last }
    | _ => none
  | .offer =>
    match state.holder with
    | .publisher (event :: rest) last =>
      some { state.forward (·.push event) with
        cursor := some event.seq, holder := .publisher rest last }
    | _ => none
  | .subscribe terminal =>
    match state.holder with
    | .nobody =>
      if terminal = true → state.terminal = true then
        some { state with holder := .subscription terminal (state.log.getLast?.map StoredEvent.seq) }
      else none
    | _ => none
  | .attach =>
    match state.holder with
    | .subscription terminal tip =>
      some { state with
        holder := .nobody, receivers := state.receivers ++ [state.subscribed terminal tip] }
    | _ => none
  | .replay index fails =>
    match state.receivers[index]? with
    | none => none
    | some receiver =>
      if receiver.polling then none
      else
        some { state with
          receivers := state.receivers.set index
            (receiver.replayNext (if fails then none else some (page state.log receiver.replay.cursor)))
          failed := state.failed || (fails && receiver.reads) }
  | .receive index =>
    match state.receivers[index]? with
    | none => none
    | some receiver =>
      if receiver.polling then
        receiver.receive.map fun next => { state with receivers := state.receivers.set index next }
      else none
  | .giveUp index =>
    match state.receivers[index]? with
    | none => none
    | some receiver =>
      if receiver.polling && receiver.subscriber.items.isEmpty && !receiver.subscriber.closed then
        some { state with receivers := state.receivers.set index { receiver with polling := false } }
      else none
  | .remove =>
    match state.worker with
    | .published => some { state with worker := .removed }
    | _ => none
  | .close =>
    match state.worker, state.holder with
    | .removed, .nobody =>
      some { state.forward (·.close) with closed := true, worker := .ended }
    | _, _ => none

/-- A run with some history and everybody who takes part in its delivery. -/
def delivery : Machine (State π) (Step π) where
  Initial state := ∃ run, ∃ history : List (RunEvent π), ∃ here terminal, state =
    .start run (history.mapIdx fun i event => ⟨run, i + 1, event⟩) here terminal
  step := State.step

end Harkness.Runtime.Coordinator
