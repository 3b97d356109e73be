import Harkness.Runtime.Coordinator.Subscription
import Harkness.ToMathlib.Between

/-! # How far one receiver has come

What a receiver has delivered is the beginning of the log. While it replays it holds the events from there
to the cursor of its replay; its queue holds those from the tip, or from where it is, to the last one it has
heard of.
-/

namespace Harkness.Runtime.Coordinator

open Store

variable {π : Type} {log more : List (StoredEvent π)} {receiver : EventReceiver π} {heard : ℕ}

/-- The sequence numbers of a log are its positions. -/
def Logged (log : List (StoredEvent π)) : Prop :=
  List.Numbered (fun event : StoredEvent π => (event.seq : ℤ)) log

theorem Logged.seq (logged : Logged log) {i : ℕ} (within : i < log.length) : log[i].seq = i + 1 := by
  have here := logged i within
  dsimp only at here
  omega

theorem Logged.getLast?_seq (logged : Logged log) :
    (log.getLast?.map StoredEvent.seq).getD 0 = log.length := by
  cases rest : log.getLast? with
  | none => rw [List.getLast?_eq_none_iff] at rest; simp [rest]
  | some last =>
    rw [List.getLast?_eq_getElem?, List.getElem?_eq_some_iff] at rest
    obtain ⟨within, rfl⟩ := rest
    rw [Option.map_some, Option.getD_some, logged.seq]
    omega

def asEvents (rows : List (StoredEvent π)) : List (EventDelivery π) := rows.map .event

@[simp] theorem length_asEvents (rows : List (StoredEvent π)) : (asEvents rows).length = rows.length :=
  List.length_map _

@[simp] theorem asEvents_append (rows others : List (StoredEvent π)) :
    asEvents (rows ++ others) = asEvents rows ++ asEvents others :=
  List.map_append

theorem asEvents_eq_nil_iff {rows : List (StoredEvent π)} : asEvents rows = [] ↔ rows = [] :=
  List.map_eq_nil_iff

/-- The position from which a receiver follows the queue. -/
def EventReceiver.tip (receiver : EventReceiver π) : ℕ := receiver.replay.tip.getD 0

/-- The position to which a replay has read. -/
def ReplayState.reached (replay : ReplayState π) : ℕ := replay.cursor.getD 0

/-- A replay from which `count` events were taken. -/
structure Replaying (log : List (StoredEvent π)) (replay : ReplayState π) (count : ℕ) : Prop where
  taken : count ≤ replay.reached
  reached : replay.reached ≤ replay.tip.getD 0
  items : replay.items = log.between count replay.reached
  exhausted : replay.exhausted = decide (replay.tip.getD 0 ≤ replay.reached)

/-- A replay that holds nothing and will read nothing. -/
structure Replayed (replay : ReplayState π) : Prop where
  items : replay.items = []
  exhausted : replay.exhausted = true

/-- The events delivered are the beginning of the log, whatever follows. -/
structure Trail (log : List (StoredEvent π)) (receiver : EventReceiver π) : Prop where
  tip : receiver.tip ≤ log.length
  delivered : receiver.delivered = asEvents (log.take receiver.delivered.length)
  replay : Replaying log receiver.replay receiver.delivered.length ∨ Replayed receiver.replay
  polling : receiver.polling = true → Replayed receiver.replay

/-- A receiver whose queue holds what it has heard of and not delivered. -/
structure Following (log : List (StoredEvent π)) (receiver : EventReceiver π) (heard : ℕ) : Prop where
  trail : Trail log receiver
  passed : Replayed receiver.replay → receiver.tip ≤ receiver.delivered.length
  items : receiver.subscriber.items =
    asEvents (log.between (max receiver.delivered.length receiver.tip) heard)
  tip : receiver.tip ≤ heard
  within : heard ≤ log.length
  delivered : receiver.delivered.length ≤ heard
  liveAfter : receiver.subscriber.liveAfter = receiver.replay.tip

/-- A receiver whose queue was dropped, with the notice still to come. -/
structure Lagging (log : List (StoredEvent π)) (receiver : EventReceiver π) : Prop where
  trail : Trail log receiver
  closed : receiver.subscriber.closed = true
  items : ∃ run last, receiver.subscriber.items = [.lagged run last]
  missed : receiver.delivered.length < log.length
  tip : receiver.tip < log.length

/-- A receiver that has delivered the notice. -/
structure Lagged (log : List (StoredEvent π)) (receiver : EventReceiver π) : Prop where
  replayed : Replayed receiver.replay
  closed : receiver.subscriber.closed = true
  items : receiver.subscriber.items = []
  missed : ∃ count run last, count < log.length ∧
    receiver.delivered = asEvents (log.take count) ++ [.lagged run last]

/-- A receiver whose replay has failed. -/
structure Broken (log : List (StoredEvent π)) (receiver : EventReceiver π) : Prop where
  replayed : Replayed receiver.replay
  closed : receiver.subscriber.closed = true
  items : receiver.subscriber.items = []
  delivered : receiver.delivered = asEvents (log.take receiver.delivered.length)
  within : receiver.delivered.length ≤ log.length

section grow

variable (grown : log <+: more)
include grown

theorem Replaying.grow {replay : ReplayState π} {count : ℕ} (replaying : Replaying log replay count)
    (tip : replay.tip.getD 0 ≤ log.length) : Replaying more replay count where
  taken := replaying.taken
  reached := replaying.reached
  items := by rw [List.between_of_prefix grown (replaying.reached.trans tip)]; exact replaying.items
  exhausted := replaying.exhausted

theorem delivered_grow {delivered : List (EventDelivery π)}
    (same : delivered = asEvents (log.take delivered.length)) :
    delivered = asEvents (more.take delivered.length) := by
  have within : delivered.length ≤ log.length := by
    have length := congrArg List.length same
    rw [length_asEvents, List.length_take] at length
    omega
  rw [List.take_of_prefix grown within]
  exact same

theorem Trail.grow (trail : Trail log receiver) : Trail more receiver where
  tip := trail.tip.trans grown.length_le
  delivered := delivered_grow grown trail.delivered
  replay := trail.replay.imp_left fun replaying => replaying.grow grown trail.tip
  polling := trail.polling

theorem Following.grow (following : Following log receiver heard) : Following more receiver heard where
  trail := following.trail.grow grown
  passed := following.passed
  items := by rw [List.between_of_prefix grown following.within]; exact following.items
  tip := following.tip
  within := following.within.trans grown.length_le
  delivered := following.delivered
  liveAfter := following.liveAfter

theorem Lagging.grow (lagging : Lagging log receiver) : Lagging more receiver where
  trail := lagging.trail.grow grown
  closed := lagging.closed
  items := lagging.items
  missed := lagging.missed.trans_le grown.length_le
  tip := lagging.tip.trans_le grown.length_le

theorem Lagged.grow (lagged : Lagged log receiver) : Lagged more receiver where
  replayed := lagged.replayed
  closed := lagged.closed
  items := lagged.items
  missed := by
    obtain ⟨count, run, last, missed, delivered⟩ := lagged.missed
    refine ⟨count, run, last, missed.trans_le grown.length_le, ?_⟩
    rw [List.take_of_prefix grown missed.le]
    exact delivered

theorem Broken.grow (broken : Broken log receiver) : Broken more receiver where
  replayed := broken.replayed
  closed := broken.closed
  items := broken.items
  delivered := delivered_grow grown broken.delivered
  within := broken.within.trans grown.length_le

end grow

theorem any_liveAfter {tip : Option ℕ} {seq : ℕ} (positive : 0 < seq) :
    (tip.any fun tip => decide (seq ≤ tip)) = decide (seq ≤ tip.getD 0) := by
  cases tip with
  | none => exact (decide_eq_false (Nat.not_le.mpr positive)).symm
  | some tip => rfl

/-- A receiver hears of the next event, or its queue is dropped. -/
theorem Following.push (logged : Logged log) (open_ : receiver.subscriber.closed = false) {cursor : ℕ}
    (within : cursor < log.length) (following : Following log receiver (max receiver.tip cursor)) :
    let next := { receiver with subscriber := receiver.subscriber.push log[cursor] }
    next.subscriber.closed = false ∧ Following log next (max receiver.tip (cursor + 1)) ∨
      Lagging log next := by
  intro next
  have seq := logged.seq within
  have live : receiver.subscriber.liveAfter.any (fun tip => decide (log[cursor].seq ≤ tip)) =
      decide (cursor + 1 ≤ receiver.tip) := by
    rw [following.liveAfter, any_liveAfter (by omega), seq]
    rfl
  by_cases early : cursor + 1 ≤ receiver.tip
  · have same : receiver.subscriber.push log[cursor] = receiver.subscriber := by
      rw [Subscriber.push, live, if_pos (decide_eq_true early)]
    have heard : max receiver.tip cursor = max receiver.tip (cursor + 1) := by omega
    simp only [next, same]
    exact .inl ⟨open_, heard ▸ following⟩
  · have late : ¬ decide (cursor + 1 ≤ receiver.tip) = true := by rwa [decide_eq_true_eq]
    have heard : max receiver.tip cursor = cursor := by omega
    rw [heard] at following
    by_cases full : subscriberCapacity ≤ receiver.subscriber.items.length
    · have dropped : receiver.subscriber.push log[cursor] =
          { receiver.subscriber with
            items := [.lagged log[cursor].runId log[cursor].seq], closed := true } := by
        rw [Subscriber.push, live, if_neg late, open_, if_neg Bool.false_ne_true, if_pos full]
      refine .inr ⟨⟨following.trail.1, following.trail.2, following.trail.3, following.trail.4⟩, ?_, ?_, ?_, ?_⟩
      · simp only [next, dropped]
      · simp only [next, dropped]
        exact ⟨_, _, rfl⟩
      · exact following.delivered.trans_lt within
      · exact following.tip.trans_lt within
    · have queued : receiver.subscriber.push log[cursor] =
          { receiver.subscriber with items := receiver.subscriber.items ++ [.event log[cursor]] } := by
        rw [Subscriber.push, live, if_neg late, open_, if_neg Bool.false_ne_true, if_neg full]
        exact congrArg (fun closed => Subscriber.mk _ closed _) open_.symm
      have heard' : max receiver.tip (cursor + 1) = cursor + 1 := by omega
      refine .inl ⟨by simp only [next, queued]; exact open_, ?_⟩
      rw [heard']
      refine ⟨⟨following.trail.1, following.trail.2, following.trail.3, following.trail.4⟩,
        following.passed, ?_, following.tip.trans (Nat.le_succ _), within,
        following.delivered.trans (Nat.le_succ _), ?_⟩
      · have first : max receiver.delivered.length receiver.tip ≤ cursor :=
          max_le following.delivered following.tip
        simp only [next, queued]
        change receiver.subscriber.items ++ [.event log[cursor]] =
          asEvents (log.between (max receiver.delivered.length receiver.tip) (cursor + 1))
        rw [List.between_succ first within, asEvents_append, following.items]
        rfl
      · simp only [next, queued]
        exact following.liveAfter

/-- A page is taken up as far as the tip. -/
theorem page_takeWhile (logged : Logged log) (after : Option ℕ) (tip : ℕ) :
    (page log after).takeWhile (fun event => event.seq ≤ tip) =
      (log.between (after.getD 0) tip).take defaultEventPageLimit := by
  have spelled : (fun event : StoredEvent π => decide (event.seq ≤ tip)) =
      fun event => decide ((event.seq : ℤ) ≤ tip) := by
    funext event
    exact decide_eq_decide.mpr Int.ofNat_le.symm
  rw [page, ← List.take_takeWhile, spelled, logged.takeWhile_drop]

theorem take_between (log : List (StoredEvent π)) (first last count : ℕ) :
    (log.between first last).take count = log.between first (min last (first + count)) := by
  rw [List.between, List.between, List.take_drop, List.take_take, Nat.min_comm]

/-- After a read the replay holds the events up to a further position, and at least one. -/
theorem Replaying.extend (logged : Logged log) {replay : ReplayState π} {count : ℕ}
    (replaying : Replaying log replay count) (tip : replay.tip.getD 0 ≤ log.length)
    (empty : replay.items = []) (unexhausted : replay.exhausted = false) :
    Replaying log (replay.extend (page log replay.cursor)) count ∧
      (replay.extend (page log replay.cursor)).items ≠ [] ∧
      (replay.extend (page log replay.cursor)).tip = replay.tip := by
  have short : replay.reached < replay.tip.getD 0 := by
    have spelled := replaying.exhausted
    rw [unexhausted] at spelled
    exact Nat.not_le.mp (of_decide_eq_false spelled.symm)
  have here : count = replay.reached := by
    have items := replaying.items
    rw [empty, eq_comm, List.between_eq_nil_iff (replaying.reached.trans tip)] at items
    exact le_antisymm replaying.taken items
  have limit : 0 < defaultEventPageLimit := by decide
  obtain ⟨last, spelled⟩ : ∃ last, last = min (replay.tip.getD 0) (replay.reached + defaultEventPageLimit) :=
    ⟨_, rfl⟩
  have further : replay.reached < last := by omega
  have bounded : last ≤ replay.tip.getD 0 := by omega
  have items : (replay.extend (page log replay.cursor)).items = log.between replay.reached last := by
    simp only [ReplayState.extend, empty, List.nil_append]
    rw [page_takeWhile logged, take_between, spelled]
    rfl
  have final : (log.between replay.reached last).getLast?.map StoredEvent.seq = some last := by
    have inside : last - 1 < log.length := by omega
    rw [List.getLast?_between further (bounded.trans tip), Option.map_some, logged.seq inside]
    congr 1
    omega
  have cursor : (replay.extend (page log replay.cursor)).cursor = some last := by
    change ((replay.extend (page log replay.cursor)).items.getLast?.map StoredEvent.seq).or _ = _
    rw [items, final, Option.some_or]
  have reached : (replay.extend (page log replay.cursor)).reached = last := by
    rw [ReplayState.reached, cursor, Option.getD_some]
  refine ⟨⟨?_, ?_, ?_, ?_⟩, ?_, rfl⟩
  · rw [reached]; omega
  · rw [reached]; exact bounded
  · rw [items, reached, here]
  · change (replay.extend (page log replay.cursor)).cursor.all _ = _
    rw [cursor, reached]
    rfl
  · rw [items, Ne, List.between_eq_nil_iff (bounded.trans tip)]
    omega

/-- A replay that has nothing to deliver and nothing to read has come to the tip. -/
theorem Replaying.replayed {replay : ReplayState π} {count : ℕ} (replaying : Replaying log replay count)
    (tip : replay.tip.getD 0 ≤ log.length) (replayed : Replayed replay) : replay.tip.getD 0 ≤ count := by
  have items := replaying.items
  rw [replayed.items, eq_comm, List.between_eq_nil_iff (replaying.reached.trans tip)] at items
  have exhausted := replaying.exhausted
  rw [replayed.exhausted] at exhausted
  exact (of_decide_eq_true exhausted.symm).trans items

/-- What the first part of a receive does to the trail: the next event of the log is delivered, or the
replay is over. -/
inductive Advances (log : List (StoredEvent π)) (receiver next : EventReceiver π) : Prop where
  | delivers (delivered : next.delivered = asEvents (log.take (receiver.delivered.length + 1)))
    (length : next.delivered.length = receiver.delivered.length + 1)
    (inside : receiver.delivered.length + 1 ≤ receiver.tip)
    (replaying : Replaying log next.replay next.delivered.length) (polling : next.polling = false)
  | turns (same : next = { receiver with polling := true }) (replayed : Replayed receiver.replay)

theorem Trail.pop (trail : Trail log receiver) (idle : receiver.polling = false)
    (ready : receiver.reads = false) :
    Trail log receiver.popReplay ∧ receiver.popReplay.replay.tip = receiver.replay.tip ∧
      Advances log receiver receiver.popReplay := by
  unfold EventReceiver.popReplay
  cases held : receiver.replay.items with
  | nil =>
    have replayed : Replayed receiver.replay := by
      refine ⟨held, ?_⟩
      rw [EventReceiver.reads, held] at ready
      simpa using ready
    exact ⟨⟨trail.tip, trail.delivered, trail.replay, fun _ => replayed⟩, rfl, .turns rfl replayed⟩
  | cons event rest =>
    rcases trail.replay with replaying | replayed
    · have items := replaying.items
      have bound := replaying.reached.trans trail.tip
      have less : receiver.delivered.length < receiver.replay.reached := by
        by_contra late
        rw [held, List.between_eq_nil (Nat.not_lt.mp late)] at items
        cases items
      have inside : receiver.delivered.length < log.length := less.trans_le bound
      rw [held, List.between_eq_cons less bound, List.cons.injEq] at items
      obtain ⟨same, tail⟩ := items
      have delivered : receiver.delivered ++ [.event event] =
          asEvents (log.take (receiver.delivered.length + 1)) := by
        rw [List.take_succ_eq_append_getElem inside, asEvents_append, ← trail.delivered, same]
        rfl
      have length : (receiver.delivered ++ [EventDelivery.event event]).length = receiver.delivered.length + 1 := by
        rw [List.length_append, List.length_singleton]
      have rest : Replaying log { receiver.replay with items := rest }
          (receiver.delivered ++ [EventDelivery.event event]).length := by
        rw [length]
        exact ⟨less, replaying.reached, tail, replaying.exhausted⟩
      refine ⟨⟨trail.tip, ?_, .inl rest, fun polling => absurd (idle.symm.trans polling) nofun⟩, rfl,
        .delivers delivered length (less.trans_le replaying.reached) rest idle⟩
      dsimp only
      rw [length]
      exact delivered
    · rw [replayed.items] at held
      cases held

/-- The first part of a receive whose read, if it makes one, succeeds. -/
theorem Trail.replayNext (logged : Logged log) (trail : Trail log receiver) (idle : receiver.polling = false) :
    let next := receiver.replayNext (some (page log receiver.replay.cursor))
    Trail log next ∧ next.replay.tip = receiver.replay.tip ∧ Advances log receiver next := by
  unfold EventReceiver.replayNext
  by_cases reads : receiver.reads = true
  · rw [if_pos reads]
    have parts := reads
    rw [EventReceiver.reads, Bool.and_eq_true, List.isEmpty_iff, Bool.not_eq_true'] at parts
    obtain ⟨empty, unexhausted⟩ := parts
    rcases trail.replay with replaying | replayed
    · obtain ⟨extended, filled, tip⟩ := replaying.extend logged trail.tip empty unexhausted
      have renewed : Trail log
          { receiver with replay := receiver.replay.extend (page log receiver.replay.cursor) } :=
        ⟨by rw [EventReceiver.tip, tip]; exact trail.tip, trail.delivered, .inl extended,
          fun polling => absurd (idle.symm.trans polling) nofun⟩
      have ready : EventReceiver.reads
          { receiver with replay := receiver.replay.extend (page log receiver.replay.cursor) } = false := by
        rw [EventReceiver.reads, Bool.and_eq_false_iff]
        exact .inl (Bool.eq_false_iff.mpr fun none => filled (List.isEmpty_iff.mp none))
      obtain ⟨popped, same, advances⟩ := renewed.pop idle ready
      refine ⟨popped, same.trans tip, ?_⟩
      cases advances with
      | delivers delivered length inside replaying polling =>
        exact .delivers delivered length (by rwa [EventReceiver.tip, tip] at inside) replaying polling
      | turns same replayed => exact absurd replayed.items filled
    · rw [replayed.exhausted] at unexhausted
      cases unexhausted
  · rw [if_neg reads]
    exact trail.pop idle (Bool.eq_false_iff.mpr reads)

/-- Where a receiver is with respect to a log; a replay that failed leaves it broken. -/
inductive Follows (log : List (StoredEvent π)) (receiver : EventReceiver π) : Prop where
  | following (heard : ℕ) (following : Following log receiver heard)
  | lagging (lagging : Lagging log receiver)
  | lagged (lagged : Lagged log receiver)
  | broken (broken : Broken log receiver)

theorem replayNext_subscriber (receiver : EventReceiver π) (page : List (StoredEvent π)) :
    (receiver.replayNext (some page)).subscriber = receiver.subscriber ∧
      (receiver.replayNext (some page)).attached = receiver.attached ∧
      (receiver.replayNext (some page)).disconnected = receiver.disconnected ∧
      (receiver.replayNext (some page)).tip = receiver.tip := by
  unfold EventReceiver.replayNext EventReceiver.popReplay
  split
  · dsimp only
    split <;> exact ⟨rfl, rfl, rfl, rfl⟩
  · split <;> exact ⟨rfl, rfl, rfl, rfl⟩

/-- A receive past the replay comes to the queue. -/
theorem replayNext_of_replayed (replayed : Replayed receiver.replay)
    (read : Option (List (StoredEvent π))) :
    receiver.replayNext read = { receiver with polling := true } := by
  have ready : ¬ receiver.reads = true := by
    rw [EventReceiver.reads, replayed.exhausted, Bool.not_true, Bool.and_false]
    exact Bool.false_ne_true
  unfold EventReceiver.replayNext EventReceiver.popReplay
  rw [if_neg ready, replayed.items]

section replay

variable (logged : Logged log) (idle : receiver.polling = false)
include logged idle

theorem Following.replayNext (following : Following log receiver heard) :
    Following log (receiver.replayNext (some (page log receiver.replay.cursor))) heard := by
  obtain ⟨trail, tip, advances⟩ := following.trail.replayNext logged idle
  obtain ⟨same, -, -, tip'⟩ := replayNext_subscriber receiver (page log receiver.replay.cursor)
  cases advances with
  | delivers delivered length inside replaying polling =>
    have front : max (receiver.delivered.length + 1) receiver.tip =
        max receiver.delivered.length receiver.tip := by
      omega
    refine ⟨trail, replaying.replayed trail.tip, ?_, ?_, following.within, ?_, ?_⟩
    · rw [same, following.items, length, tip', front]
    · rw [tip']; exact following.tip
    · rw [length]; exact inside.trans following.tip
    · rw [same, tip]; exact following.liveAfter
  | turns same replayed =>
    rw [same] at trail ⊢
    exact ⟨trail, following.passed, following.items, following.tip, following.within,
      following.delivered, following.liveAfter⟩

theorem Lagging.replayNext (lagging : Lagging log receiver) :
    Lagging log (receiver.replayNext (some (page log receiver.replay.cursor))) := by
  obtain ⟨trail, -, advances⟩ := lagging.trail.replayNext logged idle
  obtain ⟨same, -, -, tip'⟩ := replayNext_subscriber receiver (page log receiver.replay.cursor)
  refine ⟨trail, by rw [same]; exact lagging.closed, by rw [same]; exact lagging.items, ?_,
    by rw [tip']; exact lagging.tip⟩
  cases advances with
  | delivers delivered length inside replaying polling =>
    rw [length]
    exact inside.trans_lt lagging.tip
  | turns same replayed => rw [same]; exact lagging.missed

theorem Follows.replayNext (follows : Follows log receiver) :
    Follows log (receiver.replayNext (some (page log receiver.replay.cursor))) := by
  cases follows with
  | following heard following => exact .following heard (following.replayNext logged idle)
  | lagging lagging => exact .lagging (lagging.replayNext logged idle)
  | lagged lagged =>
    rw [replayNext_of_replayed lagged.replayed]
    exact .lagged ⟨lagged.replayed, lagged.closed, lagged.items, lagged.missed⟩
  | broken broken =>
    rw [replayNext_of_replayed broken.replayed]
    exact .broken ⟨broken.replayed, broken.closed, broken.items, broken.delivered, broken.within⟩

end replay

/-- A read that fails ends the replay and closes the queue. -/
theorem replayNext_none (reads : receiver.reads = true) :
    receiver.replayNext none =
      { receiver with
        replay := { receiver.replay with exhausted := true }
        subscriber := receiver.subscriber.close
        polling := true } := by
  rw [EventReceiver.replayNext, if_pos reads]

/-- A read that fails while no event waits in the queue leaves nothing to deliver but a notice. -/
theorem Follows.fail (follows : Follows log receiver) (reads : receiver.reads = true)
    (quiet : ∀ stored, EventDelivery.event stored ∉ receiver.subscriber.items) :
    Lagging log (receiver.replayNext none) ∨ Broken log (receiver.replayNext none) := by
  have parts := reads
  rw [EventReceiver.reads, Bool.and_eq_true, List.isEmpty_iff, Bool.not_eq_true'] at parts
  obtain ⟨empty, unexhausted⟩ := parts
  have replayed : Replayed { receiver.replay with exhausted := true } := ⟨empty, rfl⟩
  rw [replayNext_none reads]
  cases follows with
  | following heard following =>
    have items : receiver.subscriber.items = [] := by
      refine List.eq_nil_iff_forall_not_mem.mpr fun item listed => ?_
      have held := listed
      rw [following.items] at held
      obtain ⟨stored, -, rfl⟩ := List.mem_map.mp held
      exact quiet stored listed
    exact .inr ⟨replayed, rfl, items, following.trail.delivered, following.delivered.trans following.within⟩
  | lagging lagging =>
    exact .inl ⟨⟨lagging.trail.tip, lagging.trail.delivered, .inr replayed, fun _ => replayed⟩, rfl,
      lagging.items, lagging.missed, lagging.tip⟩
  | lagged lagged => rw [lagged.replayed.exhausted] at unexhausted; cases unexhausted
  | broken broken => rw [broken.replayed.exhausted] at unexhausted; cases unexhausted

theorem Following.receive (following : Following log receiver heard) (polling : receiver.polling = true)
    {next : EventReceiver π} (taken : receiver.receive = some next) : Following log next heard := by
  have replayed := following.trail.polling polling
  have passed := following.passed replayed
  have front : max receiver.delivered.length receiver.tip = receiver.delivered.length := by omega
  have items := following.items
  rw [front] at items
  unfold EventReceiver.receive at taken
  split at taken
  · rename_i item rest held
    cases taken
    have less : receiver.delivered.length < heard := by
      by_contra late
      rw [held, List.between_eq_nil (Nat.not_lt.mp late)] at items
      cases items
    have inside := less.trans_le following.within
    rw [held, List.between_eq_cons less following.within] at items
    obtain ⟨same, tail⟩ := List.cons.inj items
    have length : (receiver.delivered ++ [item]).length = receiver.delivered.length + 1 := by
      rw [List.length_append, List.length_singleton]
    have passed' : receiver.tip ≤ (receiver.delivered ++ [item]).length := by
      rw [length]
      exact passed.trans (Nat.le_succ _)
    refine ⟨⟨following.trail.tip, ?_, .inr replayed, fun _ => replayed⟩, fun _ => passed', ?_, following.tip,
      following.within, ?_, following.liveAfter⟩
    · dsimp only
      rw [length, List.take_succ_eq_append_getElem inside, asEvents_append, ← following.trail.delivered, same]
      rfl
    · change rest = asEvents (log.between (max (receiver.delivered ++ [item]).length receiver.tip) heard)
      rw [max_eq_left passed', length]
      exact tail
    · dsimp only
      rw [length]
      exact less
  · split at taken <;> cases taken
    exact ⟨⟨following.trail.tip, following.trail.delivered, following.trail.replay, fun _ => replayed⟩,
      following.passed, following.items, following.tip, following.within, following.delivered,
      following.liveAfter⟩

theorem Lagging.receive (lagging : Lagging log receiver) (polling : receiver.polling = true)
    {next : EventReceiver π} (taken : receiver.receive = some next) : Lagged log next := by
  obtain ⟨run, last, items⟩ := lagging.items
  unfold EventReceiver.receive at taken
  rw [items] at taken
  cases taken
  refine ⟨lagging.trail.polling polling, lagging.closed, rfl,
    receiver.delivered.length, run, last, lagging.missed, ?_⟩
  dsimp only
  rw [← lagging.trail.delivered]

/-- A receive from an empty and closed queue reports so. -/
theorem receive_of_empty (items : receiver.subscriber.items = [])
    (closed : receiver.subscriber.closed = true) :
    receiver.receive = some { receiver with polling := false, disconnected := true } := by
  unfold EventReceiver.receive
  rw [items]
  exact if_pos closed

end Harkness.Runtime.Coordinator
