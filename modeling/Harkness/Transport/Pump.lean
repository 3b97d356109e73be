import Harkness.Transport.ConnectionTable

/-! # The pump and the queue of peer messages

One thread at a time holds the pump. It reads only while the queue has room, takes what it has read
to the queue before it lets the pump go, and nothing but a reader of the queue takes a message from
it: every peer message is in the hand of the holder, waiting, or returned, in the order of the stream.
-/

namespace Harkness.Transport

variable {T ν : Type}

/-- Whether a thread holds the pump. -/
def Phase.holds : Phase ν → Bool
  | gauge _ | receive _ | route .. | release .. | remember _ (.release _) => true
  | _ => false

/-- Whether a thread has found room in the queue and has not used it yet. -/
def Phase.isReading : Phase ν → Bool
  | receive _ | route .. => true
  | _ => false

/-- The peer message that a thread is about to route. -/
def Phase.inHand : Phase ν → Option (PeerMessage ν)
  | route _ message => message.peer?
  | _ => none

/-- The peer message that a call returns. -/
def Return.peer? : Return ν → Option (PeerMessage ν)
  | peer (.ok message) => message
  | _ => none

namespace World

/-- The peer message read and not in the queue yet. -/
def inHand (self : World T ν) : Option (PeerMessage ν) :=
  self.pump.bind fun thread => (self.calls thread).inHand

/-- The peer messages that calls have returned, in the order they did. -/
def collected (self : World T ν) : List (PeerMessage ν) :=
  self.returned.filterMap fun entry => entry.2.peer?

end World

namespace PeerQueue

/-- The byte count is what the waiting messages cost, and the bound was met when the last came. -/
structure Counted (queue : PeerQueue ν) : Prop where
  costs : ∀ entry ∈ queue.waiting, entry.2 = entry.1.retainedBytes
  bytes : queue.bytes = (queue.waiting.map Prod.snd).sum
  capacity : queue.waiting.length ≤ peerCapacity
  budget : ∀ front last, queue.waiting = front ++ [last] →
    (front.map Prod.snd).sum < peerByteBudget

variable {self : PeerQueue ν}

theorem counted_empty : Counted (⟨[], 0⟩ : PeerQueue ν) where
  costs _ member := by cases member
  bytes := rfl
  capacity := Nat.zero_le _
  budget front last same := by cases front <;> cases same

theorem isFull_eq_false : self.isFull = false ↔
    self.waiting.length < peerCapacity ∧ self.bytes < peerByteBudget := by
  simp only [isFull, Bool.or_eq_false_iff, decide_eq_false_iff_not, not_le]

/-- A queue with room takes one more message. -/
theorem Counted.push (counted : self.Counted) (room : self.isFull = false)
    (message : PeerMessage ν) : (self.push message).Counted := by
  obtain ⟨short, light⟩ := isFull_eq_false.mp room
  refine ⟨fun entry member => ?_, ?_, ?_, fun front last same => ?_⟩
  · rcases List.mem_append.mp member with member | member
    · exact counted.costs entry member
    · obtain rfl := List.mem_singleton.mp member
      rfl
  · simp only [PeerQueue.push, counted.bytes, List.map_append, List.sum_append, List.map_cons,
      List.map_nil, List.sum_singleton]
  · rw [PeerQueue.push, List.length_append]
    exact short
  · obtain ⟨rfl, -⟩ := List.append_inj' same rfl
    rw [← counted.bytes]
    exact light

/-- What is left when the oldest message is taken. -/
theorem pop_eq_some {message : PeerMessage ν} {rest : PeerQueue ν}
    (popped : self.pop = some (message, rest)) :
    ∃ cost, self.waiting = (message, cost) :: rest.waiting ∧ rest.bytes = self.bytes - cost := by
  unfold pop at popped
  split at popped
  · cases popped
  next cost waiting same =>
    cases popped
    exact ⟨cost, same, rfl⟩

theorem Counted.pop (counted : self.Counted) {message : PeerMessage ν} {rest : PeerQueue ν}
    (popped : self.pop = some (message, rest)) : rest.Counted := by
  obtain ⟨cost, waiting, left⟩ := pop_eq_some popped
  refine ⟨fun entry member => ?_, ?_, ?_, fun front last same => ?_⟩
  · exact counted.costs entry (waiting ▸ List.mem_cons_of_mem _ member)
  · rw [left, counted.bytes, waiting, List.map_cons, List.sum_cons, Nat.add_sub_cancel_left]
  · have whole := counted.capacity
    rw [waiting, List.length_cons] at whole
    omega
  · have whole := counted.budget ((message, cost) :: front) last (by rw [waiting, same]; rfl)
    rw [List.map_cons, List.sum_cons] at whole
    omega

/-- Taking a message from a queue leaves room where there was room. -/
theorem isFull_pop {message : PeerMessage ν} {rest : PeerQueue ν}
    (popped : self.pop = some (message, rest)) (room : self.isFull = false) :
    rest.isFull = false := by
  obtain ⟨cost, waiting, left⟩ := pop_eq_some popped
  rw [isFull_eq_false, waiting, List.length_cons] at room
  rw [isFull_eq_false]
  omega

end PeerQueue

variable {thread : T} {before after : World T ν}

/-- What a move of a thread does to the pump and the queue. -/
inductive PumpMove (thread : T) (before after : World T ν) : Prop where
  | rest (pump : after.pump = before.pump) (peers : after.peers = before.peers)
      (handed : after.handed = before.handed) (collected : after.collected = before.collected)
      (holds : (after.calls thread).holds = (before.calls thread).holds)
      (emptied : (before.calls thread).inHand = none ∧ (after.calls thread).inHand = none)
      (read : (after.calls thread).isReading = false)
  | takes (free : before.pump = none) (pump : after.pump = some thread)
      (peers : after.peers = before.peers) (handed : after.handed = before.handed)
      (collected : after.collected = before.collected) (caller : Caller ν)
      (next : after.calls thread = .gauge caller)
  | finds (pump : after.pump = before.pump) (peers : after.peers = before.peers)
      (handed : after.handed = before.handed) (collected : after.collected = before.collected)
      (caller : Caller ν) (phase : before.calls thread = .gauge caller)
      (room : before.peers.isFull = false) (next : after.calls thread = .receive caller)
  | reads (pump : after.pump = before.pump) (peers : after.peers = before.peers)
      (collected : after.collected = before.collected) (caller : Caller ν) (message : Message ν)
      (phase : before.calls thread = .receive caller)
      (handed : after.handed = before.handed ++ [message])
      (next : after.calls thread = .route caller message)
  | enqueues (pump : after.pump = before.pump) (handed : after.handed = before.handed)
      (collected : after.collected = before.collected) (caller : Caller ν) (message : Message ν)
      (peer : PeerMessage ν) (phase : before.calls thread = .route caller message)
      (initiated : message.peer? = some peer) (peers : after.peers = before.peers.push peer)
      (next : after.calls thread = .release caller (.ok ()))
  | frees (pump : after.pump = none) (peers : after.peers = before.peers)
      (handed : after.handed = before.handed) (collected : after.collected = before.collected)
      (caller : Caller ν) (result : Except TransportError Unit)
      (phase : before.calls thread = .release caller result)
      (next : (after.calls thread).holds = false ∧ (after.calls thread).isReading = false)
  | pops (pump : after.pump = before.pump) (handed : after.handed = before.handed)
      (deadline : ℕ) (message : PeerMessage ν) (phase : before.calls thread = .look (.peer deadline))
      (popped : before.peers.pop = some (message, after.peers))
      (returned : after.returned = before.returned ++ [(thread, .peer (.ok (some message)))])
      (next : after.calls thread = .idle)
  | keepsPromise (pump : after.pump = before.pump) (peers : after.peers = before.peers)
      (handed : after.handed = before.handed) (result : Return ν)
      (promised : (before.calls thread).promised = some result)
      (free : (before.calls thread).holds = false)
      (returned : after.returned = before.returned ++ [(thread, result)])
      (next : after.calls thread = .idle)

/-- The pump has one holder, which reads only while there is room, and every peer message read is
returned, waiting or in hand, in the order of the stream. -/
structure Kept (world : World T ν) : Prop where
  holder : ∀ thread, (world.calls thread).holds = true ↔ world.pump = some thread
  room : ∀ thread, (world.calls thread).isReading = true → world.peers.isFull = false
  order : world.collected ++ world.peers.waiting.map Prod.fst ++ world.inHand.toList =
    world.handed.filterMap Message.peer?
  counted : world.peers.Counted
  promised : ∀ thread result, (world.calls thread).promised = some result → result.peer? = none

namespace Kept

theorem new : Kept (World.new : World T ν) where
  holder _ := iff_of_false Bool.false_ne_true fun free => by cases free
  room _ read := by cases read
  order := rfl
  counted := PeerQueue.counted_empty
  promised _ _ promised := by cases promised

theorem isReading_holds {phase : Phase ν} (read : phase.isReading = true) : phase.holds = true := by
  cases phase with
  | receive caller => rfl
  | route caller message => rfl
  | _ => cases read

theorem inHand_of_pump {world : World T ν} (held : world.pump = some thread) :
    world.inHand = (world.calls thread).inHand := by
  rw [World.inHand, held]
  rfl

/-- A move that takes and lets go nothing leaves the holder as it was. -/
private theorem holder_same (kept : Kept before) (pump : after.pump = before.pump)
    (holds : (after.calls thread).holds = (before.calls thread).holds)
    (others : ∀ other, other ≠ thread → after.calls other = before.calls other) (who : T) :
    (after.calls who).holds = true ↔ after.pump = some who := by
  rw [pump, ← kept.holder who]
  by_cases same : who = thread
  · rw [same, holds]
  · rw [others who same]

/-- A thread that does not hold the pump moves past what its holder has in hand. -/
private theorem inHand_same (kept : Kept before) (pump : after.pump = before.pump)
    (free : (before.calls thread).holds = false)
    (others : ∀ other, other ≠ thread → after.calls other = before.calls other) :
    after.inHand = before.inHand := by
  rw [World.inHand, World.inHand, pump]
  cases held : before.pump with
  | none => rfl
  | some who =>
    have apart : who ≠ thread := fun same => by
      rw [same, ← kept.holder, free] at held
      cases held
    simp only [Option.bind_some, others who apart]

/-- Threads that do not move still have the room they found, in a queue that is no fuller. -/
private theorem room_same (kept : Kept before)
    (others : ∀ other, other ≠ thread → after.calls other = before.calls other)
    (still : before.peers.isFull = false → after.peers.isFull = false)
    (mover : (after.calls thread).isReading = true → before.peers.isFull = false) (who : T)
    (read : (after.calls who).isReading = true) : after.peers.isFull = false := by
  by_cases same : who = thread
  · rw [same] at read
    exact still (mover read)
  · rw [others who same] at read
    exact still (kept.room who read)

/-- What a thread promises to return is no peer message. -/
private theorem promised_move (kept : Kept before) (moved : TableMove thread before after)
    (others : ∀ other, other ≠ thread → after.calls other = before.calls other) (who : T)
    (result : Return ν) (promised : (after.calls who).promised = some result) :
    result.peer? = none := by
  by_cases same : who = thread
  · subst same
    cases moved with
    | rest _ _ _ _ _ _ _ unpromised => rw [unpromised] at promised; cases promised
    | opens id message deadline _ _ _ _ _ _ phase => rw [phase] at promised; cases promised
    | enters id message deadline _ _ _ _ _ next => rw [next] at promised; cases promised
    | refused id message deadline error _ _ _ _ _ next => rw [next] at promised; cases promised
    | collects id deadline outcome _ _ _ _ _ _ next => rw [next] at promised; cases promised
    | abandons id deadline error _ _ _ _ _ _ _ next => rw [next] at promised; cases promised
    | givesUp id error last _ _ _ _ _ _ returned =>
      rcases returned with ⟨none_, -⟩ | ⟨some_, -⟩
      · rw [none_] at promised
        cases promised
      · rw [some_] at promised
        obtain rfl := Option.some.inj promised
        rfl
    | routes caller response slot next _ _ _ _ _ _ _ released => rw [released] at promised; cases promised
    | keepsPromise _ _ _ _ _ _ _ next => rw [next] at promised; cases promised
  · rw [others who same] at promised
    exact kept.promised who result promised

theorem move (kept : Kept before) (moved : TableMove thread before after)
    (pumped : PumpMove thread before after)
    (others : ∀ other, other ≠ thread → after.calls other = before.calls other) : Kept after := by
  have promised := kept.promised_move moved others
  have order := kept.order
  cases pumped with
  | rest pump peers handed collected holds emptied read =>
    have still : after.inHand = before.inHand := by
      rw [World.inHand, World.inHand, pump]
      cases before.pump with
      | none => rfl
      | some who =>
        by_cases same : who = thread
        · simp only [same, Option.bind_some, emptied.1, emptied.2]
        · simp only [Option.bind_some, others who same]
    refine ⟨kept.holder_same pump holds others, kept.room_same others ?_ ?_, ?_, ?_, promised⟩
    · rw [peers]
      exact id
    · rw [read]
      exact fun reading => by cases reading
    · rw [collected, peers, still, handed, order]
    · rw [peers]
      exact kept.counted
  | takes free pump peers handed collected caller next =>
    have apart : ∀ who, (before.calls who).holds = false := fun who =>
      Bool.eq_false_iff.mpr fun holds => by
        rw [(kept.holder who).mp holds] at free
        cases free
    have empty : before.inHand = none := by rw [World.inHand, free]; rfl
    have still : after.inHand = none := by rw [inHand_of_pump pump, next]; rfl
    refine ⟨fun who => ?_, kept.room_same others ?_ ?_, ?_, ?_, promised⟩
    · rw [pump]
      by_cases same : who = thread
      · rw [same, next]
        exact iff_of_true rfl rfl
      · rw [others who same, apart who]
        exact iff_of_false Bool.false_ne_true fun here => same (Option.some.inj here).symm
    · rw [peers]
      exact id
    · rw [next]
      exact fun reading => by cases reading
    · rw [collected, peers, still, handed, ← empty, order]
    · rw [peers]
      exact kept.counted
  | finds pump peers handed collected caller phase room next =>
    have held : before.pump = some thread := (kept.holder thread).mp (by rw [phase]; rfl)
    have empty : before.inHand = none := by rw [inHand_of_pump held, phase]; rfl
    have still : after.inHand = none := by rw [inHand_of_pump (pump.trans held), next]; rfl
    refine ⟨kept.holder_same pump (by rw [next, phase]; rfl) others,
      kept.room_same others ?_ fun _ => room, ?_, ?_, promised⟩
    · rw [peers]
      exact id
    · rw [collected, peers, still, handed, ← empty, order]
    · rw [peers]
      exact kept.counted
  | reads pump peers collected caller message phase handed next =>
    have held : before.pump = some thread := (kept.holder thread).mp (by rw [phase]; rfl)
    have empty : before.inHand = none := by rw [inHand_of_pump held, phase]; rfl
    have now_ : after.inHand = message.peer? := by
      rw [inHand_of_pump (pump.trans held), next]
      rfl
    refine ⟨kept.holder_same pump (by rw [next, phase]; rfl) others,
      kept.room_same others ?_ fun _ => kept.room thread (by rw [phase]; rfl), ?_, ?_, promised⟩
    · rw [peers]
      exact id
    · rw [empty, Option.toList_none, List.append_nil] at order
      rw [collected, peers, now_, handed, List.filterMap_append, ← order]
      cases same : message.peer? <;> simp [same]
    · rw [peers]
      exact kept.counted
  | enqueues pump handed collected caller message peer phase initiated peers next =>
    have held : before.pump = some thread := (kept.holder thread).mp (by rw [phase]; rfl)
    have now_ : before.inHand = some peer := by
      rw [inHand_of_pump held, phase]
      exact initiated
    have still : after.inHand = none := by rw [inHand_of_pump (pump.trans held), next]; rfl
    have room : before.peers.isFull = false := kept.room thread (by rw [phase]; rfl)
    refine ⟨kept.holder_same pump (by rw [next, phase]; rfl) others, fun who read => ?_, ?_, ?_, promised⟩
    · -- nobody else reads while this thread holds the pump
      by_cases same : who = thread
      · rw [same, next] at read
        cases read
      · rw [others who same] at read
        have also := (kept.holder who).mp (isReading_holds read)
        rw [held] at also
        exact absurd (Option.some.inj also).symm same
    · rw [now_] at order
      rw [collected, peers, still, handed, ← order, PeerQueue.push]
      simp
    · rw [peers]
      exact kept.counted.push room peer
  | frees pump peers handed collected caller result phase next =>
    have held : before.pump = some thread := (kept.holder thread).mp (by rw [phase]; rfl)
    have empty : before.inHand = none := by rw [inHand_of_pump held, phase]; rfl
    have still : after.inHand = none := by rw [World.inHand, pump]; rfl
    refine ⟨fun who => ?_, kept.room_same others ?_ ?_, ?_, ?_, promised⟩
    · rw [pump]
      by_cases same : who = thread
      · rw [same, next.1]
        exact iff_of_false Bool.false_ne_true fun here => by cases here
      · rw [others who same]
        refine iff_of_false (fun holds => same ?_) fun here => by cases here
        have also := (kept.holder who).mp holds
        rw [held] at also
        exact (Option.some.inj also).symm
    · rw [peers]
      exact id
    · rw [next.2]
      exact fun reading => by cases reading
    · rw [collected, peers, still, handed, ← empty, order]
    · rw [peers]
      exact kept.counted
  | pops pump handed deadline message phase popped returned next =>
    obtain ⟨cost, waiting, -⟩ := PeerQueue.pop_eq_some popped
    have free : (before.calls thread).holds = false := by rw [phase]; rfl
    have collected : after.collected = before.collected ++ [message] := by
      rw [World.collected, returned, List.filterMap_append]
      rfl
    refine ⟨kept.holder_same pump (by rw [next, free]; rfl) others,
      kept.room_same others (PeerQueue.isFull_pop popped) ?_, ?_, ?_, promised⟩
    · rw [next]
      exact fun reading => by cases reading
    · rw [waiting] at order
      rw [collected, kept.inHand_same pump free others, handed, ← order]
      simp
    · exact kept.counted.pop popped
  | keepsPromise pump peers handed result promise free returned next =>
    have collected : after.collected = before.collected := by
      simp only [World.collected, returned, List.filterMap_append, List.filterMap_cons,
        kept.promised thread result promise, List.filterMap_nil, List.append_nil]
    refine ⟨kept.holder_same pump (by rw [next, free]; rfl) others, kept.room_same others ?_ ?_,
      ?_, ?_, promised⟩
    · rw [peers]
      exact id
    · rw [next]
      exact fun reading => by cases reading
    · rw [collected, peers, kept.inHand_same pump free others, handed, order]
    · rw [peers]
      exact kept.counted

end Kept

section Moves

variable [DecidableEq T]

/-- A return that is no peer message adds nothing to those collected. -/
theorem World.finish_collected {result : Return ν} (self : World T ν) (none_ : result.peer? = none) :
    (self.finish thread result).collected = self.collected := by
  simp only [collected, finish, List.filterMap_append, List.filterMap_cons, none_, List.filterMap_nil,
    List.append_nil]

/-- A loop that ends with an error has nothing in hand, and changes nothing that all share. -/
theorem World.fail_apart (thread : T) (self : World T ν) (caller : Caller ν) (error : TransportError) :
    (self.fail thread caller error).pump = self.pump ∧
      (self.fail thread caller error).peers = self.peers ∧
      (self.fail thread caller error).handed = self.handed ∧
      (self.fail thread caller error).collected = self.collected ∧
      ((self.fail thread caller error).calls thread).holds = false ∧
      ((self.fail thread caller error).calls thread).inHand = none ∧
      ((self.fail thread caller error).calls thread).isReading = false := by
  have goes : ∀ phase : Phase ν, (self.goto thread phase).calls thread = phase := self.goto_calls
  have ends : ∀ result : Return ν, (self.finish thread result).calls thread = .idle := self.finish_calls
  unfold fail
  split
  · rw [goes]
    exact ⟨rfl, rfl, rfl, rfl, rfl, rfl, rfl⟩
  · rw [ends]
    exact ⟨rfl, rfl, rfl, finish_collected self rfl, rfl, rfl, rfl⟩
  · rw [goes]
    exact ⟨rfl, rfl, rfl, rfl, rfl, rfl, rfl⟩
  · rw [ends]
    exact ⟨rfl, rfl, rfl, finish_collected self rfl, rfl, rfl, rfl⟩

namespace PumpMove

variable {old : Phase ν}

theorem goto {phase : Phase ν} (self : World T ν) (here : before.calls thread = old)
    (pump : self.pump = before.pump) (peers : self.peers = before.peers)
    (handed : self.handed = before.handed) (returned : self.returned = before.returned)
    (holds : phase.holds = old.holds) (emptied : old.inHand = none ∧ phase.inHand = none)
    (read : phase.isReading = false) : PumpMove thread before (self.goto thread phase) := by
  refine .rest pump peers handed (congrArg (List.filterMap _) returned) ?_ ?_ ?_
  · rw [World.goto_calls, here, holds]
  · rw [World.goto_calls, here]
    exact emptied
  · rw [World.goto_calls, read]

theorem finish {result : Return ν} (self : World T ν) (here : before.calls thread = old)
    (pump : self.pump = before.pump) (peers : self.peers = before.peers)
    (handed : self.handed = before.handed) (returned : self.returned = before.returned)
    (holds : old.holds = false) (emptied : old.inHand = none) (none_ : result.peer? = none) :
    PumpMove thread before (self.finish thread result) := by
  refine .rest pump peers handed ?_ ?_ ?_ ?_
  · rw [World.finish_collected self none_]
    exact congrArg (List.filterMap _) returned
  · rw [World.finish_calls, here, holds]
    rfl
  · rw [World.finish_calls, here]
    exact ⟨emptied, rfl⟩
  · rw [World.finish_calls]
    rfl

theorem fail {caller : Caller ν} {error : TransportError} (self : World T ν)
    (here : before.calls thread = old) (pump : self.pump = before.pump)
    (peers : self.peers = before.peers) (handed : self.handed = before.handed)
    (returned : self.returned = before.returned) (holds : old.holds = false)
    (emptied : old.inHand = none) : PumpMove thread before (self.fail thread caller error) := by
  obtain ⟨samePump, samePeers, sameHanded, collected, free, empty, read⟩ :=
    self.fail_apart thread caller error
  refine .rest (samePump.trans pump) (samePeers.trans peers) (sameHanded.trans handed) ?_ ?_ ?_ read
  · exact collected.trans (congrArg (List.filterMap _) returned)
  · rw [free, here, holds]
  · rw [here]
    exact ⟨emptied, empty⟩

end PumpMove

theorem pumpMove_of_begin {call : Call ν} (idle : before.calls thread = .idle) :
    PumpMove thread before (before.begin_ thread call) := by
  cases call with
  | request method params deadline =>
    exact .goto { before with
        nextId := before.nextId + 1
        issued := before.issued ++ [.number before.nextId] }
      idle rfl rfl rfl rfl rfl ⟨rfl, rfl⟩ rfl
  | notify method params deadline => exact .goto before idle rfl rfl rfl rfl rfl ⟨rfl, rfl⟩ rfl
  | respond id outcome deadline => exact .goto before idle rfl rfl rfl rfl rfl ⟨rfl, rfl⟩ rfl
  | nextPeerMessage deadline => exact .goto before idle rfl rfl rfl rfl rfl ⟨rfl, rfl⟩ rfl

theorem pumpMove_of_send {result : Except World.SendRejection Unit}
    (moved : before.trySend thread result (before.calls thread) = some after) :
    PumpMove thread before after := by
  cases phase : before.calls thread with
  | look caller =>
    rw [phase] at moved
    cases caller with
    | send request message deadline =>
      obtain rfl := Option.some.inj moved
      rcases result with (_ | error) | _
      · exact .goto before phase rfl rfl rfl rfl rfl ⟨rfl, rfl⟩ rfl
      · exact .goto before phase rfl rfl rfl rfl rfl ⟨rfl, rfl⟩ rfl
      · cases request with
        | some id => exact .goto before phase rfl rfl rfl rfl rfl ⟨rfl, rfl⟩ rfl
        | none => exact .finish before phase rfl rfl rfl rfl rfl rfl rfl
    | answer id deadline => cases moved
    | peer deadline => cases moved
  | _ => rw [phase] at moved; cases moved

theorem pumpMove_of_receive {result : Except TransportError (Option (Message ν))}
    (moved : before.receive thread result (before.calls thread) = some after) :
    PumpMove thread before after := by
  cases phase : before.calls thread with
  | receive caller =>
    rw [phase] at moved
    obtain rfl := Option.some.inj moved
    rcases result with error | _ | message
    · exact .goto before phase rfl rfl rfl rfl rfl ⟨rfl, rfl⟩ rfl
    · exact .goto before phase rfl rfl rfl rfl rfl ⟨rfl, rfl⟩ rfl
    · exact .reads rfl rfl rfl caller message phase rfl (World.goto_calls _ _)
  | _ => rw [phase] at moved; cases moved

private theorem pumpMove_route {caller : Caller ν} {message : Message ν}
    (phase : before.calls thread = .route caller message) :
    PumpMove thread before (before.route thread caller message) := by
  cases message with
  | request call =>
    exact .enqueues rfl rfl rfl caller _ _ phase rfl rfl (World.goto_calls _ _)
  | notification call =>
    exact .enqueues rfl rfl rfl caller _ _ phase rfl rfl (World.goto_calls _ _)
  | response response =>
    change PumpMove thread before (before.routeResponse thread caller response)
    unfold World.routeResponse
    split
    · exact .goto { before with pending := _, accepted := _ } phase rfl rfl rfl rfl rfl ⟨rfl, rfl⟩ rfl
    · exact .goto { before with pending := _, accepted := _ } phase rfl rfl rfl rfl rfl ⟨rfl, rfl⟩ rfl
    · exact .goto before phase rfl rfl rfl rfl rfl ⟨rfl, rfl⟩ rfl
    · exact .goto before phase rfl rfl rfl rfl rfl ⟨rfl, rfl⟩ rfl
    · exact .goto before phase rfl rfl rfl rfl rfl ⟨rfl, rfl⟩ rfl

private theorem pumpMove_lookPeer {deadline : ℕ}
    (phase : before.calls thread = .look (.peer deadline)) :
    PumpMove thread before (before.lookPeer thread deadline) := by
  unfold World.lookPeer
  split
  next message peers popped =>
    exact .pops rfl rfl deadline message phase popped rfl (World.finish_calls _ _)
  · exact .goto before phase rfl rfl rfl rfl rfl ⟨rfl, rfl⟩ rfl

private theorem pumpMove_release {caller : Caller ν} {result : Except TransportError Unit}
    (phase : before.calls thread = .release caller result) :
    PumpMove thread before (before.release thread caller result) := by
  cases result with
  | ok _ =>
    refine .frees rfl rfl rfl rfl caller (.ok ()) phase ?_
    rw [World.release, World.goto_calls]
    exact ⟨rfl, rfl⟩
  | error error =>
    obtain ⟨pump, peers, handed, collected, free, -, read⟩ :=
      World.fail_apart thread { before with pump := none } caller error
    exact .frees pump peers handed collected caller (.error error) phase ⟨free, read⟩

theorem pumpMove_of_move (moved : before.move thread (before.calls thread) = some after) :
    PumpMove thread before after := by
  cases phase : before.calls thread with
  | idle => rw [phase] at moved; cases moved
  | receive caller => rw [phase] at moved; cases moved
  | register id message deadline =>
    rw [phase] at moved
    obtain rfl := Option.some.inj moved
    unfold World.register
    split
    · exact .finish before phase rfl rfl rfl rfl rfl rfl rfl
    · exact .goto { before with pending := _ } phase rfl rfl rfl rfl rfl ⟨rfl, rfl⟩ rfl
  | look caller =>
    rw [phase] at moved
    cases caller with
    | send request message deadline => cases moved
    | answer id deadline =>
      obtain rfl := Option.some.inj moved
      unfold World.lookAnswer
      repeat' split
      · exact .finish { before with pending := _ } phase rfl rfl rfl rfl rfl rfl rfl
      · exact .finish { before with pending := _ } phase rfl rfl rfl rfl rfl rfl rfl
      · exact .goto before phase rfl rfl rfl rfl rfl ⟨rfl, rfl⟩ rfl
    | peer deadline =>
      obtain rfl := Option.some.inj moved
      exact pumpMove_lookPeer phase
  | inspect deadline =>
    rw [phase] at moved
    obtain rfl := Option.some.inj moved
    unfold World.inspect
    split
    · exact .finish before phase rfl rfl rfl rfl rfl rfl rfl
    · exact .goto before phase rfl rfl rfl rfl rfl ⟨rfl, rfl⟩ rfl
  | token caller =>
    rw [phase] at moved
    obtain rfl := Option.some.inj moved
    unfold World.token
    repeat' split
    all_goals exact .goto before phase rfl rfl rfl rfl rfl ⟨rfl, rfl⟩ rfl
  | clock caller =>
    rw [phase] at moved
    obtain rfl := Option.some.inj moved
    unfold World.clock
    repeat' split
    · exact .goto before phase rfl rfl rfl rfl rfl ⟨rfl, rfl⟩ rfl
    · exact .fail before phase rfl rfl rfl rfl rfl rfl
    · exact .finish before phase rfl rfl rfl rfl rfl rfl rfl
    · exact .goto before phase rfl rfl rfl rfl rfl ⟨rfl, rfl⟩ rfl
  | lead caller =>
    rw [phase] at moved
    obtain rfl := Option.some.inj moved
    unfold World.lead
    split
    next free => exact .takes free rfl rfl rfl rfl caller (World.goto_calls _ _)
    · exact .goto before phase rfl rfl rfl rfl rfl ⟨rfl, rfl⟩ rfl
  | gauge caller =>
    rw [phase] at moved
    obtain rfl := Option.some.inj moved
    unfold World.gauge
    split
    · exact .goto before phase rfl rfl rfl rfl rfl ⟨rfl, rfl⟩ rfl
    next room =>
      exact .finds rfl rfl rfl rfl caller phase (Bool.eq_false_iff.mpr room) (World.goto_calls _ _)
  | route caller message =>
    rw [phase] at moved
    obtain rfl := Option.some.inj moved
    exact pumpMove_route phase
  | release caller result =>
    rw [phase] at moved
    obtain rfl := Option.some.inj moved
    exact pumpMove_release phase
  | remember error after_ =>
    rw [phase] at moved
    obtain rfl := Option.some.inj moved
    cases after_ with
    | release caller =>
      exact .goto { before with pending := _ } phase rfl rfl rfl rfl rfl ⟨rfl, rfl⟩ rfl
    | fail caller => exact .fail { before with pending := _ } phase rfl rfl rfl rfl rfl rfl
    | done result =>
      exact .keepsPromise rfl rfl rfl result (by rw [phase]; rfl) (by rw [phase]; rfl) rfl
        (World.finish_calls _ _)
  | retire id error giveUp =>
    rw [phase] at moved
    obtain rfl := Option.some.inj moved
    unfold World.retire
    cases giveUp with
    | true => exact .goto { before with pending := _ } phase rfl rfl rfl rfl rfl ⟨rfl, rfl⟩ rfl
    | false => exact .finish { before with pending := _ } phase rfl rfl rfl rfl rfl rfl rfl

theorem pumpMove_of_step {act : Act T ν} (step : conversation.step before act = some after)
    (of : act.thread? = some thread) : PumpMove thread before after := by
  cases act with
  | begin_ other call =>
    obtain rfl := Option.some.inj of
    simp only [conversation] at step
    split at step
    next idle =>
      obtain rfl := Option.some.inj step
      exact pumpMove_of_begin idle
    · cases step
  | move other =>
    obtain rfl := Option.some.inj of
    exact pumpMove_of_move step
  | send other result =>
    obtain rfl := Option.some.inj of
    exact pumpMove_of_send step
  | receive other result =>
    obtain rfl := Option.some.inj of
    exact pumpMove_of_receive step
  | tick => cases of
  | cancel => cases of

theorem Kept.step {act : Act T ν} (kept : Kept before)
    (step : conversation.step before act = some after) : Kept after := by
  rcases step_cases step with ⟨thread, of, moved, others⟩ | ⟨-, cancelled, now, rfl⟩
  · exact kept.move moved (pumpMove_of_step step of) others
  · exact ⟨kept.holder, kept.room, kept.order, kept.counted, kept.promised⟩

theorem kept_of_reachable {world : World T ν} (reachable : conversation.Reachable world) :
    Kept world := by
  refine reachable.invariant ?_ fun _ _ _ kept step => kept.step step
  rintro _ rfl
  exact .new

/-- What a caller of `next_peer_message` meets in the queue. -/
structure Serves (world : World T ν) : Prop where
  /-- Every message read is returned, waits, or is about to, in the order of the stream. -/
  order : world.collected ++ world.peers.waiting.map Prod.fst ++ world.inHand.toList =
    world.handed.filterMap Message.peer?
  /-- The oldest one is returned first of all, also where a fault has ended the conversation. -/
  oldest : ∀ thread deadline message cost rest, world.calls thread = .look (.peer deadline) →
    world.peers.waiting = (message, cost) :: rest →
    ∃ after, conversation.step world (.move thread) = some after ∧
      after.returned = world.returned ++ [(thread, .peer (.ok (some message)))] ∧
      after.peers.waiting = rest
  /-- One that is about to be routed is the only one, and gets its place. -/
  routed : ∀ thread caller message peer, world.calls thread = .route caller message →
    message.peer? = some peer → world.inHand = some peer ∧
    ∃ after, conversation.step world (.move thread) = some after ∧
      after.peers.waiting = world.peers.waiting ++ [(peer, peer.retainedBytes)]
  capacity : world.peers.waiting.length ≤ peerCapacity
  /-- All but the last message are within the budget. -/
  budget : world.peers.bytes = 0 ∨ ∃ front last, world.peers.waiting = front ++ [last] ∧
    world.peers.bytes < peerByteBudget + last.1.retainedBytes
  bytes : world.peers.bytes = (world.peers.waiting.map fun entry => entry.1.retainedBytes).sum

theorem peer_messages_served {world : World T ν} (reachable : conversation.Reachable world) :
    Serves world := by
  have kept := kept_of_reachable reachable
  refine
    { order := kept.order
      oldest := fun thread deadline message cost rest phase waiting => ?_
      routed := fun thread caller message peer phase initiated => ?_
      capacity := kept.counted.capacity
      budget := ?_
      bytes := ?_ }
  · refine ⟨world.lookPeer thread deadline, ?_, ?_⟩
    · simp only [conversation, World.move, phase]
    · simp only [World.lookPeer, PeerQueue.pop, waiting]
      exact ⟨rfl, rfl⟩
  · have held := (kept.holder thread).mp (by rw [phase]; rfl)
    refine ⟨?_, world.route thread caller message, ?_, ?_⟩
    · rw [Kept.inHand_of_pump held, phase]
      exact initiated
    · simp only [conversation, World.move, phase]
    · cases message with
      | request call => cases initiated; rfl
      | notification call => cases initiated; rfl
      | response response => cases initiated
  · rcases List.eq_nil_or_concat' world.peers.waiting with empty | ⟨front, last, same⟩
    · left
      rw [kept.counted.bytes, empty]
      rfl
    · refine .inr ⟨front, last, same, ?_⟩
      have within := kept.counted.budget front last same
      have cost := kept.counted.costs last (same ▸ List.mem_append_right _ List.mem_cons_self)
      rw [kept.counted.bytes, same, List.map_append, List.sum_append, ← cost]
      simpa using within
  · rw [kept.counted.bytes]
    exact congrArg List.sum (List.map_congr_left kept.counted.costs)

/-- The moves of a request from a look at its slot to one read from the transport. -/
private def samplePump (read : Except TransportError (Option (Message ℕ))) (rest : ℕ) :
    List (Act Bool ℕ) :=
  List.replicate 5 (.move false) ++ .receive false read :: List.replicate rest (.move false)

private def sampleNote (method : String) : Message ℕ := .notification ⟨method, some (.number 7)⟩

/-- A request reads two notifications and meets the end of its peer; then one of them is taken. -/
private def samplePumped : List (Act Bool ℕ) :=
  [.begin_ false (.request "ask" none 9), .move false, .send false (.ok ())] ++
    samplePump (.ok (some (sampleNote "one"))) 2 ++ samplePump (.ok (some (sampleNote "two"))) 2 ++
    samplePump (.error (.disconnected .idle)) 3 ++
    [.begin_ true (.nextPeerMessage 9), .move true]

theorem peer_messages_served_sample : ∃ world : World Bool ℕ, Serves world ∧
    world.collected = [.notification ⟨"one", some (.number 7)⟩] ∧
    world.peers.waiting.map Prod.fst = [.notification ⟨"two", some (.number 7)⟩] ∧
    world.pending.terminal = some (.disconnected .idle) := by
  obtain ⟨world, ran⟩ : ∃ world, conversation.run? .new samplePumped = some world := ⟨_, rfl⟩
  refine ⟨world, peer_messages_served (.of_run? rfl ran), ?_⟩
  obtain rfl := Option.some.inj ran
  exact ⟨rfl, rfl, rfl⟩

end Moves

end Harkness.Transport
