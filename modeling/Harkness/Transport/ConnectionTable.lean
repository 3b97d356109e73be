import Harkness.Transport.Connection
import Mathlib

/-! # What the moves of a connection do to its table

Every move of a thread leaves the table of requests alone or does one of eight things to it. From
this inversion: ids are allocated once, each is used by one thread at a time and stays in the table
until that thread is finished with it, and the ids kept for late answers stay within their bound.
-/

namespace Harkness.Transport

open Json

variable {T ν : Type}

/-- The request a loop works for. -/
def Caller.request? : Caller ν → Option RequestId
  | send request _ _ => request
  | answer id _ => some id
  | peer _ => none

def After.request? : After ν → Option RequestId
  | release caller | fail caller => caller.request?
  | done _ => none

/-- The request whose caller a thread is, until it is finished with it. -/
def Phase.request? : Phase ν → Option RequestId
  | idle | inspect _ => none
  | register id _ _ | retire id _ _ => some id
  | look caller | token caller | clock caller | lead caller | gauge caller | receive caller
  | route caller _ | release caller _ => caller.request?
  | remember _ after => after.request?

/-- Whether the request of a thread is not in the table yet. -/
def Phase.isRegister : Phase ν → Bool
  | register .. => true
  | _ => false

/-- Whether the next move of a thread needs nothing from its caller or the transport. -/
def Phase.isOwn : Phase ν → Bool
  | idle | look (.send ..) | receive _ => false
  | _ => true

/-- The result that a thread will return once it has recorded a failure. -/
def Phase.promised : Phase ν → Option (Return ν)
  | remember _ (.done result) => some result
  | _ => none

/-- The result of a call that is no request. -/
def Return.Plain : Return ν → Prop
  | request .. => False
  | _ => True

section Moves

variable [DecidableEq T] {thread : T} {before after : World T ν}

/-- What a move of a thread does to the table of requests. -/
inductive TableMove (thread : T) (before after : World T ν) : Prop where
  | rest (slots : after.pending.slots = before.pending.slots)
      (retired : after.pending.retired = before.pending.retired)
      (issued : after.issued = before.issued) (nextId : after.nextId = before.nextId)
      (accepted : after.accepted = before.accepted)
      (request : (after.calls thread).request? = (before.calls thread).request?)
      (entered : (before.calls thread).isRegister = false ∧ (after.calls thread).isRegister = false)
      (unpromised : (after.calls thread).promised = none)
      (returned : after.returned = before.returned ∨
        ∃ result, result.Plain ∧ after.returned = before.returned ++ [(thread, result)])
  | opens (id : RequestId) (message : Message ν) (deadline : ℕ)
      (idle : before.calls thread = .idle) (fresh : id = .number before.nextId)
      (pending : after.pending = before.pending) (issued : after.issued = before.issued ++ [id])
      (accepted : after.accepted = before.accepted)
      (nextId : after.nextId = before.nextId + 1)
      (phase : after.calls thread = .register id message deadline)
      (returned : after.returned = before.returned)
  | enters (id : RequestId) (message : Message ν) (deadline : ℕ)
      (phase : before.calls thread = .register id message deadline)
      (pending : after.pending =
        { before.pending with slots := before.pending.slots.insert id .waiting })
      (issued : after.issued = before.issued) (nextId : after.nextId = before.nextId)
      (accepted : after.accepted = before.accepted)
      (next : after.calls thread = .look (.send (some id) message deadline))
      (returned : after.returned = before.returned)
  | refused (id : RequestId) (message : Message ν) (deadline : ℕ) (error : TransportError)
      (phase : before.calls thread = .register id message deadline)
      (pending : after.pending = before.pending)
      (issued : after.issued = before.issued) (nextId : after.nextId = before.nextId)
      (accepted : after.accepted = before.accepted)
      (next : after.calls thread = .idle)
      (returned : after.returned = before.returned ++ [(thread, .request id (.error error))])
  | collects (id : RequestId) (deadline : ℕ) (outcome : Outcome ν)
      (phase : before.calls thread = .look (.answer id deadline))
      (held : before.pending.slots.lookup id = some (.answered outcome))
      (pending : after.pending = before.pending.retire id true)
      (issued : after.issued = before.issued) (nextId : after.nextId = before.nextId)
      (accepted : after.accepted = before.accepted)
      (next : after.calls thread = .idle)
      (returned : after.returned = before.returned ++ [(thread, .request id (.ok outcome))])
  | abandons (id : RequestId) (deadline : ℕ) (error : TransportError)
      (phase : before.calls thread = .look (.answer id deadline))
      (over_ : before.pending.terminal ≠ none)
      (unanswered : ∀ outcome, before.pending.slots.lookup id ≠ some (.answered outcome))
      (pending : after.pending = before.pending.retire id false)
      (issued : after.issued = before.issued) (nextId : after.nextId = before.nextId)
      (accepted : after.accepted = before.accepted)
      (next : after.calls thread = .idle)
      (returned : after.returned = before.returned ++ [(thread, .request id (.error error))])
  | givesUp (id : RequestId) (error : TransportError) (last : Bool)
      (phase : before.calls thread = .retire id error last)
      (pending : after.pending = before.pending.retire id false)
      (issued : after.issued = before.issued) (nextId : after.nextId = before.nextId)
      (accepted : after.accepted = before.accepted)
      (next : (after.calls thread).request? = none ∧ (after.calls thread).isRegister = false)
      (returned : (after.calls thread).promised = none ∧
          after.returned = before.returned ++ [(thread, .request id (.error error))] ∨
        (after.calls thread).promised = some (.request id (.error error)) ∧
          after.returned = before.returned)
  | routes (caller : Caller ν) (response : Response ν) (slot next : Slot ν)
      (phase : before.calls thread = .route caller (.response response))
      (held : before.pending.slots.lookup response.id = some slot)
      (turned : slot = .waiting ∧ next = .answered response.outcome ∨
        slot = .retired false ∧ next = .retired true)
      (pending : after.pending =
        { before.pending with slots := before.pending.slots.insert response.id next })
      (issued : after.issued = before.issued) (nextId : after.nextId = before.nextId)
      (accepted : after.accepted = before.accepted ++ [response.id])
      (released : after.calls thread = .release caller (.ok ()))
      (returned : after.returned = before.returned)
  | keepsPromise (result : Return ν) (promised : (before.calls thread).promised = some result)
      (slots : after.pending.slots = before.pending.slots)
      (retired : after.pending.retired = before.pending.retired)
      (issued : after.issued = before.issued) (nextId : after.nextId = before.nextId)
      (accepted : after.accepted = before.accepted)
      (next : after.calls thread = .idle)
      (returned : after.returned = before.returned ++ [(thread, result)])

@[simp] theorem World.goto_calls (phase : Phase ν) (self : World T ν) :
    (self.goto thread phase).calls thread = phase := Function.update_self ..

@[simp] theorem World.finish_calls (result : Return ν) (self : World T ν) :
    (self.finish thread result).calls thread = .idle := Function.update_self ..

theorem Pending.remember_slots (self : Pending ν) (error : TransportError) :
    (self.remember error).slots = self.slots ∧ (self.remember error).retired = self.retired := by
  unfold remember
  split <;> exact ⟨rfl, rfl⟩

/-- What follows a move that leaves the table alone, by the phase it leads to. -/
theorem TableMove.goto {phase : Phase ν} (self : World T ν)
    (slots : self.pending.slots = before.pending.slots)
    (retired : self.pending.retired = before.pending.retired) (issued : self.issued = before.issued)
    (nextId : self.nextId = before.nextId) (accepted : self.accepted = before.accepted)
    (returned : self.returned = before.returned)
    (request : phase.request? = (before.calls thread).request?)
    (entered : (before.calls thread).isRegister = false ∧ phase.isRegister = false)
    (unpromised : phase.promised = none) : TableMove thread before (self.goto thread phase) := by
  refine .rest slots retired issued nextId accepted ?_ ?_ ?_ (.inl returned)
  · rw [World.goto_calls, request]
  · rw [World.goto_calls]
    exact entered
  · rw [World.goto_calls, unpromised]

theorem TableMove.finish {result : Return ν} (self : World T ν)
    (slots : self.pending.slots = before.pending.slots)
    (retired : self.pending.retired = before.pending.retired) (issued : self.issued = before.issued)
    (nextId : self.nextId = before.nextId) (accepted : self.accepted = before.accepted)
    (returned : self.returned = before.returned)
    (request : (before.calls thread).request? = none)
    (entered : (before.calls thread).isRegister = false) (plain : result.Plain) :
    TableMove thread before (self.finish thread result) := by
  refine .rest slots retired issued nextId accepted ?_ ?_ ?_ (.inr ⟨result, plain, ?_⟩)
  · rw [World.finish_calls, request]
    rfl
  · rw [World.finish_calls]
    exact ⟨entered, rfl⟩
  · rw [World.finish_calls]
    rfl
  · exact congrArg (· ++ _) returned

/-- A loop that ends with an error gives up its request, if it has one, in its next move. -/
theorem TableMove.fail {caller : Caller ν} {error : TransportError} (self : World T ν)
    (slots : self.pending.slots = before.pending.slots)
    (retired : self.pending.retired = before.pending.retired) (issued : self.issued = before.issued)
    (nextId : self.nextId = before.nextId) (accepted : self.accepted = before.accepted)
    (returned : self.returned = before.returned)
    (request : (before.calls thread).request? = caller.request?)
    (entered : (before.calls thread).isRegister = false) :
    TableMove thread before (self.fail thread caller error) := by
  match caller with
  | .send (some id) message deadline =>
    exact .goto self slots retired issued nextId accepted returned request.symm ⟨entered, rfl⟩ rfl
  | .send none message deadline =>
    exact .finish self slots retired issued nextId accepted returned request entered trivial
  | .answer id deadline =>
    exact .goto self slots retired issued nextId accepted returned request.symm ⟨entered, rfl⟩ rfl
  | .peer deadline =>
    exact .finish self slots retired issued nextId accepted returned request entered trivial

theorem tableMove_of_begin {call : Call ν} (idle : before.calls thread = .idle) :
    TableMove thread before (before.begin_ thread call) := by
  cases call with
  | request method params deadline =>
    exact .opens _ (.request ⟨_, method, params⟩) deadline idle rfl rfl rfl rfl rfl
      (World.goto_calls _ _) rfl
  | notify method params deadline =>
    exact .goto before rfl rfl rfl rfl rfl rfl (by rw [idle]; rfl) ⟨by rw [idle]; rfl, rfl⟩ rfl
  | respond id outcome deadline =>
    exact .goto before rfl rfl rfl rfl rfl rfl (by rw [idle]; rfl) ⟨by rw [idle]; rfl, rfl⟩ rfl
  | nextPeerMessage deadline =>
    exact .goto before rfl rfl rfl rfl rfl rfl (by rw [idle]; rfl) ⟨by rw [idle]; rfl, rfl⟩ rfl

theorem tableMove_of_send {result : Except World.SendRejection Unit}
    (moved : before.trySend thread result (before.calls thread) = some after) :
    TableMove thread before after := by
  cases phase : before.calls thread with
  | look caller =>
    rw [phase] at moved
    cases caller with
    | send request message deadline =>
      obtain rfl := Option.some.inj moved
      rcases result with (_ | error) | _
      · exact .goto before rfl rfl rfl rfl rfl rfl (by rw [phase]; rfl) ⟨by rw [phase]; rfl, rfl⟩ rfl
      · exact .goto before rfl rfl rfl rfl rfl rfl (by rw [phase]; rfl) ⟨by rw [phase]; rfl, rfl⟩ rfl
      · cases request with
        | some id =>
          exact .goto before rfl rfl rfl rfl rfl rfl (by rw [phase]; rfl)
            ⟨by rw [phase]; rfl, rfl⟩ rfl
        | none =>
          exact .finish before rfl rfl rfl rfl rfl rfl (by rw [phase]; rfl) (by rw [phase]; rfl) trivial
    | answer id deadline => cases moved
    | peer deadline => cases moved
  | _ => rw [phase] at moved; cases moved

theorem tableMove_of_receive {result : Except TransportError (Option (Message ν))}
    (moved : before.receive thread result (before.calls thread) = some after) :
    TableMove thread before after := by
  cases phase : before.calls thread with
  | receive caller =>
    rw [phase] at moved
    obtain rfl := Option.some.inj moved
    rcases result with error | _ | message
    · exact .goto before rfl rfl rfl rfl rfl rfl (by rw [phase]; rfl) ⟨by rw [phase]; rfl, rfl⟩ rfl
    · exact .goto before rfl rfl rfl rfl rfl rfl (by rw [phase]; rfl) ⟨by rw [phase]; rfl, rfl⟩ rfl
    · exact .goto { before with handed := before.handed ++ [message] } rfl rfl rfl rfl rfl rfl
        (by rw [phase]; rfl) ⟨by rw [phase]; rfl, rfl⟩ rfl
  | _ => rw [phase] at moved; cases moved

private theorem tableMove_register {id : RequestId} {message : Message ν} {deadline : ℕ}
    (phase : before.calls thread = .register id message deadline) :
    TableMove thread before (before.register thread id message deadline) := by
  unfold World.register
  split
  · exact .refused id message deadline _ phase rfl rfl rfl rfl (World.finish_calls _ _) rfl
  · exact .enters id message deadline phase rfl rfl rfl rfl (World.goto_calls _ _) rfl

private theorem tableMove_lookAnswer {id : RequestId} {deadline : ℕ}
    (phase : before.calls thread = .look (.answer id deadline)) :
    TableMove thread before (before.lookAnswer thread id deadline) := by
  unfold World.lookAnswer
  split
  next outcome held =>
    exact .collects id deadline outcome phase held rfl rfl rfl rfl (World.finish_calls _ _) rfl
  next unanswered =>
    split
    next fault over_ =>
      exact .abandons id deadline _ phase (by rw [over_]; exact Option.some_ne_none _) unanswered rfl
        rfl rfl rfl (World.finish_calls _ _) rfl
    · exact .goto before rfl rfl rfl rfl rfl rfl (by rw [phase]; rfl) ⟨by rw [phase]; rfl, rfl⟩ rfl

private theorem tableMove_routeResponse {caller : Caller ν} {response : Response ν}
    (phase : before.calls thread = .route caller (.response response)) :
    TableMove thread before (before.routeResponse thread caller response) := by
  have lost : ∀ detail, TableMove thread before
      (before.goto thread (.remember (.desynchronized detail) (.release caller))) := fun detail =>
    .goto before rfl rfl rfl rfl rfl rfl (by rw [phase]; rfl) ⟨by rw [phase]; rfl, rfl⟩ rfl
  unfold World.routeResponse
  split
  next held =>
    exact .routes caller response .waiting _ phase held (.inl ⟨rfl, rfl⟩) rfl rfl rfl rfl
      (World.goto_calls _ _) rfl
  next held =>
    exact .routes caller response (.retired false) _ phase held (.inr ⟨rfl, rfl⟩) rfl rfl rfl rfl
      (World.goto_calls _ _) rfl
  · exact lost _
  · exact lost _
  · exact lost _

private theorem tableMove_remember {error : TransportError} {after_ : After ν}
    (phase : before.calls thread = .remember error after_) :
    TableMove thread before (before.remember thread error after_) := by
  obtain ⟨slots, retired⟩ := before.pending.remember_slots error
  cases after_ with
  | release caller =>
    exact .goto { before with pending := before.pending.remember error } slots retired rfl rfl rfl rfl
      (by rw [phase]; rfl) ⟨by rw [phase]; rfl, rfl⟩ rfl
  | fail caller =>
    exact .fail { before with pending := before.pending.remember error } slots retired rfl rfl rfl rfl
      (by rw [phase]; rfl) (by rw [phase]; rfl)
  | done result =>
    exact .keepsPromise result (by rw [phase]; rfl) slots retired rfl rfl rfl
      (World.finish_calls _ _) rfl

theorem tableMove_of_move (moved : before.move thread (before.calls thread) = some after) :
    TableMove thread before after := by
  cases phase : before.calls thread with
  | idle => rw [phase] at moved; cases moved
  | register id message deadline =>
    rw [phase] at moved
    obtain rfl := Option.some.inj moved
    exact tableMove_register phase
  | look caller =>
    rw [phase] at moved
    cases caller with
    | send request message deadline => cases moved
    | answer id deadline =>
      obtain rfl := Option.some.inj moved
      exact tableMove_lookAnswer phase
    | peer deadline =>
      obtain rfl := Option.some.inj moved
      unfold World.lookPeer
      split
      next message peers popped =>
        exact .finish { before with peers } rfl rfl rfl rfl rfl rfl (by rw [phase]; rfl)
          (by rw [phase]; rfl) trivial
      · exact .goto before rfl rfl rfl rfl rfl rfl (by rw [phase]; rfl) ⟨by rw [phase]; rfl, rfl⟩ rfl
  | inspect deadline =>
    rw [phase] at moved
    obtain rfl := Option.some.inj moved
    unfold World.inspect
    split
    · exact .finish before rfl rfl rfl rfl rfl rfl (by rw [phase]; rfl) (by rw [phase]; rfl) trivial
    · exact .goto before rfl rfl rfl rfl rfl rfl (by rw [phase]; rfl) ⟨by rw [phase]; rfl, rfl⟩ rfl
  | token caller =>
    rw [phase] at moved
    obtain rfl := Option.some.inj moved
    unfold World.token
    split
    · cases caller <;>
        exact .goto before rfl rfl rfl rfl rfl rfl (by rw [phase]; rfl) ⟨by rw [phase]; rfl, rfl⟩ rfl
    · exact .goto before rfl rfl rfl rfl rfl rfl (by rw [phase]; rfl) ⟨by rw [phase]; rfl, rfl⟩ rfl
  | clock caller =>
    rw [phase] at moved
    obtain rfl := Option.some.inj moved
    unfold World.clock
    split
    · cases caller with
      | answer id deadline =>
        exact .goto before rfl rfl rfl rfl rfl rfl (by rw [phase]; rfl) ⟨by rw [phase]; rfl, rfl⟩ rfl
      | send request message deadline =>
        exact .fail before rfl rfl rfl rfl rfl rfl (by rw [phase]; rfl) (by rw [phase]; rfl)
      | peer deadline =>
        exact .finish before rfl rfl rfl rfl rfl rfl (by rw [phase]; rfl) (by rw [phase]; rfl) trivial
    · exact .goto before rfl rfl rfl rfl rfl rfl (by rw [phase]; rfl) ⟨by rw [phase]; rfl, rfl⟩ rfl
  | lead caller =>
    rw [phase] at moved
    obtain rfl := Option.some.inj moved
    unfold World.lead
    split
    · exact .goto { before with pump := some thread } rfl rfl rfl rfl rfl rfl (by rw [phase]; rfl)
        ⟨by rw [phase]; rfl, rfl⟩ rfl
    · exact .goto before rfl rfl rfl rfl rfl rfl (by rw [phase]; rfl) ⟨by rw [phase]; rfl, rfl⟩ rfl
  | gauge caller =>
    rw [phase] at moved
    obtain rfl := Option.some.inj moved
    unfold World.gauge
    split
    · exact .goto before rfl rfl rfl rfl rfl rfl (by rw [phase]; rfl) ⟨by rw [phase]; rfl, rfl⟩ rfl
    · exact .goto before rfl rfl rfl rfl rfl rfl (by rw [phase]; rfl) ⟨by rw [phase]; rfl, rfl⟩ rfl
  | receive caller => rw [phase] at moved; cases moved
  | route caller message =>
    rw [phase] at moved
    obtain rfl := Option.some.inj moved
    cases message with
    | response response => exact tableMove_routeResponse phase
    | request call =>
      exact .goto { before with peers := before.peers.push (.request call) } rfl rfl rfl rfl rfl rfl
        (by rw [phase]; rfl) ⟨by rw [phase]; rfl, rfl⟩ rfl
    | notification call =>
      exact .goto { before with peers := before.peers.push (.notification call) } rfl rfl rfl rfl rfl rfl
        (by rw [phase]; rfl) ⟨by rw [phase]; rfl, rfl⟩ rfl
  | release caller result =>
    rw [phase] at moved
    obtain rfl := Option.some.inj moved
    cases result with
    | ok _ =>
      exact .goto { before with pump := none } rfl rfl rfl rfl rfl rfl (by rw [phase]; rfl)
        ⟨by rw [phase]; rfl, rfl⟩ rfl
    | error error =>
      exact .fail { before with pump := none } rfl rfl rfl rfl rfl rfl (by rw [phase]; rfl)
        (by rw [phase]; rfl)
  | remember error after_ =>
    rw [phase] at moved
    obtain rfl := Option.some.inj moved
    exact tableMove_remember phase
  | retire id error giveUp =>
    rw [phase] at moved
    obtain rfl := Option.some.inj moved
    unfold World.retire
    cases giveUp with
    | true =>
      refine .givesUp id error true phase rfl rfl rfl rfl ?_ (.inr ⟨?_, rfl⟩)
      · exact ⟨congrArg Phase.request? (World.goto_calls _ _), congrArg Phase.isRegister (World.goto_calls _ _)⟩
      · exact congrArg Phase.promised (World.goto_calls _ _)
    | false =>
      refine .givesUp id error false phase rfl rfl rfl rfl ?_ (.inl ⟨?_, rfl⟩)
      · exact ⟨congrArg Phase.request? (World.finish_calls _ _), congrArg Phase.isRegister (World.finish_calls _ _)⟩
      · exact congrArg Phase.promised (World.finish_calls _ _)

section Others

variable {other : T} (self : World T ν)

theorem World.goto_others (phase : Phase ν) (apart : other ≠ thread) :
    (self.goto thread phase).calls other = self.calls other :=
  Function.update_of_ne apart _ _

theorem World.finish_others (result : Return ν) (apart : other ≠ thread) :
    (self.finish thread result).calls other = self.calls other :=
  Function.update_of_ne apart _ _

theorem World.fail_others (caller : Caller ν) (error : TransportError) (apart : other ≠ thread) :
    (self.fail thread caller error).calls other = self.calls other := by
  unfold fail
  split
  · exact goto_others self _ apart
  · exact finish_others self _ apart
  · exact goto_others self _ apart
  · exact finish_others self _ apart

theorem World.move_others (moved : before.move thread (before.calls thread) = some after)
    (apart : other ≠ thread) : after.calls other = before.calls other := by
  have goes := fun (self : World T ν) phase => self.goto_others phase apart
  have ends := fun (self : World T ν) result => self.finish_others result apart
  have fails := fun (self : World T ν) caller error => self.fail_others caller error apart
  unfold World.move at moved
  split at moved
  all_goals cases moved
  · unfold register
    split <;> simp only [goes, ends]
  · unfold lookAnswer
    repeat' split
    all_goals simp only [goes, ends]
  · unfold lookPeer
    split <;> simp only [goes, ends]
  · unfold inspect
    split <;> simp only [goes, ends]
  · unfold token
    repeat' split
    all_goals simp only [goes]
  · unfold clock
    repeat' split
    all_goals simp only [goes, ends, fails]
  · unfold lead
    split <;> simp only [goes]
  · unfold gauge
    split <;> simp only [goes]
  · unfold route routeResponse
    repeat' split
    all_goals simp only [goes]
  · unfold release
    split <;> simp only [goes, fails]
  · unfold World.remember
    split <;> simp only [goes, fails, ends]
  · unfold World.retire
    split <;> simp only [goes, ends]

end Others

/-- The thread an act is of. -/
def Act.thread? : Act T ν → Option T
  | .begin_ thread _ | .move thread | .send thread _ | .receive thread _ => some thread
  | .tick | .cancel => none

/-- A move of the connection is one of a thread, or changes nothing but the clock and the token. -/
theorem step_cases {act : Act T ν} (step : conversation.step before act = some after) :
    (∃ thread, act.thread? = some thread ∧ TableMove thread before after ∧
      ∀ other, other ≠ thread → after.calls other = before.calls other) ∨
    act.thread? = none ∧ ∃ cancelled now, after = { before with cancelled, now } := by
  cases act with
  | begin_ thread call =>
    simp only [conversation] at step
    split at step
    next idle =>
      obtain rfl := Option.some.inj step
      refine .inl ⟨thread, rfl, tableMove_of_begin idle, fun other apart => ?_⟩
      cases call <;> exact World.goto_others _ _ apart
    · cases step
  | move thread =>
    exact .inl ⟨thread, rfl, tableMove_of_move step, fun other apart => World.move_others step apart⟩
  | send thread result =>
    refine .inl ⟨thread, rfl, tableMove_of_send step, fun other apart => ?_⟩
    simp only [conversation, World.trySend] at step
    split at step
    · obtain rfl := Option.some.inj step
      repeat' split
      all_goals exact World.goto_others _ _ apart
    · cases step
  | receive thread result =>
    refine .inl ⟨thread, rfl, tableMove_of_receive step, fun other apart => ?_⟩
    simp only [conversation, World.receive] at step
    split at step
    · obtain rfl := Option.some.inj step
      repeat' split
      all_goals exact World.goto_others _ _ apart
    · cases step
  | tick => exact .inr ⟨rfl, before.cancelled, before.now + 1, (Option.some.inj step).symm⟩
  | cancel => exact .inr ⟨rfl, true, before.now, (Option.some.inj step).symm⟩

theorem act_eq_move {act : Act T ν} (step : conversation.step before act = some after)
    (of : act.thread? = some thread) (own : (before.calls thread).isOwn = true) :
    act = .move thread := by
  cases act with
  | move other => exact congrArg Act.move (Option.some.inj of)
  | begin_ other call =>
    obtain rfl := Option.some.inj of
    simp only [conversation] at step
    split at step
    next idle => rw [idle] at own; cases own
    · cases step
  | send other result =>
    obtain rfl := Option.some.inj of
    simp only [conversation, World.trySend] at step
    split at step
    next phase => rw [phase] at own; cases own
    · cases step
  | receive other result =>
    obtain rfl := Option.some.inj of
    simp only [conversation, World.receive] at step
    split at step
    next phase => rw [phase] at own; cases own
    · cases step
  | tick => cases of
  | cancel => cases of

end Moves

end Harkness.Transport
