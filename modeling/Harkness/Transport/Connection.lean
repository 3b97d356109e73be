import Harkness.Machine.Path
import Harkness.Transport.Error
import Mathlib.Data.List.AList
import Mathlib.Logic.Function.Basic

/-! # One correlated conversation

Callers blocked on an answer do the reading, one at a time: whoever holds the pump takes one message
from the transport and routes it, into a slot of the table or into the queue of peer messages. Each
section under a lock, each use of the transport and each look at the token or the clock is one move,
and the moves of all callers interleave. The transport is the environment: it may take, refuse and
hand over anything at any time.
-/

namespace Harkness.Transport

open Json

variable {T ν : Type}

/-- What is known about one request this connection sent. -/
inductive Slot (ν : Type) where
  | waiting
  | answered (outcome : Outcome ν)
  | retired (answered : Bool)

def Slot.isRetired : Slot ν → Bool
  | retired _ => true
  | _ => false

abbrev Slots (ν : Type) := AList fun _ : RequestId => Slot ν

structure Pending (ν : Type) where
  slots : Slots ν
  /-- Retirement order. -/
  retired : List RequestId
  terminal : Option TerminalFault

/-- Request ids remembered after their caller is finished with them. -/
def retainedRequestIds : ℕ := 1024

namespace Pending

/-- Requests whose caller is still waiting. -/
def outstanding (self : Pending ν) : ℕ :=
  self.slots.entries.countP fun entry => !entry.2.isRetired

/-- Forgets the oldest ids over the bound. -/
def evict (slots : Slots ν) : List RequestId → Slots ν × List RequestId
  | [] => (slots, [])
  | evicted :: retired =>
    if retainedRequestIds < (evicted :: retired).length then evict (slots.erase evicted) retired
    else (slots, evicted :: retired)

/-- Marks a request finished with, keeping it recognizable for a bounded while. -/
def retire (self : Pending ν) (id : RequestId) (answered : Bool) : Pending ν :=
  let (slots, retired) := evict (self.slots.insert id (.retired answered)) (self.retired ++ [id])
  { self with slots, retired }

/-- The first terminal failure is remembered. -/
def remember (self : Pending ν) (error : TransportError) : Pending ν :=
  if error.isTerminal ∧ self.terminal.isNone then
    { self with terminal := some (.from_ error) }
  else self

end Pending

def peerCapacity : ℕ := 4096

def peerByteBudget : ℕ := 64 * 1024 * 1024

/-- Peer-initiated messages waiting for an adapter, with what each of them costs. -/
structure PeerQueue (ν : Type) where
  waiting : List (PeerMessage ν × ℕ)
  bytes : ℕ

namespace PeerQueue

/-- Whether the pump must stop reading. -/
def isFull (self : PeerQueue ν) : Bool :=
  peerCapacity ≤ self.waiting.length || peerByteBudget ≤ self.bytes

def push (self : PeerQueue ν) (message : PeerMessage ν) : PeerQueue ν where
  waiting := self.waiting ++ [(message, message.retainedBytes)]
  bytes := self.bytes + message.retainedBytes

def pop (self : PeerQueue ν) : Option (PeerMessage ν × PeerQueue ν) :=
  match self.waiting with
  | [] => none
  | (message, bytes) :: waiting => some (message, ⟨waiting, self.bytes - bytes⟩)

end PeerQueue

/-- The three loops a caller can be in: handing a message over, perhaps for a request of its own,
waiting for an answer, and waiting for a peer message. -/
inductive Caller (ν : Type) where
  | send (request : Option RequestId) (message : Message ν) (deadline : ℕ)
  | answer (id : RequestId) (deadline : ℕ)
  | peer (deadline : ℕ)

def Caller.deadline : Caller ν → ℕ
  | send _ _ deadline | answer _ deadline | peer deadline => deadline

/-- What a call returns. -/
inductive Return (ν : Type) where
  | request (id : RequestId) (result : Except TransportError (Outcome ν))
  | sent (result : Except TransportError Unit)
  | peer (result : Except TransportError (Option (PeerMessage ν)))

/-- What follows once a failure is remembered. -/
inductive After (ν : Type) where
  | release (caller : Caller ν)
  | fail (caller : Caller ν)
  | done (result : Return ν)

/-- Where a thread is in its call. -/
inductive Phase (ν : Type) where
  | idle
  /-- An id is allocated and not yet in the table. -/
  | register (id : RequestId) (message : Message ν) (deadline : ℕ)
  /-- The first section of a loop. -/
  | look (caller : Caller ν)
  /-- No peer message was there; is the conversation over? -/
  | inspect (deadline : ℕ)
  | token (caller : Caller ν)
  | clock (caller : Caller ν)
  | lead (caller : Caller ν)
  | gauge (caller : Caller ν)
  | receive (caller : Caller ν)
  | route (caller : Caller ν) (message : Message ν)
  | release (caller : Caller ν) (result : Except TransportError Unit)
  | remember (error : TransportError) (after : After ν)
  /-- About to give up a request. -/
  | retire (id : RequestId) (error : TransportError) (giveUp : Bool)

/-- The methods of a connection. -/
inductive Call (ν : Type) where
  | request (method : String) (params : Option (Value ν)) (deadline : ℕ)
  | notify (method : String) (params : Option (Value ν)) (deadline : ℕ)
  | respond (id : RequestId) (outcome : Outcome ν) (deadline : ℕ)
  | nextPeerMessage (deadline : ℕ)

/-- A connection, its token and the clock, with the threads that use it. The last four fields are
history: ids allocated, ids whose answer was accepted, messages the transport handed over, and what
calls have returned. -/
structure World (T ν : Type) where
  nextId : Int64
  pump : Option T
  pending : Pending ν
  peers : PeerQueue ν
  cancelled : Bool
  now : ℕ
  calls : T → Phase ν
  issued : List RequestId
  accepted : List RequestId
  handed : List (Message ν)
  returned : List (T × Return ν)

namespace World

def new : World T ν where
  nextId := 1
  pump := none
  pending := ⟨∅, [], none⟩
  peers := ⟨[], 0⟩
  cancelled := false
  now := 0
  calls _ := .idle
  issued := []
  accepted := []
  handed := []
  returned := []

variable [DecidableEq T] (thread : T)

def goto (phase : Phase ν) (self : World T ν) : World T ν :=
  { self with calls := Function.update self.calls thread phase }

def finish (result : Return ν) (self : World T ν) : World T ν :=
  { self with
    calls := Function.update self.calls thread .idle
    returned := self.returned ++ [(thread, result)] }

/-- A request that meets the end of an idle peer had a request outstanding, which the transport could
not know. -/
def refine : TransportError → TransportError
  | .disconnected .idle => .disconnected .exitBeforeResponse
  | other => other

/-- A loop ends with an error. -/
def fail (caller : Caller ν) (error : TransportError) (self : World T ν) : World T ν :=
  match caller with
  | .send (some id) _ _ => self.goto thread (.retire id error false)
  | .send none _ _ => self.finish thread (.sent (.error error))
  | .answer id _ => self.goto thread (.retire id (refine error) false)
  | .peer _ => self.finish thread (.peer (.error error))

/-- Starts a call. -/
def begin_ (self : World T ν) : Call ν → World T ν
  | .request method params deadline =>
    let id := RequestId.number self.nextId
    { self with nextId := self.nextId + 1, issued := self.issued ++ [id] }.goto thread
      (.register id (.request ⟨id, method, params⟩) deadline)
  | .notify method params deadline =>
    self.goto thread (.look (.send none (.notification ⟨method, params⟩) deadline))
  | .respond id outcome deadline =>
    self.goto thread (.look (.send none (.response ⟨id, outcome⟩) deadline))
  | .nextPeerMessage deadline => self.goto thread (.look (.peer deadline))

/-- Enters an allocated id into the table. -/
def register (id : RequestId) (message : Message ν) (deadline : ℕ) (self : World T ν) : World T ν :=
  match self.pending.terminal with
  | some fault => self.finish thread (.request id (.error (fault.error false)))
  | none =>
    { self with
      pending := { self.pending with slots := self.pending.slots.insert id .waiting } }.goto thread
      (.look (.send (some id) message deadline))

/-- The slot first, and then the end of the conversation. -/
def lookAnswer (id : RequestId) (deadline : ℕ) (self : World T ν) : World T ν :=
  match self.pending.slots.lookup id with
  | some (.answered outcome) =>
    { self with pending := self.pending.retire id true }.finish thread (.request id (.ok outcome))
  | _ =>
    match self.pending.terminal with
    | some fault =>
      { self with pending := self.pending.retire id false }.finish thread
        (.request id (.error (fault.error true)))
    | none => self.goto thread (.token (.answer id deadline))

def lookPeer (deadline : ℕ) (self : World T ν) : World T ν :=
  match self.peers.pop with
  | some (message, peers) =>
    { self with peers }.finish thread (.peer (.ok (some message)))
  | none => self.goto thread (.inspect deadline)

def inspect (deadline : ℕ) (self : World T ν) : World T ν :=
  match self.pending.terminal with
  | some fault =>
    self.finish thread (.peer (.error (fault.error (decide (0 < self.pending.outstanding)))))
  | none => self.goto thread (.token (.peer deadline))

def token (caller : Caller ν) (self : World T ν) : World T ν :=
  if self.cancelled then
    match caller with
    | .answer id _ => self.goto thread (.retire id .cancelled true)
    | caller => self.goto thread (.remember .cancelled (.fail caller))
  else self.goto thread (.clock caller)

def clock (caller : Caller ν) (self : World T ν) : World T ν :=
  if caller.deadline ≤ self.now then
    match caller with
    | .answer id _ => self.goto thread (.retire id (.requestTimedOut id) false)
    | .send .. => self.fail thread caller .sendTimedOut
    | .peer _ => self.finish thread (.peer (.ok none))
  else self.goto thread (.lead caller)

/-- A caller that finds the pump taken waits a slice and looks again. -/
def lead (caller : Caller ν) (self : World T ν) : World T ν :=
  match self.pump with
  | none => { self with pump := some thread }.goto thread (.gauge caller)
  | some _ => self.goto thread (.look caller)

def gauge (caller : Caller ν) (self : World T ν) : World T ν :=
  if self.peers.isFull then
    self.goto thread (.release caller (.error (.peerQueueFull peerCapacity)))
  else self.goto thread (.receive caller)

/-- Delivers an answer to whoever it belongs to. -/
def routeResponse (caller : Caller ν) (response : Response ν) (self : World T ν) : World T ν :=
  let delivered := fun slot : Slot ν =>
    { self with
      pending := { self.pending with slots := self.pending.slots.insert response.id slot }
      accepted := self.accepted ++ [response.id] }.goto thread (.release caller (.ok ()))
  let lost := fun detail : DesyncDetail =>
    self.goto thread (.remember (.desynchronized detail) (.release caller))
  match self.pending.slots.lookup response.id with
  | some .waiting => delivered (.answered response.outcome)
  | some (.retired false) => delivered (.retired true)
  | some (.answered _) | some (.retired true) => lost (.duplicateResponseId response.id)
  | none => lost (.unknownResponseId response.id)

/-- Delivers one message; a peer message is always taken. -/
def route (caller : Caller ν) (message : Message ν) (self : World T ν) : World T ν :=
  match message with
  | .response response => self.routeResponse thread caller response
  | .request call =>
    { self with peers := self.peers.push (.request call) }.goto thread (.release caller (.ok ()))
  | .notification call =>
    { self with peers := self.peers.push (.notification call) }.goto thread
      (.release caller (.ok ()))

/-- Lets the pump go. -/
def release (caller : Caller ν) (result : Except TransportError Unit) (self : World T ν) :
    World T ν :=
  match result with
  | .ok () => { self with pump := none }.goto thread (.look caller)
  | .error error => { self with pump := none }.fail thread caller error

def remember (error : TransportError) (after : After ν) (self : World T ν) : World T ν :=
  let self := { self with pending := self.pending.remember error }
  match after with
  | .release caller => self.goto thread (.release caller (.error error))
  | .fail caller => self.fail thread caller error
  | .done result => self.finish thread result

/-- Gives a request up without looking at its slot. -/
def retire (id : RequestId) (error : TransportError) (giveUp : Bool) (self : World T ν) :
    World T ν :=
  let self := { self with pending := self.pending.retire id false }
  let result := Return.request id (.error error)
  if giveUp then self.goto thread (.remember .cancelled (.done result))
  else self.finish thread result

/-- The moves of a thread that need nothing from the transport. -/
def move (self : World T ν) : Phase ν → Option (World T ν)
  | .register id message deadline => some (self.register thread id message deadline)
  | .look (.answer id deadline) => some (self.lookAnswer thread id deadline)
  | .look (.peer deadline) => some (self.lookPeer thread deadline)
  | .inspect deadline => some (self.inspect thread deadline)
  | .token caller => some (self.token thread caller)
  | .clock caller => some (self.clock thread caller)
  | .lead caller => some (self.lead thread caller)
  | .gauge caller => some (self.gauge thread caller)
  | .route caller message => some (self.route thread caller message)
  | .release caller result => some (self.release thread caller result)
  | .remember error after => some (self.remember thread error after)
  | .retire id error giveUp => some (self.retire thread id error giveUp)
  | .idle | .look (.send ..) | .receive _ => none

/-- Why the transport did not take a message. -/
inductive SendRejection where
  | noRoom
  | failed (error : TransportError)

/-- One attempt to hand a message over. -/
def trySend (self : World T ν) (result : Except SendRejection Unit) : Phase ν → Option (World T ν)
  | .look (.send request message deadline) =>
    some <| match result with
      | .ok () =>
        match request with
        | some id => self.goto thread (.look (.answer id deadline))
        | none => self.finish thread (.sent (.ok ()))
      | .error .noRoom => self.goto thread (.token (.send request message deadline))
      | .error (.failed error) =>
        self.goto thread (.remember error (.fail (.send request message deadline)))
  | _ => none

/-- One read from the transport. -/
def receive (self : World T ν) (result : Except TransportError (Option (Message ν))) :
    Phase ν → Option (World T ν)
  | .receive caller =>
    some <| match result with
      | .ok (some message) =>
        { self with handed := self.handed ++ [message] }.goto thread (.route caller message)
      | .ok none => self.goto thread (.release caller (.ok ()))
      | .error error => self.goto thread (.remember error (.release caller))
  | _ => none

end World

/-- A move of a thread, with what the transport does in it, or of the surroundings. -/
inductive Act (T ν : Type) where
  | begin_ (thread : T) (call : Call ν)
  | move (thread : T)
  | send (thread : T) (result : Except World.SendRejection Unit)
  | receive (thread : T) (result : Except TransportError (Option (Message ν)))
  | tick
  | cancel

/-- A connection under any number of threads, over any transport. -/
def conversation [DecidableEq T] : Machine (World T ν) (Act T ν) where
  Initial world := world = .new
  step world
    | .begin_ thread call =>
      match world.calls thread with
      | .idle => some (world.begin_ thread call)
      | _ => none
    | .move thread => world.move thread (world.calls thread)
    | .send thread result => world.trySend thread result (world.calls thread)
    | .receive thread result => world.receive thread result (world.calls thread)
    | .tick => some { world with now := world.now + 1 }
    | .cancel => some { world with cancelled := true }

end Harkness.Transport
