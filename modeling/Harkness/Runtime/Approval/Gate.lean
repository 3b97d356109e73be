import Harkness.Machine.Path
import Harkness.Runtime.Approval.Record
import Mathlib.Logic.Function.Basic

/-! # The gate a call waits at while a human decides

A ticket is claimed for an approval before its request is stored, and the map of the gate has an entry for
it until it is dropped. Whoever resolves the approval puts the answer into the entry and then, without the
lock, wakes everybody; a waiter takes the answer out, or parks, or gives up on its clock. Each move is one
hold of the lock or one wake-up, and the moves of all threads interleave in any order.
-/

namespace Harkness.Runtime.Approval

/-- What a waiting call learns when its approval resolves. -/
structure ApprovalObservation where
  approvalId : ApprovalId
  state : ApprovalState
  verdict : ApprovalVerdict
  scope : Option ApprovalScope
  reason : Option String
deriving DecidableEq

def unansweredReason : ApprovalState → String
  | .expired => "the approval request expired before it was answered"
  | .cancelled => "the run was cancelled while the approval was pending"
  | .superseded => "the run will not resume, so the approval authorizes nothing"
  | _ => "the approval was resolved without a decision"

/-- Reads the observation out of a resolved request. -/
def ApprovalObservation.of (request : ApprovalRequest) : Option ApprovalObservation :=
  if request.state.isTerminal then
    some (match request.decision with
      | some decision => ⟨request.id, request.state, decision.verdict, decision.scope, decision.reason⟩
      | none => ⟨request.id, request.state, .denied, none, some (unansweredReason request.state)⟩)
  else none

namespace Gate

/-- What the holder of a ticket is at. -/
inductive Phase where
  | held
  /-- In a wait, with a timeout or without, and on its way to the lock. -/
  | locking (timed : Bool)
  | parked (timed : Bool)
  /-- The answer is taken, and the ticket is yet to be dropped. -/
  | leaving (observation : ApprovalObservation)
  | returned (observation : ApprovalObservation)
  | dropped
deriving DecidableEq

namespace Phase

/-- The ticket is not dropped yet. -/
def live : Phase → Bool
  | returned _ | dropped => false
  | _ => true

/-- The ticket is not dropped yet, and no answer was taken with it. -/
def untaken : Phase → Bool
  | held | locking _ | parked _ => true
  | _ => false

def awaken : Phase → Phase
  | parked timed => locking timed
  | phase => phase

end Phase

/-- One call's claim on the answer to one approval. -/
structure ApprovalTicket where
  id : ApprovalId
  phase : Phase
deriving DecidableEq

/-- The map, the tickets in the order they were claimed, and how many resolvers have yet to wake
everybody. -/
structure State where
  waiting : ApprovalId → Option (Option ApprovalObservation)
  tickets : ℕ → Option ApprovalTicket
  issued : ℕ
  notifying : ℕ

inductive Act where
  | ticket (id : ApprovalId)
  | resolve (observation : ApprovalObservation)
  | notify
  | wait (ticket : ℕ) (timed : Bool)
  /-- A waiter has the lock; its deadline has passed or not. -/
  | check (ticket : ℕ) (expired : Bool)
  /-- A parked waiter wakes by itself or by its timeout. -/
  | wake (ticket : ℕ)
  | drop (ticket : ℕ)
deriving DecidableEq

namespace State

def setSlot (state : State) (id : ApprovalId) (slot : Option (Option ApprovalObservation)) : State :=
  { state with waiting := Function.update state.waiting id slot }

def put (state : State) (ticket : ℕ) (id : ApprovalId) (phase : Phase) : State :=
  { state with tickets := Function.update state.tickets ticket (some ⟨id, phase⟩) }

/-- Whether an answer for the approval has arrived and not yet been taken. -/
def isResolved (state : State) (id : ApprovalId) : Bool := (state.waiting id).any Option.isSome

/-- Whether a ticket for the approval is outstanding. -/
def isWaiting (state : State) (id : ApprovalId) : Bool := (state.waiting id).isSome

/-- Claims the right to wait; a second ticket is refused. -/
def claim (state : State) (id : ApprovalId) : State :=
  if state.isWaiting id then state
  else { (state.setSlot id (some none)).put state.issued id .held with issued := state.issued + 1 }

/-- Records an observation, if anybody has a ticket for it. -/
def resolve (state : State) (observation : ApprovalObservation) : State :=
  match state.waiting observation.approvalId with
  | none => state
  | some _ =>
    { state.setSlot observation.approvalId (some (some observation)) with notifying := state.notifying + 1 }

/-- Resolves whichever approval a record reached a terminal state in. -/
def resolveFrom (state : State) (request : ApprovalRequest) : State :=
  match ApprovalObservation.of request with
  | none => state
  | some observation => state.resolve observation

def notifyAll (state : State) : State :=
  { state with
    tickets := fun ticket =>
      (state.tickets ticket).map fun entry => { entry with phase := entry.phase.awaken }
    notifying := state.notifying - 1 }

/-- One turn of the loop that both waits are. -/
def turn (state : State) (ticket : ℕ) (id : ApprovalId) (timed expired : Bool) : State :=
  match state.waiting id with
  | some (some observation) => (state.setSlot id (some none)).put ticket id (.leaving observation)
  | _ => if timed && expired then state.put ticket id .held else state.put ticket id (.parked timed)

/-- Releases a ticket's registration, with any answer it never took. -/
def forget (state : State) (id : ApprovalId) : State := state.setSlot id none

def step (state : State) : Act → Option State
  | .ticket id => some (state.claim id)
  | .resolve observation => some (state.resolve observation)
  | .notify => if 0 < state.notifying then some state.notifyAll else none
  | .wait ticket timed => match state.tickets ticket with
    | some ⟨id, .held⟩ => some (state.put ticket id (.locking timed))
    | _ => none
  | .check ticket expired => match state.tickets ticket with
    | some ⟨id, .locking timed⟩ => some (state.turn ticket id timed expired)
    | _ => none
  | .wake ticket => match state.tickets ticket with
    | some ⟨id, .parked timed⟩ => some (state.put ticket id (.locking timed))
    | _ => none
  | .drop ticket => match state.tickets ticket with
    | some ⟨id, .held⟩ => some ((state.forget id).put ticket id .dropped)
    | some ⟨id, .leaving observation⟩ => some ((state.forget id).put ticket id (.returned observation))
    | _ => none

def new : State := ⟨fun _ => none, fun _ => none, 0, 0⟩

/-- The approval that a ticket is outstanding for. -/
def outstanding (state : State) (ticket : ℕ) : Option ApprovalId :=
  (state.tickets ticket).bind fun entry => if entry.phase.live then some entry.id else none

/-- The ticket is outstanding for the approval, and no answer was taken with it. -/
def Open (state : State) (ticket : ℕ) (id : ApprovalId) : Prop :=
  ∃ phase : Phase, state.tickets ticket = some ⟨id, phase⟩ ∧ phase.untaken = true

end State

def gate : Machine State Act where
  Initial state := state = .new
  step := State.step

/-- What a move does. -/
inductive Moved (s : State) : Act → State → Prop
  | claimed {id : ApprovalId} (free : s.waiting id = none) : Moved s (.ticket id)
      { (s.setSlot id (some none)).put s.issued id .held with issued := s.issued + 1 }
  | refused {id : ApprovalId} : Moved s (.ticket id) s
  | answered {observation : ApprovalObservation} (present : s.isWaiting observation.approvalId = true) :
      Moved s (.resolve observation)
        { s.setSlot observation.approvalId (some (some observation)) with notifying := s.notifying + 1 }
  | discarded {observation : ApprovalObservation} (absent : s.waiting observation.approvalId = none) :
      Moved s (.resolve observation) s
  | notified : Moved s .notify s.notifyAll
  /-- A holder goes on without the answer; it parks only where there is none. -/
  | shifted {act : Act} {ticket : ℕ} {id : ApprovalId} {phase phase' : Phase}
      (there : s.tickets ticket = some ⟨id, phase⟩) (before : phase.untaken = true)
      (after : phase'.untaken = true) (silent : ∀ observation, act ≠ .resolve observation)
      (empty : ∀ timed, phase' = .parked timed → ∀ observation, s.waiting id ≠ some (some observation)) :
      Moved s act (s.put ticket id phase')
  | taken {ticket : ℕ} {id : ApprovalId} {timed expired : Bool} {observation : ApprovalObservation}
      (there : s.tickets ticket = some ⟨id, .locking timed⟩)
      (answer : s.waiting id = some (some observation)) :
      Moved s (.check ticket expired) ((s.setSlot id (some none)).put ticket id (.leaving observation))
  | released {ticket : ℕ} {id : ApprovalId} {phase phase' : Phase}
      (there : s.tickets ticket = some ⟨id, phase⟩)
      (ends : phase = .held ∧ phase' = .dropped ∨
        ∃ observation, phase = .leaving observation ∧ phase' = .returned observation) :
      Moved s (.drop ticket) ((s.forget id).put ticket id phase')

variable {s t : State} {act : Act} {acts : List Act} {ticket other : ℕ} {id : ApprovalId}
  {phase : Phase} {observation : ApprovalObservation}

theorem moved_of_step (step : s.step act = some t) : Moved s act t := by
  cases act with
  | ticket id =>
    obtain rfl := Option.some.inj step
    rw [State.claim]
    split_ifs with taken
    · exact .refused
    · exact .claimed (Option.not_isSome_iff_eq_none.mp taken)
  | resolve observation =>
    obtain rfl := Option.some.inj step
    rw [State.resolve]
    split
    · next absent => exact .discarded absent
    · next present => exact .answered (by rw [State.isWaiting, present]; rfl)
  | notify =>
    rw [State.step] at step
    split_ifs at step
    obtain rfl := Option.some.inj step
    exact .notified
  | wait ticket timed =>
    rw [State.step] at step
    split at step
    · next there =>
      obtain rfl := Option.some.inj step
      exact .shifted there rfl rfl nofun nofun
    · cases step
  | check ticket expired =>
    rw [State.step] at step
    split at step
    · next id timed there =>
      obtain rfl := Option.some.inj step
      unfold State.turn
      split
      · next answer => exact .taken there answer
      · next none =>
        split_ifs
        · exact .shifted there rfl rfl nofun nofun
        · exact .shifted there rfl rfl nofun fun _ _ => none
    · cases step
  | wake ticket =>
    rw [State.step] at step
    split at step
    · next there =>
      obtain rfl := Option.some.inj step
      exact .shifted there rfl rfl nofun nofun
    · cases step
  | drop ticket =>
    rw [State.step] at step
    split at step
    · next there =>
      obtain rfl := Option.some.inj step
      exact .released there (.inl ⟨rfl, rfl⟩)
    · next observation there =>
      obtain rfl := Option.some.inj step
      exact .released there (.inr ⟨observation, rfl, rfl⟩)
    · cases step

theorem outstanding_of_tickets (there : s.tickets ticket = some ⟨id, phase⟩) :
    s.outstanding ticket = if phase.live then some id else none := by
  rw [State.outstanding, there, Option.bind_some]

theorem live_of_untaken (untaken : phase.untaken = true) : phase.live = true := by
  cases phase <;> first | rfl | cases untaken

theorem State.Open.outstanding (open_ : s.Open ticket id) : s.outstanding ticket = some id := by
  obtain ⟨phase, there, untaken⟩ := open_
  rw [outstanding_of_tickets there, if_pos (live_of_untaken untaken)]

@[simp] theorem tickets_put : (s.put ticket id phase).tickets other =
    if other = ticket then some ⟨id, phase⟩ else s.tickets other :=
  Function.update_apply ..

@[simp] theorem waiting_setSlot (slot : Option (Option ApprovalObservation)) (other : ApprovalId) :
    (s.setSlot id slot).waiting other = if other = id then slot else s.waiting other :=
  Function.update_apply ..

theorem isWaiting_setSlot (slot : Option (Option ApprovalObservation)) (other : ApprovalId) :
    (s.setSlot id slot).isWaiting other = if other = id then slot.isSome else s.isWaiting other := by
  rw [State.isWaiting, waiting_setSlot]
  split_ifs <;> rfl

theorem outstanding_put : (s.put ticket id phase).outstanding other =
    if other = ticket then (if phase.live then some id else none) else s.outstanding other := by
  rw [State.outstanding, tickets_put]
  split_ifs with same live
  · rw [Option.bind_some, if_pos live]
  · rw [Option.bind_some, if_neg live]
  · rfl

theorem tickets_notifyAll : s.notifyAll.tickets ticket =
    (s.tickets ticket).map fun entry => { entry with phase := entry.phase.awaken } := rfl

theorem live_awaken (phase : Phase) : phase.awaken.live = phase.live := by
  cases phase <;> rfl

theorem outstanding_notifyAll : s.notifyAll.outstanding ticket = s.outstanding ticket := by
  rw [State.outstanding, State.outstanding, tickets_notifyAll]
  cases s.tickets ticket with
  | none => rfl
  | some entry => simp only [Option.map_some, Option.bind_some, live_awaken]

/-- What holds of the gate between any two moves. -/
structure Inv (s : State) : Prop where
  entry : ∀ id, s.isWaiting id = true ↔ ∃ ticket, s.outstanding ticket = some id
  unique : ∀ ticket other id, s.outstanding ticket = some id →
    s.outstanding other = some id → ticket = other
  fresh : ∀ ticket, s.issued ≤ ticket → s.tickets ticket = none
  keyed : ∀ id observation, s.waiting id = some (some observation) → observation.approvalId = id
  /-- Whoever put an answer in while its waiter was parked has yet to wake everybody. -/
  owed : ∀ ticket id timed observation, s.tickets ticket = some ⟨id, .parked timed⟩ →
    s.waiting id = some (some observation) → 0 < s.notifying

theorem inv_new : Inv .new where
  entry _ := ⟨fun waits => Bool.noConfusion waits, fun ⟨_, held⟩ => absurd held (Option.some_ne_none _).symm⟩
  unique _ _ _ held := absurd held (Option.some_ne_none _).symm
  fresh _ _ := rfl
  keyed _ _ answered := absurd answered (Option.some_ne_none _).symm
  owed _ _ _ _ parked := absurd parked (Option.some_ne_none _).symm

/-- The outstanding tickets and the entries stay as they are. -/
private theorem Inv.keep_entries (inv : Inv s)
    (tickets : ∀ ticket, t.outstanding ticket = s.outstanding ticket)
    (entries : ∀ id, t.isWaiting id = s.isWaiting id) :
    (∀ id, t.isWaiting id = true ↔ ∃ ticket, t.outstanding ticket = some id) ∧
      ∀ ticket other id, t.outstanding ticket = some id → t.outstanding other = some id →
        ticket = other := by
  simp only [tickets, entries]
  exact ⟨inv.entry, inv.unique⟩

/-- A ticket that stays as live as it is leaves what is outstanding. -/
private theorem outstanding_shift {phase' : Phase} (there : s.tickets ticket = some ⟨id, phase⟩)
    (same : phase'.live = phase.live) (other : ℕ) :
    (s.put ticket id phase').outstanding other = s.outstanding other := by
  rw [outstanding_put]
  split_ifs with here live
  · rw [here, outstanding_of_tickets there, if_pos (same ▸ live)]
  · rw [here, outstanding_of_tickets there, if_neg (same ▸ live)]
  · rfl

private theorem fresh_put (fresh : ∀ ticket, s.issued ≤ ticket → s.tickets ticket = none)
    (there : s.tickets ticket = some ⟨id, phase⟩) {phase' : Phase} (other : ℕ) (later : s.issued ≤ other) :
    (s.put ticket id phase').tickets other = none := by
  rw [tickets_put, if_neg, fresh other later]
  rintro rfl
  rw [fresh other later] at there
  cases there

/-- A slot that is emptied or removed has no answer. -/
private theorem answer_of_cleared (slot : Option (Option ApprovalObservation)) {found : ApprovalId}
    (cleared : ∀ observation, slot ≠ some (some observation))
    (answer : (s.setSlot id slot).waiting found = some (some observation)) :
    s.waiting found = some (some observation) := by
  rw [waiting_setSlot] at answer
  split_ifs at answer
  · exact absurd answer (cleared observation)
  · exact answer

private theorem parked_of_put (phase : Phase) {found : ApprovalId} {timed : Bool}
    (awake : ∀ timed, phase ≠ .parked timed)
    (parked : (s.put ticket id phase).tickets other = some ⟨found, .parked timed⟩) :
    s.tickets other = some ⟨found, .parked timed⟩ := by
  rw [tickets_put] at parked
  split_ifs at parked
  · exact absurd (ApprovalTicket.mk.inj (Option.some.inj parked)).2 (awake timed)
  · exact parked

private theorem Inv.claimed (inv : Inv s) (free : s.waiting id = none) :
    Inv { (s.setSlot id (some none)).put s.issued id .held with issued := s.issued + 1 } := by
  have unclaimed (ticket : ℕ) : s.outstanding ticket ≠ some id := fun outstanding => by
    have present := (inv.entry id).mpr ⟨ticket, outstanding⟩
    rw [State.isWaiting, free] at present
    cases present
  have new (other : ℕ) : State.outstanding { (s.setSlot id (some none)).put s.issued id .held with
      issued := s.issued + 1 } other = if other = s.issued then some id else s.outstanding other :=
    (outstanding_put : ((s.setSlot id (some none)).put s.issued id .held).outstanding other = _)
  refine ⟨fun other => ?_, fun ticket other found first second => ?_, fun ticket later => ?_,
    fun other observation answer => ?_, fun ticket other timed observation there answer => ?_⟩
  · simp only [new]
    refine (Bool.eq_iff_iff.mp (isWaiting_setSlot _ _)).trans ?_
    split_ifs with same
    · subst same
      exact iff_of_true rfl ⟨s.issued, if_pos rfl⟩
    · rw [inv.entry other]
      constructor
      · rintro ⟨ticket, outstanding⟩
        refine ⟨ticket, ?_⟩
        rw [if_neg, outstanding]
        rintro rfl
        rw [State.outstanding, inv.fresh _ le_rfl] at outstanding
        cases outstanding
      · rintro ⟨ticket, outstanding⟩
        split_ifs at outstanding with last
        · exact absurd (Option.some.inj outstanding).symm same
        · exact ⟨ticket, outstanding⟩
  · rw [new] at first second
    split_ifs at first second with last last'
    · rw [last, last']
    · obtain rfl := Option.some.inj first
      exact absurd second (unclaimed other)
    · obtain rfl := Option.some.inj second
      exact absurd first (unclaimed ticket)
    · exact inv.unique ticket other found first second
  · change (State.put _ s.issued id .held).tickets ticket = none
    have later : s.issued + 1 ≤ ticket := later
    rw [tickets_put, if_neg (by omega)]
    exact inv.fresh ticket (by omega)
  · exact inv.keyed other observation (answer_of_cleared (some none) nofun answer)
  · exact inv.owed ticket other timed observation
      (parked_of_put .held nofun there)
      (answer_of_cleared (some none) nofun answer)

private theorem Inv.answered (inv : Inv s) (present : s.isWaiting observation.approvalId = true) :
    Inv { s.setSlot observation.approvalId (some (some observation)) with
      notifying := s.notifying + 1 } := by
  obtain ⟨entry, unique⟩ := inv.keep_entries
    (t := s.setSlot observation.approvalId (some (some observation))) (fun _ => rfl) fun id => by
      rw [isWaiting_setSlot]
      split_ifs with same
      · rw [same, present]; rfl
      · rfl
  refine ⟨entry, unique, inv.fresh, fun id other answer => ?_, fun _ _ _ _ _ _ => Nat.succ_pos _⟩
  change (s.setSlot observation.approvalId _).waiting id = _ at answer
  rw [waiting_setSlot] at answer
  split_ifs at answer with same
  · rw [← Option.some.inj (Option.some.inj answer), same]
  · exact inv.keyed id other answer

private theorem Inv.notified (inv : Inv s) : Inv s.notifyAll := by
  obtain ⟨entry, unique⟩ :=
    inv.keep_entries (t := s.notifyAll) (fun _ => outstanding_notifyAll) fun _ => rfl
  refine ⟨entry, unique, fun ticket later => ?_, inv.keyed, fun ticket id timed observation there => ?_⟩
  · rw [tickets_notifyAll, inv.fresh ticket later]
    rfl
  · rw [tickets_notifyAll] at there
    obtain ⟨⟨id', phase⟩, -, same⟩ := Option.map_eq_some_iff.mp there
    have parked := congrArg ApprovalTicket.phase same
    cases phase <;> cases parked

private theorem Inv.shifted {phase' : Phase} (inv : Inv s) (there : s.tickets ticket = some ⟨id, phase⟩)
    (before : phase.untaken = true) (after : phase'.untaken = true)
    (empty : ∀ timed, phase' = .parked timed → ∀ observation, s.waiting id ≠ some (some observation)) :
    Inv (s.put ticket id phase') := by
  have same : phase'.live = phase.live := by rw [live_of_untaken before, live_of_untaken after]
  obtain ⟨entry, unique⟩ := inv.keep_entries (t := s.put ticket id phase')
    (outstanding_shift there same) fun _ => rfl
  refine ⟨entry, unique, fresh_put inv.fresh there, inv.keyed,
    fun other id' timed observation parked answer => ?_⟩
  rw [tickets_put] at parked
  split_ifs at parked with here
  · obtain ⟨rfl, rfl⟩ := ApprovalTicket.mk.inj (Option.some.inj parked)
    exact absurd answer (empty timed rfl observation)
  · exact inv.owed other id' timed observation parked answer

private theorem Inv.taken {timed : Bool} (inv : Inv s)
    (there : s.tickets ticket = some ⟨id, .locking timed⟩)
    (answer : s.waiting id = some (some observation)) :
    Inv ((s.setSlot id (some none)).put ticket id (.leaving observation)) := by
  obtain ⟨entry, unique⟩ := inv.keep_entries
    (t := (s.setSlot id (some none)).put ticket id (.leaving observation))
    (outstanding_shift (s := s.setSlot id (some none)) there rfl) fun other => by
      refine (isWaiting_setSlot (s := s) _ _).trans ?_
      split_ifs with same
      · rw [same, State.isWaiting, answer]; rfl
      · rfl
  refine ⟨entry, unique, fresh_put (s := s.setSlot id (some none)) inv.fresh there,
    fun other found answer' => ?_,
    fun other id' timed' found parked answer' => ?_⟩
  · exact inv.keyed other found (answer_of_cleared (some none) nofun answer')
  · exact inv.owed other id' timed' found (parked_of_put (.leaving observation) nofun parked)
      (answer_of_cleared (some none) nofun answer')

private theorem Inv.released {phase' : Phase} (inv : Inv s) (there : s.tickets ticket = some ⟨id, phase⟩)
    (live : phase.live = true) (gone : phase'.live = false) : Inv ((s.forget id).put ticket id phase') := by
  have own : s.outstanding ticket = some id := by rw [outstanding_of_tickets there, if_pos live]
  have left (other : ℕ) : ((s.forget id).put ticket id phase').outstanding other =
      if other = ticket then none else s.outstanding other := by
    rw [outstanding_put, gone]
    rfl
  refine ⟨fun other => ?_, fun one other found first second => ?_,
    fresh_put (s := s.forget id) inv.fresh there, fun other found answer => ?_,
    fun other id' timed found parked answer => ?_⟩
  · simp only [left]
    refine (Bool.eq_iff_iff.mp (isWaiting_setSlot (s := s) none _)).trans ?_
    split_ifs with same
    · subst same
      refine iff_of_false nofun ?_
      rintro ⟨other', outstanding⟩
      split_ifs at outstanding with here
      exact here (inv.unique _ _ _ outstanding own)
    · rw [inv.entry other]
      constructor
      · rintro ⟨other', outstanding⟩
        refine ⟨other', ?_⟩
        rw [if_neg, outstanding]
        rintro rfl
        exact same (Option.some.inj (outstanding.symm.trans own))
      · rintro ⟨other', outstanding⟩
        split_ifs at outstanding
        exact ⟨other', outstanding⟩
  · rw [left] at first second
    split_ifs at first second
    exact inv.unique one other found first second
  · exact inv.keyed other found (answer_of_cleared none nofun answer)
  · refine inv.owed other id' timed found (parked_of_put phase' ?_ parked)
      (answer_of_cleared none nofun answer)
    rintro timed rfl
    cases gone
/-- The step lemma. -/
theorem Inv.step (inv : Inv s) (step : s.step act = some t) : Inv t := by
  cases moved_of_step step with
  | claimed free => exact inv.claimed free
  | refused => exact inv
  | answered present => exact inv.answered present
  | discarded => exact inv
  | notified => exact inv.notified
  | shifted there before after _ empty => exact inv.shifted there before after empty
  | taken there answer => exact inv.taken there answer
  | released there ends =>
    rcases ends with ⟨rfl, rfl⟩ | ⟨_, rfl, rfl⟩
    · exact inv.released there rfl rfl
    · exact inv.released there rfl rfl

theorem inv_of_path (path : gate.Path .new acts s) : Inv s :=
  path.preserves (fun _ _ _ inv step => inv.step step) inv_new

/-- The move at a place of a run resolved an approval, in a state with a property. -/
def ResolvedIn (P : State → ApprovalId → Prop) (acts : List Act) (place : ℕ)
    (observation : ApprovalObservation) :
    Prop :=
  ∃ before after mid, acts = before ++ .resolve observation :: after ∧ before.length = place ∧
    gate.Path .new before mid ∧ P mid observation.approvalId

/-- The answer was resolved while the ticket was outstanding for its approval. -/
def ResolvedLive (acts : List Act) (ticket place : ℕ) (observation : ApprovalObservation) : Prop :=
  ResolvedIn (fun s id => s.outstanding ticket = some id) acts place observation

/-- The answer was resolved while the ticket was outstanding for its approval and none was taken with it. -/
def ResolvedFor (acts : List Act) (ticket place : ℕ) (observation : ApprovalObservation) : Prop :=
  ResolvedIn (fun s id => s.Open ticket id) acts place observation

/-- The last answer that was resolved for a ticket. -/
def LastFor (acts : List Act) (ticket : ℕ) (observation : ApprovalObservation) : Prop :=
  ∃ place, ResolvedFor acts ticket place observation ∧
    ∀ place' other, ResolvedFor acts ticket place' other → place' ≤ place

section Resolved

variable {P : State → ApprovalId → Prop} {place : ℕ}

theorem ResolvedIn.lt_length (resolved : ResolvedIn P acts place observation) : place < acts.length := by
  obtain ⟨before, after, mid, rfl, rfl, -⟩ := resolved
  rw [List.length_append, List.length_cons]
  omega

/-- One more move resolves what it does. -/
theorem resolvedIn_concat (path : gate.Path .new acts s) :
    ResolvedIn P (acts ++ [act]) place observation ↔ ResolvedIn P acts place observation ∨
      act = .resolve observation ∧ place = acts.length ∧ P s observation.approvalId := by
  constructor
  · rintro ⟨before, after, mid, same, rfl, leading, holds⟩
    rcases List.eq_nil_or_concat after with rfl | ⟨after', last, rfl⟩
    · obtain ⟨rfl, acted⟩ := List.append_inj' same rfl
      obtain rfl := path.unique leading
      exact .inr ⟨(List.cons.inj acted).1, rfl, holds⟩
    · rw [List.concat_eq_append, ← List.cons_append, ← List.append_assoc] at same
      exact .inl ⟨before, after', mid, (List.append_inj' same rfl).1, rfl, leading, holds⟩
  · rintro (⟨before, after, mid, rfl, rfl, leading, holds⟩ | ⟨rfl, rfl, holds⟩)
    · exact ⟨before, after ++ [act], mid, by rw [List.append_assoc, List.cons_append], rfl, leading, holds⟩
    · exact ⟨acts, [], s, rfl, rfl, path, holds⟩

theorem resolvedIn_silent (path : gate.Path .new acts s)
    (silent : ∀ observation, act ≠ .resolve observation) :
    ResolvedIn P (acts ++ [act]) place observation ↔ ResolvedIn P acts place observation := by
  rw [resolvedIn_concat path]
  exact or_iff_left fun last => silent observation last.1

/-- A move that resolves nothing for the ticket leaves the last answer as it is. -/
theorem lastFor_of_iff {acts' : List Act}
    (same : ∀ place observation, ResolvedFor acts' ticket place observation ↔
      ResolvedFor acts ticket place observation) :
    LastFor acts' ticket observation ↔ LastFor acts ticket observation := by
  simp only [LastFor, same]

/-- No answer is resolved for two tickets. -/
theorem ResolvedFor.unique {ticket' : ℕ} {observation' : ApprovalObservation}
    (one : ResolvedFor acts ticket place observation) (two : ResolvedFor acts ticket' place observation') :
    ticket = ticket' := by
  obtain ⟨before, after, mid, rfl, rfl, path, open_⟩ := one
  obtain ⟨before', after', mid', same, length, path', open'⟩ := two
  obtain ⟨heads, tails⟩ := List.append_inj same length.symm
  obtain rfl := Act.resolve.inj (List.cons.inj tails).1
  subst heads
  obtain rfl := path.unique path'
  exact (inv_of_path path).unique ticket ticket' _ open_.outstanding open'.outstanding

end Resolved

/-- What a ticket's slot and its holder have is the last answer resolved for it. -/
structure Tracks (acts : List Act) (s : State) : Prop where
  answer : ∀ ticket id observation, s.Open ticket id → s.waiting id = some (some observation) →
    LastFor acts ticket observation
  empty : ∀ ticket id, s.Open ticket id → s.waiting id = some none →
    ∀ place observation, ¬ ResolvedFor acts ticket place observation
  result : ∀ ticket id observation, s.tickets ticket = some ⟨id, .leaving observation⟩ ∨
    s.tickets ticket = some ⟨id, .returned observation⟩ →
      observation.approvalId = id ∧ LastFor acts ticket observation
  fresh : ∀ ticket, s.issued ≤ ticket → ∀ place observation, ¬ ResolvedFor acts ticket place observation

theorem tracks_new : Tracks [] .new where
  answer _ _ _ open_ := by
    obtain ⟨_, there, _⟩ := open_
    cases there
  empty _ _ open_ := by
    obtain ⟨_, there, _⟩ := open_
    cases there
  result _ _ _ there := by rcases there with there | there <;> cases there
  fresh _ _ _ _ resolved := absurd resolved.lt_length (Nat.not_lt_zero _)

section Track

variable {found : ApprovalId} {result : ApprovalObservation}

theorem open_put : (s.put ticket id phase).Open other found ↔
    other = ticket ∧ id = found ∧ phase.untaken = true ∨ other ≠ ticket ∧ s.Open other found := by
  simp only [State.Open, tickets_put]
  split_ifs with same
  · simp only [same, true_and, ne_eq, not_true_eq_false, false_and, or_false, Option.some.injEq,
      ApprovalTicket.mk.injEq, and_assoc, exists_and_left, exists_eq_left']
  · simp only [same, false_and, ne_eq, not_false_eq_true, true_and, false_or]

theorem open_notifyAll : s.notifyAll.Open ticket id ↔ s.Open ticket id := by
  have untaken (phase : Phase) : phase.awaken.untaken = phase.untaken := by cases phase <;> rfl
  simp only [State.Open, tickets_notifyAll]
  constructor
  · rintro ⟨phase, there, open_⟩
    obtain ⟨⟨id', before⟩, earlier, same⟩ := Option.map_eq_some_iff.mp there
    obtain ⟨rfl, rfl⟩ := ApprovalTicket.mk.inj same
    exact ⟨before, earlier, untaken before ▸ open_⟩
  · rintro ⟨phase, there, open_⟩
    exact ⟨phase.awaken, by rw [there]; rfl, (untaken phase).trans open_⟩

/-- The holder of the ticket has this answer, or had it when the ticket was dropped. -/
def Has (s : State) (ticket : ℕ) (id : ApprovalId) (observation : ApprovalObservation) : Prop :=
  s.tickets ticket = some ⟨id, .leaving observation⟩ ∨ s.tickets ticket = some ⟨id, .returned observation⟩

theorem Has.not_open (has : Has s ticket id observation) : ¬ s.Open ticket found := by
  rintro ⟨phase, there, open_⟩
  rcases has with has | has
  all_goals
    obtain ⟨-, rfl⟩ := ApprovalTicket.mk.inj (Option.some.inj (has.symm.trans there))
    cases open_

theorem has_put (has : Has (s.put ticket id phase) other found result) :
    other = ticket ∧ id = found ∧ (phase = .leaving result ∨ phase = .returned result) ∨
      other ≠ ticket ∧ Has s other found result := by
  simp only [Has, tickets_put] at has ⊢
  split_ifs at has with same
  · refine .inl ⟨same, ?_⟩
    rcases has with has | has
    all_goals
      obtain ⟨rfl, rfl⟩ := ApprovalTicket.mk.inj (Option.some.inj has)
    · exact ⟨rfl, .inl rfl⟩
    · exact ⟨rfl, .inr rfl⟩
  · exact .inr ⟨same, has⟩

/-- After a move that resolves nothing, it is enough to look at what changed. -/
private theorem Tracks.silent {t : State} (tracks : Tracks acts s) (path : gate.Path .new acts s)
    (silent : ∀ observation, act ≠ .resolve observation) (issued : s.issued ≤ t.issued)
    (opens : ∀ ticket id, t.Open ticket id →
      s.Open ticket id ∧ t.waiting id = s.waiting id ∨ s.issued ≤ ticket ∧ t.waiting id = some none)
    (has : ∀ ticket id observation, Has t ticket id observation → Has s ticket id observation ∨
      s.Open ticket id ∧ s.waiting id = some (some observation) ∧ observation.approvalId = id) :
    Tracks (acts ++ [act]) t := by
  have same (ticket place : ℕ) (observation : ApprovalObservation) :
      ResolvedFor (acts ++ [act]) ticket place observation ↔ ResolvedFor acts ticket place observation :=
    resolvedIn_silent path silent
  have last (ticket : ℕ) (observation : ApprovalObservation) :
      LastFor (acts ++ [act]) ticket observation ↔ LastFor acts ticket observation :=
    lastFor_of_iff (same ticket)
  refine ⟨fun ticket id observation open_ answer => ?_, fun ticket id open_ empty place observation => ?_,
    fun ticket id observation there => ?_, fun ticket later place observation => ?_⟩
  · rw [last]
    rcases opens ticket id open_ with ⟨before, slot⟩ | ⟨-, slot⟩
    · exact tracks.answer ticket id observation before (slot ▸ answer)
    · rw [slot] at answer
      cases answer
  · rw [same]
    rcases opens ticket id open_ with ⟨before, slot⟩ | ⟨new, -⟩
    · exact tracks.empty ticket id before (slot ▸ empty) place observation
    · exact tracks.fresh ticket new place observation
  · rw [last]
    rcases has ticket id observation there with before | ⟨before, answer, keyed⟩
    · exact tracks.result ticket id observation before
    · exact ⟨keyed, tracks.answer ticket id observation before answer⟩
  · rw [same]
    exact tracks.fresh ticket (issued.trans later) place observation

/-- An answer is the last one for the ticket whose entry it is put into. -/
private theorem Tracks.answered (tracks : Tracks acts s) (inv : Inv s) (path : gate.Path .new acts s) :
    Tracks (acts ++ [.resolve observation])
      { s.setSlot observation.approvalId (some (some observation)) with notifying := s.notifying + 1 } := by
  have other (ticket : ℕ) (apart : ¬ s.Open ticket observation.approvalId) (place : ℕ)
      (result : ApprovalObservation) : ResolvedFor (acts ++ [.resolve observation]) ticket place result ↔
        ResolvedFor acts ticket place result := by
    refine (resolvedIn_concat path).trans (or_iff_left ?_)
    rintro ⟨same, -, open_⟩
    obtain rfl := Act.resolve.inj same
    exact apart open_
  refine ⟨fun ticket id result open_ answer => ?_, fun ticket id open_ empty place result => ?_,
    fun ticket id result there => ?_, fun ticket later place result => ?_⟩
  · change (s.setSlot observation.approvalId (some (some observation))).waiting id = _ at answer
    have open_ : s.Open ticket id := open_
    rw [waiting_setSlot] at answer
    split_ifs at answer with same
    · obtain rfl := Option.some.inj (Option.some.inj answer)
      refine ⟨acts.length, (resolvedIn_concat path).mpr (.inr ⟨rfl, rfl, same ▸ open_⟩), ?_⟩
      intro place' _ resolved
      have within := ResolvedIn.lt_length resolved
      rw [List.length_append, List.length_singleton] at within
      omega
    · have apart : ¬ s.Open ticket observation.approvalId := fun open' =>
        same (Option.some.inj (open_.outstanding.symm.trans open'.outstanding))
      exact (lastFor_of_iff (other ticket apart)).mpr (tracks.answer ticket id result open_ answer)
  · change (s.setSlot observation.approvalId (some (some observation))).waiting id = _ at empty
    have open_ : s.Open ticket id := open_
    rw [waiting_setSlot] at empty
    split_ifs at empty with same
    · cases Option.some.inj empty
    · have apart : ¬ s.Open ticket observation.approvalId := fun open' =>
        same (Option.some.inj (open_.outstanding.symm.trans open'.outstanding))
      exact fun resolved => tracks.empty ticket id open_ empty place result
        ((other ticket apart place result).mp resolved)
  · have there : Has s ticket id result := there
    obtain ⟨keyed, last⟩ := tracks.result ticket id result there
    exact ⟨keyed, (lastFor_of_iff (other ticket there.not_open)).mpr last⟩
  · have later : s.issued ≤ ticket := later
    have apart : ¬ s.Open ticket observation.approvalId := by
      rintro ⟨_, there, -⟩
      rw [inv.fresh ticket later] at there
      cases there
    exact fun resolved => tracks.fresh ticket later place result
      ((other ticket apart place result).mp resolved)

theorem Tracks.step (tracks : Tracks acts s) (inv : Inv s) (path : gate.Path .new acts s)
    (step : s.step act = some t) : Tracks (acts ++ [act]) t := by
  cases moved_of_step step with
  | @claimed id free =>
    refine tracks.silent path nofun (Nat.le_succ _) (fun ticket found open_ => ?_)
      fun ticket found observation has => ?_
    · rcases (open_put (s := s.setSlot id (some none))).mp open_ with ⟨rfl, rfl, -⟩ | ⟨-, before⟩
      · exact .inr ⟨le_rfl, (waiting_setSlot _ _).trans (if_pos rfl)⟩
      · have before : s.Open ticket found := before
        have present := (inv.entry found).mpr ⟨ticket, before.outstanding⟩
        have other : found ≠ id := by
          rintro rfl
          rw [State.isWaiting, free] at present
          cases present
        exact .inl ⟨before, (waiting_setSlot _ _).trans (if_neg other)⟩
    · rcases has_put (s := s.setSlot id (some none)) has with ⟨-, -, held⟩ | ⟨-, before⟩
      · rcases held with held | held <;> cases held
      · exact .inl before
  | refused =>
    exact tracks.silent path nofun le_rfl (fun _ _ open_ => .inl ⟨open_, rfl⟩) fun _ _ _ => .inl
  | answered => exact tracks.answered inv path
  | @discarded observation absent =>
    have apart (ticket : ℕ) : ¬ s.Open ticket observation.approvalId := fun open_ => by
      have present := (inv.entry _).mpr ⟨ticket, open_.outstanding⟩
      rw [State.isWaiting, absent] at present
      cases present
    have same (ticket place : ℕ) (result : ApprovalObservation) :
        ResolvedFor (acts ++ [.resolve observation]) ticket place result ↔
          ResolvedFor acts ticket place result := by
      refine (resolvedIn_concat path).trans (or_iff_left ?_)
      rintro ⟨same, -, open_⟩
      obtain rfl := Act.resolve.inj same
      exact apart ticket open_
    exact ⟨fun ticket id result open_ answer => (lastFor_of_iff (same ticket)).mpr
      (tracks.answer ticket id result open_ answer),
      fun ticket id open_ empty place result resolved =>
        tracks.empty ticket id open_ empty place result ((same ticket place result).mp resolved),
      fun ticket id result has => (tracks.result ticket id result has).imp_right
        (lastFor_of_iff (same ticket)).mpr,
      fun ticket later place result resolved =>
        tracks.fresh ticket later place result ((same ticket place result).mp resolved)⟩
  | notified =>
    refine tracks.silent path nofun le_rfl (fun _ _ open_ => .inl ⟨open_notifyAll.mp open_, rfl⟩)
      fun ticket id observation has => .inl ?_
    rcases has with has | has
    all_goals
      obtain ⟨⟨id', phase⟩, there, same⟩ := Option.map_eq_some_iff.mp has
      obtain ⟨rfl, awake⟩ := ApprovalTicket.mk.inj same
      cases phase <;> cases awake
    · exact .inl there
    · exact .inr there
  | @shifted _ ticket id phase phase' there before after silent empty =>
    refine tracks.silent path silent le_rfl (fun other found open_ => .inl ⟨?_, rfl⟩)
      fun other found observation has => .inl ?_
    · rcases open_put.mp open_ with ⟨rfl, rfl, -⟩ | ⟨-, earlier⟩
      · exact ⟨phase, there, before⟩
      · exact earlier
    · rcases has_put has with ⟨-, -, held⟩ | ⟨-, earlier⟩
      · rcases held with rfl | rfl <;> cases after
      · exact earlier
  | @taken ticket id timed expired observation there answer =>
    have own : s.Open ticket id := ⟨_, there, rfl⟩
    refine tracks.silent path nofun le_rfl (fun other found open_ => .inl ?_)
      fun other found result has => ?_
    · rcases (open_put (s := s.setSlot id (some none))).mp open_ with ⟨-, -, taken⟩ | ⟨apart, earlier⟩
      · cases taken
      · have earlier : s.Open other found := earlier
        have elsewhere : found ≠ id := by
          rintro rfl
          exact apart (inv.unique _ _ _ earlier.outstanding own.outstanding)
        exact ⟨earlier, (waiting_setSlot _ _).trans (if_neg elsewhere)⟩
    · rcases has_put (s := s.setSlot id (some none)) has with ⟨rfl, rfl, held⟩ | ⟨-, earlier⟩
      · rcases held with held | held
        · obtain rfl := Phase.leaving.inj held
          exact .inr ⟨own, answer, inv.keyed _ _ answer⟩
        · cases held
      · exact .inl earlier
  | @released ticket id phase phase' there ends =>
    have own : s.outstanding ticket = some id := by
      rcases ends with ⟨rfl, -⟩ | ⟨_, rfl, -⟩
      · exact outstanding_of_tickets there
      · exact outstanding_of_tickets there
    refine tracks.silent path nofun le_rfl (fun other found open_ => .inl ?_)
      fun other found result has => .inl ?_
    · rcases (open_put (s := s.forget id)).mp open_ with ⟨-, -, untaken⟩ | ⟨apart, earlier⟩
      · rcases ends with ⟨-, rfl⟩ | ⟨_, -, rfl⟩ <;> cases untaken
      · have earlier : s.Open other found := earlier
        have elsewhere : found ≠ id := by
          rintro rfl
          exact apart (inv.unique _ _ _ earlier.outstanding own)
        exact ⟨earlier, (waiting_setSlot (s := s) _ _).trans (if_neg elsewhere)⟩
    · rcases has_put (s := s.forget id) has with ⟨rfl, rfl, held⟩ | ⟨-, earlier⟩
      · rcases ends with ⟨-, rfl⟩ | ⟨observation, rfl, rfl⟩
        · rcases held with held | held <;> cases held
        · rcases held with held | held
          · cases held
          · obtain rfl := Phase.returned.inj held
            exact .inl there
      · exact earlier

/-- The run lemma. -/
theorem tracks_of_path (path : gate.Path .new acts s) : Tracks acts s := by
  induction acts using List.reverseRecOn generalizing s with
  | nil =>
    cases path
    exact tracks_new
  | append_singleton acts act ih =>
    obtain ⟨mid, leading, last⟩ := path.split
    cases last with
    | cons step rest =>
      cases rest
      exact (ih leading).step (inv_of_path leading) leading step

end Track

/-- The entry of a ticket that was answered has the last answer. -/
theorem slot_of_resolved {place : ℕ} (path : gate.Path .new acts s) (open_ : s.Open ticket id)
    (resolved : ResolvedFor acts ticket place observation) :
    ∃ last, s.waiting id = some (some last) ∧ LastFor acts ticket last := by
  have tracks := tracks_of_path path
  have present := ((inv_of_path path).entry id).mpr ⟨ticket, open_.outstanding⟩
  obtain ⟨slot, there⟩ := Option.isSome_iff_exists.mp present
  cases slot with
  | none => exact absurd resolved (tracks.empty ticket id open_ there place observation)
  | some last => exact ⟨last, there, tracks.answer ticket id last open_ there⟩

/-- A waiter that comes to the lock takes the answer that is there, whatever its clock says. -/
theorem step_check {timed : Bool} (there : s.tickets ticket = some ⟨id, .locking timed⟩)
    (answer : s.waiting id = some (some observation)) (expired : Bool) :
    s.step (.check ticket expired) = some ((s.setSlot id (some none)).put ticket id
      (.leaving observation)) := by
  simp only [State.step, there, State.turn, answer]

private theorem leads_of_locking {timed : Bool} (there : s.tickets ticket = some ⟨id, .locking timed⟩)
    (answer : s.waiting id = some (some observation)) :
    gate.Leads (fun act => act = .notify ∨ act = .check ticket false ∨ act = .drop ticket)
      (fun t => t.tickets ticket = some ⟨id, .returned observation⟩) s := by
  have leaving : ((s.setSlot id (some none)).put ticket id (.leaving observation)).tickets ticket =
      some ⟨id, .leaving observation⟩ := tickets_put.trans (if_pos rfl)
  have dropped : ((s.setSlot id (some none)).put ticket id (.leaving observation)).step (.drop ticket) =
      some ((((s.setSlot id (some none)).put ticket id (.leaving observation)).forget id).put ticket id
        (.returned observation)) := by
    simp only [State.step, leaving]
  refine .step (.check ticket false) (.inr (.inl rfl)) (step_check there answer false) ?_
  refine .step (.drop ticket) (.inr (.inr rfl)) dropped (.here ?_)
  exact tickets_put.trans (if_pos rfl)

/-- An answered waiter is woken by whoever answered, takes the answer and returns. -/
theorem leads_of_answer {timed : Bool} (inv : Inv s)
    (there : s.tickets ticket = some ⟨id, .locking timed⟩ ∨ s.tickets ticket = some ⟨id, .parked timed⟩)
    (answer : s.waiting id = some (some observation)) :
    gate.Leads (fun act => act = .notify ∨ act = .check ticket false ∨ act = .drop ticket)
      (fun t => t.tickets ticket = some ⟨id, .returned observation⟩) s := by
  rcases there with locking | parked
  · exact leads_of_locking locking answer
  · have owed := inv.owed ticket id timed observation parked answer
    have awake : s.notifyAll.tickets ticket = some ⟨id, .locking timed⟩ := by
      rw [tickets_notifyAll, parked]
      rfl
    exact .step .notify (.inl rfl) (if_pos owed) (leads_of_locking awake answer)

/-- However tickets, answers, waits and drops interleave, each outstanding ticket has the one entry;
a waiter returns the last answer that was resolved while its ticket was outstanding and none was
taken with it, no other waiter sees that answer, and no answer is waited for in vain; and an answer
for an approval without a ticket leaves nothing behind. -/
theorem last_answer_returned (path : gate.Path .new acts s) :
    (∀ id, s.isWaiting id = true ↔ ∃! ticket, s.outstanding ticket = some id) ∧
    (∀ ticket id observation, s.tickets ticket = some ⟨id, .returned observation⟩ →
      observation.approvalId = id ∧ LastFor acts ticket observation) ∧
    (∀ ticket ticket' place observation observation', ResolvedFor acts ticket place observation →
      ResolvedFor acts ticket' place observation' → ticket = ticket') ∧
    (∀ ticket id place observation, s.Open ticket id → ResolvedFor acts ticket place observation →
      ∃ last, LastFor acts ticket last ∧ ∀ timed,
        (s.tickets ticket = some ⟨id, .locking timed⟩ → ∀ expired, ∃ t,
          s.step (.check ticket expired) = some t ∧ t.tickets ticket = some ⟨id, .leaving last⟩) ∧
        (s.tickets ticket = some ⟨id, .locking timed⟩ ∨ s.tickets ticket = some ⟨id, .parked timed⟩ →
          gate.Leads (fun act => act = .notify ∨ act = .check ticket false ∨ act = .drop ticket)
            (fun t => t.tickets ticket = some ⟨id, .returned last⟩) s)) ∧
    ∀ observation, (∀ ticket, s.outstanding ticket ≠ some observation.approvalId) →
      s.resolve observation = s ∧ s.isWaiting observation.approvalId = false := by
  have inv := inv_of_path path
  have tracks := tracks_of_path path
  refine ⟨fun id => ?_, fun ticket id observation returned => ?_, fun _ _ _ _ _ => ResolvedFor.unique,
    fun ticket id place observation open_ resolved => ?_, fun observation nobody => ?_⟩
  · rw [inv.entry id]
    constructor
    · rintro ⟨ticket, outstanding⟩
      exact ⟨ticket, outstanding, fun other there => inv.unique other ticket id there outstanding⟩
    · exact fun ⟨ticket, outstanding, _⟩ => ⟨ticket, outstanding⟩
  · exact tracks.result ticket id observation (.inr returned)
  · obtain ⟨last, answer, latest⟩ := slot_of_resolved path open_ resolved
    refine ⟨last, latest, fun timed => ⟨fun locking expired => ?_,
      fun waits => leads_of_answer inv waits answer⟩⟩
    exact ⟨_, step_check locking answer expired, tickets_put.trans (if_pos rfl)⟩
  · have absent : s.isWaiting observation.approvalId = false :=
      Bool.eq_false_iff.mpr fun present =>
        have ⟨ticket, outstanding⟩ := (inv.entry _).mp present
        nobody ticket outstanding
    refine ⟨?_, absent⟩
    rw [State.resolve, Option.not_isSome_iff_eq_none.mp (Bool.eq_false_iff.mp absent)]

private def grant : ApprovalObservation := ⟨1, .granted, .granted, some .exactCall, none⟩

private def cancellation : ApprovalObservation :=
  ⟨1, .cancelled, .denied, none, some (unansweredReason .cancelled)⟩

/-- A waiter parks, its approval is granted and then cancelled, and it is woken and returns. -/
private def answeredTwice : List Act :=
  [.ticket 1, .wait 0 false, .check 0 false, .resolve grant, .resolve cancellation, .notify,
    .check 0 false, .drop 0]

private def endOf (acts : List Act) : State := (gate.run? .new acts).getD .new

private theorem path_answeredTwice : gate.Path .new answeredTwice (endOf answeredTwice) :=
  Machine.run?_eq_some_iff.mp rfl

/-- The waiter returns the cancellation. -/
theorem last_answer_returned_cancelled :
    (endOf answeredTwice).tickets 0 = some ⟨1, .returned cancellation⟩ ∧
      LastFor answeredTwice 0 cancellation :=
  ⟨rfl, ((last_answer_returned path_answeredTwice).2.1 0 1 cancellation rfl).2⟩

/-- Not every answer that is resolved while a ticket is outstanding is what its waiter returns. -/
theorem first_answer_superseded : ¬ ∀ acts s ticket id place observation result,
    gate.Path .new acts s → ResolvedLive acts ticket place observation →
      s.tickets ticket = some ⟨id, .returned result⟩ → result = observation := by
  intro every
  have resolved : ResolvedLive answeredTwice 0 3 grant :=
    ⟨answeredTwice.take 3, answeredTwice.drop 4, endOf (answeredTwice.take 3), rfl, rfl,
      Machine.run?_eq_some_iff.mp rfl, rfl⟩
  exact absurd (every _ _ 0 1 3 grant cancellation path_answeredTwice resolved rfl) (by decide)

end Gate

end Harkness.Runtime.Approval
