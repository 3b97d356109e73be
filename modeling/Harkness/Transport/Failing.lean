import Harkness.Transport.Delivery

/-! # How a request fails

The loops of a request end it with an error where the transport or a message it hands over fails them, where
the queue of peer messages is full, and where they find the token tripped or the deadline passed. The error
sets out in one of these acts of the caller's own thread and comes to the caller, which does not look at its
slot again. Where none of them happens an answer that was handed over is returned.
-/

namespace Harkness.Transport

open Json

variable {T ν : Type} {thread : T} {before after : World T ν}

/-- An error is on its way to the caller of a thread. -/
def Phase.isFailing : Phase ν → Bool
  | .release _ (.error _) | .remember _ (.release _) | .remember _ (.fail _) | .retire .. => true
  | _ => false

/-- How many moves of a caller there are from its place in a loop to its look at its slot. -/
def Caller.toLook : Caller ν → ℕ
  | send .. => 2
  | answer .. | peer _ => 1

def Phase.toLook : Phase ν → ℕ
  | look caller => caller.toLook
  | release caller _ => caller.toLook + 1
  | route caller _ => caller.toLook + 2
  | receive caller => caller.toLook + 3
  | gauge caller => caller.toLook + 4
  | lead caller => caller.toLook + 5
  | clock caller => caller.toLook + 6
  | token caller => caller.toLook + 7
  | _ => 0

theorem Phase.toLook_le (phase : Phase ν) : phase.toLook ≤ 9 := by
  have caller (caller : Caller ν) : caller.toLook ≤ 2 := by cases caller <;> simp [Caller.toLook]
  cases phase with
  | look by_ | release by_ | route by_ | receive by_ | gauge by_ | lead by_ | clock by_ | token by_ =>
    have few := caller by_
    simp only [Phase.toLook]
    omega
  | _ => exact Nat.zero_le 9

/-- A caller that works for a request is in one of its loops, or an error is on its way. -/
theorem toLook_pos {world : World T ν} {id : RequestId} (waits : world.Waits thread id)
    (calm : (world.calls thread).isFailing = false) : 0 < (world.calls thread).toLook := by
  obtain ⟨owner, entered⟩ := waits
  have caller (caller : Caller ν) : 0 < caller.toLook := by cases caller <;> simp [Caller.toLook]
  cases phase : world.calls thread with
  | look by_ | release by_ | route by_ | receive by_ | gauge by_ | lead by_ | clock by_ | token by_ =>
    have few := caller by_
    simp only [Phase.toLook]
    omega
  | idle | inspect => rw [phase] at owner; cases owner
  | register => rw [phase] at entered; cases entered
  | retire => rw [phase] at calm; cases calm
  | remember error after_ =>
    rw [phase] at owner calm
    cases after_ with
    | done => cases owner
    | _ => cases calm

/-- Whether the transport has no room for a message. -/
def Act.isRefused : Act T ν → Bool
  | .send _ (.error .noRoom) => true
  | _ => false

/-- The act in which a loop of a thread fails: the transport refuses its message for good or reports an
error to it, what it reads ends the conversation, there is no room for peer messages, cancellation was asked
for, its deadline has passed, or its look comes after the end of the conversation and before an answer. -/
inductive Fails (world : World T ν) (thread : T) : Act T ν → Prop
  | send (error : TransportError) : Fails world thread (.send thread (.error (.failed error)))
  | receive (error : TransportError) : Fails world thread (.receive thread (.error error))
  | route (caller : Caller ν) (response : Response ν)
      (phase : world.calls thread = .route caller (.response response))
      (lost : ∀ slot, world.pending.slots.lookup response.id = some slot → slot.isAnswered = true) :
      Fails world thread (.move thread)
  | gauge (caller : Caller ν) (phase : world.calls thread = .gauge caller)
      (full : world.peers.isFull = true) : Fails world thread (.move thread)
  | token (caller : Caller ν) (phase : world.calls thread = .token caller)
      (cancelled : world.cancelled = true) : Fails world thread (.move thread)
  | clock (caller : Caller ν) (phase : world.calls thread = .clock caller)
      (passed : caller.deadline ≤ world.now) : Fails world thread (.move thread)
  | look (id : RequestId) (deadline : ℕ) (phase : world.calls thread = .look (.answer id deadline))
      (over_ : world.pending.terminal ≠ none)
      (unanswered : ∀ outcome, world.pending.slots.lookup id ≠ some (.answered outcome)) :
      Fails world thread (.move thread)

variable [DecidableEq T]

/-- A loop that works for a request fails by giving it up next. -/
theorem fail_turn {caller : Caller ν} {id : RequestId} (self : World T ν) (error : TransportError)
    (owner : caller.request? = some id) :
    ((self.fail thread caller error).calls thread).request? = some id ∧
      ((self.fail thread caller error).calls thread).isRegister = false ∧
      ((self.fail thread caller error).calls thread).isFailing = true := by
  cases caller with
  | send request message deadline =>
    obtain rfl : request = some id := owner
    simp only [World.fail, World.goto_calls]
    exact ⟨rfl, rfl, rfl⟩
  | answer other deadline =>
    obtain rfl := Option.some.inj owner
    simp only [World.fail, World.goto_calls]
    exact ⟨rfl, rfl, rfl⟩
  | peer deadline => cases owner

/-- A thread that gives its request up returns an error for it, or is about to. -/
theorem World.GivesUp.reports {id : RequestId} (gives : before.GivesUp thread id)
    (step : conversation.step before (.move thread) = some after) :
    ∃ error, after.Reports thread id (.error error) := by
  rcases gives with ⟨error, last, phase⟩ | ⟨⟨deadline, phase⟩, over_, unanswered⟩
  · simp only [conversation, phase, World.move] at step
    obtain rfl := Option.some.inj step
    refine ⟨error, ?_⟩
    cases last with
    | true => exact .inr (congrArg Phase.promised (World.goto_calls _ _))
    | false => exact .inl (List.mem_append_right _ List.mem_cons_self)
  · obtain ⟨fault, ended⟩ := Option.ne_none_iff_exists'.mp over_
    simp only [conversation, phase, World.move, World.lookAnswer, ended] at step
    obtain rfl := Option.some.inj step
    exact ⟨fault.error true, .inl (List.mem_append_right _ List.mem_cons_self)⟩

/-- An error is on its way to the caller of a request, or it is what the request returns. -/
def Lost (world : World T ν) (caller : T) (id : RequestId) : Prop :=
  world.Waits caller id ∧ (world.calls caller).isFailing = true ∨
    ∃ error, world.Reports caller id (.error error)

section Lost

variable {id : RequestId}

theorem lost_goto (phase : Phase ν) {self : World T ν} (owner : phase.request? = some id)
    (entered : phase.isRegister = false) (failing : phase.isFailing = true)
    (same : some (self.goto thread phase) = some after) : Lost after thread id := by
  obtain rfl := Option.some.inj same
  rw [Lost, World.Waits, World.goto_calls]
  exact .inl ⟨⟨owner, entered⟩, failing⟩

theorem lost_fail {caller : Caller ν} {self : World T ν} {error : TransportError}
    (owner : caller.request? = some id) (same : some (self.fail thread caller error) = some after) :
    Lost after thread id := by
  obtain rfl := Option.some.inj same
  obtain ⟨request, entered, failing⟩ := fail_turn self error owner
  exact .inl ⟨⟨request, entered⟩, failing⟩

/-- An error that is on its way comes to the caller. -/
theorem lost_move (waits : before.Waits thread id) (failing : (before.calls thread).isFailing = true)
    (step : conversation.step before (.move thread) = some after) : Lost after thread id := by
  have owner := waits.1
  have moved := step
  simp only [conversation] at step
  cases phase : before.calls thread with
  | release caller result =>
    rw [phase] at owner failing step
    cases result with
    | ok _ => cases failing
    | error error => exact lost_fail owner step
  | remember error after_ =>
    rw [phase] at owner failing step
    cases after_ with
    | release caller => exact lost_goto (.release caller (.error error)) owner rfl rfl step
    | fail caller => exact lost_fail owner step
    | done result => cases failing
  | retire other error last =>
    rw [phase] at owner
    obtain rfl := Option.some.inj owner
    exact .inr (World.GivesUp.reports (.inl ⟨error, last, phase⟩) moved)
  | _ => rw [phase] at failing; cases failing

/-- An error that a loop meets sets out. -/
theorem lost_of_fails {act : Act T ν} (waits : before.Waits thread id) (fails : Fails before thread act)
    (step : conversation.step before act = some after) : Lost after thread id := by
  have owner := waits.1
  cases fails with
  | send error =>
    simp only [conversation, World.trySend] at step
    split at step
    next request message deadline phase =>
      rw [phase] at owner
      exact lost_goto (.remember error (.fail (.send request message deadline))) owner rfl rfl step
    · cases step
  | receive error =>
    simp only [conversation, World.receive] at step
    split at step
    next caller phase =>
      rw [phase] at owner
      exact lost_goto (.remember error (.release caller)) owner rfl rfl step
    · cases step
  | route caller response phase lost =>
    rw [phase] at owner
    simp only [conversation, phase, World.move, World.route, World.routeResponse] at step
    split at step
    next held => cases lost _ held
    next held => cases lost _ held
    all_goals exact lost_goto (.remember (.desynchronized _) (.release caller)) owner rfl rfl step
  | gauge caller phase full =>
    rw [phase] at owner
    simp only [conversation, phase, World.move, World.gauge, full, if_true] at step
    exact lost_goto (.release caller (.error _)) owner rfl rfl step
  | token caller phase cancelled =>
    rw [phase] at owner
    simp only [conversation, phase, World.move, World.token, cancelled, if_true] at step
    cases caller with
    | answer other deadline => exact lost_goto (.retire other .cancelled true) owner rfl rfl step
    | send request message deadline =>
      exact lost_goto (.remember .cancelled (.fail (.send request message deadline))) owner rfl rfl step
    | peer => cases owner
  | clock caller phase passed =>
    rw [phase] at owner
    simp only [conversation, phase, World.move, World.clock, if_pos passed] at step
    cases caller with
    | answer other deadline =>
      exact lost_goto (.retire other (.requestTimedOut other) false) owner rfl rfl step
    | send request message deadline =>
      have owner : (Caller.send request message deadline).request? = some id := owner
      exact lost_fail owner step
    | peer => cases owner
  | look other deadline phase over_ unanswered =>
    rw [phase] at owner
    obtain rfl := Option.some.inj owner
    exact .inr (World.GivesUp.reports (.inr ⟨⟨deadline, phase⟩, over_, unanswered⟩) step)

end Lost

/-- After an act of a thread no error is on its way to it, and it is nearer to a look at its slot than so many
moves, where the answer is in the slot. -/
def Nears (before after : World T ν) (thread : T) (id : RequestId) (moves : ℕ) : Prop :=
  (after.calls thread).isFailing = false ∧
    ((∃ outcome, before.pending.slots.lookup id = some (.answered outcome)) →
      (after.calls thread).toLook + 1 ≤ moves)

section Nears

variable {id : RequestId}

theorem nears_goto {moves : ℕ} (phase : Phase ν) {self : World T ν} (calm : phase.isFailing = false)
    (same : some (self.goto thread phase) = some after)
    (near : (∃ outcome, before.pending.slots.lookup id = some (.answered outcome)) →
      phase.toLook + 1 ≤ moves) : Nears before after thread id moves := by
  obtain rfl := Option.some.inj same
  rw [Nears, World.goto_calls]
  exact ⟨calm, near⟩

/-- Only a transport without room for the message keeps a sender from its look. -/
theorem nears_send {result : Except World.SendRejection Unit} (waits : before.Waits thread id)
    (holds : ¬Fails before thread (.send thread result))
    (step : conversation.step before (.send thread result) = some after) :
    Nears before after thread id
      ((before.calls thread).toLook + if (Act.send thread result : Act T ν).isRefused then 8 else 0) := by
  have owner := waits.1
  simp only [conversation, World.trySend] at step
  split at step
  next request message deadline phase =>
    rw [phase] at owner ⊢
    obtain rfl : request = some id := owner
    cases result with
    | ok _ => exact nears_goto (.look (.answer id deadline)) rfl step fun _ => le_rfl
    | error rejection =>
      cases rejection with
      | noRoom => exact nears_goto (.token _) rfl step fun _ => le_rfl
      | failed error => exact absurd (.send error) holds
  · cases step

theorem nears_receive {result : Except TransportError (Option (Message ν))}
    (holds : ¬Fails before thread (.receive thread result))
    (step : conversation.step before (.receive thread result) = some after) :
    Nears before after thread id (before.calls thread).toLook := by
  simp only [conversation, World.receive] at step
  split at step
  next caller phase =>
    rw [phase]
    cases result with
    | ok message =>
      cases message with
      | none => exact nears_goto (.release caller (.ok ())) rfl step fun _ => Nat.le_succ _
      | some message => exact nears_goto (.route caller message) rfl step fun _ => le_rfl
    | error error => exact absurd (Fails.receive error) holds
  · cases step

/-- A look that does not end the loop finds no answer. -/
theorem nears_look {caller : Caller ν} (phase : before.calls thread = .look caller)
    (owner : caller.request? = some id) (holds : ¬Fails before thread (.move thread))
    (step : conversation.step before (.move thread) = some after) :
    Nears before after thread id (before.calls thread).toLook := by
  simp only [conversation, phase] at step
  rw [phase]
  cases caller with
  | send => cases step
  | peer => cases owner
  | answer id' deadline =>
    obtain rfl := Option.some.inj owner
    simp only [World.move, World.lookAnswer] at step
    split at step
    · obtain rfl := Option.some.inj step
      rw [Nears, World.finish_calls]
      exact ⟨rfl, fun _ => le_rfl⟩
    next unanswered =>
      split at step
      next over_ =>
        have ended : before.pending.terminal ≠ none := by
          rw [over_]
          exact Option.some_ne_none _
        refine absurd (.look id' deadline phase ended fun outcome held => ?_) holds
        exact unanswered outcome held
      · refine nears_goto (.token _) rfl step ?_
        rintro ⟨outcome, held⟩
        exact absurd held (unanswered outcome)

/-- A message that does not end the conversation is put where it belongs. -/
theorem nears_route {caller : Caller ν} {message : Message ν}
    (phase : before.calls thread = .route caller message) (holds : ¬Fails before thread (.move thread))
    (step : conversation.step before (.move thread) = some after) :
    Nears before after thread id (before.calls thread).toLook := by
  simp only [conversation, phase] at step
  rw [phase]
  cases message with
  | request call => exact nears_goto (.release caller (.ok ())) rfl step fun _ => le_rfl
  | notification call => exact nears_goto (.release caller (.ok ())) rfl step fun _ => le_rfl
  | response response =>
    by_cases lost : ∀ slot, before.pending.slots.lookup response.id = some slot → slot.isAnswered = true
    · exact absurd (.route caller response phase lost) holds
    · push Not at lost
      obtain ⟨slot, held, unanswered⟩ := lost
      simp only [World.move, World.route, World.routeResponse, held] at step
      cases slot with
      | waiting => exact nears_goto (.release caller (.ok ())) rfl step fun _ => le_rfl
      | answered outcome => exact absurd rfl unanswered
      | retired answered =>
        cases answered with
        | false => exact nears_goto (.release caller (.ok ())) rfl step fun _ => le_rfl
        | true => exact absurd rfl unanswered

theorem nears_move (waits : before.Waits thread id) (calm : (before.calls thread).isFailing = false)
    (holds : ¬Fails before thread (.move thread))
    (step : conversation.step before (.move thread) = some after) :
    Nears before after thread id (before.calls thread).toLook := by
  obtain ⟨owner, entered⟩ := waits
  have moved := step
  simp only [conversation] at step
  cases phase : before.calls thread with
  | idle => rw [phase] at owner; cases owner
  | inspect => rw [phase] at owner; cases owner
  | register => rw [phase] at entered; cases entered
  | retire => rw [phase] at calm; cases calm
  | receive => rw [phase] at step; cases step
  | look caller =>
    rw [phase] at owner
    exact phase ▸ nears_look phase owner holds moved
  | route caller message => exact phase ▸ nears_route phase holds moved
  | token caller =>
    rw [phase] at step
    simp only [World.move, World.token] at step
    split at step
    next cancelled => exact absurd (.token caller phase cancelled) holds
    · exact nears_goto (.clock caller) rfl step fun _ => le_rfl
  | clock caller =>
    rw [phase] at step
    simp only [World.move, World.clock] at step
    split at step
    next passed => exact absurd (.clock caller phase passed) holds
    · exact nears_goto (.lead caller) rfl step fun _ => le_rfl
  | lead caller =>
    rw [phase] at step
    simp only [World.move, World.lead] at step
    split at step
    · exact nears_goto (.gauge caller) rfl step fun _ => le_rfl
    · exact nears_goto (.look caller) rfl step fun _ => Nat.add_le_add_left (by decide : 1 ≤ 5) _
  | gauge caller =>
    rw [phase] at step
    simp only [World.move, World.gauge] at step
    split at step
    next full => exact absurd (.gauge caller phase full) holds
    · exact nears_goto (.receive caller) rfl step fun _ => le_rfl
  | release caller result =>
    rw [phase] at calm step
    cases result with
    | ok _ => exact nears_goto (.look caller) rfl step fun _ => le_rfl
    | error error => cases calm
  | remember error after_ =>
    rw [phase] at calm owner
    cases after_ with
    | release => cases calm
    | fail => cases calm
    | done => cases owner

/-- No error sets out where a loop does not fail, and its caller comes nearer to a look that finds its answer,
unless the transport has no room for its message. -/
theorem calm_turn {act : Act T ν} (waits : before.Waits thread id)
    (calm : (before.calls thread).isFailing = false) (holds : ¬Fails before thread act)
    (of : act.thread? = some thread) (step : conversation.step before act = some after) :
    Nears before after thread id
      ((before.calls thread).toLook + if act.isRefused then 8 else 0) := by
  cases act with
  | begin_ other call =>
    obtain rfl := Option.some.inj of
    have owner := waits.1
    simp only [conversation] at step
    split at step
    next phase => rw [phase] at owner; cases owner
    · cases step
  | send other result =>
    obtain rfl := Option.some.inj of
    exact nears_send waits holds step
  | receive other result =>
    obtain rfl := Option.some.inj of
    exact nears_receive holds step
  | move other =>
    obtain rfl := Option.some.inj of
    exact nears_move waits calm holds step
  | tick => cases of
  | cancel => cases of

end Nears

omit [DecidableEq T] in
/-- Nothing of a request that has returned is left to its caller. -/
theorem Settled.returned_ne {world : World T ν} (settled : Settled world) {caller : T} {id : RequestId}
    {result : Except TransportError (Outcome ν)} (returned : (caller, .request id result) ∈ world.returned)
    (who : T) : ¬world.Waits who id :=
  fun waits => (settled.reported caller id result (.inl returned)).2 who waits.1

/-- What has been returned stays returned in a run. -/
theorem returned_of_path {acts : List (Act T ν)} {entry : T × Return ν}
    (path : conversation.Path before acts after) (member : entry ∈ before.returned) :
    entry ∈ after.returned := by
  refine path.preserves (P := fun world => entry ∈ world.returned) ?_ member
  intro before act after member step
  rcases step_cases step with ⟨_, -, moved, -⟩ | ⟨-, _, _, rfl⟩
  · exact returned_move moved member
  · exact member

/-- A result that a thread has returned, or is about to, stays one. -/
theorem reports_step {act : Act T ν} {id : RequestId} {result : Except TransportError (Outcome ν)}
    (reports : before.Reports thread id result) (step : conversation.step before act = some after) :
    after.Reports thread id result := by
  rcases reports with member | promised
  · exact .inl (returned_of_path (.cons step (.nil _)) member)
  · rcases step_cases step with ⟨mover, of, -, others⟩ | ⟨-, _, _, rfl⟩
    · by_cases same : mover = thread
      · subst same
        cases phase : before.calls mover with
        | remember error after_ =>
          rw [phase] at promised
          cases after_ with
          | done last =>
            obtain rfl := Option.some.inj promised
            obtain rfl := act_eq_move step of (by rw [phase]; rfl)
            simp only [conversation, phase, World.move, World.remember] at step
            obtain rfl := Option.some.inj step
            exact .inl (List.mem_append_right _ List.mem_cons_self)
          | _ => cases promised
        | _ => rw [phase] at promised; cases promised
      · exact .inr (others thread (Ne.symm same) ▸ promised)
    · exact .inr promised

/-- An error that is on its way is what the request comes to return. -/
theorem Lost.of_path {caller : T} {id : RequestId} {acts : List (Act T ν)}
    (lost : Lost before caller id) (path : conversation.Path before acts after) : Lost after caller id := by
  refine path.preserves (P := fun world => Lost world caller id) ?_ lost
  rintro before act after (⟨waits, failing⟩ | ⟨error, reports⟩) step
  · rcases step_cases step with ⟨thread, of, -, others⟩ | ⟨-, _, _, rfl⟩
    · by_cases same : thread = caller
      · subst same
        have own : (before.calls thread).isOwn = true := by
          cases phase : before.calls thread with
          | look | receive | idle => rw [phase] at failing; cases failing
          | _ => rfl
        obtain rfl := act_eq_move step of own
        exact lost_move waits failing step
      · have kept := others caller (Ne.symm same)
        exact .inl ⟨by rw [World.Waits, kept]; exact waits, by rw [kept]; exact failing⟩
    · exact .inl ⟨waits, failing⟩
  · exact .inr ⟨error, reports_step reports step⟩

/-- The answer of a request is with the holder of the pump or in its slot, and its caller in the
call, or it is what the request has returned; there is no other result of the request. -/
def Due (world : World T ν) (caller : T) (id : RequestId) (outcome : Outcome ν) : Prop :=
  Carried world caller id outcome ∨ Delivered world caller id outcome

/-- The answer of a request is on its way, and no error is. -/
structure Owed (world : World T ν) (caller : T) (id : RequestId) (outcome : Outcome ν) : Prop where
  sound : Sound world
  due : Due world caller id outcome
  calm : world.Waits caller id → (world.calls caller).isFailing = false

/-- A caller whose request goes on has not failed. -/
def HoldsOut (world : World T ν) (caller : T) (id : RequestId) (act : Act T ν) : Prop :=
  world.Waits caller id → ¬Fails world caller act

namespace Owed

variable {caller : T} {id : RequestId} {outcome : Outcome ν} {acts : List (Act T ν)}

/-- A request that its caller works for after a move is one that it worked for before. -/
theorem waits_back {act : Act T ν} (owed : Owed before caller id outcome) (later : Settled after)
    (step : conversation.step before act = some after) (waits : after.Waits caller id) :
    before.Waits caller id := by
  rcases owed.due with carried | delivered
  · exact carried.waits
  · rcases delivered.way with ⟨waits, -⟩ | here
    · exact waits
    · exact absurd waits (later.returned_ne (returned_of_path (.cons step (.nil _)) here) caller)

/-- Where the caller does not fail it does not give its request up. -/
theorem stays {act : Act T ν} (owed : Owed before caller id outcome)
    (holds : HoldsOut before caller id act) (thread : T) (moves : act = .move thread) :
    ¬before.GivesUp thread id := by
  intro gives
  have waits : before.Waits thread id := by
    refine ⟨gives.request?, ?_⟩
    rcases gives with ⟨_, _, phase⟩ | ⟨⟨_, phase⟩, -⟩ <;> rw [phase] <;> rfl
  have same : thread = caller := by
    rcases owed.due with carried | delivered
    · exact owed.sound.table.alone thread caller id waits.1 carried.waits.1
    · rcases delivered.way with ⟨here, -⟩ | here
      · exact owed.sound.table.alone thread caller id waits.1 here.1
      · exact absurd waits (owed.sound.settled.returned_ne here thread)
  subst same
  rcases gives with ⟨error, last, phase⟩ | ⟨⟨deadline, phase⟩, over_, unanswered⟩
  · have calm := owed.calm waits
    rw [phase] at calm
    cases calm
  · exact holds waits (moves ▸ .look id deadline phase over_ unanswered)

theorem step {act : Act T ν} (owed : Owed before caller id outcome) (room : Room before act)
    (holds : HoldsOut before caller id act) (step : conversation.step before act = some after) :
    Owed after caller id outcome := by
  have later := owed.sound.step room step
  have stays := owed.stays holds
  refine ⟨later, ?_, fun waits => ?_⟩
  · rcases owed.due with carried | delivered
    · exact carried.step owed.sound.table later.settled owed.sound.kept step stays
    · exact .inr (delivered.step owed.sound.table owed.sound.settled later.settled step stays)
  · have waited := owed.waits_back later.settled step waits
    have calm := owed.calm waited
    rcases step_cases step with ⟨thread, of, -, others⟩ | ⟨-, _, _, rfl⟩
    · by_cases same : thread = caller
      · subst same
        exact (calm_turn waited calm (holds waited) of step).1
      · rw [others caller (Ne.symm same)]
        exact calm
    · exact calm

/-- In a run in which its caller does not fail, the answer stays on its way. -/
theorem of_path (owed : Owed before caller id outcome) (path : conversation.Path before acts after)
    (room : conversation.Each Room before acts)
    (holds : conversation.Each (HoldsOut · caller id) before acts) : Owed after caller id outcome :=
  path.preserves_of (P := fun world => Owed world caller id outcome)
    (fun _ _ _ owed meets step => owed.step meets.1 meets.2 step) (room.and holds) owed

/-- A request that is not through at the end of a run was not at any time of it. -/
theorem waits_of_path (owed : Owed before caller id outcome) (path : conversation.Path before acts after)
    (later : Settled after) (waits : after.Waits caller id) : before.Waits caller id := by
  rcases owed.due with carried | delivered
  · exact carried.waits
  · rcases delivered.way with ⟨waits, -⟩ | here
    · exact waits
    · exact absurd waits (later.returned_ne (returned_of_path path here) caller)

/-- An answer in its slot is not with the holder of the pump. -/
theorem delivered_of_slot (owed : Owed before caller id outcome) {held : Outcome ν}
    (slot : before.pending.slots.lookup id = some (.answered held)) : Delivered before caller id outcome := by
  rcases owed.due with carried | delivered
  · rw [carried.slot] at slot
    cases slot
  · exact delivered

/-- A caller that does not fail takes an answer from its slot within eight moves of its own, and eight more
for each time the transport has no room for its message. -/
theorem moves_le (owed : Owed before caller id outcome) {held : Outcome ν}
    (slot : before.pending.slots.lookup id = some (.answered held))
    (path : conversation.Path before acts after) (room : conversation.Each Room before acts)
    (holds : conversation.Each (HoldsOut · caller id) before acts) (waits : after.Waits caller id) :
    acts.countP (fun act => act.thread? = some caller) ≤ 8 * (acts.countP Act.isRefused + 1) := by
  have last := owed.of_path path room holds
  have waiting : conversation.Each (fun world _ => world.Waits caller id) before acts := by
    rintro first act rest mid rfl leading
    obtain ⟨other, here, onward⟩ := path.split
    obtain rfl := leading.unique here
    exact (owed.of_path leading room.begin_ holds.begin_).waits_of_path onward last.sound.settled waits
  have counted := path.countP_le_of
    (I := fun world => Owed world caller id outcome ∧ Delivered world caller id outcome)
    (fun act => act.thread? = some caller) Act.isRefused 8 (fun world => (world.calls caller).toLook)
    ?_ ?_ ((room.and holds).and waiting) ⟨owed, owed.delivered_of_slot slot⟩
  · have most := (before.calls caller).toLook_le
    have least := toLook_pos waits (last.calm waits)
    omega
  · rintro before act after ⟨owed, delivered⟩ ⟨⟨room, holds⟩, -⟩ step
    have later := owed.step room holds step
    exact ⟨later, delivered.step owed.sound.table owed.sound.settled later.sound.settled step
      (owed.stays holds)⟩
  · rintro before act after ⟨owed, delivered⟩ ⟨⟨room, holds⟩, waits⟩ step
    rcases step_cases step with ⟨thread, of, -, others⟩ | ⟨none_, _, _, rfl⟩
    · by_cases same : thread = caller
      · subst same
        have near := (calm_turn waits (owed.calm waits) (holds waits) of step).2
          ⟨outcome, delivered.slot owed.sound.settled waits⟩
        simpa only [of, decide_true, if_true] using near
      · have other : act.thread? ≠ some caller := fun own => same (Option.some.inj (of.symm.trans own))
        simp [other, others caller (Ne.symm same)]
    · simp [none_]

end Owed

end Harkness.Transport
