import Harkness.Transport.Correlation
import Harkness.Transport.Pump

/-! # An answer on its way to its caller

The transport hands an answer to the holder of the pump, which puts it in the slot of its request, and
the caller takes it from there at its next look. A caller that gives its request up between these
moves does so without a look, and the answer is lost, also as the one that has been used.
-/

namespace Harkness.Transport

open Json

variable {T ν : Type}

namespace World

/-- A thread works for a request that it has entered in the table. -/
def Waits (world : World T ν) (thread : T) (id : RequestId) : Prop :=
  (world.calls thread).request? = some id ∧ (world.calls thread).isRegister = false

/-- A thread has returned a result of a request, or is about to. -/
def Reports (world : World T ν) (thread : T) (id : RequestId)
    (result : Except TransportError (Outcome ν)) : Prop :=
  (thread, .request id result) ∈ world.returned ∨
    (world.calls thread).promised = some (.request id result)

end World

variable {thread : T} {before after : World T ν}

/-- A thread comes to a request as it allocates its id, and keeps it until it is finished with it. -/
theorem request_move (moved : TableMove thread before after) {id : RequestId}
    (owner : (after.calls thread).request? = some id) :
    (before.calls thread).request? = some id ∨
      before.calls thread = .idle ∧ id = .number before.nextId ∧
        ∃ message deadline,
          after.calls thread = .register (.number before.nextId) message deadline := by
  cases moved with
  | rest _ _ _ _ _ request => exact .inl (request ▸ owner)
  | opens id' message deadline idle fresh _ _ _ _ phase =>
    rw [phase] at owner
    cases owner
    exact .inr ⟨idle, fresh, message, deadline, fresh ▸ phase⟩
  | enters _ _ _ phase _ _ _ _ next =>
    rw [next] at owner
    rw [phase]
    exact .inl owner
  | refused _ _ _ _ _ _ _ _ _ next => rw [next] at owner; cases owner
  | collects _ _ _ _ _ _ _ _ _ next => rw [next] at owner; cases owner
  | abandons _ _ _ _ _ _ _ _ _ _ next => rw [next] at owner; cases owner
  | givesUp _ _ _ _ _ _ _ _ next => rw [next.1] at owner; cases owner
  | routes _ _ _ _ phase _ _ _ _ _ _ released =>
    rw [released] at owner
    rw [phase]
    exact .inl owner
  | keepsPromise _ _ _ _ _ _ _ next => rw [next] at owner; cases owner

theorem issued_move (moved : TableMove thread before after) {id : RequestId}
    (known : id ∈ before.issued) : id ∈ after.issued := by
  cases moved with
  | opens _ _ _ _ _ _ issued => exact issued ▸ List.mem_append_left _ known
  | rest _ _ issued => exact issued ▸ known
  | enters _ _ _ _ _ issued => exact issued ▸ known
  | refused _ _ _ _ _ _ issued => exact issued ▸ known
  | collects _ _ _ _ _ _ issued => exact issued ▸ known
  | abandons _ _ _ _ _ _ _ issued => exact issued ▸ known
  | givesUp _ _ _ _ _ issued => exact issued ▸ known
  | routes _ _ _ _ _ _ _ _ issued => exact issued ▸ known
  | keepsPromise _ _ _ _ issued => exact issued ▸ known

/-- An id is allocated as its request begins. -/
theorem issued_length (moved : TableMove thread before after) :
    after.issued.length = before.issued.length ∨
      before.calls thread = .idle ∧
        (∃ id message deadline, after.calls thread = .register id message deadline) ∧
        after.issued.length = before.issued.length + 1 := by
  cases moved with
  | opens id message deadline idle _ _ issued _ _ phase =>
    refine .inr ⟨idle, ⟨id, message, deadline, phase⟩, ?_⟩
    rw [issued, List.length_append, List.length_singleton]
  | rest _ _ issued => exact .inl (issued ▸ rfl)
  | enters _ _ _ _ _ issued => exact .inl (issued ▸ rfl)
  | refused _ _ _ _ _ _ issued => exact .inl (issued ▸ rfl)
  | collects _ _ _ _ _ _ issued => exact .inl (issued ▸ rfl)
  | abandons _ _ _ _ _ _ _ issued => exact .inl (issued ▸ rfl)
  | givesUp _ _ _ _ _ issued => exact .inl (issued ▸ rfl)
  | routes _ _ _ _ _ _ _ _ issued => exact .inl (issued ▸ rfl)
  | keepsPromise _ _ _ _ issued => exact .inl (issued ▸ rfl)

/-- What has been returned stays returned. -/
theorem returned_move (moved : TableMove thread before after) {entry : T × Return ν}
    (member : entry ∈ before.returned) : entry ∈ after.returned := by
  have appended : ∀ {last}, after.returned = before.returned ++ [last] → entry ∈ after.returned :=
    fun same => same ▸ List.mem_append_left _ member
  cases moved with
  | rest _ _ _ _ _ _ _ _ returned =>
    rcases returned with same | ⟨_, -, same⟩
    · exact same ▸ member
    · exact appended same
  | opens _ _ _ _ _ _ _ _ _ _ returned => exact returned ▸ member
  | enters _ _ _ _ _ _ _ _ _ returned => exact returned ▸ member
  | refused _ _ _ _ _ _ _ _ _ _ returned => exact appended returned
  | collects _ _ _ _ _ _ _ _ _ _ returned => exact appended returned
  | abandons _ _ _ _ _ _ _ _ _ _ _ returned => exact appended returned
  | givesUp _ _ _ _ _ _ _ _ _ returned =>
    rcases returned with ⟨-, same⟩ | ⟨-, same⟩
    · exact appended same
    · exact same ▸ member
  | routes _ _ _ _ _ _ _ _ _ _ _ _ returned => exact returned ▸ member
  | keepsPromise _ _ _ _ _ _ _ _ returned => exact appended returned

/-- Ids were left for a new request. -/
def Room (world : World T ν) (act : Act T ν) : Prop :=
  ∀ thread method params deadline, act = .begin_ thread (.request method params deadline) →
    world.issued.length < 2 ^ 64

/-- A request in use has its caller, and a result is one of a request that nobody works for. -/
structure Settled (world : World T ν) : Prop where
  attended : ∀ id slot, world.pending.slots.lookup id = some slot → slot.isRetired = false →
    ∃ thread, world.Waits thread id
  reported : ∀ thread id result, world.Reports thread id result →
    id ∈ world.issued ∧ ∀ other, (world.calls other).request? ≠ some id

theorem Settled.new : Settled (World.new : World T ν) where
  attended _ _ held := by cases held
  reported _ _ _ reports := by
    rcases reports with member | promised
    · cases member
    · cases promised

/-- A request that its caller works for has no result yet. -/
theorem Settled.unreported {world : World T ν} (settled : Settled world) {caller : T}
    {id : RequestId} (waits : world.Waits caller id) (who : T)
    (result : Except TransportError (Outcome ν)) : ¬world.Reports who id result := fun reports =>
  (settled.reported who id result reports).2 caller waits.1

variable [DecidableEq T]

/-- A result comes from the thread that works for its request, and is the end of that work. -/
theorem reports_move (moved : TableMove thread before after)
    (others : ∀ other, other ≠ thread → after.calls other = before.calls other) {who : T}
    {id : RequestId} {result : Except TransportError (Outcome ν)}
    (reports : after.Reports who id result) :
    before.Reports who id result ∨
      who = thread ∧ (before.calls thread).request? = some id ∧
        (after.calls thread).request? = none := by
  -- a promise is one of a thread that did not move, or made now
  have promise : (after.calls who).promised = some (.request id result) →
      (after.calls thread).promised = none → before.Reports who id result := by
    intro promised none_
    have apart : who ≠ thread := fun same => by rw [same, none_] at promised; cases promised
    exact .inr (others who apart ▸ promised)
  -- a return that is recorded now is the only new one
  have fresh : ∀ {entry : T × Return ν}, after.returned = before.returned ++ [entry] →
      (who, Return.request id result) ∈ after.returned →
      before.Reports who id result ∨ (who, Return.request id result) = entry := by
    intro entry returned member
    rw [returned] at member
    rcases List.mem_append.mp member with member | member
    · exact .inl (.inl member)
    · exact .inr (List.mem_singleton.mp member)
  cases moved with
  | rest _ _ _ _ _ _ _ unpromised returned =>
    refine .inl (reports.elim (fun member => ?_) fun promised => promise promised unpromised)
    rcases returned with same | ⟨other, plain, returned⟩
    · exact .inl (same ▸ member)
    · rcases fresh returned member with old | same
      · exact old
      · cases same
        exact plain.elim
  | opens _ _ _ _ _ _ _ _ _ phase returned =>
    refine .inl (reports.elim (fun member => .inl (returned ▸ member)) fun promised => ?_)
    exact promise promised (by rw [phase]; rfl)
  | enters _ _ _ _ _ _ _ _ next returned =>
    refine .inl (reports.elim (fun member => .inl (returned ▸ member)) fun promised => ?_)
    exact promise promised (by rw [next]; rfl)
  | refused _ _ _ _ phase _ _ _ _ next returned =>
    refine reports.elim (fun member => ?_) fun promised => .inl (promise promised (by rw [next]; rfl))
    rcases fresh returned member with old | same
    · exact .inl old
    · cases same
      exact .inr ⟨rfl, by rw [phase]; rfl, by rw [next]; rfl⟩
  | collects _ _ _ phase _ _ _ _ _ next returned =>
    refine reports.elim (fun member => ?_) fun promised => .inl (promise promised (by rw [next]; rfl))
    rcases fresh returned member with old | same
    · exact .inl old
    · cases same
      exact .inr ⟨rfl, by rw [phase]; rfl, by rw [next]; rfl⟩
  | abandons _ _ _ phase _ _ _ _ _ _ next returned =>
    refine reports.elim (fun member => ?_) fun promised => .inl (promise promised (by rw [next]; rfl))
    rcases fresh returned member with old | same
    · exact .inl old
    · cases same
      exact .inr ⟨rfl, by rw [phase]; rfl, by rw [next]; rfl⟩
  | givesUp _ _ _ phase _ _ _ _ next returned =>
    rcases returned with ⟨none_, returned⟩ | ⟨some_, returned⟩
    · refine reports.elim (fun member => ?_) fun promised => .inl (promise promised none_)
      rcases fresh returned member with old | same
      · exact .inl old
      · cases same
        exact .inr ⟨rfl, by rw [phase]; rfl, next.1⟩
    · refine reports.elim (fun member => .inl (.inl (returned ▸ member))) fun promised => ?_
      by_cases same : who = thread
      · rw [same, some_] at promised
        cases promised
        exact .inr ⟨same, by rw [phase]; rfl, next.1⟩
      · exact .inl (.inr (others who same ▸ promised))
  | routes _ _ _ _ _ _ _ _ _ _ _ released returned =>
    refine .inl (reports.elim (fun member => .inl (returned ▸ member)) fun promised => ?_)
    exact promise promised (by rw [released]; rfl)
  | keepsPromise kept promised_ _ _ _ _ _ next returned =>
    refine .inl (reports.elim (fun member => ?_) fun promised => promise promised (by rw [next]; rfl))
    rcases fresh returned member with old | same
    · exact old
    · cases same
      exact .inr promised_

namespace Settled

/-- Callers keep their requests while no slot comes into use. -/
private theorem attended_same (settled : Settled before)
    (others : ∀ other, other ≠ thread → after.calls other = before.calls other)
    (mover : ∀ id, before.Waits thread id → after.Waits thread id) {id : RequestId} {slot : Slot ν}
    (held : before.pending.slots.lookup id = some slot) (open_ : slot.isRetired = false) :
    ∃ who, after.Waits who id := by
  obtain ⟨who, waits⟩ := settled.attended id slot held open_
  refine ⟨who, ?_⟩
  by_cases same : who = thread
  · subst same
    exact mover id waits
  · rw [World.Waits, others who same]
    exact waits

/-- Where a request is retired, the callers of all others are still there. -/
private theorem attended_retire (settled : Settled before) (table : Table before) {id : RequestId}
    {answered : Bool} (owner : (before.calls thread).request? = some id)
    (entered : (before.calls thread).isRegister = false)
    (pending : after.pending = before.pending.retire id answered)
    (others : ∀ other, other ≠ thread → after.calls other = before.calls other)
    {other : RequestId} {slot : Slot ν} (held : after.pending.slots.lookup other = some slot)
    (open_ : slot.isRetired = false) : ∃ who, after.Waits who other := by
  have retires := table.retires answered owner entered
  rw [← pending] at retires
  have apart : other ≠ id := fun same => by
    rw [same, retires.here.1] at held
    cases held
    cases open_
  rcases retires.others other apart with ⟨kept, -⟩ | ⟨-, gone, -⟩
  · obtain ⟨who, waits⟩ := settled.attended other slot (kept ▸ held) open_
    have elsewhere : who ≠ thread := fun same => by
      rw [same, World.Waits, owner] at waits
      exact apart (Option.some.inj waits.1).symm
    refine ⟨who, ?_⟩
    rw [World.Waits, others who elsewhere]
    exact waits
  · rw [gone] at held
    cases held

theorem move (settled : Settled before) (table : Table before)
    (moved : TableMove thread before after)
    (others : ∀ other, other ≠ thread → after.calls other = before.calls other)
    (room : (∃ message deadline,
        after.calls thread = .register (.number before.nextId) message deadline) →
      before.calls thread = .idle → before.issued.length < 2 ^ 64) : Settled after := by
  refine ⟨fun id slot held open_ => ?_, fun who id result reports => ?_⟩
  · -- a thread that has no request has none to lose
    have idle : ∀ {phase : Phase ν}, before.calls thread = phase → phase.request? = none →
        ∀ id, before.Waits thread id → after.Waits thread id := by
      intro phase here none_ id waits
      rw [World.Waits, here, none_] at waits
      cases waits.1
    have entering : ∀ {id message deadline}, before.calls thread = .register id message deadline →
        ∀ id, before.Waits thread id → after.Waits thread id := by
      intro id message deadline here other waits
      rw [World.Waits, here] at waits
      cases waits.2
    cases moved with
    | rest slots _ _ _ _ request entered =>
      rw [slots] at held
      refine settled.attended_same others (fun id waits => ?_) held open_
      exact ⟨request.trans waits.1, entered.2⟩
    | opens _ _ _ here _ pending =>
      rw [pending] at held
      exact settled.attended_same others (idle here rfl) held open_
    | enters id' _ _ phase pending _ _ _ next =>
      rw [pending] at held
      by_cases same : id = id'
      · exact ⟨thread, by rw [next, same]; rfl, by rw [next]; rfl⟩
      · rw [AList.lookup_insert_ne same] at held
        exact settled.attended_same others (entering phase) held open_
    | refused _ _ _ _ phase pending =>
      rw [pending] at held
      exact settled.attended_same others (entering phase) held open_
    | collects _ _ _ phase _ pending =>
      exact settled.attended_retire table (by rw [phase]; rfl) (by rw [phase]; rfl) pending others
        held open_
    | abandons _ _ _ phase _ _ pending =>
      exact settled.attended_retire table (by rw [phase]; rfl) (by rw [phase]; rfl) pending others
        held open_
    | givesUp _ _ _ phase pending =>
      exact settled.attended_retire table (by rw [phase]; rfl) (by rw [phase]; rfl) pending others
        held open_
    | routes caller response old next phase found turned pending _ _ _ released =>
      rw [pending] at held
      have mover : ∀ id, before.Waits thread id → after.Waits thread id := fun id waits => by
        rw [World.Waits, phase] at waits
        rw [World.Waits, released]
        exact waits
      by_cases same : id = response.id
      · rw [same, AList.lookup_insert] at held
        cases held
        rcases turned with ⟨rfl, rfl⟩ | ⟨rfl, rfl⟩
        · exact same ▸ settled.attended_same others mover found rfl
        · cases open_
      · rw [AList.lookup_insert_ne same] at held
        exact settled.attended_same others mover held open_
    | keepsPromise _ promised slots _ _ _ _ next =>
      rw [slots] at held
      refine settled.attended_same others (fun id waits => ?_) held open_
      cases phase : before.calls thread with
      | remember error after_ =>
        rw [phase] at promised
        cases after_ with
        | done result => rw [World.Waits, phase] at waits; cases waits.1
        | _ => cases promised
      | _ => rw [phase] at promised; cases promised
  · have step : (after.calls thread).request? = some id → id ∈ before.issued →
        (before.calls thread).request? = some id := by
      intro owner known
      rcases request_move moved owner with owned | ⟨idle, rfl, register⟩
      · exact owned
      · exact absurd known (table.fresh (room register idle))
    rcases reports_move moved others reports with earlier | ⟨-, owner, left⟩
    · obtain ⟨known, nobody⟩ := settled.reported who id result earlier
      refine ⟨issued_move moved known, fun other owns => ?_⟩
      by_cases same : other = thread
      · rw [same] at owns
        exact nobody thread (step owns known)
      · rw [others other same] at owns
        exact nobody other owns
    · refine ⟨issued_move moved (table.known thread id owner), fun other owns => ?_⟩
      by_cases same : other = thread
      · rw [same, left] at owns
        cases owns
      · rw [others other same] at owns
        exact same (table.alone other thread id owns owner)

theorem step {act : Act T ν} (settled : Settled before) (table : Table before) (room : Room before act)
    (step : conversation.step before act = some after) : Settled after := by
  rcases step_cases step with ⟨thread, of, moved, others⟩ | ⟨-, cancelled, now, rfl⟩
  · refine settled.move table moved others ?_
    rintro ⟨message, deadline, phase⟩ idle
    obtain ⟨method, params, deadline, same⟩ := Table.request_of_register step of idle phase
    exact room thread method params deadline same
  · exact ⟨settled.attended, settled.reported⟩

end Settled

/-- The next move of a thread ends its request, unanswered. -/
def World.GivesUp (world : World T ν) (thread : T) (id : RequestId) : Prop :=
  (∃ error last, world.calls thread = .retire id error last) ∨
    (∃ deadline, world.calls thread = .look (.answer id deadline)) ∧ world.pending.terminal ≠ none ∧
      ∀ outcome, world.pending.slots.lookup id ≠ some (.answered outcome)

omit [DecidableEq T] in
theorem World.GivesUp.isOwn {world : World T ν} {id : RequestId} (gives : world.GivesUp thread id) :
    (world.calls thread).isOwn = true := by
  rcases gives with ⟨_, _, phase⟩ | ⟨⟨_, phase⟩, -⟩
  · rw [phase]
    rfl
  · rw [phase]
    rfl

omit [DecidableEq T] in
theorem World.GivesUp.request? {world : World T ν} {id : RequestId}
    (gives : world.GivesUp thread id) : (world.calls thread).request? = some id := by
  rcases gives with ⟨_, _, phase⟩ | ⟨⟨_, phase⟩, -⟩
  · rw [phase]
    rfl
  · rw [phase]
    rfl

/-- What a move means for a request in the table, whose caller is one of the threads. -/
inductive RequestTurn (thread caller : T) (id : RequestId) (before after : World T ν) : Prop where
  | still (waits : after.Waits caller id)
      (slot : after.pending.slots.lookup id = before.pending.slots.lookup id)
  | routed (by_ : Caller ν) (response : Response ν) (slot next : Slot ν)
      (phase : before.calls thread = .route by_ (.response response)) (here : response.id = id)
      (held : before.pending.slots.lookup id = some slot)
      (turned : slot = .waiting ∧ next = .answered response.outcome ∨
        slot = .retired false ∧ next = .retired true)
      (waits : after.Waits caller id) (now_ : after.pending.slots.lookup id = some next)
  | collected (own : caller = thread) (outcome : Outcome ν)
      (phase : ∃ deadline, before.calls thread = .look (.answer id deadline))
      (held : before.pending.slots.lookup id = some (.answered outcome))
      (returned : after.returned = before.returned ++ [(thread, .request id (.ok outcome))])
      (next : after.calls thread = .idle)
  | gaveUp (own : caller = thread) (gives : before.GivesUp thread id) (error : TransportError)
      (reports : after.Reports thread id (.error error))

/-- Another thread does nothing to a request but route an answer to it. -/
private theorem slot_apart (table : Table before) (moved : TableMove thread before after)
    (others : ∀ other, other ≠ thread → after.calls other = before.calls other) {caller : T}
    {id : RequestId} (waits : before.Waits caller id) (apart : caller ≠ thread) :
    RequestTurn thread caller id before after := by
  have waiting : after.Waits caller id := by
    rw [World.Waits, others caller apart]
    exact waits
  have foreign : ∀ {other}, (before.calls thread).request? = some other → id ≠ other :=
    fun owner same => apart (table.alone caller thread id waits.1 (same ▸ owner))
  have retired : ∀ {other answered}, (before.calls thread).request? = some other →
      (before.calls thread).isRegister = false →
      after.pending = before.pending.retire other answered →
      after.pending.slots.lookup id = before.pending.slots.lookup id := by
    intro other answered owner entered pending
    have retires := table.retires answered owner entered
    rw [← pending] at retires
    rcases retires.others id (foreign owner) with ⟨kept, -⟩ | ⟨member, -, -⟩
    · exact kept
    · obtain ⟨slot, held, open_⟩ := table.registered caller id waits.1 waits.2
      obtain ⟨_, found⟩ := (table.retired id).mp member
      rw [held] at found
      cases found
      cases open_
  cases moved with
  | rest slots => exact .still waiting (by rw [slots])
  | opens _ _ _ _ _ pending => exact .still waiting (by rw [pending])
  | enters _ _ _ phase pending =>
    refine .still waiting ?_
    rw [pending]
    exact AList.lookup_insert_ne (foreign (by rw [phase]; rfl))
  | refused _ _ _ _ _ pending => exact .still waiting (by rw [pending])
  | collects _ _ _ phase _ pending =>
    exact .still waiting (retired (by rw [phase]; rfl) (by rw [phase]; rfl) pending)
  | abandons _ _ _ phase _ _ pending =>
    exact .still waiting (retired (by rw [phase]; rfl) (by rw [phase]; rfl) pending)
  | givesUp _ _ _ phase pending =>
    exact .still waiting (retired (by rw [phase]; rfl) (by rw [phase]; rfl) pending)
  | routes by_ response slot next phase held turned pending =>
    by_cases here : response.id = id
    · refine .routed by_ response slot next phase here (here ▸ held) turned waiting ?_
      rw [pending, ← here]
      exact AList.lookup_insert _
    · refine .still waiting ?_
      rw [pending]
      exact AList.lookup_insert_ne (Ne.symm here)
  | keepsPromise _ _ slots => exact .still waiting (by rw [slots])

omit [DecidableEq T] in
/-- The caller of a request keeps it, collects its answer, or gives it up. -/
private theorem slot_own (moved : TableMove thread before after) {id : RequestId}
    (waits : before.Waits thread id) : RequestTurn thread thread id before after := by
  obtain ⟨owner, entered⟩ := waits
  cases moved with
  | rest slots _ _ _ _ request unentered =>
    exact .still ⟨request.trans owner, unentered.2⟩ (by rw [slots])
  | opens _ _ _ idle => rw [idle] at owner; cases owner
  | enters _ _ _ phase => rw [phase] at entered; cases entered
  | refused _ _ _ _ phase => rw [phase] at entered; cases entered
  | collects _ deadline outcome phase held _ _ _ _ next returned =>
    rw [phase] at owner
    cases owner
    exact .collected rfl outcome ⟨deadline, phase⟩ held returned next
  | abandons _ deadline error phase over_ unanswered _ _ _ _ _ returned =>
    rw [phase] at owner
    cases owner
    refine .gaveUp rfl (.inr ⟨⟨deadline, phase⟩, over_, unanswered⟩) error (.inl ?_)
    rw [returned]
    exact List.mem_append_right _ List.mem_cons_self
  | givesUp _ error last phase _ _ _ _ _ returned =>
    rw [phase] at owner
    cases owner
    refine .gaveUp rfl (.inl ⟨error, last, phase⟩) error ?_
    rcases returned with ⟨-, returned⟩ | ⟨promised, -⟩
    · rw [World.Reports, returned]
      exact .inl (List.mem_append_right _ List.mem_cons_self)
    · exact .inr promised
  | routes by_ response slot next phase held turned pending _ _ _ released =>
    have waits : after.Waits thread id := by
      rw [World.Waits, released]
      rw [phase] at owner
      exact ⟨owner, rfl⟩
    by_cases here : response.id = id
    · refine .routed by_ response slot next phase here (here ▸ held) turned waits ?_
      rw [pending, ← here]
      exact AList.lookup_insert _
    · refine .still waits ?_
      rw [pending]
      exact AList.lookup_insert_ne (Ne.symm here)
  | keepsPromise _ promised =>
    cases phase : before.calls thread with
    | remember error after_ =>
      rw [phase] at promised owner
      cases after_ with
      | done result => cases owner
      | _ => cases promised
    | _ => rw [phase] at promised; cases promised

theorem requestTurn (table : Table before) (moved : TableMove thread before after)
    (others : ∀ other, other ≠ thread → after.calls other = before.calls other) {caller : T}
    {id : RequestId} (waits : before.Waits caller id) :
    RequestTurn thread caller id before after := by
  by_cases own : caller = thread
  · subst own
    exact slot_own moved waits
  · exact slot_apart table moved others waits own

/-- Routing a message is not the end of a request. -/
theorem waits_route (table : Table before) (moved : TableMove thread before after)
    (others : ∀ other, other ≠ thread → after.calls other = before.calls other) {by_ : Caller ν}
    {message : Message ν} (route : before.calls thread = .route by_ message) {caller : T}
    {id : RequestId} (waits : before.Waits caller id) : after.Waits caller id := by
  cases requestTurn table moved others waits with
  | still waits _ => exact waits
  | routed _ _ _ _ _ _ _ _ waits _ => exact waits
  | collected _ _ phase =>
    obtain ⟨_, phase⟩ := phase
    rw [route] at phase
    cases phase
  | gaveUp _ gives =>
    rcases gives with ⟨_, _, phase⟩ | ⟨⟨_, phase⟩, -⟩
    · rw [route] at phase
      cases phase
    · rw [route] at phase
      cases phase

/-- The answer of a request is in its slot, for its caller to take, or it is what the request has
returned; there is no other result of the request. -/
structure Delivered (world : World T ν) (caller : T) (id : RequestId) (outcome : Outcome ν) :
    Prop where
  way : world.Waits caller id ∧ world.pending.slots.lookup id = some (.answered outcome) ∨
    (caller, .request id (.ok outcome)) ∈ world.returned
  only : ∀ who result, world.Reports who id result → who = caller ∧ result = .ok outcome
  /-- A look of the caller at the slot takes the answer, also where the conversation has ended. -/
  taken : ∀ deadline, world.calls caller = .look (.answer id deadline) →
    ∃ after, conversation.step world (.move caller) = some after ∧
      after.returned = world.returned ++ [(caller, .request id (.ok outcome))]

namespace Delivered

variable {caller : T} {id : RequestId} {outcome : Outcome ν}

/-- A caller whose request has returned does not look for an answer. -/
theorem of_way {world : World T ν} (settled : Settled world)
    (way : world.Waits caller id ∧ world.pending.slots.lookup id = some (.answered outcome) ∨
      (caller, .request id (.ok outcome)) ∈ world.returned)
    (only : ∀ who result, world.Reports who id result → who = caller ∧ result = .ok outcome) :
    Delivered world caller id outcome where
  way := way
  only := only
  taken deadline phase := by
    rcases way with ⟨-, slot⟩ | here
    · refine ⟨world.lookAnswer caller id deadline, ?_, ?_⟩
      · simp only [conversation, World.move, phase]
      · simp only [World.lookAnswer, slot]
        rfl
    · exact absurd (by rw [phase]; rfl) ((settled.reported caller id _ (.inl here)).2 caller)

theorem held {world : World T ν} (settled : Settled world) (waits : world.Waits caller id)
    (slot : world.pending.slots.lookup id = some (.answered outcome)) :
    Delivered world caller id outcome :=
  .of_way settled (.inl ⟨waits, slot⟩) fun who result reports =>
    absurd reports (settled.unreported waits who result)

/-- The answer of a request that its caller works for is in its slot. -/
theorem slot {world : World T ν} (delivered : Delivered world caller id outcome)
    (settled : Settled world) (waits : world.Waits caller id) :
    world.pending.slots.lookup id = some (.answered outcome) := by
  rcases delivered.way with ⟨-, slot⟩ | here
  · exact slot
  · exact absurd waits.1 ((settled.reported caller id _ (.inl here)).2 caller)

/-- The answer stays until its caller takes it, unless the caller gives up on it. -/
theorem move (delivered : Delivered before caller id outcome) (table : Table before)
    (settled : Settled before) (later : Settled after) (moved : TableMove thread before after)
    (others : ∀ other, other ≠ thread → after.calls other = before.calls other)
    (stays : ¬before.GivesUp thread id) : Delivered after caller id outcome := by
  rcases delivered.way with ⟨waits, slot⟩ | here
  · cases requestTurn table moved others waits with
    | still waits same => exact held later waits (same.trans slot)
    | routed by_ response old next phase here found turned =>
      rw [slot] at found
      cases found
      rcases turned with ⟨same, -⟩ | ⟨same, -⟩ <;> cases same
    | collected own found _ held_ returned next =>
      rw [slot] at held_
      cases held_
      subst own
      refine .of_way later (.inr (returned ▸ List.mem_append_right _ List.mem_cons_self))
        fun who result reports => ?_
      have none_ := settled.unreported waits
      rcases reports with member | promised
      · rw [returned] at member
        rcases List.mem_append.mp member with member | member
        · exact absurd (.inl member) (none_ who result)
        · cases List.mem_singleton.mp member
          exact ⟨rfl, rfl⟩
      · by_cases same : who = caller
        · rw [same, next] at promised
          cases promised
        · exact absurd (.inr (others who same ▸ promised)) (none_ who result)
    | gaveUp own gives => exact absurd gives stays
  · refine .of_way later (.inr (returned_move moved here)) fun who result reports => ?_
    rcases reports_move moved others reports with earlier | ⟨-, owner, -⟩
    · exact delivered.only who result earlier
    · exact absurd owner ((settled.reported caller id _ (.inl here)).2 thread)

theorem step {act : Act T ν} (delivered : Delivered before caller id outcome) (table : Table before)
    (settled : Settled before) (later : Settled after)
    (step : conversation.step before act = some after)
    (stays : ∀ thread, act = .move thread → ¬before.GivesUp thread id) :
    Delivered after caller id outcome := by
  rcases step_cases step with ⟨thread, of, moved, others⟩ | ⟨-, cancelled, now, rfl⟩
  · refine delivered.move table settled later moved others fun gives => ?_
    exact stays thread (act_eq_move step of gives.isOwn) gives
  · exact .of_way later delivered.way delivered.only

end Delivered

/-- The answer of a request is with the holder of the pump. -/
structure Carried (world : World T ν) (caller : T) (id : RequestId) (outcome : Outcome ν) :
    Prop where
  waits : world.Waits caller id
  slot : world.pending.slots.lookup id = some .waiting
  carrier : ∃ leader by_, world.calls leader = .route by_ (.response ⟨id, outcome⟩)
  unreported : ∀ who result, ¬world.Reports who id result

namespace Carried

variable {caller : T} {id : RequestId} {outcome : Outcome ν}

/-- Only the holder of the pump moves the answer, and it moves it to the slot. -/
theorem step {act : Act T ν} (carried : Carried before caller id outcome) (table : Table before)
    (later : Settled after) (kept : Kept before)
    (step : conversation.step before act = some after)
    (stays : ∀ thread, act = .move thread → ¬before.GivesUp thread id) :
    Carried after caller id outcome ∨ Delivered after caller id outcome := by
  obtain ⟨leader, by_, route⟩ := carried.carrier
  rcases step_cases step with ⟨thread, of, moved, others⟩ | ⟨-, cancelled, now, rfl⟩
  · by_cases here : thread = leader
    · subst here
      right
      have waits := waits_route table moved others route carried.waits
      obtain rfl := act_eq_move step of (by rw [route]; rfl)
      refine .held later waits ?_
      simp only [conversation, route, World.move, World.route, World.routeResponse, carried.slot] at step
      obtain rfl := Option.some.inj step
      exact AList.lookup_insert _
    · left
      have free : (before.calls thread).holds ≠ true := fun holds => by
        have held := (kept.holder leader).mp (by rw [route]; rfl)
        rw [(kept.holder thread).mp holds] at held
        exact here (Option.some.inj held)
      cases requestTurn table moved others carried.waits with
      | still waits same =>
        refine ⟨waits, same.trans carried.slot, ⟨leader, by_, ?_⟩, later.unreported waits⟩
        rw [others leader (Ne.symm here), route]
      | routed _ _ _ _ phase => exact absurd (by rw [phase]; rfl) free
      | collected _ _ _ held => rw [carried.slot] at held; cases held
      | gaveUp _ gives =>
        exact absurd gives (stays thread (act_eq_move step of gives.isOwn))
  · exact .inl ⟨carried.waits, carried.slot, carried.carrier, carried.unreported⟩

end Carried

/-- What holds of a connection while it has ids left. -/
structure Sound (world : World T ν) : Prop where
  table : Table world
  settled : Settled world
  kept : Kept world
  few : world.issued.length ≤ 2 ^ 64

theorem Sound.step {act : Act T ν} (sound : Sound before) (room : Room before act)
    (step : conversation.step before act = some after) : Sound after := by
  refine ⟨sound.table.step step room, sound.settled.step sound.table room step,
    sound.kept.step step, ?_⟩
  rcases step_cases step with ⟨thread, of, moved, -⟩ | ⟨-, cancelled, now, rfl⟩
  · rcases issued_length moved with same | ⟨idle, phase, more⟩
    · exact same ▸ sound.few
    · obtain ⟨id, message, deadline, phase⟩ := phase
      obtain ⟨method, params, deadline, here⟩ := Table.request_of_register step of idle phase
      rw [more]
      exact room thread method params deadline here
  · exact sound.few

section Runs

variable {acts first second : List (Act T ν)} {world mid : World T ν}

theorem sound_of_path (path : conversation.Path .new acts world)
    (room : conversation.Each Room .new acts) : Sound world :=
  path.preserves_of (P := Sound) (fun _ _ _ sound room step => sound.step room step) room
    ⟨.new, .new, .new, Nat.zero_le _⟩

end Runs

end Harkness.Transport
