import Harkness.Transport.Failing

/-! # What becomes of a response

A response for a request in the table is accepted once, and any other ends the conversation, in every
run where no caller gives up a request whose answer is in its slot. An answer that the transport has
handed over is what its request returns exactly where the caller does not fail before it is through.
-/

namespace Harkness.Transport

open Json

variable {T ν : Type} [DecidableEq T] {acts : List (Act T ν)} {world : World T ν}

/-- A response that is not accepted changes nothing, and its reader ends the conversation for it. -/
structure Desynchronizes (thread : T) (id : RequestId) (before after world : World T ν) : Prop where
  pending : after.pending = before.pending
  accepted : after.accepted = before.accepted
  ends : ∃ detail by_,
    (detail = DesyncDetail.unknownResponseId id ∨ detail = .duplicateResponseId id) ∧
      after.calls thread = .remember (.desynchronized detail) (.release by_) ∧
      (world.pending.terminal ≠ none ∨
        world.calls thread = .remember (.desynchronized detail) (.release by_))

/-- What becomes of a response by the time of a later world. -/
structure Correlates (thread : T) (response : Response ν) (before after world : World T ν) :
    Prop where
  /-- The first one is delivered to its waiter, or dropped where the waiter gave up. -/
  first : ∀ slot, before.pending.slots.lookup response.id = some slot →
    response.id ∉ before.accepted →
    after.accepted = before.accepted ++ [response.id] ∧
      after.pending.terminal = before.pending.terminal ∧
      (∃ by_, after.calls thread = .release by_ (.ok ())) ∧
      ((∃ caller, before.Waits caller response.id ∧
          Delivered world caller response.id response.outcome) ∨
        slot = .retired false ∧ after.returned = before.returned ∧
          after.pending.slots.lookup response.id = some (.retired true))
  second : response.id ∈ before.accepted → Desynchronizes thread response.id before after world
  unsent : response.id ∉ before.issued ∨ before.pending.slots.lookup response.id = none →
    Desynchronizes thread response.id before after world

/-- One answer to each request, and every response of a run accounted for. -/
structure Exact (acts : List (Act T ν)) (world : World T ν) : Prop where
  once : world.accepted.Nodup
  distinct : world.issued.Nodup
  bound : world.pending.retired.length ≤ retainedRequestIds
  remembered : (world.pending.slots.entries.countP fun entry => entry.2.isRetired) ≤
    retainedRequestIds
  correlates : ∀ leading thread trailing before after by_ response,
    acts = leading ++ .move thread :: trailing → conversation.Path .new leading before →
    before.calls thread = .route by_ (.response response) →
    conversation.step before (.move thread) = some after → conversation.Path after trailing world →
    Correlates thread response before after world

/-- The ids handed out so far are different ones. -/
theorem Table.issued_nodup (table : Table world) (few : world.issued.length ≤ 2 ^ 64) :
    world.issued.Nodup := by
  rw [table.issued]
  refine List.Nodup.map_on (fun first member second also same => ?_) List.nodup_range
  have small := List.mem_range.mp member
  have small' := List.mem_range.mp also
  exact idAfter_injective (by omega) (by omega) same

/-- A slot that is remembered as retired is one of those counted. -/
theorem Table.retired_count (table : Table world) :
    (world.pending.slots.entries.countP fun entry => entry.2.isRetired) ≤
      world.pending.retired.length := by
  rw [List.countP_eq_length_filter, ← List.length_map Sigma.fst]
  refine List.Subperm.length_le (List.subperm_of_subset ?_ fun id member => ?_)
  · exact world.pending.slots.nodupKeys.sublist List.filter_sublist
  · obtain ⟨entry, kept, rfl⟩ := List.mem_map.mp member
    obtain ⟨listed, retired⟩ := List.mem_filter.mp kept
    obtain ⟨id, slot⟩ := entry
    cases slot with
    | retired answered => exact (table.retired id).mpr ⟨answered, AList.mem_lookup_iff.mpr listed⟩
    | _ => cases retired

/-- Once a thread is about to record the end of a conversation, no later world has forgotten it. -/
private theorem ends_of_path {thread : T} {detail : DesyncDetail} {by_ : Caller ν}
    {after : World T ν} (path : conversation.Path after acts world)
    (phase : after.calls thread = .remember (.desynchronized detail) (.release by_)) :
    world.pending.terminal ≠ none ∨
      world.calls thread = .remember (.desynchronized detail) (.release by_) := by
  refine path.preserves (P := fun world => world.pending.terminal ≠ none ∨
    world.calls thread = .remember (.desynchronized detail) (.release by_)) ?_ (.inr phase)
  rintro before act after (over_ | here) step
  · exact .inl (terminal_step over_ step)
  · rcases step_cases step with ⟨mover, of, -, others⟩ | ⟨-, cancelled, now, rfl⟩
    · by_cases same : mover = thread
      · subst same
        obtain rfl := act_eq_move step of (by rw [here]; rfl)
        simp only [conversation, here, World.move] at step
        obtain rfl := Option.some.inj step
        exact .inl (terminal_remember (.inr rfl))
      · exact .inr ((others thread (Ne.symm same)).trans here)
    · exact .inr here

/-- A response that no slot takes. -/
private theorem desynchronizes {thread : T} {by_ : Caller ν} {response : Response ν}
    {before after : World T ν} (phase : before.calls thread = .route by_ (.response response))
    (step : conversation.step before (.move thread) = some after)
    (later : conversation.Path after acts world)
    (refused : ∀ slot, before.pending.slots.lookup response.id = some slot →
      slot.isAnswered = true) : Desynchronizes thread response.id before after world := by
  have lost : ∀ detail,
      (detail = DesyncDetail.unknownResponseId response.id ∨
        detail = .duplicateResponseId response.id) →
      after = before.goto thread (.remember (.desynchronized detail) (.release by_)) →
      Desynchronizes thread response.id before after world := by
    rintro detail which rfl
    have here : (before.goto thread (.remember (.desynchronized detail) (.release by_))).calls thread =
      .remember (.desynchronized detail) (.release by_) := World.goto_calls _ _
    exact ⟨rfl, rfl, detail, by_, which, here, ends_of_path later here⟩
  simp only [conversation, phase, World.move, World.route, World.routeResponse] at step
  split at step
  next held => cases refused _ held
  next held => cases refused _ held
  · exact lost _ (.inr rfl) (Option.some.inj step).symm
  · exact lost _ (.inr rfl) (Option.some.inj step).symm
  · exact lost _ (.inl rfl) (Option.some.inj step).symm

/-- No caller that heeds its slot gives up an answer that is in it. -/
private theorem stays_of_heeds {world : World T ν} {act : Act T ν} {caller : T} {id : RequestId}
    {outcome : Outcome ν} (delivered : Delivered world caller id outcome) (settled : Settled world)
    (heeds : Heeds world act) (thread : T) (moves : act = .move thread) :
    ¬world.GivesUp thread id := by
  intro gives
  rcases delivered.way with ⟨waits, slot⟩ | here
  · rcases gives with ⟨error, last, phase⟩ | ⟨-, -, unanswered⟩
    · exact heeds.seen thread id error last moves phase outcome slot
    · exact unanswered outcome slot
  · exact (settled.reported caller id _ (.inl here)).2 thread gives.request?

/-- An answer in its slot stays there until it is taken, in a run of callers that heed their slots. -/
private theorem delivered_of_path {before : World T ν} {caller : T} {id : RequestId}
    {outcome : Outcome ν} (path : conversation.Path before acts world)
    (heeds : conversation.Each Heeds before acts) (sound : Sound before)
    (delivered : Delivered before caller id outcome) : Delivered world caller id outcome := by
  have both := path.preserves_of (R := Heeds)
    (P := fun world => Sound world ∧ Delivered world caller id outcome) ?_ heeds ⟨sound, delivered⟩
  · exact both.2
  · rintro before act after ⟨sound, delivered⟩ heeds step
    have later := sound.step heeds.room step
    exact ⟨later, delivered.step sound.table sound.settled later.settled step
      (stays_of_heeds delivered sound.settled heeds)⟩

/-- The first response for a request that is remembered. -/
private theorem correlates_first {thread : T} {by_ : Caller ν} {response : Response ν}
    {before after : World T ν} {slot : Slot ν} (sound : Sound before) (room : Room before (.move thread))
    (phase : before.calls thread = .route by_ (.response response))
    (step : conversation.step before (.move thread) = some after)
    (later : conversation.Path after acts world) (heeds : conversation.Each Heeds after acts)
    (held : before.pending.slots.lookup response.id = some slot) (unused : slot.isAnswered = false) :
    after.accepted = before.accepted ++ [response.id] ∧
      after.pending.terminal = before.pending.terminal ∧
      (∃ by_, after.calls thread = .release by_ (.ok ())) ∧
      ((∃ caller, before.Waits caller response.id ∧
          Delivered world caller response.id response.outcome) ∨
        slot = .retired false ∧ after.returned = before.returned ∧
          after.pending.slots.lookup response.id = some (.retired true)) := by
  have soundLater := sound.step room step
  rcases step_cases step with ⟨mover, of, moved, others⟩ | ⟨none_, -⟩
  · obtain rfl := Option.some.inj of
    have stepped := step
    cases slot with
    | waiting =>
      obtain ⟨caller, waits⟩ := sound.settled.attended response.id .waiting held rfl
      have still := waits_route sound.table moved others phase waits
      simp only [conversation, phase, World.move, World.route, World.routeResponse, held] at stepped
      obtain rfl := Option.some.inj stepped
      refine ⟨rfl, rfl, ⟨by_, World.goto_calls _ _⟩, .inl ⟨caller, waits, ?_⟩⟩
      exact delivered_of_path later heeds soundLater
        (.held soundLater.settled still (AList.lookup_insert _))
    | answered outcome => cases unused
    | retired used =>
      cases used with
      | true => cases unused
      | false =>
        simp only [conversation, phase, World.move, World.route, World.routeResponse, held] at stepped
        obtain rfl := Option.some.inj stepped
        exact ⟨rfl, rfl, ⟨by_, World.goto_calls _ _⟩, .inr ⟨rfl, rfl, AList.lookup_insert _⟩⟩
  · cases none_

theorem correlation_exact (path : conversation.Path .new acts world)
    (heeds : conversation.Each Heeds .new acts) : Exact acts world := by
  have room : ∀ (world : World T ν) act, Heeds world act → Room world act := fun _ _ h => h.room
  have sound := sound_of_path path (heeds.imp room)
  have accounted := (table_of_path path heeds).2
  refine ⟨accounted.once, sound.table.issued_nodup sound.few, sound.table.bound,
    sound.table.retired_count.trans sound.table.bound, ?_⟩
  rintro leading thread trailing before after by_ response rfl first phase step later
  have soundBefore := sound_of_path first (heeds.begin_.imp room)
  have accountedBefore := (table_of_path first heeds.begin_).2
  have onward := heeds.rest first
  refine ⟨fun slot held unused => ?_, fun used => ?_, fun unsent => ?_⟩
  · refine correlates_first soundBefore onward.head.room phase step later (onward.tail step) held ?_
    exact Bool.eq_false_iff.mpr fun answered => unused ((accountedBefore.slots _ slot held).mp answered)
  · exact desynchronizes phase step later fun slot held => (accountedBefore.slots _ slot held).mpr used
  · refine desynchronizes phase step later fun slot held => ?_
    rcases unsent with unissued | absent
    · exact absurd (soundBefore.table.listed _ slot held) unissued
    · rw [absent] at held
      cases held

/-- Whether an act leaves ids and answers as `Heeds` asks for. -/
private def heedful (world : World T ν) (act : Act T ν) : Bool :=
  decide (world.issued.length < 2 ^ 64) &&
    match act with
    | .move thread =>
      match world.calls thread with
      | .retire id _ _ =>
        match world.pending.slots.lookup id with
        | some (.answered _) => false
        | _ => true
      | _ => true
    | _ => true

omit [DecidableEq T] in
private theorem heeds_of_heedful {world : World T ν} {act : Act T ν}
    (passed : heedful world act = true) : Heeds world act := by
  obtain ⟨room, seen⟩ := (Bool.and_eq_true _ _).mp passed
  refine ⟨fun _ _ _ _ _ => of_decide_eq_true room, ?_⟩
  rintro thread id error last rfl phase outcome held
  simp only [phase, held] at seen
  cases seen

private def sampleAnswer : Message ℕ := .response ⟨.number 1, .ok (.number 7)⟩

/-- A request asks, finds no answer and is about to look at the clock. -/
private def sampleAsk : List (Act Bool ℕ) :=
  [.begin_ false (.request "ask" none 1), .move false, .send false (.ok ()), .move false, .move false]

/-- A caller of `next_peer_message` reads the answer and routes it. -/
private def sampleRead : List (Act Bool ℕ) :=
  List.replicate 6 (.move true) ++ [.receive true (.ok (some sampleAnswer)), .move true]

/-- The deadline passes before the answer comes, and a second answer follows the first. -/
private def sampleLate : List (Act Bool ℕ) :=
  sampleAsk ++ [.tick, .move false, .move false, .begin_ true (.nextPeerMessage 9)] ++ sampleRead ++
    .move true :: sampleRead ++ [.move true]

theorem correlation_exact_sample : ∃ world : World Bool ℕ, Exact sampleLate world ∧
    world.accepted = [.number 1] ∧
    world.pending.terminal =
      some (.from_ (.desynchronized (.duplicateResponseId (.number 1)))) := by
  obtain ⟨world, ran⟩ : ∃ world, conversation.run? .new sampleLate = some world := ⟨_, rfl⟩
  have passed : conversation.checks heedful .new sampleLate = true := by decide
  have heeds := (Machine.each_of_checks passed).imp fun _ _ => heeds_of_heedful
  refine ⟨world, correlation_exact (Machine.run?_eq_some_iff.mp ran) heeds, ?_⟩
  obtain rfl := Option.some.inj ran
  exact ⟨rfl, rfl⟩

/-- The deadline passes after the answer came, and a second answer follows the first. -/
private def sampleTwice : List (Act Bool ℕ) :=
  sampleAsk ++ .begin_ true (.nextPeerMessage 9) :: sampleRead ++
    [.move true, .tick, .move false, .move false] ++ sampleRead

/-- A waiter that times out forgets that its answer came, and a second one is accepted. -/
theorem accepted_twice : ∃ world : World Bool ℕ, conversation.Path .new sampleTwice world ∧
    world.accepted = [.number 1, .number 1] ∧ ¬world.accepted.Nodup ∧
    world.pending.terminal = none ∧ world.calls true = .release (.peer 9) (.ok ()) := by
  obtain ⟨world, ran⟩ : ∃ world, conversation.run? .new sampleTwice = some world := ⟨_, rfl⟩
  refine ⟨world, Machine.run?_eq_some_iff.mp ran, ?_⟩
  obtain rfl := Option.some.inj ran
  exact ⟨rfl, by decide, rfl, rfl⟩

/-- An answer read from the transport is with the holder of the pump. -/
private theorem carried_of_receive {before after : World T ν} {leader caller : T} {id : RequestId}
    {outcome : Outcome ν} (sound : Sound before) (later : Settled after)
    (waits : before.Waits caller id) (unanswered : before.pending.slots.lookup id = some .waiting)
    (handed : conversation.step before (.receive leader (.ok (some (.response ⟨id, outcome⟩)))) =
      some after) : Carried after caller id outcome := by
  rcases step_cases handed with ⟨thread, of, moved, others⟩ | ⟨none_, -⟩
  · obtain rfl := Option.some.inj of
    have turn := requestTurn sound.table moved others waits
    simp only [conversation, World.receive] at handed
    split at handed
    next by_ phase =>
      obtain rfl := Option.some.inj handed
      cases turn with
      | still waits same =>
        exact ⟨waits, same.trans unanswered, ⟨leader, by_, World.goto_calls _ _⟩,
          later.unreported waits⟩
      | routed _ _ _ _ route => rw [phase] at route; cases route
      | collected _ _ look =>
        obtain ⟨_, look⟩ := look
        rw [phase] at look
        cases look
      | gaveUp _ gives =>
        have own := gives.isOwn
        rw [phase] at own
        cases own
    · cases handed
  · cases none_

/-- An answer read from the transport is on its way, where the caller of its request has not failed. -/
private theorem owed_of_receive {before after : World T ν} {leader caller : T} {id : RequestId}
    {outcome : Outcome ν} (sound : Sound before) (soundLater : Sound after)
    (waits : before.Waits caller id) (unanswered : before.pending.slots.lookup id = some .waiting)
    (handed : conversation.step before (.receive leader (.ok (some (.response ⟨id, outcome⟩)))) =
      some after) (calm : (before.calls caller).isFailing = false) : Owed after caller id outcome := by
  refine ⟨soundLater, .inl (carried_of_receive sound soundLater.settled waits unanswered handed), ?_⟩
  intro _
  rcases step_cases handed with ⟨thread, of, -, others⟩ | ⟨none_, -⟩
  · obtain rfl := Option.some.inj of
    by_cases same : caller = leader
    · subst same
      simp only [conversation, World.receive] at handed
      split at handed
      · obtain rfl := Option.some.inj handed
        rw [World.goto_calls]
        rfl
      · cases handed
    · rw [others caller same]
      exact calm
  · cases none_

/-- An error that was on its way to the caller of a request as the answer was read still is. -/
private theorem lost_of_receive {before after : World T ν} {leader caller : T} {id : RequestId}
    {message : Message ν} (waits : before.Waits caller id)
    (handed : conversation.step before (.receive leader (.ok (some message))) = some after)
    (failing : (before.calls caller).isFailing = true) : Lost after caller id := by
  rcases step_cases handed with ⟨thread, of, -, others⟩ | ⟨none_, -⟩
  · obtain rfl := Option.some.inj of
    have apart : caller ≠ leader := by
      rintro rfl
      simp only [conversation, World.receive] at handed
      split at handed
      next phase => rw [phase] at failing; cases failing
      · cases handed
    have kept := others caller apart
    exact .inl ⟨by rw [World.Waits, kept]; exact waits, by rw [kept]; exact failing⟩
  · cases none_

/-- A request has returned an answer, and nothing else. -/
def Returns (world : World T ν) (caller : T) (id : RequestId) (outcome : Outcome ν) : Prop :=
  (caller, .request id (.ok outcome)) ∈ world.returned ∧
    ∀ who result, world.Reports who id result → who = caller ∧ result = .ok outcome

/-- An answer that the transport hands over for a request in use is what the request returns, exactly where
no error is on the way to its caller and the caller does not fail until it is through. Where it does not fail
the answer is never lost on its way, and once it is in its slot the request goes on for eight moves of its
caller at most, and eight more for each time the transport has no room for its message. -/
theorem answer_due_iff {leading trailing : List (Act T ν)} {before after : World T ν}
    {leader caller : T} {id : RequestId} {outcome : Outcome ν}
    (room : conversation.Each Room .new
      (leading ++ .receive leader (.ok (some (.response ⟨id, outcome⟩))) :: trailing))
    (path : conversation.Path .new leading before) (waits : before.Waits caller id)
    (unanswered : before.pending.slots.lookup id = some .waiting)
    (handed : conversation.step before (.receive leader (.ok (some (.response ⟨id, outcome⟩)))) =
      some after)
    (later : conversation.Path after trailing world) :
    (¬world.Waits caller id → (Returns world caller id outcome ↔
      (before.calls caller).isFailing = false ∧
        conversation.Each (HoldsOut · caller id) after trailing)) ∧
    ((before.calls caller).isFailing = false →
      conversation.Each (HoldsOut · caller id) after trailing →
        Due world caller id outcome ∧
          ∀ first rest mid, trailing = first ++ rest → conversation.Path after first mid →
            mid.pending.slots.lookup id = some (.answered outcome) → world.Waits caller id →
              rest.countP (fun act => act.thread? = some caller) ≤ 8 * (rest.countP Act.isRefused + 1)) := by
  have sound := sound_of_path path room.begin_
  have onward := room.rest path
  have soundAfter := sound.step onward.head handed
  have roomLater := onward.tail handed
  have start (calm : (before.calls caller).isFailing = false) : Owed after caller id outcome :=
    owed_of_receive sound soundAfter waits unanswered handed calm
  refine ⟨fun through => ⟨fun returns => ?_, ?_⟩, fun calm holds => ⟨?_, ?_⟩⟩
  · -- a request that returns an error does not return the answer
    have unlost (lost : Lost world caller id) : False := by
      rcases lost with ⟨waits, -⟩ | ⟨error, reports⟩
      · exact through waits
      · cases (returns.2 caller _ reports).2
    refine ⟨Bool.eq_false_iff.mpr fun failing => ?_, ?_⟩
    · exact unlost ((lost_of_receive waits handed failing).of_path later)
    · rintro first act rest mid rfl leads waits fails
      obtain ⟨split, here, there⟩ := later.split
      obtain rfl := leads.unique here
      cases there with
      | cons step last => exact unlost (Lost.of_path (lost_of_fails waits fails step) last)
  · rintro ⟨calm, holds⟩
    rcases ((start calm).of_path later roomLater holds).due with carried | delivered
    · exact absurd carried.waits through
    · rcases delivered.way with ⟨waits, -⟩ | here
      · exact absurd waits through
      · exact ⟨here, delivered.only⟩
  · exact ((start calm).of_path later roomLater holds).due
  · rintro first rest mid rfl leads slot waits
    obtain ⟨split, here, there⟩ := later.split
    obtain rfl := leads.unique here
    have owed := (start calm).of_path leads roomLater.begin_ holds.begin_
    exact owed.moves_le slot there (roomLater.rest leads) (holds.rest leads) waits

/-- The request is about to lead when another caller has taken the pump and reads its answer. -/
private def sampleRace : List (Act Bool ℕ) :=
  [.begin_ false (.request "ask" none 9), .move false, .send false (.ok ()),
    .begin_ true (.nextPeerMessage 9)] ++ List.replicate 3 (.move false) ++
    List.replicate 6 (.move true)

private def sampleWaiting : World Bool ℕ := (conversation.run? .new sampleRace).get rfl

private def sampleReads : Act Bool ℕ := .receive true (.ok (some sampleAnswer))

private def sampleHanded : World Bool ℕ := (conversation.step sampleWaiting sampleReads).get rfl

private theorem sampleWaiting_path : conversation.Path .new sampleRace sampleWaiting :=
  Machine.run?_eq_some_iff.mp (Option.some_get _).symm

/-- The answer is routed, and the caller looks once more. -/
private def sampleCollects : List (Act Bool ℕ) :=
  [.move true, .move true, .move false, .move false, .receive false (.ok none), .move false,
    .move false]

/-- Whether the first caller does not fail in an act. -/
private def sampleHolds (world : World Bool ℕ) (act : Act Bool ℕ) : Bool :=
  match act with
  | .send false (.error (.failed _)) | .receive false (.error _) => false
  | .move false =>
    match world.calls false with
    | .route _ (.response _) => false
    | .gauge _ => !world.peers.isFull
    | .token _ => !world.cancelled
    | .clock caller => decide (world.now < caller.deadline)
    | .look (.answer _ _) => world.pending.terminal.isNone
    | _ => true
  | _ => true

private theorem holdsOut_of_sampleHolds (id : RequestId) {world : World Bool ℕ} {act : Act Bool ℕ}
    (passed : sampleHolds world act = true) : HoldsOut world false id act := by
  rintro - fails
  cases fails with
  | send error => cases passed
  | receive error => cases passed
  | route caller response phase lost => simp [sampleHolds, phase] at passed
  | gauge caller phase full => simp [sampleHolds, phase, full] at passed
  | token caller phase cancelled => simp [sampleHolds, phase, cancelled] at passed
  | clock caller phase late => simp [sampleHolds, phase, not_lt.mpr late] at passed
  | look id' deadline phase over_ unanswered =>
    simp only [sampleHolds, phase, Option.isNone_iff_eq_none] at passed
    exact over_ passed

theorem answer_due_iff_sample : ∃ world : World Bool ℕ,
    conversation.Path sampleHanded sampleCollects world ∧
      Returns world false (.number 1) (.ok (.number 7)) ∧
      world.returned = [(false, .request (.number 1) (.ok (.ok (.number 7))))] := by
  obtain ⟨world, last⟩ : ∃ world, conversation.run? sampleHanded sampleCollects = some world := ⟨_, rfl⟩
  have path := Machine.run?_eq_some_iff.mp last
  have passed : conversation.checks heedful .new (sampleRace ++ sampleReads :: sampleCollects) = true := by
    decide
  have room := (Machine.each_of_checks passed).imp fun _ _ passed => (heeds_of_heedful passed).room
  have kept : conversation.checks sampleHolds sampleHanded sampleCollects = true := by decide
  have holds := (Machine.each_of_checks kept).imp fun _ _ => holdsOut_of_sampleHolds (.number 1)
  have waits : sampleWaiting.Waits false (.number 1) := ⟨rfl, rfl⟩
  have through : ¬world.Waits false (.number 1) := by
    obtain rfl := Option.some.inj last
    rintro ⟨owner, -⟩
    cases owner
  refine ⟨world, path, ?_, ?_⟩
  · exact ((answer_due_iff room sampleWaiting_path waits rfl (Option.some_get _).symm path).1 through).mpr
      ⟨rfl, holds⟩
  · obtain rfl := Option.some.inj last
    rfl

/-- The answer is routed, and then the caller leads and meets the end of the peer. -/
private def sampleDisconnects : List (Act Bool ℕ) :=
  [.move true, .move true, .move false, .move false,
    .receive false (.error (.disconnected .idle)), .move false, .move false, .move false]

/-- A caller that leads after its answer was routed returns the error that it meets, though neither
its deadline had passed nor cancellation been asked for. -/
theorem answer_lost : conversation.Path .new sampleRace sampleWaiting ∧
    sampleWaiting.calls false = .lead (.answer (.number 1) 9) ∧
    sampleWaiting.pending.slots.lookup (.number 1) = some .waiting ∧
    conversation.step sampleWaiting sampleReads = some sampleHanded ∧
    ∃ world, conversation.Path sampleHanded sampleDisconnects world ∧ world.now < 9 ∧
      world.cancelled = false ∧
      world.returned =
        [(false, .request (.number 1) (.error (.disconnected .exitBeforeResponse)))] := by
  refine ⟨sampleWaiting_path, rfl, rfl, (Option.some_get _).symm, ?_⟩
  obtain ⟨world, last⟩ : ∃ world, conversation.run? sampleHanded sampleDisconnects = some world :=
    ⟨_, rfl⟩
  refine ⟨world, Machine.run?_eq_some_iff.mp last, ?_⟩
  obtain rfl := Option.some.inj last
  exact ⟨by decide, rfl, rfl⟩

end Harkness.Transport
