import Harkness.Transport.ConnectionTable

/-! # Which answers reach their callers

While fewer than all numbers have been allocated, ids name requests: a request in the table belongs to
one thread, which is the only one to finish with it. An answer then reaches its caller unless the
caller gives up on it unseen, and the one answer a request is due is told from a second one.
-/

namespace Harkness.Transport

open Json

variable {T ν : Type}

namespace Pending

theorem evict_of_le {slots : Slots ν} {retired : List RequestId}
    (within : retired.length ≤ retainedRequestIds) : evict slots retired = (slots, retired) := by
  cases retired with
  | nil => rfl
  | cons evicted retired => rw [evict, if_neg (not_lt.mpr within)]

theorem evict_of_full {slots : Slots ν} {evicted : RequestId} {retired : List RequestId}
    (full : retired.length = retainedRequestIds) :
    evict slots (evicted :: retired) = (slots.erase evicted, retired) := by
  rw [evict, if_pos (by rw [List.length_cons, full]; exact Nat.lt_succ_self _),
    evict_of_le full.le]

/-- Retiring an id makes room by forgetting at most the oldest. -/
theorem retire_cases {self : Pending ν} (id : RequestId) (answered : Bool)
    (bound : self.retired.length ≤ retainedRequestIds) :
    self.retired.length < retainedRequestIds ∧ self.retire id answered =
        { self with
          slots := self.slots.insert id (.retired answered)
          retired := self.retired ++ [id] } ∨
      ∃ oldest rest, self.retired = oldest :: rest ∧ self.retired.length = retainedRequestIds ∧
        self.retire id answered =
          { self with
            slots := (self.slots.insert id (.retired answered)).erase oldest
            retired := rest ++ [id] } := by
  rcases bound.lt_or_eq with room | full
  · refine .inl ⟨room, ?_⟩
    rw [retire, evict_of_le (by rw [List.length_append]; exact room)]
  · refine .inr ?_
    cases same : self.retired with
    | nil => rw [same] at full; cases full
    | cons oldest rest =>
      rw [same] at full
      refine ⟨oldest, rest, rfl, full, ?_⟩
      rw [retire, same, List.cons_append, evict_of_full]
      rw [← full]
      simp

/-- What retiring an id does: it is kept as retired, and every other id stays as it was, but for the
oldest retired one, which may be forgotten. -/
structure Retires (id : RequestId) (answered : Bool) (before after : Pending ν) : Prop where
  here : after.slots.lookup id = some (.retired answered) ∧ id ∈ after.retired
  others : ∀ other, other ≠ id →
    after.slots.lookup other = before.slots.lookup other ∧
        (other ∈ after.retired ↔ other ∈ before.retired) ∨
      other ∈ before.retired ∧ after.slots.lookup other = none ∧ other ∉ after.retired
  distinct : after.retired.Nodup
  bound : after.retired.length ≤ retainedRequestIds

theorem retires {self : Pending ν} {id : RequestId} {answered : Bool}
    (bound : self.retired.length ≤ retainedRequestIds) (distinct : self.retired.Nodup)
    (out : id ∉ self.retired) : Retires id answered self (self.retire id answered) := by
  rcases retire_cases id answered bound with
    ⟨room, same⟩ | ⟨oldest, rest, old, full, same⟩
  · rw [same]
    refine ⟨⟨AList.lookup_insert _, List.mem_append_right _ List.mem_cons_self⟩, ?_, ?_, ?_⟩
    · intro other apart
      refine .inl ⟨AList.lookup_insert_ne apart, ?_⟩
      rw [List.mem_append, List.mem_singleton, or_iff_left apart]
    · exact List.nodup_append'.mpr ⟨distinct, List.nodup_singleton _, by simpa using out⟩
    · rw [List.length_append]
      exact room
  · rw [same]
    rw [old] at distinct out full
    obtain ⟨first, apartRest⟩ := List.nodup_cons.mp distinct
    obtain ⟨notOldest, notRest⟩ := not_or.mp (List.mem_cons.not.mp out)
    refine ⟨⟨?_, List.mem_append_right _ List.mem_cons_self⟩, ?_, ?_, ?_⟩
    · rw [AList.lookup_erase_ne notOldest, AList.lookup_insert]
    · intro other apart
      by_cases oldest_ : other = oldest
      · subst oldest_
        refine .inr ⟨old ▸ List.mem_cons_self, AList.lookup_erase _ _, ?_⟩
        rw [List.mem_append, List.mem_singleton]
        exact not_or.mpr ⟨first, apart⟩
      · refine .inl ⟨?_, ?_⟩
        · rw [AList.lookup_erase_ne oldest_, AList.lookup_insert_ne apart]
        · rw [old, List.mem_append, List.mem_singleton, or_iff_left apart, List.mem_cons,
            or_iff_right oldest_]
    · exact List.nodup_append'.mpr ⟨apartRest, List.nodup_singleton _, by simpa using notRest⟩
    · rw [List.length_append, ← full]
      rfl

end Pending

/-- The id of the request after `count` others. -/
def idAfter (count : ℕ) : RequestId := .number (Int64.ofInt (count + 1))

theorem idAfter_injective {first second : ℕ} (small : first < 2 ^ 64) (small' : second < 2 ^ 64)
    (same : idAfter first = idAfter second) : first = second := by
  have numbers := congrArg Int64.toInt (RequestId.number.inj same)
  rw [Int64.toInt_ofInt, Int64.toInt_ofInt, Int.bmod_def, Int.bmod_def] at numbers
  have size : ((Int64.size : ℕ) : ℤ) = 18446744073709551616 := rfl
  simp only [size] at numbers
  omega

/-- Who is the caller of which request, and what the table says about it. -/
structure Table [DecidableEq T] (world : World T ν) : Prop where
  issued : world.issued = (List.range world.issued.length).map idAfter
  nextId : world.nextId = Int64.ofInt (world.issued.length + 1)
  known : ∀ thread id, (world.calls thread).request? = some id → id ∈ world.issued
  alone : ∀ thread other id, (world.calls thread).request? = some id →
    (world.calls other).request? = some id → thread = other
  unregistered : ∀ thread id, (world.calls thread).request? = some id →
    (world.calls thread).isRegister = true → world.pending.slots.lookup id = none
  registered : ∀ thread id, (world.calls thread).request? = some id →
    (world.calls thread).isRegister = false →
    ∃ slot, world.pending.slots.lookup id = some slot ∧ slot.isRetired = false
  retired : ∀ id, id ∈ world.pending.retired ↔
    ∃ answered, world.pending.slots.lookup id = some (.retired answered)
  distinct : world.pending.retired.Nodup
  bound : world.pending.retired.length ≤ retainedRequestIds
  listed : ∀ id slot, world.pending.slots.lookup id = some slot → id ∈ world.issued

namespace Table

variable [DecidableEq T] {thread : T} {before after : World T ν}

theorem new : Table (World.new : World T ν) where
  issued := rfl
  nextId := rfl
  known _ _ owner := by cases owner
  alone _ _ _ owner := by cases owner
  unregistered _ _ owner := by cases owner
  registered _ _ owner := by cases owner
  retired id := by simp [World.new]
  distinct := List.nodup_nil
  bound := Nat.zero_le _
  listed _ _ held := by cases held

/-- The next id is none of those allocated, as long as there are others left. -/
theorem fresh (table : Table before) (room : before.issued.length < 2 ^ 64) :
    RequestId.number before.nextId ∉ before.issued := by
  intro member
  rw [table.issued, table.nextId] at member
  obtain ⟨earlier, within, same⟩ := List.mem_map.mp member
  have small := List.mem_range.mp within
  have equal := idAfter_injective (small.trans room) room same
  omega

/-- The table is left alone, and no thread comes to a request. -/
theorem same (table : Table before) (slots : after.pending.slots = before.pending.slots)
    (retired : after.pending.retired = before.pending.retired) (issued : after.issued = before.issued)
    (nextId : after.nextId = before.nextId)
    (owners : ∀ thread id, (after.calls thread).request? = some id →
      (before.calls thread).request? = some id ∧
        (after.calls thread).isRegister = (before.calls thread).isRegister) : Table after where
  issued := by rw [issued]; exact table.issued
  nextId := by rw [nextId, issued]; exact table.nextId
  known thread id owner := issued ▸ table.known thread id (owners thread id owner).1
  alone thread other id owner also :=
    table.alone thread other id (owners thread id owner).1 (owners other id also).1
  unregistered thread id owner entering := by
    rw [slots]
    exact table.unregistered thread id (owners thread id owner).1 ((owners thread id owner).2 ▸ entering)
  registered thread id owner entered := by
    rw [slots]
    exact table.registered thread id (owners thread id owner).1 ((owners thread id owner).2 ▸ entered)
  retired id := by rw [slots, retired]; exact table.retired id
  distinct := retired ▸ table.distinct
  bound := retired ▸ table.bound
  listed id slot held := by
    rw [slots] at held
    exact issued ▸ table.listed id slot held

/-- A slot changes, of an id that is allocated and not retired on either side, or retired on both. -/
theorem insert (table : Table before) {id : RequestId} {slot : Slot ν}
    (pending : after.pending =
      { before.pending with slots := before.pending.slots.insert id slot })
    (known : id ∈ before.issued) (issued : after.issued = before.issued)
    (nextId : after.nextId = before.nextId)
    (still : slot.isRetired = true ↔ id ∈ before.pending.retired)
    (owners : ∀ thread other, (after.calls thread).request? = some other →
      (before.calls thread).request? = some other ∧
        ((after.calls thread).isRegister = (before.calls thread).isRegister ∧
          (other = id → (before.calls thread).isRegister = false) ∨
        other = id ∧ (after.calls thread).isRegister = false)) : Table after where
  issued := by rw [issued]; exact table.issued
  nextId := by rw [nextId, issued]; exact table.nextId
  known thread other owner := issued ▸ table.known thread other (owners thread other owner).1
  alone thread other id owner also :=
    table.alone thread other id (owners thread id owner).1 (owners other id also).1
  unregistered thread other owner entering := by
    obtain ⟨owned, ⟨same, entered⟩ | ⟨-, entered⟩⟩ := owners thread other owner
    · rw [same] at entering
      have apart : other ≠ id := fun same => by rw [entered same] at entering; cases entering
      rw [pending]
      exact (AList.lookup_insert_ne apart).trans (table.unregistered thread other owned entering)
    · rw [entered] at entering
      cases entering
  registered thread other owner entered := by
    rw [pending]
    by_cases here : other = id
    · subst here
      refine ⟨slot, AList.lookup_insert _, Bool.eq_false_iff.mpr fun retired => ?_⟩
      obtain ⟨owned, -⟩ := owners thread other owner
      obtain ⟨answered, held⟩ := (table.retired other).mp (still.mp retired)
      cases entering : (before.calls thread).isRegister with
      | true => rw [table.unregistered thread other owned entering] at held; cases held
      | false =>
        obtain ⟨open_, found, unretired⟩ := table.registered thread other owned entering
        rw [held] at found
        obtain rfl := Option.some.inj found
        cases unretired
    · obtain ⟨owned, ⟨same, -⟩ | ⟨elsewhere, -⟩⟩ := owners thread other owner
      · rw [AList.lookup_insert_ne here]
        exact table.registered thread other owned (same ▸ entered)
      · exact absurd elsewhere here
  retired other := by
    rw [pending]
    by_cases here : other = id
    · subst here
      rw [AList.lookup_insert, ← still]
      cases slot <;> simp [Slot.isRetired]
    · rw [AList.lookup_insert_ne here]
      exact table.retired other
  distinct := by rw [pending]; exact table.distinct
  bound := by rw [pending]; exact table.bound
  listed other held found := by
    rw [issued]
    rw [pending] at found
    by_cases here : other = id
    · exact here ▸ known
    · rw [AList.lookup_insert_ne here] at found
      exact table.listed other held found

/-- A request in use is none of those retired. -/
theorem retires (table : Table before) {id : RequestId} (answered : Bool)
    (owner : (before.calls thread).request? = some id)
    (entered : (before.calls thread).isRegister = false) :
    Pending.Retires id answered before.pending (before.pending.retire id answered) := by
  obtain ⟨slot, held, open_⟩ := table.registered thread id owner entered
  refine Pending.retires table.bound table.distinct fun member => ?_
  obtain ⟨_, found⟩ := (table.retired id).mp member
  rw [held] at found
  obtain rfl := Option.some.inj found
  cases open_

/-- The caller of a request is finished with it. -/
theorem retire (table : Table before) {id : RequestId} {answered : Bool}
    (owner : (before.calls thread).request? = some id)
    (entered : (before.calls thread).isRegister = false)
    (pending : after.pending = before.pending.retire id answered)
    (issued : after.issued = before.issued) (nextId : after.nextId = before.nextId)
    (left : (after.calls thread).request? = none)
    (others : ∀ other, other ≠ thread → after.calls other = before.calls other) : Table after := by
  have retires := table.retires answered owner entered
  rw [← pending] at retires
  have owners : ∀ other request, (after.calls other).request? = some request →
      (before.calls other).request? = some request ∧ request ≠ id ∧
        after.calls other = before.calls other := by
    intro other request owns
    have apart : other ≠ thread := fun same => by rw [same, left] at owns; cases owns
    rw [others other apart] at owns ⊢
    refine ⟨owns, fun same => apart ?_, rfl⟩
    exact table.alone other thread id (same ▸ owns) owner
  refine
    { issued := by rw [issued]; exact table.issued
      nextId := by rw [nextId, issued]; exact table.nextId
      known := fun other request owns => issued ▸ table.known other request (owners other request owns).1
      alone := fun first second request owns also => table.alone first second request
        (owners first request owns).1 (owners second request also).1
      unregistered := fun other request owns entering => ?_
      registered := fun other request owns entered => ?_
      retired := fun request => ?_
      distinct := retires.distinct
      bound := retires.bound
      listed := fun request slot found => ?_ }
  · obtain ⟨owned, apart, same⟩ := owners other request owns
    rcases retires.others request apart with ⟨kept, -⟩ | ⟨-, gone, -⟩
    · rw [kept]
      exact table.unregistered other request owned (same ▸ entering)
    · exact gone
  · obtain ⟨owned, apart, same⟩ := owners other request owns
    obtain ⟨slot, found, unretired⟩ := table.registered other request owned (same ▸ entered)
    rcases retires.others request apart with ⟨kept, -⟩ | ⟨retired, -, -⟩
    · exact ⟨slot, kept.trans found, unretired⟩
    · obtain ⟨_, elsewhere⟩ := (table.retired request).mp retired
      rw [found] at elsewhere
      obtain rfl := Option.some.inj elsewhere
      cases unretired
  · by_cases here : request = id
    · subst here
      exact iff_of_true retires.here.2 ⟨answered, retires.here.1⟩
    · rcases retires.others request here with ⟨kept, same⟩ | ⟨-, gone, out⟩
      · rw [kept, same]
        exact table.retired request
      · rw [gone]
        refine iff_of_false out ?_
        rintro ⟨_, found⟩
        cases found
  · rw [issued]
    by_cases here : request = id
    · exact here ▸ table.known thread id owner
    · rcases retires.others request here with ⟨kept, -⟩ | ⟨-, gone, -⟩
      · exact table.listed request slot (kept.symm.trans found)
      · rw [gone] at found
        cases found

/-- A new request takes the next id. -/
theorem opens (table : Table before) (room : before.issued.length < 2 ^ 64) {message : Message ν}
    {deadline : ℕ} (idle : before.calls thread = .idle) (pending : after.pending = before.pending)
    (issued : after.issued = before.issued ++ [.number before.nextId])
    (nextId : after.nextId = before.nextId + 1)
    (phase : after.calls thread = .register (.number before.nextId) message deadline)
    (others : ∀ other, other ≠ thread → after.calls other = before.calls other) : Table after := by
  have length : after.issued.length = before.issued.length + 1 := by
    rw [issued, List.length_append, List.length_singleton]
  have owns : ∀ other id, (after.calls other).request? = some id →
      other = thread ∧ id = .number before.nextId ∨
        other ≠ thread ∧ (before.calls other).request? = some id := by
    intro other id owner
    by_cases same : other = thread
    · rw [same, phase] at owner
      exact .inl ⟨same, (Option.some.inj owner).symm⟩
    · rw [others other same] at owner
      exact .inr ⟨same, owner⟩
  have unknown : ∀ other id, (before.calls other).request? = some id → id ≠ .number before.nextId :=
    fun other id owner same => table.fresh room (same ▸ table.known other id owner)
  refine
    { issued := ?_
      nextId := ?_
      known := fun other id owner => ?_
      alone := fun first second id owner also => ?_
      unregistered := fun other id owner entering => ?_
      registered := fun other id owner entered => ?_
      retired := by rw [pending]; exact table.retired
      distinct := by rw [pending]; exact table.distinct
      bound := by rw [pending]; exact table.bound
      listed := fun id slot found => ?_ }
  · rw [length, List.range_succ, List.map_append, ← table.issued, issued, table.nextId]
    rfl
  · rw [nextId, table.nextId, length]
    exact (Int64.ofInt_add _ 1).symm
  · rw [issued]
    rcases owns other id owner with ⟨-, rfl⟩ | ⟨-, owned⟩
    · exact List.mem_append_right _ List.mem_cons_self
    · exact List.mem_append_left _ (table.known other id owned)
  · rcases owns first id owner with ⟨here, same⟩ | ⟨-, owned⟩
    · rcases owns second id also with ⟨there, -⟩ | ⟨-, owned⟩
      · exact here.trans there.symm
      · exact absurd same (unknown second id owned)
    · rcases owns second id also with ⟨-, same⟩ | ⟨-, also⟩
      · exact absurd same (unknown first id owned)
      · exact table.alone first second id owned also
  · rw [pending]
    rcases owns other id owner with ⟨-, rfl⟩ | ⟨apart, owned⟩
    · cases found : before.pending.slots.lookup (.number before.nextId) with
      | none => rfl
      | some slot => exact absurd (table.listed _ slot found) (table.fresh room)
    · rw [others other apart] at entering
      exact table.unregistered other id owned entering
  · rw [pending]
    rcases owns other id owner with ⟨rfl, -⟩ | ⟨apart, owned⟩
    · rw [phase] at entered
      cases entered
    · rw [others other apart] at entered
      exact table.registered other id owned entered
  · rw [issued]
    rw [pending] at found
    exact List.mem_append_left _ (table.listed id slot found)

/-- Every move keeps the table in order, as long as ids are left. -/
theorem move (table : Table before) (moved : TableMove thread before after)
    (others : ∀ other, other ≠ thread → after.calls other = before.calls other)
    (room : (∃ message deadline,
        after.calls thread = .register (.number before.nextId) message deadline) →
      before.calls thread = .idle → before.issued.length < 2 ^ 64) : Table after := by
  cases moved with
  | rest slots retired issued nextId _ request entered =>
    refine table.same slots retired issued nextId fun other id owner => ?_
    by_cases same : other = thread
    · subst same
      exact ⟨request ▸ owner, entered.2.trans entered.1.symm⟩
    · rw [others other same] at owner ⊢
      exact ⟨owner, rfl⟩
  | opens id message deadline idle fresh pending issued _ nextId phase =>
    subst fresh
    exact table.opens (room ⟨message, deadline, phase⟩ idle) idle pending issued nextId phase others
  | enters id message deadline phase pending issued nextId _ next =>
    have owner : (before.calls thread).request? = some id := by rw [phase]; rfl
    have absent := table.unregistered thread id owner (by rw [phase]; rfl)
    refine table.insert pending (table.known thread id owner) issued nextId ?_ fun other request owns => ?_
    · refine iff_of_false Bool.false_ne_true fun member => ?_
      obtain ⟨_, found⟩ := (table.retired id).mp member
      rw [absent] at found
      cases found
    · by_cases same : other = thread
      · subst same
        rw [next] at owns ⊢
        obtain rfl := Option.some.inj owns
        exact ⟨owner, .inr ⟨rfl, rfl⟩⟩
      · rw [others other same] at owns ⊢
        refine ⟨owns, .inl ⟨rfl, fun here => ?_⟩⟩
        exact absurd (table.alone other thread request owns (here ▸ owner)) same
  | refused id message deadline error phase pending issued nextId _ next =>
    refine table.same (by rw [pending]) (by rw [pending]) issued nextId fun other request owns => ?_
    by_cases same : other = thread
    · subst same
      rw [next] at owns
      cases owns
    · rw [others other same] at owns ⊢
      exact ⟨owns, rfl⟩
  | collects id deadline outcome phase held pending issued nextId _ next =>
    exact table.retire (by rw [phase]; rfl) (by rw [phase]; rfl) pending issued nextId
      (by rw [next]; rfl) others
  | abandons id deadline error phase over_ unanswered pending issued nextId _ next =>
    exact table.retire (by rw [phase]; rfl) (by rw [phase]; rfl) pending issued nextId
      (by rw [next]; rfl) others
  | givesUp id error last phase pending issued nextId _ next =>
    exact table.retire (by rw [phase]; rfl) (by rw [phase]; rfl) pending issued nextId next.1 others
  | routes caller response slot next phase held turned pending issued nextId _ released =>
    refine table.insert pending (table.listed _ slot held) issued nextId ?_ fun other request owns => ?_
    · rw [table.retired, held]
      rcases turned with ⟨rfl, rfl⟩ | ⟨rfl, rfl⟩
      · refine iff_of_false Bool.false_ne_true ?_
        rintro ⟨_, found⟩
        cases found
      · exact iff_of_true rfl ⟨false, rfl⟩
    · have unentered : request = response.id → (before.calls other).request? = some request →
          (before.calls other).isRegister = false := by
        rintro rfl owned
        cases entering : (before.calls other).isRegister with
        | false => rfl
        | true => rw [table.unregistered other _ owned entering] at held; cases held
      by_cases same : other = thread
      · subst same
        have owned : (before.calls other).request? = some request := by
          rw [released] at owns
          rw [phase]
          exact owns
        refine ⟨owned, .inl ⟨?_, fun here => unentered here owned⟩⟩
        rw [released, phase]
        rfl
      · rw [others other same] at owns ⊢
        exact ⟨owns, .inl ⟨rfl, fun here => unentered here owns⟩⟩
  | keepsPromise result promised slots retired issued nextId _ next =>
    refine table.same slots retired issued nextId fun other request owns => ?_
    by_cases same : other = thread
    · subst same
      rw [next] at owns
      cases owns
    · rw [others other same] at owns ⊢
      exact ⟨owns, rfl⟩

/-- Only a call of `request` comes to a fresh id. -/
theorem request_of_register {act : Act T ν} {id : RequestId} {message : Message ν}
    {deadline : ℕ} (step : conversation.step before act = some after) (of : act.thread? = some thread)
    (idle : before.calls thread = .idle) (phase : after.calls thread = .register id message deadline) :
    ∃ method params deadline, act = .begin_ thread (.request method params deadline) := by
  cases act with
  | begin_ other call =>
    obtain rfl := Option.some.inj of
    simp only [conversation, idle] at step
    obtain rfl := Option.some.inj step
    cases call with
    | request method params deadline => exact ⟨_, _, _, rfl⟩
    | notify method params deadline => cases (World.goto_calls _ _).symm.trans phase
    | respond id outcome deadline => cases (World.goto_calls _ _).symm.trans phase
    | nextPeerMessage deadline => cases (World.goto_calls _ _).symm.trans phase
  | move other =>
    obtain rfl := Option.some.inj of
    simp only [conversation, idle, World.move] at step
    cases step
  | send other result =>
    obtain rfl := Option.some.inj of
    simp only [conversation, idle, World.trySend] at step
    cases step
  | receive other result =>
    obtain rfl := Option.some.inj of
    simp only [conversation, idle, World.receive] at step
    cases step
  | tick => cases of
  | cancel => cases of

theorem step {act : Act T ν} (table : Table before)
    (step : conversation.step before act = some after)
    (room : ∀ thread method params deadline,
      act = .begin_ thread (.request method params deadline) → before.issued.length < 2 ^ 64) :
    Table after := by
  rcases step_cases step with ⟨thread, of, moved, others⟩ | ⟨-, cancelled, now, rfl⟩
  · refine table.move moved others ?_
    rintro ⟨message, deadline, phase⟩ idle
    obtain ⟨method, params, deadline, same⟩ := request_of_register step of idle phase
    exact room thread method params deadline same
  · exact table.same rfl rfl rfl rfl fun _ _ owner => ⟨owner, rfl⟩

end Table

/-- Whether the one permitted answer has arrived. -/
def Slot.isAnswered : Slot ν → Bool
  | waiting => false
  | answered _ => true
  | retired used => used

/-- Ids were left for a new request, and a caller that gives up has seen what its slot holds. -/
structure Heeds (world : World T ν) (act : Act T ν) : Prop where
  room : ∀ thread method params deadline, act = .begin_ thread (.request method params deadline) →
    world.issued.length < 2 ^ 64
  seen : ∀ thread id error last, act = .move thread → world.calls thread = .retire id error last →
    ∀ outcome, world.pending.slots.lookup id ≠ some (.answered outcome)

/-- The slots tell whose answer has been accepted. -/
structure Accounted [DecidableEq T] (world : World T ν) : Prop where
  once : world.accepted.Nodup
  known : ∀ id ∈ world.accepted, id ∈ world.issued
  unregistered : ∀ thread id, (world.calls thread).request? = some id →
    (world.calls thread).isRegister = true → id ∉ world.accepted
  slots : ∀ id slot, world.pending.slots.lookup id = some slot →
    (slot.isAnswered = true ↔ id ∈ world.accepted)

namespace Accounted

variable [DecidableEq T] {thread : T} {before after : World T ν}

theorem new : Accounted (World.new : World T ν) where
  once := List.nodup_nil
  known _ member := by cases member
  unregistered _ _ owner := by cases owner
  slots _ _ held := by cases held

/-- Slots, ids and answers are left alone, and no thread comes to register. -/
theorem same (accounted : Accounted before) (accepted : after.accepted = before.accepted)
    (issued : ∀ id ∈ before.issued, id ∈ after.issued)
    (slots : ∀ id slot, after.pending.slots.lookup id = some slot →
      ∃ old, before.pending.slots.lookup id = some old ∧ old.isAnswered = slot.isAnswered)
    (owners : ∀ thread id, (after.calls thread).request? = some id →
      (after.calls thread).isRegister = true → id ∉ before.accepted) : Accounted after where
  once := accepted ▸ accounted.once
  known id member := issued id (accounted.known id (accepted ▸ member))
  unregistered thread id owner entering := accepted ▸ owners thread id owner entering
  slots id slot held := by
    obtain ⟨old, found, same⟩ := slots id slot held
    rw [← same, accepted]
    exact accounted.slots id old found

/-- A request is retired with what its slot told. -/
theorem retire (accounted : Accounted before) (table : Table before) {id : RequestId}
    {answered : Bool} {slot : Slot ν} (owner : (before.calls thread).request? = some id)
    (entered : (before.calls thread).isRegister = false)
    (held : before.pending.slots.lookup id = some slot) (told : slot.isAnswered = answered)
    (pending : after.pending = before.pending.retire id answered)
    (issued : after.issued = before.issued) (accepted : after.accepted = before.accepted)
    (left : (after.calls thread).request? = none)
    (others : ∀ other, other ≠ thread → after.calls other = before.calls other) :
    Accounted after := by
  have retires := table.retires answered owner entered
  rw [← pending] at retires
  refine accounted.same accepted (fun _ member => issued ▸ member) ?_ fun other request owns entering => ?_
  · intro other next found
    by_cases here : other = id
    · subst here
      rw [retires.here.1] at found
      obtain rfl := Option.some.inj found
      exact ⟨slot, held, told⟩
    · rcases retires.others other here with ⟨kept, -⟩ | ⟨-, gone, -⟩
      · exact ⟨next, kept ▸ found, rfl⟩
      · rw [gone] at found
        cases found
  · have apart : other ≠ thread := fun same => by rw [same, left] at owns; cases owns
    rw [others other apart] at owns entering
    exact accounted.unregistered other request owns entering

theorem move (accounted : Accounted before) (table : Table before)
    (moved : TableMove thread before after)
    (others : ∀ other, other ≠ thread → after.calls other = before.calls other)
    (room : (∃ message deadline,
        after.calls thread = .register (.number before.nextId) message deadline) →
      before.calls thread = .idle → before.issued.length < 2 ^ 64)
    (seen : ∀ id error last, before.calls thread = .retire id error last →
      ∀ outcome, before.pending.slots.lookup id ≠ some (.answered outcome)) : Accounted after := by
  -- threads other than the one that moves
  have elsewhere : ∀ other id, other ≠ thread → (after.calls other).request? = some id →
      (after.calls other).isRegister = true → id ∉ before.accepted := by
    intro other id apart owner entering
    rw [others other apart] at owner entering
    exact accounted.unregistered other id owner entering
  -- a slot in use that holds no answer is waiting for one
  have waiting : ∀ id, (before.calls thread).request? = some id →
      (before.calls thread).isRegister = false →
      (∀ outcome, before.pending.slots.lookup id ≠ some (.answered outcome)) →
      before.pending.slots.lookup id = some .waiting := by
    intro id owner entered unanswered
    obtain ⟨slot, held, open_⟩ := table.registered thread id owner entered
    cases slot with
    | waiting => exact held
    | answered outcome => exact absurd held (unanswered outcome)
    | retired used => cases open_
  cases moved with
  | rest slots retired issued nextId accepted request entered =>
    refine accounted.same accepted (fun _ member => issued ▸ member) (fun id slot held => ?_)
      fun other id owner entering => ?_
    · exact ⟨slot, slots ▸ held, rfl⟩
    · by_cases same : other = thread
      · rw [same, entered.2] at entering
        cases entering
      · exact elsewhere other id same owner entering
  | opens id message deadline idle fresh pending issued accepted nextId phase =>
    subst fresh
    have unissued := table.fresh (room ⟨message, deadline, phase⟩ idle)
    refine accounted.same accepted (fun _ member => ?_) (fun id slot held => ?_)
      fun other id owner entering => ?_
    · rw [issued]
      exact List.mem_append_left _ member
    · exact ⟨slot, pending ▸ held, rfl⟩
    · by_cases same : other = thread
      · rw [same, phase] at owner
        obtain rfl := Option.some.inj owner
        exact fun member => unissued (accounted.known _ member)
      · exact elsewhere other id same owner entering
  | enters id message deadline phase pending issued nextId accepted next =>
    have owner : (before.calls thread).request? = some id := by rw [phase]; rfl
    have unanswered := accounted.unregistered thread id owner (by rw [phase]; rfl)
    refine
      { once := accepted ▸ accounted.once
        known := fun other member => issued ▸ accounted.known other (accepted ▸ member)
        unregistered := fun other request owns entering => ?_
        slots := fun other slot held => ?_ }
    · rw [accepted]
      by_cases same : other = thread
      · rw [same, next] at entering
        cases entering
      · exact elsewhere other request same owns entering
    · rw [pending] at held
      rw [accepted]
      by_cases here : other = id
      · subst here
        rw [AList.lookup_insert] at held
        obtain rfl := Option.some.inj held
        exact iff_of_false Bool.false_ne_true unanswered
      · rw [AList.lookup_insert_ne here] at held
        exact accounted.slots other slot held
  | refused id message deadline error phase pending issued nextId accepted next =>
    refine accounted.same accepted (fun _ member => issued ▸ member) (fun id slot held => ?_)
      fun other id owner entering => ?_
    · exact ⟨slot, pending ▸ held, rfl⟩
    · by_cases same : other = thread
      · rw [same, next] at entering
        cases entering
      · exact elsewhere other id same owner entering
  | collects id deadline outcome phase held pending issued nextId accepted next =>
    exact accounted.retire table (by rw [phase]; rfl) (by rw [phase]; rfl) held rfl pending issued
      accepted (by rw [next]; rfl) others
  | abandons id deadline error phase over_ unanswered pending issued nextId accepted next =>
    have held := waiting id (by rw [phase]; rfl) (by rw [phase]; rfl) unanswered
    exact accounted.retire table (by rw [phase]; rfl) (by rw [phase]; rfl) held rfl pending issued
      accepted (by rw [next]; rfl) others
  | givesUp id error last phase pending issued nextId accepted next =>
    have held := waiting id (by rw [phase]; rfl) (by rw [phase]; rfl) (seen id error last phase)
    exact accounted.retire table (by rw [phase]; rfl) (by rw [phase]; rfl) held rfl pending issued
      accepted next.1 others
  | routes caller response slot next phase held turned pending issued nextId accepted released =>
    have told := accounted.slots response.id slot held
    have fresh : response.id ∉ before.accepted := by
      rw [← told]
      rcases turned with ⟨rfl, -⟩ | ⟨rfl, -⟩ <;> exact Bool.false_ne_true
    refine
      { once := ?_
        known := fun other member => ?_
        unregistered := fun other request owns entering => ?_
        slots := fun other slot found => ?_ }
    · rw [accepted]
      exact List.nodup_append'.mpr
        ⟨accounted.once, List.nodup_singleton _, by simpa using fresh⟩
    · rw [accepted, List.mem_append, List.mem_singleton] at member
      rw [issued]
      rcases member with member | rfl
      · exact accounted.known other member
      · exact table.listed _ slot held
    · rw [accepted, List.mem_append, List.mem_singleton, not_or]
      by_cases same : other = thread
      · rw [same, released] at entering
        cases entering
      · refine ⟨elsewhere other request same owns entering, ?_⟩
        rintro rfl
        rw [others other same] at owns entering
        rw [table.unregistered other _ owns entering] at held
        cases held
    · rw [accepted, List.mem_append, List.mem_singleton]
      rw [pending] at found
      by_cases here : other = response.id
      · subst here
        rw [AList.lookup_insert] at found
        obtain rfl := Option.some.inj found
        refine iff_of_true ?_ (.inr rfl)
        rcases turned with ⟨-, rfl⟩ | ⟨-, rfl⟩ <;> rfl
      · rw [AList.lookup_insert_ne here] at found
        rw [or_iff_left here]
        exact accounted.slots other slot found
  | keepsPromise result promised slots retired issued nextId accepted next =>
    refine accounted.same accepted (fun _ member => issued ▸ member) (fun id slot held => ?_)
      fun other id owner entering => ?_
    · exact ⟨slot, slots ▸ held, rfl⟩
    · by_cases same : other = thread
      · rw [same, next] at entering
        cases entering
      · exact elsewhere other id same owner entering

theorem step {act : Act T ν} (accounted : Accounted before) (table : Table before)
    (heeds : Heeds before act) (step : conversation.step before act = some after) :
    Accounted after := by
  rcases step_cases step with ⟨thread, of, moved, others⟩ | ⟨-, cancelled, now, rfl⟩
  · refine accounted.move table moved others ?_ fun id error last phase => ?_
    · rintro ⟨message, deadline, phase⟩ idle
      obtain ⟨method, params, deadline, same⟩ := Table.request_of_register step of idle phase
      exact heeds.room thread method params deadline same
    · exact heeds.seen thread id error last (act_eq_move step of (by rw [phase]; rfl)) phase
  · exact accounted.same rfl (fun _ member => member) (fun _ slot held => ⟨slot, held, rfl⟩)
      accounted.unregistered

end Accounted

section Runs

variable [DecidableEq T] {acts : List (Act T ν)} {world : World T ν}

theorem table_of_path (path : conversation.Path .new acts world)
    (heeds : conversation.Each Heeds .new acts) : Table world ∧ Accounted world := by
  refine path.preserves_of (P := fun world => Table world ∧ Accounted world) ?_ heeds
    ⟨.new, .new⟩
  rintro before act after ⟨table, accounted⟩ heeds step
  exact ⟨table.step step heeds.room, accounted.step table heeds step⟩

variable {thread : T} {before after : World T ν}

theorem fail_pending (self : World T ν) (caller : Caller ν) (error : TransportError) :
    (self.fail thread caller error).pending = self.pending := by
  unfold World.fail
  split <;> rfl

theorem remember_terminal (self : Pending ν) (error : TransportError)
    (over_ : self.terminal ≠ none ∨ error.isTerminal = true) :
    (self.remember error).terminal ≠ none := by
  unfold Pending.remember
  split_ifs with first
  · exact Option.some_ne_none _
  · rcases over_ with over_ | terminal
    · exact over_
    · intro none
      exact first ⟨terminal, by rw [none]; rfl⟩

/-- A thread that records a failure ends the conversation. -/
theorem terminal_remember {error : TransportError} {after_ : After ν}
    (over_ : before.pending.terminal ≠ none ∨ error.isTerminal = true) :
    (before.remember thread error after_).pending.terminal ≠ none := by
  unfold World.remember
  split
  · exact remember_terminal _ _ over_
  · rw [fail_pending]
    exact remember_terminal _ _ over_
  · exact remember_terminal _ _ over_

/-- A conversation that is over stays over. -/
theorem terminal_move {phase : Phase ν} (over_ : before.pending.terminal ≠ none)
    (moved : before.move thread phase = some after) : after.pending.terminal ≠ none := by
  unfold World.move at moved
  split at moved
  all_goals cases moved
  · unfold World.register
    split <;> exact over_
  · unfold World.lookAnswer
    repeat' split
    all_goals exact over_
  · unfold World.lookPeer
    split <;> exact over_
  · unfold World.inspect
    split <;> exact over_
  · unfold World.token
    repeat' split
    all_goals exact over_
  · unfold World.clock
    repeat' split
    all_goals first
      | exact over_
      | rw [fail_pending]; exact over_
  · unfold World.lead
    split <;> exact over_
  · unfold World.gauge
    split <;> exact over_
  · unfold World.route World.routeResponse
    repeat' split
    all_goals exact over_
  · unfold World.release
    split
    · exact over_
    · rw [fail_pending]
      exact over_
  · exact terminal_remember (.inl over_)
  · unfold World.retire
    split <;> exact over_

theorem terminal_step {act : Act T ν} (over_ : before.pending.terminal ≠ none)
    (step : conversation.step before act = some after) : after.pending.terminal ≠ none := by
  cases act with
  | begin_ thread call =>
    simp only [conversation] at step
    split at step
    · obtain rfl := Option.some.inj step
      cases call <;> exact over_
    · cases step
  | move thread => exact terminal_move over_ step
  | send thread result =>
    simp only [conversation, World.trySend] at step
    split at step
    · obtain rfl := Option.some.inj step
      repeat' split
      all_goals exact over_
    · cases step
  | receive thread result =>
    simp only [conversation, World.receive] at step
    split at step
    · obtain rfl := Option.some.inj step
      repeat' split
      all_goals exact over_
    · cases step
  | tick =>
    obtain rfl := Option.some.inj step
    exact over_
  | cancel =>
    obtain rfl := Option.some.inj step
    exact over_

end Runs

end Harkness.Transport
