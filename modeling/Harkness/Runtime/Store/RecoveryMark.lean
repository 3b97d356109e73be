import Harkness.Runtime.Store.Recovery

/-! # What one transaction marks

Whatever writes to the rows of a run leaves each record its identity and what its end would be
reported as, and a finished record as it is. So what a sweep planned, from reads of any age, still
names every unfinished record when its transaction begins, and nothing that was finished meanwhile is
marked. The transaction marks all of it, or stops at a refused statement or an unwritable column.
-/

namespace Harkness.Runtime.Store.Recovery

open Domain Domain.Record Approval

variable {ν ρ : Type} {codecs : Codecs}

namespace Marking

/-- A record is the one it was, reported in the same words, and unchanged if it was finished. -/
structure Grows (marking : Marking ν ρ) (record next : ρ) : Prop where
  same : marking.id next = marking.id record
  described : ∀ cause, marking.event cause next = marking.event cause record
  final : marking.isFinished record = true → next = record

variable {marking : Marking ν ρ} {record next : ρ} {records grown later : List ρ}

theorem Grows.refl (marking : Marking ν ρ) (record : ρ) : marking.Grows record record :=
  ⟨rfl, fun _ => rfl, fun _ => rfl⟩

theorem Grows.trans {last : ρ} (first : marking.Grows record next)
    (second : marking.Grows next last) : marking.Grows record last where
  same := second.same.trans first.same
  described := fun cause => (second.described cause).trans (first.described cause)
  final := fun finished => by
    have unchanged := first.final finished
    rw [second.final (unchanged ▸ finished), unchanged]

/-- The records of a kind, each grown in its place. -/
abbrev Grown (marking : Marking ν ρ) : List ρ → List ρ → Prop := List.Forall₂ marking.Grows

theorem Grown.refl (marking : Marking ν ρ) (records : List ρ) : marking.Grown records records :=
  List.forall₂_same.mpr fun record _ => .refl marking record

theorem Grown.trans (first : marking.Grown records grown) (second : marking.Grown grown later) :
    marking.Grown records later := by
  induction first generalizing later with
  | nil => exact second
  | cons head _ ih =>
    cases second with
    | cons next rest => exact .cons (head.trans next) (ih rest)

theorem Grown.ids (grows : marking.Grown records grown) :
    grown.map marking.id = records.map marking.id := by
  induction grows with
  | nil => rfl
  | cons head _ ih => rw [List.map_cons, List.map_cons, head.same, ih]

/-- A grown record comes from one with its identity. -/
theorem Grown.origin (grows : marking.Grown records grown) (member : next ∈ grown) :
    ∃ record ∈ records, marking.Grows record next := by
  induction grows with
  | nil => cases member
  | cons head _ ih =>
    rcases List.mem_cons.mp member with rfl | member
    · exact ⟨_, List.mem_cons_self, head⟩
    · obtain ⟨record, there, grew⟩ := ih member
      exact ⟨record, List.mem_cons_of_mem _ there, grew⟩

theorem Grown.image (grows : marking.Grown records grown) (member : record ∈ records) :
    ∃ next ∈ grown, marking.Grows record next := by
  induction grows with
  | nil => cases member
  | cons head _ ih =>
    rcases List.mem_cons.mp member with rfl | member
    · exact ⟨_, List.mem_cons_self, head⟩
    · obtain ⟨next, there, grew⟩ := ih member
      exact ⟨next, List.mem_cons_of_mem _ there, grew⟩

theorem Grown.all_finished (grows : marking.Grown records grown)
    (finished : ∀ record ∈ records, marking.isFinished record = true) :
    ∀ record ∈ grown, marking.isFinished record = true := by
  intro record member
  obtain ⟨origin, held, grew⟩ := grows.origin member
  rw [grew.final (finished origin held)]
  exact finished origin held

/-- The unfinished records of a kind. -/
def unfinished (marking : Marking ν ρ) (records : List ρ) : List ρ :=
  records.filter fun record => !marking.isFinished record

/-- What a sweep plans for the records it found. -/
def described (marking : Marking ν ρ) (cause : Cause) (records : List ρ) :
    List (ℕ × RunEvent (Json.Value ν)) :=
  records.map fun record => (marking.id record, marking.event cause record)

/-- A plan made of earlier rows is the plan of some of the rows there are now, with every unfinished
one among them. -/
theorem Grown.planned (grows : marking.Grown records grown) (cause : Cause) :
    ∃ found, found.Sublist grown ∧
      marking.described cause (marking.unfinished records) = marking.described cause found ∧
      marking.unfinished found = marking.unfinished grown := by
  induction grows with
  | nil => exact ⟨[], .slnil, rfl, rfl⟩
  | @cons record next records grown head _ ih =>
    obtain ⟨found, within, same, all⟩ := ih
    cases finished : marking.isFinished record with
    | true =>
      have unchanged := head.final finished
      refine ⟨found, within.cons _, ?_, ?_⟩
      · rw [unfinished, List.filter_cons_of_neg (by simp [finished])]
        exact same
      · rw [unfinished, unfinished, List.filter_cons_of_neg (by simp [unchanged, finished])]
        exact all
    | false =>
      refine ⟨next :: found, within.cons_cons _, ?_, ?_⟩
      · rw [unfinished, List.filter_cons_of_pos (by simp [finished])]
        change (marking.id record, marking.event cause record) ::
          marking.described cause (marking.unfinished records) = _
        rw [same, ← head.same, ← head.described cause]
        rfl
      · simp only [unfinished, List.filter_cons] at all ⊢
        rw [all]

/-- Replacing a record by what it grew to. -/
theorem grown_replace (distinct : (records.map marking.id).Nodup) (member : record ∈ records)
    (grows : marking.Grows record next) : marking.Grown records (marking.replace next records) := by
  have each : ∀ other ∈ records, marking.Grows other
      (if marking.id other = marking.id next then next else other) := by
    intro other held
    split_ifs with same
    · obtain rfl : other = record :=
        List.inj_on_of_nodup_map distinct held member (same.trans grows.same)
      exact grows
    · exact .refl marking other
  unfold replace
  exact List.forall₂_map_right_iff.mpr (List.forall₂_same.mpr each)

theorem mem_replace (member : record ∈ records) (same : marking.id next = marking.id record) :
    next ∈ marking.replace next records :=
  List.mem_map.mpr ⟨record, member, by rw [if_pos same.symm]⟩

theorem mem_replace_of_ne (member : record ∈ records) (other : marking.id record ≠ marking.id next) :
    record ∈ marking.replace next records :=
  List.mem_map.mpr ⟨record, member, by rw [if_neg other]⟩

theorem mem_of_mem_replace (member : record ∈ marking.replace next records) :
    record = next ∨ record ∈ records := by
  obtain ⟨other, held, same⟩ := List.mem_map.mp member
  split_ifs at same
  · exact .inl same.symm
  · exact .inr (same ▸ held)

end Marking

/-- What was stored is still there: every record grown in its place, the run unchanged once it was
over, and every event in its position. -/
structure Later (codecs : Codecs) (before after : RunStore ν) : Prop where
  run : after.run.id = before.run.id
  over_ : before.run.lifecycle.state.isTerminal = true → after.run = before.run
  toolCalls : (toolCallMarking codecs).Grown before.toolCalls after.toolCalls
  steps : (@stepMarking ν codecs).Grown before.steps after.steps
  approvals : (@approvalMarking ν codecs).Grown before.approvals after.approvals
  log : before.events <+: after.events

theorem Later.refl (store : RunStore ν) : Later codecs store store :=
  ⟨rfl, fun _ => rfl, .refl _ _, .refl _ _, .refl _ _, List.prefix_refl _⟩

theorem Later.trans {before mid after : RunStore ν} (first : Later codecs before mid)
    (second : Later codecs mid after) : Later codecs before after where
  run := second.run.trans first.run
  over_ := fun over_ => by
    have unchanged := first.over_ over_
    rw [second.over_ (unchanged ▸ over_), unchanged]
  toolCalls := first.toolCalls.trans second.toolCalls
  steps := first.steps.trans second.steps
  approvals := first.approvals.trans second.approvals
  log := first.log.trans second.log

/-- Events are added to the log of a run only. -/
theorem later_log {store : RunStore ν} {events : List (RunEvent (Json.Value ν))}
    (longer : store.events <+: events) : Later codecs store { store with events } :=
  ⟨rfl, fun _ => rfl, .refl _ _, .refl _ _, .refl _ _, longer⟩

theorem Stored.log {store : RunStore ν} (stored : Stored codecs store)
    (events : List (RunEvent (Json.Value ν))) : Stored codecs { store with events } :=
  ⟨stored.run, stored.shaped, stored.toolCalls, stored.steps, stored.approvals⟩

/-- A revision has left its column, or the instant of the sweep cannot be written. -/
def Unwritable (codecs : Codecs) (at_ : Instant) : RecoveryError → Prop
  | .unstorableRevision _ revision => revision = i64Max + 1
  | .unstorableInstant _ instant =>
    instant = at_ ∧ ∃ reason, codecs.formatTimestamp at_ = .error reason
  | _ => False

/-- All that a sweep may fail with. -/
def Barred (codecs : Codecs) (accepts : Statement → Bool) (at_ : Instant) (error : RecoveryError) :
    Prop :=
  (∃ statement, error = .query statement ∧ accepts statement = false) ∨ Unwritable codecs at_ error

theorem Barred.refused {accepts : Statement → Bool} {at_ : Instant} {statement : Statement}
    (refused : accepts statement = false) : Barred codecs accepts at_ (.query statement) :=
  .inl ⟨statement, rfl, refused⟩

/-- What the kinds of records have in common: each is kept in a part of the store of its own and read as
it was written, and an unfinished record that was written and can be read can be ended at any instant. -/
structure Marking.Lawful (codecs : Codecs) (marking : Marking ν ρ) (fits : ρ → Prop) : Prop where
  view_put : ∀ records store, marking.view (marking.put records store) = records
  put_view : ∀ store, marking.put (marking.view store) store = store
  put_put : ∀ records others store,
    marking.put records (marking.put others store) = marking.put records store
  put_log : ∀ records store events,
    marking.put records { store with events } = { marking.put records store with events }
  view_log : ∀ (store : RunStore ν) events, marking.view { store with events } = marking.view store
  kept : ∀ records store, Stored codecs store → marking.Grown (marking.view store) records →
    (∀ record ∈ records, marking.encode record = .ok () ∧ fits record) →
    Later codecs store (marking.put records store) ∧ Stored codecs (marking.put records store)
  stored : ∀ store, Stored codecs store → marking.Written fits store
  decoded : ∀ record read, marking.decode record = .ok read → read = record
  instant : ∀ cause record, (marking.event cause record).at_ = cause.at_
  mark : ∀ at_ record, marking.isFinished record = false → marking.encode record = .ok () →
    fits record → marking.decode record = .ok record →
    ∃ next, marking.mark at_ record = .ok next ∧ marking.Grows record next ∧ fits next ∧
      marking.isFinished next = true ∧
      ∀ error, marking.encode next = .error error → Unwritable codecs at_ error

theorem encodeInstant_eq_ok (field : String) {at_ : Instant} (u : Unit) :
    encodeInstant codecs field at_ = .ok u ↔ ∃ text, codecs.formatTimestamp at_ = .ok text := by
  unfold encodeInstant
  cases codecs.formatTimestamp at_ <;> simp

theorem unwritable_of_encodeInstant {field : String} {at_ : Instant} {error : RecoveryError}
    (refused : encodeInstant codecs field at_ = .error error) : Unwritable codecs at_ error := by
  unfold encodeInstant at refused
  cases formatted : codecs.formatTimestamp at_ with
  | ok text => rw [formatted] at refused; cases refused
  | error reason =>
    rw [formatted] at refused
    cases refused
    exact ⟨rfl, reason, formatted⟩

section Lifecycles

variable {S : Type} [DecidableEq S] [LifecycleState S] {table : Table} {self : Lifecycle S}

omit [DecidableEq S] [LifecycleState S] in
theorem encodeLifecycle_eq_ok {u : Unit} :
    encodeLifecycle codecs table self = .ok u ↔
      self.revision ≤ i64Max ∧ ∃ text, codecs.formatTimestamp self.updatedAt = .ok text := by
  rw [← encodeInstant_eq_ok "updated_at" u]
  unfold encodeLifecycle encodeRevision
  split_ifs with within
  · exact ⟨fun encoded => ⟨within, encoded⟩, fun both => both.2⟩
  · refine iff_of_false (fun encoded => ?_) fun both => within both.1
    cases encoded

/-- A lifecycle that was written and followed one edge is written again, the revision and the instant
of the edge apart. -/
theorem unwritable_of_encodeLifecycle {target : S} {at_ : Instant} {error : RecoveryError}
    (stored : encodeLifecycle codecs table self = .ok ())
    (refused : encodeLifecycle codecs table (self.moved target at_) = .error error) :
    Unwritable codecs at_ error := by
  obtain ⟨within, text, formatted⟩ := encodeLifecycle_eq_ok.1 stored
  unfold encodeLifecycle encodeRevision at refused
  split_ifs at refused with room
  · change encodeInstant codecs _ (max at_ self.updatedAt) = _ at refused
    rcases max_choice at_ self.updatedAt with here | before
    · rw [here] at refused
      exact unwritable_of_encodeInstant refused
    · rw [before, encodeInstant, formatted] at refused
      cases refused
  · cases refused
    change self.revision + 1 = i64Max + 1
    have past : ¬ self.revision + 1 ≤ i64Max := room
    omega

omit [DecidableEq S] [LifecycleState S] in
theorem room_of_stored (stored : encodeLifecycle codecs table self = .ok ()) :
    self.revision + 1 < 2 ^ 64 := by
  have within := (encodeLifecycle_eq_ok.1 stored).1
  unfold i64Max at within
  omega

end Lifecycles

theorem moveTo_eq_ok {ε σ : Type} (refused : ε → RecoveryError) {result : Except ε Unit × σ}
    {next : σ} : moveTo refused result = .ok next ↔ result = (.ok (), next) := by
  rcases result with ⟨_ | _, last⟩ <;> simp [moveTo]

/-- Every unfinished execution may be interrupted. -/
theorem executionInterrupted {state : ExecutionState} :
    state.isTerminal = false → (state, .interrupted) ∈ ExecutionState.transitions := by
  cases state <;> decide

theorem toolCallInterrupted {state : ToolCallState} :
    state.isTerminal = false → (state, .interrupted) ∈ ToolCallState.transitions := by
  cases state <;> decide

section Ended

variable (at_ : Instant)

theorem interrupt_execution {name : RecordName} {progress : Progress ExecutionState}
    (unfinished : progress.lifecycle.state.isTerminal = false)
    (room : progress.lifecycle.revision + 1 < 2 ^ 64) :
    Execution.transition name .interrupted at_ progress =
      (.ok (), progress.moved .interrupted at_) := by
  have edge := executionInterrupted unfinished
  simp only [Execution.transition, Mutation.bind_eq_ok, Mutation.read_eq_ok, Mutation.check_eq_ok,
    Lifecycle.validateEdge_eq_ok, refuseWhen_eq_ok, decide_eq_true_eq, Progress.follow_eq_ok]
  exact ⟨_, _, ⟨rfl, rfl⟩, (), _, ⟨edge, rfl⟩, (), _, ⟨by decide, rfl⟩, (), _, ⟨by simp, rfl⟩,
    ⟨edge, room⟩, rfl⟩

theorem interrupt_run {run : Run}
    (unfinished : run.lifecycle.state.isTerminal = false) (room : run.lifecycle.revision + 1 < 2 ^ 64) :
    Run.transition .interrupted at_ run =
      (.ok (), { run with toProgress := run.toProgress.moved .interrupted at_ }) := by
  rw [Run.transition, Run.onProgress, Mutation.focus_eq_ok]
  exact ⟨_, interrupt_execution at_ unfinished room, rfl⟩

theorem interrupt_step {step : Step} (unfinished : step.lifecycle.state.isTerminal = false)
    (room : step.lifecycle.revision + 1 < 2 ^ 64) :
    Step.transition .interrupted at_ step =
      (.ok (), { step with toProgress := step.toProgress.moved .interrupted at_ }) := by
  rw [Step.transition, Step.onProgress, Mutation.focus_eq_ok]
  exact ⟨_, interrupt_execution at_ unfinished room, rfl⟩

theorem interrupt_toolCall {call : ToolCall ν}
    (unfinished : call.lifecycle.state.isTerminal = false)
    (room : call.lifecycle.revision + 1 < 2 ^ 64) :
    ToolCall.transition .interrupted at_ call = (.ok (), call.moved .interrupted at_) := by
  have edge := toolCallInterrupted unfinished
  simp only [ToolCall.transition, Mutation.bind_eq_ok, Mutation.read_eq_ok, Mutation.check_eq_ok,
    Lifecycle.validateEdge_eq_ok, refuseWhen_eq_ok, decide_eq_true_eq, ToolCall.follow_eq_ok]
  exact ⟨_, _, ⟨rfl, rfl⟩, (), _, ⟨edge, rfl⟩, (), _, ⟨by decide, rfl⟩, (), _, ⟨by simp, rfl⟩,
    ⟨edge, room⟩, rfl⟩

theorem supersede_request {request : ApprovalRequest} (pending : request.state = .pending) :
    request.supersede at_ =
      (.ok (), { request with state := .superseded, resolvedAt := some at_ }) :=
  ApprovalRequest.resolve_eq_ok.mpr (.resolved pending (.inr (.inr rfl)))

end Ended

/-- An unfinished record is not asked what it was once finished. -/
theorem Marking.Grows.of_unfinished {marking : Marking ν ρ} {record next : ρ}
    (unfinished : marking.isFinished record = false) (same : marking.id next = marking.id record)
    (described : ∀ cause, marking.event cause next = marking.event cause record) :
    marking.Grows record next :=
  ⟨same, described, fun finished => by rw [unfinished] at finished; cases finished⟩

theorem Marking.Grown.distinct {marking : Marking ν ρ} {records grown : List ρ}
    (grows : marking.Grown records grown) (distinct : (records.map marking.id).Nodup) :
    (grown.map marking.id).Nodup := by
  rw [grows.ids]
  exact distinct

theorem lawful_toolCall : (@toolCallMarking ν codecs).Lawful codecs ToolCall.Recorded where
  view_put _ _ := rfl
  put_view _ := rfl
  put_put _ _ _ := rfl
  put_log _ _ _ := rfl
  view_log _ _ := rfl
  kept _ _ stored grows written :=
    ⟨⟨rfl, fun _ => rfl, grows, .refl _ _, .refl _ _, List.prefix_refl _⟩, ⟨stored.run, stored.shaped,
      ⟨grows.distinct stored.toolCalls.1, written⟩, stored.steps, stored.approvals⟩⟩
  stored _ stored := stored.toolCalls
  decoded call read passed := ToolCall.eq_of_tryFrom (Except.mapError_eq_ok.mp passed)
  instant _ _ := rfl
  mark at_ call unfinished stored recorded passed := by
    have interrupted := interrupt_toolCall at_ unfinished (room_of_stored stored)
    have moves : ToolCall.Moves call (.transition .interrupted at_) _ :=
      ToolCall.moves_of_apply interrupted
    exact ⟨call.moved .interrupted at_, (moveTo_eq_ok _).mpr interrupted,
      .of_unfinished unfinished rfl fun _ => rfl,
      recorded.kept (recorded.consistent (Except.mapError_eq_ok.mp passed)) moves, rfl,
      fun _ refused => unwritable_of_encodeLifecycle stored refused⟩

theorem lawful_step :
    (@stepMarking ν codecs).Lawful codecs fun step => Execution.Shaped step.toProgress where
  view_put _ _ := rfl
  put_view _ := rfl
  put_put _ _ _ := rfl
  put_log _ _ _ := rfl
  view_log _ _ := rfl
  kept _ _ stored grows written :=
    ⟨⟨rfl, fun _ => rfl, .refl _ _, grows, .refl _ _, List.prefix_refl _⟩, ⟨stored.run, stored.shaped,
      stored.toolCalls, ⟨grows.distinct stored.steps.1, written⟩, stored.approvals⟩⟩
  stored _ stored := stored.steps
  decoded step read passed := Step.eq_of_tryFrom (Except.mapError_eq_ok.mp passed)
  instant _ _ := rfl
  mark at_ step unfinished stored shaped _ := by
    have interrupted := interrupt_step at_ unfinished (room_of_stored stored)
    have moved : Step.apply (.transition .interrupted at_) step =
        (.ok (), { step with toProgress := step.toProgress.moved .interrupted at_ }) := interrupted
    have moves := (Step.moves_of_apply moved).1
    exact ⟨{ step with toProgress := step.toProgress.moved .interrupted at_ },
      (moveTo_eq_ok _).mpr interrupted, .of_unfinished unfinished rfl fun _ => rfl, shaped.kept moves, rfl,
      fun _ refused => unwritable_of_encodeLifecycle stored refused⟩

theorem lawful_approval : (@approvalMarking ν codecs).Lawful codecs ApprovalRequest.Consistent where
  view_put _ _ := rfl
  put_view _ := rfl
  put_put _ _ _ := rfl
  put_log _ _ _ := rfl
  view_log _ _ := rfl
  kept _ _ stored grows written :=
    ⟨⟨rfl, fun _ => rfl, .refl _ _, .refl _ _, grows, List.prefix_refl _⟩, ⟨stored.run, stored.shaped,
      stored.toolCalls, stored.steps, ⟨grows.distinct stored.approvals.1, written⟩⟩⟩
  stored _ stored := stored.approvals
  decoded request read passed := ApprovalRequest.eq_of_fromStored (Except.mapError_eq_ok.mp passed)
  instant _ _ := rfl
  mark at_ request unfinished _ consistent _ := by
    have pending : request.state = .pending := not_not.mp (of_decide_eq_false unfinished)
    have ends : request.Ends (.resolve .superseded at_)
        { request with state := .superseded, resolvedAt := some at_ } := .resolved pending (.inr (.inr rfl))
    exact ⟨{ request with state := .superseded, resolvedAt := some at_ },
      (moveTo_eq_ok _).mpr (supersede_request at_ pending), .of_unfinished unfinished rfl fun _ => rfl,
      ends.consistent consistent, rfl, fun _ refused => unwritable_of_encodeInstant refused⟩

section Statements

variable {accepts : Statement → Bool} {store : RunStore ν} {bad : RecoveryError → Prop}

theorem results_demand {statement : Statement} (refusal : accepts statement = false → bad (.query statement)) :
    (demand accepts statement : Mutation RecoveryError (RunStore ν) Unit).Results store
      (fun _ t => t = store) bad := by
  refine Mutation.Results.imp (Mutation.results_check fun error refused => ?_) fun _ _ both => both.2
  split_ifs at refused with accepted
  cases refused
  exact refusal (Bool.eq_false_iff.mpr accepted)

theorem results_append {id : ℕ} {event : RunEvent (Json.Value ν)}
    (refusal : ∀ statement, accepts statement = false → bad (.query statement))
    (unwritable : ∀ error, encodeInstant codecs "at" event.at_ = .error error → bad error) :
    (append codecs accepts id event).Results store
      (fun _ t => t = { store with events := store.events ++ [event] }) bad := by
  refine (Mutation.results_check unwritable).bind ?_
  rintro _ _ ⟨-, rfl⟩
  refine (results_demand (refusal _)).bind ?_
  rintro _ _ rfl
  exact Mutation.results_update

/-- A stored run is read back. -/
theorem Stored.decodeRun (stored : Stored codecs store) : decodeRun store.run = .ok store.run := by
  rw [Recovery.decodeRun, Run.tryFrom_toWire stored.shaped.1 stored.shaped.2]
  rfl

theorem results_loadRun (stored : Stored codecs store)
    (refusal : ∀ statement, accepts statement = false → bad (.query statement)) :
    (loadRun accepts).Results store (fun run t => run = store.run ∧ t = store) bad := by
  refine Mutation.results_read.bind ?_
  rintro _ _ ⟨rfl, rfl⟩
  refine (results_demand (refusal _)).bind ?_
  rintro _ _ rfl
  refine (Mutation.results_check fun error refused => ?_).imp ?_
  · rw [stored.decodeRun] at refused
    cases refused
  · rintro run _ ⟨read, rfl⟩
    exact ⟨Except.ok.inj (read.symm.trans stored.decodeRun), rfl⟩

theorem results_updateRun {run : Run} (refusal : ∀ statement, accepts statement = false → bad (.query statement))
    (unwritable : ∀ error, encodeLifecycle codecs .run run.lifecycle = .error error → bad error) :
    (updateRun codecs accepts run).Results store
      (fun _ t => t = { store with run } ∧ encodeLifecycle codecs .run run.lifecycle = .ok ())
      bad := by
  refine (Mutation.results_check unwritable).bind ?_
  rintro _ _ ⟨written, rfl⟩
  refine (results_demand (refusal _)).bind ?_
  rintro _ _ rfl
  exact Mutation.results_update.imp fun _ _ same => ⟨same, written⟩

/-- Releasing a lease writes to the leases only. -/
theorem results_release {lease : LeaseId} {at_ : Instant}
    (refusal : ∀ statement, accepts statement = false → bad (.query statement))
    (unwritable : ∀ error, encodeInstant codecs "released_at" at_ = .error error → bad error) :
    (release codecs accepts lease at_).Results store
      (fun _ t => ∃ leases, t = { store with leases }) bad := by
  refine (Mutation.results_check unwritable).bind ?_
  rintro _ _ ⟨-, rfl⟩
  refine (results_demand (refusal _)).bind ?_
  rintro _ _ rfl
  exact Mutation.results_update.imp fun _ _ same => ⟨_, same⟩

theorem results_releaseOwner {lease : Option LeaseId} {at_ : Instant}
    (refusal : ∀ statement, accepts statement = false → bad (.query statement))
    (unwritable : ∀ error, encodeInstant codecs "released_at" at_ = .error error → bad error) :
    (releaseOwner codecs accepts at_ lease).Results store
      (fun _ t => ∃ leases, t = { store with leases }) bad := by
  cases lease with
  | none => exact ⟨store.leases, rfl⟩
  | some lease => exact results_release refusal unwritable

namespace Marking

variable {marking : Marking ν ρ} {fits : ρ → Prop}

theorem results_load (lawful : marking.Lawful codecs fits) {id : ℕ}
    (refusal : ∀ statement, accepts statement = false → bad (.query statement))
    (missing : (∀ record ∈ marking.view store, marking.id record ≠ id) →
      bad (.notFound marking.table id))
    (unreadable : ∀ record ∈ marking.view store, marking.id record = id →
      ∀ error, marking.decode record = .error error → bad error) :
    (marking.load accepts id).Results store
      (fun record t => t = store ∧ record ∈ marking.view store ∧ marking.id record = id ∧
        marking.decode record = .ok record) bad := by
  refine (results_demand (refusal _)).bind ?_
  rintro _ _ rfl
  refine Mutation.results_read.bind ?_
  rintro _ _ ⟨rfl, rfl⟩
  refine (Mutation.results_check fun error refused => ?_).imp ?_
  · split at refused
    next held there =>
      have named := List.find?_some there
      exact unreadable held (List.mem_of_find?_eq_some there) (of_decide_eq_true named) error refused
    next absent =>
      cases refused
      refine missing fun record member same => ?_
      exact List.find?_eq_none.mp absent record member (decide_eq_true same)
  · rintro record _ ⟨found, rfl⟩
    split at found
    next held there =>
      obtain rfl := lawful.decoded held record found
      have named := List.find?_some there
      exact ⟨rfl, List.mem_of_find?_eq_some there, of_decide_eq_true named, found⟩
    · cases found

theorem results_update {record : ρ} (refusal : ∀ statement, accepts statement = false → bad (.query statement))
    (unwritable : ∀ error, marking.encode record = .error error → bad error) :
    (marking.update accepts record).Results store
      (fun _ t => t = marking.put (marking.replace record (marking.view store)) store ∧
        marking.encode record = .ok ()) bad := by
  refine (Mutation.results_check unwritable).bind ?_
  rintro _ _ ⟨written, rfl⟩
  refine (results_demand (refusal _)).bind ?_
  rintro _ _ rfl
  exact Mutation.results_update.imp fun _ _ same => ⟨same, written⟩

theorem Lawful.events_put (lawful : marking.Lawful codecs fits) (records : List ρ) (store : RunStore ν) :
    (marking.put records store).events = store.events := by
  have logged := congrArg RunStore.events (lawful.put_log records store store.events)
  exact logged

/-- A record that grew is written in the place of what it was. -/
theorem Lawful.kept_replace (lawful : marking.Lawful codecs fits) (stored : Stored codecs store)
    {record next : ρ} (member : record ∈ marking.view store) (grows : marking.Grows record next)
    (written : marking.encode next = .ok () ∧ fits next) :
    let after := marking.put (marking.replace next (marking.view store)) store
    Later codecs store after ∧ Stored codecs after := by
  obtain ⟨distinct, encoded⟩ := lawful.stored store stored
  refine lawful.kept _ store stored (grown_replace distinct member grows) fun other held => ?_
  rcases mem_of_mem_replace held with rfl | before
  · exact written
  · exact encoded other before

/-- Of the records planned, those still unfinished were marked, each with its event. -/
structure Marks (codecs : Codecs) (marking : Marking ν ρ) (cause : Cause) (found : List ρ)
    (before : RunStore ν) (marked : List ρ) (after : RunStore ν) : Prop where
  grown : marking.Grown (marking.view before) (marking.view after)
  stored : Stored codecs after
  frame : after = marking.put (marking.view after) { before with events := after.events }
  log : after.events = before.events ++ (marking.unfinished found).map (marking.event cause)
  read : ∀ record ∈ found, marking.decode record = .ok record
  done : ∀ record ∈ found, ∃ next ∈ marking.view after,
    marking.id next = marking.id record ∧ marking.isFinished next = true
  ids : marked.map marking.id = (marking.unfinished found).map marking.id
  written : ∀ record ∈ marked, record ∈ marking.view after

variable {cause : Cause} {found : List ρ}

theorem Marks.later (lawful : marking.Lawful codecs fits) {before after : RunStore ν} {marked : List ρ}
    (stored : Stored codecs before) (marks : Marks codecs marking cause found before marked after) :
    Later codecs before after := by
  have longer : before.events <+: after.events := ⟨_, marks.log.symm⟩
  rw [marks.frame]
  refine (later_log longer).trans (lawful.kept _ _ (stored.log _) ?_ ?_).1
  · rw [lawful.view_log]
    exact marks.grown
  · exact (lawful.stored _ marks.stored).2

/-- Nothing is done about a record that was finished meanwhile. -/
theorem Marks.skip {before after : RunStore ν} {marked : List ρ} {record : ρ}
    (marks : Marks codecs marking cause found before marked after)
    (member : record ∈ marking.view before) (read : marking.decode record = .ok record)
    (finished : marking.isFinished record = true) :
    Marks codecs marking cause (record :: found) before marked after := by
  have same : marking.unfinished (record :: found) = marking.unfinished found := by
    rw [unfinished, List.filter_cons_of_neg (by simp [finished])]
    rfl
  refine { marks with
    log := by rw [same]; exact marks.log
    read := List.forall_mem_cons.mpr ⟨read, marks.read⟩
    done := ?_
    ids := by rw [same]; exact marks.ids }
  intro other held
  rcases List.mem_cons.mp held with rfl | held
  · obtain ⟨next, there, grew⟩ := marks.grown.image member
    exact ⟨next, there, grew.same, by rw [grew.final finished]; exact finished⟩
  · exact marks.done other held

/-- One record was marked before the rest. -/
theorem Marks.cons (lawful : marking.Lawful codecs fits) {before after : RunStore ν} {marked : List ρ}
    {record next : ρ} (stored : Stored codecs before) (member : record ∈ marking.view before)
    (read : marking.decode record = .ok record) (grows : marking.Grows record next)
    (unfinished_ : marking.isFinished record = false) (finished : marking.isFinished next = true)
    (marks : Marks codecs marking cause found
      { marking.put (marking.replace next (marking.view before)) before with
        events := before.events ++ [marking.event cause record] } marked after) :
    Marks codecs marking cause (record :: found) before (next :: marked) after := by
  have here : marking.unfinished (record :: found) = record :: marking.unfinished found := by
    rw [unfinished, List.filter_cons_of_pos (by simp [unfinished_])]
    rfl
  have grown := marks.grown
  rw [lawful.view_log, lawful.view_put] at grown
  obtain ⟨last, there, grew⟩ := grown.image (mem_replace member grows.same)
  have same := grew.final finished
  refine
    { grown := (grown_replace (lawful.stored _ stored).1 member grows).trans grown
      stored := marks.stored
      frame := ?_
      log := ?_
      read := List.forall_mem_cons.mpr ⟨read, marks.read⟩
      done := ?_
      ids := ?_
      written := ?_ }
  · rw [← lawful.put_put _ (marking.replace next (marking.view before)),
      lawful.put_log (marking.replace next (marking.view before))]
    exact marks.frame
  · rw [marks.log, here, List.map_cons]
    simp only [List.append_assoc, List.singleton_append]
  · intro other held
    rcases List.mem_cons.mp held with rfl | held
    · exact ⟨last, there, by rw [same, grows.same], by rw [same]; exact finished⟩
    · exact marks.done other held
  · rw [here, List.map_cons, List.map_cons, grows.same, marks.ids]
  · intro other held
    rcases List.mem_cons.mp held with rfl | held
    · exact same ▸ there
    · exact marks.written other held

/-- What was planned for some of the records of a kind marks those of them that are unfinished, or
stops at a statement, a revision, an instant or a row that cannot be read. -/
theorem results_markEach (lawful : marking.Lawful codecs fits) (stored : Stored codecs store)
    (barred : ∀ error, Barred codecs accepts cause.at_ error → bad error)
    (distinct : (found.map marking.id).Nodup) (there : ∀ record ∈ found, record ∈ marking.view store)
    (unreadable : ∀ record ∈ found, ∀ error, marking.decode record = .error error → bad error) :
    (marking.markEach codecs accepts cause.at_ (marking.described cause found)).Results store
      (Marks codecs marking cause found store) bad := by
  induction found generalizing store with
  | nil =>
    exact {
      grown := .refl _ _
      stored := stored
      frame := (lawful.put_view store).symm
      log := (List.append_nil _).symm
      read := fun _ member => by cases member
      done := fun _ member => by cases member
      ids := rfl
      written := fun _ member => by cases member }
  | cons record found ih =>
    have member := there record List.mem_cons_self
    have apart : ∀ other ∈ found, marking.id other ≠ marking.id record := fun other held same =>
      (List.nodup_cons.mp distinct).1 (List.mem_map.mpr ⟨other, held, same⟩)
    have written := lawful.stored store stored
    have alone : ∀ other ∈ marking.view store, marking.id other = marking.id record → other = record :=
      fun other held same => List.inj_on_of_nodup_map written.1 held member same
    have rest := fun other held => unreadable other (List.mem_cons_of_mem _ held)
    refine (results_load lawful (fun _ refused => barred _ (.refused refused))
      (fun missing => absurd rfl (missing record member)) fun other held same error refused => ?_).bind ?_
    · obtain rfl := alone other held same
      exact unreadable other List.mem_cons_self error refused
    rintro loaded _ ⟨rfl, held, same, read⟩
    obtain rfl := alone loaded held same
    cases finished : marking.isFinished loaded with
    | true =>
      rw [if_pos rfl]
      refine (ih stored (List.nodup_cons.mp distinct).2
        (fun other held => there other (List.mem_cons_of_mem _ held)) rest).imp fun _ _ marks => ?_
      exact marks.skip member read finished
    | false =>
      rw [if_neg Bool.false_ne_true]
      obtain ⟨encoded, fitting⟩ := written.2 loaded member
      obtain ⟨next, marked, grows, fits, ended, unwritable⟩ :=
        lawful.mark cause.at_ loaded finished encoded fitting read
      refine (Mutation.results_check fun error refused => ?_).bind ?_
      · rw [marked] at refused
        cases refused
      rintro _ _ ⟨same, rfl⟩
      obtain rfl := Except.ok.inj (marked.symm.trans same)
      refine (results_update (fun _ refused => barred _ (.refused refused)) fun error refused =>
        barred _ (.inr (unwritable error refused))).bind ?_
      rintro _ _ ⟨rfl, encoded⟩
      refine (results_append (fun _ refused => barred _ (.refused refused)) fun error refused => ?_).bind ?_
      · rw [lawful.instant] at refused
        exact barred _ (.inr (unwritable_of_encodeInstant refused))
      rintro _ _ rfl
      have kept := (lawful.kept_replace stored member grows ⟨encoded, fits⟩).2
      refine (ih (kept.log _) (List.nodup_cons.mp distinct).2 (fun other held => ?_) rest).bind ?_
      · rw [lawful.view_log, lawful.view_put]
        refine mem_replace_of_ne (there other (List.mem_cons_of_mem _ held)) ?_
        rw [grows.same]
        exact apart other held
      · intro rest after marks
        rw [lawful.events_put] at marks
        exact marks.cons lawful stored member read grows finished ended

/-- Once everything unfinished was planned for, everything is finished. -/
theorem Marks.all_finished (lawful : marking.Lawful codecs fits) {before after : RunStore ν}
    {marked : List ρ} (marks : Marks codecs marking cause found before marked after)
    (all : marking.unfinished found = marking.unfinished (marking.view before)) :
    ∀ record ∈ marking.view after, marking.isFinished record = true := by
  intro record member
  by_contra open_
  obtain ⟨origin, held, grew⟩ := marks.grown.origin member
  have unfinished_ : (!marking.isFinished origin) = true := by
    cases finished : marking.isFinished origin with
    | false => rfl
    | true => rw [grew.final finished] at open_; exact absurd finished open_
  have planned : origin ∈ marking.unfinished found := all ▸ List.mem_filter.mpr ⟨held, unfinished_⟩
  obtain ⟨next, there, same, finished⟩ := marks.done origin (List.mem_filter.mp planned).1
  obtain rfl : next = record := List.inj_on_of_nodup_map (lawful.stored _ marks.stored).1 there member
    (same.trans grew.same.symm)
  exact open_ finished

/-- What was planned from rows that have grown to those there are now. -/
def Current (marking : Marking ν ρ) (cause : Cause)
    (planned : List (ℕ × RunEvent (Json.Value ν))) (records : List ρ) : Prop :=
  ∃ earlier, marking.Grown earlier records ∧
    planned = marking.described cause (marking.unfinished earlier)

theorem Current.results_markEach (lawful : marking.Lawful codecs fits) (stored : Stored codecs store)
    {planned : List (ℕ × RunEvent (Json.Value ν))}
    (current : marking.Current cause planned (marking.view store))
    (barred : ∀ error, Barred codecs accepts cause.at_ error → bad error)
    (unreadable : ∀ record ∈ marking.view store, ∀ error, marking.decode record = .error error →
      bad error) :
    (marking.markEach codecs accepts cause.at_ planned).Results store
      (fun marked after => ∃ found, marking.unfinished found = marking.unfinished (marking.view store) ∧
        Marks codecs marking cause found store marked after) bad := by
  obtain ⟨earlier, grows, rfl⟩ := current
  obtain ⟨found, within, same, all⟩ := grows.planned cause
  have distinct := (lawful.stored store stored).1.sublist (within.map marking.id)
  rw [same]
  exact (Marking.results_markEach lawful stored barred distinct (fun record held => within.subset held)
    fun record held => unreadable record (within.subset held)).imp fun _ _ marks => ⟨found, all, marks⟩

end Marking

end Statements

/-- The run is over, with everything under it. -/
structure Ended (store : RunStore ν) : Prop where
  run : store.run.lifecycle.state.isTerminal = true
  toolCalls : ∀ call ∈ store.toolCalls, call.lifecycle.state.isTerminal = true
  steps : ∀ step ∈ store.steps, step.lifecycle.state.isTerminal = true
  approvals : ∀ request ∈ store.approvals, request.state.isTerminal = true

/-- The transaction of a sweep marked the run: it was unfinished, everything is over, and the log has
gained one event for the interruption, one for each record that was unfinished, and one for the run. No
tool call stood in its way. -/
structure Interrupted (codecs : Codecs) (cause : Cause) (before after : RunStore ν)
    (marked : RunInterruption) : Prop where
  unfinished : before.run.lifecycle.state.isTerminal = false
  unstuck : ∀ call ∈ before.toolCalls, ¬call.Stuck
  ended : Ended after
  later : Later codecs before after
  log : after.events = before.events ++ interruptedEvent codecs cause ::
    (((before.toolCalls.filter fun call => !call.lifecycle.state.isTerminal).map
        (toolCallEvent cause)) ++
      ((before.steps.filter fun step => !step.lifecycle.state.isTerminal).map (stepEvent cause)) ++
      ((before.approvals.filter fun request => decide (request.state = .pending)).map fun request =>
        unansweredEvent codecs request .superseded cause.at_) ++
      [runStateEvent cause])
  run : marked.run = before.run.id
  toolCalls : marked.toolCalls =
    (before.toolCalls.filter fun call => !call.lifecycle.state.isTerminal).map fun call => call.id
  steps : marked.steps =
    (before.steps.filter fun step => !step.lifecycle.state.isTerminal).map fun step => step.id
  approvals : (marked.approvals.map fun request => request.id) =
    (before.approvals.filter fun request => decide (request.state = .pending)).map fun request =>
      request.id
  stored : ∀ request ∈ marked.approvals, request ∈ after.approvals

/-- What a transaction may end in. -/
def Concludes (codecs : Codecs) (cause : Cause) (before : RunStore ν)
    (result : Option RunInterruption) (after : RunStore ν) : Prop :=
  match result with
  | none => before.run.lifecycle.state.isTerminal = true ∧ after = before
  | some marked => Interrupted codecs cause before after marked ∧ Stored codecs after

/-- What a sweep holds when its transaction begins. -/
structure Ready (codecs : Codecs) (cause : Cause) (planned : Planned ν) (store : RunStore ν) :
    Prop where
  lease : planned.lease = cause.lease
  interrupted : planned.interrupted = interruptedEvent codecs cause
  runState : planned.runState = runStateEvent cause
  toolCalls : (toolCallMarking codecs).Current cause planned.toolCalls store.toolCalls
  steps : (stepMarking codecs).Current cause planned.steps store.steps
  approvals : (approvalMarking codecs).Current cause planned.approvals store.approvals

/-- An unfinished run may be written, with anything added to its log. -/
theorem later_run {store : RunStore ν} {run : Run} {events : List (RunEvent (Json.Value ν))}
    {leases : List (LeaseId × Option Instant)} (same : run.id = store.run.id)
    (unfinished : store.run.lifecycle.state.isTerminal = false)
    (longer : store.events <+: events) : Later codecs store { store with run, events, leases } :=
  ⟨same, fun over_ => absurd (unfinished.symm.trans over_) Bool.false_ne_true, .refl _ _, .refl _ _,
    .refl _ _, longer⟩

section Frames

variable {cause : Cause} {before after : RunStore ν}

theorem frame_toolCalls {found marked : List (ToolCall ν)}
    (marks : Marking.Marks codecs (toolCallMarking codecs) cause found before marked after) :
    after = { before with toolCalls := after.toolCalls, events := after.events } :=
  marks.frame

theorem frame_steps {found marked : List Step}
    (marks : Marking.Marks codecs (stepMarking codecs) cause found before marked after) :
    after = { before with steps := after.steps, events := after.events } :=
  marks.frame

theorem frame_approvals {found marked : List ApprovalRequest}
    (marks : Marking.Marks codecs (approvalMarking codecs) cause found before marked after) :
    after = { before with approvals := after.approvals, events := after.events } :=
  marks.frame

end Frames

variable (codecs) in
theorem unfinished_approvals (requests : List ApprovalRequest) :
    (approvalMarking (ν := ν) codecs).unfinished requests =
      requests.filter fun request => decide (request.state = .pending) := by
  refine List.filter_congr fun request _ => ?_
  change (!decide (request.state ≠ .pending)) = _
  rw [decide_not, Bool.not_not]

/-- A stuck call is unfinished, so it would have been read. -/
theorem unstuck_of_marks {cause : Cause} {store before after : RunStore ν} {found calls : List (ToolCall ν)}
    (marked : Marking.Marks codecs (toolCallMarking codecs) cause found before calls after)
    (all : (toolCallMarking codecs).unfinished found = (toolCallMarking codecs).unfinished store.toolCalls) :
    ∀ call ∈ store.toolCalls, ¬call.Stuck := by
  intro call member stuck
  have open_ : call ∈ (toolCallMarking codecs).unfinished store.toolCalls :=
    List.mem_filter.mpr ⟨member, by
      change (!call.lifecycle.state.isTerminal) = true
      rw [stuck.1]
      rfl⟩
  rw [← all] at open_
  have read := marked.read call (List.mem_filter.mp open_).1
  exact stuck.not_valid (ToolCall.tryFrom_eq_ok (Except.mapError_eq_ok.mp read)).2

/-- No request that was marked is left pending. -/
theorem ended_of_marks {cause : Cause} {before after : RunStore ν}
    {found marked : List ApprovalRequest}
    (marks : Marking.Marks codecs (approvalMarking codecs) cause found before marked after)
    (all : (@approvalMarking ν codecs).unfinished found =
      (@approvalMarking ν codecs).unfinished before.approvals) :
    ∀ request ∈ after.approvals, request.state.isTerminal = true := by
  intro request member
  have finished := marks.all_finished lawful_approval all request member
  cases open_ : request.state.isTerminal with
  | true => rfl
  | false => exact absurd (ApprovalRequest.isTerminal_eq_false.mp open_) (of_decide_eq_true finished)

/-- The three kinds marked one after another, and then the run, are the markings of one run. -/
theorem concludes_of_marks {cause : Cause} {store withCalls withSteps withApprovals : RunStore ν}
    {foundCalls calls : List (ToolCall ν)} {foundSteps steps : List Step}
    {foundApprovals approvals : List ApprovalRequest} {run : Run}
    {leases : List (LeaseId × Option Instant)} (stored : Stored codecs store)
    (unfinished : store.run.lifecycle.state.isTerminal = false)
    (markedCalls : Marking.Marks codecs (toolCallMarking codecs) cause foundCalls
      { store with events := store.events ++ [interruptedEvent codecs cause] } calls withCalls)
    (allCalls : (toolCallMarking codecs).unfinished foundCalls =
      (toolCallMarking codecs).unfinished store.toolCalls)
    (markedSteps : Marking.Marks codecs (stepMarking codecs) cause foundSteps withCalls steps withSteps)
    (allSteps : (@stepMarking ν codecs).unfinished foundSteps =
      (@stepMarking ν codecs).unfinished store.steps)
    (markedApprovals : Marking.Marks codecs (approvalMarking codecs) cause foundApprovals withSteps
      approvals withApprovals)
    (allApprovals : (@approvalMarking ν codecs).unfinished foundApprovals =
      (@approvalMarking ν codecs).unfinished store.approvals)
    (same : run.id = store.run.id) (ended : run.lifecycle.state.isTerminal = true)
    (encoded : encodeLifecycle codecs .run run.lifecycle = .ok ())
    (shaped : Execution.Shaped run.toProgress ∧ run.Provenance) :
    Concludes codecs cause store
      (some {
        run := run.id
        steps := steps.map fun step => step.id
        toolCalls := calls.map fun call => call.id
        approvals })
      { withApprovals with
        run
        events := withApprovals.events ++ [runStateEvent cause]
        leases } := by
  have frameCalls := frame_toolCalls markedCalls
  have frameSteps := frame_steps markedSteps
  have frameApprovals := frame_approvals markedApprovals
  have sameRun : withApprovals.run = store.run := by rw [frameApprovals, frameSteps, frameCalls]
  have steps_ : withCalls.steps = store.steps := by rw [frameCalls]
  have approvals_ : withSteps.approvals = store.approvals := by rw [frameSteps, frameCalls]
  have lastCalls : withApprovals.toolCalls = withCalls.toolCalls := by
    rw [frameApprovals, frameSteps]
  have lastSteps : withApprovals.steps = withSteps.steps := by rw [frameApprovals]
  have closed := ended_of_marks markedApprovals (allApprovals.trans (congrArg _ approvals_.symm))
  refine ⟨?_, encoded, shaped, markedApprovals.stored.toolCalls, markedApprovals.stored.steps,
    markedApprovals.stored.approvals⟩
  refine
    { unfinished := unfinished
      unstuck := unstuck_of_marks markedCalls allCalls
      ended :=
        { run := ended
          toolCalls := lastCalls ▸ markedCalls.all_finished lawful_toolCall allCalls
          steps := lastSteps ▸ markedSteps.all_finished lawful_step
            (allSteps.trans (congrArg _ steps_.symm))
          approvals := closed }
      later := ?_
      log := ?_
      run := same
      toolCalls := markedCalls.ids.trans (congrArg _ allCalls)
      steps := markedSteps.ids.trans (congrArg _ allSteps)
      approvals := ?_
      stored := markedApprovals.written }
  · refine (later_log (List.prefix_append _ [interruptedEvent codecs cause])).trans ?_
    refine (markedCalls.later lawful_toolCall (stored.log _)).trans ?_
    refine (markedSteps.later lawful_step markedCalls.stored).trans ?_
    refine (markedApprovals.later lawful_approval markedSteps.stored).trans ?_
    refine later_run (same.trans (by rw [sameRun])) ?_ (List.prefix_append _ _)
    rw [sameRun]
    exact unfinished
  · change withApprovals.events ++ _ = _
    rw [markedApprovals.log, markedSteps.log, markedCalls.log, allCalls, allSteps, allApprovals,
      unfinished_approvals]
    simp only [List.append_assoc, List.singleton_append]
    rfl
  · rw [← unfinished_approvals codecs (ν := ν), ← allApprovals]
    exact markedApprovals.ids

/-- Of the rows of a run, only that of a stuck call cannot be read. -/
theorem stuck_of_decode {store : RunStore ν} (stored : Stored codecs store) {call : ToolCall ν}
    (member : call ∈ store.toolCalls) {error : RecoveryError}
    (refused : (toolCallMarking codecs).decode call = .error error) : call.Stuck := by
  by_contra free
  obtain ⟨-, recorded⟩ := stored.toolCalls.2 call member
  change (ToolCall.tryFrom call.toWire).mapError _ = _ at refused
  rw [recorded.tryFrom free] at refused
  cases refused

theorem decode_step {store : RunStore ν} (stored : Stored codecs store) {step : Step}
    (member : step ∈ store.steps) : (@stepMarking ν codecs).decode step = .ok step := by
  obtain ⟨-, shaped⟩ := stored.steps.2 step member
  change (Step.tryFrom step.toWire).mapError _ = _
  rw [Step.tryFrom_toWire shaped]
  rfl

theorem decode_approval {store : RunStore ν} (stored : Stored codecs store) {request : ApprovalRequest}
    (member : request ∈ store.approvals) :
    (@approvalMarking ν codecs).decode request = .ok request := by
  obtain ⟨-, consistent⟩ := stored.approvals.2 request member
  exact Except.mapError_eq_ok.mpr (ApprovalRequest.fromStored_eq_ok.mpr consistent)

/-- The transaction of a sweep is barred, or the run is unfinished and has a stuck call. -/
def Hindered (codecs : Codecs) (accepts : Statement → Bool) (at_ : Instant) (store : RunStore ν)
    (error : RecoveryError) : Prop :=
  Barred codecs accepts at_ error ∨
    store.run.lifecycle.state.isTerminal = false ∧ ∃ call ∈ store.toolCalls, call.Stuck

theorem Barred.hindered {accepts : Statement → Bool} {at_ : Instant} {store : RunStore ν}
    (error : RecoveryError) (barred : Barred codecs accepts at_ error) :
    Hindered codecs accepts at_ store error := .inl barred

theorem results_apply (accepts : Statement → Bool) {cause : Cause} {planned : Planned ν}
    {store : RunStore ν} (stored : Stored codecs store) (ready : Ready codecs cause planned store) :
    (apply codecs accepts planned cause.at_).Results store (Concludes codecs cause store)
      (Hindered codecs accepts cause.at_ store) := by
  refine (results_loadRun stored fun _ refused => .inl (.refused refused)).bind ?_
  rintro _ _ ⟨rfl, rfl⟩
  next store =>
  cases over_ : store.run.lifecycle.state.isTerminal with
  | true => exact ⟨over_, rfl⟩
  | false =>
    rw [if_neg Bool.false_ne_true, ready.interrupted, ready.runState]
    refine (results_append (fun _ refused => .inl (.refused refused)) fun error refused =>
      .inl (.inr (unwritable_of_encodeInstant refused))).bind ?_
    rintro _ _ rfl
    refine (ready.toolCalls.results_markEach lawful_toolCall (stored.log _) Barred.hindered
      fun call held error refused => .inr ⟨over_, call, held, stuck_of_decode stored held refused⟩).bind ?_
    rintro calls withCalls ⟨foundCalls, allCalls, markedCalls⟩
    have sameSteps : withCalls.steps = store.steps := by rw [frame_toolCalls markedCalls]
    refine ((sameSteps ▸ ready.steps).results_markEach lawful_step markedCalls.stored Barred.hindered
      fun step held error refused => ?_).bind ?_
    · rw [decode_step markedCalls.stored held] at refused
      cases refused
    rintro steps withSteps ⟨foundSteps, allSteps, markedSteps⟩
    have sameApprovals : withSteps.approvals = store.approvals := by
      rw [frame_steps markedSteps, frame_toolCalls markedCalls]
    refine ((sameApprovals ▸ ready.approvals).results_markEach lawful_approval markedSteps.stored
      Barred.hindered fun request held error refused => ?_).bind ?_
    · rw [decode_approval markedSteps.stored held] at refused
      cases refused
    rintro approvals withApprovals ⟨foundApprovals, allApprovals, markedApprovals⟩
    -- the run is as it was loaded, so it can be ended like the records under it
    have ran := interrupt_run cause.at_ over_ (room_of_stored stored.run)
    have moved := (moveTo_eq_ok RecoveryError.invalidTransition).mpr ran
    have accepted : Run.apply (.transition .interrupted cause.at_) store.run = _ := ran
    have moves := (Run.moves_of_apply accepted).1
    refine (Mutation.results_check fun error refused => ?_).bind ?_
    · rw [moved] at refused
      cases refused
    rintro run _ ⟨same, rfl⟩
    obtain rfl := Except.ok.inj (moved.symm.trans same)
    refine (results_updateRun (fun _ refused => .inl (.refused refused)) fun error refused =>
      .inl (.inr (unwritable_of_encodeLifecycle stored.run refused))).bind ?_
    rintro _ _ ⟨rfl, encoded⟩
    refine (results_append (fun _ refused => .inl (.refused refused)) fun error refused =>
      .inl (.inr (unwritable_of_encodeInstant refused))).bind ?_
    rintro _ _ rfl
    refine (results_releaseOwner (fun _ refused => .inl (.refused refused)) fun error refused =>
      .inl (.inr (unwritable_of_encodeInstant refused))).bind ?_
    rintro _ _ ⟨leases, rfl⟩
    exact concludes_of_marks stored over_ markedCalls allCalls markedSteps (sameSteps ▸ allSteps)
      markedApprovals (sameApprovals ▸ allApprovals) rfl rfl encoded
      ⟨stored.shaped.1.kept moves, ⟨stored.shaped.2.other, stored.shaped.2.warned⟩⟩

end Harkness.Runtime.Store.Recovery
