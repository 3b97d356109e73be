import Harkness.Runtime.Domain.Discipline
import Harkness.Runtime.Domain.Wire

/-! # Which records come back from their wire form

The checks of the wire form ask for the shape of a record, and the operations keep that shape. A record comes
back as it was where its timestamps have a text, which is up to the year 9999. A tool call comes back unless
moreover it succeeded with a null, which is read as no output, or was sent to approval by hand after policy
allowed it.
-/

namespace Harkness.Runtime.Domain.Record

open Policy LifecycleState

theorem validateSchemaVersion_current (record : String) :
    validateSchemaVersion record runtimeRecordSchemaVersion = .ok () := rfl

theorem validateFailure_eq_ok {record : String} {required : Bool} {failure : Option Failure}
    {u : Unit} :
    validateFailure record required failure = .ok u ↔ (failure.isSome ↔ required = true) := by
  cases required <;> cases failure <;> simp [validateFailure]

theorem validateOutput_eq_ok {ν : Type} {state : ToolCallState} {output : Option (Json.Value ν)}
    {u : Unit} :
    validateOutput state output = .ok u ↔ (output.isSome ↔ state = .succeeded) := by
  unfold validateOutput
  by_cases succeeded : state = .succeeded <;> cases output <;> simp [succeeded]

section Times

variable {Time Other : Type} {change : Time → Option Other} {back : Other → Option Time}
  {times : TimesWire Time} {written : TimesWire Other}

theorem TimesWire.convert_eq_some : times.convert change = some written ↔
    change times.createdAt = some written.createdAt ∧ change times.updatedAt = some written.updatedAt ∧
      times.startedAt.mapM change = some written.startedAt ∧
      times.finishedAt.mapM change = some written.finishedAt ∧
      (times.approvals.mapM fun approval =>
        (change approval.decidedAt).map fun decidedAt => { approval with decidedAt }) =
          some written.approvals := by
  obtain ⟨createdAt, updatedAt, startedAt, finishedAt, approvals⟩ := written
  simp only [convert, Option.bind_eq_bind, Option.bind_eq_some_iff, Option.pure_def, Option.some.injEq,
    TimesWire.mk.injEq]
  constructor
  · rintro ⟨_, created, _, updated, _, started, _, finished, _, decided, rfl, rfl, rfl, rfl, rfl⟩
    exact ⟨created, updated, started, finished, decided⟩
  · rintro ⟨created, updated, started, finished, decided⟩
    exact ⟨_, created, _, updated, _, started, _, finished, _, decided, rfl, rfl, rfl, rfl, rfl⟩

/-- What every timestamp comes back from, all of them come back from. -/
theorem TimesWire.convert_back (inverse : ∀ at_ text, change at_ = some text → back text = some at_)
    (converted : times.convert change = some written) : written.convert back = some times := by
  obtain ⟨created, updated, started, finished, decided⟩ := convert_eq_some.mp converted
  have optional : ∀ {one : Option Time} {other : Option Other}, one.mapM change = some other →
      other.mapM back = some one := by
    intro one other same
    cases one with
    | none =>
      obtain rfl := Option.some.inj same
      rfl
    | some at_ =>
      obtain ⟨text, spelled, rfl⟩ := Option.map_eq_some_iff.mp same
      exact Option.map_eq_some_iff.mpr ⟨at_, inverse at_ text spelled, rfl⟩
  refine convert_eq_some.mpr ⟨inverse _ _ created, inverse _ _ updated, optional started,
    optional finished, ?_⟩
  refine List.mapM_eq_some_iff.mpr (List.Forall₂.flip ?_)
  refine (List.mapM_eq_some_iff.mp decided).imp fun approval text spelled => ?_
  obtain ⟨decidedAt, decision, rfl⟩ := Option.map_eq_some_iff.mp spelled
  exact Option.map_eq_some_iff.mpr ⟨_, inverse _ _ decision, rfl⟩

/-- All timestamps are converted exactly where each can be. -/
theorem TimesWire.convert_isSome :
    (∃ written, times.convert change = some written) ↔ ∀ at_ ∈ times.all, (change at_).isSome = true := by
  simp only [all, List.forall_mem_cons, List.forall_mem_append]
  constructor
  · rintro ⟨written, converted⟩
    obtain ⟨created, updated, started, finished, decided⟩ := convert_eq_some.mp converted
    have optional : ∀ {one : Option Time} {other : Option Other}, one.mapM change = some other →
        ∀ at_ ∈ one.toList, (change at_).isSome = true := by
      intro one other same at_ member
      obtain rfl := Option.mem_toList.mp member
      obtain ⟨text, spelled, -⟩ := Option.map_eq_some_iff.mp same
      exact Option.isSome_iff_exists.mpr ⟨text, spelled⟩
    refine ⟨Option.isSome_iff_exists.mpr ⟨_, created⟩, Option.isSome_iff_exists.mpr ⟨_, updated⟩,
      optional started, optional finished, ?_⟩
    rintro _ member
    obtain ⟨approval, listed, rfl⟩ := List.mem_map.mp member
    simpa using List.isSome_of_mapM_eq_some decided listed
  · rintro ⟨created, updated, started, finished, decided⟩
    have optional : ∀ {one : Option Time}, (∀ at_ ∈ one.toList, (change at_).isSome = true) →
        ∃ other, one.mapM change = some other := by
      intro one each
      cases one with
      | none => exact ⟨none, rfl⟩
      | some at_ =>
        obtain ⟨text, spelled⟩ := Option.isSome_iff_exists.mp (each at_ List.mem_cons_self)
        exact ⟨some text, Option.map_eq_some_iff.mpr ⟨text, spelled, rfl⟩⟩
    obtain ⟨createdAt, created⟩ := Option.isSome_iff_exists.mp created
    obtain ⟨updatedAt, updated⟩ := Option.isSome_iff_exists.mp updated
    obtain ⟨startedAt, started⟩ := optional started
    obtain ⟨finishedAt, finished⟩ := optional finished
    have each : ∀ approval ∈ times.approvals, ((change approval.decidedAt).map fun decidedAt =>
        ({ approval with decidedAt } : ApprovalAt Other)).isSome = true := fun approval member => by
      simpa using decided _ (List.mem_map_of_mem member)
    obtain ⟨approvals, decided⟩ := List.exists_mapM_eq_some each
    exact ⟨⟨createdAt, updatedAt, startedAt, finishedAt, approvals⟩,
      convert_eq_some.mpr ⟨created, updated, started, finished, decided⟩⟩

end Times

section Json

variable {ν : Type} {codec : Rfc3339 Instant}

/-- Timestamps have texts where each of them has, and are read back behind the current version. -/
theorem readTimes_of_convert (lawful : codec.Lawful FourDigitYear) {times : TimesWire Instant}
    {written : TimesWire String} (record : String) (converted : times.convert codec.format = some written) :
    readTimes codec record runtimeRecordSchemaVersion written = .ok times := by
  rw [readTimes, TimesWire.convert_back lawful.parse converted]
  rfl

theorem convert_format_isSome (lawful : codec.Lawful FourDigitYear) {times : TimesWire Instant} :
    (∃ written, times.convert codec.format = some written) ↔ ∀ at_ ∈ times.all, FourDigitYear at_ := by
  simp only [TimesWire.convert_isSome, lawful.format]

/-- What is read of what is written of a record, which is written where its timestamps have texts. -/
theorem comesBack_iff {Written Wire : Type} (lawful : codec.Lawful FourDigitYear)
    {times : TimesWire Instant} {put : TimesWire String → Written}
    {deserialize : Written → Except (ReadError RunDomainError) Wire} {wire : Wire} {passes : Wire → Prop}
    (read : ∀ written, times.convert codec.format = some written → deserialize (put written) = .ok wire) :
    (∃ written, (times.convert codec.format).map put = some written ∧
      ∃ other, deserialize written = .ok other ∧ passes other) ↔
      (∀ at_ ∈ times.all, FourDigitYear at_) ∧ passes wire := by
  rw [← convert_format_isSome lawful]
  constructor
  · rintro ⟨_, serialized, other, same, passed⟩
    obtain ⟨texts, converted, rfl⟩ := Option.map_eq_some_iff.mp serialized
    obtain rfl := Except.ok.inj ((read texts converted).symm.trans same)
    exact ⟨⟨texts, converted⟩, passed⟩
  · rintro ⟨⟨texts, converted⟩, passed⟩
    exact ⟨_, Option.map_eq_some_iff.mpr ⟨texts, converted, rfl⟩, wire, read texts converted, passed⟩

theorem Run.roundTrips_iff (lawful : codec.Lawful FourDigitYear) {run : Run} : run.RoundTrips codec ↔
    (∀ at_ ∈ run.toWire.all, FourDigitYear at_) ∧ tryFrom run.toWire = .ok run :=
  comesBack_iff lawful fun _ converted =>
    congrArg (Except.map fun times => ({ run.toWire with toTimesWire := times } : RunWire Instant))
      (readTimes_of_convert lawful "run" converted)

theorem Step.roundTrips_iff (lawful : codec.Lawful FourDigitYear) {step : Step} : step.RoundTrips codec ↔
    (∀ at_ ∈ step.toWire.all, FourDigitYear at_) ∧ tryFrom step.toWire = .ok step :=
  comesBack_iff lawful fun _ converted =>
    congrArg (Except.map fun times => ({ step.toWire with toTimesWire := times } : StepWire Instant))
      (readTimes_of_convert lawful "step" converted)

/-- As for a run, but that a null output is read as no output. -/
theorem ToolCall.roundTrips_iff (lawful : codec.Lawful FourDigitYear) {call : ToolCall ν} :
    call.RoundTrips codec ↔ (∀ at_ ∈ call.toWire.all, FourDigitYear at_) ∧
      tryFrom { call.toWire with output := readOptional call.output } = .ok call :=
  comesBack_iff lawful fun _ converted =>
    congrArg (Except.map fun times => ({ call.toWire with
        toTimesWire := times, output := readOptional call.output } : ToolCallWire ν Instant))
      (readTimes_of_convert lawful "tool_call" converted)

end Json

section Approvals

variable {S : Type} [DecidableEq S] [LifecycleState S]

/-- The approvals of a record are dated within its life, in order, each by somebody. -/
structure ApprovalsInOrder (lifecycle : Lifecycle S) (approvals : List Approval) : Prop where
  dated : ∀ approval ∈ approvals, lifecycle.createdAt ≤ approval.decidedAt ∧
    approval.decidedAt ≤ lifecycle.updatedAt ∧ isBlank approval.decidedBy = false
  ordered : (approvals.map (·.decidedAt)).Pairwise (· ≤ ·)

theorem ApprovalsInOrder.moved {lifecycle : Lifecycle S} {approvals : List Approval}
    (inOrder : ApprovalsInOrder lifecycle approvals) (target : S) (at_ : Instant) :
    ApprovalsInOrder (lifecycle.moved target at_) approvals where
  dated approval member := by
    obtain ⟨after, before, named⟩ := inOrder.dated approval member
    exact ⟨after, before.trans (le_max_right _ _), named⟩
  ordered := inOrder.ordered

/-- A decision dated by the move it led to comes last. -/
theorem ApprovalsInOrder.push {lifecycle : Lifecycle S} {approvals : List Approval}
    (inOrder : ApprovalsInOrder lifecycle approvals) (formed : lifecycle.WellFormed) (target : S)
    (at_ : Instant) {decidedBy : String} (named : isBlank decidedBy = false)
    (decision : ApprovalOutcome) :
    ApprovalsInOrder (lifecycle.moved target at_)
      (approvals ++ [⟨decidedBy, decision, max at_ lifecycle.updatedAt⟩]) where
  dated approval member := by
    rcases List.mem_append.mp member with earlier | last
    · exact (inOrder.moved target at_).dated approval earlier
    · obtain rfl := List.mem_singleton.mp last
      exact ⟨formed.updated.trans (le_max_right _ _), le_refl _, named⟩
  ordered := by
    rw [List.map_append, List.pairwise_append]
    refine ⟨inOrder.ordered, List.pairwise_singleton _ _, ?_⟩
    intro earlier before last only
    obtain ⟨approval, member, rfl⟩ := List.mem_map.mp before
    obtain rfl := List.mem_singleton.mp only
    exact (inOrder.dated approval member).2.1.trans (le_max_right _ _)

/-- A record that was made and last moved in a year of four digits. -/
structure Dated (lifecycle : Lifecycle S) : Prop where
  created : FourDigitYear lifecycle.createdAt
  updated : FourDigitYear lifecycle.updatedAt

omit [DecidableEq S] in
/-- What happened in between was in such a year as well. -/
theorem Dated.all {lifecycle : Lifecycle S} {approvals : List Approval} (dated : Dated lifecycle)
    (formed : lifecycle.WellFormed) (inOrder : ApprovalsInOrder lifecycle approvals) :
    ∀ at_ ∈ (⟨lifecycle.createdAt, lifecycle.updatedAt, lifecycle.startedAt, lifecycle.finishedAt,
      approvals⟩ : TimesWire Instant).all, FourDigitYear at_ := by
  have between : ∀ at_ : Instant, lifecycle.createdAt ≤ at_ → at_ ≤ lifecycle.updatedAt → FourDigitYear at_ :=
    fun _ after before => ⟨dated.created.1.trans after, before.trans_lt dated.updated.2⟩
  simp only [TimesWire.all, List.forall_mem_cons, List.forall_mem_append]
  refine ⟨dated.created, dated.updated, fun at_ member => ?_, fun at_ member => ?_, fun at_ member => ?_⟩
  · obtain ⟨after, before⟩ := formed.started at_ (Option.mem_toList.mp member)
    exact between at_ after before
  · have finished := Option.mem_toList.mp member
    rw [formed.finished] at finished
    split_ifs at finished
    obtain rfl := Option.some.inj finished
    exact dated.updated
  · obtain ⟨approval, listed, rfl⟩ := List.mem_map.mp member
    obtain ⟨after, before, -⟩ := inOrder.dated approval listed
    exact between _ after before

omit [DecidableEq S] [LifecycleState S] in
theorem dated_of_all {times : TimesWire Instant} (each : ∀ at_ ∈ times.all, FourDigitYear at_)
    {lifecycle : Lifecycle S} (created : lifecycle.createdAt = times.createdAt)
    (updated : lifecycle.updatedAt = times.updatedAt) : Dated lifecycle where
  created := created ▸ each _ List.mem_cons_self
  updated := updated ▸ each _ (List.mem_cons_of_mem _ List.mem_cons_self)

omit [DecidableEq S] in
theorem dated_new {createdAt : Instant} (short : FourDigitYear createdAt) :
    Dated (Lifecycle.new createdAt : Lifecycle S) := ⟨short, short⟩

/-- A reading of the clock that is not past the year 9999. -/
def BeforeYear10000 (at_ : ℤ) : Prop := at_ < 253402300800 * 10 ^ 9

/-- A record stays dated where the reading that it moves with is not past the year 9999. -/
theorem Dated.arrives_iff {self next : Lifecycle S} (dated : Dated self) {at_ : Instant} {state : Option S}
    (arrives : Arrives self next at_ state) : Dated next ↔ (state.isSome → BeforeYear10000 at_) := by
  cases state with
  | none =>
    rw [arrives.1]
    exact iff_of_true dated nofun
  | some state =>
    rw [arrives.2]
    constructor
    · exact fun moved _ => (le_max_left at_ self.updatedAt).trans_lt moved.updated.2
    · intro before
      exact ⟨dated.created, dated.updated.1.trans (le_max_right _ _), max_lt (before rfl) dated.updated.2⟩

/-- The scan finds the denial that stands last, if there is one. -/
theorem scanApprovals_eq {record : String} {createdAt updatedAt : Instant}
    {granted : List Approval} {denial : Option Approval} {index : ℕ} {previous : Option Instant}
    (dated : ∀ approval ∈ granted ++ denial.toList, createdAt ≤ approval.decidedAt ∧
      approval.decidedAt ≤ updatedAt ∧ isBlank approval.decidedBy = false)
    (ordered : ((granted ++ denial.toList).map (·.decidedAt)).Pairwise (· ≤ ·))
    (later : ∀ at_ ∈ previous, ∀ approval ∈ granted ++ denial.toList, at_ ≤ approval.decidedAt)
    (approved : ∀ approval ∈ granted, approval.decision = .approved)
    (denied : ∀ approval ∈ denial, approval.decision = .denied) :
    scanApprovals record createdAt updatedAt index previous none (granted ++ denial.toList) =
      .ok (denial.map fun _ => index + granted.length) := by
  -- one approval that passes its own checks
  have passes : ∀ {index : ℕ} {previous : Option Instant} {approval : Approval} {rest},
      (createdAt ≤ approval.decidedAt ∧ approval.decidedAt ≤ updatedAt ∧
        isBlank approval.decidedBy = false) → (∀ at_ ∈ previous, at_ ≤ approval.decidedAt) →
      scanApprovals record createdAt updatedAt index previous none (approval :: rest) =
        scanApprovals record createdAt updatedAt (index + 1) (some approval.decidedAt)
          (if approval.decision = .denied then some index else none) rest := by
    rintro index previous approval rest ⟨after, before, named⟩ later
    rw [scanApprovals, if_neg (not_or.mpr ⟨not_lt.mpr after, not_lt.mpr before⟩), if_neg,
      if_neg (by rw [named]; exact Bool.false_ne_true), if_neg (fun both => by cases both.2)]
    cases previous with
    | none => simp
    | some at_ => simpa using later at_ rfl
  induction granted generalizing index previous with
  | nil =>
    cases denial with
    | none => rfl
    | some approval =>
      have decision := denied approval rfl
      rw [List.nil_append, Option.toList_some,
        passes (dated approval (by simp)) fun at_ member => later at_ member approval (by simp),
        if_pos decision]
      rfl
  | cons approval granted ih =>
    have decision := approved approval List.mem_cons_self
    rw [List.cons_append] at dated ordered later ⊢
    rw [List.map_cons, List.pairwise_cons] at ordered
    rw [passes (dated approval List.mem_cons_self) fun at_ member =>
      later at_ member approval List.mem_cons_self, if_neg (by rw [decision]; decide)]
    rw [ih (fun approval member => dated approval (List.mem_cons_of_mem _ member)) ordered.2 ?_
      fun approval member => approved approval (List.mem_cons_of_mem _ member)]
    · rw [List.length_cons, Nat.add_right_comm, Nat.add_assoc]
    · rintro at_ ⟨⟩ next member
      exact ordered.1 _ (List.mem_map_of_mem member)

omit [DecidableEq S] [LifecycleState S] in
/-- Approvals in order, with a denial last and only where it may be, pass. -/
theorem validateApprovals_eq_ok [ApprovalState S] {record : String} {lifecycle : Lifecycle S}
    {approvals : List Approval} (inOrder : ApprovalsInOrder lifecycle approvals)
    (initial : ApprovalState.isInitial lifecycle.state → approvals = [])
    (shape : ApprovalState.validateApprovalShape lifecycle.state record lifecycle.startedAt
      lifecycle.revision approvals = .ok ())
    (counted : approvals.length ≤ lifecycle.revision)
    (decided : ∃ granted denial, approvals = granted ++ Option.toList denial ∧
      (∀ approval ∈ granted, approval.decision = .approved) ∧
      ∀ approval ∈ denial, approval.decision = .denied ∧
        ApprovalState.allowsDeniedApproval lifecycle.state) :
    validateApprovals record lifecycle.state lifecycle.createdAt lifecycle.updatedAt
      lifecycle.startedAt lifecycle.revision approvals = .ok () := by
  obtain ⟨granted, denial, rfl, approved, denied⟩ := decided
  have scanned : scanApprovals record lifecycle.createdAt lifecycle.updatedAt 0 none none
      (granted ++ denial.toList) = .ok (denial.map fun _ => 0 + granted.length) :=
    scanApprovals_eq inOrder.dated inOrder.ordered (fun at_ member => by cases member) approved
      fun approval member => (denied approval member).1
  simp only [validateApprovals, Except.bind_eq_ok, refuseWhen_eq_ok]
  refine ⟨(), ?_, (), shape, (), ?_, _, scanned, ?_⟩
  · intro both
    rw [Bool.and_eq_true] at both
    rw [initial both.1] at both
    cases both.2
  · rw [decide_eq_true_eq]
    exact not_lt.mpr counted
  · cases denial with
    | none => simp
    | some approval => simp [(denied approval rfl).2]

end Approvals

namespace Execution

/-- The shape that the operations of runs and steps keep. -/
structure Shaped (progress : Progress ExecutionState) : Prop where
  formed : progress.lifecycle.WellFormed
  bounded : progress.lifecycle.revision < 2 ^ 64
  failure : progress.failure.isSome ↔ progress.lifecycle.state = .failed
  inOrder : ApprovalsInOrder progress.lifecycle progress.approvals
  decided : ∃ granted denial, progress.approvals = granted ++ Option.toList denial ∧
    (∀ approval ∈ granted, approval.decision = .approved) ∧
    ∀ approval ∈ denial, approval.decision = .denied ∧ progress.lifecycle.state = .failed
  started : progress.approvals ≠ [] → progress.lifecycle.startedAt.isSome
  counted : progress.approvals ≠ [] →
    progress.approvals.length * 2 + 1 ≤ progress.lifecycle.revision
  waiting : progress.lifecycle.state = .waitingForApproval →
    progress.approvals.length * 2 + 2 ≤ progress.lifecycle.revision

theorem shaped_new (createdAt : Instant) : Shaped (Progress.new createdAt) where
  formed := Lifecycle.wellFormed_new createdAt
  bounded := Nat.two_pow_pos 64
  failure := by simp [Progress.new, Lifecycle.new, LifecycleState.initial]
  inOrder := ⟨fun _ member => absurd member List.not_mem_nil, List.Pairwise.nil⟩
  decided := ⟨[], none, rfl, fun _ member => absurd member List.not_mem_nil,
    fun _ member => by cases member⟩
  started := fun some => absurd rfl some
  counted := fun some => absurd rfl some
  waiting := fun waiting => by cases waiting

/-- Nothing fails or denies a record that has an edge to follow. -/
private theorem Shaped.open_ {self : Progress ExecutionState} (shaped : Shaped self)
    {target : ExecutionState} (follows : self.lifecycle.Follows target) :
    self.lifecycle.state ≠ .failed ∧
      ∀ approval ∈ self.approvals, approval.decision = .approved := by
  have unfailed : self.lifecycle.state ≠ .failed := by
    intro failed
    have open_ := LawfulLifecycleState.open_ _ follows.1
    rw [failed] at open_
    cases open_
  refine ⟨unfailed, ?_⟩
  obtain ⟨granted, denial, same, approved, denied⟩ := shaped.decided
  cases denial with
  | none =>
    rw [same, Option.toList_none, List.append_nil]
    exact approved
  | some approval => exact absurd (denied approval rfl).2 unfailed

/-- The only way into waiting is from running. -/
private theorem source_of_waiting {source : ExecutionState}
    (edge : (source, ExecutionState.waitingForApproval) ∈ ExecutionState.transitions) :
    source = .running := by
  cases source <;> first | rfl | exact absurd edge (by decide)

/-- A move without a decision keeps the shape. -/
theorem Shaped.moved {self : Progress ExecutionState} (shaped : Shaped self)
    {target : ExecutionState} (follows : self.lifecycle.Follows target) (at_ : Instant)
    {failure : Option Failure} (failed : failure.isSome ↔ target = .failed) :
    Shaped { self.moved target at_ with failure } := by
  obtain ⟨-, approved⟩ := shaped.open_ follows
  refine
    { formed := shaped.formed.moved follows.1 at_
      bounded := follows.2
      failure := failed
      inOrder := shaped.inOrder.moved target at_
      decided := ⟨self.approvals, none, by simp [Progress.moved], approved,
        fun _ member => by cases member⟩
      started := ?_
      counted := fun some => (shaped.counted some).trans (Nat.le_succ _)
      waiting := ?_ }
  · intro some
    have started := shaped.started some
    simp only [Progress.moved, Lifecycle.moved]
    split_ifs
    · rfl
    · exact started
  · intro waiting
    obtain rfl : target = .waitingForApproval := waiting
    have running := source_of_waiting follows.1
    change self.approvals.length * 2 + 2 ≤ self.lifecycle.revision + 1
    cases decided : self.approvals with
    | nil =>
      have moved : self.lifecycle.revision ≠ 0 := fun zero => by
        have initial := shaped.formed.fresh.mpr zero
        rw [running] at initial
        cases initial
      simp only [List.length_nil]
      omega
    | cons approval approvals =>
      have counted := shaped.counted (by rw [decided]; exact List.cons_ne_nil _ _)
      rw [decided] at counted
      omega

/-- A decision and the move it leads to keep the shape. -/
theorem Shaped.decide {self : Progress ExecutionState} (shaped : Shaped self)
    (waiting : self.lifecycle.state = .waitingForApproval) {target : ExecutionState}
    (follows : self.lifecycle.Follows target) (at_ : Instant) {decidedBy : String}
    (named : isBlank decidedBy = false) {decision : ApprovalOutcome} {failure : Option Failure}
    (failed : failure.isSome ↔ target = .failed)
    (outcome : (decision = .approved ∧ target = .running) ∨
      (decision = .denied ∧ target = .failed)) :
    Shaped { self.moved target at_ with
      failure
      approvals := self.approvals ++ [⟨decidedBy, decision, max at_ self.lifecycle.updatedAt⟩] } := by
  obtain ⟨-, approved⟩ := shaped.open_ follows
  have begun : self.lifecycle.startedAt.isSome := shaped.formed.required (by rw [waiting]; rfl)
  refine
    { formed := shaped.formed.moved follows.1 at_
      bounded := follows.2
      failure := failed
      inOrder := shaped.inOrder.push shaped.formed target at_ named decision
      decided := ?_
      started := ?_
      counted := ?_
      waiting := ?_ }
  · rcases outcome with ⟨rfl, rfl⟩ | ⟨rfl, rfl⟩
    · refine ⟨_, none, (List.append_nil _).symm, ?_, fun _ member => by cases member⟩
      intro approval member
      rcases List.mem_append.mp member with earlier | last
      · exact approved approval earlier
      · rw [List.mem_singleton.mp last]
    · refine ⟨self.approvals, some _, rfl, approved, ?_⟩
      rintro approval ⟨⟩
      exact ⟨rfl, rfl⟩
  · intro _
    simp only [Progress.moved, Lifecycle.moved]
    split_ifs
    · rfl
    · exact begun
  · intro _
    have counted := shaped.waiting waiting
    change (self.approvals ++ [_]).length * 2 + 1 ≤ self.lifecycle.revision + 1
    rw [List.length_append, List.length_singleton]
    omega
  · intro again
    obtain rfl : target = .waitingForApproval := again
    rcases outcome with ⟨-, other⟩ | ⟨-, other⟩ <;> cases other

theorem Shaped.kept {self next : Progress ExecutionState} {op : Operation} (shaped : Shaped self)
    (moves : Moves self op next) : Shaped next := by
  cases moves with
  | @transition target at_ follows notFailed ungated =>
    have unfailed : self.failure.isSome ↔ target = .failed :=
      iff_of_false (fun some => (shaped.open_ follows).1 (shaped.failure.mp some)) notFailed
    exact shaped.moved follows at_ unfailed
  | fail follows => exact shaped.moved follows _ (iff_of_true rfl rfl)
  | approve waiting follows named =>
    refine shaped.decide waiting follows _ named (iff_of_false ?_ (by decide)) (.inl ⟨rfl, rfl⟩)
    exact fun some => (shaped.open_ follows).1 (shaped.failure.mp some)
  | rejectApproval waiting follows named =>
    exact shaped.decide waiting follows _ named (iff_of_true rfl rfl) (.inr ⟨rfl, rfl⟩)
  | resumeAfterDenial waiting follows named =>
    refine shaped.moved follows _ (iff_of_false ?_ (by decide))
    exact fun some => (shaped.open_ follows).1 (shaped.failure.mp some)

/-- What the shape gives of the checks that runs and steps have in common. -/
theorem Shaped.validateApprovals {progress : Progress ExecutionState} (shaped : Shaped progress)
    (record : String) :
    validateApprovals record progress.lifecycle.state progress.lifecycle.createdAt
      progress.lifecycle.updatedAt progress.lifecycle.startedAt progress.lifecycle.revision
      progress.approvals = .ok () := by
  have counted : progress.approvals.length ≤ progress.lifecycle.revision := by
    cases decided : progress.approvals with
    | nil => exact Nat.zero_le _
    | cons approval approvals =>
      have counted := shaped.counted (by rw [decided]; exact List.cons_ne_nil _ _)
      rw [decided] at counted
      omega
  refine validateApprovals_eq_ok shaped.inOrder ?_ ?_ counted ?_
  · intro initial
    by_contra some
    have begun := shaped.started some
    rw [shaped.formed.forbidden (by rw [of_decide_eq_true initial]; rfl)] at begun
    cases begun
  · change ExecutionState.validateApprovalShape _ _ _ _ = _
    unfold ExecutionState.validateApprovalShape
    split_ifs with none unstarted large small
    · rfl
    · have begun := shaped.started (fun empty => none (by rw [empty]; rfl))
      rw [Option.isNone_iff_eq_none.mp unstarted] at begun
      cases begun
    · have bound := shaped.counted (fun empty => none (by rw [empty]; rfl))
      have bounded := shaped.bounded
      omega
    · have bound := shaped.counted (fun empty => none (by rw [empty]; rfl))
      omega
    · rfl
  · obtain ⟨granted, denial, same, approved, denied⟩ := shaped.decided
    refine ⟨granted, denial, same, approved, fun approval member => ?_⟩
    exact ⟨(denied approval member).1, decide_eq_true (denied approval member).2⟩

theorem Shaped.validateFailure {progress : Progress ExecutionState} (shaped : Shaped progress)
    (record : String) :
    validateFailure record (progress.lifecycle.state = .failed) progress.failure = .ok () := by
  rw [validateFailure_eq_ok, decide_eq_true_eq]
  exact shaped.failure

end Execution

/-- What the provenance of a run has to be. -/
structure Run.Provenance (run : Run) : Prop where
  other : run.retryOf ≠ some run.id
  warned : run.workspaceMayBeModified → run.retryOf.isSome

/-- A run of that shape passes the checks of its own columns. -/
theorem Run.tryFrom_toWire {run : Run} (shaped : Execution.Shaped run.toProgress)
    (provenance : run.Provenance) : tryFrom run.toWire = .ok run := by
  simp only [Run.tryFrom, Except.bind_eq_ok, refuseWhen_eq_ok]
  refine ⟨(), validateSchemaVersion_current _, run.lifecycle,
    Lifecycle.fromWire_eq_ok.mpr ⟨shaped.formed, rfl⟩, (), shaped.validateFailure "run", (),
    shaped.validateApprovals "run", (), ?_, (), ?_, (), ?_, rfl⟩
  · simp [Run.toWire, runtimeRecordSchemaVersion]
  · rw [decide_eq_true_eq]
    exact provenance.other
  · intro both
    rw [Bool.and_eq_true] at both
    have some := provenance.warned both.1
    rw [Option.isSome_iff_ne_none] at some
    exact some (Option.isNone_iff_eq_none.mp both.2)

theorem Run.roundTrips_of_shaped {codec : Rfc3339 Instant} (lawful : codec.Lawful FourDigitYear) {run : Run}
    (shaped : Execution.Shaped run.toProgress) (provenance : run.Provenance) (dated : Dated run.lifecycle) :
    run.RoundTrips codec :=
  (roundTrips_iff lawful).mpr ⟨dated.all shaped.formed shaped.inOrder, tryFrom_toWire shaped provenance⟩

theorem Step.tryFrom_toWire {step : Step} (shaped : Execution.Shaped step.toProgress) :
    tryFrom step.toWire = .ok step := by
  simp only [Step.tryFrom, Except.bind_eq_ok]
  exact ⟨(), validateSchemaVersion_current _, step.lifecycle,
    Lifecycle.fromWire_eq_ok.mpr ⟨shaped.formed, rfl⟩, (), shaped.validateFailure "step", (),
    shaped.validateApprovals "step", rfl⟩

theorem Step.eq_of_tryFrom {step read : Step} (passed : tryFrom step.toWire = .ok read) : read = step := by
  simp only [Step.tryFrom, Except.bind_eq_ok] at passed
  obtain ⟨-, -, lifecycle, accepted, -, -, -, -, same⟩ := passed
  have kept : _ ∧ step.lifecycle = lifecycle := Lifecycle.fromWire_eq_ok.mp accepted
  obtain rfl := kept.2
  exact (Except.ok.inj same).symm

theorem Step.roundTrips_of_shaped {codec : Rfc3339 Instant} (lawful : codec.Lawful FourDigitYear)
    {step : Step} (shaped : Execution.Shaped step.toProgress) (dated : Dated step.lifecycle) :
    step.RoundTrips codec :=
  (roundTrips_iff lawful).mpr ⟨dated.all shaped.formed shaped.inOrder, tryFrom_toWire shaped⟩

/-- A record comes back in every state that it goes through exactly where it was made in a year of four digits
and every accepted operation is legible, if that keeps an invariant under which it comes back. -/
theorem throughout_dated_iff {σ Op S : Type} [DecidableEq S] [LifecycleState S]
    {apply : Op → Mutation RunDomainError σ Unit} {at_ : Op → Instant} {target : Op → Option S}
    {roundTrips : σ → Prop} (lifecycle : σ → Lifecycle S) (shaped : σ → Prop) (plain : σ → Op → Prop)
    (atomic : ∀ op, (apply op).Atomic)
    (moves : ∀ op self next, apply op self = (.ok (), next) →
      Arrives (lifecycle self) (lifecycle next) (at_ op) (target op))
    (holds : ∀ self, shaped self → Dated (lifecycle self) → roundTrips self)
    (dated : ∀ self, roundTrips self → Dated (lifecycle self))
    (kept : ∀ self op next, shaped self → plain self op → apply op self = (.ok (), next) → shaped next)
    (broken : ∀ self op next, shaped self → ¬plain self op → apply op self = (.ok (), next) →
      ¬roundTrips next)
    {self : σ} (start : shaped self)
    (made : FourDigitYear (lifecycle self).createdAt → Dated (lifecycle self)) (ops : List Op) :
    Mutation.Throughout apply roundTrips self ops ↔ FourDigitYear (lifecycle self).createdAt ∧
      Mutation.EachAccepted apply
        (fun self op => ((target op).isSome → BeforeYear10000 (at_ op)) ∧ plain self op) self ops := by
  by_cases short : FourDigitYear (lifecycle self).createdAt
  · rw [and_iff_right short]
    refine Mutation.throughout_iff apply (I := fun self => shaped self ∧ Dated (lifecycle self)) atomic
      (fun self invariant => holds self invariant.1 invariant.2) ?_ ?_ ⟨start, made short⟩ ops
    · rintro self op next ⟨shape, date⟩ ⟨before, legible⟩ accepted
      exact ⟨kept self op next shape legible accepted,
        (date.arrives_iff (moves op self next accepted)).mpr before⟩
    · rintro self op next ⟨shape, date⟩ illegible accepted back
      refine illegible ⟨(date.arrives_iff (moves op self next accepted)).mp (dated next back), ?_⟩
      by_contra other
      exact broken self op next shape other accepted back
  · refine iff_of_false (fun throughout => ?_) fun both => short both.1
    exact short (dated self (throughout [] ops rfl)).created

/-- Whatever is done to a run, it comes back from its wire form up to the year 9999. -/
theorem Run.throughout_iff {codec : Rfc3339 Instant} (lawful : codec.Lawful FourDigitYear) {run : Run}
    (built : run.Built) (provenance : run.retryOf ≠ some run.id) (ops : List Operation) :
    Mutation.Throughout apply (RoundTrips codec) run ops ↔ FourDigitYear run.lifecycle.createdAt ∧
      Mutation.EachAccepted apply (fun _ op => BeforeYear10000 op.at_) run ops := by
  have shaped : Execution.Shaped run.toProgress ∧ run.Provenance := by
    cases built with
    | fresh id taskId createdAt =>
      exact ⟨Execution.shaped_new createdAt, provenance, fun warned => by cases warned⟩
    | retrying id taskId original flag createdAt =>
      exact ⟨Execution.shaped_new createdAt, provenance, fun _ => rfl⟩
  have dated : FourDigitYear run.lifecycle.createdAt → Dated run.lifecycle := by
    cases built <;> exact dated_new
  have both := throughout_dated_iff (fun run : Run => run.lifecycle)
    (fun run => Execution.Shaped run.toProgress ∧ run.Provenance) (fun _ _ => True) atomic_apply
    (fun op self next accepted => (moves_of_apply accepted).1.arrives)
    (fun self shaped dated => roundTrips_of_shaped lawful shaped.1 shaped.2 dated)
    (fun self back => dated_of_all ((roundTrips_iff lawful).mp back).1 rfl rfl)
    (fun self op next shaped _ accepted => by
      obtain ⟨moves, same⟩ := moves_of_apply accepted
      refine ⟨shaped.1.kept moves, ?_⟩
      rw [same]
      exact ⟨shaped.2.other, shaped.2.warned⟩)
    (fun _ _ _ _ illegible => absurd trivial illegible) shaped dated ops
  simpa using both

/-- Whatever is done to a step, it comes back from its wire form up to the year 9999. -/
theorem Step.throughout_iff {codec : Rfc3339 Instant} (lawful : codec.Lawful FourDigitYear) (id : StepId)
    (runId : RunId) (ordinal : ℕ) (title : String) (createdAt : Instant) (ops : List Operation) :
    Mutation.Throughout apply (RoundTrips codec) (withId id runId ordinal title createdAt) ops ↔
      FourDigitYear createdAt ∧ Mutation.EachAccepted apply
        (fun _ op => BeforeYear10000 op.execution.at_) (withId id runId ordinal title createdAt) ops := by
  have shaped : Execution.Shaped (withId id runId ordinal title createdAt).toProgress :=
    Execution.shaped_new createdAt
  have both := throughout_dated_iff (fun step : Step => step.lifecycle)
    (fun step => Execution.Shaped step.toProgress) (fun _ _ => True) atomic_apply
    (fun op self next accepted => (moves_of_apply accepted).1.arrives)
    (fun self shaped dated => roundTrips_of_shaped lawful shaped dated)
    (fun self back => dated_of_all ((roundTrips_iff lawful).mp back).1 rfl rfl)
    (fun self op next shaped _ accepted => shaped.kept (moves_of_apply accepted).1)
    (fun _ _ _ _ illegible => absurd trivial illegible)
    shaped dated_new ops
  simp only [Option.isSome_some, true_imp_iff, and_true] at both
  exact both

namespace ToolCall

variable {ν : Type}

/-- The shape that the operations of a tool call keep, the decision of the policy aside. -/
structure Shaped (call : ToolCall ν) : Prop where
  formed : call.lifecycle.WellFormed
  failure : call.failure.isSome ↔ call.lifecycle.state = .failed ∨ call.lifecycle.state = .denied
  output : call.output.isSome ↔ call.lifecycle.state = .succeeded
  inOrder : ApprovalsInOrder call.lifecycle call.approvals
  decided : call.approvals = [] ∨ ∃ approval, call.approvals = [approval] ∧
    call.lifecycle.state ≠ .pending ∧ call.lifecycle.state ≠ .awaitingApproval ∧
    2 ≤ call.lifecycle.revision ∧ (approval.decision = .denied ↔ call.lifecycle.state = .denied)

/-- The lifecycle is one that the decision on record could have led to. -/
structure Consistent (call : ToolCall ν) : Prop where
  valid : ∀ decision ∈ call.policyDecision, decision.validate = .ok ()
  allowed : ∀ decision ∈ call.policyDecision, decision.verdict = .allow →
    call.lifecycle.state ≠ .awaitingApproval ∧ call.lifecycle.state ≠ .denied
  asked : ∀ decision ∈ call.policyDecision, decision.verdict = .ask →
    call.lifecycle.state ≠ .pending
  denied : ∀ decision ∈ call.policyDecision, decision.verdict = .deny →
    call.lifecycle.state = .denied ∧ call.approvals = [] ∧
      call.failure = some ⟨"policy", decision.reason⟩

theorem shaped_withId (id : ToolCallId) (step : Step) (toolId toolVersion : String)
    (input : Json.Value ν) (createdAt : Instant) :
    (withId id step toolId toolVersion input createdAt).Shaped where
  formed := Lifecycle.wellFormed_new createdAt
  failure := by simp [withId, Progress.new, Lifecycle.new, LifecycleState.initial]
  output := by simp [withId, Progress.new, Lifecycle.new, LifecycleState.initial]
  inOrder := ⟨fun _ member => absurd member List.not_mem_nil, List.Pairwise.nil⟩
  decided := .inl rfl

/-- Edges out of the states in which a call is undecided, and out of the others. -/
private theorem edge_cases {source target : ToolCallState}
    (edge : (source, target) ∈ ToolCallState.transitions) :
    (source = .succeeded → False) ∧ (source = .failed → False) ∧ (source = .denied → False) ∧
      (source ≠ .pending → source ≠ .awaitingApproval →
        target ≠ .pending ∧ target ≠ .awaitingApproval ∧ target ≠ .denied) := by
  revert edge
  cases source <;> cases target <;> decide

/-- A call that has an edge to follow holds no failure, no output and no denial. -/
private theorem Shaped.open_ {self : ToolCall ν} (shaped : self.Shaped) {target : ToolCallState}
    (follows : self.lifecycle.Follows target) : self.failure = none ∧ self.output = none := by
  obtain ⟨unsucceeded, unfailed, undenied, -⟩ := edge_cases follows.1
  constructor
  · rw [← Option.not_isSome_iff_eq_none, shaped.failure]
    exact not_or.mpr ⟨unfailed, undenied⟩
  · rw [← Option.not_isSome_iff_eq_none, shaped.output]
    exact unsucceeded

/-- A move without an approval keeps the shape. -/
private theorem Shaped.moved {self next : ToolCall ν} (shaped : self.Shaped)
    {target : ToolCallState} (follows : self.lifecycle.Follows target) {at_ : Instant}
    (same : next.lifecycle = self.lifecycle.moved target at_)
    (failure : next.failure.isSome ↔ target = .failed ∨ target = .denied)
    (output : next.output.isSome ↔ target = .succeeded)
    (approvals : next.approvals = self.approvals) : next.Shaped := by
  refine
    { formed := same ▸ shaped.formed.moved follows.1 at_
      failure := by rw [same]; exact failure
      output := by rw [same]; exact output
      inOrder := by rw [same, approvals]; exact shaped.inOrder.moved target at_
      decided := ?_ }
  rw [same, approvals]
  refine shaped.decided.imp_right ?_
  rintro ⟨approval, only, notPending, notAwaiting, revision, denied⟩
  obtain ⟨-, -, undenied, later⟩ := edge_cases follows.1
  obtain ⟨pending, awaiting, nextDenied⟩ := later notPending notAwaiting
  refine ⟨approval, only, pending, awaiting, revision.trans (Nat.le_succ _), ?_⟩
  exact iff_of_false (fun denial => undenied (denied.mp denial)) nextDenied

/-- A decision on an awaiting call and the move it leads to keep the shape. -/
private theorem Shaped.decide {self next : ToolCall ν} (shaped : self.Shaped)
    (awaiting : self.lifecycle.state = .awaitingApproval) {target : ToolCallState}
    (follows : self.lifecycle.Follows target) {at_ : Instant} {decidedBy : String}
    {decision : ApprovalOutcome} (named : isBlank decidedBy = false)
    (same : next.lifecycle = self.lifecycle.moved target at_)
    (failure : next.failure.isSome ↔ target = .failed ∨ target = .denied)
    (output : next.output.isSome ↔ target = .succeeded)
    (approvals : next.approvals =
      self.approvals ++ [⟨decidedBy, decision, max at_ self.lifecycle.updatedAt⟩])
    (outcome : (decision = .approved ∧ target = .running) ∨
      (decision = .denied ∧ target = .denied)) : next.Shaped := by
  have undecided : self.approvals = [] := by
    rcases shaped.decided with none | ⟨_, _, _, notAwaiting, _⟩
    · exact none
    · exact absurd awaiting notAwaiting
  refine
    { formed := same ▸ shaped.formed.moved follows.1 at_
      failure := by rw [same]; exact failure
      output := by rw [same]; exact output
      inOrder := by
        rw [same, approvals]
        exact shaped.inOrder.push shaped.formed target at_ named decision
      decided := ?_ }
  rw [same, approvals, undecided]
  have moved : self.lifecycle.revision ≠ 0 := fun zero => by
    have initial := shaped.formed.fresh.mpr zero
    rw [awaiting] at initial
    cases initial
  have counted : 2 ≤ self.lifecycle.revision + 1 := by omega
  refine .inr ⟨_, rfl, ?_⟩
  rcases outcome with ⟨rfl, rfl⟩ | ⟨rfl, rfl⟩
  · refine ⟨?_, ?_, counted, by simp [Lifecycle.moved]⟩ <;> intro other <;> cases other
  · refine ⟨?_, ?_, counted, by simp [Lifecycle.moved]⟩ <;> intro other <;> cases other

theorem Shaped.kept {self next : ToolCall ν} {op : Operation ν} (shaped : self.Shaped)
    (moves : Moves self op next) : next.Shaped := by
  cases moves with
  | allow pending => exact ⟨shaped.formed, shaped.failure, shaped.output, shaped.inOrder,
      shaped.decided⟩
  | ask pending _ _ _ follows =>
    obtain ⟨failure, output⟩ := shaped.open_ follows
    refine shaped.moved follows rfl ?_ ?_ rfl
    · simp [ToolCall.moved, failure]
    · simp [ToolCall.moved, output]
  | deny pending _ _ _ follows =>
    obtain ⟨-, output⟩ := shaped.open_ follows
    refine shaped.moved follows rfl ?_ ?_ rfl
    · simp
    · simp [ToolCall.moved, output]
  | transition follows ordinary =>
    obtain ⟨failure, output⟩ := shaped.open_ follows
    obtain ⟨unsucceeded, unended⟩ := not_or.mp ordinary
    refine shaped.moved follows rfl ?_ ?_ rfl
    · simpa [ToolCall.moved, failure] using unended
    · simpa [ToolCall.moved, output] using unsucceeded
  | dispatch pending _ follows =>
    obtain ⟨failure, output⟩ := shaped.open_ follows
    refine shaped.moved follows rfl ?_ ?_ rfl
    · simp [ToolCall.moved, failure]
    · simp [ToolCall.moved, output]
  | dispatchApproved awaiting _ named follows =>
    obtain ⟨failure, output⟩ := shaped.open_ follows
    refine shaped.decide awaiting follows named rfl ?_ ?_ rfl (.inl ⟨rfl, rfl⟩)
    · simp [ToolCall.moved, failure]
    · simp [ToolCall.moved, output]
  | succeed follows =>
    obtain ⟨failure, -⟩ := shaped.open_ follows
    refine shaped.moved follows rfl ?_ ?_ rfl
    · simp [ToolCall.moved, failure]
    · simp
  | fail follows =>
    obtain ⟨-, output⟩ := shaped.open_ follows
    refine shaped.moved follows rfl ?_ ?_ rfl
    · simp
    · simp [ToolCall.moved, output]
  | approve awaiting named follows =>
    obtain ⟨failure, output⟩ := shaped.open_ follows
    refine shaped.decide awaiting follows named rfl ?_ ?_ rfl (.inl ⟨rfl, rfl⟩)
    · simp [ToolCall.moved, failure]
    · simp [ToolCall.moved, output]
  | rejectApproval awaiting named follows =>
    obtain ⟨-, output⟩ := shaped.open_ follows
    refine shaped.decide awaiting follows named rfl ?_ ?_ rfl (.inr ⟨rfl, rfl⟩)
    · simp
    · simp [ToolCall.moved, output]

/-- No call that policy allowed is sent to approval by hand. -/
def HeedsPolicy (call : ToolCall ν) (op : Operation ν) : Prop :=
  ∀ at_, op = .transition .awaitingApproval at_ →
    ∀ decision ∈ call.policyDecision, decision.verdict ≠ .allow

/-- No null is given for an output, and no call that policy allowed is sent to approval by hand. -/
def Plain (call : ToolCall ν) : Operation ν → Prop
  | .succeed output _ => output ≠ .null
  | .transition target _ => target = .awaitingApproval →
    ∀ decision ∈ call.policyDecision, decision.verdict ≠ .allow
  | _ => True

theorem Plain.heedsPolicy {call : ToolCall ν} {op : Operation ν} (plain : call.Plain op) :
    call.HeedsPolicy op := by
  rintro at_ rfl
  exact plain rfl

/-- The operations after which a call is read back: plain ones that write no year past 9999. -/
def Legible (call : ToolCall ν) (op : Operation ν) : Prop :=
  (op.target.isSome → BeforeYear10000 op.at_) ∧ call.Plain op

/-- A move keeps the decision on record consistent, if an allowed call is neither sent to approval
nor denied. -/
private theorem Consistent.moved {self next : ToolCall ν} (consistent : self.Consistent)
    {target : ToolCallState} (follows : self.lifecycle.Follows target) {at_ : Instant}
    (same : next.lifecycle = self.lifecycle.moved target at_)
    (decided : next.policyDecision = self.policyDecision)
    (allowed : ∀ decision ∈ self.policyDecision, decision.verdict = .allow →
      target ≠ .awaitingApproval ∧ target ≠ .denied) : next.Consistent where
  valid := by
    rw [decided]
    exact consistent.valid
  allowed := by
    rw [decided, same]
    exact allowed
  asked decision member verdict := by
    rw [same]
    exact LawfulLifecycleState.fresh _ follows.1
  denied decision member verdict := by
    rw [decided] at member
    exact ((edge_cases follows.1).2.2.1 (consistent.denied decision member verdict).1).elim

theorem Consistent.kept {self next : ToolCall ν} {op : Operation ν} (consistent : self.Consistent)
    (shaped : self.Shaped) (heeds : self.HeedsPolicy op) (moves : Moves self op next) :
    next.Consistent := by
  cases moves with
  | allow pending _ valid verdict =>
    refine ⟨?_, ?_, ?_, ?_⟩ <;> rintro _ ⟨⟩
    · exact valid
    · intro _
      rw [pending]
      decide
    · exact fun ask => by cases verdict.symm.trans ask
    · exact fun deny => by cases verdict.symm.trans deny
  | ask pending _ valid verdict follows =>
    refine ⟨?_, ?_, ?_, ?_⟩ <;> rintro _ ⟨⟩
    · exact valid
    · exact fun allow => by cases verdict.symm.trans allow
    · exact fun _ => LawfulLifecycleState.fresh _ follows.1
    · exact fun deny => by cases verdict.symm.trans deny
  | deny pending _ valid verdict follows =>
    have undecided : self.approvals = [] := by
      rcases shaped.decided with none | ⟨_, _, notPending, _⟩
      · exact none
      · exact absurd pending notPending
    refine ⟨?_, ?_, ?_, ?_⟩ <;> rintro _ ⟨⟩
    · exact valid
    · exact fun allow => by cases verdict.symm.trans allow
    · exact fun ask => by cases verdict.symm.trans ask
    · exact fun _ => ⟨rfl, undecided, rfl⟩
  | transition follows ordinary =>
    refine consistent.moved follows rfl rfl fun decision member allow => ⟨?_, ?_⟩
    · rintro rfl
      exact heeds _ rfl decision member allow
    · exact fun denied => ordinary (.inr (.inr denied))
  | dispatch _ _ follows => exact consistent.moved follows rfl rfl fun _ _ _ => by decide
  | dispatchApproved _ _ _ follows => exact consistent.moved follows rfl rfl fun _ _ _ => by decide
  | succeed follows => exact consistent.moved follows rfl rfl fun _ _ _ => by decide
  | fail follows => exact consistent.moved follows rfl rfl fun _ _ _ => by decide
  | approve _ _ follows => exact consistent.moved follows rfl rfl fun _ _ _ => by decide
  | rejectApproval awaiting _ follows =>
    refine consistent.moved follows rfl rfl fun decision member allow => ?_
    exact absurd awaiting (consistent.allowed decision member allow).1

theorem Consistent.validatePolicyDecision {call : ToolCall ν} (consistent : call.Consistent) :
    validatePolicyDecision call.lifecycle.state call.failure call.approvals call.policyDecision =
      .ok () := by
  unfold Record.validatePolicyDecision
  cases decided : call.policyDecision with
  | none => rfl
  | some decision =>
    simp only [Except.bind_eq_ok, refuseWhen_eq_ok, Except.mapError_eq_ok]
    refine ⟨(), consistent.valid decision decided, ?_⟩
    cases verdict : decision.verdict with
    | allow => simpa using consistent.allowed decision decided verdict
    | ask => simpa using consistent.asked decision decided verdict
    | deny =>
      obtain ⟨denied, none, failure⟩ := consistent.denied decision decided verdict
      simp [denied, none, failure]

theorem Shaped.validateApprovals {call : ToolCall ν} (shaped : call.Shaped) :
    validateApprovals "tool_call" call.lifecycle.state call.lifecycle.createdAt
      call.lifecycle.updatedAt call.lifecycle.startedAt call.lifecycle.revision call.approvals =
      .ok () := by
  refine validateApprovals_eq_ok shaped.inOrder ?_ ?_ ?_ ?_
  · intro initial
    rcases shaped.decided with none | ⟨_, _, notPending, _⟩
    · exact none
    · exact absurd (of_decide_eq_true initial) notPending
  · change ToolCallState.validateApprovalShape _ _ _ _ = _
    rcases shaped.decided with none | ⟨approval, only, notPending, notAwaiting, revision, denied⟩
    · rw [none]
      rfl
    · rw [only]
      unfold ToolCallState.validateApprovalShape
      simp [notPending, notAwaiting, not_lt.mpr revision, denied]
  · rcases shaped.decided with none | ⟨approval, only, _, _, revision, _⟩
    · rw [none]
      exact Nat.zero_le _
    · rw [only]
      exact (by decide : 1 ≤ 2).trans revision
  · rcases shaped.decided with none | ⟨approval, only, _, _, _, denied⟩
    · exact ⟨[], .none, none, fun _ member => absurd member List.not_mem_nil,
        fun _ member => by cases member⟩
    · cases decision : approval.decision with
      | approved =>
        refine ⟨[approval], .none, only, ?_, fun _ member => by cases member⟩
        rintro _ (_ | ⟨_, ⟨⟩⟩)
        exact decision
      | denied =>
        refine ⟨[], some approval, only, fun _ member => absurd member List.not_mem_nil, ?_⟩
        rintro _ ⟨⟩
        exact ⟨decision, decide_eq_true (denied.mp decision)⟩

theorem readOptional_of_ne_null {output : Option (Json.Value ν)} (some : output ≠ some .null) :
    readOptional output = output := by
  cases output with
  | none => rfl
  | some value => cases value <;> first | rfl | exact absurd rfl some

/-- A call of that shape, and consistent with what policy decided, passes the checks of its own columns. -/
theorem tryFrom_toWire {call : ToolCall ν} (shaped : call.Shaped) (consistent : call.Consistent) :
    tryFrom call.toWire = .ok call := by
  have failure : validateFailure "tool_call"
      (call.lifecycle.state = .failed ∨ call.lifecycle.state = .denied) call.failure = .ok () := by
    rw [validateFailure_eq_ok, decide_eq_true_eq]
    exact shaped.failure
  simp only [ToolCall.tryFrom, Except.bind_eq_ok, refuseWhen_eq_ok]
  refine ⟨(), validateSchemaVersion_current _, call.lifecycle,
    Lifecycle.fromWire_eq_ok.mpr ⟨shaped.formed, rfl⟩, (), failure, (),
    validateOutput_eq_ok.mpr shaped.output, (), shaped.validateApprovals, (), ?_, (), ?_, (),
    consistent.validatePolicyDecision, rfl⟩
  · simp [ToolCall.toWire, runtimeRecordSchemaVersion]
  · simp [ToolCall.toWire, runtimeRecordSchemaVersion]

theorem roundTrips_of_shaped {codec : Rfc3339 Instant} (lawful : codec.Lawful FourDigitYear)
    {call : ToolCall ν} (shaped : call.Shaped) (consistent : call.Consistent)
    (output : call.output ≠ some .null) (dated : Dated call.lifecycle) : call.RoundTrips codec := by
  have same : { call.toWire with output := readOptional call.output } = call.toWire := by
    rw [readOptional_of_ne_null output]
    rfl
  rw [roundTrips_iff lawful, same]
  exact ⟨dated.all shaped.formed shaped.inOrder, tryFrom_toWire shaped consistent⟩

theorem eq_of_tryFrom {call read : ToolCall ν} (passed : tryFrom call.toWire = .ok read) : read = call := by
  simp only [ToolCall.tryFrom, Except.bind_eq_ok] at passed
  obtain ⟨-, -, lifecycle, accepted, -, -, -, -, -, -, -, -, -, -, -, -, same⟩ := passed
  have kept : _ ∧ call.lifecycle = lifecycle := Lifecycle.fromWire_eq_ok.mp accepted
  obtain rfl := kept.2
  exact (Except.ok.inj same).symm

/-- What a call that is read from its columns has passed. -/
theorem tryFrom_eq_ok {wire : ToolCallWire ν Instant} {call : ToolCall ν}
    (passed : tryFrom wire = .ok call) :
    wire.output = call.output ∧
      Record.validatePolicyDecision wire.state wire.failure wire.approvals wire.policyDecision = .ok () := by
  simp only [ToolCall.tryFrom, Except.bind_eq_ok] at passed
  obtain ⟨-, -, lifecycle, -, -, -, -, -, -, -, -, -, -, -, _, policy, same⟩ := passed
  exact ⟨congrArg ToolCall.output (Except.ok.inj same), policy⟩

/-- What a call that comes back has passed. -/
theorem RoundTrips.passed {codec : Rfc3339 Instant} (lawful : codec.Lawful FourDigitYear)
    {call : ToolCall ν} (roundTrips : call.RoundTrips codec) :
    readOptional call.output = call.output ∧
      Record.validatePolicyDecision call.lifecycle.state call.failure call.approvals
        call.policyDecision = .ok () :=
  tryFrom_eq_ok ((roundTrips_iff lawful).mp roundTrips).2

/-- Policy allowed a call that awaits approval. -/
def Stuck (call : ToolCall ν) : Prop :=
  call.lifecycle.state = .awaitingApproval ∧ ∃ decision ∈ call.policyDecision, decision.verdict = .allow

theorem Stuck.not_valid {call : ToolCall ν} (stuck : call.Stuck) :
    Record.validatePolicyDecision call.lifecycle.state call.failure call.approvals
      call.policyDecision ≠ .ok () := by
  intro policy
  obtain ⟨awaiting, decision, member, allow⟩ := stuck
  have held : call.policyDecision = some decision := member
  rw [held] at policy
  simp only [Record.validatePolicyDecision, Except.bind_eq_ok, refuseWhen_eq_ok, allow] at policy
  obtain ⟨-, -, inconsistent⟩ := policy
  rw [awaiting] at inconsistent
  exact inconsistent rfl

/-- An accepted operation that does not heed the policy leaves its call stuck. -/
theorem Moves.stuck {self next : ToolCall ν} {op : Operation ν} (moves : Moves self op next)
    (careless : ¬self.HeedsPolicy op) : next.Stuck := by
  simp only [HeedsPolicy, not_forall, not_not] at careless
  obtain ⟨at_, rfl, decision, member, allow⟩ := careless
  cases moves with
  | transition => exact ⟨rfl, decision, member, allow⟩

/-- A null output does not come back, and neither does an allowed call that awaits approval. -/
theorem not_roundTrips_of_not_plain {codec : Rfc3339 Instant} (lawful : codec.Lawful FourDigitYear)
    {self next : ToolCall ν} {op : Operation ν} (unplain : ¬self.Plain op) (moves : Moves self op next) :
    ¬next.RoundTrips codec := by
  intro roundTrips
  obtain ⟨output, policy⟩ := roundTrips.passed lawful
  cases op with
  | succeed =>
    cases moves with
    | succeed =>
      obtain rfl := not_not.mp unplain
      cases output
  | transition target at_ =>
    refine (moves.stuck fun heeds => unplain ?_).not_valid policy
    rintro rfl
    exact heeds at_ rfl
  | _ => exact unplain trivial

/-- What the operations keep of a call that is read from its columns before each of them: its shape, and a
lifecycle that policy agrees with unless the call is stuck. -/
def Recorded (call : ToolCall ν) : Prop := call.Shaped ∧ (call.Consistent ∨ call.Stuck)

theorem consistent_withId (id : ToolCallId) (step : Step) (toolId toolVersion : String)
    (input : Json.Value ν) (createdAt : Instant) :
    (withId id step toolId toolVersion input createdAt).Consistent := by
  refine ⟨?_, ?_, ?_, ?_⟩
  all_goals exact fun decision member => by cases member

theorem recorded_withId (id : ToolCallId) (step : Step) (toolId toolVersion : String)
    (input : Json.Value ν) (createdAt : Instant) :
    (withId id step toolId toolVersion input createdAt).Recorded :=
  ⟨shaped_withId .., .inl (consistent_withId ..)⟩

theorem Recorded.consistent {call read : ToolCall ν} (recorded : call.Recorded)
    (passed : tryFrom call.toWire = .ok read) : call.Consistent :=
  recorded.2.resolve_right fun stuck => stuck.not_valid (tryFrom_eq_ok passed).2

theorem Recorded.tryFrom {call : ToolCall ν} (recorded : call.Recorded) (free : ¬call.Stuck) :
    tryFrom call.toWire = .ok call :=
  tryFrom_toWire recorded.1 (recorded.2.resolve_right free)

theorem Recorded.kept {self next : ToolCall ν} {op : Operation ν} (recorded : self.Recorded)
    (consistent : self.Consistent) (moves : Moves self op next) : next.Recorded := by
  refine ⟨recorded.1.kept moves, ?_⟩
  by_cases heeds : self.HeedsPolicy op
  · exact .inl (consistent.kept recorded.1 heeds moves)
  · exact .inr (moves.stuck heeds)

theorem Moves.output_ne_null {self next : ToolCall ν} {op : Operation ν}
    (full : self.output ≠ some .null) (plain : self.Plain op) (moves : Moves self op next) :
    next.output ≠ some .null := by
  cases moves with
  | succeed => exact fun null => plain (Option.some.inj null)
  | _ => exact full

end ToolCall

/-- A run, a retry if it does not name itself, and a step come back from their wire form in every state that
they go through exactly when they are made in one of the years 0 to 9999 and no accepted operation is made
after them. A tool call does exactly when moreover no accepted operation succeeds it with a null or sends it to
approval by hand after policy allowed it; an operation that only records that policy allows it may come at any
time. -/
theorem wire_round_trip_iff {ν : Type} {codec : Rfc3339 Instant} (lawful : codec.Lawful FourDigitYear) :
    (∀ (run : Run) (ops : List Run.Operation), run.Built → run.retryOf ≠ some run.id →
      (Mutation.Throughout Run.apply (Run.RoundTrips codec) run ops ↔
        FourDigitYear run.lifecycle.createdAt ∧
          Mutation.EachAccepted Run.apply (fun _ op => BeforeYear10000 op.at_) run ops)) ∧
    (∀ (id : StepId) (runId : RunId) (ordinal : ℕ) (title : String) (createdAt : Instant)
      (ops : List Step.Operation),
      Mutation.Throughout Step.apply (Step.RoundTrips codec)
          (.withId id runId ordinal title createdAt) ops ↔
        FourDigitYear createdAt ∧
          Mutation.EachAccepted Step.apply (fun _ op => BeforeYear10000 op.execution.at_)
            (.withId id runId ordinal title createdAt) ops) ∧
    ∀ (id : ToolCallId) (step : Step) (toolId toolVersion : String) (input : Json.Value ν)
      (createdAt : Instant) (ops : List (ToolCall.Operation ν)),
      Mutation.Throughout ToolCall.apply (ToolCall.RoundTrips codec)
          (.withId id step toolId toolVersion input createdAt) ops ↔
        FourDigitYear createdAt ∧ Mutation.EachAccepted ToolCall.apply ToolCall.Legible
          (.withId id step toolId toolVersion input createdAt) ops := by
  refine ⟨fun run ops built provenance => Run.throughout_iff lawful built provenance ops,
    Step.throughout_iff lawful, ?_⟩
  intro id step toolId toolVersion input createdAt ops
  refine throughout_dated_iff (fun call : ToolCall ν => call.lifecycle)
    (fun call => call.Shaped ∧ call.Consistent ∧ call.output ≠ some .null) ToolCall.Plain
    ToolCall.atomic_apply
    (fun op self next accepted => (ToolCall.moves_of_apply accepted).arrives) ?_ ?_ ?_ ?_ ?_ dated_new ops
  · rintro call ⟨shaped, consistent, output⟩ dated
    exact ToolCall.roundTrips_of_shaped lawful shaped consistent output dated
  · exact fun call back => dated_of_all ((ToolCall.roundTrips_iff lawful).mp back).1 rfl rfl
  · rintro self op next ⟨shaped, consistent, output⟩ plain accepted
    have moves := ToolCall.moves_of_apply accepted
    exact ⟨shaped.kept moves, consistent.kept shaped plain.heedsPolicy moves,
      moves.output_ne_null output plain⟩
  · rintro self op next - unplain accepted
    exact ToolCall.not_roundTrips_of_not_plain lawful unplain (ToolCall.moves_of_apply accepted)
  · exact ⟨ToolCall.shaped_withId .., ToolCall.consistent_withId .., nofun⟩

private def plainCall : ToolCall Empty :=
  .withId 3 (.withId 1 2 0 "edit" 5) "fs.read" "1.0.0" .null 5

theorem wire_round_trip_iff_sample :
    (Mutation.after Run.apply (.retryingWithId 7 8 6 true 5) [.fail ⟨"io", "gone"⟩ 3]).RoundTrips
        nanosecondTexts ∧
      (Mutation.after ToolCall.apply plainCall
        [.dispatch "1.0.0" 4, .succeed (.bool true) 3]).RoundTrips nanosecondTexts := by
  obtain ⟨runs, -, calls⟩ := wire_round_trip_iff (ν := Empty) nanosecondTexts_lawful
  have early : ∀ at_ ∈ [(3 : Instant), 4], BeforeYear10000 at_ := by
    simp [BeforeYear10000]
  have failed : Mutation.EachAccepted Run.apply (fun _ op => BeforeYear10000 op.at_)
      (.retryingWithId 7 8 6 true 5) [.fail ⟨"io", "gone"⟩ 3] := by
    rw [Mutation.eachAccepted_cons]
    refine ⟨fun _ => early 3 (by simp), fun before op rest same => ?_⟩
    cases before <;> cases same
  have legible : Mutation.EachAccepted ToolCall.apply ToolCall.Legible plainCall
      [.dispatch "1.0.0" 4, .succeed (.bool true) 3] := by
    rw [Mutation.eachAccepted_cons, Mutation.eachAccepted_cons]
    refine ⟨fun _ => ⟨fun _ => early 4 (by simp), trivial⟩, fun _ => ⟨fun _ => early 3 (by simp), nofun⟩,
      fun before op rest same => ?_⟩
    cases before <;> cases same
  have made : FourDigitYear 5 := by decide
  refine ⟨(runs _ [.fail ⟨"io", "gone"⟩ 3] (.retrying 7 8 6 true 5) (by decide)).mpr ⟨made, failed⟩ _ [] rfl,
    ?_⟩
  exact (calls 3 (.withId 1 2 0 "edit" 5) "fs.read" "1.0.0" .null 5 _).mpr ⟨made, legible⟩ _ [] rfl

/-- A call that succeeded with a null is refused when it is read back, and so is one that policy
allowed and that was sent to approval; a run made in the year -1 cannot be written. -/
theorem wire_round_trip_fails :
    ¬(Mutation.after ToolCall.apply plainCall
        [.dispatch "1.0.0" 6, .succeed .null 7]).RoundTrips nanosecondTexts ∧
      ¬(Mutation.after ToolCall.apply plainCall
        [.applyPolicyDecision (.new .allow "reads only" .builtIn false) 6,
          .transition .awaitingApproval 7]).RoundTrips nanosecondTexts ∧
      ¬(Run.withId 7 8 (-62167219200 * 10 ^ 9 - 1)).RoundTrips nanosecondTexts := by
  refine ⟨?_, ?_, ?_⟩
  · rw [ToolCall.roundTrips_iff nanosecondTexts_lawful]
    exact nofun
  · rw [ToolCall.roundTrips_iff nanosecondTexts_lawful]
    exact nofun
  · intro back
    have made := dated_of_all ((Run.roundTrips_iff nanosecondTexts_lawful).mp back).1 rfl rfl
    exact absurd made.1 (by decide)

end Harkness.Runtime.Domain.Record
