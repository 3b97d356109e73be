import Harkness.Runtime.Store.Migration

/-! # Climbing the schema ladder together

The migrations above a recorded version are what is left to climb. Every interleaving commits them
in order and each once, because a process reads the version again under the write lock, where nobody
else commits. What is left measures how many steps a process can still take.
-/

namespace Harkness.Runtime.Store

namespace Ladder

variable (ladder : Ladder) {version : ℤ} {migration : Migration}

/-- The migrations above a version. -/
def pendingFrom (version : ℤ) : List Migration :=
  ladder.migrations.filter fun entry => decide (version < entry.version)

/-- The migrations below one are not above a version. -/
structure Reached (version : ℤ) (migration : Migration) : Prop where
  member : migration ∈ ladder.migrations
  below : ∀ entry ∈ ladder.migrations, entry.version < migration.version → entry.version ≤ version

variable {ladder}

theorem Reached.mono {later : ℤ} (reached : ladder.Reached version migration)
    (grows : version ≤ later) : ladder.Reached later migration :=
  ⟨reached.member, fun entry member lower => (reached.below entry member lower).trans grows⟩

private theorem exists_last (ladder : Ladder) :
    ∃ before last, ladder.migrations = before ++ [last] ∧ last.version = ladder.maximum := by
  refine ⟨_, _, (List.dropLast_append_getLast ladder.filled).symm, ?_⟩
  rw [maximum, List.getLast?_eq_some_getLast ladder.filled]
  rfl

theorem le_maximum (member : migration ∈ ladder.migrations) :
    migration.version ≤ ladder.maximum := by
  obtain ⟨before, last, split, same⟩ := ladder.exists_last
  have ascending := ladder.ascending
  rw [split] at member ascending
  rcases List.mem_append.mp member with earlier | here
  · have := (List.pairwise_append.mp ascending).2.2 migration earlier last
      (List.mem_singleton_self last)
    omega
  · rw [List.mem_singleton.mp here, same]

/-- A reached migration above the version is the first that is left. -/
theorem pendingFrom_of_reached (reached : ladder.Reached version migration)
    (above : version < migration.version) :
    ladder.pendingFrom version = migration :: ladder.pendingFrom migration.version := by
  obtain ⟨before, later, split⟩ := List.mem_iff_append.mp reached.member
  have ascending := ladder.ascending
  rw [split, List.pairwise_append, List.pairwise_cons] at ascending
  obtain ⟨-, ⟨behind, -⟩, ahead⟩ := ascending
  have none {bound : ℤ} (high : version ≤ bound) :
      before.filter (fun entry => decide (bound < entry.version)) = [] := by
    refine List.filter_eq_nil_iff.mpr fun entry member => ?_
    have lower := ahead entry member migration List.mem_cons_self
    have known : entry ∈ ladder.migrations := split ▸ List.mem_append_left _ member
    have := reached.below entry known lower
    simp only [decide_eq_true_eq]
    omega
  have all {bound : ℤ} (low : bound ≤ migration.version) :
      later.filter (fun entry => decide (bound < entry.version)) = later := by
    refine List.filter_eq_self.mpr fun entry member => ?_
    have := behind entry member
    simp only [decide_eq_true_eq]
    omega
  rw [pendingFrom, pendingFrom, split, List.filter_append, List.filter_append, none le_rfl,
    none above.le, List.filter_cons_of_pos (by simpa using above), all above.le,
    List.filter_cons_of_neg (by simp), all le_rfl]
  rfl

theorem reached_of_find? (found : (ladder.migrations.find? fun entry =>
      decide (entry.version > version)) = some migration) :
    ladder.Reached version migration ∧ version < migration.version := by
  obtain ⟨above, before, later, split, unmet⟩ := List.find?_eq_some_iff_append.mp found
  have ascending := ladder.ascending
  rw [split, List.pairwise_append, List.pairwise_cons] at ascending
  refine ⟨⟨List.mem_of_find?_eq_some found, fun entry member lower => ?_⟩, by simpa using above⟩
  rw [split] at member
  rcases List.mem_append.mp member with earlier | later
  · have := unmet entry earlier
    simp only [Bool.not_eq_true', decide_eq_false_iff_not] at this
    omega
  · rcases List.mem_cons.mp later with rfl | behind
    · omega
    · have := ascending.2.1.1 entry behind
      omega

theorem maximum_le_of_find? (none : (ladder.migrations.find? fun entry =>
      decide (entry.version > version)) = none) : ladder.maximum ≤ version := by
  obtain ⟨before, last, split, same⟩ := ladder.exists_last
  have := List.find?_eq_none.mp none last (split ▸ List.mem_append_right _ List.mem_cons_self)
  simp only [decide_eq_true_eq] at this
  omega

end Ladder

namespace Opening

variable {P σ : Type} [DecidableEq P] {ladder : Ladder} {execute : String → σ → Option σ}
  {opening next : Opening P σ} {process other : P} {migration : Migration}

theorem working_eq_some_iff {working : Database σ} :
    opening.working process = some working ↔ opening.writer = some (process, working) := by
  rcases held : opening.writer with _ | ⟨holder, copy⟩
  · simp [Opening.working, held]
  · by_cases same : holder = process
    · simp [Opening.working, held, same]
    · simp [Opening.working, held, same]

theorem rollback_of_writer {working : Database σ}
    (holds : opening.writer = some (process, working)) :
    opening.rollback process = { opening with writer := none } := by
  simp [rollback, holds]

/-- The steps of a process and the failures that end it. -/
inductive Moves (ladder : Ladder) (execute : String → σ → Option σ) (opening : Opening P σ)
    (process : P) : Opening P σ → Prop
  | refused (here : opening.phases process = .refusing ∨ opening.phases process = .pending)
      (newer : ladder.maximum < opening.committed.version) :
      Moves ladder execute opening process (opening.become process
        (.returned (.error (.schemaTooNew opening.committed.version ladder.maximum))))
  | accepted (here : opening.phases process = .refusing)
      (known : opening.committed.version ≤ ladder.maximum) :
      Moves ladder execute opening process (opening.become process .enabling)
  | enabled (here : opening.phases process = .enabling) :
      Moves ladder execute opening process ({ opening with wal := true }.become process .pending)
  | owed (migration : Migration) (here : opening.phases process = .pending)
      (found : (ladder.migrations.find? fun entry =>
        decide (entry.version > opening.committed.version)) = some migration) :
      Moves ladder execute opening process (opening.become process (.locking migration))
  | climbed (here : opening.phases process = .pending)
      (known : opening.committed.version ≤ ladder.maximum)
      (found : (ladder.migrations.find? fun entry =>
        decide (entry.version > opening.committed.version)) = none) :
      Moves ladder execute opening process (opening.become process (.returned (.ok ())))
  | locked (migration : Migration) (here : opening.phases process = .locking migration)
      (free : opening.writer = none) :
      Moves ladder execute opening process
        ({ opening with writer := some (process, opening.committed) }.become process
          (.checking migration))
  | moved (migration : Migration) (working : Database σ)
      (here : opening.phases process = .checking migration)
      (holds : opening.writer = some (process, working))
      (landed : migration.version ≤ working.version) :
      Moves ladder execute opening process ({ opening with writer := none }.become process .pending)
  | checked (migration : Migration) (working : Database σ)
      (here : opening.phases process = .checking migration)
      (holds : opening.writer = some (process, working))
      (above : working.version < migration.version) :
      Moves ladder execute opening process (opening.become process (.executing migration))
  | executed (migration : Migration) (working : Database σ) (schema : σ)
      (here : opening.phases process = .executing migration)
      (holds : opening.writer = some (process, working))
      (ran : execute migration.statements working.schema = some schema) :
      Moves ladder execute opening process
        ({ opening with writer := some (process, ⟨working.version, schema⟩) }.become process
          (.recording migration))
  | recorded (migration : Migration) (working : Database σ)
      (here : opening.phases process = .recording migration)
      (holds : opening.writer = some (process, working)) :
      Moves ladder execute opening process
        ({ opening with writer := some (process, ⟨migration.version, working.schema⟩) }.become
          process (.committing migration))
  | committed (migration : Migration) (working : Database σ)
      (here : opening.phases process = .committing migration)
      (holds : opening.writer = some (process, working)) :
      Moves ladder execute opening process
        ({ opening with
          committed := working
          writer := none
          applied := opening.applied ++ [migration] }.become process .pending)
  | failed (error : OpeningError) (unfinished : ∀ result, opening.phases process ≠ .returned result)
      (first : opening.phases process = .refusing → error = .query readingVersion) :
      Moves ladder execute opening process
        ((opening.rollback process).become process (.returned (.error error)))

private theorem moves_of_advance (step : opening.advance ladder execute process = some next) :
    Moves ladder execute opening process next := by
  rw [advance] at step
  split at step
  case h_1 here =>
    obtain rfl := Option.some.inj step
    rw [unlessNewer]
    split_ifs with newer
    · exact .refused (.inl here) newer
    · exact .accepted here (Int.not_lt.mp newer)
  case h_2 here =>
    obtain rfl := Option.some.inj step
    exact .enabled here
  case h_3 here =>
    obtain rfl := Option.some.inj step
    rw [unlessNewer]
    split_ifs with newer
    · exact .refused (.inr here) newer
    · split
      · exact .owed _ here ‹_›
      · exact .climbed here (Int.not_lt.mp newer) ‹_›
  case h_4 migration here =>
    split at step
    · cases step
    · obtain rfl := Option.some.inj step
      exact .locked migration here ‹_›
  case h_5 migration here =>
    obtain ⟨working, held, same⟩ := Option.map_eq_some_iff.mp step
    have holds := working_eq_some_iff.mp held
    split_ifs at same with landed
    · subst same
      rw [rollback_of_writer holds]
      exact .moved migration working here holds landed
    · subst same
      exact .checked migration working here holds (Int.not_le.mp landed)
  case h_6 migration here =>
    obtain ⟨working, held, same⟩ := Option.map_eq_some_iff.mp step
    have holds := working_eq_some_iff.mp held
    split at same
    · subst same
      exact .executed migration working _ here holds ‹_›
    · subst same
      refine .failed _ (fun result ended => ?_) fun first => ?_
      · cases here.symm.trans ended
      · cases here.symm.trans first
  case h_7 migration here =>
    obtain ⟨working, held, rfl⟩ := Option.map_eq_some_iff.mp step
    exact .recorded migration working here (working_eq_some_iff.mp held)
  case h_8 migration here =>
    obtain ⟨working, held, rfl⟩ := Option.map_eq_some_iff.mp step
    exact .committed migration working here (working_eq_some_iff.mp held)
  case h_9 => cases step

theorem moves_of_step {act : Act P} (step : opening.step ladder execute act = some next) :
    Moves ladder execute opening act.process next := by
  cases act with
  | advance process => exact moves_of_advance step
  | fail process =>
    change opening.fail process = some next at step
    rw [fail] at step
    split at step
    · cases step
    · rename_i open_
      obtain rfl := Option.some.inj step
      refine .failed _ (fun result ended => open_ result ended) fun first => ?_
      rw [show opening.phases process = .refusing from first]
      rfl

end Opening

/-- A database after some migrations. -/
def Database.after {σ : Type} (execute : String → σ → Option σ) :
    Database σ → List Migration → Option (Database σ)
  | database, [] => some database
  | database, migration :: later =>
    (execute migration.statements database.schema).bind fun schema =>
      Database.after execute ⟨migration.version, schema⟩ later

theorem Database.after_concat {σ : Type} {execute : String → σ → Option σ}
    {database made : Database σ} {earlier : List Migration} {migration : Migration} {schema : σ}
    (before : database.after execute earlier = some made)
    (ran : execute migration.statements made.schema = some schema) :
    database.after execute (earlier ++ [migration]) = some ⟨migration.version, schema⟩ := by
  induction earlier generalizing database with
  | nil =>
    obtain rfl := Option.some.inj before
    rw [List.nil_append, Database.after, ran]
    rfl
  | cons first earlier ih =>
    obtain ⟨middle, here, later⟩ := Option.bind_eq_some_iff.mp before
    rw [List.cons_append, Database.after, here]
    exact ih later

theorem Database.version_of_after {σ : Type} {execute : String → σ → Option σ}
    {database made : Database σ} {migrations : List Migration}
    (after : database.after execute migrations = some made) :
    made.version = (migrations.getLast?.map Migration.version).getD database.version := by
  induction migrations generalizing database with
  | nil =>
    obtain rfl := Option.some.inj after
    rfl
  | cons first later ih =>
    obtain ⟨schema, -, rest⟩ := Option.bind_eq_some_iff.mp after
    rw [ih rest]
    cases later with
    | nil => rfl
    | cons second later => rw [List.getLast?_cons_cons]; rfl

/-- The write transaction is open in these phases. -/
def Phase.transacting : Phase → Bool
  | checking _ | executing _ | recording _ | committing _ => true
  | _ => false

namespace Opening

variable {P σ : Type} [DecidableEq P] {ladder : Ladder} {execute : String → σ → Option σ}
  {start : Database σ} {wal : Bool} {opening next : Opening P σ} {process other : P}

/-- What a process knows at each point. -/
def Knows (ladder : Ladder) (execute : String → σ → Option σ) (start : Database σ)
    (opening : Opening P σ) (process : P) : Phase → Prop
  | .refusing => True
  | .enabling | .pending => start.version ≤ ladder.maximum
  | .locking migration =>
    start.version ≤ ladder.maximum ∧ ladder.Reached opening.committed.version migration
  | .checking migration =>
    start.version ≤ ladder.maximum ∧ ladder.Reached opening.committed.version migration ∧
      opening.writer = some (process, opening.committed)
  | .executing migration =>
    start.version ≤ ladder.maximum ∧ ladder.Reached opening.committed.version migration ∧
      opening.committed.version < migration.version ∧
      opening.writer = some (process, opening.committed)
  | .recording migration =>
    start.version ≤ ladder.maximum ∧ ladder.Reached opening.committed.version migration ∧
      opening.committed.version < migration.version ∧
      ∃ schema, execute migration.statements opening.committed.schema = some schema ∧
        opening.writer = some (process, ⟨opening.committed.version, schema⟩)
  | .committing migration =>
    start.version ≤ ladder.maximum ∧ ladder.Reached opening.committed.version migration ∧
      opening.committed.version < migration.version ∧
      ∃ schema, execute migration.statements opening.committed.schema = some schema ∧
        opening.writer = some (process, ⟨migration.version, schema⟩)
  | .returned (.ok _) => start.version ≤ ladder.maximum ∧ opening.committed.version = ladder.maximum
  | .returned (.error error) => start.version ≤ ladder.maximum ∨
      error = .schemaTooNew start.version ladder.maximum ∨ error = .query readingVersion

/-- What is committed is the beginning of what was left, each process knows where it is, and a
database newer than the ladder is as it was. -/
structure Inv (ladder : Ladder) (execute : String → σ → Option σ) (start : Database σ) (wal : Bool)
    (opening : Opening P σ) : Prop where
  left : ladder.pendingFrom start.version =
    opening.applied ++ ladder.pendingFrom opening.committed.version
  made : start.after execute opening.applied = some opening.committed
  knows : ∀ process, Knows ladder execute start opening process (opening.phases process)
  holder : ∀ process working, opening.writer = some (process, working) →
    (opening.phases process).transacting = true
  untouched : ladder.maximum < start.version →
    opening.committed = start ∧ opening.wal = wal ∧ opening.writer = none

omit [DecidableEq P] in
theorem inv_initial (ladder : Ladder) (execute : String → σ → Option σ) (start : Database σ)
    (wal : Bool) : Inv ladder execute start wal (initial (P := P) start wal) where
  left := rfl
  made := rfl
  knows := fun _ => trivial
  holder := fun _ _ held => by cases held
  untouched := fun _ => ⟨rfl, rfl, rfl⟩

omit [DecidableEq P] in
/-- A process that is transacting holds the lock. -/
theorem Knows.writer {phase : Phase} (knows : Knows ladder execute start opening process phase)
    (transacting : phase.transacting = true) :
    start.version ≤ ladder.maximum ∧ ∃ working, opening.writer = some (process, working) := by
  cases phase with
  | checking => exact ⟨knows.1, _, knows.2.2⟩
  | executing => exact ⟨knows.1, _, knows.2.2.2⟩
  | recording =>
    obtain ⟨known, -, -, schema, -, held⟩ := knows
    exact ⟨known, _, held⟩
  | committing =>
    obtain ⟨known, -, -, schema, -, held⟩ := knows
    exact ⟨known, _, held⟩
  | _ => cases transacting

omit [DecidableEq P] in
/-- What a process knows stays true where nothing is committed and its transaction is left alone. -/
theorem Knows.mono {phase : Phase} (knows : Knows ladder execute start opening process phase)
    (same : next.committed = opening.committed)
    (kept : ∀ working, opening.writer = some (process, working) →
      next.writer = some (process, working)) :
    Knows ladder execute start next process phase := by
  cases phase with
  | refusing => trivial
  | enabling | pending => exact knows
  | locking migration => exact ⟨knows.1, same ▸ knows.2⟩
  | checking migration =>
    rw [Knows, same]
    exact ⟨knows.1, knows.2.1, kept _ knows.2.2⟩
  | executing migration =>
    rw [Knows, same]
    exact ⟨knows.1, knows.2.1, knows.2.2.1, kept _ knows.2.2.2⟩
  | recording migration =>
    obtain ⟨known, reached, above, schema, ran, held⟩ := knows
    rw [Knows, same]
    exact ⟨known, reached, above, schema, ran, kept _ held⟩
  | committing migration =>
    obtain ⟨known, reached, above, schema, ran, held⟩ := knows
    rw [Knows, same]
    exact ⟨known, reached, above, schema, ran, kept _ held⟩
  | returned result =>
    cases result with
    | ok => exact ⟨knows.1, same ▸ knows.2⟩
    | error => exact knows

omit [DecidableEq P] in
/-- What a process outside a transaction knows stays true where another one commits. -/
theorem Knows.grow {phase : Phase} {migration : Migration}
    (knows : Knows ladder execute start opening process phase)
    (outside : phase.transacting = false) (member : migration ∈ ladder.migrations)
    (above : opening.committed.version < migration.version)
    (version : next.committed.version = migration.version) :
    Knows ladder execute start next process phase := by
  cases phase with
  | refusing => trivial
  | enabling | pending => exact knows
  | locking other => exact ⟨knows.1, knows.2.mono (by omega)⟩
  | returned result =>
    cases result with
    | ok =>
      have bound := Ladder.le_maximum member
      have := knows.2
      omega
    | error => exact knows
  | _ => cases outside

/-- A step of a process that commits nothing keeps the invariant when it says where the process is
next. -/
theorem Inv.of_same {phase : Phase} (inv : Inv ladder execute start wal opening)
    (committed : next.committed = opening.committed) (applied : next.applied = opening.applied)
    (phases : next.phases = Function.update opening.phases process phase)
    (requested : next.wal = opening.wal ∨ start.version ≤ ladder.maximum)
    (others : ∀ other working, other ≠ process →
      (opening.writer = some (other, working) ↔ next.writer = some (other, working)))
    (mine : ∀ working, next.writer = some (process, working) → phase.transacting = true)
    (knows : Knows ladder execute start next process phase) :
    Inv ladder execute start wal next where
  left := by rw [committed, applied]; exact inv.left
  made := by rw [committed, applied]; exact inv.made
  knows := by
    intro other
    by_cases same : other = process
    · rw [same, phases, Function.update_self]
      exact knows
    · rw [phases, Function.update_of_ne same]
      exact (inv.knows other).mono committed fun working held => (others other working same).mp held
  holder := by
    intro other working held
    by_cases same : other = process
    · rw [same, phases, Function.update_self]
      exact mine working (same ▸ held)
    · rw [phases, Function.update_of_ne same]
      exact inv.holder other working ((others other working same).mpr held)
  untouched := by
    intro newer
    obtain ⟨whole, unset, free⟩ := inv.untouched newer
    refine ⟨committed.trans whole, (requested.resolve_right (Int.not_le.mpr newer)).trans unset, ?_⟩
    rcases held : next.writer with _ | ⟨other, working⟩
    · rfl
    · by_cases same : other = process
      · have := (knows.writer (mine working (same ▸ held))).1
        omega
      · have := (others other working same).mpr held
        rw [free] at this
        cases this

/-- A process outside a transaction that takes a step touching no transaction. -/
private theorem Inv.of_outside {phase : Phase} (inv : Inv ladder execute start wal opening)
    (outside : (opening.phases process).transacting = false)
    (knows : Knows ladder execute start (opening.become process phase) process phase) :
    Inv ladder execute start wal (opening.become process phase) :=
  inv.of_same rfl rfl rfl (.inl rfl) (fun _ _ _ => Iff.rfl)
    (fun working held => by
      have inside := inv.holder process working held
      rw [outside] at inside
      cases inside) knows

/-- A process that drops its transaction. -/
private theorem Inv.of_release {phase : Phase} (inv : Inv ladder execute start wal opening)
    (knows : Knows ladder execute start ((opening.rollback process).become process phase) process
      phase) :
    Inv ladder execute start wal ((opening.rollback process).become process phase) := by
  have released (other : P) (working : Database σ) :
      (opening.rollback process).writer = some (other, working) ↔
        opening.writer = some (other, working) ∧ other ≠ process := by
    simp [rollback, Option.filter_eq_some_iff]
  refine inv.of_same rfl rfl rfl (.inl rfl) (fun other working apart => ?_) (fun working held => ?_)
    knows
  · exact (and_iff_left apart).symm.trans (released other working).symm
  · exact absurd rfl ((released process working).mp held).2

/-- A process that has the transaction and goes on with it. -/
private theorem Inv.of_hold {phase : Phase} {working copy : Database σ}
    (inv : Inv ladder execute start wal opening)
    (free : opening.writer = none ∨ opening.writer = some (process, working))
    (transacting : phase.transacting = true)
    (knows : Knows ladder execute start
      ({ opening with writer := some (process, copy) }.become process phase) process phase) :
    Inv ladder execute start wal
      ({ opening with writer := some (process, copy) }.become process phase) := by
  refine inv.of_same rfl rfl rfl (.inl rfl) (fun other found apart => ?_) (fun _ _ => transacting)
    knows
  have gone : (some (process, copy) : Option (P × Database σ)) ≠ some (other, found) :=
    fun same => apart (congrArg Prod.fst (Option.some.inj same)).symm
  constructor
  · intro held
    rcases free with none | mine
    · cases none.symm.trans held
    · exact absurd (congrArg Prod.fst (Option.some.inj (held.symm.trans mine))) apart
  · exact fun held => absurd held gone

omit [DecidableEq P] in
private theorem Inv.known (inv : Inv ladder execute start wal opening)
    (known : opening.committed.version ≤ ladder.maximum) : start.version ≤ ladder.maximum := by
  by_contra newer
  rw [(inv.untouched (Int.not_le.mp newer)).1] at known
  exact newer known

theorem Inv.step (inv : Inv ladder execute start wal opening)
    (moves : Moves ladder execute opening process next) : Inv ladder execute start wal next := by
  have knows := inv.knows process
  cases moves with
  | refused here newer =>
    refine inv.of_outside ?_ ?_
    · rcases here with here | here
      · rw [here]; rfl
      · rw [here]; rfl
    · by_cases known : start.version ≤ ladder.maximum
      · exact .inl known
      · refine .inr (.inl ?_)
        rw [← (inv.untouched (Int.not_le.mp known)).1]
  | accepted here known => exact inv.of_outside (by rw [here]; rfl) (inv.known known)
  | enabled here =>
    rw [here] at knows
    refine inv.of_same rfl rfl rfl (.inr knows) (fun _ _ _ => Iff.rfl) (fun working held => ?_) knows
    have inside := inv.holder process working held
    rw [here] at inside
    cases inside
  | owed migration here found =>
    rw [here] at knows
    exact inv.of_outside (by rw [here]; rfl) ⟨knows, (Ladder.reached_of_find? found).1⟩
  | climbed here known found =>
    rw [here] at knows
    exact inv.of_outside (by rw [here]; rfl)
      ⟨knows, le_antisymm known (Ladder.maximum_le_of_find? found)⟩
  | locked migration here free =>
    rw [here] at knows
    have either : opening.writer = none ∨
        opening.writer = some (process, opening.committed) := .inl free
    exact inv.of_hold either rfl ⟨knows.1, knows.2, rfl⟩
  | moved migration working here holds landed =>
    rw [here] at knows
    rw [← rollback_of_writer holds]
    exact inv.of_release knows.1
  | checked migration working here holds above =>
    rw [here] at knows
    obtain ⟨known, reached, held⟩ := knows
    obtain rfl := congrArg Prod.snd (Option.some.inj (holds.symm.trans held))
    exact inv.of_same rfl rfl rfl (.inl rfl) (fun _ _ _ => Iff.rfl) (fun _ _ => rfl)
      ⟨known, reached, above, held⟩
  | executed migration working schema here holds ran =>
    rw [here] at knows
    obtain ⟨known, reached, above, held⟩ := knows
    obtain rfl := congrArg Prod.snd (Option.some.inj (holds.symm.trans held))
    exact inv.of_hold (.inr holds) rfl ⟨known, reached, above, schema, ran, rfl⟩
  | recorded migration working here holds =>
    rw [here] at knows
    obtain ⟨known, reached, above, schema, ran, held⟩ := knows
    obtain rfl := congrArg Prod.snd (Option.some.inj (holds.symm.trans held))
    exact inv.of_hold (.inr holds) rfl ⟨known, reached, above, schema, ran, rfl⟩
  | committed migration working here holds =>
    rw [here] at knows
    obtain ⟨known, reached, above, schema, ran, held⟩ := knows
    obtain rfl := congrArg Prod.snd (Option.some.inj (holds.symm.trans held))
    refine ⟨?_, Database.after_concat inv.made ran, fun other => ?_, fun other found none => ?_,
      fun newer => ?_⟩
    · rw [inv.left, Ladder.pendingFrom_of_reached reached above]
      change _ = opening.applied ++ [migration] ++ _
      rw [List.append_assoc, List.singleton_append]
      rfl
    · by_cases same : other = process
      · rw [same]
        change Knows ladder execute start _ process (Function.update opening.phases process _ process)
        rw [Function.update_self]
        exact known
      · change Knows ladder execute start _ other (Function.update opening.phases process _ other)
        rw [Function.update_of_ne same]
        -- Only the committing process has the lock.
        refine (inv.knows other).grow ?_ reached.member above rfl
        by_contra inside
        obtain ⟨-, copy, mine⟩ := (inv.knows other).writer (by simpa using inside)
        exact same (congrArg Prod.fst (Option.some.inj (mine.symm.trans holds)))
    · cases none
    · omega
  | failed error unfinished first =>
    refine inv.of_release ?_
    rcases here : opening.phases process with _ | _ | _ | _ | _ | _ | _ | _ | result
    case refusing => exact .inr (.inr (first here))
    case returned => exact absurd here (unfinished result)
    all_goals
      rw [here] at knows
    case enabling | pending => exact .inl knows
    all_goals exact .inl knows.1

theorem inv_of_path {acts : List (Act P)}
    (path : (machine ladder execute).Path (initial start wal) acts opening) :
    Inv ladder execute start wal opening :=
  path.preserves (fun _ _ _ inv step => inv.step (moves_of_step step))
    (inv_initial ladder execute start wal)

/-- How many steps a process can take at most, at a recorded version. -/
def turns (ladder : Ladder) (version : ℤ) : Phase → ℕ
  | .refusing => 6 * (ladder.pendingFrom version).length + 4
  | .enabling => 6 * (ladder.pendingFrom version).length + 3
  | .pending => 6 * (ladder.pendingFrom version).length + 2
  | .locking migration =>
    if migration.version ≤ version then 6 * (ladder.pendingFrom version).length + 4
    else 6 * (ladder.pendingFrom version).length + 1
  | .checking migration =>
    if migration.version ≤ version then 6 * (ladder.pendingFrom version).length + 3
    else 6 * (ladder.pendingFrom version).length
  | .executing _ => 6 * (ladder.pendingFrom version).length - 1
  | .recording _ => 6 * (ladder.pendingFrom version).length - 2
  | .committing _ => 6 * (ladder.pendingFrom version).length - 3
  | .returned _ => 0

omit [DecidableEq P] in
/-- Another process's commit leaves a process outside a transaction no more steps than before. -/
theorem turns_grow {phase : Phase} {migration : Migration}
    (knows : Knows ladder execute start opening process phase)
    (outside : phase.transacting = false)
    (reached : ladder.Reached opening.committed.version migration)
    (above : opening.committed.version < migration.version) :
    turns ladder migration.version phase ≤ turns ladder opening.committed.version phase := by
  have fewer : (ladder.pendingFrom opening.committed.version).length =
      (ladder.pendingFrom migration.version).length + 1 := by
    rw [Ladder.pendingFrom_of_reached reached above, List.length_cons]
  cases phase with
  | locking other =>
    simp only [turns]
    split_ifs
    · omega
    · omega
    · omega
    · omega
  | refusing | enabling | pending | returned =>
    simp only [turns]
    omega
  | _ => cases outside

/-- A step takes from what its process can do and adds nothing to what another can. -/
theorem turns_falls (inv : Inv ladder execute start wal opening)
    (moves : Moves ladder execute opening process next) (other : P) :
    turns ladder next.committed.version (next.phases other) +
      (if process = other then 1 else 0) ≤
        turns ladder opening.committed.version (opening.phases other) := by
  have knows := inv.knows other
  by_cases same : process = other
  · subst same
    rw [if_pos rfl]
    have filled {migration : Migration}
        (reached : ladder.Reached opening.committed.version migration)
        (above : opening.committed.version < migration.version) :
        (ladder.pendingFrom opening.committed.version).length =
          (ladder.pendingFrom migration.version).length + 1 := by
      rw [Ladder.pendingFrom_of_reached reached above, List.length_cons]
    cases moves with
    | refused here newer =>
      simp only [become, Function.update_self]
      rcases here with here | here
      · rw [here, turns, turns]
        omega
      · rw [here, turns, turns]
        omega
    | accepted here known | enabled here | climbed here known found =>
      simp only [become, Function.update_self, here]
      simp only [turns]
      omega
    | owed migration here found =>
      have above := (Ladder.reached_of_find? found).2
      simp only [become, Function.update_self, here]
      simp only [turns]
      rw [if_neg (Int.not_le.mpr above)]
    | locked migration here free =>
      simp only [become, Function.update_self, here]
      simp only [turns]
      split_ifs
      · omega
      · omega
    | moved migration working here holds landed =>
      rw [here] at knows
      obtain rfl := congrArg Prod.snd (Option.some.inj (holds.symm.trans knows.2.2))
      simp only [become, Function.update_self, here]
      simp only [turns]
      rw [if_pos landed]
    | checked migration working here holds above =>
      rw [here] at knows
      obtain rfl := congrArg Prod.snd (Option.some.inj (holds.symm.trans knows.2.2))
      have := filled knows.2.1 above
      simp only [become, Function.update_self, here]
      simp only [turns]
      rw [if_neg (Int.not_le.mpr above)]
      omega
    | executed migration working schema here holds ran
    | recorded migration working here holds =>
      rw [here] at knows
      have := filled knows.2.1 knows.2.2.1
      simp only [become, Function.update_self, here]
      simp only [turns]
      omega
    | committed migration working here holds =>
      rw [here] at knows
      obtain ⟨-, reached, above, schema, -, held⟩ := knows
      obtain rfl := congrArg Prod.snd (Option.some.inj (holds.symm.trans held))
      have := filled reached above
      simp only [become, Function.update_self, here]
      simp only [turns]
      omega
    | failed error unfinished first =>
      simp only [become, Function.update_self]
      change 0 + 1 ≤ _
      rcases here : opening.phases process with _ | _ | _ | _ | _ | _ | _ | _ | result
      case returned => exact absurd here (unfinished result)
      all_goals
        rw [here] at knows
        rw [turns]
      case refusing | enabling | pending => omega
      case locking => split_ifs <;> omega
      case checking migration =>
        split_ifs with landed
        · omega
        · have := filled knows.2.1 (Int.not_le.mp landed)
          omega
      all_goals
        have := filled knows.2.1 knows.2.2.1
        omega
  · rw [if_neg same, Nat.add_zero]
    have still {phase : Phase} (left : Opening P σ) (phases : left.phases = opening.phases)
        (committed : left.committed = opening.committed) :
        turns ladder (left.become process phase).committed.version
          ((left.become process phase).phases other) ≤
            turns ladder opening.committed.version (opening.phases other) := by
      simp only [become, Function.update_of_ne (Ne.symm same), phases, committed, le_refl]
    cases moves with
    | committed migration working here holds =>
      have mine := inv.knows process
      rw [here] at mine
      obtain ⟨-, reached, above, schema, -, held⟩ := mine
      obtain rfl := congrArg Prod.snd (Option.some.inj (holds.symm.trans held))
      simp only [become, Function.update_of_ne (Ne.symm same)]
      refine turns_grow knows ?_ reached above
      by_contra inside
      obtain ⟨-, copy, theirs⟩ := knows.writer (by simpa using inside)
      exact same (congrArg Prod.fst (Option.some.inj (holds.symm.trans theirs)))
    | _ => exact still _ rfl rfl

/-- An unfinished process can go on, or waits for one that can. -/
theorem exists_advance (inv : Inv ladder execute start wal opening)
    (unfinished : ∀ result, opening.phases process ≠ .returned result) :
    ∃ other, (opening.advance ladder execute other).isSome = true := by
  have ready {other : P} {working : Database σ}
      (holds : opening.writer = some (other, working)) :
      (opening.advance ladder execute other).isSome = true := by
    have inside := inv.holder other working holds
    have works := working_eq_some_iff.mpr holds
    cases here : opening.phases other with
    | checking | executing | recording | committing => simp [advance, here, works]
    | _ =>
      rw [here] at inside
      cases inside
  rcases free : opening.writer with _ | ⟨holder, working⟩
  · refine ⟨process, ?_⟩
    have knows := inv.knows process
    have outside : (opening.phases process).transacting = false := by
      by_contra inside
      obtain ⟨-, working, holds⟩ := knows.writer (by simpa using inside)
      cases free.symm.trans holds
    cases here : opening.phases process with
    | returned result => exact absurd here (unfinished result)
    | refusing | enabling | pending | locking => simp [advance, here, free]
    | _ =>
      rw [here] at outside
      cases outside
  · exact ⟨holder, ready free⟩

/-- What a run of processes opening one database has done to it. -/
structure Climbs (ladder : Ladder) (execute : String → σ → Option σ) (start : Database σ)
    (wal : Bool) (acts : List (Act P)) (opening : Opening P σ) : Prop where
  ascending : opening.applied.Pairwise fun earlier later => earlier.version < later.version
  beginning : opening.applied <+: ladder.pendingFrom start.version
  recorded : opening.committed.version =
    (opening.applied.getLast?.map Migration.version).getD start.version
  made : start.after execute opening.applied = some opening.committed
  newest : ∀ process, opening.phases process = .returned (.ok ()) →
    opening.committed.version = ladder.maximum
  /-- Only a commit of the process that holds the lock changes anything. -/
  commits : ∀ act next, opening.step ladder execute act = some next →
    next.committed = opening.committed ∧ next.applied = opening.applied ∨
      ∃ migration, opening.phases act.process = .committing migration ∧
        next.phases act.process = .pending ∧
        opening.writer = some (act.process, next.committed) ∧
        next.applied = opening.applied ++ [migration]
  failed : ∀ act next error, opening.step ladder execute act = some next →
    next.phases act.process = .returned (.error error) →
      next.committed = opening.committed ∧ ∀ working, next.writer ≠ some (act.process, working)
  refused : ladder.maximum < start.version →
    opening.committed = start ∧ opening.wal = wal ∧ opening.writer = none ∧
      ∀ process result, opening.phases process = .returned result →
        result = .error (.schemaTooNew start.version ladder.maximum) ∨
          result = .error (.query readingVersion)
  ends : ∀ process, acts.countP (fun act => decide (act.process = process)) ≤
    6 * (ladder.pendingFrom start.version).length + 4
  goes : ∀ process, (∀ result, opening.phases process ≠ .returned result) →
    ∃ other, (opening.advance ladder execute other).isSome = true

private theorem commits_of_moves (moves : Moves ladder execute opening process next) :
    next.committed = opening.committed ∧ next.applied = opening.applied ∨
      ∃ migration, opening.phases process = .committing migration ∧
        next.phases process = .pending ∧ opening.writer = some (process, next.committed) ∧
        next.applied = opening.applied ++ [migration] := by
  cases moves with
  | committed migration working here holds =>
    exact .inr ⟨migration, here, Function.update_self .., holds, rfl⟩
  | _ => exact .inl ⟨rfl, rfl⟩

omit [DecidableEq P] in
/-- A process that has returned holds no transaction. -/
private theorem Inv.released {result : Except OpeningError Unit}
    (inv : Inv ladder execute start wal opening)
    (ended : opening.phases process = .returned result) (working : Database σ) :
    opening.writer ≠ some (process, working) := by
  intro held
  have inside := inv.holder process working held
  rw [ended] at inside
  cases inside

theorem climbs_of_path {acts : List (Act P)}
    (path : (machine ladder execute).Path (initial start wal) acts opening) :
    Climbs ladder execute start wal acts opening := by
  have inv := inv_of_path path
  have beginning : opening.applied <+: ladder.pendingFrom start.version := ⟨_, inv.left.symm⟩
  refine ⟨?_, beginning, Database.version_of_after inv.made, inv.made, ?_, ?_, ?_, ?_, ?_, ?_⟩
  · exact (ladder.ascending.filter _).sublist beginning.sublist
  · intro process ended
    have knows := inv.knows process
    rw [ended] at knows
    exact knows.2
  · exact fun act next step => commits_of_moves (moves_of_step step)
  · intro act next error step ended
    have moves := moves_of_step step
    refine ⟨?_, (inv.step moves).released ended⟩
    rcases commits_of_moves moves with ⟨same, -⟩ | ⟨-, -, pending, -⟩
    · exact same
    · cases ended.symm.trans pending
  · intro newer
    obtain ⟨committed, requested, free⟩ := inv.untouched newer
    refine ⟨committed, requested, free, fun process result ended => ?_⟩
    have knows := inv.knows process
    rw [ended] at knows
    cases result with
    | ok =>
      have := knows.1
      omega
    | error error =>
      rcases knows with known | refused | reading
      · omega
      · exact .inl (congrArg _ refused)
      · exact .inr (congrArg _ reading)
  · intro process
    have kept : ∀ ⦃opening : Opening P σ⦄ ⦃act next⦄, Inv ladder execute start wal opening →
        (machine ladder execute).step opening act = some next →
        Inv ladder execute start wal next :=
      fun _ _ _ inv step => inv.step (moves_of_step step)
    have bound := path.countP_le (fun act => decide (act.process = process))
      (fun opening => turns ladder opening.committed.version (opening.phases process)) kept
      (fun _ act _ inv step => by
        simpa using turns_falls inv (moves_of_step step) process)
      (inv_initial ladder execute start wal)
    exact (Nat.le_add_right _ _).trans bound
  · exact fun process unfinished => exists_advance inv unfinished

/-- A ladder whose statements add themselves to the schema. -/
private def sampleLadder : Ladder where
  migrations := [⟨1, "tasks"⟩, ⟨2, "runs"⟩]
  filled := List.cons_ne_nil _ _
  ascending := by decide

private def sampleExecute (statements : String) (schema : List String) : Option (List String) :=
  some (schema ++ [statements])

/-- Both processes see version 0. The second one finds the first migration landed under the lock and
applies the second; the first fails before it reads the version again. -/
private def sampleActs : List (Act Bool) :=
  [.advance true, .advance false, .advance true, .advance false, .advance true, .advance false,
    .advance true, .advance true, .advance true, .advance true, .advance true, .advance false,
    .advance false, .advance false, .advance false, .advance false, .advance false, .advance false,
    .advance false, .fail true, .advance false]

private def sampleOpening : Option (Opening Bool (List String)) :=
  (machine sampleLadder sampleExecute).run? (initial ⟨0, []⟩ false) sampleActs

private theorem sampleOpening_isSome : sampleOpening.isSome = true := by decide

theorem climbs_of_path_sample :
    ∃ opening : Opening Bool (List String),
      opening.committed = ⟨2, ["tasks", "runs"]⟩ ∧ opening.phases false = .returned (.ok ()) ∧
        Climbs sampleLadder sampleExecute ⟨0, []⟩ false sampleActs opening :=
  ⟨sampleOpening.get sampleOpening_isSome, by decide, by decide,
    climbs_of_path (Machine.run?_eq_some_iff.mp (Option.some_get sampleOpening_isSome).symm)⟩

end Opening

end Harkness.Runtime.Store
