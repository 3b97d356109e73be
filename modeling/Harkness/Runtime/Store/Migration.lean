import Harkness.Machine.Path
import Mathlib.Data.Int.Order.Basic
import Mathlib.Data.List.Sort
import Mathlib.Logic.Function.Basic

/-! # The schema ladder and the processes that climb it

Any number of processes open one database. Each refuses a schema newer than the ladder, requests the
write-ahead log and applies the pending migrations one at a time, each in a write transaction that
reads the recorded version again. A process moves from one of its reads, writes and statements to the
next; a write transaction works on a copy of the database that only its commit publishes, and only
one is open at a time. At any point the database may report a failure instead.
-/

namespace Harkness.Runtime.Store

/-- One numbered step of the schema ladder. -/
structure Migration where
  version : ℤ
  statements : String
deriving DecidableEq

/-- Every migration a build can apply, in ascending version order. -/
structure Ladder where
  migrations : List Migration
  filled : migrations ≠ []
  ascending : migrations.Pairwise fun earlier later => earlier.version < later.version

/-- The ladder of this build, its statements being read from files. -/
def migrations (statements : ℤ → String) : Ladder where
  migrations := [1, 2, 3, 4, 5, 6, 7, 8, 9].map fun version => ⟨version, statements version⟩
  filled := List.cons_ne_nil _ _
  ascending := List.pairwise_map.mpr
    (by decide : [1, 2, 3, 4, 5, 6, 7, 8, 9].Pairwise fun earlier later : ℤ => earlier < later)

/-- Newest schema version of a ladder. -/
def Ladder.maximum (ladder : Ladder) : ℤ :=
  (ladder.migrations.getLast?.map Migration.version).getD 0

/-- `PRAGMA user_version` and the tables. -/
structure Database (σ : Type) where
  version : ℤ
  schema : σ
deriving DecidableEq

/-- Failures of the run store that opening it can raise. -/
inductive OpeningError where
  | schemaTooNew (found maximum : ℤ)
  /-- busy or not -/
  | query (action : String)
  | openFailed
  | migration (version : ℤ)
deriving DecidableEq, Repr

/-- What a process does next. -/
inductive Phase where
  | refusing
  | enabling
  | pending
  | locking (migration : Migration)
  | checking (migration : Migration)
  | executing (migration : Migration)
  | recording (migration : Migration)
  | committing (migration : Migration)
  | returned (result : Except OpeningError Unit)
deriving DecidableEq

def readingVersion : String := "reading the schema version"

/-- How a failure of the database is reported at each point. -/
def Phase.failure : Phase → OpeningError
  | refusing | pending | checking _ => .query readingVersion
  | enabling => .openFailed
  | locking _ => .query "starting a migration"
  | executing migration | recording migration | committing migration => .migration migration.version
  | returned _ => .openFailed

/-- The database and the processes opening it. The write transaction that is open names its process
and holds the copy it works on. `applied` lists the committed migrations, the first one first; no
process reads it. -/
structure Opening (P σ : Type) where
  committed : Database σ
  wal : Bool
  writer : Option (P × Database σ)
  phases : P → Phase
  applied : List Migration

/-- A process does its next step, or the database fails it. -/
inductive Opening.Act (P : Type) where
  | advance (process : P)
  | fail (process : P)
deriving DecidableEq

def Opening.Act.process {P : Type} : Opening.Act P → P
  | advance process => process
  | fail process => process

namespace Opening

variable {P σ : Type} [DecidableEq P]

/-- Processes about to open a database. -/
def initial (committed : Database σ) (wal : Bool) : Opening P σ where
  committed := committed
  wal := wal
  writer := none
  phases := fun _ => .refusing
  applied := []

def become (opening : Opening P σ) (process : P) (phase : Phase) : Opening P σ :=
  { opening with phases := Function.update opening.phases process phase }

/-- What the transaction of a process works on. -/
def working (opening : Opening P σ) (process : P) : Option (Database σ) :=
  match opening.writer with
  | some (holder, working) => if holder = process then some working else none
  | none => none

/-- Drops the transaction of a process, if it has one open. -/
def rollback (opening : Opening P σ) (process : P) : Opening P σ :=
  { opening with writer := opening.writer.filter fun writer => decide (writer.1 ≠ process) }

/-- The refusal of a schema newer than the ladder, or what comes next. -/
def unlessNewer (ladder : Ladder) (opening : Opening P σ) (process : P) (next : Phase) :
    Opening P σ :=
  let found := opening.committed.version
  if found > ladder.maximum then
    opening.become process (.returned (.error (.schemaTooNew found ladder.maximum)))
  else opening.become process next

variable (ladder : Ladder) (execute : String → σ → Option σ)

/-- The next step of a process: `refuse_newer_schema`, `enable_wal`, then the loop of `apply`. -/
def advance (opening : Opening P σ) (process : P) : Option (Opening P σ) :=
  match opening.phases process with
  | .refusing => some (opening.unlessNewer ladder process .enabling)
  | .enabling => some ({ opening with wal := true }.become process .pending)
  | .pending =>
    let found := opening.committed.version
    some (opening.unlessNewer ladder process <|
      match ladder.migrations.find? fun entry => decide (entry.version > found) with
      | some migration => .locking migration
      | none => .returned (.ok ()))
  | .locking migration =>
    match opening.writer with
    | some _ => none
    | none =>
      some ({ opening with writer := some (process, opening.committed) }.become process
        (.checking migration))
  | .checking migration =>
    (opening.working process).map fun working =>
      if working.version ≥ migration.version then (opening.rollback process).become process .pending
      else opening.become process (.executing migration)
  | .executing migration =>
    (opening.working process).map fun working =>
      match execute migration.statements working.schema with
      | some schema =>
        { opening with writer := some (process, { working with schema }) }.become process
          (.recording migration)
      | none =>
        (opening.rollback process).become process (.returned (.error (.migration migration.version)))
  | .recording migration =>
    (opening.working process).map fun working =>
      { opening with writer := some (process, { working with version := migration.version }) }.become
        process (.committing migration)
  | .committing migration =>
    (opening.working process).map fun working =>
      { opening with
        committed := working
        writer := none
        applied := opening.applied ++ [migration] }.become process .pending
  | .returned _ => none

/-- A failure is returned at once; a transaction that was open is rolled back. -/
def fail (opening : Opening P σ) (process : P) : Option (Opening P σ) :=
  match opening.phases process with
  | .returned _ => none
  | phase => some ((opening.rollback process).become process (.returned (.error phase.failure)))

def step (opening : Opening P σ) : Act P → Option (Opening P σ)
  | .advance process => opening.advance ladder execute process
  | .fail process => opening.fail process

def machine : Machine (Opening P σ) (Act P) where
  Initial opening := ∃ committed wal, opening = initial committed wal
  step := step ladder execute

end Opening

end Harkness.Runtime.Store
