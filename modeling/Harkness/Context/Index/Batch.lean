import Harkness.Context.Index.Store
import Harkness.Machine.Path

/-! # Batches and what may be done with a cache

A batch buffers what it is told, stages it in flushes and commits. Batches of any worktrees are open side
by side; each write transaction is one move, and between two of them a batch may be dropped, as it is
when its process dies. A batch remembers what it has staged, for what is said about it.
-/

namespace Harkness.Context.Index

/-- What one flush has staged. -/
structure Flushed where
  removals : List RepoPath
  files : List PendingFile

/-- One reconciliation of one worktree, in flight. -/
structure IndexBatch where
  worktree : WorktreeKey
  scope : BatchScope
  generation : ℕ
  headMarker : Option (Option String)
  files : List PendingFile
  symbols : List PendingSymbols
  removals : List RepoPath
  recordedVersions : List String
  displaced : Finset String
  flushed : List Flushed
  /-- Its worktree was forgotten, or the cache disposed of, after it began. -/
  stale : Bool

/-- The row of a worktree, made when there is none. -/
def worktreeRow (db : Database) (worktree : WorktreeKey) : WorktreeRow :=
  (db.worktrees.get worktree).getD ⟨0, 0, none⟩

/-- Opens a batch, and clears what was staged up to the watermark of its worktree. -/
def begin_ (db : Database) (worktree : WorktreeKey) (scope : BatchScope) : Database × IndexBatch :=
  let row := worktreeRow db worktree
  let opened := { db with
    worktrees := db.worktrees.set worktree { row with nextGeneration := row.nextGeneration + 1 } }
  (clearStaged opened worktree row.lastGeneration,
    { worktree, scope
      generation := row.nextGeneration + 1
      headMarker := none
      files := []
      symbols := []
      removals := []
      recordedVersions := []
      displaced := stagedBelow db worktree (row.lastGeneration + 1)
      flushed := []
      stale := false })

/-- Stages one buffered file, with its content when its bytes were read. -/
def flushFile (worktree : WorktreeKey) (generation : ℕ) (db : Database) (file : PendingFile) :
    Option Database :=
  match file.content with
  | .read content => stageFile (writeContent db file content) worktree generation file
  | .none | .unavailable | .kept => stageFile db worktree generation file

/-- The versions that buffered files write. -/
def writtenVersions (files : List PendingFile) : List String :=
  files.filterMap fun file =>
    match file.content with
    | .read content => some content.fileVersion
    | .none | .unavailable | .kept => none

/-- Writes buffered symbols, or defers them when their version has not arrived. -/
def flushSymbols (validate : SymbolCheck) (known : List String) :
    Database × List String → PendingSymbols → Option (Database × List String)
  | (db, deferred), attached =>
    if attached.fileVersion ∈ known || (db.versions.get attached.fileVersion).isSome then
      (writeSymbols validate db attached).map fun db => (db, deferred)
    else some (db, deferred ++ [attached.fileVersion])

/-- Writes the buffer of a batch at its generation, all of it or nothing. -/
def flush (validate : SymbolCheck) (db : Database) (batch : IndexBatch) :
    Option (Database × IndexBatch) :=
  if batch.files = [] ∧ batch.symbols = [] ∧ batch.removals = [] then some (db, batch)
  else do
    let removed ← batch.removals.foldlM
      (fun db path => stageRemoval db batch.worktree batch.generation path) db
    let staged ← batch.files.foldlM (flushFile batch.worktree batch.generation) removed
    let written := writtenVersions batch.files
    let (attached, deferred) ← batch.symbols.foldlM
      (flushSymbols validate (batch.recordedVersions ++ written)) (staged, [])
    some (attached, { batch with
      files := []
      removals := []
      symbols := batch.symbols.filter (·.fileVersion ∈ deferred)
      recordedVersions := batch.recordedVersions ++ written
      flushed := batch.flushed ++ [⟨batch.removals, batch.files⟩] })

/-- The transaction that ends the commit of a flushed batch, or none when it is refused. -/
def IndexBatch.publish (self : IndexBatch) (db : Database) : Option Database :=
  if self.symbols = [] then
    Index.publish db self.worktree self.generation self.scope self.headMarker self.displaced
  else none

/-- A cache and the batches that are open on it, each by its name. -/
structure World where
  db : Database
  batches : ℕ → Option IndexBatch

inductive Move where
  | begin_ (name : ℕ) (worktree : WorktreeKey) (scope : BatchScope)
  | recordFile (name : ℕ) (file : PendingFile)
  | recordSymbols (name : ℕ) (attached : PendingSymbols)
  | remove (name : ℕ) (path : RepoPath)
  | recordHeadMarker (name : ℕ) (marker : Option String)
  | flush (name : ℕ)
  | publish (name : ℕ)
  /-- The batch is abandoned, refused before it could publish, or its process dies. -/
  | drop (name : ℕ)
  | forget (worktree : WorktreeKey)
  | dispose
  | invalidate (component : IndexComponent)
  | refreshGrammars (current : Keyed String String)

/-- Whether a move forgets a worktree. -/
def Move.forgets : Move → WorktreeKey → Bool
  | forget worktree, other => other = worktree
  | dispose, _ => true
  | _, _ => false

namespace World

/-- A cache that was just created, without batches. -/
def fresh : World := ⟨.empty, fun _ => none⟩

/-- Replaces one batch, or closes it. -/
def put (self : World) (name : ℕ) (batch : Option IndexBatch) : World :=
  { self with batches := Function.update self.batches name batch }

/-- Changes what an open batch has buffered. -/
def buffer (self : World) (name : ℕ) (change : IndexBatch → IndexBatch) : Option World :=
  (self.batches name).map fun batch => self.put name (some (change batch))

/-- Marks the batches of a worktree as begun before it was forgotten. -/
def outdate (self : World) (which : WorktreeKey → Bool) : World :=
  { self with batches := fun name =>
      (self.batches name).map fun batch => { batch with stale := batch.stale || which batch.worktree } }

end World

def step (validate : SymbolCheck) (self : World) : Move → Option World
  | .begin_ name worktree scope =>
    match self.batches name with
    | some _ => none
    | none =>
      let (db, batch) := begin_ self.db worktree scope
      some ({ self with db := db }.put name (some batch))
  | .recordFile name file => self.buffer name fun batch => { batch with files := batch.files ++ [file] }
  | .recordSymbols name attached =>
    self.buffer name fun batch => { batch with symbols := batch.symbols ++ [attached] }
  | .remove name path => self.buffer name fun batch => { batch with removals := batch.removals ++ [path] }
  | .recordHeadMarker name marker =>
    self.buffer name fun batch => { batch with headMarker := some marker }
  | .flush name => do
    let batch ← self.batches name
    let (db, flushed) ← flush validate self.db batch
    some ({ self with db := db }.put name (some flushed))
  | .publish name => do
    let batch ← self.batches name
    if batch.files = [] ∧ batch.removals = [] then
      some ({ self with db := (batch.publish self.db).getD self.db }.put name none)
    else none
  | .drop name => (self.batches name).map fun _ => self.put name none
  | .forget worktree =>
    some ({ self with db := forgetWorktree self.db worktree }.outdate (· = worktree))
  | .dispose => some ({ self with db := .empty }.outdate fun _ => true)
  | .invalidate component => some { self with db := invalidateComponent self.db component }
  | .refreshGrammars current => some { self with db := refreshGrammarVersions self.db current }

/-- The cache with its batches; a refused flush leaves everything as it was and is no move. -/
def machine (validate : SymbolCheck) : Machine World Move where
  Initial self := self = .fresh
  step := step validate

/-- What the database is after a move. -/
inductive Effect (validate : SymbolCheck) (world : World) : Move → Database → Prop
  | begin_ (name worktree scope) :
    Effect validate world (.begin_ name worktree scope) (begin_ world.db worktree scope).1
  | same {move : Move} (buffers : ∀ worktree, move.forgets worktree = false)
    (writes : ∀ name, move ≠ .publish name) : Effect validate world move world.db
  | flush {name : ℕ} {batch flushed : IndexBatch} {db : Database}
    (found : world.batches name = some batch) (success : flush validate world.db batch = some (db, flushed)) :
    Effect validate world (.flush name) db
  | refused {name : ℕ} {batch : IndexBatch} (found : world.batches name = some batch)
    (refused : batch.publish world.db = none) : Effect validate world (.publish name) world.db
  | published {name : ℕ} {batch : IndexBatch} {db : Database} (found : world.batches name = some batch)
    (flushed : batch.files = [] ∧ batch.removals = []) (success : batch.publish world.db = some db) :
    Effect validate world (.publish name) db
  | forget (worktree) : Effect validate world (.forget worktree) (forgetWorktree world.db worktree)
  | dispose : Effect validate world .dispose .empty
  | invalidate (component) :
    Effect validate world (.invalidate component) (invalidateComponent world.db component)
  | refreshGrammars (current) :
    Effect validate world (.refreshGrammars current) (refreshGrammarVersions world.db current)

theorem step_effect {validate : SymbolCheck} {world next : World} {move : Move}
    (step : step validate world move = some next) : Effect validate world move next.db := by
  have buffered : ∀ {name : ℕ} {change : IndexBatch → IndexBatch},
      world.buffer name change = some next → next.db = world.db := by
    intro name change step
    obtain ⟨batch, -, rfl⟩ := Option.map_eq_some_iff.mp step
    rfl
  cases move with
  | begin_ name worktree scope =>
    simp only [Index.step] at step
    split at step
    · cases step
    · obtain rfl := Option.some.inj step
      exact .begin_ name worktree scope
  | recordFile name file => exact buffered step ▸ .same (fun _ => rfl) nofun
  | recordSymbols name attached => exact buffered step ▸ .same (fun _ => rfl) nofun
  | remove name path => exact buffered step ▸ .same (fun _ => rfl) nofun
  | recordHeadMarker name marker => exact buffered step ▸ .same (fun _ => rfl) nofun
  | flush name =>
    simp only [Index.step, Option.bind_eq_bind, Option.bind_eq_some_iff] at step
    obtain ⟨batch, found, ⟨db, flushed⟩, success, step⟩ := step
    obtain rfl := Option.some.inj step
    exact .flush found success
  | publish name =>
    simp only [Index.step, Option.bind_eq_bind, Option.bind_eq_some_iff] at step
    obtain ⟨batch, found, step⟩ := step
    split_ifs at step with flushed
    obtain rfl := Option.some.inj step
    change Effect validate world _ ((batch.publish world.db).getD world.db)
    cases success : batch.publish world.db with
    | none => exact .refused found success
    | some db => exact .published found flushed success
  | drop name =>
    obtain ⟨batch, -, rfl⟩ := Option.map_eq_some_iff.mp step
    exact .same (fun _ => rfl) nofun
  | forget worktree =>
    obtain rfl := Option.some.inj step
    exact .forget worktree
  | dispose =>
    obtain rfl := Option.some.inj step
    exact .dispose
  | invalidate component =>
    obtain rfl := Option.some.inj step
    exact .invalidate component
  | refreshGrammars current =>
    obtain rfl := Option.some.inj step
    exact .refreshGrammars current

@[simp] theorem World.put_batches {world : World} {name other : ℕ} {named : Option IndexBatch} :
    (world.put name named).batches other = if other = name then named else world.batches other :=
  Function.update_apply ..

@[simp] theorem World.put_db {world : World} {name : ℕ} {named : Option IndexBatch} :
    (world.put name named).db = world.db := rfl

/-- How a batch that was open goes on after a move. -/
inductive Continued (validate : SymbolCheck) (world : World) (name : ℕ) (old : IndexBatch) :
    Move → IndexBatch → Prop
  | same {move : Move} (keeps : move.forgets old.worktree = false) :
    Continued validate world name old move old
  | recordFile (file : PendingFile) :
    Continued validate world name old (.recordFile name file) { old with files := old.files ++ [file] }
  | recordSymbols (attached : PendingSymbols) :
    Continued validate world name old (.recordSymbols name attached)
      { old with symbols := old.symbols ++ [attached] }
  | remove (path : RepoPath) :
    Continued validate world name old (.remove name path) { old with removals := old.removals ++ [path] }
  | recordHeadMarker (marker : Option String) :
    Continued validate world name old (.recordHeadMarker name marker) { old with headMarker := some marker }
  | flush {db : Database} {flushed : IndexBatch}
    (success : flush validate world.db old = some (db, flushed)) :
    Continued validate world name old (.flush name) flushed
  | outdated {move : Move} (forgets : move.forgets old.worktree = true) :
    Continued validate world name old move { old with stale := true }

/-- A batch that is open after a move has just begun, or goes on from before. -/
theorem step_continued {validate : SymbolCheck} {world next : World} {move : Move} {name : ℕ}
    {batch : IndexBatch} (step : step validate world move = some next)
    (found : next.batches name = some batch) :
    (∃ worktree scope, move = .begin_ name worktree scope ∧
      batch = (begin_ world.db worktree scope).2) ∨
    ∃ old, world.batches name = some old ∧ Continued validate world name old move batch := by
  have apart : ∀ {other : ℕ} {named : Option IndexBatch} (db : Database), other ≠ name →
      next = { world with db := db }.put other named → world.batches name = some batch := by
    rintro other named db other_ rfl
    rwa [World.put_batches, if_neg (Ne.symm other_)] at found
  have here : ∀ {changed : IndexBatch} (db : Database),
      next = { world with db := db }.put name (some changed) → changed = batch := by
    rintro changed db rfl
    rw [World.put_batches, if_pos rfl] at found
    exact Option.some.inj found
  have buffered : ∀ {other : ℕ} {change : IndexBatch → IndexBatch},
      world.buffer other change = some next → (other = name → ∀ old, Continued validate world name old move
        (change old)) → (∀ worktree, move.forgets worktree = false) →
      ∃ old, world.batches name = some old ∧ Continued validate world name old move batch := by
    intro other change step continued keeps
    obtain ⟨old, opened, same⟩ := Option.map_eq_some_iff.mp step
    by_cases named : other = name
    · subst named
      obtain rfl := here world.db same.symm
      exact ⟨old, opened, continued rfl old⟩
    · exact ⟨batch, apart world.db named same.symm, .same (keeps _)⟩
  have closed : ∀ {other : ℕ} (db : Database), next = { world with db := db }.put other none →
      world.batches name = some batch := by
    rintro other db rfl
    rw [World.put_batches] at found
    split_ifs at found
    exact found
  have outdated : ∀ (db : Database), next = { world with db := db }.outdate move.forgets →
      ∃ old, world.batches name = some old ∧ Continued validate world name old move batch := by
    rintro db rfl
    obtain ⟨old, opened, rfl⟩ := Option.map_eq_some_iff.mp found
    refine ⟨old, opened, ?_⟩
    cases forgets : move.forgets old.worktree with
    | false =>
      rw [Bool.or_false]
      exact .same forgets
    | true =>
      rw [Bool.or_true]
      exact .outdated forgets
  cases move with
  | begin_ other worktree scope =>
    simp only [Index.step] at step
    split at step
    · cases step
    · have same := (Option.some.inj step).symm
      by_cases named : other = name
      · subst named
        exact .inl ⟨worktree, scope, rfl, (here _ same).symm⟩
      · exact .inr ⟨batch, apart _ named same, .same rfl⟩
  | recordFile other file =>
    exact .inr (buffered step (by rintro rfl old; exact .recordFile file) fun _ => rfl)
  | recordSymbols other attached =>
    exact .inr (buffered step (by rintro rfl old; exact .recordSymbols attached) fun _ => rfl)
  | remove other path =>
    exact .inr (buffered step (by rintro rfl old; exact .remove path) fun _ => rfl)
  | recordHeadMarker other marker =>
    exact .inr (buffered step (by rintro rfl old; exact .recordHeadMarker marker) fun _ => rfl)
  | flush other =>
    simp only [Index.step, Option.bind_eq_bind, Option.bind_eq_some_iff] at step
    obtain ⟨old, opened, ⟨db, flushed⟩, success, step⟩ := step
    have same := (Option.some.inj step).symm
    by_cases named : other = name
    · subst named
      obtain rfl := here _ same
      exact .inr ⟨old, opened, .flush success⟩
    · exact .inr ⟨batch, apart _ named same, .same rfl⟩
  | publish other =>
    simp only [Index.step, Option.bind_eq_bind, Option.bind_eq_some_iff] at step
    obtain ⟨old, opened, step⟩ := step
    split_ifs at step
    exact .inr ⟨batch, closed _ (Option.some.inj step).symm, .same rfl⟩
  | drop other =>
    obtain ⟨old, opened, step⟩ := Option.map_eq_some_iff.mp step
    exact .inr ⟨batch, closed world.db step.symm, .same rfl⟩
  | forget worktree =>
    obtain rfl := Option.some.inj step
    refine .inr (outdated (forgetWorktree world.db worktree) ?_)
    unfold World.outdate
    simp only [Move.forgets, eq_comm]
  | dispose => exact .inr (outdated _ (Option.some.inj step).symm)
  | invalidate component =>
    obtain rfl := Option.some.inj step
    exact .inr ⟨batch, found, .same rfl⟩
  | refreshGrammars current =>
    obtain rfl := Option.some.inj step
    exact .inr ⟨batch, found, .same rfl⟩

end Harkness.Context.Index
