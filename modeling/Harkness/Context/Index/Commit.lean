import Harkness.Context.Index.Batch

/-! # What a commit publishes

The rows a batch has staged stand under its generation, and no other batch of its worktree has the same.
What clears staged rows clears them up to a watermark, so a batch above the watermark has all it staged.
A commit makes visible exactly that, and nothing else changes what is visible.
-/

namespace Harkness.Context.Index

/-- What a batch has staged for one path. -/
inductive Staged where
  | file (file : PendingFile)
  | removed

/-- What a flush stages for a path: its files are staged after its removals, and a later one in place
of an earlier one. -/
def Flushed.staged (self : Flushed) (path : RepoPath) : Option Staged :=
  match self.files.reverse.find? (·.path = path) with
  | some file => some (.file file)
  | none => if path ∈ self.removals then some .removed else none

/-- What a batch stages for a path in all its flushes. -/
def stagedBy (flushed : List Flushed) (path : RepoPath) : Option Staged :=
  flushed.reverse.findSome? (·.staged path)

/-- A staged row spells what is staged. -/
def Spells : Option PendingRow → Option Staged → Prop
  | none, none => True
  | some row, some (.file file) => row = file.staged
  | some row, some .removed => row.removed = true ∧ row.keepVersion = false ∧ row.fileVersion = none
  | _, _ => False

theorem stagedBy_append {flushed : List Flushed} {last : Flushed} {path : RepoPath} :
    stagedBy (flushed ++ [last]) path = (last.staged path).or (stagedBy flushed path) := by
  rw [stagedBy, List.reverse_append, List.reverse_singleton, List.singleton_append, List.findSome?_cons]
  cases last.staged path <;> rfl

section Flush

variable {validate : SymbolCheck} {db after : Database} {batch flushed : IndexBatch}
  {worktree : WorktreeKey} {generation : ℕ} {file : PendingFile} {path : RepoPath}

/-- The tables that a flush does not write are the same, and so are the staged rows of others. -/
structure Kept (worktree : WorktreeKey) (generation : ℕ) (db after : Database) : Prop where
  worktrees : after.worktrees = db.worktrees
  files : after.files = db.files
  pending : ∀ key, ¬ (key.1 = worktree ∧ key.2.1 = generation) → after.pending.get key = db.pending.get key

theorem Kept.refl (db : Database) : Kept worktree generation db db := ⟨rfl, rfl, fun _ _ => rfl⟩

theorem Kept.trans {mid : Database} (first : Kept worktree generation db mid)
    (second : Kept worktree generation mid after) : Kept worktree generation db after where
  worktrees := second.worktrees.trans first.worktrees
  files := second.files.trans first.files
  pending key other := (second.pending key other).trans (first.pending key other)

theorem Kept.set {row : PendingRow} (db : Database) : Kept worktree generation db
    { db with pending := db.pending.set (worktree, generation, path) row } where
  worktrees := rfl
  files := rfl
  pending _ other := Keyed.get_set_of_ne fun same => other (same ▸ ⟨rfl, rfl⟩)

theorem stageRemoval_eq_some : stageRemoval db worktree generation path = some after ↔
    (db.worktrees.get worktree).isSome ∧ { db with
      pending := db.pending.set (worktree, generation, path)
        (removalRow (db.pending.get (worktree, generation, path))) } = after := by
  unfold stageRemoval
  cases db.worktrees.get worktree <;> simp

theorem stageFile_eq_some : stageFile db worktree generation file = some after ↔
    (db.worktrees.get worktree).isSome ∧ { db with
      pending := db.pending.set (worktree, generation, file.path) file.staged } = after := by
  unfold stageFile
  cases db.worktrees.get worktree <;> simp

/-- Staging removals writes the rows of these paths and nothing else. -/
theorem stageRemovals_spec {removals : List RepoPath}
    (success : removals.foldlM (fun db path => stageRemoval db worktree generation path) db =
      some after) : Kept worktree generation db after ∧ ∀ path,
      if path ∈ removals then Spells (after.pending.get (worktree, generation, path)) (some .removed)
      else after.pending.get (worktree, generation, path) =
        db.pending.get (worktree, generation, path) := by
  induction removals using List.reverseRecOn generalizing after with
  | nil =>
    obtain rfl := Option.some.inj success
    exact ⟨.refl _, fun path => by simp⟩
  | append_singleton removals last ih =>
    obtain ⟨mid, earlier, success⟩ := List.foldlM_concat_eq_some.mp success
    obtain ⟨-, rfl⟩ := stageRemoval_eq_some.mp success
    obtain ⟨kept, staged⟩ := ih earlier
    refine ⟨kept.trans (.set mid), fun path => ?_⟩
    by_cases here : path = last
    · subst here
      rw [if_pos (by simp), Keyed.get_set_self]
      exact ⟨rfl, rfl, rfl⟩
    · rw [Keyed.get_set_of_ne (by simpa using here)]
      simpa [here] using staged path

/-- Staging files writes the last row of each of their paths. -/
theorem flushFiles_spec {files : List PendingFile}
    (success : files.foldlM (flushFile worktree generation) db = some after) :
    Kept worktree generation db after ∧ ∀ path, after.pending.get (worktree, generation, path) =
      match files.reverse.find? (·.path = path) with
      | some file => some file.staged
      | none => db.pending.get (worktree, generation, path) := by
  induction files using List.reverseRecOn generalizing after with
  | nil =>
    obtain rfl := Option.some.inj success
    exact ⟨.refl _, fun path => rfl⟩
  | append_singleton files last ih =>
    obtain ⟨mid, earlier, success⟩ := List.foldlM_concat_eq_some.mp success
    obtain ⟨kept, staged⟩ := ih earlier
    obtain ⟨written, same, success⟩ : ∃ written : Database, (written.worktrees = mid.worktrees ∧
        written.files = mid.files ∧ written.pending = mid.pending) ∧
        stageFile written worktree generation last = some after := by
      unfold flushFile at success
      split at success
      · exact ⟨writeContent mid last _, ⟨rfl, rfl, rfl⟩, success⟩
      all_goals exact ⟨mid, ⟨rfl, rfl, rfl⟩, success⟩
    obtain ⟨-, rfl⟩ := stageFile_eq_some.mp success
    have frame : Kept worktree generation mid written :=
      ⟨same.1, same.2.1, fun key _ => by rw [same.2.2]⟩
    refine ⟨(kept.trans frame).trans (.set written), fun path => ?_⟩
    rw [List.reverse_append, List.reverse_singleton, List.singleton_append, List.find?_cons]
    by_cases here : last.path = path
    · subst here
      simp
    · rw [Keyed.get_set_of_ne (by simpa using Ne.symm here), same.2.2, staged path]
      simp [here]

/-- What a flush does to the database and to its batch. -/
structure FlushSpec (db after : Database) (batch flushed : IndexBatch) : Prop where
  kept : Kept batch.worktree batch.generation db after
  worktree : flushed.worktree = batch.worktree
  generation : flushed.generation = batch.generation
  scope : flushed.scope = batch.scope
  stale : flushed.stale = batch.stale
  idle : batch.files = [] → batch.removals = [] → after.pending = db.pending
  spells : ∀ path, Spells (db.pending.get (batch.worktree, batch.generation, path))
      (stagedBy batch.flushed path) →
    Spells (after.pending.get (batch.worktree, batch.generation, path)) (stagedBy flushed.flushed path)

theorem flushSymbols_spec {known : List String} {symbols : List PendingSymbols}
    {before after : Database × List String}
    (success : symbols.foldlM (flushSymbols validate known) before = some after) :
    after.1.worktrees = before.1.worktrees ∧ after.1.files = before.1.files ∧
      after.1.pending = before.1.pending := by
  refine List.foldlM_preserves (P := fun state => state.1.worktrees = before.1.worktrees ∧
    state.1.files = before.1.files ∧ state.1.pending = before.1.pending) ?_ success ⟨rfl, rfl, rfl⟩
  rintro attached - ⟨db, deferred⟩ state same step
  simp only [flushSymbols] at step
  split_ifs at step
  · obtain ⟨written, wrote, rfl⟩ := Option.map_eq_some_iff.mp step
    obtain ⟨row, size, inserted, -, -, -, -, rfl⟩ := writeSymbols_eq_some.mp wrote
    exact same
  · obtain rfl := Option.some.inj step
    exact same

theorem flush_spec (success : flush validate db batch = some (after, flushed)) :
    FlushSpec db after batch flushed := by
  unfold flush at success
  split_ifs at success
  · obtain ⟨rfl, rfl⟩ := Prod.mk.inj (Option.some.inj success)
    exact ⟨.refl _, rfl, rfl, rfl, rfl, fun _ _ => rfl, fun _ spells => spells⟩
  · simp only [Option.bind_eq_bind, Option.bind_eq_some_iff] at success
    obtain ⟨removed, removals, staged, files, ⟨attached, deferred⟩, symbols, success⟩ := success
    obtain ⟨rfl, rfl⟩ := Prod.mk.inj (Option.some.inj success)
    obtain ⟨keptRemovals, byRemovals⟩ := stageRemovals_spec removals
    obtain ⟨keptFiles, byFiles⟩ := flushFiles_spec files
    obtain ⟨worktrees, rows, pending⟩ := flushSymbols_spec symbols
    have keptSymbols : Kept batch.worktree batch.generation staged attached :=
      ⟨worktrees, rows, fun key _ => by rw [pending]⟩
    dsimp only at pending
    refine ⟨(keptRemovals.trans keptFiles).trans keptSymbols, rfl, rfl, rfl, rfl,
      fun noFiles noRemovals => ?_, fun path spells => ?_⟩
    · rw [noRemovals] at removals
      rw [noFiles] at files
      obtain rfl := Option.some.inj removals
      obtain rfl := Option.some.inj files
      exact pending
    · rw [pending, byFiles, stagedBy_append]
      unfold Flushed.staged
      cases batch.files.reverse.find? (·.path = path) with
      | some file => exact rfl
      | none =>
        have here := byRemovals path
        by_cases member : path ∈ batch.removals
        · rw [if_pos member] at here ⊢
          exact here
        · rw [if_neg member] at here ⊢
          exact here ▸ spells

/-- What stages something finds a row of its worktree. -/
theorem tree_of_flush (success : flush validate db batch = some (after, flushed))
    (busy : ¬(batch.files = [] ∧ batch.removals = [])) : (db.worktrees.get batch.worktree).isSome := by
  unfold flush at success
  split_ifs at success with idle
  · exact absurd ⟨idle.1, idle.2.2⟩ busy
  simp only [Option.bind_eq_bind, Option.bind_eq_some_iff] at success
  obtain ⟨removed, removals, staged, files, -⟩ := success
  cases listed : batch.removals with
  | cons path rest =>
    rw [listed, List.foldlM_cons] at removals
    obtain ⟨mid, first, -⟩ := Option.bind_eq_some_iff.mp removals
    exact (stageRemoval_eq_some.mp first).1
  | nil =>
    rw [listed] at removals
    obtain rfl := Option.some.inj removals
    cases recorded : batch.files with
    | nil => exact absurd ⟨recorded, listed⟩ busy
    | cons file rest =>
      rw [recorded, List.foldlM_cons] at files
      obtain ⟨mid, first, -⟩ := Option.bind_eq_some_iff.mp files
      unfold flushFile at first
      split at first
      all_goals exact (stageFile_eq_some.mp first).1

end Flush

/-- Batches begun since their worktree was last forgotten have numbers of their own, and those above the
watermark have all they staged. -/
structure Exclusive (world : World) : Prop where
  visible : ∀ key row, world.db.files.get key = some row →
    ∃ tree, world.db.worktrees.get key.1 = some tree ∧ row.generation ≤ tree.lastGeneration
  ordered : ∀ worktree tree, world.db.worktrees.get worktree = some tree →
    tree.lastGeneration ≤ tree.nextGeneration
  opened : ∀ name batch, world.batches name = some batch → batch.stale = false →
    ∃ tree, world.db.worktrees.get batch.worktree = some tree ∧ batch.generation ≤ tree.nextGeneration
  apart : ∀ name other batch fellow, world.batches name = some batch →
    world.batches other = some fellow → batch.stale = false → fellow.stale = false →
    batch.worktree = fellow.worktree → batch.generation = fellow.generation → name = other
  whole : ∀ name batch, world.batches name = some batch → batch.stale = false →
    world.db.worktreeGeneration batch.worktree < batch.generation →
    ∀ path, Spells (world.db.pending.get (batch.worktree, batch.generation, path))
      (stagedBy batch.flushed path)

/-- A move in which no batch from before its worktree was forgotten meets one from after. -/
def Undisturbed (world : World) : Move → Prop
  | .begin_ _ worktree _ => ∀ path,
    world.db.pending.get (worktree, (worktreeRow world.db worktree).nextGeneration + 1, path) = none
  | .flush name => ∀ batch, world.batches name = some batch → batch.stale = true →
    batch.files ≠ [] ∨ batch.removals ≠ [] → ∀ other fellow, world.batches other = some fellow →
    fellow.stale = false → fellow.worktree = batch.worktree → fellow.generation = batch.generation →
    fellow.generation ≤ world.db.worktreeGeneration fellow.worktree
  | .publish name => ∀ batch, world.batches name = some batch → batch.stale = true →
    batch.symbols = [] → ∀ tree, world.db.worktrees.get batch.worktree = some tree →
    batch.generation ≤ tree.lastGeneration
  | _ => True

section Exclusive

variable {validate : SymbolCheck} {world next : World} {move : Move} {name other : ℕ}
  {batch changed fellow : IndexBatch} {db : Database}

theorem exclusive_fresh : Exclusive .fresh where
  visible _ _ stored := absurd stored (Option.some_ne_none _).symm
  ordered _ _ stored := absurd stored (Option.some_ne_none _).symm
  opened _ _ found := absurd found (Option.some_ne_none _).symm
  apart _ _ _ _ found := absurd found (Option.some_ne_none _).symm
  whole _ _ found := absurd found (Option.some_ne_none _).symm

/-- A batch that is closed leaves the others as they were. -/
theorem Exclusive.close (exclusive : Exclusive world) (name : ℕ) : Exclusive (world.put name none) where
  visible := exclusive.visible
  ordered := exclusive.ordered
  opened other batch found := by
    rw [World.put_batches] at found
    split_ifs at found
    exact exclusive.opened other batch found
  apart first second batch fellow found met := by
    rw [World.put_batches] at found met
    split_ifs at found met
    exact exclusive.apart first second batch fellow found met
  whole other batch found := by
    rw [World.put_batches] at found
    split_ifs at found
    exact exclusive.whole other batch found

/-- A batch goes on, and writes at most at its own generation. -/
theorem Exclusive.rewrite (exclusive : Exclusive world) (found : world.batches name = some batch)
    (kept : Kept batch.worktree batch.generation world.db db)
    (same : changed.worktree = batch.worktree ∧ changed.generation = batch.generation ∧
      changed.stale = batch.stale)
    (spells : ∀ path, Spells (world.db.pending.get (batch.worktree, batch.generation, path))
        (stagedBy batch.flushed path) →
      Spells (db.pending.get (batch.worktree, batch.generation, path)) (stagedBy changed.flushed path))
    (undisturbed : batch.stale = true → db.pending = world.db.pending ∨ ∀ other fellow,
      world.batches other = some fellow → fellow.stale = false → fellow.worktree = batch.worktree →
      fellow.generation = batch.generation →
      fellow.generation ≤ world.db.worktreeGeneration fellow.worktree) :
    Exclusive ({ world with db := db }.put name (some changed)) := by
  obtain ⟨worktree, generation, stale⟩ := same
  -- The batches are the ones before, as far as the rest is about them.
  have before : ∀ other fellow, ({ world with db := db }.put name (some changed)).batches other =
      some fellow → ∃ old, world.batches other = some old ∧ fellow.worktree = old.worktree ∧
        fellow.generation = old.generation ∧ fellow.stale = old.stale ∧
        (other = name ∧ old = batch ∧ fellow = changed ∨ other ≠ name ∧ old = fellow) := by
    intro other fellow open_
    rw [World.put_batches] at open_
    split_ifs at open_ with here
    · obtain rfl := Option.some.inj open_
      exact ⟨batch, here ▸ found, worktree, generation, stale, .inl ⟨here, rfl, rfl⟩⟩
    · exact ⟨fellow, open_, rfl, rfl, rfl, .inr ⟨here, rfl⟩⟩
  refine ⟨?_, ?_, ?_, ?_, ?_⟩
  · intro key row stored
    rw [World.put_db, kept.files] at stored
    rw [World.put_db, kept.worktrees]
    exact exclusive.visible key row stored
  · intro worktree tree stored
    rw [World.put_db, kept.worktrees] at stored
    exact exclusive.ordered worktree tree stored
  · intro other fellow open_ live
    obtain ⟨old, open_, sameTree, sameGeneration, sameStale, -⟩ := before other fellow open_
    rw [World.put_db, kept.worktrees, sameTree, sameGeneration]
    exact exclusive.opened other old open_ (sameStale ▸ live)
  · intro first second one two openOne openTwo liveOne liveTwo trees generations
    obtain ⟨oldOne, openOne, treeOne, generationOne, staleOne, -⟩ := before first one openOne
    obtain ⟨oldTwo, openTwo, treeTwo, generationTwo, staleTwo, -⟩ := before second two openTwo
    exact exclusive.apart first second oldOne oldTwo openOne openTwo (staleOne ▸ liveOne)
      (staleTwo ▸ liveTwo) (by rw [← treeOne, trees, treeTwo])
      (by rw [← generationOne, generations, generationTwo])
  · intro other fellow open_ live above path
    obtain ⟨old, stood, sameTree, sameGeneration, sameStale, here⟩ := before other fellow open_
    have same : db.worktreeGeneration = world.db.worktreeGeneration := by
      unfold Database.worktreeGeneration
      rw [kept.worktrees]
    rw [World.put_db, same, sameTree, sameGeneration] at above
    have whole := exclusive.whole other old stood (sameStale ▸ live) above path
    rcases here with ⟨rfl, rfl, rfl⟩ | ⟨apart, rfl⟩
    · rw [worktree, generation]
      exact spells path whole
    · rw [World.put_db]
      by_cases shared : old.worktree = batch.worktree ∧ old.generation = batch.generation
      · cases staleness : batch.stale with
        | false =>
          exact absurd (exclusive.apart other name old batch stood found live staleness shared.1
            shared.2) apart
        | true =>
          rcases undisturbed staleness with untouched | below
          · rw [untouched]
            exact whole
          · exact absurd above (below other old stood live shared.1 shared.2).not_gt
      · rw [kept.pending _ shared]
        exact whole

theorem worktreeRow_of_some {db : Database} {worktree : WorktreeKey} {tree : WorktreeRow}
    (stored : db.worktrees.get worktree = some tree) : worktreeRow db worktree = tree := by
  rw [worktreeRow, stored]
  rfl

/-- A begin gives out the next number of its worktree. -/
theorem begin_worktrees {worktree other : WorktreeKey} {scope : BatchScope} :
    (begin_ db worktree scope).1.worktrees.get other = if other = worktree then
      some { worktreeRow db worktree with
        nextGeneration := (worktreeRow db worktree).nextGeneration + 1 }
      else db.worktrees.get other :=
  Keyed.get_set

theorem begin_pending {worktree : WorktreeKey} {scope : BatchScope} {key : WorktreeKey × ℕ × RepoPath} :
    (begin_ db worktree scope).1.pending.get key =
      if key.1 = worktree ∧ key.2.1 ≤ (worktreeRow db worktree).lastGeneration then none
      else db.pending.get key :=
  get_clearStaged

theorem begin_worktreeGeneration {worktree : WorktreeKey} {scope : BatchScope} :
    (begin_ db worktree scope).1.worktreeGeneration = db.worktreeGeneration := by
  funext other
  rw [Database.worktreeGeneration, begin_worktrees, Database.worktreeGeneration]
  split_ifs with here
  · rw [here, worktreeRow]
    cases db.worktrees.get worktree <;> rfl
  · rfl

/-- A batch begins with a number that none of its worktree has, and nothing staged under it. -/
theorem Exclusive.begin_ {worktree : WorktreeKey} {scope : BatchScope} (exclusive : Exclusive world)
    (clear : ∀ path, world.db.pending.get
      (worktree, (worktreeRow world.db worktree).nextGeneration + 1, path) = none) :
    Exclusive ({ world with db := (begin_ world.db worktree scope).1 }.put name
      (some (begin_ world.db worktree scope).2)) := by
  have ordered : (worktreeRow world.db worktree).lastGeneration ≤
      (worktreeRow world.db worktree).nextGeneration := by
    rw [worktreeRow]
    cases stored : world.db.worktrees.get worktree with
    | none => exact Nat.le_refl 0
    | some tree => exact exclusive.ordered worktree tree stored
  refine ⟨?_, ?_, ?_, ?_, ?_⟩
  · intro key file stored
    obtain ⟨tree, found, below⟩ := exclusive.visible key file stored
    rw [World.put_db, begin_worktrees]
    split_ifs with here
    · exact ⟨_, rfl, worktreeRow_of_some (here ▸ found) ▸ below⟩
    · exact ⟨tree, found, below⟩
  · intro other tree stored
    rw [World.put_db, begin_worktrees] at stored
    split_ifs at stored with here
    · obtain rfl := Option.some.inj stored
      exact ordered.trans (Nat.le_succ _)
    · exact exclusive.ordered other tree stored
  · intro other fellow open_ live
    rw [World.put_batches] at open_
    rw [World.put_db, begin_worktrees]
    split_ifs at open_ with new
    · obtain rfl := Option.some.inj open_
      exact ⟨_, if_pos rfl, Nat.le_refl _⟩
    · obtain ⟨tree, found, below⟩ := exclusive.opened other fellow open_ live
      split_ifs with here
      · exact ⟨_, rfl, (worktreeRow_of_some (here ▸ found) ▸ below).trans (Nat.le_succ _)⟩
      · exact ⟨tree, found, below⟩
  · -- The numbers that are taken are at most the one before.
    have taken : ∀ other fellow, world.batches other = some fellow → fellow.stale = false →
        fellow.worktree = worktree →
          fellow.generation ≠ (worktreeRow world.db worktree).nextGeneration + 1 := by
      intro other fellow open_ live here
      obtain ⟨tree, found, below⟩ := exclusive.opened other fellow open_ live
      rw [here] at found
      rw [← worktreeRow_of_some found] at below
      omega
    intro first second one two openOne openTwo liveOne liveTwo trees numbers
    rw [World.put_batches] at openOne openTwo
    split_ifs at openOne openTwo with newOne newTwo newTwo
    · rw [newOne, newTwo]
    · obtain rfl := Option.some.inj openOne
      exact absurd numbers.symm (taken second two openTwo liveTwo trees.symm)
    · obtain rfl := Option.some.inj openTwo
      exact absurd numbers (taken first one openOne liveOne trees)
    · exact exclusive.apart first second one two openOne openTwo liveOne liveTwo trees numbers
  · intro other fellow open_ live above path
    rw [World.put_batches] at open_
    rw [World.put_db, begin_worktreeGeneration] at above
    rw [World.put_db, begin_pending]
    split_ifs at open_ with new
    · obtain rfl := Option.some.inj open_
      split_ifs
      · exact True.intro
      · change Spells (world.db.pending.get
          (worktree, (worktreeRow world.db worktree).nextGeneration + 1, path)) _
        rw [clear path]
        exact True.intro
    · have kept : ¬(fellow.worktree = worktree ∧
          fellow.generation ≤ (worktreeRow world.db worktree).lastGeneration) := by
        rintro ⟨here, below⟩
        have level : world.db.worktreeGeneration worktree =
            (worktreeRow world.db worktree).lastGeneration := by
          rw [worktreeRow, Database.worktreeGeneration]
          cases world.db.worktrees.get worktree <;> rfl
        rw [here, level] at above
        omega
      rw [if_neg kept]
      exact exclusive.whole other fellow open_ live above path

theorem Published.worktreeGeneration {db after : Database} {worktree : WorktreeKey} {generation : ℕ}
    {scope : BatchScope} {headMarker : Option (Option String)}
    (published : Published db after worktree generation scope headMarker) (other : WorktreeKey) :
    after.worktreeGeneration other =
      if other = worktree then generation else db.worktreeGeneration other := by
  obtain ⟨row, found, -⟩ := published.guard
  rw [Database.worktreeGeneration, published.worktrees, Database.worktreeGeneration]
  split_ifs with here
  · rw [found]
    rfl
  · rfl

/-- A commit leaves no file row that is not visible. -/
theorem Published.visible {db after : Database} {worktree : WorktreeKey} {generation : ℕ}
    {scope : BatchScope} {headMarker : Option (Option String)} {key : WorktreeKey × RepoPath}
    {file : FileRow} (published : Published db after worktree generation scope headMarker)
    (before : ∀ key row, db.files.get key = some row →
      ∃ tree, db.worktrees.get key.1 = some tree ∧ row.generation ≤ tree.lastGeneration)
    (visible : after.files.get key = some file) :
    ∃ tree, after.worktrees.get key.1 = some tree ∧ file.generation ≤ tree.lastGeneration := by
  obtain ⟨row, stored, ahead⟩ := published.guard
  rw [published.files] at visible
  unfold publishedFile at visible
  rw [published.worktrees]
  split_ifs at visible ⊢ with here
  · refine ⟨_, congrArg (Option.map _) stored, ?_⟩
    -- A row is one of the batch or one from before.
    have older : ∀ file, db.files.get key = some file → file.generation ≤ generation := by
      intro file visible
      obtain ⟨tree, found, below⟩ := before key file visible
      obtain rfl := Option.some.inj (stored.symm.trans (here ▸ found))
      omega
    split at visible
    · split_ifs at visible
      obtain rfl := Option.some.inj visible
      exact Nat.le_refl _
    · cases scope with
      | full => exact older file (Option.filter_eq_some_iff.mp visible).1
      | targeted => exact older file visible
  · exact before key file visible

/-- A commit that is not refused keeps the others apart. -/
theorem Exclusive.publish {after : Database} {scope : BatchScope}
    {headMarker : Option (Option String)} (exclusive : Exclusive world)
    (found : world.batches name = some batch) (live : batch.stale = false)
    (published : Published world.db after batch.worktree batch.generation scope headMarker) :
    Exclusive { world with db := after } := by
  obtain ⟨row, stored, ahead⟩ := published.guard
  refine ⟨fun _ _ => published.visible exclusive.visible, ?_, ?_, exclusive.apart, ?_⟩
  · intro other tree found
    rw [published.worktrees] at found
    split_ifs at found with here
    · rw [stored] at found
      obtain rfl := Option.some.inj found
      obtain ⟨tree, found, below⟩ := exclusive.opened name batch ‹_› live
      obtain rfl := Option.some.inj (stored.symm.trans found)
      exact below
    · exact exclusive.ordered other tree found
  · intro other fellow open_ fresh
    obtain ⟨tree, found, below⟩ := exclusive.opened other fellow open_ fresh
    rw [published.worktrees]
    split_ifs with here
    · obtain rfl := Option.some.inj (stored.symm.trans (here ▸ found))
      exact ⟨_, congrArg (Option.map _) stored, below⟩
    · exact ⟨tree, found, below⟩
  · intro other fellow open_ fresh above path
    dsimp only at above ⊢
    rw [published.worktreeGeneration] at above
    rw [published.pending]
    split_ifs at above with here
    · rw [if_neg fun below => absurd below.2 (Nat.not_le.mpr above)]
      refine exclusive.whole other fellow open_ fresh ?_ path
      rw [here, Database.worktreeGeneration, stored]
      exact ahead.trans above
    · rw [if_neg fun below => here below.1]
      exact exclusive.whole other fellow open_ fresh above path

/-- Only the tables of worktrees and their files matter. -/
theorem Exclusive.derived (exclusive : Exclusive world) (worktrees : db.worktrees = world.db.worktrees)
    (files : db.files = world.db.files) (pending : db.pending = world.db.pending) :
    Exclusive { world with db := db } where
  visible := by rw [files, worktrees]; exact exclusive.visible
  ordered := by rw [worktrees]; exact exclusive.ordered
  opened := by rw [worktrees]; exact exclusive.opened
  apart := exclusive.apart
  whole := by
    unfold Database.worktreeGeneration
    rw [worktrees, pending]
    exact exclusive.whole

/-- A batch that is still fresh after a worktree was forgotten was fresh before, in another worktree. -/
theorem World.outdate_batches {which : WorktreeKey → Bool}
    (found : (world.outdate which).batches name = some batch) (live : batch.stale = false) :
    world.batches name = some batch ∧ which batch.worktree = false := by
  obtain ⟨old, open_, rfl⟩ := Option.map_eq_some_iff.mp found
  obtain ⟨fresh, other⟩ := Bool.or_eq_false_iff.mp live
  refine ⟨?_, other⟩
  rw [open_, fresh, other]
  rcases old with ⟨⟩
  cases fresh
  rfl

theorem Exclusive.forget (exclusive : Exclusive world) (worktree : WorktreeKey) :
    Exclusive ({ world with db := forgetWorktree world.db worktree }.outdate (· = worktree)) := by
  have worktrees : ∀ other, other ≠ worktree →
      (forgetWorktree world.db worktree).worktrees.get other = world.db.worktrees.get other := by
    intro other apart
    change (world.db.worktrees.get other).filter _ = _
    simp [apart]
  have files : ∀ key row, (forgetWorktree world.db worktree).files.get key = some row →
      world.db.files.get key = some row ∧ key.1 ≠ worktree := by
    intro key row found
    obtain ⟨found, other⟩ := Option.filter_eq_some_iff.mp found
    exact ⟨found, of_decide_eq_true other⟩
  have pending : ∀ key, key.1 ≠ worktree →
      (forgetWorktree world.db worktree).pending.get key = world.db.pending.get key := by
    intro key apart
    change (world.db.pending.get key).filter _ = _
    simp [apart]
  have live : ∀ name batch, ({ world with db := forgetWorktree world.db worktree }.outdate
      (· = worktree)).batches name = some batch → batch.stale = false →
      world.batches name = some batch ∧ batch.worktree ≠ worktree :=
    fun name batch found fresh => (World.outdate_batches found fresh).imp id of_decide_eq_false
  refine ⟨?_, ?_, ?_, ?_, ?_⟩
  · intro key row found
    obtain ⟨found, other⟩ := files key row found
    change ∃ tree, (forgetWorktree world.db worktree).worktrees.get key.1 = some tree ∧ _
    rw [worktrees key.1 other]
    exact exclusive.visible key row found
  · intro other tree found
    exact exclusive.ordered other tree (Option.filter_eq_some_iff.mp found).1
  · intro name batch found fresh
    obtain ⟨found, other⟩ := live name batch found fresh
    change ∃ tree, (forgetWorktree world.db worktree).worktrees.get batch.worktree = some tree ∧ _
    rw [worktrees _ other]
    exact exclusive.opened name batch found fresh
  · intro first second one two openOne openTwo liveOne liveTwo
    exact exclusive.apart first second one two (live first one openOne liveOne).1
      (live second two openTwo liveTwo).1 liveOne liveTwo
  · intro name batch found fresh above path
    obtain ⟨found, other⟩ := live name batch found fresh
    change (forgetWorktree world.db worktree).worktreeGeneration batch.worktree < batch.generation at above
    rw [Database.worktreeGeneration, worktrees _ other] at above
    change Spells ((forgetWorktree world.db worktree).pending.get _) _
    rw [pending _ other]
    exact exclusive.whole name batch found fresh above path

theorem exclusive_dispose : Exclusive ({ world with db := .empty }.outdate fun _ => true) where
  visible _ _ stored := absurd stored (Option.some_ne_none _).symm
  ordered _ _ stored := absurd stored (Option.some_ne_none _).symm
  opened _ _ found live := Bool.noConfusion (World.outdate_batches found live).2
  apart _ _ _ _ found _ live := Bool.noConfusion (World.outdate_batches found live).2
  whole _ _ found live := Bool.noConfusion (World.outdate_batches found live).2

/-- What a batch has buffered does not matter. -/
theorem Exclusive.buffer {change : IndexBatch → IndexBatch} (exclusive : Exclusive world)
    (step : world.buffer name change = some next)
    (same : ∀ batch, (change batch).worktree = batch.worktree ∧
      (change batch).generation = batch.generation ∧ (change batch).stale = batch.stale ∧
      (change batch).flushed = batch.flushed) : Exclusive next := by
  obtain ⟨batch, found, rfl⟩ := Option.map_eq_some_iff.mp step
  obtain ⟨worktree, generation, stale, flushed⟩ := same batch
  refine exclusive.rewrite found (.refl world.db) ⟨worktree, generation, stale⟩ (fun path spells => ?_)
    fun _ => .inl rfl
  rw [flushed]
  exact spells

theorem Exclusive.step (exclusive : Exclusive world) (undisturbed : Undisturbed world move)
    (step : step validate world move = some next) : Exclusive next := by
  cases move with
  | begin_ name worktree scope =>
    simp only [Index.step] at step
    split at step
    · cases step
    · obtain rfl := Option.some.inj step
      exact exclusive.begin_ undisturbed
  | recordFile name file => exact exclusive.buffer step fun _ => ⟨rfl, rfl, rfl, rfl⟩
  | recordSymbols name attached => exact exclusive.buffer step fun _ => ⟨rfl, rfl, rfl, rfl⟩
  | remove name path => exact exclusive.buffer step fun _ => ⟨rfl, rfl, rfl, rfl⟩
  | recordHeadMarker name marker => exact exclusive.buffer step fun _ => ⟨rfl, rfl, rfl, rfl⟩
  | flush name =>
    simp only [Index.step, Option.bind_eq_bind, Option.bind_eq_some_iff] at step
    obtain ⟨batch, found, ⟨db, flushed⟩, success, step⟩ := step
    obtain rfl := Option.some.inj step
    have spec := flush_spec success
    refine exclusive.rewrite found spec.kept ⟨spec.worktree, spec.generation, spec.stale⟩ spec.spells
      fun staleness => ?_
    by_cases idle : batch.files = [] ∧ batch.removals = []
    · exact .inl (spec.idle idle.1 idle.2)
    · exact .inr (undisturbed batch found staleness (not_and_or.mp idle))
  | publish name =>
    simp only [Index.step, Option.bind_eq_bind, Option.bind_eq_some_iff] at step
    obtain ⟨batch, found, step⟩ := step
    split_ifs at step with ready
    obtain rfl := Option.some.inj step
    suffices kept : Exclusive { world with db := (batch.publish world.db).getD world.db } from
      kept.close name
    cases success : batch.publish world.db with
    | none => exact exclusive
    | some after =>
      unfold IndexBatch.publish at success
      split_ifs at success with attached
      have published := publish_spec success
      cases staleness : batch.stale with
      | false => exact exclusive.publish found staleness published
      | true =>
        obtain ⟨row, stored, ahead⟩ := published.guard
        exact absurd ahead (undisturbed batch found staleness attached row stored).not_gt
  | drop name =>
    obtain ⟨batch, found, rfl⟩ := Option.map_eq_some_iff.mp step
    exact exclusive.close name
  | forget worktree =>
    obtain rfl := Option.some.inj step
    exact exclusive.forget worktree
  | dispose =>
    obtain rfl := Option.some.inj step
    exact exclusive_dispose
  | invalidate component =>
    obtain rfl := Option.some.inj step
    cases component <;> exact exclusive.derived rfl rfl rfl
  | refreshGrammars current =>
    obtain rfl := Option.some.inj step
    exact exclusive.derived rfl rfl rfl

end Exclusive

/-- No batch of a worktree begins while one from before the worktree was forgotten is in flight. -/
def Apart (world : World) : Move → Prop
  | .begin_ _ worktree _ => ∀ name batch, world.batches name = some batch → batch.stale = true →
    batch.worktree ≠ worktree
  | _ => True

/-- What holds in such runs. -/
structure Parted (world : World) : Prop where
  exclusive : Exclusive world
  gone : ∀ name batch, world.batches name = some batch → batch.stale = true →
    world.db.worktrees.get batch.worktree = none
  staged : ∀ worktree generation path, world.db.pending.get (worktree, generation, path) ≠ none →
    generation ≤ (worktreeRow world.db worktree).nextGeneration

/-- A worktree is forgotten, or the cache disposed of, only while no batch of it is in flight. -/
def Calm (world : World) (move : Move) : Prop :=
  ∀ name batch, world.batches name = some batch → move.forgets batch.worktree = false

/-- What holds in runs without forgetting. -/
structure Settled (world : World) : Prop extends Parted world where
  live : ∀ name batch, world.batches name = some batch → batch.stale = false

section Settled

variable {validate : SymbolCheck} {world next : World} {move : Move} {name : ℕ} {batch : IndexBatch}
  {worktree : WorktreeKey} {db : Database}

/-- A batch from before finds no row of its worktree, so it stages and commits nothing. -/
theorem Parted.undisturbed (parted : Parted world) (move : Move) : Undisturbed world move := by
  cases move with
  | begin_ name worktree scope =>
    intro path
    by_contra staged
    have below := parted.staged worktree _ path staged
    omega
  | flush name =>
    intro batch found stale _ other fellow open_ live same
    obtain ⟨tree, stored, -⟩ := parted.exclusive.opened other fellow open_ live
    rw [same, parted.gone name batch found stale] at stored
    cases stored
  | publish name =>
    intro batch found stale _ tree stored
    rw [parted.gone name batch found stale] at stored
    cases stored
  | recordFile | recordSymbols | remove | recordHeadMarker | drop | forget | dispose | invalidate
  | refreshGrammars => exact True.intro

/-- A batch that goes on keeps its worktree and its number. -/
theorem Continued.kept {old : IndexBatch} (continued : Continued validate world name old move batch) :
    batch.worktree = old.worktree ∧ batch.generation = old.generation ∧
      batch.stale = (old.stale || move.forgets old.worktree) := by
  cases continued with
  | same keeps => exact ⟨rfl, rfl, by rw [keeps, Bool.or_false]⟩
  | flush success =>
    have spec := flush_spec success
    exact ⟨spec.worktree, spec.generation, by rw [spec.stale]; exact (Bool.or_false _).symm⟩
  | outdated forgets => exact ⟨rfl, rfl, by rw [forgets, Bool.or_true]⟩
  | recordFile | recordSymbols | remove | recordHeadMarker => exact ⟨rfl, rfl, (Bool.or_false _).symm⟩

/-- The row of a worktree is made when a batch of it begins. -/
theorem Effect.absent (effect : Effect validate world move db)
    (absent : world.db.worktrees.get worktree = none)
    (begins : ∀ name scope, move ≠ .begin_ name worktree scope) : db.worktrees.get worktree = none := by
  cases effect with
  | begin_ name other scope =>
    have apart : worktree ≠ other := fun same => begins name scope (same ▸ rfl)
    exact (Keyed.get_set_of_ne apart).trans absent
  | same | refused => exact absent
  | flush found success => rw [(flush_spec success).kept.worktrees, absent]
  | published found flushed success =>
    unfold IndexBatch.publish at success
    split_ifs at success
    rw [(publish_spec success).worktrees]
    split_ifs with here
    · rw [← here, absent]
      rfl
    · exact absent
  | forget other =>
    change (world.db.worktrees.get worktree).filter _ = none
    rw [absent]
    rfl
  | dispose => rfl
  | invalidate component => cases component <;> exact absent
  | refreshGrammars => exact absent

theorem Effect.forgotten (effect : Effect validate world move db) (forgets : move.forgets worktree = true) :
    db.worktrees.get worktree = none := by
  cases effect with
  | same buffers => exact absurd forgets (Bool.eq_false_iff.mp (buffers worktree))
  | forget other =>
    obtain rfl := of_decide_eq_true forgets
    change (world.db.worktrees.get worktree).filter _ = none
    exact Option.filter_eq_none_iff.mpr fun row _ => by simp
  | dispose => rfl
  | begin_ | flush | refused | published | invalidate | refreshGrammars => cases forgets

/-- What is staged is staged by a number that was given out. -/
theorem Parted.staged_effect (parted : Parted world) (effect : Effect validate world move db)
    {worktree : WorktreeKey} {generation : ℕ} {path : RepoPath}
    (staged : db.pending.get (worktree, generation, path) ≠ none) :
    generation ≤ (worktreeRow db worktree).nextGeneration := by
  cases effect with
  | begin_ name other scope =>
    have before : world.db.pending.get (worktree, generation, path) ≠ none := by
      intro unstaged
      rw [begin_pending, unstaged, ite_self] at staged
      exact staged rfl
    have below := parted.staged worktree generation path before
    by_cases here : worktree = other
    · subst here
      rw [worktreeRow_of_some (begin_worktrees.trans (if_pos rfl))]
      exact below.trans (Nat.le_succ _)
    · rw [worktreeRow, begin_worktrees, if_neg here]
      exact below
  | same | refused => exact parted.staged worktree generation path staged
  | @flush name batch flushed db found success =>
    have spec := flush_spec success
    rw [worktreeRow, spec.kept.worktrees]
    by_cases here : worktree = batch.worktree ∧ generation = batch.generation
    · obtain ⟨rfl, rfl⟩ := here
      by_cases idle : batch.files = [] ∧ batch.removals = []
      · rw [spec.idle idle.1 idle.2] at staged
        exact parted.staged _ _ path staged
      · have some_ := tree_of_flush success idle
        cases stale : batch.stale with
        | true =>
          rw [parted.gone name batch found stale] at some_
          cases some_
        | false =>
          obtain ⟨tree, stored, below⟩ := parted.exclusive.opened name batch found stale
          rw [stored]
          exact below
    · rw [spec.kept.pending _ here] at staged
      exact parted.staged worktree generation path staged
  | @published name batch db found flushed success =>
    unfold IndexBatch.publish at success
    split_ifs at success
    have published := publish_spec success
    rw [published.pending] at staged
    split_ifs at staged with cleared
    · exact absurd rfl staged
    have below := parted.staged worktree generation path staged
    rw [worktreeRow, published.worktrees]
    split_ifs with here
    · rw [here] at below
      cases stored : world.db.worktrees.get batch.worktree with
      | none => rw [worktreeRow, stored] at below; exact below
      | some tree => rw [worktreeRow_of_some stored] at below; exact below
    · exact below
  | forget other =>
    obtain ⟨row, found⟩ := Option.ne_none_iff_exists'.mp staged
    obtain ⟨found, apart⟩ := Option.filter_eq_some_iff.mp found
    have below := parted.staged worktree generation path (by rw [found]; exact Option.some_ne_none row)
    have kept : (forgetWorktree world.db other).worktrees.get worktree =
        world.db.worktrees.get worktree := by
      change (world.db.worktrees.get worktree).filter _ = _
      simp [of_decide_eq_true apart]
    rw [worktreeRow, kept]
    exact below
  | dispose => exact absurd rfl staged
  | invalidate component =>
    cases component <;> exact parted.staged worktree generation path staged
  | refreshGrammars current => exact parted.staged worktree generation path staged

theorem Parted.step (parted : Parted world) (apart : Apart world move)
    (step : step validate world move = some next) : Parted next where
  exclusive := parted.exclusive.step (parted.undisturbed move) step
  gone name batch found stale := by
    rcases step_continued step found with ⟨worktree, scope, -, rfl⟩ | ⟨old, opened, continued⟩
    · cases stale
    obtain ⟨same, -, keeps⟩ := continued.kept
    rw [same]
    cases forgets : move.forgets old.worktree with
    | true => exact (step_effect step).forgotten forgets
    | false =>
      rw [forgets, Bool.or_false, stale] at keeps
      refine (step_effect step).absent (parted.gone name old opened keeps.symm) ?_
      rintro other scope rfl
      exact apart name old opened keeps.symm rfl
  staged worktree generation path := parted.staged_effect (step_effect step)

theorem parted_fresh : Parted .fresh := ⟨exclusive_fresh, nofun, fun _ _ _ staged => absurd rfl staged⟩

theorem parted_of_apart {moves : List Move} (run : (machine validate).Path .fresh moves world)
    (apart : (machine validate).Each Apart .fresh moves) : Parted world :=
  run.preserves_of (fun _ _ _ parted apart step => parted.step apart step) apart parted_fresh

theorem Settled.step (settled : Settled world) (calm : Calm world move)
    (step : step validate world move = some next) : Settled next where
  toParted := settled.toParted.step (by
    cases move with
    | begin_ name worktree scope =>
      intro name batch found stale
      exact absurd (stale.symm.trans (settled.live name batch found)) (by decide)
    | _ => exact True.intro) step
  live name batch found := by
    rcases step_continued step found with ⟨worktree, scope, -, rfl⟩ | ⟨old, opened, continued⟩
    · rfl
    · rw [continued.kept.2.2, settled.live name old opened, calm name old opened]
      rfl

theorem settled_fresh : Settled .fresh := ⟨parted_fresh, nofun⟩

theorem settled_of_calm {moves : List Move} (run : (machine validate).Path .fresh moves world)
    (calm : (machine validate).Each Calm .fresh moves) : Settled world :=
  run.preserves_of (fun _ _ _ settled calm step => settled.step calm step) calm settled_fresh

/-- Runs in which nothing is forgotten are calm. -/
theorem each_calm {moves : List Move}
    (keeps : ∀ move ∈ moves, ∀ worktree, move.forgets worktree = false) :
    (machine validate).Each Calm world moves := by
  intro first move rest mid here _ name batch _
  refine keeps move ?_ batch.worktree
  rw [here]
  exact List.mem_append_right _ List.mem_cons_self

end Settled

/-- The file row that a recorded file becomes. -/
def PendingFile.published (self : PendingFile) (generation : ℕ) (replaced : Option FileRow) : FileRow where
  fileVersion :=
    match self.content with
    | .read content => some content.fileVersion
    | .none => none
    | .unavailable | .kept => replaced.bind (·.fileVersion)
  columns := { self.columns with byteSize := i64OrMax self.columns.byteSize }
  generation := generation

/-- What a batch makes of the visible rows of its worktree. -/
def IndexBatch.result (self : IndexBatch) (visible : RepoPath → Option FileRow) (path : RepoPath) :
    Option FileRow :=
  match stagedBy self.flushed path with
  | some (.file file) => some (file.published self.generation (visible path))
  | some .removed => none
  | none =>
    match self.scope with
    | .full => none
    | .targeted => visible path

theorem PendingFile.applied_staged (file : PendingFile) (generation : ℕ) (replaced : Option FileRow) :
    file.staged.applied generation replaced = file.published generation replaced := by
  rcases file with ⟨path, columns, content⟩
  cases content <;> cases replaced <;> rfl

/-- What one move does to what is visible. -/
structure Protocol (world : World) (move : Move) (next : World) : Prop where
  /-- Only the commit of a batch of a worktree that succeeds changes anything. -/
  quiet : ∀ worktree, (∀ name batch, move = .publish name → world.batches name = some batch →
      batch.worktree = worktree → batch.publish world.db = none) →
    next.db.worktreeGeneration worktree = world.db.worktreeGeneration worktree ∧
      next.db.file worktree = world.db.file worktree
  commit : ∀ name batch, move = .publish name → world.batches name = some batch →
    (batch.publish world.db).isSome → world.db.worktreeGeneration batch.worktree <
        next.db.worktreeGeneration batch.worktree ∧
      next.db.file batch.worktree = batch.result (world.db.file batch.worktree)

section Protocol

variable {validate : SymbolCheck} {world next : World} {move : Move} {name : ℕ} {batch : IndexBatch}

/-- Where no file row is above its watermark, every one is visible. -/
theorem Database.file_of_visible {db : Database} (visible : ∀ key row, db.files.get key = some row →
      ∃ tree, db.worktrees.get key.1 = some tree ∧ row.generation ≤ tree.lastGeneration)
    (worktree : WorktreeKey) (path : RepoPath) : db.file worktree path = db.files.get (worktree, path) := by
  rw [Database.file]
  cases stored : db.files.get (worktree, path) with
  | none => cases db.worktrees.get worktree <;> rfl
  | some row =>
    obtain ⟨tree, found, below⟩ := visible _ row stored
    rw [found]
    simp [below]

theorem Exclusive.file (exclusive : Exclusive world) (worktree : WorktreeKey) (path : RepoPath) :
    world.db.file worktree path = world.db.files.get (worktree, path) :=
  Database.file_of_visible exclusive.visible worktree path

/-- A staged row becomes what its file says. -/
theorem publishedFile_eq {db : Database} (above : ∀ path, Spells
      (db.pending.get (batch.worktree, batch.generation, path)) (stagedBy batch.flushed path))
    (older : ∀ path row, db.files.get (batch.worktree, path) = some row →
      row.generation ≠ batch.generation) (path : RepoPath) :
    publishedFile db batch.worktree batch.generation batch.scope (batch.worktree, path) =
      batch.result (fun path => db.files.get (batch.worktree, path)) path := by
  have spells := above path
  have staged : stagedFor db batch.worktree batch.generation (batch.worktree, path) =
      db.pending.get (batch.worktree, batch.generation, path) := if_pos rfl
  rw [publishedFile.eq_def, if_pos rfl, staged, IndexBatch.result]
  cases row : db.pending.get (batch.worktree, batch.generation, path) with
  | none =>
    cases said : stagedBy batch.flushed path with
    | some staged => rw [row, said] at spells; cases staged <;> exact spells.elim
    | none =>
      cases scope : batch.scope with
      | targeted => rfl
      | full =>
        dsimp only
        cases stored : db.files.get (batch.worktree, path) with
        | none => rfl
        | some file => simp [older path file stored]
  | some row_ =>
    rw [row] at spells
    cases said : stagedBy batch.flushed path with
    | none => rw [said] at spells; exact spells.elim
    | some staged =>
      rw [said] at spells
      cases staged with
      | removed => simp [spells.1]
      | file file =>
        obtain rfl : row_ = file.staged := spells
        dsimp only
        rw [file.applied_staged]
        rfl

theorem Exclusive.commit (exclusive : Exclusive world) (found : world.batches name = some batch)
    (live : batch.stale = false) {db : Database} (success : batch.publish world.db = some db) :
    world.db.worktreeGeneration batch.worktree < batch.generation ∧
      db.worktreeGeneration batch.worktree = batch.generation ∧ ∀ path,
      db.files.get (batch.worktree, path) = batch.result (world.db.file batch.worktree) path := by
  unfold IndexBatch.publish at success
  split_ifs at success
  have published := publish_spec success
  obtain ⟨row, stored, ahead⟩ := published.guard
  have level : world.db.worktreeGeneration batch.worktree = row.lastGeneration := by
    rw [Database.worktreeGeneration, stored]
    rfl
  refine ⟨level ▸ ahead, by rw [published.worktreeGeneration, if_pos rfl], fun path => ?_⟩
  rw [published.files, publishedFile_eq (exclusive.whole name batch found live (level ▸ ahead))]
  · congr 1
    funext path
    exact (exclusive.file batch.worktree path).symm
  · intro path file stored_
    obtain ⟨tree, same, below⟩ := exclusive.visible _ file stored_
    obtain rfl := Option.some.inj (stored.symm.trans same)
    omega

/-- What is visible in a worktree changes only when it is forgotten or a commit of it succeeds. -/
theorem Exclusive.quiet {worktree : WorktreeKey} (exclusive : Exclusive world) (after : Exclusive next)
    (step : Index.step validate world move = some next) (keeps : move.forgets worktree = false)
    (refused : ∀ name batch, move = .publish name → world.batches name = some batch →
      batch.worktree = worktree → batch.publish world.db = none) :
    next.db.worktreeGeneration worktree = world.db.worktreeGeneration worktree ∧
      next.db.file worktree = world.db.file worktree := by
  suffices same : next.db.worktreeGeneration worktree = world.db.worktreeGeneration worktree ∧
      ∀ path, next.db.files.get (worktree, path) = world.db.files.get (worktree, path) by
    refine ⟨same.1, funext fun path => ?_⟩
    rw [after.file, exclusive.file]
    exact same.2 path
  have effect := step_effect step
  generalize next.db = db at effect
  cases effect with
  | begin_ name other scope => exact ⟨congrFun begin_worktreeGeneration worktree, fun _ => rfl⟩
  | same | refused => exact ⟨rfl, fun _ => rfl⟩
  | flush found success =>
    have kept := (flush_spec success).kept
    unfold Database.worktreeGeneration
    rw [kept.worktrees, kept.files]
    exact ⟨rfl, fun _ => rfl⟩
  | @published name batch db found flushed success =>
    have other : worktree ≠ batch.worktree := by
      rintro rfl
      rw [refused name batch rfl found rfl] at success
      cases success
    unfold IndexBatch.publish at success
    split_ifs at success
    have published := publish_spec success
    refine ⟨by rw [published.worktreeGeneration, if_neg other], fun path => ?_⟩
    rw [published.files, publishedFile.eq_def, if_neg other]
  | forget other =>
    have apart : worktree ≠ other := of_decide_eq_false keeps
    have rows : (forgetWorktree world.db other).worktrees.get worktree =
        world.db.worktrees.get worktree := by
      change (world.db.worktrees.get worktree).filter _ = _
      simp [apart]
    refine ⟨by rw [Database.worktreeGeneration, rows]; rfl, fun path => ?_⟩
    change (world.db.files.get (worktree, path)).filter _ = _
    simp [apart]
  | dispose => cases keeps
  | invalidate component => cases component <;> exact ⟨rfl, fun _ => rfl⟩
  | refreshGrammars current => exact ⟨rfl, fun _ => rfl⟩

/-- A commit of a batch that succeeds shows what the batch has staged. -/
theorem Exclusive.shown (exclusive : Exclusive world) (after : Exclusive next)
    (step : Index.step validate world (.publish name) = some next)
    (found : world.batches name = some batch) (live : batch.stale = false)
    (success : (batch.publish world.db).isSome) :
    world.db.worktreeGeneration batch.worktree < batch.generation ∧
      next.db.worktreeGeneration batch.worktree = batch.generation ∧
      next.db.file batch.worktree = batch.result (world.db.file batch.worktree) := by
  have effect := step_effect step
  generalize database : next.db = db at effect
  cases effect with
  | same buffers writes => exact absurd rfl (writes name)
  | refused open_ refused =>
    obtain rfl := Option.some.inj (found.symm.trans open_)
    rw [refused] at success
    cases success
  | published open_ flushed succeeded =>
    obtain rfl := Option.some.inj (found.symm.trans open_)
    obtain ⟨ahead, level, files⟩ := exclusive.commit found live succeeded
    refine ⟨ahead, level, funext fun path => ?_⟩
    rw [← database, after.file, database]
    exact files path

theorem commit_protocol {moves : List Move} (run : (machine validate).Path .fresh moves world)
    (calm : (machine validate).Each Calm .fresh moves) (keeps : ∀ worktree, move.forgets worktree = false)
    (step : step validate world move = some next) : Protocol world move next := by
  have settled := settled_of_calm run calm
  have after := settled.step (fun _ batch _ => keeps batch.worktree) step
  constructor
  · intro worktree refused
    exact settled.exclusive.quiet after.exclusive step (keeps worktree) refused
  · rintro name batch rfl found success
    obtain ⟨ahead, level, files⟩ := settled.exclusive.shown after.exclusive step found
      (settled.live name batch found) success
    exact ⟨level ▸ ahead, files⟩

/-- A file whose bytes are `a`, as a walk sees it. -/
def sampleFile : PendingFile := ⟨[97], ⟨1, some 5, .source, false, none, false, 1⟩, .none⟩

/-- A file of a worktree is recorded, flushed and committed. -/
theorem commit_protocol_sample : ∃ world next, (machine fun _ _ _ _ => true).run? .fresh
      [.begin_ 0 "work" .full, .recordFile 0 sampleFile, .flush 0] = some world ∧
    Protocol world (.publish 0) next ∧ (next.db.file "work" [97]).isSome = true := by
  obtain ⟨world, run, next, step, visible⟩ : ∃ world, (machine fun _ _ _ _ => true).run? .fresh
      [.begin_ 0 "work" .full, .recordFile 0 sampleFile, .flush 0] = some world ∧
      ∃ next, step (fun _ _ _ _ => true) world (.publish 0) = some next ∧
        (next.db.file "work" [97]).isSome = true := ⟨_, rfl, _, rfl, by decide⟩
  have keeps : ∀ move ∈ [Move.begin_ 0 "work" .full, .recordFile 0 sampleFile, .flush 0],
      ∀ worktree, move.forgets worktree = false := by simp [Move.forgets]
  exact ⟨world, next, run, commit_protocol (Machine.run?_eq_some_iff.mp run) (each_calm keeps)
    (fun _ => rfl) step, visible⟩

end Protocol

end Harkness.Context.Index
