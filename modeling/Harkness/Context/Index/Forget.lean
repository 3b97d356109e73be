import Harkness.Context.Index.Commit

/-! # Batches that outlive their worktree's rows

Forgetting a worktree deletes the row that numbers its batches, so the numbers start again while a batch
from before still holds one. Such a batch is harmless while the new numbering has caught up with it, or
has not begun; where it stands above the new watermark it commits like any other.
-/

namespace Harkness.Context.Index

/-- What one move does to batches begun before their worktree was forgotten, and to those begun since. -/
structure Outlived (world : World) (move : Move) (next : World) : Prop where
  refused : ∀ name batch, move = .publish name → world.batches name = some batch → batch.stale = true →
    batch.publish world.db = none
  /-- What is visible is changed by batches begun since, and by forgetting. -/
  quiet : ∀ worktree, move.forgets worktree = false →
    (∀ name batch, move = .publish name → world.batches name = some batch →
      batch.worktree = worktree → batch.stale = true ∨ batch.publish world.db = none) →
    next.db.worktreeGeneration worktree = world.db.worktreeGeneration worktree ∧
      next.db.file worktree = world.db.file worktree
  /-- A batch begun since shows the rows it staged itself. -/
  own : ∀ name batch, move = .publish name → world.batches name = some batch → batch.stale = false →
    (batch.publish world.db).isSome →
    next.db.worktreeGeneration batch.worktree = batch.generation ∧
      next.db.file batch.worktree = batch.result (world.db.file batch.worktree)
  /-- It is refused only for symbols it never recorded a version of, or behind the watermark. -/
  accepted : ∀ name batch, move = .publish name → world.batches name = some batch →
    batch.stale = false → batch.publish world.db = none →
    batch.symbols ≠ [] ∨ batch.generation ≤ world.db.worktreeGeneration batch.worktree

section Outlived

variable {validate : SymbolCheck} {world next : World} {move : Move} {batch : IndexBatch} {db : Database}

/-- Why a flushed batch is refused. -/
theorem IndexBatch.publish_eq_none : batch.publish db = none ↔ batch.symbols ≠ [] ∨
    ∀ row, db.worktrees.get batch.worktree = some row → batch.generation ≤ row.lastGeneration := by
  unfold IndexBatch.publish Index.publish
  by_cases attached : batch.symbols = []
  · cases db.worktrees.get batch.worktree <;> simp [attached]
  · simp [attached]

theorem exclusive_of_undisturbed {moves : List Move} (run : (machine validate).Path .fresh moves world)
    (undisturbed : (machine validate).Each Undisturbed .fresh moves) : Exclusive world :=
  run.preserves_of (fun _ _ _ exclusive undisturbed step => exclusive.step undisturbed step) undisturbed
    exclusive_fresh

theorem Exclusive.outlived (exclusive : Exclusive world) (here : Undisturbed world move)
    (step : Index.step validate world move = some next) : Outlived world move next := by
  have after := exclusive.step here step
  have refused : ∀ name batch, move = .publish name → world.batches name = some batch →
      batch.stale = true → batch.publish world.db = none := by
    rintro name batch rfl found stale
    rw [IndexBatch.publish_eq_none]
    by_cases attached : batch.symbols = []
    · exact .inr (here batch found stale attached)
    · exact .inl attached
  refine ⟨refused, fun worktree keeps others => ?_, ?_, ?_⟩
  · refine exclusive.quiet after step keeps fun name batch publishes found same => ?_
    rcases others name batch publishes found same with stale | refused_
    · exact refused name batch publishes found stale
    · exact refused_
  · rintro name batch rfl found live success
    exact (exclusive.shown after step found live success).2
  · rintro name batch rfl found live failure
    refine (IndexBatch.publish_eq_none.mp failure).imp id fun behind => ?_
    obtain ⟨tree, stored, -⟩ := exclusive.opened name batch found live
    rw [Database.worktreeGeneration, stored]
    exact behind tree stored

theorem outlived_of_undisturbed {moves : List Move} (run : (machine validate).Path .fresh moves world)
    (step : step validate world move = some next)
    (undisturbed : (machine validate).Each Undisturbed .fresh (moves ++ [move])) :
    Outlived world move next :=
  (exclusive_of_undisturbed run undisturbed.begin_).outlived (undisturbed.rest run).head step

/-- It is enough that no batch of a worktree begins while one from before the worktree was forgotten is in
flight. -/
theorem outlived_of_apart {moves : List Move} (run : (machine validate).Path .fresh moves world)
    (step : step validate world move = some next) (apart : (machine validate).Each Apart .fresh moves) :
    Outlived world move next :=
  have parted := parted_of_apart run apart
  parted.exclusive.outlived (parted.undisturbed move) step

/-- A batch from before is refused once a batch begun since has the same number. -/
theorem outlived_of_undisturbed_sample : ∃ world next, (machine fun _ _ _ _ => true).run? .fresh
      [.begin_ 0 "work" .full, .forget "work", .begin_ 1 "work" .full, .publish 1] = some world ∧
    Outlived world (.publish 0) next := by
  obtain ⟨world, run, next, step⟩ : ∃ world, (machine fun _ _ _ _ => true).run? .fresh
      [.begin_ 0 "work" .full, .forget "work", .begin_ 1 "work" .full, .publish 1] = some world ∧
      ∃ next, step (fun _ _ _ _ => true) world (.publish 0) = some next := ⟨_, rfl, _, rfl⟩
  refine ⟨world, next, run, outlived_of_undisturbed (Machine.run?_eq_some_iff.mp run) step ?_⟩
  refine Machine.each_cons (fun _ => rfl) ?_
  rintro _ ⟨⟩
  refine Machine.each_cons True.intro ?_
  rintro _ ⟨⟩
  refine Machine.each_cons (fun _ => rfl) ?_
  rintro _ ⟨⟩
  refine Machine.each_cons ?_ ?_
  · rintro _ ⟨⟩ ⟨⟩
  rintro _ ⟨⟩
  refine Machine.each_cons ?_ fun _ _ => Machine.each_nil
  rintro _ ⟨⟩ - - _ ⟨⟩
  decide

/-- A batch from before commits under a number that was given out again, and the batch that has it since
is refused. -/
theorem forgotten_batch_commits : ∃ world next batch fresh, (machine fun _ _ _ _ => true).run? .fresh
      [.begin_ 0 "work" .full, .forget "work", .begin_ 1 "work" .full, .recordFile 0 sampleFile,
        .flush 0] = some world ∧
    step (fun _ _ _ _ => true) world (.publish 0) = some next ∧ ¬Outlived world (.publish 0) next ∧
    world.batches 0 = some batch ∧ batch.stale = true ∧ (next.db.file "work" [97]).isSome = true ∧
    next.batches 1 = some fresh ∧ fresh.stale = false ∧ fresh.publish next.db = none := by
  refine ⟨_, _, _, _, rfl, rfl, ?_, rfl, rfl, by decide, rfl, rfl, rfl⟩
  intro outlived
  have refused := outlived.refused 0 _ rfl rfl rfl
  cases refused

end Outlived

end Harkness.Context.Index
