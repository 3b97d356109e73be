import Harkness.Context.Index.Collect

/-! # What readers see of a flush

File rows are staged, but what is derived from bytes is written where every worktree that names the
version reads it. A flush goes unseen while it writes for such a version only what is stored for it.
-/

namespace Harkness.Context.Index

/-- A version as reads select it. Its chunks and symbols are ordered by columns of their own, so that
nothing is promised of the order they were inserted in; mentions of one start keep theirs. -/
structure VersionReading where
  contentSha256 : String
  path : RepoPath
  language : Option String
  transcoded : Bool
  truncated : Bool
  chunkingVersion : Option String
  parserVersion : Option String
  chunks : Multiset PendingChunk
  symbols : Multiset SymbolRecord
  references : List SymbolReferenceRecord
  health : Option HealthRow
deriving DecidableEq

/-- Mentions by their start, then by their ordinal. -/
def byStart (references : List SymbolReferenceRecord) : List SymbolReferenceRecord :=
  references.mergeSort fun left right => left.byteRange.start ≤ right.byteRange.start

def VersionRow.reading (self : VersionRow) : VersionReading where
  contentSha256 := self.contentSha256
  path := self.path
  language := self.language
  transcoded := self.transcoded
  truncated := self.truncated
  chunkingVersion := self.chunkingVersion
  parserVersion := self.parserVersion
  chunks := self.chunks
  symbols := self.symbols
  references := byStart self.references
  health := self.health

/-- What reads of a path select from beneath its file row: the version with its chunks, symbols,
mentions, health, language and flags, and the size of its content. -/
def Database.reading (self : Database) (worktree : WorktreeKey) (path : RepoPath) :
    Option (VersionReading × Option ℕ) := do
  let file ← self.file worktree path
  let version ← file.fileVersion
  let row ← self.versions.get version
  some (row.reading, self.contents.get row.contentSha256)

/-- Whether a move may change what is read of a worktree: a commit of one of its batches that
succeeds, an invalidation, or its removal. -/
def Reveals (world : World) (worktree : WorktreeKey) : Move → Prop
  | .publish name => ∃ batch, world.batches name = some batch ∧ batch.worktree = worktree ∧
    (batch.publish world.db).isSome
  | .invalidate _ | .refreshGrammars _ | .dispose => True
  | .forget other => other = worktree
  | _ => False

/-- Every other move leaves what is read. -/
def Unseen (world : World) (move : Move) (next : World) : Prop :=
  ∀ worktree path, ¬Reveals world worktree move →
    next.db.reading worktree path = world.db.reading worktree path

/-- A flush writes for a stored version what is stored for it already. -/
structure Repeats (db : Database) (batch : IndexBatch) (version : String) (row : VersionRow) : Prop where
  content : ∀ content, contentFor batch.files version = some content →
    row.language = content.language ∧ row.transcoded = content.transcoded ∧
    row.truncated = content.truncated ∧ row.chunkingVersion = content.chunkingVersion ∧
    row.chunks.Perm (insertChunks content.chunks)
  symbols : ∀ attached, symbolsFor batch.symbols version = some attached →
    row.parserVersion = some attached.parserVersion ∧ row.symbols.Perm attached.symbols ∧
    byStart row.references = byStart attached.references ∧
    row.health = some (encodeParseHealth attached.health)
  size : ∀ size, sizeFor batch.files row.contentSha256 = some size →
    db.contents.get row.contentSha256 = some size

section Reading

variable {validate : SymbolCheck} {db after : Database} {batch flushed : IndexBatch} {world next : World}
  {move : Move} {worktree : WorktreeKey} {path : RepoPath} {version : String} {row : VersionRow}

theorem VersionRow.rewritten_reading {content : PendingContent} :
    row.reading = (row.rewritten content).reading ↔
      row.language = content.language ∧ row.transcoded = content.transcoded ∧
      row.truncated = content.truncated ∧ row.chunkingVersion = content.chunkingVersion ∧
      row.chunks.Perm (insertChunks content.chunks) := by
  simp only [reading, rewritten, VersionReading.mk.injEq, Multiset.coe_eq_coe, true_and, and_true]

theorem VersionRow.attached_reading {attached : PendingSymbols} :
    row.reading = (row.attached attached).reading ↔
      row.parserVersion = some attached.parserVersion ∧ row.symbols.Perm attached.symbols ∧
      byStart row.references = byStart attached.references ∧
      row.health = some (encodeParseHealth attached.health) := by
  simp only [reading, VersionRow.attached, VersionReading.mk.injEq, Multiset.coe_eq_coe, true_and]

/-- The two halves of a version do not share a field, so neither hides what the other changes. -/
theorem VersionRow.attached_rewritten_reading {content : Option PendingContent}
    {attached : Option PendingSymbols} :
    row.reading = (attached.elim (content.elim row row.rewritten)
        (content.elim row row.rewritten).attached).reading ↔
      (∀ c, content = some c → row.reading = (row.rewritten c).reading) ∧
      ∀ a, attached = some a → row.reading = (row.attached a).reading := by
  cases row
  cases content <;> cases attached <;>
    simp only [Option.elim, reading, rewritten, VersionRow.attached, VersionReading.mk.injEq,
      Option.some.injEq, forall_eq', reduceCtorEq, false_implies, implies_true] <;> tauto

/-- Whatever a flush writes of a version, the version is of the same content. -/
theorem VersionRow.attached_rewritten_contentSha256 {content : Option PendingContent}
    {attached : Option PendingSymbols} :
    (attached.elim (content.elim row row.rewritten)
      (content.elim row row.rewritten).attached).contentSha256 = row.contentSha256 := by
  cases content <;> cases attached <;> rfl

/-- A flush repeats what is stored exactly when the version reads as before, and so does the size of its
content. -/
theorem repeats_iff (success : flush validate db batch = some (after, flushed))
    (stored : db.versions.get version = some row) : Repeats db batch version row ↔
      ∃ written, after.versions.get version = some written ∧ row.reading = written.reading ∧
        after.contents.get written.contentSha256 = db.contents.get row.contentSha256 := by
  obtain ⟨written, -, size⟩ := flush_versions version row.contentSha256 row success
  simp only [written stored, Option.some.injEq, exists_eq_left',
    VersionRow.attached_rewritten_contentSha256, VersionRow.attached_rewritten_reading, size]
  constructor
  · intro repeats
    refine ⟨⟨fun content here => VersionRow.rewritten_reading.mpr (repeats.content content here),
      fun attached here => VersionRow.attached_reading.mpr (repeats.symbols attached here)⟩, ?_⟩
    cases here : sizeFor batch.files row.contentSha256 with
    | none => rfl
    | some size => exact (repeats.size size here).symm
  · rintro ⟨⟨content, symbols⟩, same⟩
    refine ⟨fun c here => VersionRow.rewritten_reading.mp (content c here),
      fun a here => VersionRow.attached_reading.mp (symbols a here), fun size here => ?_⟩
    rw [here] at same
    exact same.symm

theorem Database.reading_eq_some {reading : VersionReading × Option ℕ} :
    db.reading worktree path = some reading ↔
      ∃ file version row, db.file worktree path = some file ∧ file.fileVersion = some version ∧
        db.versions.get version = some row ∧
        (row.reading, db.contents.get row.contentSha256) = reading := by
  simp only [Database.reading, Option.bind_eq_bind, Option.bind_eq_some_iff, Option.some.injEq]
  constructor
  · rintro ⟨file, visible, version, names, row, stored, here⟩
    exact ⟨file, version, row, visible, names, stored, here⟩
  · rintro ⟨file, version, row, visible, names, stored, here⟩
    exact ⟨file, visible, version, names, row, stored, here⟩

/-- Reads are the same where the file row is, and the version it names reads the same with its content. -/
theorem Database.reading_congr (same : after.file worktree path = db.file worktree path)
    (named : ∀ file version row, db.file worktree path = some file → file.fileVersion = some version →
      db.versions.get version = some row → ∃ written, after.versions.get version = some written ∧
        row.reading = written.reading ∧
        after.contents.get written.contentSha256 = db.contents.get row.contentSha256)
    (stored : ∀ file version, db.file worktree path = some file → file.fileVersion = some version →
      (db.versions.get version).isSome) : after.reading worktree path = db.reading worktree path := by
  unfold Database.reading
  rw [same]
  cases visible : db.file worktree path with
  | none => rfl
  | some file =>
    cases names : file.fileVersion with
    | none => simp [names]
    | some version =>
      obtain ⟨row, here⟩ := Option.isSome_iff_exists.mp (stored file version visible names)
      obtain ⟨written, kept, reads, size⟩ := named file version row visible names here
      simp [names, here, kept, reads, size]

/-- Every version that a row names is stored, so only the rows of stored ones matter. -/
theorem Database.Sound.reading_congr (sound : db.Sound) (sound_ : after.Sound)
    (same : after.files.get (worktree, path) = db.files.get (worktree, path))
    (named : ∀ file version row, db.file worktree path = some file → file.fileVersion = some version →
      db.versions.get version = some row → ∃ written, after.versions.get version = some written ∧
        row.reading = written.reading ∧
        after.contents.get written.contentSha256 = db.contents.get row.contentSha256) :
    after.reading worktree path = db.reading worktree path := by
  refine Database.reading_congr ?_ named fun file version visible names => ?_
  · rw [Database.file_of_visible sound_.visible, Database.file_of_visible sound.visible, same]
  · exact sound.named version (sound.referenced_iff.mpr (.inl ⟨_, _, file, visible, names⟩))

/-- A collection leaves what is read where it leaves the file row. -/
theorem Collects.reading {mid : Database} (collects : Collects mid after) (whole : mid.Sound)
    (sound : db.Sound) (derived : mid.versions = db.versions ∧ mid.contents = db.contents)
    (same : after.files.get (worktree, path) = db.files.get (worktree, path)) :
    after.reading worktree path = db.reading worktree path := by
  refine sound.reading_congr (collects.sound whole) same fun file version row visible names stored => ?_
  have named : mid.referenced version = true := by
    rw [Database.file_of_visible sound.visible, ← same, collects.files] at visible
    exact Database.referenced_iff.mpr (.inl ⟨_, file, visible, names⟩)
  have left : after.versions.get version = some row := by
    rw [collects.named version named, derived.1, stored]
  exact ⟨row, left, rfl, by rw [collects.contents version row left, derived.2]⟩

/-- Apart from flushes, what does not reveal anything is not seen. -/
theorem unseen_of_not_flush (sound : world.db.Sound) (step : step validate world move = some next)
    (other : ∀ name, move ≠ .flush name) : Unseen world move next := by
  intro worktree path hidden
  have after := sound.step step
  have effect := step_effect step
  generalize next.db = db at effect after
  cases effect with
  | begin_ name other scope => exact sound.reading_congr after rfl fun _ _ row _ _ stored => ⟨row, stored, rfl, rfl⟩
  | same | refused => rfl
  | @flush name => exact absurd rfl (other name)
  | @published name batch db found flushed success =>
    have apart : worktree ≠ batch.worktree := by
      rintro rfl
      exact hidden ⟨batch, found, rfl, by rw [success]; rfl⟩
    unfold IndexBatch.publish at success
    split_ifs at success
    have published := publish_spec success
    obtain ⟨mid, versions, contents, collects, -⟩ := publish_collects success
    refine collects.reading (published.sound sound versions contents collects) sound
      ⟨versions, contents⟩ ?_
    rw [published.files, publishedFile.eq_def, if_neg apart]
  | forget gone =>
    refine (collectAll_collects _).reading sound.strike sound ⟨rfl, rfl⟩ ?_
    change (world.db.files.get (worktree, path)).filter _ = _
    have apart : worktree ≠ gone := fun same => hidden same.symm
    simp [apart]
  | dispose | invalidate | refreshGrammars => exact absurd True.intro hidden

/-- A flush goes unseen exactly when it repeats what is stored for every version that is shown. -/
theorem unseen_iff {moves : List Move} (run : (machine validate).Path .fresh moves world)
    (step : step validate world move = some next) : Unseen world move next ↔
      ∀ name batch, move = .flush name → world.batches name = some batch → ∀ version row,
        world.db.Shown version → world.db.versions.get version = some row →
        Repeats world.db batch version row := by
  have sound := sound_of_path run
  constructor
  · rintro unseen name batch rfl found version row ⟨worktree, path, file, visible, names⟩ stored
    obtain ⟨batch_, found_, ⟨db, flushed⟩, success, here⟩ :
        ∃ batch, world.batches name = some batch ∧ ∃ after : Database × IndexBatch,
          flush validate world.db batch = some after ∧
          some ({ world with db := after.1 }.put name (some after.2)) = some next := by
      simpa only [Index.step, Option.bind_eq_bind, Option.bind_eq_some_iff] using step
    obtain rfl := Option.some.inj (found.symm.trans found_)
    obtain rfl := Option.some.inj here
    have same : db.reading worktree path = world.db.reading worktree path := unseen worktree path id
    rw [Database.reading_eq_some.mpr ⟨file, version, row, visible, names, stored, rfl⟩,
      Database.reading_eq_some] at same
    obtain ⟨file_, version_, written, visible_, names_, kept, reads⟩ := same
    rw [Database.file_of_visible (sound.flush success).visible, (flush_spec success).kept.files,
      ← Database.file_of_visible sound.visible, visible] at visible_
    obtain rfl := Option.some.inj visible_
    obtain rfl := Option.some.inj (names.symm.trans names_)
    obtain ⟨reads, size⟩ := Prod.mk.inj reads
    exact (repeats_iff success stored).mpr ⟨written, kept, reads.symm, size⟩
  · intro repeats
    by_cases flushes : ∃ name, move = .flush name
    · obtain ⟨name, rfl⟩ := flushes
      intro worktree path _
      have after := sound.step step
      have effect := step_effect step
      generalize next.db = db at effect after
      cases effect with
      | same _ _ => rfl
      | @flush _ batch flushed _ found success =>
        refine sound.reading_congr after (by rw [(flush_spec success).kept.files])
          fun file version row visible names stored => ?_
        exact (repeats_iff success stored).mp
          (repeats name batch rfl found version row ⟨worktree, path, file, visible, names⟩ stored)
    · exact unseen_of_not_flush sound step fun name here => flushes ⟨name, here⟩

/-- Unchanged bytes are flushed once more as they were. -/
theorem unseen_iff_sample : ∃ world next, (machine fun _ _ _ _ => true).run? .fresh
      [.begin_ 0 "work" .full, .recordFile 0 sampleRead, .flush 0, .publish 0, .begin_ 0 "work" .full,
        .recordFile 0 sampleRead] = some world ∧
    (Unseen world (.flush 0) next ↔ ∀ name batch, Move.flush 0 = .flush name →
      world.batches name = some batch → ∀ version row, world.db.Shown version →
        world.db.versions.get version = some row → Repeats world.db batch version row) := by
  obtain ⟨world, run, next, step⟩ : ∃ world, (machine fun _ _ _ _ => true).run? .fresh
      [.begin_ 0 "work" .full, .recordFile 0 sampleRead, .flush 0, .publish 0, .begin_ 0 "work" .full,
        .recordFile 0 sampleRead] = some world ∧
      ∃ next, step (fun _ _ _ _ => true) world (.flush 0) = some next := ⟨_, rfl, _, rfl⟩
  exact ⟨world, next, run, unseen_iff (Machine.run?_eq_some_iff.mp run) step⟩

/-- Chunks that were emptied for a new chunking version come back at a flush, before any commit. -/
theorem flush_seen : ∃ world next, (machine fun _ _ _ _ => true).run? .fresh
      [.begin_ 0 "work" .full, .recordFile 0 sampleRead, .flush 0, .publish 0, .invalidate .chunking,
        .begin_ 0 "work" .full, .recordFile 0 sampleRead] = some world ∧
    step (fun _ _ _ _ => true) world (.flush 0) = some next ∧ ¬Unseen world (.flush 0) next := by
  refine ⟨_, _, rfl, rfl, fun unseen => ?_⟩
  have same := congrArg (Option.map fun read => read.1.chunks.card) (unseen "work" [97] id)
  revert same
  decide

end Reading

end Harkness.Context.Index
