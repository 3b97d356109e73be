import Harkness.Context.Index.Commit

/-! # What collection keeps and what it deletes

A version is named by visible rows and by staged ones, of any worktree. Every collector deletes versions
that nothing names, and contents that no version has, so what is named stays with all that was derived
for it. Those that look at everything leave nothing else.
-/

namespace Harkness.Context.Index

namespace Database

/-- Whether a visible row of some worktree names a version. -/
def Shown (self : Database) (version : String) : Prop :=
  ∃ worktree path row, self.file worktree path = some row ∧ row.fileVersion = some version

/-- Whether a staged row of some batch names a version. -/
def Awaited (self : Database) (version : String) : Prop :=
  ∃ key row, self.pending.get key = some row ∧ row.fileVersion = some version

/-- File rows are visible, and the versions that rows name are stored with their contents. -/
structure Sound (db : Database) : Prop where
  visible : ∀ key row, db.files.get key = some row →
    ∃ tree, db.worktrees.get key.1 = some tree ∧ row.generation ≤ tree.lastGeneration
  named : ∀ version, db.referenced version = true → (db.versions.get version).isSome
  content : ∀ version row, db.versions.get version = some row →
    (db.contents.get row.contentSha256).isSome

variable {db : Database} {version digest : String}

theorem referenced_iff : db.referenced version = true ↔
    (∃ key row, db.files.get key = some row ∧ row.fileVersion = some version) ∨ db.Awaited version := by
  simp only [referenced, Bool.or_eq_true, Keyed.any_iff, decide_eq_true_eq, Awaited]

theorem Sound.referenced_iff (sound : db.Sound) :
    db.referenced version = true ↔ db.Shown version ∨ db.Awaited version := by
  rw [Database.referenced_iff]
  refine or_congr_left ⟨?_, ?_⟩
  · rintro ⟨⟨worktree, path⟩, row, stored, names⟩
    exact ⟨worktree, path, row, (file_of_visible sound.visible worktree path).trans stored, names⟩
  · rintro ⟨worktree, path, row, shown, names⟩
    exact ⟨(worktree, path), row, (file_of_visible sound.visible worktree path).symm.trans shown, names⟩

end Database

section Collectors

variable {db after : Database} {version digest : String} {displaced : Finset String} {row : VersionRow}
  {worktree : WorktreeKey} {generation : ℕ} {scope : BatchScope}

theorem collectAll_versions : (collectAll db).versions.get version = some row ↔
    db.versions.get version = some row ∧ db.referenced version = true :=
  Keyed.get_filter_eq_some

theorem collectAll_contents {size : ℕ} : (collectAll db).contents.get digest = some size ↔
    db.contents.get digest = some size ∧ ∃ version row,
      (collectAll db).versions.get version = some row ∧ row.contentSha256 = digest := by
  refine Keyed.get_filter_eq_some.trans (and_congr_right fun _ => ?_)
  rw [Keyed.any_iff]
  simp only [decide_eq_true_eq]
  rfl

theorem collectDisplaced_versions : (collectDisplaced db displaced).versions.get version = some row ↔
    db.versions.get version = some row ∧ (version ∈ displaced → db.referenced version = true) := by
  refine Keyed.get_filter_eq_some.trans (and_congr_right fun _ => ?_)
  simp [imp_iff_not_or]

/-- The content of a version that is left is left. -/
theorem collectDisplaced_contents
    (left : (collectDisplaced db displaced).versions.get version = some row) :
    (collectDisplaced db displaced).contents.get row.contentSha256 =
      db.contents.get row.contentSha256 := by
  have kept : (collectDisplaced db displaced).versions.any
      (fun _ other => other.contentSha256 = row.contentSha256) = true :=
    Keyed.any_iff.mpr ⟨version, row, left, decide_eq_true rfl⟩
  change (db.contents.get row.contentSha256).filter (fun _ =>
    !(_ && !(collectDisplaced db displaced).versions.any _)) = _
  rw [kept, Bool.not_true, Bool.and_false, Bool.not_false, Option.filter_const_true]

/-- A collector deletes versions that nothing names, and their contents. -/
structure Collects (db after : Database) : Prop where
  worktrees : after.worktrees = db.worktrees
  files : after.files = db.files
  pending : after.pending = db.pending
  versions : ∀ version row, after.versions.get version = some row → db.versions.get version = some row
  named : ∀ version, db.referenced version = true →
    after.versions.get version = db.versions.get version
  contents : ∀ version row, after.versions.get version = some row →
    after.contents.get row.contentSha256 = db.contents.get row.contentSha256

theorem collectAll_collects (db : Database) : Collects db (collectAll db) where
  worktrees := rfl
  files := rfl
  pending := rfl
  versions _ _ left := (collectAll_versions.mp left).1
  named _ named := Option.ext fun _ => collectAll_versions.trans (and_iff_left named)
  contents _ _ left := Option.ext fun _ => collectAll_contents.trans (and_iff_left ⟨_, _, left, rfl⟩)

theorem collectDisplaced_collects (db : Database) (displaced : Finset String) :
    Collects db (collectDisplaced db displaced) where
  worktrees := rfl
  files := rfl
  pending := rfl
  versions _ _ left := (collectDisplaced_versions.mp left).1
  named _ named := Option.ext fun _ => collectDisplaced_versions.trans (and_iff_left fun _ => named)
  contents _ _ left := collectDisplaced_contents left

theorem Collects.sound (collects : Collects db after) (sound : db.Sound) : after.Sound where
  visible := by rw [collects.files, collects.worktrees]; exact sound.visible
  named version named := by
    have before : db.referenced version = true := by
      rwa [Database.referenced, collects.files, collects.pending] at named
    rw [collects.named version before]
    exact sound.named version before
  content version row left := by
    rw [collects.contents version row left]
    exact sound.content version row (collects.versions version row left)

end Collectors

/-- The derived half that buffered files write last for a version. -/
def contentFor (files : List PendingFile) (version : String) : Option PendingContent :=
  files.reverse.findSome? fun file =>
    match file.content with
    | .read content => if content.fileVersion = version then some content else none
    | .none | .unavailable | .kept => none

/-- The size that buffered files write last for a content. -/
def sizeFor (files : List PendingFile) (digest : String) : Option ℕ :=
  files.reverse.findSome? fun file =>
    match file.content with
    | .read content =>
      if content.contentSha256 = digest then some (i64OrMax file.columns.byteSize) else none
    | .none | .unavailable | .kept => none

/-- The symbols that are buffered last for a version. -/
def symbolsFor (symbols : List PendingSymbols) (version : String) : Option PendingSymbols :=
  symbols.reverse.find? (·.fileVersion = version)

/-- A stored version with the derived half it is given. -/
def VersionRow.rewritten (self : VersionRow) (content : PendingContent) : VersionRow :=
  { self with
    language := content.language
    transcoded := content.transcoded
    truncated := content.truncated
    chunkingVersion := content.chunkingVersion
    chunks := insertChunks content.chunks }

/-- A stored version with the symbols it is given. -/
def VersionRow.attached (self : VersionRow) (attached : PendingSymbols) : VersionRow :=
  { self with
    parserVersion := some attached.parserVersion
    symbols := attached.symbols
    references := attached.references
    health := some (encodeParseHealth attached.health) }

section Flush

variable {validate : SymbolCheck} {db after : Database} {batch flushed : IndexBatch}
  {worktree : WorktreeKey} {generation : ℕ} {files : List PendingFile} {symbols : List PendingSymbols}
  {known : List String} {version digest : String} {row : VersionRow}

theorem contentFor_append {file : PendingFile} : contentFor (files ++ [file]) version =
    (match file.content with
      | .read content => if content.fileVersion = version then some content else none
      | .none | .unavailable | .kept => none).or (contentFor files version) := by
  rw [contentFor, List.reverse_append, List.reverse_singleton, List.singleton_append, List.findSome?_cons]
  split <;> simp_all [contentFor]

theorem sizeFor_append {file : PendingFile} : sizeFor (files ++ [file]) digest =
    (match file.content with
      | .read content =>
        if content.contentSha256 = digest then some (i64OrMax file.columns.byteSize) else none
      | .none | .unavailable | .kept => none).or (sizeFor files digest) := by
  rw [sizeFor, List.reverse_append, List.reverse_singleton, List.singleton_append, List.findSome?_cons]
  split <;> simp_all [sizeFor]

/-- A file is staged over the derived rows it writes. -/
theorem flushFile_eq_some {file : PendingFile}
    (success : flushFile worktree generation db file = some after) :
    after.versions = (match file.content with
      | .read content => (writeContent db file content).versions
      | .none | .unavailable | .kept => db.versions) ∧
    after.contents = (match file.content with
      | .read content => (writeContent db file content).contents
      | .none | .unavailable | .kept => db.contents) := by
  unfold flushFile at success
  split at success
  all_goals
    obtain ⟨-, rfl⟩ := stageFile_eq_some.mp success
    simp_all

/-- What buffered files write for a version that is stored, and for one they do not write. -/
theorem flushFiles_versions (version digest : String) (row : VersionRow)
    (success : files.foldlM (flushFile worktree generation) db = some after) :
    (db.versions.get version = some row →
      after.versions.get version = some ((contentFor files version).elim row row.rewritten)) ∧
    (contentFor files version = none → after.versions.get version = db.versions.get version) ∧
    after.contents.get digest = (sizeFor files digest).or (db.contents.get digest) := by
  induction files using List.reverseRecOn generalizing after with
  | nil =>
    obtain rfl := Option.some.inj success
    exact ⟨fun stored => stored, fun _ => rfl, rfl⟩
  | append_singleton files last ih =>
    obtain ⟨mid, earlier, success⟩ := List.foldlM_concat_eq_some.mp success
    obtain ⟨stored, other, size⟩ := ih earlier
    obtain ⟨versions, contents⟩ := flushFile_eq_some success
    rw [contentFor_append, sizeFor_append, versions, contents]
    cases last.content with
    | read content =>
      dsimp only [writeContent]
      refine ⟨fun before => ?_, fun unwritten => ?_, ?_⟩
      · by_cases here : content.fileVersion = version
        · subst here
          rw [Keyed.get_set_self, stored before, if_pos rfl]
          cases contentFor files content.fileVersion <;> rfl
        · rw [Keyed.get_set_of_ne (Ne.symm here), if_neg here]
          exact stored before
      · by_cases here : content.fileVersion = version
        · rw [if_pos here] at unwritten
          cases unwritten
        · rw [if_neg here] at unwritten
          rw [Keyed.get_set_of_ne (Ne.symm here)]
          exact other unwritten
      · by_cases here : content.contentSha256 = digest
        · subst here
          rw [Keyed.get_set_self, if_pos rfl]
          rfl
        · rw [Keyed.get_set_of_ne (Ne.symm here), if_neg here]
          exact size
    | none => exact ⟨stored, other, size⟩
    | unavailable => exact ⟨stored, other, size⟩
    | kept => exact ⟨stored, other, size⟩

theorem symbolsFor_append {attached : PendingSymbols} : symbolsFor (symbols ++ [attached]) version =
    if attached.fileVersion = version then some attached else symbolsFor symbols version := by
  rw [symbolsFor, List.reverse_append, List.reverse_singleton, List.singleton_append, List.find?_cons]
  by_cases here : attached.fileVersion = version <;> simp [here, symbolsFor]

/-- Symbols that are inserted are stored in their order. -/
theorem insertSymbols_eq_some {records inserted : List SymbolRecord}
    (success : insertSymbols records = some inserted) : inserted = records := by
  unfold insertSymbols at success
  induction records using List.reverseRecOn generalizing inserted with
  | nil => exact (Option.some.inj success).symm
  | append_singleton records last ih =>
    obtain ⟨mid, earlier, success⟩ := List.foldlM_concat_eq_some.mp success
    split_ifs at success
    obtain rfl := Option.some.inj success
    rw [ih earlier]

theorem flushSymbols_eq_some {attached : PendingSymbols} {before state : Database × List String}
    (success : flushSymbols validate known before attached = some state) :
    (state.1 = before.1 ∧ before.1.versions.get attached.fileVersion = none) ∨
      ∃ row, before.1.versions.get attached.fileVersion = some row ∧ { before.1 with
        versions := before.1.versions.set attached.fileVersion (row.attached attached) } = state.1 := by
  obtain ⟨db, deferred⟩ := before
  simp only [flushSymbols] at success
  split_ifs at success with stored
  · obtain ⟨written, wrote, rfl⟩ := Option.map_eq_some_iff.mp success
    obtain ⟨row, size, inserted, found, -, -, inserts, rfl⟩ := writeSymbols_eq_some.mp wrote
    obtain rfl := insertSymbols_eq_some inserts
    exact .inr ⟨row, found, rfl⟩
  · obtain rfl := Option.some.inj success
    rw [Bool.or_eq_true, not_or] at stored
    exact .inl ⟨rfl, by simpa using stored.2⟩

/-- What buffered symbols write for a version that is stored, and for one they do not write. -/
theorem flushSymbols_versions {before state : Database × List String} (version : String)
    (row : VersionRow)
    (success : symbols.foldlM (flushSymbols validate known) before = some state) :
    (before.1.versions.get version = some row →
      state.1.versions.get version = some ((symbolsFor symbols version).elim row row.attached)) ∧
    (symbolsFor symbols version = none →
      state.1.versions.get version = before.1.versions.get version) ∧
    state.1.contents = before.1.contents := by
  induction symbols using List.reverseRecOn generalizing state with
  | nil =>
    obtain rfl := Option.some.inj success
    exact ⟨fun stored => stored, fun _ => rfl, rfl⟩
  | append_singleton symbols last ih =>
    obtain ⟨mid, earlier, success⟩ := List.foldlM_concat_eq_some.mp success
    obtain ⟨stored, other, size⟩ := ih earlier
    rw [symbolsFor_append]
    rcases flushSymbols_eq_some success with ⟨same, missing⟩ | ⟨found, here, same⟩
    · rw [same]
      refine ⟨fun before => ?_, fun unwritten => ?_, size⟩
      · rw [if_neg (by rintro rfl; rw [stored before] at missing; cases missing)]
        exact stored before
      · split_ifs at unwritten
        exact other unwritten
    · rw [← same]
      refine ⟨fun before => ?_, fun unwritten => ?_, size⟩
      · by_cases this : last.fileVersion = version
        · subst this
          obtain rfl := Option.some.inj (here.symm.trans (stored before))
          rw [Keyed.get_set_self, if_pos rfl]
          cases symbolsFor symbols last.fileVersion <;> rfl
        · rw [Keyed.get_set_of_ne (Ne.symm this), if_neg this]
          exact stored before
      · split_ifs at unwritten with this
        rw [Keyed.get_set_of_ne (Ne.symm this)]
        exact other unwritten

/-- What a flush makes of a version that is stored, and of one it does not write. -/
theorem flush_versions (version digest : String) (row : VersionRow)
    (success : flush validate db batch = some (after, flushed)) :
    (db.versions.get version = some row → after.versions.get version = some
      ((symbolsFor batch.symbols version).elim ((contentFor batch.files version).elim row row.rewritten)
        ((contentFor batch.files version).elim row row.rewritten).attached)) ∧
    (contentFor batch.files version = none → symbolsFor batch.symbols version = none →
      after.versions.get version = db.versions.get version) ∧
    after.contents.get digest = (sizeFor batch.files digest).or (db.contents.get digest) := by
  unfold flush at success
  split_ifs at success with idle
  · obtain ⟨rfl, rfl⟩ := Prod.mk.inj (Option.some.inj success)
    obtain ⟨files, symbols, -⟩ := idle
    rw [files, symbols]
    exact ⟨fun stored => stored, fun _ _ => rfl, rfl⟩
  · simp only [Option.bind_eq_bind, Option.bind_eq_some_iff] at success
    obtain ⟨removed, removals, staged, files, ⟨attached, deferred⟩, symbols, success⟩ := success
    obtain ⟨rfl, rfl⟩ := Prod.mk.inj (Option.some.inj success)
    have untouched : removed.versions = db.versions ∧ removed.contents = db.contents := by
      refine List.foldlM_preserves (P := fun state => state.versions = db.versions ∧
        state.contents = db.contents) ?_ removals ⟨rfl, rfl⟩
      intro path _ before state same step
      obtain ⟨-, rfl⟩ := stageRemoval_eq_some.mp step
      exact same
    obtain ⟨stored, other, size⟩ := flushFiles_versions version digest row files
    obtain ⟨attaches, keeps, sizes⟩ := flushSymbols_versions version
      ((contentFor batch.files version).elim row row.rewritten) symbols
    dsimp only at attaches keeps sizes
    rw [untouched.1] at stored other
    rw [untouched.2] at size
    exact ⟨fun before => attaches (stored before),
      fun noContent noSymbols => (keeps noSymbols).trans (other noContent), by rw [sizes, size]⟩

end Flush

section Sound

variable {validate : SymbolCheck} {db after : Database} {batch flushed : IndexBatch} {world next : World}
  {move : Move} {worktree : WorktreeKey} {generation : ℕ} {path : RepoPath} {file : PendingFile}
  {version : String} {row : PendingRow}

/-- Staging a row whose version is stored. -/
theorem Database.Sound.stage (sound : db.Sound)
    (stored : ∀ version, row.fileVersion = some version → (db.versions.get version).isSome) :
    Database.Sound { db with pending := db.pending.set (worktree, generation, path) row } where
  visible := sound.visible
  named version named := by
    rcases Database.referenced_iff.mp named with shown | ⟨key, staged, found, names⟩
    · exact sound.named version (Database.referenced_iff.mpr (.inl shown))
    · change (db.pending.set _ row).get key = some staged at found
      rw [Keyed.get_set] at found
      split_ifs at found
      · obtain rfl := Option.some.inj found
        exact stored version names
      · exact sound.named version (Database.referenced_iff.mpr (.inr ⟨key, staged, found, names⟩))
  content := sound.content

/-- Writing versions over those that are stored, with their contents. -/
theorem Database.Sound.write (sound : db.Sound) {versions : Keyed String VersionRow}
    {contents : Keyed String ℕ}
    (kept : ∀ version, (db.versions.get version).isSome → (versions.get version).isSome)
    (content : ∀ version row, versions.get version = some row →
      (contents.get row.contentSha256).isSome) :
    Database.Sound { db with versions := versions, contents := contents } where
  visible := sound.visible
  named version named := kept version (sound.named version named)
  content := content

theorem Database.Sound.writeContent {content : PendingContent} (sound : db.Sound) :
    (writeContent db file content).Sound := by
  refine sound.write (fun version stored => ?_) fun version row written => ?_
  · rw [Keyed.get_set]
    split_ifs
    · rfl
    · exact stored
  · -- A version that is stored keeps its content, and a new one has the content just written.
    have digest : (db.contents.get row.contentSha256).isSome ∨
        row.contentSha256 = content.contentSha256 := by
      rw [Keyed.get_set] at written
      split_ifs at written
      · obtain rfl := Option.some.inj written
        cases found : db.versions.get content.fileVersion with
        | none => exact .inr rfl
        | some old => exact .inl (sound.content _ old found)
      · exact .inl (sound.content version row written)
    rw [Keyed.get_set]
    split_ifs with here
    · rfl
    · exact digest.resolve_right here

theorem Database.Sound.flushFile (sound : db.Sound)
    (success : flushFile worktree generation db file = some after) : after.Sound := by
  unfold Index.flushFile at success
  split at success
  next content read =>
    obtain ⟨-, rfl⟩ := stageFile_eq_some.mp success
    refine sound.writeContent.stage fun version names => ?_
    rw [PendingFile.staged, read] at names
    obtain rfl := Option.some.inj names
    exact congrArg Option.isSome Keyed.get_set_self
  all_goals
    obtain ⟨-, rfl⟩ := stageFile_eq_some.mp success
    refine sound.stage fun version names => ?_
    rw [PendingFile.staged, ‹file.content = _›] at names
    cases names

theorem Database.Sound.flushSymbols {known : List String} {attached : PendingSymbols}
    {before state : Database × List String} (sound : before.1.Sound)
    (success : flushSymbols validate known before attached = some state) : state.1.Sound := by
  rcases flushSymbols_eq_some success with ⟨same, -⟩ | ⟨row, found, same⟩
  · exact same ▸ sound
  · rw [← same]
    refine sound.write (fun version stored => ?_) fun version row written => ?_
    · rw [Keyed.get_set]
      split_ifs
      · rfl
      · exact stored
    · rw [Keyed.get_set] at written
      split_ifs at written
      · obtain rfl := Option.some.inj written
        exact sound.content _ row found
      · exact sound.content version row written

theorem Database.Sound.flush (sound : db.Sound) (success : flush validate db batch = some (after, flushed)) :
    after.Sound := by
  unfold Index.flush at success
  split_ifs at success with idle
  · obtain ⟨rfl, -⟩ := Prod.mk.inj (Option.some.inj success)
    exact sound
  · simp only [Option.bind_eq_bind, Option.bind_eq_some_iff] at success
    obtain ⟨removed, removals, staged, files, ⟨attached, deferred⟩, symbols, success⟩ := success
    obtain ⟨rfl, -⟩ := Prod.mk.inj (Option.some.inj success)
    have unstaged : removed.Sound := by
      refine List.foldlM_preserves (P := Database.Sound) (fun path _ before state sound step => ?_)
        removals sound
      obtain ⟨-, rfl⟩ := stageRemoval_eq_some.mp step
      exact sound.stage nofun
    have written : staged.Sound := List.foldlM_preserves (P := Database.Sound)
      (fun _ _ _ _ sound step => sound.flushFile step) files unstaged
    exact List.foldlM_preserves (P := fun state => state.1.Sound)
      (fun _ _ _ _ sound step => sound.flushSymbols step) symbols written

/-- A database with the derived rows of a sound one, that names no version that one does not. -/
theorem Database.Sound.shrink (sound : db.Sound)
    (derived : after.versions = db.versions ∧ after.contents = db.contents)
    (visible : ∀ key row, after.files.get key = some row →
      ∃ tree, after.worktrees.get key.1 = some tree ∧ row.generation ≤ tree.lastGeneration)
    (fewer : ∀ version, after.referenced version = true → db.referenced version = true) :
    after.Sound where
  visible := visible
  named version named := derived.1 ▸ sound.named version (fewer version named)
  content := by rw [derived.1, derived.2]; exact sound.content

theorem Database.Sound.begin_ {scope : BatchScope} (sound : db.Sound) :
    (begin_ db worktree scope).1.Sound := by
  refine sound.shrink ⟨rfl, rfl⟩ (fun key row stored => ?_) fun version named => ?_
  · obtain ⟨tree, found, below⟩ := sound.visible key row stored
    rw [begin_worktrees]
    split_ifs with here
    · exact ⟨_, rfl, worktreeRow_of_some (here ▸ found) ▸ below⟩
    · exact ⟨tree, found, below⟩
  · refine Database.referenced_iff.mpr ((Database.referenced_iff.mp named).imp_right ?_)
    rintro ⟨key, row, staged, names⟩
    exact ⟨key, row, (Option.filter_eq_some_iff.mp staged).1, names⟩

/-- A version that a published row names was named before. -/
theorem referenced_of_publishedFile {scope : BatchScope} {key : WorktreeKey × RepoPath} {row : FileRow}
    (published : publishedFile db worktree generation scope key = some row)
    (names : row.fileVersion = some version) : db.referenced version = true := by
  rw [Database.referenced_iff]
  have shown : ∀ stored, db.files.get key = some stored → stored.fileVersion = some version →
      ∃ key row, db.files.get key = some row ∧ row.fileVersion = some version :=
    fun stored found names => ⟨key, stored, found, names⟩
  unfold publishedFile at published
  split_ifs at published
  · split at published
    next staged here =>
      split_ifs at published
      obtain rfl := Option.some.inj published
      unfold stagedFor at here
      split_ifs at here
      -- The row takes its version from the staged one, or keeps the one it has.
      have awaited : staged.fileVersion = some version → db.Awaited version :=
        fun names => ⟨_, staged, here, names⟩
      dsimp only [PendingRow.applied] at names
      split at names
      next stored found =>
        split_ifs at names
        · exact .inl (shown stored found names)
        · exact .inr (awaited names)
      · exact .inr (awaited names)
    · split at published
      · exact .inl (shown row (Option.filter_eq_some_iff.mp published).1 names)
      · exact .inl (shown row published names)
  · exact .inl (shown row published names)

/-- A commit is a collection over the rows it has published. -/
theorem publish_collects {scope : BatchScope} {headMarker : Option (Option String)}
    {displaced : Finset String}
    (success : publish db worktree generation scope headMarker displaced = some after) :
    ∃ mid, mid.versions = db.versions ∧ mid.contents = db.contents ∧ Collects mid after ∧
      (scope = .full → after = collectAll mid) := by
  obtain ⟨row, -, -, rfl⟩ := publish_eq_some.mp success
  let applied := applyBatch (claim db worktree generation headMarker row) worktree generation
  cases scope with
  | full =>
    exact ⟨sweep applied worktree generation, rfl, rfl, collectAll_collects _, fun _ => rfl⟩
  | targeted => exact ⟨applied, rfl, rfl, collectDisplaced_collects _ _, nofun⟩

/-- What a commit has published is sound before it collects. -/
theorem Published.sound {mid : Database} {scope : BatchScope} {headMarker : Option (Option String)}
    (published : Published db after worktree generation scope headMarker) (sound : db.Sound)
    (versions : mid.versions = db.versions) (contents : mid.contents = db.contents)
    (collects : Collects mid after) : mid.Sound := by
  refine sound.shrink ⟨versions, contents⟩ (fun key row found => ?_) fun version named => ?_
  · rw [← collects.worktrees]
    exact published.visible sound.visible (collects.files ▸ found)
  · rcases Database.referenced_iff.mp named with ⟨key, row, found, names⟩ | ⟨key, row, staged, names⟩
    · rw [← collects.files, published.files] at found
      exact referenced_of_publishedFile found names
    · rw [← collects.pending, published.pending] at staged
      split_ifs at staged
      exact Database.referenced_iff.mpr (.inr ⟨key, row, staged, names⟩)

/-- What is left when a worktree is forgotten, before it is collected. -/
theorem Database.Sound.strike (sound : db.Sound) : Database.Sound { db with
    files := db.files.filter fun key _ => key.1 ≠ worktree
    pending := db.pending.filter fun key _ => key.1 ≠ worktree
    worktrees := db.worktrees.filter fun key _ => key ≠ worktree } := by
  refine sound.shrink ⟨rfl, rfl⟩ (fun key row stored => ?_) fun version named => ?_
  · obtain ⟨stored, apart⟩ := Option.filter_eq_some_iff.mp stored
    obtain ⟨tree, found, below⟩ := sound.visible key row stored
    exact ⟨tree, Option.filter_eq_some_iff.mpr ⟨found, apart⟩, below⟩
  · rcases Database.referenced_iff.mp named with ⟨key, row, found, names⟩ | ⟨key, row, staged, names⟩
    · exact Database.referenced_iff.mpr (.inl ⟨key, row, (Option.filter_eq_some_iff.mp found).1, names⟩)
    · exact Database.referenced_iff.mpr (.inr ⟨key, row, (Option.filter_eq_some_iff.mp staged).1, names⟩)

/-- Emptying derived rows names and stores the same. -/
theorem Database.Sound.refresh {change : VersionRow → VersionRow} {parsers : Keyed String String}
    (sound : db.Sound) (same : ∀ row, (change row).contentSha256 = row.contentSha256) :
    Database.Sound { db with versions := db.versions.map change, parserVersions := parsers } where
  visible := sound.visible
  named version named := by
    change ((db.versions.get version).map change).isSome
    rw [Option.isSome_map]
    exact sound.named version named
  content version row stored := by
    obtain ⟨old, found, rfl⟩ := Option.map_eq_some_iff.mp stored
    rw [same]
    exact sound.content version old found

theorem Database.sound_empty : Database.empty.Sound where
  visible _ _ stored := absurd stored (Option.some_ne_none _).symm
  named version named := by
    rcases Database.referenced_iff.mp named with ⟨_, _, found, -⟩ | ⟨_, _, staged, -⟩
    · exact absurd found (Option.some_ne_none _).symm
    · exact absurd staged (Option.some_ne_none _).symm
  content _ _ stored := absurd stored (Option.some_ne_none _).symm

theorem Database.Sound.step (sound : world.db.Sound) (step : Index.step validate world move = some next) :
    next.db.Sound := by
  have effect := step_effect step
  generalize next.db = after at effect
  cases effect with
  | begin_ name worktree scope => exact sound.begin_
  | same | refused => exact sound
  | flush found success => exact sound.flush success
  | published found flushed success =>
    unfold IndexBatch.publish at success
    split_ifs at success
    obtain ⟨mid, versions, contents, collects, -⟩ := publish_collects success
    exact collects.sound ((publish_spec success).sound sound versions contents collects)
  | forget worktree => exact (collectAll_collects _).sound sound.strike
  | dispose => exact Database.sound_empty
  | invalidate component => cases component <;> exact sound.refresh fun _ => rfl
  | refreshGrammars current =>
    exact sound.refresh fun row => by split_ifs <;> rfl

theorem sound_of_path {moves : List Move} (run : (machine validate).Path .fresh moves world) :
    world.db.Sound :=
  run.preserves (P := fun world => world.db.Sound) (fun _ _ _ sound step => sound.step step)
    Database.sound_empty

end Sound

/-- Whether a move may write the derived rows of a version. -/
def Writes (version : String) (world : World) : Move → Prop
  | .flush name => ∃ batch, world.batches name = some batch ∧
    ((contentFor batch.files version).isSome ∨ (symbolsFor batch.symbols version).isSome)
  | .invalidate _ | .refreshGrammars _ => True
  | _ => False

/-- Whether a move collects among all versions. -/
def Sweeps (world : World) : Move → Prop
  | .publish name => ∃ batch, world.batches name = some batch ∧ batch.scope = .full ∧
    (batch.publish world.db).isSome
  | .forget _ => True
  | _ => False

/-- What a run keeps and collects. -/
structure Collected (validate : SymbolCheck) (moves : List Move) (world : World) : Prop where
  /-- A version that some row names is stored with its content, and its derived rows are those it had
  when they were last written. -/
  kept : ∀ version, world.db.Shown version ∨ world.db.Awaited version → ∃ row,
    world.db.versions.get version = some row ∧ (world.db.contents.get row.contentSha256).isSome ∧
    ∀ first second mid, moves = first ++ second → (machine validate).Path .fresh first mid →
      (machine validate).Each (fun world move => ¬Writes version world move) mid second →
      mid.db.versions.get version = some row
  /-- A full commit or a forgotten worktree leaves what some row names. -/
  complete : ∀ before last mid, moves = before ++ [last] → (machine validate).Path .fresh before mid →
    Sweeps mid last →
    (∀ version, (world.db.versions.get version).isSome ↔
      world.db.Shown version ∨ world.db.Awaited version) ∧
    ∀ digest, (world.db.contents.get digest).isSome ↔ ∃ version row,
      (world.db.Shown version ∨ world.db.Awaited version) ∧
      world.db.versions.get version = some row ∧ row.contentSha256 = digest

section Collected

variable {validate : SymbolCheck} {db : Database} {world next : World} {move : Move} {version : String}
  {row : VersionRow}

/-- A version is left as it is by what does not write it. -/
theorem versions_of_unwritten (step : step validate world move = some next)
    (unwritten : ¬Writes version world move) (stored : next.db.versions.get version = some row) :
    world.db.versions.get version = some row := by
  have effect := step_effect step
  generalize next.db = after at effect stored
  cases effect with
  | begin_ name worktree scope => exact stored
  | same | refused => exact stored
  | @flush name batch flushed db found success =>
    have kept : contentFor batch.files version = none ∧ symbolsFor batch.symbols version = none := by
      simpa [Writes, found] using unwritten
    rw [← (flush_versions version row.contentSha256 row success).2.1 kept.1 kept.2]
    exact stored
  | published found flushed success =>
    unfold IndexBatch.publish at success
    split_ifs at success
    obtain ⟨mid, versions, -, collects, -⟩ := publish_collects success
    exact versions ▸ collects.versions version row stored
  | forget worktree => exact (collectAll_versions.mp stored).1
  | dispose => cases stored
  | invalidate component => exact absurd True.intro unwritten
  | refreshGrammars current => exact absurd True.intro unwritten

/-- What a collection of everything leaves. -/
theorem Database.Sound.collectAll (sound : db.Sound) :
    (∀ version, ((collectAll db).versions.get version).isSome ↔ db.referenced version = true) ∧
    ∀ digest, ((collectAll db).contents.get digest).isSome ↔ ∃ version row,
      (collectAll db).versions.get version = some row ∧ row.contentSha256 = digest := by
  refine ⟨fun version => ⟨fun left => ?_, fun named => ?_⟩, fun digest => ⟨fun left => ?_, ?_⟩⟩
  · obtain ⟨row, left⟩ := Option.isSome_iff_exists.mp left
    exact (collectAll_versions.mp left).2
  · rw [(collectAll_collects db).named version named]
    exact sound.named version named
  · obtain ⟨size, left⟩ := Option.isSome_iff_exists.mp left
    exact (collectAll_contents.mp left).2
  · rintro ⟨version, row, left, rfl⟩
    exact ((collectAll_collects db).sound sound).content version row left

/-- What a move that collects everything leaves. -/
theorem collectAll_of_sweeps (sound : world.db.Sound) (step : step validate world move = some next)
    (sweeps : Sweeps world move) : ∃ mid : Database, mid.Sound ∧ next.db = collectAll mid := by
  have effect := step_effect step
  generalize next.db = after at effect
  cases effect with
  | same buffers writes =>
    cases move with
    | publish name => exact absurd rfl (writes name)
    | forget worktree => exact absurd (decide_eq_true rfl) (Bool.eq_false_iff.mp (buffers worktree))
    | _ => exact sweeps.elim
  | refused found refused =>
    obtain ⟨batch, found_, -, success⟩ := sweeps
    obtain rfl := Option.some.inj (found.symm.trans found_)
    rw [refused] at success
    cases success
  | published found flushed success =>
    obtain ⟨batch, found_, scope, -⟩ := sweeps
    obtain rfl := Option.some.inj (found.symm.trans found_)
    unfold IndexBatch.publish at success
    split_ifs at success
    obtain ⟨mid, versions, contents, collects, full⟩ := publish_collects success
    exact ⟨mid, (publish_spec success).sound sound versions contents collects, full scope⟩
  | forget worktree => exact ⟨_, sound.strike, rfl⟩
  | _ => exact sweeps.elim

theorem collected {moves : List Move} (run : (machine validate).Path .fresh moves world) :
    Collected validate moves world := by
  have sound := sound_of_path run
  constructor
  · intro version named
    obtain ⟨row, stored⟩ := Option.isSome_iff_exists.mp
      (sound.named version (sound.referenced_iff.mpr named))
    refine ⟨row, stored, sound.content version row stored, ?_⟩
    rintro first second mid rfl leading unwritten
    obtain ⟨other, leading_, rest⟩ := run.split
    obtain rfl := leading.unique leading_
    refine rest.preserves_of (P := fun world => world.db.versions.get version = some row →
      mid.db.versions.get version = some row) ?_ unwritten id stored
    intro before move after known unwritten step stored
    exact known (versions_of_unwritten step unwritten stored)
  · rintro before last mid rfl leading sweeps
    obtain ⟨other, leading_, rest⟩ := run.split
    obtain rfl := leading.unique leading_
    cases rest with
    | cons step rest =>
      cases rest
      obtain ⟨collected, whole, same⟩ := collectAll_of_sweeps (sound_of_path leading) step sweeps
      obtain ⟨versions, contents⟩ := whole.collectAll
      rw [← same] at versions contents
      have left : ∀ version, (world.db.versions.get version).isSome ↔
          world.db.Shown version ∨ world.db.Awaited version := by
        intro version
        rw [versions, ← sound.referenced_iff, same]
        rfl
      refine ⟨left, fun digest => (contents digest).trans ?_⟩
      constructor
      · rintro ⟨version, row, stored, here⟩
        exact ⟨version, row, (left version).mp (by rw [stored]; rfl), stored, here⟩
      · rintro ⟨version, row, -, stored, here⟩
        exact ⟨version, row, stored, here⟩

/-- A file whose only chunk is all of it. -/
def sampleRead : PendingFile :=
  { sampleFile with
    content := .read ⟨"version", "digest", none, false, false, some "1",
      [⟨"chunk", "", 0, ⟨0, 1, none, none⟩, "digest", none⟩]⟩ }

/-- A version that two worktrees show is kept when one of them is forgotten. -/
theorem collected_sample : ∃ world, (machine fun _ _ _ _ => true).run? .fresh
      [.begin_ 0 "work" .full, .recordFile 0 sampleRead, .flush 0, .publish 0, .begin_ 1 "other" .full,
        .recordFile 1 sampleRead, .flush 1, .publish 1, .forget "work"] = some world ∧
    (world.db.versions.get "version").isSome = true ∧
    Collected (fun _ _ _ _ => true) [.begin_ 0 "work" .full, .recordFile 0 sampleRead, .flush 0,
      .publish 0, .begin_ 1 "other" .full, .recordFile 1 sampleRead, .flush 1, .publish 1,
      .forget "work"] world := by
  obtain ⟨world, run, kept⟩ : ∃ world, (machine fun _ _ _ _ => true).run? .fresh
      [.begin_ 0 "work" .full, .recordFile 0 sampleRead, .flush 0, .publish 0, .begin_ 1 "other" .full,
        .recordFile 1 sampleRead, .flush 1, .publish 1, .forget "work"] = some world ∧
      (world.db.versions.get "version").isSome = true := ⟨_, rfl, by decide⟩
  exact ⟨world, run, kept, collected (Machine.run?_eq_some_iff.mp run)⟩

end Collected

end Harkness.Context.Index
