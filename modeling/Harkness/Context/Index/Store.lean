import Harkness.ToMathlib.Except
import Harkness.Context.Index.Schema

/-! # The write transactions of the index cache

Each is a function from the database before it to the database after it, or none where a statement
of it fails and everything is rolled back. A batch stages its rows where no query returns them; the
commit copies them, sweeps, moves the watermark and collects what nothing names any more.
-/

namespace Harkness.Context.Index

/-- What fits a column of signed 64-bit integers. -/
def i64OrMax (value : ℕ) : ℕ := min value (2 ^ 63 - 1)

/-- The derived half of one file. -/
structure PendingContent where
  fileVersion : String
  contentSha256 : String
  language : Option String
  transcoded : Bool
  truncated : Bool
  chunkingVersion : Option String
  chunks : List PendingChunk
deriving DecidableEq

/-- What a batch knows about the content of one file. -/
inductive Derivation where
  | read (content : PendingContent)
  | none
  | unavailable
  | kept
deriving DecidableEq

/-- The rows of one file, buffered until the next flush. -/
structure PendingFile where
  path : RepoPath
  columns : FileColumns
  content : Derivation
deriving DecidableEq

/-- The symbols of one file version, buffered until the next flush. -/
structure PendingSymbols where
  fileVersion : String
  parserVersion : String
  symbols : List SymbolRecord
  references : List SymbolReferenceRecord
  health : ParseHealth
deriving DecidableEq

inductive BatchScope where
  | full
  | targeted
deriving DecidableEq

/-- Inserts chunks, of which a second one of the same id is left out. -/
def insertChunks (chunks : List PendingChunk) : List PendingChunk :=
  chunks.foldl (fun kept chunk => if kept.any (·.id = chunk.id) then kept else kept ++ [chunk]) []

/-- The row of a version with what was derived from its bytes. -/
def PendingContent.row (self : PendingContent) (path : RepoPath) (stored : Option VersionRow) :
    VersionRow :=
  { stored.getD ⟨self.contentSha256, path, .none, false, false, .none, .none, [], [], [], .none⟩ with
    language := self.language
    transcoded := self.transcoded
    truncated := self.truncated
    chunkingVersion := self.chunkingVersion
    chunks := insertChunks self.chunks }

def writeContent (db : Database) (file : PendingFile) (content : PendingContent) : Database :=
  { db with
    contents := db.contents.set content.contentSha256 (i64OrMax file.columns.byteSize)
    versions := db.versions.set content.fileVersion
      (content.row file.path (db.versions.get content.fileVersion)) }

/-- The row that a file is staged with. -/
def PendingFile.staged (self : PendingFile) : PendingRow where
  fileVersion :=
    match self.content with
    | .read content => some content.fileVersion
    | .none | .unavailable | .kept => .none
  keepVersion := self.content = .unavailable || self.content = .kept
  removed := false
  columns := { self.columns with byteSize := i64OrMax self.columns.byteSize }

/-- Stages one file row; its worktree must have a row. -/
def stageFile (db : Database) (worktree : WorktreeKey) (generation : ℕ) (file : PendingFile) :
    Option Database :=
  if (db.worktrees.get worktree).isNone then none
  else some { db with pending := db.pending.set (worktree, generation, file.path) file.staged }

/-- The row that a removal is staged with. -/
def removalRow (stored : Option PendingRow) : PendingRow :=
  { stored.getD ⟨none, false, true, ⟨0, none, .unknownText, false, none, false, 0⟩⟩ with
    removed := true
    fileVersion := none
    keepVersion := false }

/-- Stages the removal of one path. -/
def stageRemoval (db : Database) (worktree : WorktreeKey) (generation : ℕ) (path : RepoPath) :
    Option Database :=
  if (db.worktrees.get worktree).isNone then none
  else some { db with
    pending := db.pending.set (worktree, generation, path)
      (removalRow (db.pending.get (worktree, generation, path))) }

def encodeParseHealth : ParseHealth → HealthRow
  | .complete => ⟨"complete", none, []⟩
  | .partial_ errorRanges => ⟨"partial", none, errorRanges⟩
  | .failed reason => ⟨"failed", some reason, []⟩
  | .skipped reason => ⟨"skipped", some reason.asStr, []⟩

/-- Inserts symbols in turn: an id is taken once, and a parent has to be there already. -/
def insertSymbols (symbols : List SymbolRecord) : Option (List SymbolRecord) :=
  symbols.foldlM (fun inserted symbol =>
    if inserted.any (·.id = symbol.id) then none
    else if symbol.parent.all fun parent => parent = symbol.id || inserted.any (·.id = parent) then
      some (inserted ++ [symbol])
    else none) []

/-- How the symbols of a version are checked against its path, its language and its size. -/
abbrev SymbolCheck := PendingSymbols → RepoPath → Option String → ℕ → Bool

/-- Replaces the symbols of a version, which must be there, by checked ones. -/
def writeSymbols (validate : SymbolCheck) (db : Database) (attached : PendingSymbols) :
    Option Database := do
  let row ← db.versions.get attached.fileVersion
  let byteSize ← db.contents.get row.contentSha256
  if validate attached row.path row.language byteSize then
    let symbols ← insertSymbols attached.symbols
    some { db with
      versions := db.versions.set attached.fileVersion
        { row with
          parserVersion := some attached.parserVersion
          symbols := symbols
          references := attached.references
          health := some (encodeParseHealth attached.health) } }
  else none

theorem writeSymbols_eq_some {validate : SymbolCheck} {db after : Database} {attached : PendingSymbols} :
    writeSymbols validate db attached = some after ↔ ∃ row byteSize symbols,
      db.versions.get attached.fileVersion = some row ∧
      db.contents.get row.contentSha256 = some byteSize ∧
      validate attached row.path row.language byteSize = true ∧
      insertSymbols attached.symbols = some symbols ∧ { db with
        versions := db.versions.set attached.fileVersion
          { row with
            parserVersion := some attached.parserVersion
            symbols := symbols
            references := attached.references
            health := some (encodeParseHealth attached.health) } } = after := by
  simp only [writeSymbols, Option.bind_eq_bind, Option.bind_eq_some_iff, Option.ite_none_right_eq_some,
    Option.some.injEq, exists_and_left]

/-- What a batch has staged for a file row. -/
def stagedFor (db : Database) (worktree : WorktreeKey) (generation : ℕ) (key : WorktreeKey × RepoPath) :
    Option PendingRow :=
  if key.1 = worktree then db.pending.get (worktree, generation, key.2) else none

theorem stagedFor_isSome {db : Database} {worktree : WorktreeKey} {generation : ℕ}
    {key : WorktreeKey × RepoPath} (some_ : (stagedFor db worktree generation key).isSome = true) :
    key ∈ db.pending.support.image fun key => (key.1, key.2.2) := by
  unfold stagedFor at some_
  split_ifs at some_ with same
  · exact Finset.mem_image.mpr ⟨_, db.pending.supported _ some_, Prod.ext same.symm rfl⟩
  · cases some_

/-- The versions that the staged rows of a batch are about to displace. -/
def displacedByBatch (db : Database) (worktree : WorktreeKey) (generation : ℕ) : Finset String :=
  db.files.values fun key row =>
    (stagedFor db worktree generation key).bind fun staged =>
      if staged.removed || !staged.keepVersion then row.fileVersion else none

/-- The versions that staged rows below a generation name. -/
def stagedBelow (db : Database) (worktree : WorktreeKey) (generation : ℕ) : Finset String :=
  db.pending.values fun key row =>
    if key.1 = worktree && key.2.1 < generation then row.fileVersion else none

/-- The visible row that a staged row becomes. -/
def PendingRow.applied (self : PendingRow) (generation : ℕ) (stored : Option FileRow) : FileRow where
  fileVersion :=
    match stored with
    | some row => if self.keepVersion then row.fileVersion else self.fileVersion
    | none => self.fileVersion
  columns := self.columns
  generation := generation

/-- Copies the staged rows of a batch that keep their version, or those that do not. -/
def applyStaged (db : Database) (worktree : WorktreeKey) (generation : ℕ) (keep : Bool) :
    Database :=
  { db with
    files :=
      { get := fun key =>
          match (stagedFor db worktree generation key).filter fun staged =>
            !staged.removed && staged.keepVersion = keep with
          | some staged => some (staged.applied generation (db.files.get key))
          | none => db.files.get key
        support := db.files.support ∪ db.pending.support.image fun key => (key.1, key.2.2)
        supported := by
          intro key some_
          split at some_
          next staged chosen =>
            exact Finset.mem_union_right _
              (stagedFor_isSome (by rw [(Option.filter_eq_some_iff.mp chosen).1]; rfl))
          · exact Finset.mem_union_left _ (db.files.supported _ some_) } }

/-- Deletes the file rows that the batch staged as removed. -/
def applyRemovals (db : Database) (worktree : WorktreeKey) (generation : ℕ) : Database :=
  { db with
    files := db.files.filter fun key _ => !(stagedFor db worktree generation key).any (·.removed) }

/-- Deletes what a worktree has staged up to a generation. -/
def clearStaged (db : Database) (worktree : WorktreeKey) (generation : ℕ) : Database :=
  { db with pending := db.pending.filter fun key _ => !(key.1 = worktree && key.2.1 ≤ generation) }

/-- Deletes the file rows that a whole batch did not confirm. -/
def sweep (db : Database) (worktree : WorktreeKey) (generation : ℕ) : Database :=
  { db with files := db.files.filter fun key row => !(key.1 = worktree && row.generation ≠ generation) }

/-- Deletes the versions that nothing names, and then the contents that no version has. -/
def collectAll (db : Database) : Database :=
  let versions := db.versions.filter fun version _ => db.referenced version
  { db with
    versions := versions
    contents := db.contents.filter fun digest _ => versions.any fun _ row => row.contentSha256 = digest }

/-- Deletes those of some versions that nothing names, and then the contents that only they had. -/
def collectDisplaced (db : Database) (displaced : Finset String) : Database :=
  let versions := db.versions.filter fun version _ => !(version ∈ displaced && !db.referenced version)
  let orphaned := db.versions.values fun version row =>
    if version ∈ displaced && !db.referenced version then some row.contentSha256 else none
  { db with
    versions := versions
    contents := db.contents.filter fun digest _ =>
      !(digest ∈ orphaned && !versions.any fun _ row => row.contentSha256 = digest) }

/-- Moves the watermark of a worktree to a generation. -/
def claim (db : Database) (worktree : WorktreeKey) (generation : ℕ)
    (headMarker : Option (Option String)) (row : WorktreeRow) : Database :=
  { db with
    worktrees := db.worktrees.set worktree
      { row with lastGeneration := generation, headMarker := headMarker.getD row.headMarker } }

/-- Makes the staged rows of a batch the visible ones. -/
def applyBatch (db : Database) (worktree : WorktreeKey) (generation : ℕ) : Database :=
  let applied := applyStaged (applyStaged db worktree generation false) worktree generation true
  clearStaged (applyRemovals applied worktree generation) worktree generation

/-- Deletes what a batch of this scope leaves behind. -/
def collect (db : Database) (worktree : WorktreeKey) (generation : ℕ) (displaced : Finset String) :
    BatchScope → Database
  | .full => collectAll (sweep db worktree generation)
  | .targeted => collectDisplaced db displaced

/-- The transaction that makes a batch visible, unless its generation is not above the watermark. -/
def publish (db : Database) (worktree : WorktreeKey) (generation : ℕ) (scope : BatchScope)
    (headMarker : Option (Option String)) (displaced : Finset String) : Option Database := do
  let row ← db.worktrees.get worktree
  if row.lastGeneration < generation then
    let claimed := claim db worktree generation headMarker row
    let displaced := displaced ∪ displacedByBatch claimed worktree generation ∪
      stagedBelow claimed worktree generation
    some (collect (applyBatch claimed worktree generation) worktree generation displaced scope)
  else none

/-- Forgets one checkout, keeping every version that another one names. -/
def forgetWorktree (db : Database) (worktree : WorktreeKey) : Database :=
  collectAll { db with
    files := db.files.filter fun key _ => key.1 ≠ worktree
    pending := db.pending.filter fun key _ => key.1 ≠ worktree
    worktrees := db.worktrees.filter fun key _ => key ≠ worktree }

/-- A component whose version may differ from the stored one; the others own no rows. -/
inductive IndexComponent where
  | parser
  | chunking
deriving DecidableEq

/-- Empties what a component's old version produced. -/
def invalidateComponent (db : Database) : IndexComponent → Database
  | .parser => { db with
      versions := db.versions.map fun row =>
        { row with parserVersion := none, symbols := [], references := [], health := none }
      parserVersions := .empty }
  | .chunking => { db with
      versions := db.versions.map fun row => { row with chunkingVersion := none, chunks := [] } }

/-- Empties what the grammars of changed languages produced. -/
def refreshGrammarVersions (db : Database) (current : Keyed String String) : Database :=
  { db with
    versions := db.versions.map fun row =>
      if row.language.any fun language => db.parserVersions.get language ≠ current.get language then
        { row with parserVersion := none, symbols := [], references := [], health := none }
      else row
    parserVersions := current }

section Publish

variable {db after : Database} {worktree : WorktreeKey} {generation : ℕ} {scope : BatchScope}
  {headMarker : Option (Option String)} {displaced : Finset String} {key : WorktreeKey × RepoPath}

/-- What a commit makes of a file row. -/
def publishedFile (db : Database) (worktree : WorktreeKey) (generation : ℕ) (scope : BatchScope)
    (key : WorktreeKey × RepoPath) : Option FileRow :=
  if key.1 = worktree then
    match stagedFor db worktree generation key with
    | some staged =>
      if staged.removed then none else some (staged.applied generation (db.files.get key))
    | none =>
      match scope with
      | .full => (db.files.get key).filter (·.generation = generation)
      | .targeted => db.files.get key
  else db.files.get key

theorem get_applyStaged {keep : Bool} : (applyStaged db worktree generation keep).files.get key =
    match stagedFor db worktree generation key with
    | some staged =>
      if staged.removed = false ∧ staged.keepVersion = keep then
        some (staged.applied generation (db.files.get key))
      else db.files.get key
    | none => db.files.get key := by
  change (match (stagedFor db worktree generation key).filter _ with
    | some staged => some (staged.applied generation (db.files.get key))
    | none => db.files.get key) = _
  cases stagedFor db worktree generation key with
  | none => rfl
  | some staged =>
    by_cases chosen : staged.removed = false ∧ staged.keepVersion = keep
    · simp [Option.filter, chosen]
    · have refused : (!staged.removed && decide (staged.keepVersion = keep)) = false := by
        simpa using chosen
      simp [Option.filter, chosen, refused]

/-- Both copies together give every staged row its file row. -/
theorem get_applyStaged_both :
    (applyStaged (applyStaged db worktree generation false) worktree generation true).files.get key =
      match stagedFor db worktree generation key with
      | some staged =>
        if staged.removed then db.files.get key else some (staged.applied generation (db.files.get key))
      | none => db.files.get key := by
  have same : stagedFor (applyStaged db worktree generation false) worktree generation key =
      stagedFor db worktree generation key := rfl
  rw [get_applyStaged, get_applyStaged, same]
  cases stagedFor db worktree generation key with
  | none => rfl
  | some staged => cases removed : staged.removed <;> cases kept : staged.keepVersion <;> simp [removed, kept]

/-- What a successful commit leaves, table by table, before it collects. -/
structure Published (db after : Database) (worktree : WorktreeKey) (generation : ℕ) (scope : BatchScope)
    (headMarker : Option (Option String)) : Prop where
  guard : ∃ row, db.worktrees.get worktree = some row ∧ row.lastGeneration < generation
  worktrees : ∀ other, after.worktrees.get other = if other = worktree then
      (db.worktrees.get worktree).map fun row =>
        { row with lastGeneration := generation, headMarker := headMarker.getD row.headMarker }
    else db.worktrees.get other
  files : ∀ key, after.files.get key = publishedFile db worktree generation scope key
  pending : ∀ key, after.pending.get key =
    if key.1 = worktree ∧ key.2.1 ≤ generation then none else db.pending.get key

theorem get_clearStaged {key : WorktreeKey × ℕ × RepoPath} :
    (clearStaged db worktree generation).pending.get key =
      if key.1 = worktree ∧ key.2.1 ≤ generation then none else db.pending.get key := by
  change (db.pending.get key).filter _ = _
  cases db.pending.get key with
  | none => simp
  | some row => by_cases cleared : key.1 = worktree ∧ key.2.1 ≤ generation <;> simp [Option.filter, cleared]

theorem get_applyRemovals : (applyRemovals db worktree generation).files.get key =
    match stagedFor db worktree generation key with
    | some staged => if staged.removed then none else db.files.get key
    | none => db.files.get key := by
  change (db.files.get key).filter (fun _ => !(stagedFor db worktree generation key).any (·.removed)) = _
  cases stagedFor db worktree generation key with
  | none => exact Option.filter_const_true _
  | some staged => cases removed : staged.removed <;> simp [removed]

theorem get_sweep : (sweep db worktree generation).files.get key =
    if key.1 = worktree then (db.files.get key).filter (·.generation = generation)
    else db.files.get key := by
  change (db.files.get key).filter _ = _
  by_cases here : key.1 = worktree <;> simp [here]

theorem get_applyBatch : (applyBatch db worktree generation).files.get key =
    match stagedFor db worktree generation key with
    | some staged =>
      if staged.removed then none else some (staged.applied generation (db.files.get key))
    | none => db.files.get key := by
  have same : stagedFor (applyStaged (applyStaged db worktree generation false) worktree generation true)
      worktree generation key = stagedFor db worktree generation key := rfl
  change (applyRemovals _ worktree generation).files.get key = _
  rw [get_applyRemovals, same, get_applyStaged_both]
  cases stagedFor db worktree generation key with
  | none => rfl
  | some staged => cases removed : staged.removed <;> simp [removed]

theorem publish_eq_some : publish db worktree generation scope headMarker displaced = some after ↔
    ∃ row, db.worktrees.get worktree = some row ∧ row.lastGeneration < generation ∧
      collect (applyBatch (claim db worktree generation headMarker row) worktree generation) worktree
        generation (displaced ∪ displacedByBatch db worktree generation ∪
          stagedBelow db worktree generation) scope = after := by
  simp only [publish, Option.bind_eq_bind, Option.bind_eq_some_iff, Option.ite_none_right_eq_some,
    Option.some.injEq]
  rfl

/-- A commit that is not refused. -/
theorem publish_spec
    (success : publish db worktree generation scope headMarker displaced = some after) :
    Published db after worktree generation scope headMarker := by
  obtain ⟨row, found, ahead, rfl⟩ := publish_eq_some.mp success
  refine ⟨⟨row, found, ahead⟩, fun other => ?_, fun key => ?_, fun key => ?_⟩
  · have claimed : (collect (applyBatch (claim db worktree generation headMarker row) worktree generation)
        worktree generation (displaced ∪ displacedByBatch db worktree generation ∪
          stagedBelow db worktree generation) scope).worktrees =
        (claim db worktree generation headMarker row).worktrees := by cases scope <;> rfl
    rw [claimed, claim, Keyed.get_set, found]
    rfl
  · have files :=
      @get_applyBatch (claim db worktree generation headMarker row) worktree generation key
    change _ = match stagedFor db worktree generation key with
      | some staged => _
      | none => db.files.get key at files
    unfold publishedFile
    cases scope with
    | full =>
      change (sweep (applyBatch _ worktree generation) worktree generation).files.get key = _
      rw [get_sweep, files]
      split_ifs with here
      · cases stagedFor db worktree generation key with
        | none => rfl
        | some staged => cases removed : staged.removed <;> simp [removed, PendingRow.applied, claim]
      · rw [stagedFor, if_neg here]
    | targeted =>
      change (applyBatch _ worktree generation).files.get key = _
      rw [files]
      split_ifs with here
      · rfl
      · rw [stagedFor, if_neg here]
  · have staged : (collect (applyBatch (claim db worktree generation headMarker row) worktree generation)
        worktree generation (displaced ∪ displacedByBatch db worktree generation ∪
          stagedBelow db worktree generation) scope).pending =
        (clearStaged db worktree generation).pending := by cases scope <;> rfl
    rw [staged, get_clearStaged]

end Publish

end Harkness.Context.Index
