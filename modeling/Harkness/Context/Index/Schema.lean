import Harkness.ToMathlib.Keyed
import Harkness.Context.Inventory.Entry
import Harkness.Context.Symbol.Record

/-! # The tables of the index cache

One row for each worktree, its visible files and the files its batches have staged; beneath them the
versions of files with what was derived from their bytes, shared by every worktree. The derived rows of
a version are deleted with it, so they stand in its row.
-/

namespace Harkness.Context.Index

abbrev WorktreeKey := String

structure WorktreeRow where
  nextGeneration : ℕ
  lastGeneration : ℕ
  headMarker : Option String
deriving DecidableEq

/-- What a walk decides about one path. -/
structure FileColumns where
  byteSize : ℕ
  mtimeNs : Option ℤ
  fileClass : FileClass
  symlink : Bool
  boundary : Option Boundary
  unreadable : Bool
  classifyVersion : ℕ
deriving DecidableEq

structure FileRow where
  fileVersion : Option String
  columns : FileColumns
  generation : ℕ
deriving DecidableEq

/-- A file row that waits for its batch to commit. -/
structure PendingRow where
  fileVersion : Option String
  keepVersion : Bool
  removed : Bool
  columns : FileColumns
deriving DecidableEq

structure PendingChunk where
  id : String
  anchor : String
  ordinal : ℕ
  range : ByteRange
  chunkSha256 : String
  symbol : Option String
deriving DecidableEq

/-- The health of a parse as its row spells it. -/
structure HealthRow where
  status : String
  reason : Option String
  errorRanges : List ByteRange
deriving DecidableEq

/-- One version of a file, with its chunks, symbols, mentions and health. -/
structure VersionRow where
  contentSha256 : String
  path : RepoPath
  language : Option String
  transcoded : Bool
  truncated : Bool
  chunkingVersion : Option String
  parserVersion : Option String
  chunks : List PendingChunk
  symbols : List SymbolRecord
  references : List SymbolReferenceRecord
  health : Option HealthRow
deriving DecidableEq

structure Database where
  worktrees : Keyed WorktreeKey WorktreeRow
  files : Keyed (WorktreeKey × RepoPath) FileRow
  pending : Keyed (WorktreeKey × ℕ × RepoPath) PendingRow
  versions : Keyed String VersionRow
  /-- The size of every content by its digest. -/
  contents : Keyed String ℕ
  /-- The grammar version that each language was last parsed with. -/
  parserVersions : Keyed String String

/-- One file row as it is read, with what its version says. -/
structure IndexedFile where
  path : RepoPath
  fileVersion : Option String
  contentSha256 : Option String
  truncated : Bool
  columns : FileColumns
  chunkingVersion : Option String
  language : Option String
  parserVersion : Option String
  generation : ℕ
deriving DecidableEq

namespace Database

/-- A cache that was just created. -/
def empty : Database := ⟨.empty, .empty, .empty, .empty, .empty, .empty⟩

/-- The generation that the visible rows of a worktree carry at most. -/
def worktreeGeneration (self : Database) (worktree : WorktreeKey) : ℕ :=
  ((self.worktrees.get worktree).map (·.lastGeneration)).getD 0

/-- The file row a worktree holds for a path, when one is visible. -/
def file (self : Database) (worktree : WorktreeKey) (path : RepoPath) : Option FileRow :=
  (self.worktrees.get worktree).bind fun row =>
    (self.files.get (worktree, path)).filter (·.generation ≤ row.lastGeneration)

/-- The visible row of a path, joined with the version it names. -/
def indexed (self : Database) (worktree : WorktreeKey) (path : RepoPath) : Option IndexedFile :=
  (self.file worktree path).map fun file =>
    let version := file.fileVersion.bind self.versions.get
    { path
      fileVersion := file.fileVersion
      contentSha256 := version.map (·.contentSha256)
      truncated := version.any (·.truncated)
      columns := file.columns
      chunkingVersion := version.bind (·.chunkingVersion)
      language := version.bind (·.language)
      parserVersion := version.bind (·.parserVersion)
      generation := file.generation }

/-- Whether a version is named by a file row or by a staged one. -/
def referenced (self : Database) (version : String) : Bool :=
  self.files.any (fun _ row => row.fileVersion = some version) ||
    self.pending.any fun _ row => row.fileVersion = some version

end Database

end Harkness.Context.Index
