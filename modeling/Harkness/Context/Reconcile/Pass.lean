import Harkness.Context.Index.Batch
import Harkness.Context.Symbol.Extract

/-! # What a pass makes of one path

A pass holds an entry of the walk against the row the index has for its path. It skips what is current,
reads what is not, and records what the bytes say; a row whose bytes are those it was derived from keeps
its derivation.
-/

namespace Harkness.Context.Reconcile

open Index

/-- The versions of the components that look at files, and what they find. -/
structure Components where
  classifyVersion : ℕ
  chunkingVersion : String
  /-- The grammar marker that a file of a language is expected to carry. -/
  expectedVersion : Option String → String
  digest : List (Fin 256) → String
  fileVersion : RepoPath → String → String
  /-- Whether text had to be transcoded, or none where bytes are no text. -/
  decode : List (Fin 256) → Option Bool
  extract : RepoPath → List (Fin 256) → FileSymbols
  /-- The chunks of a file and whether they stop short of all of it. -/
  chunk : RepoPath → FileClass → List (Fin 256) → FileSymbols → Option (Bool × List PendingChunk)

/-- What is asked of a path without following it. -/
structure Stat where
  isFile : Bool
  len : ℕ
  mtimeNs : Option ℤ
deriving DecidableEq

/-- What the file system answers while one attempt reads a path, none where it fails. The file may
change between any two answers. -/
structure Attempt where
  before : Option Stat
  bytes : Option (List (Fin 256))
  after : Option Stat

inductive Read where
  | version (bytes : List (Fin 256))
  | unreadable
  | moving
deriving DecidableEq

def maxReadAttempts : ℕ := 3

/-- Whether bytes can be taken for an entry as they are. -/
def acceptsVersion (components : Components) (entry : InventoryEntry) (bytes : List (Fin 256)) : Bool :=
  entry.eligible && entry.byteSize = bytes.length && (components.decode bytes).isSome

/-- Attempts in turn, until one answers. -/
def readAttempts (components : Components) (entry : InventoryEntry) : List Attempt → Read
  | [] => .moving
  | attempt :: attempts =>
    match attempt.before with
    | none => .unreadable
    | some before =>
      if !before.isFile then .moving
      else if before.len ≠ entry.byteSize then .moving
      else
        match attempt.bytes, attempt.after with
        | none, _ => .unreadable
        | some _, none => .unreadable
        | some bytes, some after =>
          if !after.isFile then .moving
          -- Bytes of a file that was rewritten meanwhile describe neither version.
          else if after.len ≠ entry.byteSize || after.mtimeNs ≠ entry.mtimeNs then
            readAttempts components entry attempts
          else if acceptsVersion components entry bytes then .version bytes
          else .unreadable

/-- Reads one eligible path, refusing bytes that do not match what the walk recorded. -/
def read (components : Components) (entry : InventoryEntry) (attempts : List Attempt) : Read :=
  readAttempts components entry (attempts.take maxReadAttempts)

/-- The columns of an entry. -/
def columns (components : Components) (entry : InventoryEntry) : FileColumns where
  byteSize := entry.byteSize
  mtimeNs := entry.mtimeNs
  fileClass := entry.fileClass
  symlink := entry.symlink
  boundary := entry.boundary
  unreadable := entry.unreadable
  classifyVersion := components.classifyVersion

/-- A path that the walk saw and did not read. -/
def recordEntry (components : Components) (entry : InventoryEntry) : PendingFile :=
  ⟨entry.path, columns components entry, .none⟩

/-- A path whose bytes should have been read and could not be. -/
def recordUnreadable (components : Components) (entry : InventoryEntry) : PendingFile :=
  ⟨entry.path, { columns components entry with unreadable := true }, .unavailable⟩

/-- A path whose bytes are the ones its stored row already names. -/
def recordRefreshed (components : Components) (entry : InventoryEntry) : PendingFile :=
  ⟨entry.path, columns components entry, .kept⟩

/-- The identity of bytes at a path. -/
def versionOf (components : Components) (path : RepoPath) (bytes : List (Fin 256)) : String :=
  components.fileVersion path (components.digest bytes)

/-- What is derived from the bytes of an entry, or none where they cannot be chunked. -/
def derive (components : Components) (entry : InventoryEntry) (bytes : List (Fin 256)) :
    Option (PendingContent × PendingSymbols) := do
  let extracted := components.extract entry.path bytes
  let (truncated, chunks) ← components.chunk entry.path entry.fileClass bytes extracted
  let version := versionOf components entry.path bytes
  some
    ({ fileVersion := version
       contentSha256 := components.digest bytes
       language := extracted.language.map (·.value)
       transcoded := (components.decode bytes).getD false
       truncated
       chunkingVersion := some components.chunkingVersion
       chunks },
     ⟨version, extracted.grammarVersion, extracted.symbols.map (·.record),
      extracted.references.map (·.record), extracted.health⟩)

/-- Whether the row of an eligible path describes the file that the walk saw. -/
def rowIsCurrent (components : Components) (row : IndexedFile) (entry : InventoryEntry) : Bool :=
  row.fileVersion.isSome && row.chunkingVersion = some components.chunkingVersion &&
    row.parserVersion = some (components.expectedVersion row.language) &&
    row.columns.classifyVersion = components.classifyVersion && !row.columns.unreadable &&
    row.columns.fileClass = entry.fileClass && row.columns.symlink = entry.symlink &&
    row.columns.boundary = entry.boundary && row.columns.byteSize = entry.byteSize &&
    row.columns.mtimeNs.isSome && row.columns.mtimeNs = entry.mtimeNs

/-- Whether the row of an ineligible path describes the entry that the walk saw. -/
def ineligibleRowIsCurrent (components : Components) (row : IndexedFile) (entry : InventoryEntry) : Bool :=
  row.fileVersion.isNone && row.columns.classifyVersion = components.classifyVersion &&
    row.columns.fileClass = entry.fileClass && row.columns.symlink = entry.symlink &&
    row.columns.boundary = entry.boundary && row.columns.unreadable = entry.unreadable &&
    row.columns.byteSize = entry.byteSize && row.columns.mtimeNs = entry.mtimeNs

/-- Whether the derivation that a row holds is still the right one for these bytes. -/
def derivationSurvives (components : Components) (row : IndexedFile) (entry : InventoryEntry)
    (digest : String) : Bool :=
  row.contentSha256 = some digest && row.chunkingVersion = some components.chunkingVersion &&
    row.parserVersion = some (components.expectedVersion row.language) &&
    row.columns.classifyVersion = components.classifyVersion && !row.columns.unreadable &&
    row.columns.fileClass = entry.fileClass && row.columns.symlink = entry.symlink &&
    row.columns.boundary = entry.boundary

inductive Applied where
  | skipped
  | refreshed
  | added
  | changed
  | unreadable
  | moving
deriving DecidableEq

/-- What is done with one path, and what is recorded for it. -/
structure Outcome where
  applied : Applied
  file : Option PendingFile
  symbols : Option PendingSymbols

/-- What becomes of a path whose bytes were read. -/
def applyBytes (components : Components) (entry : InventoryEntry) (existing : Option IndexedFile)
    (bytes : List (Fin 256)) : Outcome :=
  if existing.any (derivationSurvives components · entry (components.digest bytes)) then
    if existing.any fun row =>
        row.columns.byteSize = entry.byteSize && row.columns.mtimeNs = entry.mtimeNs then
      ⟨.skipped, none, none⟩
    else ⟨.refreshed, some (recordRefreshed components entry), none⟩
  else
    match derive components entry bytes with
    | none => ⟨.unreadable, some (recordUnreadable components entry), none⟩
    | some (content, symbols) =>
      ⟨if existing.isSome then .changed else .added,
        some ⟨entry.path, columns components entry, .read content⟩, some symbols⟩

/-- Decides what the row of one path should become. -/
def apply (components : Components) (entry : InventoryEntry) (existing : Option IndexedFile)
    (hinted : Bool) (attempts : List Attempt) : Outcome :=
  if !entry.eligible then
    if existing.any (ineligibleRowIsCurrent components · entry) then ⟨.skipped, none, none⟩
    else ⟨if existing.isSome then .changed else .added, some (recordEntry components entry), none⟩
  else if !hinted && existing.any (rowIsCurrent components · entry) then ⟨.skipped, none, none⟩
  else
    match read components entry attempts with
    | .unreadable => ⟨.unreadable, some (recordUnreadable components entry), none⟩
    | .moving => ⟨.moving, none, none⟩
    | .version bytes => applyBytes components entry existing bytes

end Harkness.Context.Reconcile
