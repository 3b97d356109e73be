import Harkness.Git.Diff

/-! # Parsing a unified patch

libgit2 reads the patch text into file deltas, whose hunks hold tagged lines and an entry after each
line that lacks a final newline. The parser keeps the subset a workspace edit can represent and
refuses the rest: file creations and in-place modifications of regular text files, each path once.
-/

namespace Harkness.Git

/-- A component of a path, as the platform splits it. -/
inductive Component where
  | normal (name : String)
  | curDir
  | parentDir
  | rootDir
deriving DecidableEq

/-- A path as it is written and as its components, which decide equality. -/
structure DiffPath where
  text : String
  components : List Component
deriving DecidableEq

/-- Git's classification of a file delta. -/
inductive DeltaStatus where
  | unmodified
  | added
  | deleted
  | modified
  | renamed
  | copied
  | ignored
  | untracked
  | typechange
  | unreadable
  | conflicted
deriving DecidableEq

def DeltaStatus.debug : DeltaStatus → String
  | unmodified => "Unmodified"
  | added => "Added"
  | deleted => "Deleted"
  | modified => "Modified"
  | renamed => "Renamed"
  | copied => "Copied"
  | ignored => "Ignored"
  | untracked => "Untracked"
  | typechange => "Typechange"
  | unreadable => "Unreadable"
  | conflicted => "Conflicted"

inductive FileMode where
  | unreadable
  | tree
  | blob
  | blobGroupWritable
  | blobExecutable
  | link
  | commit
deriving DecidableEq

def FileMode.debug : FileMode → String
  | unreadable => "Unreadable"
  | tree => "Tree"
  | blob => "Blob"
  | blobGroupWritable => "BlobGroupWritable"
  | blobExecutable => "BlobExecutable"
  | link => "Link"
  | commit => "Commit"

inductive DiffLineType where
  | context
  | addition
  | deletion
  | contextEofnl
  | addEofnl
  | deleteEofnl
  | fileHeader
  | hunkHeader
  | binary
deriving DecidableEq

def DiffLineType.debug : DiffLineType → String
  | context => "Context"
  | addition => "Addition"
  | deletion => "Deletion"
  | contextEofnl => "ContextEOFNL"
  | addEofnl => "AddEOFNL"
  | deleteEofnl => "DeleteEOFNL"
  | fileHeader => "FileHeader"
  | hunkHeader => "HunkHeader"
  | binary => "Binary"

/-- One entry of a hunk as libgit2 reads it. -/
structure PatchEntry where
  originValue : DiffLineType
  content : Bytes
deriving DecidableEq

/-- One hunk as libgit2 reads it. -/
structure PatchHunk where
  oldStart : ℕ
  oldLines : ℕ
  entries : List PatchEntry
deriving DecidableEq

/-- One side of a file delta. -/
structure DiffFile where
  path : Option DiffPath
  binary : Bool
  mode : FileMode
deriving DecidableEq

/-- One file delta, and the hunks of its patch unless it has none or cannot be read. -/
structure DiffDelta where
  status : DeltaStatus
  oldFile : DiffFile
  newFile : DiffFile
  patch : Except String (Option (List PatchHunk))

/-- One line from a parsed patch hunk. -/
inductive UnifiedPatchLine where
  | context (bytes : Bytes)
  | addition (bytes : Bytes)
  | deletion (bytes : Bytes)
deriving DecidableEq

/-- One textual hunk from a unified patch. -/
structure UnifiedPatchHunk where
  oldStart : ℕ
  oldLines : ℕ
  lines : List UnifiedPatchLine
deriving DecidableEq

/-- Git's two regular-file modes supported by the workspace patch tool. -/
inductive PatchFileMode where
  | regular
  | executable
deriving DecidableEq

/-- One file delta from a parsed unified patch. -/
structure UnifiedPatchFile where
  path : DiffPath
  hunks : List UnifiedPatchHunk
  created : Bool
  mode : Option PatchFileMode
deriving DecidableEq

/-- A unified patch that cannot be represented by the safe workspace editor. -/
structure UnifiedPatchError where
  path : String
  detail : String
deriving DecidableEq

def newline : UInt8 := 10

namespace UnifiedPatchLine

def bytes : UnifiedPatchLine → Bytes
  | context bytes | addition bytes | deletion bytes => bytes

/-- The line without its final newline, when it has one. -/
def popNewline : UnifiedPatchLine → UnifiedPatchLine
  | context bytes => context (if bytes.getLast? = some newline then bytes.dropLast else bytes)
  | addition bytes => addition (if bytes.getLast? = some newline then bytes.dropLast else bytes)
  | deletion bytes => deletion (if bytes.getLast? = some newline then bytes.dropLast else bytes)

end UnifiedPatchLine

/-- Takes the next entry of a hunk: a line, or the marker that the line before lacks its newline. -/
def pushEntry (relative : DiffPath) (lines : List UnifiedPatchLine) (entry : PatchEntry) :
    Except UnifiedPatchError (List UnifiedPatchLine) :=
  match entry.originValue with
  | .context => .ok (lines ++ [.context entry.content])
  | .addition => .ok (lines ++ [.addition entry.content])
  | .deletion => .ok (lines ++ [.deletion entry.content])
  | .contextEofnl | .addEofnl | .deleteEofnl =>
    match lines.getLast? with
    | none => .error ⟨relative.text, "a no-newline marker appears before any hunk line"⟩
    | some previous => .ok (lines.dropLast ++ [previous.popNewline])
  | kind => .error ⟨relative.text, "unsupported line type " ++ kind.debug⟩

def parseHunk (relative : DiffPath) (hunk : PatchHunk) :
    Except UnifiedPatchError UnifiedPatchHunk := do
  return {
    oldStart := hunk.oldStart
    oldLines := hunk.oldLines
    lines := ← hunk.entries.foldlM (pushEntry relative) [] }

def desiredMode (path : DiffPath) (created : Bool) (old new : FileMode) :
    Except UnifiedPatchError (Option PatchFileMode) :=
  if !created && old == new then .ok none
  else match new with
    | .blob | .blobGroupWritable => .ok (some .regular)
    | .blobExecutable => .ok (some .executable)
    | mode => .error ⟨path.text,
        "unsupported " ++ mode.debug ++ " file mode; only regular files are allowed"⟩

def ensureRelativeNormalPath (path : DiffPath) : Except UnifiedPatchError Unit :=
  if path.components = [] ∨ path.components.head? = some .rootDir ∨
      path.components.any (fun component => !(component matches .normal _)) then
    .error ⟨path.text,
      "patch paths must be non-empty, relative, and contain no . or .. components"⟩
  else .ok ()

/-- Whether the delta creates its file; only creations and modifications are allowed. -/
def parseStatus (delta : DiffDelta) : Except UnifiedPatchError Bool :=
  match delta.status with
  | .added => .ok true
  | .modified => .ok false
  | status => .error ⟨((delta.newFile.path.or delta.oldFile.path).map DiffPath.text).getD "<patch>",
      "unsupported " ++ status.debug ++
        " delta; only file creation and modification are allowed"⟩

/-- The old path of a modification is the new one. -/
def checkOldPath (relative : DiffPath) (delta : DiffDelta) : Except UnifiedPatchError Unit :=
  match delta.oldFile.path with
  | none => .error ⟨relative.text, "the old target path is missing"⟩
  | some old =>
    if old.components ≠ relative.components then
      .error ⟨relative.text, "the old path " ++ old.text ++
        " differs from the new path; renames are not supported"⟩
    else .ok ()

def parseHunks (relative : DiffPath) (delta : DiffDelta) :
    Except UnifiedPatchError (List UnifiedPatchHunk) :=
  match delta.patch with
  | .error source => .error ⟨relative.text, source⟩
  | .ok none => .ok []
  | .ok (some hunks) => hunks.mapM (parseHunk relative)

/-- One file of the patch, after the files before it. -/
def parseDelta (files : List UnifiedPatchFile) (delta : DiffDelta) :
    Except UnifiedPatchError (List UnifiedPatchFile) := do
  let created ← parseStatus delta
  match delta.newFile.path with
  | none => .error ⟨"<patch>", "a target path is missing"⟩
  | some relative =>
    ensureRelativeNormalPath relative
    if !created then checkOldPath relative delta
    if files.any fun file => file.path.components = relative.components then
      .error ⟨relative.text, "the patch targets this path more than once"⟩
    else if delta.oldFile.binary || delta.newFile.binary then
      .error ⟨relative.text, "binary patches are not supported"⟩
    else do
      let mode ← desiredMode relative created delta.oldFile.mode delta.newFile.mode
      let hunks ← parseHunks relative delta
      if hunks.isEmpty && mode.isNone then
        .error ⟨relative.text, "the patch has no textual hunks or mode change"⟩
      else return files ++ [{ path := relative, hunks, created, mode }]

/-- Parses the safe textual subset accepted by `fs.apply_patch`; `fromBuffer` is libgit2's reading
of the text. -/
def parseUnifiedPatch (fromBuffer : Bytes → Except String (List DiffDelta)) (bytes : Bytes) :
    Except UnifiedPatchError (List UnifiedPatchFile) :=
  if bytes.isEmpty then .error ⟨"<patch>", "the patch is empty"⟩
  else match fromBuffer bytes with
    | .error source => .error ⟨"<patch>", "invalid unified diff: " ++ source⟩
    | .ok deltas =>
      if deltas.isEmpty then .error ⟨"<patch>", "the patch contains no file changes"⟩
      else deltas.foldlM parseDelta []

end Harkness.Git
