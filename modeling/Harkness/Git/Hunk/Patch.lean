import Harkness.Git.Hunk.Render

/-! # A batch of selections as one patch

Each file's hunks are planned in the order of the patch's source side and written under one header
for the file. A selection that would put a line behind one that ends its side is refused instead,
since no patch can say that.
-/

namespace Harkness.Git

/-- Why a batch is refused. -/
inductive GitError where
  | unrepresentableLineSelection (path : Bytes)
deriving DecidableEq, Repr

def asciiBytes (text : String) : Bytes := text.toUTF8.data.toList

/-- The path to show for a record, preferring the side a caller would name. -/
def displayPath (preferred fallback : Option Bytes) : Bytes := (preferred.or fallback).getD []

def PreparedFile.path (prepared : PreparedFile) : Bytes :=
  displayPath prepared.file.newPath prepared.file.oldPath

/-- What hunks are sorted by: where they start on the source side, then on the result side. -/
def PreparedHunk.sortKey (prepared : PreparedHunk) : Direction → ℕ × ℕ
  | .forward => (prepared.hunk.oldStart, prepared.hunk.newStart)
  | .reverse => (prepared.hunk.newStart, prepared.hunk.oldStart)

/-- Whether the first hunk may be written before the second. -/
def PreparedHunk.leads (direction : Direction) (first second : PreparedHunk) : Bool :=
  let firstKey := first.sortKey direction
  let secondKey := second.sortKey direction
  firstKey.1 < secondKey.1 || (firstKey.1 == secondKey.1 && firstKey.2 ≤ secondKey.2)

/-- The hunks of a file in the order they are written. -/
def PreparedFile.ordered (prepared : PreparedFile) (direction : Direction) : List PreparedHunk :=
  prepared.hunks.mergeSort (PreparedHunk.leads direction)

def PreparedFile.plan (prepared : PreparedFile) (direction : Direction) : List RenderedHunk :=
  (prepared.ordered direction).map fun hunk => planHunk hunk direction

/-- Which sides a marker says end without a newline. -/
def markedSides : DiffLineKind → Bool × Bool
  | .oldEofNoNewline => (true, false)
  | .newEofNoNewline => (false, true)
  | _ => (true, true)

/-- Which sides of the rendered patch a group contributes a line to. -/
def occupiedSides (rendered : RenderLineGroup) (direction : Direction) : Bool × Bool :=
  match reversedKind rendered.kind direction with
  | .context => (true, true)
  | .addition => (false, true)
  | .deletion => (true, false)
  | _ => (false, false)

/-- Whether a group says that a side ends there which a later one still has a line on. -/
def strands (direction : Direction) (rendered : RenderLineGroup) (later : List RenderLineGroup) :
    Bool :=
  (rendered.emitted direction).lines.any fun line =>
    isEofMarker line.kind && later.any fun follower =>
      (markedSides line.kind).1 && (occupiedSides follower direction).1 ||
        (markedSides line.kind).2 && (occupiedSides follower direction).2

def strandsAny (direction : Direction) : List RenderLineGroup → Bool
  | [] => false
  | rendered :: later => strands direction rendered later || strandsAny direction later

/-- Refuses a selection that would strand a no-newline marker mid-file. -/
def refuseStrandedEofMarkers (prepared : PreparedFile) (rendered : List RenderedHunk)
    (direction : Direction) : Except GitError Unit :=
  if strandsAny direction (rendered.flatMap RenderedHunk.groups) then
    .error (.unrepresentableLineSelection prepared.path)
  else .ok ()

/-- What a line is tagged with in a patch; a marker's own content begins with its backslash. -/
def lineTag : DiffLineKind → Bytes
  | .context => asciiBytes " "
  | .addition => asciiBytes "+"
  | .deletion => asciiBytes "-"
  | .bothEofNoNewline | .oldEofNoNewline | .newEofNoNewline => []

def DiffLine.written (line : DiffLine) : Bytes := lineTag line.kind ++ line.content

def HunkHeader.written (header : HunkHeader) : Bytes :=
  asciiBytes s!"@@ -{header.sourceStart},{header.sourceLines} " ++
    asciiBytes s!"+{header.resultStart},{header.resultLines} @@\n"

/-- A file's hunks as they are written, under the drift of those before. -/
def renderHunks (direction : Direction) (drift : ℤ) : List RenderedHunk → Bytes
  | [] => []
  | rendered :: rest =>
    (hunkHeader rendered drift).written ++ (rendered.body direction).flatMap DiffLine.written ++
      renderHunks direction (rendered.drift drift) rest

def octal (number : ℕ) : String := String.ofList (Nat.toDigits 8 number)

/-- A byte of a quoted path, escaped as Git escapes it. -/
def quotedByte (byte : UInt8) : Bytes :=
  if byte = 0x5c then asciiBytes "\\\\"
  else if byte = 0x22 then asciiBytes "\\\""
  else if byte = 0x0a then asciiBytes "\\n"
  else if byte = 0x0d then asciiBytes "\\r"
  else if byte = 0x09 then asciiBytes "\\t"
  else if 0x20 ≤ byte ∧ byte ≤ 0x7e then [byte]
  else asciiBytes "\\" ++ asciiBytes (String.ofList ((Nat.toDigits 8 byte.toNat).leftpad 3 '0'))

def quotedPath (lead : String) (path : Bytes) : Bytes :=
  asciiBytes "\"" ++ (asciiBytes lead ++ path).flatMap quotedByte ++ asciiBytes "\""

/-- The file as the patch reads it: reversing swaps the sides. -/
def FileDiff.directed (file : FileDiff) : Direction → FileDiff
  | .forward => file
  | .reverse =>
    { oldPath := file.newPath, newPath := file.oldPath
      oldBlobId := file.newBlobId, newBlobId := file.oldBlobId
      oldMode := file.newMode, newMode := file.oldMode }

/-- A partial deletion leaves a file behind: it is written as a change of the file, not its
removal. -/
def FileDiff.retained (file : FileDiff) (rendered : List RenderedHunk) : FileDiff :=
  if file.newPath.isNone ∧ 0 < (rendered.map RenderedHunk.resultLines).sum then
    { file with newPath := file.oldPath, newBlobId := file.oldBlobId, newMode := file.oldMode }
  else file

def FileDiff.modeHeader (file : FileDiff) : Bytes :=
  match file.oldPath, file.newPath with
  | none, some _ =>
    if file.newMode ≠ 0 then asciiBytes s!"new file mode {octal file.newMode}\n" else []
  | some _, none =>
    if file.oldMode ≠ 0 then asciiBytes s!"deleted file mode {octal file.oldMode}\n" else []
  | some _, some _ =>
    if file.oldMode ≠ file.newMode then
      asciiBytes s!"old mode {octal file.oldMode}\nnew mode {octal file.newMode}\n"
    else []
  | none, none => []

def FileDiff.renameHeader (file : FileDiff) : Bytes :=
  match file.oldPath, file.newPath with
  | some oldPath, some newPath =>
    if oldPath ≠ newPath then
      asciiBytes "similarity index 100%\nrename from " ++ quotedPath "" oldPath ++
        asciiBytes "\nrename to " ++ quotedPath "" newPath ++ asciiBytes "\n"
    else []
  | _, _ => []

def FileDiff.indexHeader (file : FileDiff) : Bytes :=
  asciiBytes s!"index {file.oldBlobId}..{file.newBlobId}" ++
    (if file.oldMode ≠ 0 ∧ file.oldMode = file.newMode then
      asciiBytes s!" {octal file.oldMode}" else []) ++ asciiBytes "\n"

def sidePath (lead : String) : Option Bytes → Bytes
  | some path => quotedPath lead path
  | none => asciiBytes "/dev/null"

def renderFile (file : FileDiff) (rendered : List RenderedHunk) (direction : Direction) : Bytes :=
  let shown := (file.directed direction).retained rendered
  asciiBytes "diff --git " ++ quotedPath "a/" (displayPath shown.oldPath shown.newPath) ++
    asciiBytes " " ++ quotedPath "b/" (displayPath shown.newPath shown.oldPath) ++
    asciiBytes "\n" ++ shown.modeHeader ++ shown.renameHeader ++ shown.indexHeader ++
    asciiBytes "--- " ++ sidePath "a/" shown.oldPath ++ asciiBytes "\n" ++
    asciiBytes "+++ " ++ sidePath "b/" shown.newPath ++ asciiBytes "\n" ++
    renderHunks direction 0 rendered

/-- One patch for the whole batch. -/
def renderPatch (direction : Direction) : List PreparedFile → Except GitError Bytes
  | [] => .ok []
  | prepared :: rest => do
    let rendered := prepared.plan direction
    refuseStrandedEofMarkers prepared rendered direction
    let later ← renderPatch direction rest
    return renderFile prepared.file rendered direction ++ later

/-- The hunks are written under their headers, in order. -/
theorem renderHunks_eq (direction : Direction) (drift : ℤ) (plan : List RenderedHunk) :
    renderHunks direction drift plan =
      ((hunkHeaders drift plan).zip plan).flatMap fun entry =>
        entry.1.written ++ (entry.2.body direction).flatMap DiffLine.written := by
  induction plan generalizing drift with
  | nil => rfl
  | cons rendered plan ih =>
    rw [renderHunks, hunkHeaders, List.zip_cons_cons, List.flatMap_cons, ih]

end Harkness.Git
