import Harkness.Git.Diff
import Mathlib.Algebra.Order.Group.Int
import Mathlib.Algebra.BigOperators.Group.List.Basic

/-! # Rendering selected hunks as a patch

Each hunk is resolved to the groups it emits, in emission order, and counted; a file's hunks are
written in source order under a running drift. Reversing a patch swaps which side is the source.
-/

namespace Harkness.Git

/-- Which way a patch is rendered. -/
inductive Direction where
  | forward
  | reverse
deriving DecidableEq, Repr

/-- How one changed line is named by a selection. -/
structure LineCoordinates where
  old : Option ℕ
  new : Option ℕ
deriving DecidableEq, Repr

def DiffLine.coordinates (line : DiffLine) : LineCoordinates :=
  ⟨line.oldLineNumber, line.newLineNumber⟩

/-- A hunk with what is selected of it: `none` selects the whole hunk. -/
structure PreparedHunk where
  hunk : Hunk
  selectedLines : Option (List LineCoordinates)
deriving DecidableEq, Repr

structure PreparedFile where
  file : FileDiff
  hunks : List PreparedHunk
deriving DecidableEq, Repr

/-- One line group after an unselected change has either disappeared or become context. -/
structure RenderLineGroup where
  kind : DiffLineKind
  group : LineGroup
deriving DecidableEq, Repr

def RenderLineGroup.originalKind (rendered : RenderLineGroup) : DiffLineKind := rendered.group.kind

def reversedKind : DiffLineKind → Direction → DiffLineKind
  | .addition, .reverse => .deletion
  | .deletion, .reverse => .addition
  | .oldEofNoNewline, .reverse => .newEofNoNewline
  | .newEofNoNewline, .reverse => .oldEofNoNewline
  | kind, _ => kind

/-- What a changed line becomes, by whether it is selected; `none` when it disappears. -/
def resolvedKind : Direction → DiffLineKind → Bool → Option DiffLineKind
  | _, .addition, true => some .addition
  | _, .deletion, true => some .deletion
  | .forward, .addition, false => none
  | .reverse, .deletion, false => none
  | .forward, .deletion, false => some .context
  | .reverse, .addition, false => some .context
  | _, kind, _ => some kind

def resolveGroup (selectedLines : List LineCoordinates) (direction : Direction)
    (group : LineGroup) : Option RenderLineGroup :=
  (resolvedKind direction group.kind (selectedLines.contains group.line.coordinates)).map
    fun kind => ⟨kind, group⟩

/-- Emits one run of changed lines, pairing each deletion with the addition that replaced it. -/
def pushSelectedChangeRun (run : List LineGroup) (selectedLines : List LineCoordinates)
    (direction : Direction) : List RenderLineGroup :=
  let deletions := run.filter fun group => group.kind == .deletion
  let additions := run.filter fun group => group.kind == .addition
  (List.range (max deletions.length additions.length)).flatMap fun index =>
    ([deletions[index]?, additions[index]?].filterMap id).filterMap
      (resolveGroup selectedLines direction)

/-- The walk over the groups, with the changed run collected so far. -/
def resolveSelected (selectedLines : List LineCoordinates) (direction : Direction)
    (run : List LineGroup) : List LineGroup → List RenderLineGroup
  | [] => pushSelectedChangeRun run selectedLines direction
  | group :: rest =>
    if group.kind = .context then
      pushSelectedChangeRun run selectedLines direction ++
        ⟨group.kind, group⟩ :: resolveSelected selectedLines direction [] rest
    else resolveSelected selectedLines direction (run ++ [group]) rest

/-- Decides what each changed line becomes, in the order it will be emitted. -/
def resolveRenderGroups (lines : List DiffLine) (selectedLines : Option (List LineCoordinates))
    (direction : Direction) : List RenderLineGroup :=
  match selectedLines with
  | none => (lineGroups lines).map fun group => ⟨group.kind, group⟩
  | some selectedLines => resolveSelected selectedLines direction [] (lineGroups lines)

def drainReversedRun (run : List RenderLineGroup) : List RenderLineGroup :=
  run.filter (fun group => group.kind == .addition) ++
    run.filter fun group => !(group.kind == .addition)

/-- Lets each run's additions lead, with the run collected so far. -/
def orderReversed (run : List RenderLineGroup) : List RenderLineGroup → List RenderLineGroup
  | [] => drainReversedRun run
  | group :: rest =>
    if group.kind = .context then drainReversedRun run ++ group :: orderReversed [] rest
    else orderReversed (run ++ [group]) rest

/-- Resolves every changed line to what it becomes, then orders the result. -/
def orderedRenderGroups (lines : List DiffLine) (selectedLines : Option (List LineCoordinates))
    (direction : Direction) : List RenderLineGroup :=
  match direction with
  | .forward => resolveRenderGroups lines selectedLines direction
  | .reverse => orderReversed [] (resolveRenderGroups lines selectedLines direction)

/-- The kind a marker is written as, once its group's own kind is resolved. -/
def emittedMarkerKind (rendered : RenderLineGroup) (marker : DiffLine) : DiffLineKind :=
  if rendered.kind = .context ∧ rendered.originalKind ≠ .context ∧ isEofMarker marker.kind then
    .bothEofNoNewline
  else marker.kind

/-- The lines a group is written as, each under the kind it has in the patch. -/
def RenderLineGroup.emitted (rendered : RenderLineGroup) (direction : Direction) : LineGroup where
  line := { rendered.group.line with kind := reversedKind rendered.kind direction }
  markers := rendered.group.markers.map fun marker =>
    { marker with kind := reversedKind (emittedMarkerKind rendered marker) direction }

/-- One hunk resolved to the groups it will emit, already in emission order. -/
structure RenderedHunk where
  sourceStart : ℕ
  sourceLines : ℕ
  resultLines : ℕ
  groups : List RenderLineGroup
deriving DecidableEq, Repr

/-- The counters stop at the largest 32-bit value. -/
def saturatingSucc (count : ℕ) : ℕ := min (count + 1) (2 ^ 32 - 1)

/-- One group's contribution to the source and result counts. -/
def countGroup (direction : Direction) (counts : ℕ × ℕ) (rendered : RenderLineGroup) : ℕ × ℕ :=
  match reversedKind rendered.kind direction with
  | .context => (saturatingSucc counts.1, saturatingSucc counts.2)
  | .addition => (counts.1, saturatingSucc counts.2)
  | .deletion => (saturatingSucc counts.1, counts.2)
  | _ => counts

/-- Resolves one hunk to the exact groups it emits, in emission order. -/
def planHunk (prepared : PreparedHunk) (direction : Direction) : RenderedHunk :=
  let groups := orderedRenderGroups prepared.hunk.lines prepared.selectedLines direction
  let counts := groups.foldl (countGroup direction) (0, 0)
  { sourceStart := match direction with
      | .forward => prepared.hunk.oldStart
      | .reverse => prepared.hunk.newStart
    sourceLines := counts.1
    resultLines := counts.2
    groups := groups }

/-- The patch lines of a planned hunk, in order, each under the kind it has in the patch. -/
def RenderedHunk.body (rendered : RenderedHunk) (direction : Direction) : List DiffLine :=
  rendered.groups.flatMap fun group => (group.emitted direction).lines

/-- The four numbers of a rendered `@@` line. -/
structure HunkHeader where
  sourceStart : ℕ
  sourceLines : ℕ
  resultStart : ℕ
  resultLines : ℕ
deriving DecidableEq, Repr

/-- The header of the next hunk, under the drift of the hunks before it. -/
def hunkHeader (rendered : RenderedHunk) (drift : ℤ) : HunkHeader where
  sourceStart := rendered.sourceStart
  sourceLines := rendered.sourceLines
  resultStart :=
    if rendered.resultLines = 0 then 0
    else min (max (rendered.sourceStart + drift) 1).toNat (2 ^ 32 - 1)
  resultLines := rendered.resultLines

/-- The drift after a hunk. -/
def RenderedHunk.drift (rendered : RenderedHunk) (drift : ℤ) : ℤ :=
  drift + ((rendered.resultLines : ℤ) - rendered.sourceLines)

/-- The headers of a file's hunks, in the order they are written. -/
def hunkHeaders (drift : ℤ) : List RenderedHunk → List HunkHeader
  | [] => []
  | rendered :: rest => hunkHeader rendered drift :: hunkHeaders (rendered.drift drift) rest

end Harkness.Git
