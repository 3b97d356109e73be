import Mathlib

/-! # Diff hunks and the two sides they show

A hunk's lines are tagged, and a no-newline marker qualifies the line right before it. Each side of
a tagged body is the lines it has there, in order, with whether a marker says that side ends
without a newline. A well-formed hunk counts its sides right and qualifies each line by the marker
of the sides the line is on.
-/

namespace Harkness.Git

abbrev Bytes := List UInt8

/-- The role of one raw line in a hunk. -/
inductive DiffLineKind where
  | context
  | addition
  | deletion
  | bothEofNoNewline
  | oldEofNoNewline
  | newEofNoNewline
deriving DecidableEq, Repr

/-- Whether a line is a no-newline marker rather than a line of either side. -/
def isEofMarker : DiffLineKind → Bool
  | .bothEofNoNewline | .oldEofNoNewline | .newEofNoNewline => true
  | _ => false

/-- One byte-preserving line in a hunk. -/
structure DiffLine where
  kind : DiffLineKind
  oldLineNumber : Option ℕ
  newLineNumber : Option ℕ
  content : Bytes
deriving DecidableEq, Repr

/-- One unified-diff hunk. -/
structure Hunk where
  oldStart : ℕ
  oldLines : ℕ
  newStart : ℕ
  newLines : ℕ
  lines : List DiffLine
deriving DecidableEq, Repr

/-- What a rendered patch reads of the file it is for. -/
structure FileDiff where
  oldPath : Option Bytes
  newPath : Option Bytes
  oldBlobId : String
  newBlobId : String
  oldMode : ℕ
  newMode : ℕ
deriving DecidableEq, Repr

/-- One diff line together with the end-of-file markers that qualify it. -/
structure LineGroup where
  line : DiffLine
  markers : List DiffLine
deriving DecidableEq, Repr

namespace LineGroup

/-- The kind of the leading line, before any direction flip. -/
def kind (group : LineGroup) : DiffLineKind := group.line.kind

def lines (group : LineGroup) : List DiffLine := group.line :: group.markers

end LineGroup

/-- The groups of `line`, already followed by `markers`, and of what comes after. -/
@[simp] def lineGroupsFrom (line : DiffLine) (markers : List DiffLine) : List DiffLine → List LineGroup
  | [] => [⟨line, markers⟩]
  | next :: rest =>
    if isEofMarker next.kind then lineGroupsFrom line (markers ++ [next]) rest
    else ⟨line, markers⟩ :: lineGroupsFrom next [] rest

/-- Splits the lines where a line that is not a marker begins. -/
def lineGroups : List DiffLine → List LineGroup
  | [] => []
  | line :: rest => lineGroupsFrom line [] rest

/-- The two sides of a tagged body. -/
inductive Side where
  | old
  | new
deriving DecidableEq, Repr

namespace Side

def other : Side → Side
  | old => new
  | new => old

/-- The kind of a line that is on this side only. -/
def own : Side → DiffLineKind
  | old => .deletion
  | new => .addition

/-- Whether a line of this kind is on the side. -/
def has (side : Side) (kind : DiffLineKind) : Bool := kind == .context || kind == side.own

@[simp] theorem has_context (side : Side) : side.has .context = true := rfl

/-- Whether a marker of this kind says that the side ends without a newline. -/
def endsAt : Side → DiffLineKind → Bool
  | old, .oldEofNoNewline | new, .newEofNoNewline | _, .bothEofNoNewline => true
  | _, _ => false

end Side

/-- One line of one side, and whether the side ends there without a newline. -/
structure SideLine where
  content : Bytes
  unterminated : Bool
deriving DecidableEq, Repr

def LineGroup.on (group : LineGroup) (side : Side) : SideLine where
  content := group.line.content
  unterminated := group.markers.any fun marker => side.endsAt marker.kind

/-- What a group shows on a side it is on. -/
def LineGroup.shown (group : LineGroup) (side : Side) : Option SideLine :=
  if side.has group.kind then some (group.on side) else none

/-- What a group shows on a side when it is on no other. -/
def LineGroup.ownShown (group : LineGroup) (side : Side) : Option SideLine :=
  if group.kind = side.own then some (group.on side) else none

/-- The lines of one side of a tagged body, in order. -/
def sideLines (side : Side) (lines : List DiffLine) : List SideLine :=
  (lineGroups lines).filterMap fun group => group.shown side

/-- The lines of a tagged body that are on one side only, in order. -/
def ownLines (side : Side) (lines : List DiffLine) : List SideLine :=
  (lineGroups lines).filterMap fun group => group.ownShown side

/-- The marker that qualifies a line of this kind: it names the sides the line is on. -/
def markerOf : DiffLineKind → DiffLineKind
  | .deletion => .oldEofNoNewline
  | .addition => .newEofNoNewline
  | _ => .bothEofNoNewline

/-- A group is a line of one or both sides, qualified by markers of those sides only. -/
structure LineGroup.WellFormed (group : LineGroup) : Prop where
  tagged : isEofMarker group.kind = false
  marked : ∀ marker ∈ group.markers, marker.kind = markerOf group.kind

instance (group : LineGroup) : Decidable group.WellFormed :=
  decidable_of_iff (isEofMarker group.kind = false ∧
      ∀ marker ∈ group.markers, marker.kind = markerOf group.kind)
    ⟨fun ⟨tagged, marked⟩ => ⟨tagged, marked⟩, fun ⟨tagged, marked⟩ => ⟨tagged, marked⟩⟩

@[simp] theorem isEofMarker_markerOf (kind : DiffLineKind) : isEofMarker (markerOf kind) = true := by
  cases kind <;> rfl

theorem Side.endsAt_markerOf (side : Side) {kind : DiffLineKind} (tagged : isEofMarker kind = false) :
    side.endsAt (markerOf kind) = side.has kind := by
  revert tagged
  cases side <;> cases kind <;> decide

/-- On a side it is on, a well-formed group ends the side where it has a marker at all. -/
theorem LineGroup.WellFormed.on_eq {group : LineGroup} (formed : group.WellFormed) {side : Side}
    (has : side.has group.kind = true) :
    group.on side = ⟨group.line.content, !group.markers.isEmpty⟩ := by
  have ends : ∀ marker ∈ group.markers, side.endsAt marker.kind = true := by
    intro marker member
    rw [formed.marked marker member, side.endsAt_markerOf formed.tagged, has]
  simp only [LineGroup.on, SideLine.mk.injEq, true_and]
  cases shown : group.markers with
  | nil => rfl
  | cons marker rest =>
    rw [List.any_cons, ends marker (shown ▸ List.mem_cons_self)]
    rfl

theorem LineGroup.WellFormed.kind_cases {group : LineGroup} (formed : group.WellFormed) :
    group.kind = .context ∨ group.kind = .deletion ∨ group.kind = .addition := by
  have tagged := formed.tagged
  revert tagged
  cases group.kind <;> decide

private theorem lineGroupsFrom_markers (line : DiffLine) (markers more rest : List DiffLine)
    (marked : ∀ marker ∈ more, isEofMarker marker.kind) :
    lineGroupsFrom line markers (more ++ rest) = lineGroupsFrom line (markers ++ more) rest := by
  induction more generalizing markers with
  | nil => rw [List.append_nil, List.nil_append]
  | cons marker more ih =>
    rw [List.cons_append, lineGroupsFrom, if_pos (marked marker List.mem_cons_self),
      ih (markers ++ [marker]) fun other member => marked other (List.mem_cons_of_mem _ member),
      List.append_assoc, List.singleton_append]

private theorem lineGroupsFrom_flatMap (line : DiffLine) (markers : List DiffLine)
    (groups : List LineGroup) (formed : ∀ group ∈ groups, group.WellFormed) :
    lineGroupsFrom line markers (groups.flatMap LineGroup.lines) = ⟨line, markers⟩ :: groups := by
  induction groups generalizing line markers with
  | nil => rfl
  | cons group groups ih =>
    have head := formed group List.mem_cons_self
    have marked : ∀ marker ∈ group.markers, isEofMarker marker.kind := by
      intro marker member
      rw [head.marked marker member]
      exact isEofMarker_markerOf _
    rw [List.flatMap_cons, LineGroup.lines, List.cons_append, lineGroupsFrom,
      if_neg (by simpa only [LineGroup.kind, Bool.not_eq_true] using head.tagged),
      lineGroupsFrom_markers group.line [] group.markers _ marked, List.nil_append,
      ih group.line group.markers fun other member => formed other (List.mem_cons_of_mem _ member)]

/-- Written out and split again, well-formed groups are the same groups. -/
theorem lineGroups_flatMap (groups : List LineGroup)
    (formed : ∀ group ∈ groups, group.WellFormed) :
    lineGroups (groups.flatMap LineGroup.lines) = groups := by
  cases groups with
  | nil => rfl
  | cons group groups =>
    have head := formed group List.mem_cons_self
    have whole := lineGroupsFrom_flatMap group.line [] (group :: groups) formed
    rw [List.flatMap_cons, LineGroup.lines, List.cons_append, lineGroupsFrom,
      if_neg (by simpa only [LineGroup.kind, Bool.not_eq_true] using head.tagged)] at whole
    rw [List.flatMap_cons, LineGroup.lines, List.cons_append, lineGroups]
    exact (List.cons.inj whole).2

/-- The body's lines are tagged context, addition or deletion, and its counts are the header's. The
differ reads no two contents whose lines together outrun the counters of a rendered header. -/
structure Hunk.WellFormed (hunk : Hunk) : Prop where
  grouped : ∀ group ∈ lineGroups hunk.lines, group.WellFormed
  oldCount : (sideLines .old hunk.lines).length = hunk.oldLines
  newCount : (sideLines .new hunk.lines).length = hunk.newLines
  bounded : hunk.oldLines + hunk.newLines < 2 ^ 32

instance (hunk : Hunk) : Decidable hunk.WellFormed :=
  decidable_of_iff ((∀ group ∈ lineGroups hunk.lines, group.WellFormed) ∧
      (sideLines .old hunk.lines).length = hunk.oldLines ∧
      (sideLines .new hunk.lines).length = hunk.newLines ∧
      hunk.oldLines + hunk.newLines < 2 ^ 32)
    ⟨fun ⟨grouped, old, new, bounded⟩ => ⟨grouped, old, new, bounded⟩,
      fun ⟨grouped, old, new, bounded⟩ => ⟨grouped, old, new, bounded⟩⟩

end Harkness.Git
