import Harkness.Git.Hunk.Position

/-! # A view's hunk as selections of the exact diff

A hunk that was picked in any view of two contents is looked up in their exact diff: every hunk that
covers a line in common with it, where a side without lines counts as one. Together these are to have
the very changed lines the view showed. A hunk of the exact diff itself always has, unless a change
before the first line of a side and one right behind it have no line there.
-/

namespace Harkness.Git

open List

inductive WhitespaceMode where
  | exact
  | ignoreEol
  | ignoreChange
  | ignoreAll
deriving DecidableEq, Repr

/-- The whitespace treatment a diff was computed under. -/
structure Whitespace where
  mode : WhitespaceMode
  ignoreBlankLines : Bool
deriving DecidableEq, Repr

/-- Whether every difference on disk appears in the hunks. -/
def Whitespace.isExact (whitespace : Whitespace) : Bool :=
  whitespace.mode == .exact && !whitespace.ignoreBlankLines

/-- What a selection reads of a file's diff. -/
structure DiffedFile extends FileDiff where
  contextLines : ℕ
  whitespace : Whitespace
  hunks : List Hunk
deriving DecidableEq, Repr

/-- A file's diff that describes the bytes on both sides. -/
abbrev ExactFileDiff := { file : DiffedFile // file.whitespace.isExact = true }

/-- A hunk as it is named to be staged. -/
structure HunkSelection where
  oldPath : Option Bytes
  newPath : Option Bytes
  oldBlobId : String
  newBlobId : String
  contextLines : ℕ
  whitespace : Whitespace
  oldStart : ℕ
  oldLines : ℕ
  newStart : ℕ
  newLines : ℕ
deriving DecidableEq, Repr

def HunkSelection.new (file : ExactFileDiff) (hunk : Hunk) : HunkSelection where
  oldPath := file.val.oldPath
  newPath := file.val.newPath
  oldBlobId := file.val.oldBlobId
  newBlobId := file.val.newBlobId
  contextLines := file.val.contextLines
  whitespace := file.val.whitespace
  oldStart := hunk.oldStart
  oldLines := hunk.oldLines
  newStart := hunk.newStart
  newLines := hunk.newLines

/-- Why a hunk is not remapped. -/
inductive RemapError where
  | staleHunkSelection (path : Bytes)
  | hiddenWhitespaceChanges (path : Bytes)
deriving DecidableEq, Repr

/-- What a remap compares a changed line on: its side, where it is on both sides, and its bytes. -/
abbrev ChangedLine := DiffLineKind × Option ℕ × Option ℕ × Bytes

def isChange : DiffLineKind → Bool
  | .addition | .deletion => true
  | _ => false

def DiffLine.identity (line : DiffLine) : ChangedLine :=
  (line.kind, line.oldLineNumber, line.newLineNumber, line.content)

/-- The changed lines of one hunk. -/
def changedLines (hunk : Hunk) : List ChangedLine :=
  (hunk.lines.filter fun line => isChange line.kind).map DiffLine.identity

/-- The lines that a hunk covers on a side, as a half-open range: without a line there, the one it
sits against. -/
def Hunk.covered (hunk : Hunk) (side : Side) : ℕ × ℕ :=
  let start := max (hunk.start side) 1
  (start, min (start + max (hunk.count side) 1) (2 ^ 32 - 1))

def intersects (first second : ℕ × ℕ) : Bool := first.1 < second.2 && second.1 < first.2

/-- Whether two hunks cover any line in common on either side. -/
def overlaps (left right : Hunk) : Bool :=
  intersects (left.covered .old) (right.covered .old) ||
    intersects (left.covered .new) (right.covered .new)

/-- Re-expresses one hunk of a view as selections of the exact diff. -/
def remapToExact (view : DiffedFile) (viewHunk : Hunk) (exact : ExactFileDiff) :
    Except RemapError (List HunkSelection) :=
  let path := displayPath view.newPath view.oldPath
  if view.oldBlobId ≠ exact.val.oldBlobId ∨ view.newBlobId ≠ exact.val.newBlobId then
    .error (.staleHunkSelection path)
  else
    let wanted := changedLines viewHunk
    let candidates := exact.val.hunks.filter (overlaps viewHunk)
    let found := candidates.flatMap changedLines
    if wanted.toFinset.card ≠ wanted.length ∨ found.toFinset.card ≠ found.length ∨
        wanted.toFinset ≠ found.toFinset then
      .error (.hiddenWhitespaceChanges path)
    else .ok (candidates.map (HunkSelection.new exact))

/-- Whether a selection names the hunk. -/
def coordinatesMatch (selection : HunkSelection) (hunk : Hunk) : Bool :=
  (selection.oldStart, selection.oldLines, selection.newStart, selection.newLines) =
    (hunk.oldStart, hunk.oldLines, hunk.newStart, hunk.newLines)

/-- The changed lines of the hunks that selections name in a file's diff. -/
def selectedChanges (file : DiffedFile) (selections : List HunkSelection) : List ChangedLine :=
  selections.flatMap fun selection =>
    ((file.hunks.find? (coordinatesMatch selection)).map changedLines).getD []

def DiffLine.number (line : DiffLine) : Side → Option ℕ
  | .old => line.oldLineNumber
  | .new => line.newLineNumber

/-- The lines of a hunk are numbered on from its start, side by side. -/
def Hunk.Numbered (hunk : Hunk) : Prop :=
  ∀ side : Side, (hunk.lines.filter fun line => side.has line.kind).map (·.number side) =
    (range' (hunk.start side) (hunk.count side)).map some

/-- A file's diff is one of its two contents. -/
structure DiffedFile.Genuine (file : DiffedFile) (texts : Side → List SideLine) : Prop where
  described : Describes texts file.hunks
  numbered : ∀ hunk ∈ file.hunks, hunk.Numbered
  changed : ∀ hunk ∈ file.hunks, changedLines hunk ≠ []

/-- Neither hunk has a line on the side, and both are at its first line: one before it, one behind. -/
def Hunk.Straddle (first second : Hunk) (side : Side) : Prop :=
  (first.count side = 0 ∧ second.count side = 0) ∧ first.start side ≤ 1 ∧ second.start side ≤ 1

instance (first second : Hunk) (side : Side) : Decidable (first.Straddle second side) := by
  unfold Hunk.Straddle
  infer_instance

private theorem toFinset_card_eq_length_iff {lines : List ChangedLine} :
    lines.toFinset.card = lines.length ↔ lines.Nodup := by
  rw [card_toFinset, ← dedup_eq_self]
  exact ⟨(dedup_sublist lines).eq_of_length, congrArg length⟩

theorem remapToExact_eq_ok {view : DiffedFile} {viewHunk : Hunk} {exact : ExactFileDiff}
    {selections : List HunkSelection} : remapToExact view viewHunk exact = .ok selections ↔
      (view.oldBlobId = exact.val.oldBlobId ∧ view.newBlobId = exact.val.newBlobId) ∧
        (changedLines viewHunk).Nodup ∧
          ((exact.val.hunks.filter (overlaps viewHunk)).flatMap changedLines).Perm
            (changedLines viewHunk) ∧
          selections = (exact.val.hunks.filter (overlaps viewHunk)).map (HunkSelection.new exact) := by
  unfold remapToExact
  by_cases stale : view.oldBlobId ≠ exact.val.oldBlobId ∨ view.newBlobId ≠ exact.val.newBlobId
  · rw [if_pos stale]
    refine iff_of_false nofun ?_
    rintro ⟨⟨old, new⟩, -⟩
    exact stale.elim (· old) (· new)
  rw [if_neg stale]
  dsimp only
  generalize exact.val.hunks.filter (overlaps viewHunk) = candidates
  have sameFile : view.oldBlobId = exact.val.oldBlobId ∧ view.newBlobId = exact.val.newBlobId := by
    rwa [not_or, not_not, not_not] at stale
  have matches_ : ((changedLines viewHunk).toFinset.card = (changedLines viewHunk).length ∧
      (candidates.flatMap changedLines).toFinset.card = (candidates.flatMap changedLines).length ∧
        (changedLines viewHunk).toFinset = (candidates.flatMap changedLines).toFinset) ↔
      (changedLines viewHunk).Nodup ∧ (candidates.flatMap changedLines).Perm (changedLines viewHunk) := by
    rw [toFinset_card_eq_length_iff, toFinset_card_eq_length_iff]
    constructor
    · rintro ⟨distinct, found, sets⟩
      exact ⟨distinct, perm_of_nodup_nodup_toFinset_eq found distinct sets.symm⟩
    · rintro ⟨distinct, same⟩
      exact ⟨distinct, same.nodup_iff.mpr distinct, toFinset_eq_of_perm _ _ same.symm⟩
  split_ifs with hidden
  · refine iff_of_false nofun ?_
    rintro ⟨-, distinct, same, -⟩
    obtain ⟨wanted, found, sets⟩ := matches_.mpr ⟨distinct, same⟩
    exact hidden.elim (· wanted) fun rest => rest.elim (· found) (· sets)
  · rw [not_or, not_or, not_not, not_not, not_not, matches_] at hidden
    rw [Except.ok.injEq, eq_comm]
    exact ⟨fun selected => ⟨sameFile, hidden.1, hidden.2, selected⟩, fun parts => parts.2.2.2⟩

theorem overlaps_comm (left right : Hunk) : overlaps left right = overlaps right left := by
  simp only [overlaps, intersects, Bool.and_comm]

/-- What is covered of a text ends before the largest line number. -/
private theorem covered_eq {hunk : Hunk} {side : Side} {text : List SideLine} (fits : hunk.Fits side text)
    (bounded : text.length < 2 ^ 30) : hunk.covered side =
      (max (hunk.start side) 1, max (hunk.start side) 1 + max (hunk.count side) 1) := by
  have inside := fits.bound
  have one := fits.oneBased
  rw [Hunk.covered, Nat.min_eq_left]
  rw [Hunk.position] at inside
  split_ifs at inside <;> omega

theorem overlaps_self {hunk : Hunk} {text : List SideLine} (fits : hunk.Fits .old text)
    (bounded : text.length < 2 ^ 30) : overlaps hunk hunk = true := by
  have range := covered_eq fits bounded
  rw [overlaps, range, Bool.or_eq_true, intersects, Bool.and_eq_true, decide_eq_true_eq]
  refine .inl ⟨?_, ?_⟩ <;> dsimp only <;> omega

/-- With a line between them, two hunks cover one in common only where neither has any. -/
private theorem intersects_iff {first second : Hunk} {side : Side} {text : List SideLine}
    (fits : first.Fits side text) (fitsSecond : second.Fits side text)
    (bounded : text.length < 2 ^ 30) (precedes : first.Precedes side second) :
    intersects (first.covered side) (second.covered side) = true ↔ first.Straddle second side := by
  have one := fits.oneBased
  have other := fitsSecond.oneBased
  rw [covered_eq fits bounded, covered_eq fitsSecond bounded, intersects, Bool.and_eq_true,
    decide_eq_true_eq, decide_eq_true_eq, Hunk.Straddle]
  dsimp only
  rw [Hunk.Precedes, Hunk.position, Hunk.position] at precedes
  split_ifs at precedes <;> omega

theorem overlaps_iff_straddle {texts : Side → List SideLine} {first second : Hunk}
    (fits : ∀ side, first.Fits side (texts side)) (fitsSecond : ∀ side, second.Fits side (texts side))
    (bounded : ∀ side, (texts side).length < 2 ^ 30) (precedes : ∀ side, first.Precedes side second) :
    overlaps first second = true ↔ ∃ side, first.Straddle second side := by
  have meets (side : Side) := intersects_iff (fits side) (fitsSecond side) (bounded side) (precedes side)
  rw [overlaps, Bool.or_eq_true, meets, meets]
  constructor
  · exact fun either => either.elim (⟨_, ·⟩) (⟨_, ·⟩)
  · rintro ⟨_ | _, straddle⟩
    · exact .inl straddle
    · exact .inr straddle

theorem Hunk.Straddle.symm {first second : Hunk} {side : Side} (straddle : first.Straddle second side) :
    second.Straddle first side :=
  ⟨straddle.1.symm, straddle.2.symm⟩

/-- One of two hunks of a diff precedes the other on both sides. -/
theorem Describes.trichotomy {texts : Side → List SideLine} {hunks : List Hunk}
    (described : Describes texts hunks) {first second : Hunk} (here : first ∈ hunks)
    (there : second ∈ hunks) : first = second ∨ (∀ side, first.Precedes side second) ∨
      ∀ side, second.Precedes side first := by
  have both : hunks.Pairwise fun first second => ∀ side, first.Precedes side second := by
    refine ((described.apart .old).and (described.apart .new)).imp ?_
    rintro first second ⟨old, new⟩ (_ | _)
    · exact old
    · exact new
  obtain ⟨front, back, rfl⟩ := append_of_mem here
  rw [pairwise_append, pairwise_cons] at both
  rcases mem_append.mp there with earlier | later
  · exact .inr (.inr (both.2.2 second earlier first mem_cons_self))
  · rcases mem_cons.mp later with rfl | later
    · exact .inl rfl
    · exact .inr (.inl (both.2.1.1 second later))

/-- No two changed lines of a hunk have the same identity: on their side they are numbered apart. -/
theorem Hunk.Numbered.nodup_changedLines {hunk : Hunk} (numbered : hunk.Numbered) :
    (changedLines hunk).Nodup := by
  have apart (side : Side) : hunk.lines.Pairwise fun first second =>
      side.has first.kind = true → side.has second.kind = true → first.number side ≠ second.number side := by
    have distinct : ((hunk.lines.filter fun line => side.has line.kind).map (·.number side)).Nodup := by
      rw [numbered side]
      exact Nodup.map (Option.some_injective ℕ) nodup_range'
    exact pairwise_filter.mp (pairwise_map.mp distinct)
  refine pairwise_map.mpr (pairwise_filter.mpr ?_)
  refine ((apart .old).and (apart .new)).imp ?_
  rintro first second ⟨old, new⟩ changed changedSecond same
  simp only [DiffLine.identity, Prod.mk.injEq] at same
  obtain ⟨kind, oldNumber, newNumber, -⟩ := same
  have side : first.kind = .deletion ∨ first.kind = .addition := by
    revert changed
    cases first.kind <;> decide
  rcases side with deletion | addition
  · exact old (by rw [deletion]; rfl) (by rw [← kind, deletion]; rfl) oldNumber
  · exact new (by rw [addition]; rfl) (by rw [← kind, addition]; rfl) newNumber

variable {texts : Side → List SideLine} {hunks : List Hunk}

private theorem coordinatesMatch_iff {exact : ExactFileDiff} {hunk other : Hunk} :
    coordinatesMatch (.new exact hunk) other = true ↔
      ∀ side, hunk.start side = other.start side ∧ hunk.count side = other.count side := by
  rw [coordinatesMatch, decide_eq_true_eq]
  simp only [Prod.mk.injEq, HunkSelection.new]
  constructor
  · rintro ⟨oldStart, oldLines, newStart, newLines⟩ (_ | _)
    · exact ⟨oldStart, oldLines⟩
    · exact ⟨newStart, newLines⟩
  · exact fun each => ⟨(each .old).1, (each .old).2, (each .new).1, (each .new).2⟩

/-- Hunks of a diff are told apart by their coordinates. -/
theorem Describes.find_coordinatesMatch (described : Describes texts hunks) (exact : ExactFileDiff)
    {hunk : Hunk} (member : hunk ∈ hunks) :
    hunks.find? (coordinatesMatch (.new exact hunk)) = some hunk := by
  have itself : coordinatesMatch (.new exact hunk) hunk = true :=
    coordinatesMatch_iff.mpr fun _ => ⟨rfl, rfl⟩
  cases found : hunks.find? (coordinatesMatch (.new exact hunk)) with
  | none => exact absurd itself (find?_eq_none.mp found hunk member)
  | some other =>
    have named := coordinatesMatch_iff.mp (find?_some found) .old
    have place : hunk.position .old = other.position .old := by
      rw [Hunk.position, Hunk.position, named.1, named.2]
    rcases described.trichotomy member (mem_of_find?_eq_some found) with same | precedes | follows
    · rw [same]
    · have order := precedes .old
      rw [Hunk.Precedes] at order
      omega
    · have order := follows .old
      rw [Hunk.Precedes] at order
      omega

/-- Of the hunks of a diff, one covers a line in common with itself and those it straddles a first
line with. -/
theorem Describes.overlaps_iff (described : Describes texts hunks) {hunk other : Hunk}
    (member : hunk ∈ hunks) (among : other ∈ hunks) :
    overlaps hunk other = true ↔ hunk = other ∨ ∃ side, hunk.Straddle other side := by
  have fits := described.fits hunk member
  have fitsOther := described.fits other among
  rcases described.trichotomy member among with rfl | precedes | follows
  · exact iff_of_true (overlaps_self (fits .old) (described.bounded .old)) (.inl rfl)
  · rw [overlaps_iff_straddle fits fitsOther described.bounded precedes, or_iff_right]
    rintro rfl
    have order := precedes .old
    rw [Hunk.Precedes] at order
    omega
  · rw [overlaps_comm, overlaps_iff_straddle fitsOther fits described.bounded follows, or_iff_right]
    · exact exists_congr fun side => ⟨Hunk.Straddle.symm, Hunk.Straddle.symm⟩
    · rintro rfl
      have order := follows .old
      rw [Hunk.Precedes] at order
      omega

private theorem nodup_hunks (described : Describes texts hunks) : hunks.Nodup := by
  refine (described.apart .old).imp ?_
  rintro first second precedes rfl
  rw [Hunk.Precedes] at precedes
  omega

/-- What is selected by remapping are the changed lines the view's hunk showed. A hunk of the exact
diff is remapped to itself, and accepted, just when it straddles no first line with another. -/
theorem remapToExact_iff (exact : ExactFileDiff) (genuine : exact.val.Genuine texts) :
    (∀ view viewHunk selections, remapToExact view viewHunk exact = .ok selections →
        (selectedChanges exact.val selections).Perm (changedLines viewHunk)) ∧
      ∀ hunk ∈ exact.val.hunks,
        (remapToExact exact.val hunk exact = .ok [.new exact hunk] ↔
          ∀ other ∈ exact.val.hunks, other ≠ hunk → ∀ side, ¬ hunk.Straddle other side) ∧
        ((∃ selections, remapToExact exact.val hunk exact = .ok selections) ↔
          ∀ other ∈ exact.val.hunks, other ≠ hunk → ∀ side, ¬ hunk.Straddle other side) := by
  have described := genuine.described
  constructor
  · intro view viewHunk selections accepted
    obtain ⟨-, -, same, rfl⟩ := remapToExact_eq_ok.mp accepted
    rw [selectedChanges, flatMap_map]
    refine Perm.trans (Perm.of_eq (flatMap_congr fun hunk member => ?_)) same
    rw [described.find_coordinatesMatch exact (mem_of_mem_filter member)]
    rfl
  · intro hunk member
    have alone : (∀ other ∈ exact.val.hunks, other ≠ hunk → ∀ side, ¬ hunk.Straddle other side) →
        remapToExact exact.val hunk exact = .ok [.new exact hunk] := by
      intro clear
      have candidates : exact.val.hunks.filter (overlaps hunk) = [hunk] := by
        have only : exact.val.hunks.filter (overlaps hunk) = exact.val.hunks.filter (· == hunk) := by
          refine filter_congr fun other among => ?_
          rw [Bool.eq_iff_iff, described.overlaps_iff member among, beq_iff_eq, eq_comm, or_iff_left_iff_imp]
          rintro ⟨side, straddle⟩
          by_contra different
          exact clear other among different side straddle
        rw [only, filter_beq, count_eq_one_of_mem (nodup_hunks described) member, replicate_one]
      refine remapToExact_eq_ok.mpr ⟨⟨rfl, rfl⟩, (genuine.numbered hunk member).nodup_changedLines, ?_, ?_⟩
      · rw [candidates, flatMap_singleton]
      · rw [candidates, map_singleton]
    have clear : (∃ selections, remapToExact exact.val hunk exact = .ok selections) →
        ∀ other ∈ exact.val.hunks, other ≠ hunk → ∀ side, ¬ hunk.Straddle other side := by
      rintro ⟨selections, accepted⟩ other among different side straddle
      obtain ⟨-, -, same, -⟩ := remapToExact_eq_ok.mp accepted
      -- What the other hunk changes comes on top of what this one does.
      have both : [hunk, other].Subperm (exact.val.hunks.filter (overlaps hunk)) := by
        refine Nodup.subperm (by simpa using different.symm) ?_
        rintro candidate listed
        rw [mem_filter]
        rcases mem_pair.mp listed with rfl | rfl
        · exact ⟨member, (described.overlaps_iff member member).mpr (.inl rfl)⟩
        · exact ⟨among, (described.overlaps_iff member among).mpr (.inr ⟨side, straddle⟩)⟩
      have most : ([hunk, other].map fun candidate => (changedLines candidate).length).sum ≤
          (changedLines hunk).length := by
        rw [← same.length_eq, length_flatMap]
        obtain ⟨chosen, permuted, within⟩ := both
        rw [← (permuted.map _).sum_eq]
        exact (within.map _).sum_le_sum fun _ _ => Nat.zero_le _
      have some_ := length_pos_iff.mpr (genuine.changed other among)
      simp only [map_cons, map_nil, sum_cons, sum_nil] at most
      omega
    exact ⟨⟨fun accepted => clear ⟨_, accepted⟩, alone⟩, clear, fun apart => ⟨_, alone apart⟩⟩

/-- A line put before the only line of a file and another put behind it, without context. -/
def leadingLine : Hunk where
  oldStart := 0
  oldLines := 0
  newStart := 1
  newLines := 1
  lines := [⟨.addition, none, some 1, [120, 10]⟩]

def trailingLine : Hunk where
  oldStart := 1
  oldLines := 0
  newStart := 3
  newLines := 1
  lines := [⟨.addition, none, some 3, [121, 10]⟩]

def surroundedFile : ExactFileDiff :=
  ⟨⟨⟨some [102], some [102], "1", "2", 0o100644, 0o100644⟩, 0, ⟨.exact, false⟩,
    [leadingLine, trailingLine]⟩, rfl⟩

def surroundedTexts : Side → List SideLine
  | .old => [⟨[97, 10], false⟩]
  | .new => [⟨[120, 10], false⟩, ⟨[97, 10], false⟩, ⟨[121, 10], false⟩]

private theorem genuine_surrounded : surroundedFile.val.Genuine surroundedTexts where
  described :=
    { formed := by decide
      fits hunk member side := by
        rcases mem_pair.mp member with rfl | rfl <;> cases side <;>
          exact ⟨by decide, by decide, by decide⟩
      apart side := by cases side <;> exact pairwise_pair.mpr (by unfold Hunk.Precedes; decide)
      bounded side := by cases side <;> decide }
  numbered hunk member side := by
    rcases mem_pair.mp member with rfl | rfl <;> cases side <;> decide
  changed := by decide

/-- The exact view of either line is refused. -/
theorem surrounded_refused : surroundedFile.val.Genuine surroundedTexts ∧
    remapToExact surroundedFile.val leadingLine surroundedFile = .error (.hiddenWhitespaceChanges [102]) ∧
      remapToExact surroundedFile.val trailingLine surroundedFile =
        .error (.hiddenWhitespaceChanges [102]) :=
  ⟨genuine_surrounded, by decide, by decide⟩

/-- The leading line alone. -/
def ledFile : ExactFileDiff :=
  ⟨⟨⟨some [102], some [102], "1", "2", 0o100644, 0o100644⟩, 0, ⟨.exact, false⟩, [leadingLine]⟩, rfl⟩

def ledTexts : Side → List SideLine
  | .old => [⟨[97, 10], false⟩]
  | .new => [⟨[120, 10], false⟩, ⟨[97, 10], false⟩]

private theorem genuine_led : ledFile.val.Genuine ledTexts where
  described :=
    { formed := by decide
      fits hunk member side := by
        rw [mem_singleton.mp member]
        cases side <;> exact ⟨by decide, by decide, by decide⟩
      apart side := pairwise_singleton ..
      bounded side := by cases side <;> decide }
  numbered hunk member side := by
    rw [mem_singleton.mp member]
    cases side <;> decide
  changed := by decide

theorem remapToExact_led :
    remapToExact ledFile.val leadingLine ledFile = .ok [.new ledFile leadingLine] := by
  refine ((remapToExact_iff ledFile genuine_led).2 leadingLine mem_cons_self).1.mpr ?_
  intro other among different
  exact absurd (mem_singleton.mp among) different

end Harkness.Git
