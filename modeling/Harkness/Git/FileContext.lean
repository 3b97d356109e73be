import Harkness.Git.Hunk.Width
import Harkness.ToMathlib.Except
import Harkness.ToMathlib.Lines

/-! # Bounded, blob-addressed file and hunk context

A request names the content of one side of a diff and a range of its lines: all of them, or those of a hunk
with more before and behind. The lines are picked in one scan that counts their bytes. Past the budget no
line is kept, and the response is a summary.
-/

namespace Harkness.Git

open List

/-- What is compared. -/
inductive DiffTarget where
  | staged
  | unstaged
  | commit (revision : String) (parent : Option String)
  | revisions (oldRevision newRevision : String)
  | revisionAgainstWorktree (revision : String)
  | branchAgainstBase (branch baseBranch : String)
deriving DecidableEq, Repr

/-- What a request reads of a diff record. -/
structure TargetedFile extends FileDiff where
  target : DiffTarget
deriving DecidableEq, Repr

/-- The line range to retrieve from one file side. -/
inductive FileContextRange where
  | fullFile
  | hunk (startLine lineCount linesBefore linesAfter : ℕ)
deriving DecidableEq, Repr

/-- Where file-context bytes come from. -/
inductive FileContextSource where
  | blob (blobId : String)
  | absent (blobId : String)
  | worktree (path : Bytes) (expectedBlobId : String)
deriving DecidableEq, Repr

def FileContextSource.blobId : FileContextSource → String
  | .blob blobId | .absent blobId | .worktree _ blobId => blobId

/-- One bounded request for file content. -/
structure FileContextRequest where
  source : FileContextSource
  side : Side
  range : FileContextRange
  maxFileSize : ℕ
  maxTotalBytes : ℕ
deriving DecidableEq, Repr

/-- Why a file-context request returned only its summary. -/
inductive FileContextOmission where
  | fileTooLarge (limit : ℕ)
  | contentBudgetExhausted (limit : ℕ)
deriving DecidableEq, Repr

/-- One complete line-range response or a named bounded summary. -/
structure FileContextResponse where
  blobId : String
  side : Side
  range : FileContextRange
  byteSize : ℕ
  totalLines : Option ℕ
  startLine : Option ℕ
  lines : List DiffLine
  omission : Option FileContextOmission
deriving DecidableEq, Repr

inductive FileContextError where
  | notARepository
  | pathOutsideRepository (path : Bytes)
  | invalidBlobId (blobId : String)
  | blobNotFound (blobId : String)
  | staleHunkSelection (path : Bytes)
  | malformedDiff (detail : String)
  | diffContent (path : Bytes) (reason : String)
  | inspection (reason : String)
deriving DecidableEq, Repr

def defaultMaxDiffFileSize : ℕ := 1024 * 1024
def defaultMaxDiffTotalBytes : ℕ := 8 * 1024 * 1024

namespace FileContextRequest

def ofSource (source : FileContextSource) (side : Side) (range : FileContextRange) : FileContextRequest :=
  ⟨source, side, range, defaultMaxDiffFileSize, defaultMaxDiffTotalBytes⟩

def fromFile (file : TargetedFile) (side : Side) (range : FileContextRange) : FileContextRequest :=
  let blobId := match side with
    | .old => file.oldBlobId
    | .new => file.newBlobId
  let path := match side with
    | .old => file.oldPath
    | .new => file.newPath
  if path.isNone && !blobId.isEmpty && blobId.toList.all (· == '0') then
    ofSource (.absent blobId) side range
  else
    match side, file.target, path with
    | .new, .unstaged, some path | .new, .revisionAgainstWorktree _, some path =>
      ofSource (.worktree path blobId) side range
    | _, _, _ => ofSource (.blob blobId) side range

def fullFile (file : TargetedFile) (side : Side) : FileContextRequest := fromFile file side .fullFile

/-- Retrieves a recorded hunk plus so many lines before and after it. -/
def forHunk (file : TargetedFile) (hunk : Hunk) (side : Side) (linesBefore linesAfter : ℕ) :
    FileContextRequest :=
  fromFile file side (.hunk (hunk.start side) (hunk.count side) linesBefore linesAfter)

def withMaxFileSize (request : FileContextRequest) (maxFileSize : ℕ) : FileContextRequest :=
  { request with maxFileSize }

def withMaxTotalBytes (request : FileContextRequest) (maxTotalBytes : ℕ) : FileContextRequest :=
  { request with maxTotalBytes }

private theorem fromFile_parts (file : TargetedFile) (side : Side) (range : FileContextRange) :
    (fromFile file side range).side = side ∧ (fromFile file side range).range = range := by
  unfold fromFile
  dsimp only
  split_ifs
  · exact ⟨rfl, rfl⟩
  · split <;> exact ⟨rfl, rfl⟩

end FileContextRequest

/-- A slice of bytes: none is longer than `isize` counts. -/
abbrev Slice := {bytes : Bytes // bytes.length < 2 ^ 63}

/-- Inclusive one-based bounds for a request. A zero-width hunk side marks a boundary between lines. -/
def requestedBounds : FileContextRange → ℕ × ℕ
  | .fullFile => (1, (2 ^ 64 - 1))
  | .hunk startLine lineCount linesBefore linesAfter =>
    if lineCount = 0 then
      (max (min (startLine + 1) (2 ^ 64 - 1) - linesBefore) 1, min (startLine + linesAfter) (2 ^ 64 - 1))
    else
      (max (startLine - linesBefore) 1, min (min (startLine + (lineCount - 1)) (2 ^ 64 - 1) + linesAfter)
      (2 ^ 64 - 1))

def omitted (request : FileContextRequest) (id : String) (byteSize : ℕ) (omission : FileContextOmission) :
    FileContextResponse where
  blobId := id
  side := request.side
  range := request.range
  byteSize := byteSize
  totalLines := none
  startLine := none
  lines := []
  omission := some omission

/-- What the scan keeps from one line to the next. -/
structure LineScan where
  totalLines : ℕ
  selectedBytes : ℕ
  budgetExhausted : Bool
  lines : List DiffLine
deriving DecidableEq, Repr

def tooManyLines : FileContextError :=
  .malformedDiff "file context contains more lines than the diff line-number model can represent"

def contextLine (side : Side) (line : Bytes × ℕ) : DiffLine where
  kind := .context
  oldLineNumber := if side = .old then some line.2 else none
  newLineNumber := if side = .new then some line.2 else none
  content := line.1

def scanLine (request : FileContextRequest) (scan : LineScan) (rawLine : Bytes) :
    Except FileContextError LineScan :=
  let (first, last) := requestedBounds request.range
  let totalLines := min (scan.totalLines + 1) (2 ^ 64 - 1)
  if totalLines < first ∨ last < totalLines ∨ scan.budgetExhausted then .ok { scan with totalLines }
  else
    let selectedBytes := min (scan.selectedBytes + rawLine.length) (2 ^ 64 - 1)
    if request.maxTotalBytes < selectedBytes then .ok ⟨totalLines, selectedBytes, true, []⟩
    else if 2 ^ 32 ≤ totalLines then .error tooManyLines
    else .ok ⟨totalLines, selectedBytes, scan.budgetExhausted,
      scan.lines ++ [contextLine request.side (rawLine, totalLines)]⟩

def projectLines (request : FileContextRequest) (id : String) (content : Slice) :
    Except FileContextError FileContextResponse :=
  let byteSize := content.val.length
  if request.range = .fullFile ∧ request.maxTotalBytes < byteSize then
    .ok (omitted request id byteSize (.contentBudgetExhausted request.maxTotalBytes))
  else do
    let scan ← (Lines.split 10 content.val).foldlM (scanLine request) ⟨0, 0, false, []⟩
    if 2 ^ 32 ≤ scan.totalLines then .error tooManyLines
    else if scan.budgetExhausted then
      .ok ⟨id, request.side, request.range, byteSize, some scan.totalLines, none, scan.lines,
        some (.contentBudgetExhausted request.maxTotalBytes)⟩
    else
      let startLine := scan.lines.head?.bind fun line => match request.side with
        | .old => line.oldLineNumber
        | .new => line.newLineNumber
      .ok ⟨id, request.side, request.range, byteSize, some scan.totalLines, startLine, scan.lines, none⟩

section Scan

variable {request : FileContextRequest} {range : FileContextRange} {read lines : List Bytes} {line : Bytes}
  {scan : LineScan} {id : String} {content : Slice}

/-- The lines of a content that a range selects, with their numbers. -/
def selectedLines (range : FileContextRange) (lines : List Bytes) : List (Bytes × ℕ) :=
  (lines.zipIdx 1).filter fun line =>
    decide ((requestedBounds range).1 ≤ line.2) && decide (line.2 ≤ (requestedBounds range).2)

def byteCount (lines : List (Bytes × ℕ)) : ℕ := (lines.map fun line => line.1.length).sum

theorem selectedLines_concat : selectedLines range (read ++ [line]) = selectedLines range read ++
    if (requestedBounds range).1 ≤ read.length + 1 ∧ read.length + 1 ≤ (requestedBounds range).2 then
      [(line, read.length + 1)]
    else [] := by
  rw [selectedLines, zipIdx_append, filter_append, zipIdx_singleton, filter_singleton, Nat.add_comm 1,
    ← Bool.decide_and]
  congr 1
  split_ifs with within
  · rw [decide_eq_true within, cond_true]
  · rw [decide_eq_false within, cond_false]

theorem byteCount_append (first second : List (Bytes × ℕ)) :
    byteCount (first ++ second) = byteCount first + byteCount second := by
  rw [byteCount, map_append, sum_append, byteCount, byteCount]

theorem byteCount_selectedLines_le : byteCount (selectedLines range lines) ≤ lines.flatten.length := by
  have within : (selectedLines range lines).map (fun line => line.1.length) <+
      (lines.zipIdx 1).map (fun line => line.1.length) := filter_sublist.map _
  have all : (lines.zipIdx 1).map (fun line => line.1.length) = lines.map length := by
    rw [← Function.comp_def length Prod.fst, ← map_map, zipIdx_map_fst]
  rw [byteCount, length_flatten, ← all]
  exact within.sum_le_sum fun _ _ => Nat.zero_le _

/-- The scan after these lines: it has their selected ones, unless these exceed the budget. -/
structure LineScan.After (request : FileContextRequest) (read : List Bytes) (scan : LineScan) : Prop where
  totalLines : scan.totalLines = read.length
  budgetExhausted : scan.budgetExhausted =
    decide (request.maxTotalBytes < byteCount (selectedLines request.range read))
  selectedBytes : scan.budgetExhausted = false →
    scan.selectedBytes = byteCount (selectedLines request.range read)
  lines : scan.lines = if request.maxTotalBytes < byteCount (selectedLines request.range read) then []
    else (selectedLines request.range read).map (contextLine request.side)

theorem LineScan.After.step (after : scan.After request read) (few : read.length + 1 < 2 ^ 32)
    (bounded : (read ++ [line]).flatten.length < 2 ^ 63) :
    ∃ next, scanLine request scan line = .ok next ∧ next.After request (read ++ [line]) := by
  have longer : (read ++ [line]).length = read.length + 1 := by rw [length_append, length_singleton]
  have total : min (scan.totalLines + 1) (2 ^ 64 - 1) = read.length + 1 := by rw [after.totalLines]; omega
  have bytes : byteCount (selectedLines request.range (read ++ [line])) < 2 ^ 63 :=
    byteCount_selectedLines_le.trans_lt bounded
  have selected : selectedLines request.range (read ++ [line]) = _ := selectedLines_concat
  unfold scanLine
  dsimp only
  rw [total]
  cases exhausted : scan.budgetExhausted with
  | true =>
    have exceeds := after.budgetExhausted.symm.trans exhausted
    rw [decide_eq_true_eq] at exceeds
    have still : request.maxTotalBytes < byteCount (selectedLines request.range (read ++ [line])) := by
      rw [selected, byteCount_append]
      omega
    rw [if_pos (.inr (.inr rfl))]
    refine ⟨_, rfl, longer.symm, (decide_eq_true still).symm, nofun, ?_⟩
    rw [if_pos still]
    exact after.lines.trans (if_pos exceeds)
  | false =>
    have fits := after.budgetExhausted.symm.trans exhausted
    rw [decide_eq_false_iff_not] at fits
    have kept := after.lines.trans (if_neg fits)
    by_cases within : (requestedBounds request.range).1 ≤ read.length + 1 ∧
        read.length + 1 ≤ (requestedBounds request.range).2
    · rw [if_pos within] at selected
      have count : byteCount (selectedLines request.range (read ++ [line])) =
          byteCount (selectedLines request.range read) + line.length := by
        rw [selected, byteCount_append]
        rfl
      have sum : min (scan.selectedBytes + line.length) (2 ^ 64 - 1) =
          byteCount (selectedLines request.range (read ++ [line])) := by
        rw [after.selectedBytes exhausted]
        omega
      have skipped : ¬ (read.length + 1 < (requestedBounds request.range).1 ∨
          (requestedBounds request.range).2 < read.length + 1 ∨ false = true) := by
        simp only [Bool.false_eq_true, or_false]
        omega
      rw [if_neg skipped, sum]
      split_ifs with exceeds many
      · exact ⟨_, rfl, longer.symm, (decide_eq_true exceeds).symm, nofun, (if_pos exceeds).symm⟩
      · omega
      · refine ⟨_, rfl, longer.symm, (decide_eq_false exceeds).symm, fun _ => rfl, ?_⟩
        rw [if_neg exceeds, selected, map_append, kept, map_singleton]
    · rw [if_neg within, append_nil] at selected
      have skipped : read.length + 1 < (requestedBounds request.range).1 ∨
          (requestedBounds request.range).2 < read.length + 1 ∨ false = true := by
        simp only [Bool.false_eq_true, or_false]
        omega
      rw [if_pos skipped]
      refine ⟨_, rfl, longer.symm, ?_, fun _ => ?_, ?_⟩
      · rw [selected]
        exact exhausted.symm.trans after.budgetExhausted
      · rw [selected]
        exact after.selectedBytes exhausted
      · rw [selected]
        exact after.lines

theorem LineScan.After.run (rest : List Bytes) (after : scan.After request read)
    (few : (read ++ rest).length < 2 ^ 32) (bounded : (read ++ rest).flatten.length < 2 ^ 63) :
    ∃ last, rest.foldlM (scanLine request) scan = .ok last ∧ last.After request (read ++ rest) := by
  induction rest generalizing read scan with
  | nil => exact ⟨scan, rfl, by rwa [append_nil]⟩
  | cons line rest ih =>
    rw [append_cons] at few bounded ⊢
    have fewer : read.length + 1 < 2 ^ 32 := by
      rw [length_append, length_append, length_singleton] at few
      omega
    have smaller : (read ++ [line]).flatten.length < 2 ^ 63 := by
      rw [flatten_append, length_append] at bounded
      omega
    obtain ⟨next, stepped, after⟩ := after.step fewer smaller
    obtain ⟨last, ran, after⟩ := ih after few bounded
    exact ⟨last, by rw [foldlM_cons, stepped]; exact ran, after⟩

/-- Every line is counted, or the scan ends at one that has no number. -/
theorem totalLines_of_scan (request : FileContextRequest) (scan : LineScan) (rest : List Bytes) :
    rest.foldlM (scanLine request) scan = .error tooManyLines ∨
    ∃ last, rest.foldlM (scanLine request) scan = .ok last ∧
      min (scan.totalLines + rest.length) (2 ^ 64 - 1) ≤ last.totalLines := by
  induction rest generalizing scan with
  | nil => exact .inr ⟨scan, rfl, min_le_left _ _⟩
  | cons line rest ih =>
    have step : scanLine request scan line = .error tooManyLines ∨
      ∃ next, scanLine request scan line = .ok next ∧
        next.totalLines = min (scan.totalLines + 1) (2 ^ 64 - 1) := by
      unfold scanLine
      dsimp only
      split_ifs
      · exact .inr ⟨_, rfl, rfl⟩
      · exact .inr ⟨_, rfl, rfl⟩
      · exact .inl rfl
      · exact .inr ⟨_, rfl, rfl⟩
    rw [foldlM_cons, length_cons]
    rcases step with refused | ⟨next, stepped, total⟩
    · exact .inl (by rw [refused]; rfl)
    · rw [stepped]
      refine (ih next).imp_right fun ⟨last, ran, counted⟩ => ⟨last, ran, ?_⟩
      omega

/-- The number of the first line of a selection. -/
private theorem head_contextLine (side : Side) (selected : List (Bytes × ℕ)) :
    ((selected.map (contextLine side)).head?.bind fun line => match side with
      | .old => line.oldLineNumber
      | .new => line.newLineNumber) = selected.head?.map Prod.snd := by
  cases selected with
  | nil => rfl
  | cons line rest => cases side <;> rfl

/-- All lines of the range, unless they exceed the budget: then none of them. -/
theorem projectLines_eq : projectLines request id content =
    let lines := Lines.split 10 content.val
    let selected := selectedLines request.range lines
    let exhausted := FileContextOmission.contentBudgetExhausted request.maxTotalBytes
    if request.range = .fullFile ∧ request.maxTotalBytes < content.val.length then
      .ok (omitted request id content.val.length exhausted)
    else if 2 ^ 32 ≤ lines.length then .error tooManyLines
    else if request.maxTotalBytes < byteCount selected then
      .ok ⟨id, request.side, request.range, content.val.length, some lines.length, none, [], some exhausted⟩
    else .ok ⟨id, request.side, request.range, content.val.length, some lines.length,
      selected.head?.map Prod.snd, selected.map (contextLine request.side), none⟩ := by
  unfold projectLines
  dsimp only
  split_ifs with whole many exceeds
  · rfl
  · rcases totalLines_of_scan request ⟨0, 0, false, []⟩ (Lines.split 10 content.val) with
      refused | ⟨last, ran, counted⟩
    · rw [refused]
      rfl
    · have uncounted : 2 ^ 32 ≤ last.totalLines := by
        rw [Nat.zero_add] at counted
        omega
      rw [ran]
      exact if_pos uncounted
  all_goals
    have start : LineScan.After request [] ⟨0, 0, false, []⟩ :=
      ⟨rfl, (decide_eq_false (Nat.not_lt_zero _)).symm, fun _ => rfl, (if_neg (Nat.not_lt_zero _)).symm⟩
    obtain ⟨last, ran, after⟩ := start.run (Lines.split 10 content.val) (not_le.mp many)
      (by rw [nil_append, Lines.split_flatten]; exact content.property)
    rw [nil_append] at after
    rw [ran]
    refine (if_neg (by rw [after.totalLines]; exact many)).trans ?_
  · rw [if_pos (after.budgetExhausted.trans (decide_eq_true exceeds)), after.lines, if_pos exceeds,
      after.totalLines]
  · have kept : last.budgetExhausted = false := after.budgetExhausted.trans (decide_eq_false exceeds)
    rw [if_neg (by rw [kept]; exact Bool.false_ne_true), after.lines, if_neg exceeds, after.totalLines,
      head_contextLine]

end Scan

namespace Placed

/-- How many lines precede the change with so many unchanged ones before it. -/
def spanStart (placed : Placed) (width : ℕ) (side : Side) : ℕ := placed.preceding side - width

/-- The last line of the change with so many unchanged ones behind it, in a side of so many lines. -/
def spanStop (placed : Placed) (width : ℕ) (side : Side) (total : ℕ) : ℕ :=
  min total (placed.preceding side + placed.region.lines side + width)

/-- The change with so many unchanged lines around it, or as there are, and the numbers of these lines. -/
def span (placed : Placed) (width : ℕ) (side : Side) (content : Slice) : List (Bytes × ℕ) :=
  let lines := Lines.split 10 content.val
  ((lines.take (placed.spanStop width side lines.length)).drop (placed.spanStart width side)).zipIdx
    (placed.spanStart width side + 1)

end Placed

theorem one_le_requestedBounds (range : FileContextRange) : 1 ≤ (requestedBounds range).1 := by
  cases range with
  | fullFile => exact le_rfl
  | hunk startLine lineCount linesBefore linesAfter =>
    rw [requestedBounds]
    split_ifs <;> exact le_max_right _ _

/-- What is selected is one piece of the content. -/
theorem selectedLines_eq (range : FileContextRange) (lines : List Bytes) : selectedLines range lines =
    ((lines.take (requestedBounds range).2).drop ((requestedBounds range).1 - 1)).zipIdx
      (requestedBounds range).1 := by
  have positive := one_le_requestedBounds range
  induction lines using List.reverseRecOn with
  | nil => rw [take_nil, drop_nil]; rfl
  | append_singleton lines line ih =>
    rw [selectedLines_concat, ih]
    split_ifs with within
    · have whole : (lines ++ [line]).length ≤ (requestedBounds range).2 := by
        rw [length_append, length_singleton]
        exact within.2
      have place : (requestedBounds range).1 + (lines.length - ((requestedBounds range).1 - 1)) =
          lines.length + 1 := by omega
      rw [take_of_length_le (by omega), take_of_length_le whole, drop_append_of_le_length
        (by omega), zipIdx_append,
        length_drop, place, zipIdx_singleton]
    · rw [append_nil]
      rcases Nat.lt_or_ge (requestedBounds range).2 (lines.length + 1) with short | long
      · rw [take_append_of_le_length (by omega)]
      · have behind : lines.length + 1 ≤ (requestedBounds range).1 - 1 := by omega
        rw [drop_eq_nil_of_le, drop_eq_nil_of_le]
        · rw [length_take, length_append, length_singleton]
          omega
        · rw [length_take]
          omega

/-- A hunk with more lines around it selects its change with as many more around it. -/
theorem selectedLines_of_shown {layout : Layout} {context : ℕ} {placed : Placed} {hunk : Hunk}
    {content : Slice}
    (side : Side) (bounded : layout.total side < 2 ^ 30) (member : placed ∈ layout.placed context)
    (shown : placed.Shown context hunk) (counted : (Lines.split 10 content.val).length = layout.total side)
    (more : ℕ) :
    selectedLines (.hunk (hunk.start side) (hunk.count side) more more) (Lines.split 10 content.val) =
      placed.span (context + more) side content := by
  obtain ⟨starts, stops⟩ := Layout.span_of_mem side member
  have bounds : requestedBounds (.hunk (hunk.start side) (hunk.count side) more more) =
      (placed.position context side - more + 1,
        min (placed.position context side + placed.count context side + more) (2 ^ 64 - 1)) := by
    have fits : placed.position context side + placed.count context side + 1 ≤ 2 ^ 64 - 1 := by omega
    rw [requestedBounds, (shown side).2, (shown side).1, trueStart]
    generalize 2 ^ 64 - 1 = limit at fits
    split_ifs
    · rw [Prod.mk.injEq]
      omega
    · rw [Prod.mk.injEq]
      omega
  have first : placed.position context side - more = placed.spanStart (context + more) side := by
    rw [Placed.spanStart]
    omega
  rw [selectedLines_eq, bounds, first, Nat.add_sub_cancel, Placed.span]
  congr 2
  rw [take_eq_take_iff, Placed.spanStop, counted]
  omega

/-- Where the change is a hunk by itself at the wider context too, its lines are those that hunk has. -/
theorem span_of_wider {layout : Layout} {width : ℕ} {placed wider : Placed} {side : Side}
    (member : wider ∈ layout.placed width) (preceding : wider.preceding side = placed.preceding side)
    (same : wider.region.lines side = placed.region.lines side) :
    wider.position width side = placed.spanStart width side ∧
      wider.position width side + wider.count width side = placed.spanStop width side
        (layout.total side) := by
  rw [Placed.spanStart, Placed.spanStop, ← preceding, ← same]
  exact Layout.span_of_mem side member

/-- What is at a path of the working tree. -/
inductive WorktreeEntry where
  | symlink
  | file (length : ℕ)
  | other
deriving DecidableEq, Repr

/-- What the repository and the working tree answer while one request is served, each question on its own:
a file may change between two of them. -/
structure ContextReads where
  openRepository : Except FileContextError Unit
  /-- The full text of the object ID that a text spells or abbreviates. -/
  parseOid : String → Option String
  header : String → Except FileContextError (ℕ × Bool)
  findBlob : String → Except FileContextError Slice
  hashObject : Bytes → Except FileContextError String
  validateWorktreePath : Bytes → Except FileContextError Unit
  metadata : Except FileContextError WorktreeEntry
  readLink : Except FileContextError Slice
  /-- What the clean filters make of the file, where the path has any. -/
  cleanFilteredFile : Except FileContextError (Option Slice)
  /-- The file as it is hashed, and then its size, when it is too large. -/
  oversized : Except FileContextError Bytes × Except FileContextError ℕ
  /-- The file as it is opened to be read. -/
  opened : Except FileContextError Slice
  /-- The file as it is hashed, and then its size, when it was read to its limit. -/
  grown : Except FileContextError Bytes × Except FileContextError ℕ

namespace ContextReads

variable (reads : ContextReads) (request : FileContextRequest)

def isZero (id : String) : Bool := id.toList.all (· == '0')

def parseBlobId (blobId : String) : Except FileContextError String :=
  match reads.parseOid blobId with
  | none => .error (.invalidBlobId blobId)
  | some parsed => if parsed ≠ blobId.map Char.toLower then .error (.invalidBlobId blobId) else .ok parsed

def loadBlob (id : String) : Except FileContextError FileContextResponse := do
  let (byteSize, isBlob) ← reads.header id
  if isBlob = false then .error (.blobNotFound id)
  else if request.maxFileSize < byteSize then
    .ok (omitted request id byteSize (.fileTooLarge request.maxFileSize))
  else if request.range = .fullFile ∧ request.maxTotalBytes < byteSize then
    .ok (omitted request id byteSize (.contentBudgetExhausted request.maxTotalBytes))
  else do
    let blob ← reads.findBlob id
    projectLines request id blob

def loadAbsent (blobId id : String) : Except FileContextError FileContextResponse :=
  if isZero id = false then .error (.invalidBlobId blobId) else projectLines request id
    ⟨[], Nat.two_pow_pos 63⟩

def refuseStale (path : Bytes) (expected actual : String) : Except FileContextError Unit :=
  if expected = actual then .ok () else .error (.staleHunkSelection path)

def refuseStaleBytes (path : Bytes) (expected : String) (content : Bytes) :
    Except FileContextError Unit := do
  let actual ← reads.hashObject content
  refuseStale path expected actual

def readBounded (file : Slice) (limit : ℕ) : Slice :=
  ⟨file.val.take (min (limit + 1) (2 ^ 64 - 1)), (length_take_le' _ _).trans_lt file.property⟩

def loadFilteredWorktree (expected : String) (filtered : Slice) :
    Except FileContextError (Option FileContextResponse) := do
  let byteSize := filtered.val.length
  let actual ← reads.hashObject filtered.val
  if actual ≠ expected then .ok none
  else if request.maxFileSize < byteSize then
    .ok (some (omitted request expected byteSize (.fileTooLarge request.maxFileSize)))
  else if request.range = .fullFile ∧ request.maxTotalBytes < byteSize then
    .ok (some (omitted request expected byteSize (.contentBudgetExhausted request.maxTotalBytes)))
  else some <$> projectLines request expected (readBounded filtered request.maxFileSize)

/-- The file as it is on disk, without a filter. -/
def loadRawWorktree (path : Bytes) (expected : String) (length : ℕ) :
    Except FileContextError FileContextResponse := do
  let tooLarge (byteSize : ℕ) := omitted request expected byteSize (.fileTooLarge request.maxFileSize)
  let refused ← (if request.maxFileSize < length then do
      let content ← reads.oversized.1
      reads.refuseStaleBytes path expected content
      let currentSize ← reads.oversized.2
      return if request.maxFileSize < currentSize then some (tooLarge currentSize) else none
    else pure none)
  match refused with
  | some response => .ok response
  | none => do
    let file ← reads.opened
    let content := readBounded file request.maxFileSize
    if request.maxFileSize < content.val.length then do
      let whole ← reads.grown.1
      reads.refuseStaleBytes path expected whole
      let byteSize ← reads.grown.2
      return tooLarge (max byteSize content.val.length)
    else do
      reads.refuseStaleBytes path expected content.val
      projectLines request expected content

def loadWorktree (path : Bytes) (expected : String) : Except FileContextError FileContextResponse := do
  match ← reads.metadata with
  | .symlink => do
    let content ← reads.readLink
    reads.refuseStaleBytes path expected content.val
    if request.maxFileSize < content.val.length then
      .ok (omitted request expected content.val.length (.fileTooLarge request.maxFileSize))
    else projectLines request expected content
  | .other => .error (.staleHunkSelection path)
  | .file length => do
    let response ← (do
      match ← reads.cleanFilteredFile with
      | none => return none
      | some filtered => reads.loadFilteredWorktree request expected filtered)
    match response with
    | some response => .ok response
    | none => reads.loadRawWorktree request path expected length

def load : Except FileContextError FileContextResponse :=
  match request.source with
  | .blob blobId => do
    reads.openRepository
    let id ← reads.parseBlobId blobId
    reads.loadBlob request id
  | .absent blobId => do
    reads.openRepository
    let id ← reads.parseBlobId blobId
    loadAbsent request blobId id
  | .worktree path blobId => do
    reads.validateWorktreePath path
    reads.openRepository
    let id ← reads.parseBlobId blobId
    reads.loadWorktree request path id

/-- The content is the one that a source addresses by its ID. -/
inductive Addresses : FileContextSource → String → Slice → Prop
  | blob {blobId id : String} {content : Slice} (named : reads.parseBlobId blobId = .ok id)
      (found : reads.findBlob id = .ok content) : Addresses (.blob blobId) id content
  | absent {blobId id : String} (named : reads.parseBlobId blobId = .ok id) :
      Addresses (.absent blobId) id ⟨[], Nat.two_pow_pos 63⟩
  | worktree {path : Bytes} {blobId id : String} {content : Slice}
      (named : reads.parseBlobId blobId = .ok id)
      (same : reads.hashObject content.val = .ok id) : Addresses (.worktree path blobId) id content

/-- The header of a blob tells its size. -/
def HeadersTell : Prop := ∀ id byteSize content, reads.header id = .ok (byteSize, true) →
  reads.findBlob id = .ok content → content.val.length = byteSize

/-- A response has all selected lines of a content that is within both budgets, or it has none and
says which budget was exceeded. -/
def AllOrNone (selected : Slice → List (Bytes × ℕ)) (response : FileContextResponse) : Prop :=
  (response.lines = [] ∧ response.startLine = none ∧
    (response.omission = some (.fileTooLarge request.maxFileSize) ∧
      request.maxFileSize < response.byteSize ∨
      response.omission = some (.contentBudgetExhausted request.maxTotalBytes) ∧
        (request.range = .fullFile ∧ request.maxTotalBytes < response.byteSize ∨
          ∃ id content, reads.Addresses request.source id content ∧
            request.maxTotalBytes < byteCount (selected content)))) ∨
  response.omission = none ∧ ∃ id content, reads.Addresses request.source id content ∧
    content.val.length ≤ request.maxFileSize ∧ byteCount (selected content) ≤ request.maxTotalBytes ∧
    response.lines = (selected content).map (contextLine request.side)

/-- A response is a summary for the size of the source or of a whole file, or it is read off the content. -/
inductive Served (response : FileContextResponse) : Prop
  | tooLarge (id : String) (byteSize : ℕ) (exceeds : request.maxFileSize < byteSize)
      (same : response = omitted request id byteSize (.fileTooLarge request.maxFileSize))
  | whole (id : String) (byteSize : ℕ) (full : request.range = .fullFile)
      (exceeds : request.maxTotalBytes < byteSize)
      (same : response = omitted request id byteSize (.contentBudgetExhausted request.maxTotalBytes))
  | projected (id : String) (content : Slice) (addressed : reads.Addresses request.source id content)
      (fits : content.val.length ≤ request.maxFileSize)
      (same : projectLines request id content = .ok response)

end ContextReads

section Load

variable {reads : ContextReads} {request : FileContextRequest} {response : FileContextResponse}
  {path : Bytes} {blobId id : String}

open ContextReads

theorem refuseStaleBytes_eq_ok {content : Bytes} :
    reads.refuseStaleBytes path id content = .ok () ↔ reads.hashObject content = .ok id := by
  rw [refuseStaleBytes, Except.bind_eq_ok]
  constructor
  · rintro ⟨actual, hashed, same⟩
    rw [refuseStale] at same
    split_ifs at same with equal
    rw [hashed, equal]
  · exact fun hashed => ⟨id, hashed, if_pos rfl⟩

theorem served_of_loadBlob (told : reads.HeadersTell) (source : request.source = .blob blobId)
    (named : reads.parseBlobId blobId = .ok id) (loaded : reads.loadBlob request id = .ok response) :
    reads.Served request response := by
  obtain ⟨⟨byteSize, isBlob⟩, header, loaded⟩ := Except.bind_eq_ok.mp loaded
  dsimp only at loaded
  rw [Except.ite_error_eq_ok, Bool.not_eq_false] at loaded
  obtain ⟨rfl, loaded⟩ := loaded
  split_ifs at loaded with large whole
  · exact .tooLarge id byteSize large (Except.ok.inj loaded).symm
  · exact .whole id byteSize whole.1 whole.2 (Except.ok.inj loaded).symm
  · obtain ⟨content, found, projected⟩ := Except.bind_eq_ok.mp loaded
    refine .projected id content (source ▸ .blob named found) ?_ projected
    rw [told id byteSize content header found]
    exact not_lt.mp large

theorem served_of_loadAbsent (source : request.source = .absent blobId)
    (named : reads.parseBlobId blobId = .ok id) (loaded : loadAbsent request blobId id = .ok response) :
    reads.Served request response := by
  rw [loadAbsent, Except.ite_error_eq_ok] at loaded
  exact .projected id _ (source ▸ .absent named) (Nat.zero_le _) loaded.2

theorem served_of_loadFilteredWorktree {filtered : Slice} (source : request.source = .worktree path blobId)
    (named : reads.parseBlobId blobId = .ok id)
    (loaded : reads.loadFilteredWorktree request id filtered = .ok (some response)) :
    reads.Served request response := by
  obtain ⟨actual, hashed, loaded⟩ := Except.bind_eq_ok.mp loaded
  split_ifs at loaded with other large whole
  · cases loaded
  · exact .tooLarge id _ large (Option.some.inj (Except.ok.inj loaded)).symm
  · exact .whole id _ whole.1 whole.2 (Option.some.inj (Except.ok.inj loaded)).symm
  · obtain ⟨_, projected, same⟩ := Except.map_eq_ok.mp loaded
    obtain rfl := Option.some.inj same
    have entire : readBounded filtered request.maxFileSize = filtered := by
      refine Subtype.ext (take_of_length_le ?_)
      have bounded := filtered.property
      omega
    rw [entire] at projected
    rw [not_not] at other
    exact .projected id filtered (source ▸ .worktree named (other ▸ hashed)) (not_lt.mp large) projected

theorem served_of_loadRawWorktree {length : ℕ} (source : request.source = .worktree path blobId)
    (named : reads.parseBlobId blobId = .ok id)
    (loaded : reads.loadRawWorktree request path id length = .ok response) :
      reads.Served request response := by
  obtain ⟨refused, early, loaded⟩ := Except.bind_eq_ok.mp loaded
  cases refused with
  | some early' =>
    obtain rfl := Except.ok.inj loaded
    split_ifs at early
    · obtain ⟨content, -, early⟩ := Except.bind_eq_ok.mp early
      obtain ⟨-, early⟩ := Except.bind_unit_eq_ok.mp early
      obtain ⟨currentSize, -, early⟩ := Except.bind_eq_ok.mp early
      have shown := Except.ok.inj early
      split_ifs at shown with large
      exact .tooLarge id currentSize large (Option.some.inj shown).symm
    · cases early
  | none =>
    obtain ⟨file, -, loaded⟩ := Except.bind_eq_ok.mp loaded
    dsimp only at loaded
    split_ifs at loaded with large
    · obtain ⟨whole, -, loaded⟩ := Except.bind_eq_ok.mp loaded
      obtain ⟨-, loaded⟩ := Except.bind_unit_eq_ok.mp loaded
      obtain ⟨byteSize, -, loaded⟩ := Except.bind_eq_ok.mp loaded
      exact .tooLarge id _ (lt_max_of_lt_right large) (Except.ok.inj loaded).symm
    · obtain ⟨same, projected⟩ := Except.bind_unit_eq_ok.mp loaded
      have hashed := refuseStaleBytes_eq_ok.mp same
      exact .projected id _ (source ▸ .worktree named hashed) (not_lt.mp large) projected

theorem served_of_loadWorktree (source : request.source = .worktree path blobId)
    (named : reads.parseBlobId blobId = .ok id)
    (loaded : reads.loadWorktree request path id = .ok response) :
    reads.Served request response := by
  obtain ⟨entry, -, loaded⟩ := Except.bind_eq_ok.mp loaded
  cases entry with
  | symlink =>
    obtain ⟨content, -, loaded⟩ := Except.bind_eq_ok.mp loaded
    obtain ⟨same, loaded⟩ := Except.bind_unit_eq_ok.mp loaded
    split_ifs at loaded with large
    · exact .tooLarge id _ large (Except.ok.inj loaded).symm
    · have hashed := refuseStaleBytes_eq_ok.mp same
      exact .projected id content (source ▸ .worktree named hashed) (not_lt.mp large) loaded
  | other => cases loaded
  | file length =>
    obtain ⟨early, filtering, loaded⟩ := Except.bind_eq_ok.mp loaded
    cases early with
    | some early =>
      obtain rfl := Except.ok.inj loaded
      obtain ⟨filtered, -, filtering⟩ := Except.bind_eq_ok.mp filtering
      cases filtered with
      | none => cases filtering
      | some filtered => exact served_of_loadFilteredWorktree source named filtering
    | none => exact served_of_loadRawWorktree source named loaded

theorem served_of_load (told : reads.HeadersTell) (loaded : reads.load request = .ok response) :
    reads.Served request response := by
  unfold load at loaded
  split at loaded
  · next source =>
    obtain ⟨-, loaded⟩ := Except.bind_unit_eq_ok.mp loaded
    obtain ⟨id, named, loaded⟩ := Except.bind_eq_ok.mp loaded
    exact served_of_loadBlob told source named loaded
  · next source =>
    obtain ⟨-, loaded⟩ := Except.bind_unit_eq_ok.mp loaded
    obtain ⟨id, named, loaded⟩ := Except.bind_eq_ok.mp loaded
    exact served_of_loadAbsent source named loaded
  · next source =>
    obtain ⟨-, loaded⟩ := Except.bind_unit_eq_ok.mp loaded
    obtain ⟨-, loaded⟩ := Except.bind_unit_eq_ok.mp loaded
    obtain ⟨id, named, loaded⟩ := Except.bind_eq_ok.mp loaded
    exact served_of_loadWorktree source named loaded

/-- What is read off a content is complete or withheld. -/
theorem allOrNone_of_load (told : reads.HeadersTell) (loaded : reads.load request = .ok response) :
    reads.AllOrNone request (fun content => selectedLines request.range (Lines.split 10 content.val))
      response := by
  cases served_of_load told loaded with
  | tooLarge id byteSize exceeds same =>
    rw [same]
    exact .inl ⟨rfl, rfl, .inl ⟨rfl, exceeds⟩⟩
  | whole id byteSize full exceeds same =>
    rw [same]
    exact .inl ⟨rfl, rfl, .inr ⟨rfl, .inl ⟨full, exceeds⟩⟩⟩
  | projected id content addressed fits same =>
    rw [projectLines_eq] at same
    dsimp only at same
    split_ifs at same with whole many exceeds
    · obtain rfl := Except.ok.inj same
      exact .inl ⟨rfl, rfl, .inr ⟨rfl, .inl whole⟩⟩
    · obtain rfl := Except.ok.inj same
      exact .inl ⟨rfl, rfl, .inr ⟨rfl, .inr ⟨id, content, addressed, exceeds⟩⟩⟩
    · obtain rfl := Except.ok.inj same
      exact .inr ⟨rfl, id, content, addressed, fits, not_lt.mp exceeds, rfl⟩

theorem ContextReads.AllOrNone.congr {selected other : Slice → List (Bytes × ℕ)}
    (each : reads.AllOrNone request selected response)
    (same : ∀ id content, reads.Addresses request.source id content → selected content = other content) :
    reads.AllOrNone request other response := by
  rcases each with ⟨none, start, large | ⟨exhausted, whole | ⟨id, content, addressed, exceeds⟩⟩⟩ |
    ⟨none, id, content, addressed, fits, within, lines⟩
  · exact .inl ⟨none, start, .inl large⟩
  · exact .inl ⟨none, start, .inr ⟨exhausted, .inl whole⟩⟩
  · exact .inl ⟨none, start, .inr ⟨exhausted,
      .inr ⟨id, content, addressed, same id content addressed ▸ exceeds⟩⟩⟩
  · rw [same id content addressed] at within lines
    exact .inr ⟨none, id, content, addressed, fits, within, lines⟩

end Load

/-- A hunk that was formed with some lines of context and is expanded by more shows its change as it is with
all of these around it, where the content has them; and whatever is loaded is complete or withheld. -/
theorem expanded_hunk {layout : Layout} {context : ℕ} {hunks : List Hunk} (diff : layout.Diff context hunks)
    {hunk : Hunk} (member : hunk ∈ hunks) (file : TargetedFile) (side : Side)
    (more maxFileSize maxTotalBytes : ℕ) :
    let request := ((FileContextRequest.forHunk file hunk side more more).withMaxFileSize
      maxFileSize).withMaxTotalBytes maxTotalBytes
    (∃ placed ∈ layout.placed context, placed.Shown context hunk ∧
      (∀ wider ∈ layout.placed (context + more), wider.preceding = placed.preceding →
        wider.region.lines = placed.region.lines →
        wider.position (context + more) side = placed.spanStart (context + more) side ∧
          wider.position (context + more) side + wider.count (context + more) side =
            placed.spanStop (context + more) side (layout.total side)) ∧
      (∀ id content, (Lines.split 10 content.val).length = layout.total side →
        projectLines request id content = .ok
          (if maxTotalBytes < byteCount (placed.span (context + more) side content) then
            ⟨id, side, request.range, content.val.length, some (layout.total side), none, [],
              some (.contentBudgetExhausted maxTotalBytes)⟩
          else ⟨id, side, request.range, content.val.length, some (layout.total side),
            (placed.span (context + more) side content).head?.map Prod.snd,
            (placed.span (context + more) side content).map (contextLine side), none⟩)) ∧
      ∀ (reads : ContextReads) (response : FileContextResponse), reads.HeadersTell →
        (∀ id content, reads.Addresses request.source id content →
          (Lines.split 10 content.val).length = layout.total side) →
        reads.load request = .ok response →
        reads.AllOrNone request (placed.span (context + more) side) response) ∧
    ∀ (reads : ContextReads) (request : FileContextRequest) (response : FileContextResponse),
      reads.HeadersTell →
      reads.load request = .ok response →
      reads.AllOrNone request (fun content => selectedLines request.range (Lines.split 10 content.val))
        response := by
  intro request
  refine ⟨?_, fun reads request response told => allOrNone_of_load told⟩
  obtain ⟨placed, inside, shown⟩ := diff.hunk_of_mem member
  obtain ⟨sameSide, range⟩ := FileContextRequest.fromFile_parts file side
    (.hunk (hunk.start side) (hunk.count side) more more)
  have requested : request.range = .hunk (hunk.start side) (hunk.count side) more more := range
  have onSide : request.side = side := sameSide
  have selected (content : Slice) (counted : (Lines.split 10 content.val).length = layout.total side) :
      selectedLines request.range (Lines.split 10 content.val) = placed.span (context + more)
        side content := by
    rw [requested]
    exact selectedLines_of_shown side (diff.bounded side) inside shown counted more
  refine ⟨placed, inside, shown, fun wider member preceding lines => ?_, fun id content counted => ?_,
    fun reads response told counted loaded => ?_⟩
  · exact span_of_wider member (congrFun preceding side) (congrFun lines side)
  · have few := diff.bounded side
    have ranged : ¬ (request.range = .fullFile ∧ maxTotalBytes < content.val.length) := by
      rw [requested]
      exact fun whole => nomatch whole.1
    have numbered : ¬ 2 ^ 32 ≤ layout.total side := by omega
    rw [projectLines_eq]
    dsimp only
    rw [selected content counted, counted, onSide]
    refine (if_neg ranged).trans ((if_neg numbered).trans ?_)
    exact (apply_ite Except.ok _ _ _).symm
  · exact (allOrNone_of_load told loaded).congr fun id content addressed =>
      selected content (counted id content addressed)

/-- Around a line that was added behind the second of three, one more on either side of the old content. -/
theorem expanded_hunk_inserted :
    (projectLines (FileContextRequest.forHunk
      ⟨⟨some [97], some [97], "1", "2", 0o100644, 0o100644⟩, .staged⟩
      ⟨2, 0, 3, 1, []⟩ .old 1 1) "1" ⟨[97, 10, 98, 10, 99], by decide⟩).map FileContextResponse.lines =
      .ok [⟨.context, some 2, none, [98, 10]⟩, ⟨.context, some 3, none, [99]⟩] := by
  have diff : Layout.Diff ⟨[⟨2, 0, 1⟩], 1⟩ 0 [⟨2, 0, 3, 1, []⟩] :=
    Layout.diff_outline (by rintro (_ | _) <;> decide : ∀ side,
      Layout.total ⟨[⟨2, 0, 1⟩], 1⟩ side < 2 ^ 30) 0
  obtain ⟨⟨placed, inside, -, -, projected, -⟩, -⟩ := expanded_hunk diff mem_cons_self
    ⟨⟨some [97], some [97], "1", "2", 0o100644, 0o100644⟩, .staged⟩ .old 1 defaultMaxDiffFileSize
    defaultMaxDiffTotalBytes
  obtain rfl := mem_singleton.mp inside
  have shown := projected "1" ⟨[97, 10, 98, 10, 99], by decide⟩ (by decide)
  rw [if_neg (by decide)] at shown
  exact congrArg (Except.map FileContextResponse.lines) shown

end Harkness.Git
