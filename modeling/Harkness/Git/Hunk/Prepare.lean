import Harkness.Git.Hunk.Remap
import Harkness.Git.Hunk.Width
import Harkness.Git.Status
import Harkness.ToMathlib.Except

/-! # Selections against a fresh diff

Every selection is looked up in a diff that was computed anew with the context width it was taken at.
The hunks found are collected file by file, each once, and two that collide on either side are refused
before anything is written. Those of one diff never collide; taken at different widths, they do as soon
as they have a line in common.
-/

namespace Harkness.Git

open List Status

/-- What a batch of hunks is applied to. -/
inductive ApplyTarget where
  | index
  | worktree
deriving DecidableEq, Repr

/-- What is read of a file's fresh diff. -/
structure CurrentFile extends DiffedFile where
  change : FileChange
  binary : Bool
deriving DecidableEq

/-- Why a batch is not prepared. -/
inductive PrepareError where
  | cancelled
  | diff (reason : String)
  | staleHunkSelection (path : Bytes)
  | unmergedDiscard (path : Bytes)
  | untrackedDiscardRequiresDelete (path : Bytes)
  | unsupportedHunkChange (path : Bytes) (change : FileChange)
  | binaryHunkSelection (path : Bytes)
  | renameOnlyHunkSelection (oldPath newPath : Bytes)
  | metadataOnlyHunkSelection (path : Bytes) (oldMode newMode : ℕ)
  | hunkNotFound (path : Bytes) (oldStart oldLines newStart newLines : ℕ)
  | overlappingHunkSelection (path : Bytes)
deriving DecidableEq

/-- Which contents of which paths a record or a selection is about. -/
abbrev Contents := (Option Bytes × Option Bytes) × String × String

def FileDiff.contents (file : FileDiff) : Contents :=
  ((file.oldPath, file.newPath), file.oldBlobId, file.newBlobId)

def HunkSelection.contents (selection : HunkSelection) : Contents :=
  ((selection.oldPath, selection.newPath), selection.oldBlobId, selection.newBlobId)

/-- Names a record that has no hunk an apply can express. -/
def refuseUnsupported (file : CurrentFile) (applyTarget : ApplyTarget) : Except PrepareError Unit :=
  let path := displayPath file.newPath file.oldPath
  if applyTarget = .worktree ∧ file.change = .unmerged then .error (.unmergedDiscard path)
  else if applyTarget = .worktree ∧ file.change = .untracked then
    .error (.untrackedDiscardRequiresDelete path)
  else if file.change ∉ [.added, .modified, .deleted, .renamed, .untracked] then
    .error (.unsupportedHunkChange path file.change)
  else if file.binary then .error (.binaryHunkSelection path)
  else if file.hunks ≠ [] then .ok ()
  else if file.change = .renamed then
    .error (.renameOnlyHunkSelection (file.oldPath.getD []) (file.newPath.getD []))
  else .error (.metadataOnlyHunkSelection path file.oldMode file.newMode)

/-- Whether two half-open line ranges on one side of a patch collide. -/
def rangesIntersect (start lines otherStart otherLines : ℕ) : Bool :=
  let stop := min (start + max lines 1) (2 ^ 32 - 1)
  let otherStop := min (otherStart + max otherLines 1) (2 ^ 32 - 1)
  start < otherStop && otherStart < stop

def collide (hunk other : Hunk) : Bool :=
  rangesIntersect hunk.oldStart hunk.oldLines other.oldStart other.oldLines ||
    rangesIntersect hunk.newStart hunk.newLines other.newStart other.newLines

/-- Whether a hunk of the list collides with a later one. -/
def anyCollide : List PreparedHunk → Bool
  | [] => false
  | prepared :: others =>
    others.any (fun other => collide prepared.hunk other.hunk) || anyCollide others

/-- Refuses two selections for one file whose line ranges intersect. -/
def refuseOverlaps : List PreparedFile → Except PrepareError Unit
  | [] => .ok ()
  | entry :: rest =>
    if anyCollide entry.hunks then .error (.overlappingHunkSelection entry.path) else refuseOverlaps rest

section Prepare

variable (compute : ℕ → Except String (List CurrentFile)) (cancelled : ℕ → Bool) (applyTarget : ApplyTarget)

/-- The fresh diffs, one for each width; `poll` counts how often the cancellation was read before. -/
def computeAll (poll : ℕ) : List ℕ → Except PrepareError (List (ℕ × List CurrentFile))
  | [] => .ok []
  | context :: rest =>
    if cancelled poll then .error .cancelled
    else do
      let files ← (compute context).mapError .diff
      let later ← computeAll (poll + 1) rest
      return (context, files) :: later

/-- The record that a selection names. -/
def CurrentFile.namedIn (files : List CurrentFile) (selection : HunkSelection) : Option CurrentFile :=
  files.find? fun file => file.oldPath == selection.oldPath && file.newPath == selection.newPath

/-- The record and the hunk that a selection names. -/
def resolveSelection (current : List (ℕ × List CurrentFile)) (selection : HunkSelection) :
    Except PrepareError (CurrentFile × Hunk) :=
  let path := displayPath selection.newPath selection.oldPath
  let found := (current.find? fun entry => entry.1 == selection.contextLines).bind fun entry =>
    CurrentFile.namedIn entry.2 selection
  match found with
  | none => .error (.staleHunkSelection path)
  | some file =>
    if file.oldBlobId ≠ selection.oldBlobId ∨ file.newBlobId ≠ selection.newBlobId then
      .error (.staleHunkSelection path)
    else do
      refuseUnsupported file applyTarget
      match file.hunks.find? (coordinatesMatch selection) with
      | none => .error (.hunkNotFound path selection.oldStart selection.oldLines selection.newStart
          selection.newLines)
      | some hunk => return (file, hunk)

/-- Puts a hunk to the others of its file, unless it is among them. -/
@[simp] def addHunk (file : CurrentFile) (hunk : Hunk) : List PreparedFile → List PreparedFile
  | [] => [⟨file.toFileDiff, [⟨hunk, none⟩]⟩]
  | entry :: rest =>
    if entry.file.contents = file.contents then
      (if entry.hunks.any fun existing => existing.hunk == hunk then entry
        else { entry with hunks := entry.hunks ++ [⟨hunk, none⟩] }) :: rest
    else entry :: addHunk file hunk rest

def collectHunks (current : List (ℕ × List CurrentFile)) (poll : ℕ) :
    List HunkSelection → List PreparedFile → Except PrepareError (List PreparedFile)
  | [], prepared => .ok prepared
  | selection :: rest, prepared =>
    if cancelled poll then .error .cancelled
    else do
      let (file, hunk) ← resolveSelection applyTarget current selection
      collectHunks current (poll + 1) rest (addHunk file hunk prepared)

/-- Revalidates every selection against a freshly computed diff. -/
def prepare (selections : List HunkSelection) : Except PrepareError (List PreparedFile) := do
  let contexts := ((selections.map HunkSelection.contextLines).mergeSort (· ≤ ·)).dedup
  let current ← computeAll compute cancelled 0 contexts
  let prepared ← collectHunks cancelled applyTarget current contexts.length selections []
  refuseOverlaps prepared
  return prepared

end Prepare

/-- The hunk has this line of the side. -/
def Hunk.Covers (hunk : Hunk) (side : Side) (line : ℕ) : Prop :=
  hunk.start side ≤ line ∧ line < hunk.start side + hunk.count side

/-- The hunk is one of a diff at some context width. -/
def Hunk.Shown (hunk : Hunk) : Prop :=
  ∃ (layout : Layout) (context : ℕ) (hunks : List Hunk), layout.Diff context hunks ∧ hunk ∈ hunks

/-- The hunks do not collide. -/
def Hunk.Apart (hunk other : Hunk) : Prop := collide hunk other = false

instance : Std.Symm Hunk.Apart where
  symm first second apart := by
    rw [Hunk.Apart, ← apart]
    simp only [collide, rangesIntersect, Bool.and_comm]

theorem anyCollide_eq_false {hunks : List PreparedHunk} :
    anyCollide hunks = false ↔ (hunks.map PreparedHunk.hunk).Pairwise Hunk.Apart := by
  induction hunks with
  | nil => exact iff_of_true rfl .nil
  | cons first others ih =>
    rw [anyCollide, Bool.or_eq_false_iff, any_eq_false, ih, map_cons, pairwise_cons, forall_mem_map]
    simp only [Bool.not_eq_true, Hunk.Apart]

theorem refuseOverlaps_eq_ok {prepared : List PreparedFile} :
    refuseOverlaps prepared = .ok () ↔ ∀ entry ∈ prepared, anyCollide entry.hunks = false := by
  induction prepared with
  | nil => exact iff_of_true rfl nofun
  | cons entry rest ih => rw [refuseOverlaps, Except.ite_error_eq_ok, ih, forall_mem_cons, Bool.not_eq_true]

theorem refuseOverlaps_cases (prepared : List PreparedFile) : refuseOverlaps prepared = .ok () ∨
    ∃ entry ∈ prepared, refuseOverlaps prepared = .error (.overlappingHunkSelection entry.path) := by
  induction prepared with
  | nil => exact .inl rfl
  | cons entry rest ih =>
    rw [refuseOverlaps]
    split_ifs
    · exact .inr ⟨entry, mem_cons_self, rfl⟩
    · exact ih.imp_right fun ⟨other, member, refused⟩ => ⟨other, mem_cons_of_mem _ member, refused⟩

/-- Where a side is at most a gibibyte, no end of a hunk saturates. -/
private theorem Hunk.Shown.stop_lt {hunk : Hunk} (shown : hunk.Shown) (side : Side) :
    hunk.start side + max (hunk.count side) 1 < 2 ^ 32 - 1 := by
  obtain ⟨layout, context, hunks, diff, member⟩ := shown
  obtain ⟨placed, inside, formed⟩ := diff.hunk_of_mem member
  have bounded := diff.bounded side
  have span := (Layout.span_of_mem side inside).2
  rw [(formed side).2, (formed side).1, trueStart]
  split_ifs <;> omega

private theorem rangesIntersect_iff {start lines otherStart otherLines : ℕ}
    (fits : start + max lines 1 < 2 ^ 32 - 1) (fits' : otherStart + max otherLines 1 < 2 ^ 32 - 1) :
    rangesIntersect start lines otherStart otherLines = true ↔
      start < otherStart + max otherLines 1 ∧ otherStart < start + max lines 1 := by
  rw [rangesIntersect, min_eq_left fits.le, min_eq_left fits'.le, Bool.and_eq_true, decide_eq_true_eq,
    decide_eq_true_eq]

theorem collide_iff {hunk other : Hunk} (shown : hunk.Shown) (shown' : other.Shown) :
    collide hunk other = true ↔ ∃ side, hunk.start side < other.start side + max (other.count side) 1 ∧
      other.start side < hunk.start side + max (hunk.count side) 1 := by
  have meets (side : Side) := rangesIntersect_iff (shown.stop_lt side) (shown'.stop_lt side)
  rw [collide, Bool.or_eq_true]
  constructor
  · exact fun either => either.elim (fun old => ⟨.old, (meets .old).mp old⟩)
      fun new => ⟨.new, (meets .new).mp new⟩
  · rintro ⟨_ | _, crossing⟩
    · exact .inl ((meets .old).mpr crossing)
    · exact .inr ((meets .new).mpr crossing)

/-- Hunks with a line in common collide. -/
theorem collide_of_covers {hunk other : Hunk} (shown : hunk.Shown) (shown' : other.Shown) {side : Side}
    {line : ℕ} (covers : hunk.Covers side line) (covers' : other.Covers side line) :
    collide hunk other = true := by
  refine (collide_iff shown shown').mpr ⟨side, ?_, ?_⟩
  · exact covers.1.trans_lt (covers'.2.trans_le (by omega))
  · exact covers'.1.trans_lt (covers.2.trans_le (by omega))

/-- Two hunks of one diff do not collide: a position without lines counts as the line it is behind, which
neither has. -/
theorem Layout.Diff.hunks_apart {layout : Layout} {context : ℕ} {hunks : List Hunk}
    (diff : layout.Diff context hunks) : hunks.Pairwise Hunk.Apart := by
  refine diff.apart.imp_of_mem fun {first second} here there precedes => ?_
  refine Bool.eq_false_iff.mpr fun collides => ?_
  obtain ⟨side, -, behind⟩ := (collide_iff ⟨_, _, _, diff, here⟩ ⟨_, _, _, diff, there⟩).mp collides
  obtain ⟨placed, -, formed⟩ := diff.hunk_of_mem here
  obtain ⟨placed', -, formed'⟩ := diff.hunk_of_mem there
  have order := precedes side
  rw [Hunk.Precedes, formed.position_eq, formed'.position_eq, (formed side).1] at order
  rw [(formed side).2, (formed side).1, (formed' side).2, trueStart, trueStart] at behind
  split_ifs at behind <;> omega

section Collect

variable {compute : ℕ → Except String (List CurrentFile)} {cancelled : ℕ → Bool} {applyTarget : ApplyTarget}
  {current : List (ℕ × List CurrentFile)} {selection : HunkSelection} {selections : List HunkSelection}
  {prepared collected : List PreparedFile} {file : CurrentFile} {hunk : Hunk} {poll : ℕ}

/-- The selection names this hunk in the fresh diff of its width. -/
def Requested (compute : ℕ → Except String (List CurrentFile)) (selection : HunkSelection) (hunk : Hunk) :
    Prop :=
  ∃ files file, compute selection.contextLines = .ok files ∧
    CurrentFile.namedIn files selection = some file ∧
    file.contents = selection.contents ∧ file.hunks.find? (coordinatesMatch selection) = some hunk

theorem computeAll_eq_ok {contexts : List ℕ}
    (computed : computeAll compute cancelled poll contexts = .ok current) :
    current.map Prod.fst = contexts ∧ ∀ entry ∈ current, compute entry.1 = .ok entry.2 := by
  induction contexts generalizing poll current with
  | nil =>
    obtain rfl := Except.ok.inj computed
    exact ⟨rfl, nofun⟩
  | cons context rest ih =>
    rw [computeAll, Except.ite_error_eq_ok] at computed
    obtain ⟨files, found, computed⟩ := Except.bind_eq_ok.mp computed.2
    obtain ⟨later, others, computed⟩ := Except.bind_eq_ok.mp computed
    obtain rfl := Except.ok.inj computed
    obtain ⟨same, each⟩ := ih others
    exact ⟨by rw [map_cons, same], forall_mem_cons.mpr ⟨Except.mapError_eq_ok.mp found, each⟩⟩

theorem resolveSelection_eq_ok (each : ∀ entry ∈ current, compute entry.1 = .ok entry.2)
    (resolved : resolveSelection applyTarget current selection = .ok (file, hunk)) :
    Requested compute selection hunk ∧ file.contents = selection.contents := by
  unfold resolveSelection at resolved
  dsimp only at resolved
  split at resolved
  · cases resolved
  · next found named =>
    obtain ⟨entry, listed, named⟩ := Option.bind_eq_some_iff.mp named
    rw [Except.ite_error_eq_ok] at resolved
    obtain ⟨fresh, resolved⟩ := resolved
    rw [not_or, not_not, not_not] at fresh
    obtain ⟨-, resolved⟩ := Except.bind_unit_eq_ok.mp resolved
    split at resolved
    · cases resolved
    · next shown there =>
      obtain ⟨rfl, rfl⟩ := Prod.mk.inj (Except.ok.inj resolved)
      have width := find?_some listed
      rw [beq_iff_eq] at width
      have paths := find?_some named
      rw [Bool.and_eq_true, beq_iff_eq, beq_iff_eq] at paths
      have contents : found.contents = selection.contents := by
        rw [FileDiff.contents, HunkSelection.contents, paths.1, paths.2, fresh.1, fresh.2]
      exact ⟨⟨entry.2, found, width ▸ each entry (mem_of_find?_eq_some listed), named, contents,
        there⟩, contents⟩

theorem Requested.unique {other : Hunk} (requested : Requested compute selection hunk)
    (requested' : Requested compute selection other) : hunk = other := by
  obtain ⟨files, file, found, named, -, there⟩ := requested
  obtain ⟨files', file', found', named', -, there'⟩ := requested'
  obtain rfl := Except.ok.inj (found.symm.trans found')
  obtain rfl := Option.some.inj (named.symm.trans named')
  exact Option.some.inj (there.symm.trans there')

theorem keys_addHunk : (addHunk file hunk prepared).map (fun entry => entry.file.contents) =
    if file.contents ∈ prepared.map fun entry => entry.file.contents then
      prepared.map fun entry => entry.file.contents
    else (prepared.map fun entry => entry.file.contents) ++ [file.contents] := by
  induction prepared with
  | nil => rfl
  | cons entry rest ih =>
    rw [addHunk]
    by_cases same : entry.file.contents = file.contents
    · have known : file.contents ∈ (entry :: rest).map fun entry => entry.file.contents := by
        rw [map_cons, same]
        exact mem_cons_self
      rw [if_pos same, if_pos known]
      split_ifs <;> rfl
    · simp only [if_neg same, map_cons, ih, mem_cons, Ne.symm same, false_or]
      split_ifs <;> rfl

/-- An entry afterwards is one from before, or it is the file's, with the hunk behind those it had. -/
theorem mem_addHunk {entry : PreparedFile} (member : entry ∈ addHunk file hunk prepared) :
    entry ∈ prepared ∨ entry.file.contents = file.contents ∧ ∃ earlier : List PreparedHunk,
      entry.hunks = earlier ++ [⟨hunk, none⟩] ∧ hunk ∉ earlier.map PreparedHunk.hunk ∧
        (earlier = [] ∨ ∃ old ∈ prepared, old.file = entry.file ∧ old.hunks = earlier) := by
  induction prepared with
  | nil =>
    rw [mem_singleton.mp member]
    exact .inr ⟨rfl, [], rfl, not_mem_nil, .inl rfl⟩
  | cons first rest ih =>
    rw [addHunk] at member
    split_ifs at member with same there
    · exact .inl member
    · rcases mem_cons.mp member with rfl | behind
      · refine .inr ⟨same, first.hunks, rfl, fun among => there ?_, .inr ⟨first, mem_cons_self, rfl, rfl⟩⟩
        obtain ⟨existing, inside, rfl⟩ := mem_map.mp among
        exact any_eq_true.mpr ⟨existing, inside, beq_self_eq_true _⟩
      · exact .inl (mem_cons_of_mem _ behind)
    · rcases mem_cons.mp member with rfl | behind
      · exact .inl mem_cons_self
      · rcases ih behind with old | ⟨contents, earlier, hunks, new, from_⟩
        · exact .inl (mem_cons_of_mem _ old)
        · exact .inr ⟨contents, earlier, hunks, new, from_.imp_right fun ⟨old, inside, parts⟩ =>
            ⟨old, mem_cons_of_mem _ inside, parts⟩⟩

/-- The hunk is with its file. -/
theorem exists_mem_addHunk (file : CurrentFile) (hunk : Hunk) (prepared : List PreparedFile) :
    ∃ entry ∈ addHunk file hunk prepared, entry.file.contents = file.contents ∧
      hunk ∈ entry.hunks.map PreparedHunk.hunk := by
  induction prepared with
  | nil => exact ⟨_, mem_cons_self, rfl, mem_cons_self⟩
  | cons first rest ih =>
    rw [addHunk]
    split_ifs with same there
    · obtain ⟨existing, inside, found⟩ := any_eq_true.mp there
      rw [beq_iff_eq] at found
      exact ⟨first, mem_cons_self, same, mem_map.mpr ⟨existing, inside, found⟩⟩
    · refine ⟨_, mem_cons_self, same, ?_⟩
      rw [map_append]
      exact mem_append_right _ mem_cons_self
    · obtain ⟨entry, inside, parts⟩ := ih
      exact ⟨entry, mem_cons_of_mem _ inside, parts⟩

/-- No hunk is lost to another. -/
theorem keeps_addHunk (file : CurrentFile) (hunk : Hunk) {entry : PreparedFile}
    (member : entry ∈ prepared) :
    ∃ later ∈ addHunk file hunk prepared, later.file = entry.file ∧ entry.hunks ⊆ later.hunks := by
  induction prepared with
  | nil => cases member
  | cons first rest ih =>
    rw [addHunk]
    rcases mem_cons.mp member with rfl | behind
    · split_ifs
      · exact ⟨entry, mem_cons_self, rfl, Subset.refl _⟩
      · exact ⟨_, mem_cons_self, rfl, subset_append_left _ _⟩
      · exact ⟨entry, mem_cons_self, rfl, Subset.refl _⟩
    · split_ifs
      · exact ⟨entry, mem_cons_of_mem _ behind, rfl, Subset.refl _⟩
      · exact ⟨entry, mem_cons_of_mem _ behind, rfl, Subset.refl _⟩
      · obtain ⟨later, inside, parts⟩ := ih behind
        exact ⟨later, mem_cons_of_mem _ inside, parts⟩

/-- What has been collected for the selections so far: an entry for each of their contents, with the
distinct hunks they name. -/
structure Collected (compute : ℕ → Except String (List CurrentFile)) (done : List HunkSelection)
    (prepared : List PreparedFile) : Prop where
  keys : (prepared.map fun entry => entry.file.contents).Nodup
  distinct : ∀ entry ∈ prepared, (entry.hunks.map PreparedHunk.hunk).Nodup
  named : ∀ entry ∈ prepared, ∀ hunk ∈ entry.hunks.map PreparedHunk.hunk, ∃ selection ∈ done,
    selection.contents = entry.file.contents ∧ Requested compute selection hunk
  complete : ∀ selection ∈ done, ∀ hunk, Requested compute selection hunk → ∃ entry ∈ prepared,
    entry.file.contents = selection.contents ∧ hunk ∈ entry.hunks.map PreparedHunk.hunk

theorem Collected.add (gathered : Collected compute selections prepared)
    (requested : Requested compute selection hunk) (contents : file.contents = selection.contents) :
    Collected compute (selections ++ [selection]) (addHunk file hunk prepared) where
  keys := by
    rw [keys_addHunk]
    split_ifs with known
    · exact gathered.keys
    · exact nodup_append.mpr ⟨gathered.keys, nodup_singleton _, fun key inside other last same =>
        known (same.trans (mem_singleton.mp last) ▸ inside)⟩
  distinct entry member := by
    rcases mem_addHunk member with old | ⟨-, earlier, hunks, new, from_⟩
    · exact gathered.distinct entry old
    · have before : (earlier.map PreparedHunk.hunk).Nodup := by
        rcases from_ with rfl | ⟨old, inside, -, rfl⟩
        · exact nodup_nil
        · exact gathered.distinct old inside
      rw [hunks, map_append, map_singleton]
      exact nodup_append.mpr ⟨before, nodup_singleton _, fun existing inside other last same =>
        new ((same.trans (mem_singleton.mp last) : existing = hunk) ▸ inside)⟩
  named entry member existing among := by
    have kept : ∀ old ∈ prepared, old.file = entry.file → existing ∈ old.hunks.map PreparedHunk.hunk →
        ∃ named ∈ selections ++ [selection], named.contents = entry.file.contents ∧
          Requested compute named existing := by
      intro old inside same among
      obtain ⟨named, earlier, parts⟩ := gathered.named old inside existing among
      exact ⟨named, mem_append_left _ earlier, same ▸ parts⟩
    rcases mem_addHunk member with old | ⟨same, earlier, hunks, -, from_⟩
    · exact kept entry old rfl among
    · rw [hunks, map_append, mem_append, map_singleton, mem_singleton] at among
      rcases among with before | rfl
      · rcases from_ with rfl | ⟨old, inside, file, rfl⟩
        · cases before
        · exact kept old inside file before
      · exact ⟨selection, mem_append_right _ mem_cons_self, contents.symm.trans same.symm, requested⟩
  complete other member existing requested' := by
    rcases mem_append.mp member with earlier | last
    · obtain ⟨entry, inside, same, among⟩ := gathered.complete other earlier existing requested'
      obtain ⟨later, inside, file, more⟩ := keeps_addHunk file hunk inside
      exact ⟨later, inside, by rw [file, same], map_subset _ more among⟩
    · rw [mem_singleton.mp last] at requested' ⊢
      obtain rfl := requested.unique requested'
      obtain ⟨entry, inside, same, among⟩ := exists_mem_addHunk file hunk prepared
      exact ⟨entry, inside, same.trans contents, among⟩

theorem Collected.nil : Collected compute [] [] :=
  ⟨nodup_nil, fun _ member => absurd member not_mem_nil, fun _ member => absurd member not_mem_nil,
    fun _ member => absurd member not_mem_nil⟩

theorem collected_of_collectHunks {done : List HunkSelection}
    (each : ∀ entry ∈ current, compute entry.1 = .ok entry.2)
    (collects : collectHunks cancelled applyTarget current poll selections prepared = .ok collected)
    (gathered : Collected compute done prepared) : Collected compute (done ++ selections) collected := by
  induction selections generalizing poll prepared done with
  | nil =>
    obtain rfl := Except.ok.inj collects
    rwa [append_nil]
  | cons selection rest ih =>
    rw [collectHunks, Except.ite_error_eq_ok] at collects
    obtain ⟨⟨file, hunk⟩, resolved, collects⟩ := Except.bind_eq_ok.mp collects.2
    obtain ⟨requested, contents⟩ := resolveSelection_eq_ok each resolved
    have whole := ih collects (gathered.add requested contents)
    rwa [append_assoc] at whole

private theorem refuseUnsupported_ne {path : Bytes} :
    refuseUnsupported file applyTarget ≠ .error (.overlappingHunkSelection path) := by
  unfold refuseUnsupported
  dsimp only
  split_ifs <;> nofun

private theorem resolveSelection_ne {path : Bytes} :
    resolveSelection applyTarget current selection ≠ .error (.overlappingHunkSelection path) := by
  unfold resolveSelection
  dsimp only
  split
  · nofun
  · rw [ne_eq, Except.ite_error_eq_error, not_or, not_and, not_and]
    refine ⟨nofun, fun _ refused => ?_⟩
    rcases Except.bind_eq_error.mp refused with unsupported | ⟨_, -, missing⟩
    · exact refuseUnsupported_ne unsupported
    · split at missing <;> cases missing

private theorem computeAll_ne {contexts : List ℕ} {path : Bytes} :
    computeAll compute cancelled poll contexts ≠ .error (.overlappingHunkSelection path) := by
  induction contexts generalizing poll with
  | nil => nofun
  | cons context rest ih =>
    rw [computeAll, ne_eq, Except.ite_error_eq_error, not_or, not_and, not_and]
    refine ⟨nofun, fun _ refused => ?_⟩
    rcases Except.bind_eq_error.mp refused with reason | ⟨files, -, refused⟩
    · obtain ⟨_, -, other⟩ := Except.mapError_eq_error.mp reason
      cases other
    · rcases Except.bind_eq_error.mp refused with later | ⟨entries, -, returned⟩
      · exact ih later
      · cases returned

private theorem collectHunks_ne {path : Bytes} : collectHunks cancelled applyTarget current poll selections
    prepared ≠ .error (.overlappingHunkSelection path) := by
  induction selections generalizing poll prepared with
  | nil => nofun
  | cons selection rest ih =>
    rw [collectHunks, ne_eq, Except.ite_error_eq_error, not_or, not_and, not_and]
    refine ⟨nofun, fun _ refused => ?_⟩
    rcases Except.bind_eq_error.mp refused with unresolved | ⟨⟨file, hunk⟩, -, later⟩
    · exact resolveSelection_ne unresolved
    · exact ih later

/-- Only what was collected can be refused for a collision. -/
theorem prepare_eq_overlapping {path : Bytes}
    (refused : prepare compute cancelled applyTarget selections = .error (.overlappingHunkSelection path)) :
    ∃ collected, Collected compute selections collected ∧
      refuseOverlaps collected = .error (.overlappingHunkSelection path) := by
  rcases Except.bind_eq_error.mp refused with diff | ⟨current, computed, refused⟩
  · exact absurd diff computeAll_ne
  rcases Except.bind_eq_error.mp refused with collects | ⟨collected, collects, refused⟩
  · exact absurd collects collectHunks_ne
  rcases Except.bind_eq_error.mp refused with overlap | ⟨_, -, returned⟩
  · exact ⟨collected, collected_of_collectHunks (computeAll_eq_ok computed).2 collects .nil, overlap⟩
  · cases returned

theorem prepare_eq_ok (accepted : prepare compute cancelled applyTarget selections = .ok prepared) :
    Collected compute selections prepared ∧ refuseOverlaps prepared = .ok () := by
  obtain ⟨current, computed, accepted⟩ := Except.bind_eq_ok.mp accepted
  obtain ⟨collected, collects, accepted⟩ := Except.bind_eq_ok.mp accepted
  obtain ⟨apart, accepted⟩ := Except.bind_unit_eq_ok.mp accepted
  obtain rfl := Except.ok.inj accepted
  exact ⟨collected_of_collectHunks (computeAll_eq_ok computed).2 collects .nil, apart⟩

end Collect

/-- Distinct hunks of one diff are let through together. -/
theorem refuseOverlaps_of_diffs {prepared : List PreparedFile} (one : ∀ entry ∈ prepared,
    (entry.hunks.map PreparedHunk.hunk).Nodup ∧ ∃ (layout : Layout) (context : ℕ) (hunks : List Hunk),
      layout.Diff context hunks ∧ entry.hunks.map PreparedHunk.hunk ⊆ hunks) :
        refuseOverlaps prepared = .ok () := by
  refine refuseOverlaps_eq_ok.mpr fun entry member => anyCollide_eq_false.mpr ?_
  obtain ⟨distinct, layout, context, hunks, diff, within⟩ := one entry member
  exact distinct.imp_of_mem fun here there apart => diff.hunks_apart.forall (within here)
    (within there) apart

/-- Two hunks with a line in common are refused, wherever they stand among others. -/
theorem refuseOverlaps_of_covers {prepared : List PreparedFile} {entry : PreparedFile}
    (member : entry ∈ prepared)
    {first second : Hunk} (both : [first, second] <+ entry.hunks.map PreparedHunk.hunk) (here : first.Shown)
    (there : second.Shown) {side : Side} {line : ℕ} (covers : first.Covers side line)
    (covers' : second.Covers side line) :
    ∃ refused ∈ prepared, refuseOverlaps prepared = .error (.overlappingHunkSelection refused.path) := by
  rcases refuseOverlaps_cases prepared with accepted | refused
  · have apart := anyCollide_eq_false.mp (refuseOverlaps_eq_ok.mp accepted entry member)
    have clear : collide first second = false :=
      (pairwise_cons.mp (apart.sublist both)).1 second mem_cons_self
    rw [collide_of_covers here there covers covers'] at clear
    cases clear
  · exact refused

section Collisions

variable {compute : ℕ → Except String (List CurrentFile)} {cancelled : ℕ → Bool} {applyTarget : ApplyTarget}
  {selections : List HunkSelection} {prepared : List PreparedFile}

/-- What the differ computes at each width are the hunks of that width. -/
def Differs (compute : ℕ → Except String (List CurrentFile)) : Prop :=
  ∀ context files, compute context = .ok files → ∀ file ∈ files, ∃ layout : Layout,
    layout.Diff context file.hunks

theorem Requested.shown {selection : HunkSelection} {hunk : Hunk} (differs : Differs compute)
    (requested : Requested compute selection hunk) : hunk.Shown := by
  obtain ⟨files, file, computed, named, -, there⟩ := requested
  obtain ⟨layout, diff⟩ := differs _ files computed file (mem_of_find?_eq_some named)
  exact ⟨layout, _, _, diff, mem_of_find?_eq_some there⟩

/-- Selections of the same contents at the same width are looked up in the same record. -/
theorem Requested.same_file {selection other : HunkSelection} {hunk : Hunk} {files : List CurrentFile}
    {file : CurrentFile} (computed : compute selection.contextLines = .ok files)
    (named : CurrentFile.namedIn files selection = some file)
    (contents : other.contents = selection.contents)
    (width : other.contextLines = selection.contextLines) (requested : Requested compute other hunk) :
    hunk ∈ file.hunks := by
  obtain ⟨files', file', computed', named', -, there⟩ := requested
  obtain ⟨oldPath, newPath⟩ := Prod.mk.inj (Prod.mk.inj contents).1
  rw [width] at computed'
  obtain rfl := Except.ok.inj (computed.symm.trans computed')
  rw [CurrentFile.namedIn, oldPath, newPath] at named'
  obtain rfl := Option.some.inj (named.symm.trans named')
  exact mem_of_find?_eq_some there

/-- Selections that are taken at one width are collected as hunks of one diff for each file. -/
theorem Collected.one_diff (differs : Differs compute) (gathered : Collected compute selections prepared)
    (widths : ∀ selection ∈ selections, ∀ other ∈ selections, selection.contents = other.contents →
      selection.contextLines = other.contextLines) : ∀ entry ∈ prepared,
    (entry.hunks.map PreparedHunk.hunk).Nodup ∧ ∃ (layout : Layout) (context : ℕ) (hunks : List Hunk),
      layout.Diff context hunks ∧ entry.hunks.map PreparedHunk.hunk ⊆ hunks := by
  intro entry member
  refine ⟨gathered.distinct entry member, ?_⟩
  cases shown : entry.hunks.map PreparedHunk.hunk with
  | nil =>
    exact ⟨⟨[], 0⟩, 0, [], ⟨fun _ => Nat.two_pow_pos 30, .nil⟩, nil_subset _⟩
  | cons first others =>
    obtain ⟨selection, named, contents, files, file, computed, record, -, there⟩ :=
      gathered.named entry member first (shown ▸ mem_cons_self)
    obtain ⟨layout, diff⟩ := differs _ files computed file (mem_of_find?_eq_some record)
    refine ⟨layout, _, _, diff, fun hunk among => ?_⟩
    obtain ⟨other, named', contents', requested⟩ := gathered.named entry member hunk (shown ▸ among)
    have same : other.contents = selection.contents := contents'.trans contents.symm
    exact requested.same_file computed record same (widths other named' selection named same)

/-- Distinct hunks of two selections that were accepted for the same contents have no line in common. -/
theorem not_covers_of_prepare (differs : Differs compute)
    (accepted : prepare compute cancelled applyTarget selections = .ok prepared)
    {selection other : HunkSelection}
    (member : selection ∈ selections) (member' : other ∈ selections)
    (contents : selection.contents = other.contents)
    {hunk hunk' : Hunk} (requested : Requested compute selection hunk)
    (requested' : Requested compute other hunk')
    (distinct : hunk ≠ hunk') {side : Side} {line : ℕ} (covers : hunk.Covers side line) :
    ¬ hunk'.Covers side line := by
  obtain ⟨gathered, apart⟩ := prepare_eq_ok accepted
  obtain ⟨entry, inside, same, among⟩ := gathered.complete selection member hunk requested
  obtain ⟨entry', inside', same', among'⟩ := gathered.complete other member' hunk' requested'
  obtain rfl : entry = entry' :=
    inj_on_of_nodup_map gathered.keys inside inside' (same.trans (contents.trans same'.symm))
  have clear : hunk.Apart hunk' :=
    (anyCollide_eq_false.mp (refuseOverlaps_eq_ok.mp apart entry inside)).forall among among' distinct
  intro covers'
  rw [Hunk.Apart, collide_of_covers (requested.shown differs) (requested'.shown differs) covers
    covers'] at clear
  cases clear

/-- Hunks of one diff, at whatever width, are never refused for a collision, and two hunks with a line in
common always are: of the prepared hunks as they stand, and of what a batch of selections requests. -/
theorem collisions_refused (differs : Differs compute) :
    (∀ prepared : List PreparedFile, (∀ entry ∈ prepared, (entry.hunks.map PreparedHunk.hunk).Nodup ∧
      ∃ (layout : Layout) (context : ℕ) (hunks : List Hunk),
        layout.Diff context hunks ∧ entry.hunks.map PreparedHunk.hunk ⊆ hunks) →
      refuseOverlaps prepared = .ok ()) ∧
    (∀ prepared : List PreparedFile, ∀ entry ∈ prepared, ∀ first second : Hunk,
      [first, second] <+ entry.hunks.map PreparedHunk.hunk → first.Shown → second.Shown →
      (∃ side line, first.Covers side line ∧ second.Covers side line) →
      ∃ refused ∈ prepared, refuseOverlaps prepared = .error (.overlappingHunkSelection refused.path)) ∧
    (∀ cancelled applyTarget selections path, (∀ selection ∈ selections, ∀ other ∈ selections,
      selection.contents = other.contents → selection.contextLines = other.contextLines) →
      prepare compute cancelled applyTarget selections ≠ .error (.overlappingHunkSelection path)) ∧
    ∀ cancelled applyTarget selections, ∀ selection ∈ selections, ∀ other ∈ selections, ∀ hunk hunk' : Hunk,
      selection.contents = other.contents → Requested compute selection hunk →
        Requested compute other hunk' →
      hunk ≠ hunk' → (∃ side line, hunk.Covers side line ∧ hunk'.Covers side line) →
      ∀ prepared, prepare compute cancelled applyTarget selections ≠ .ok prepared := by
  refine ⟨fun prepared => refuseOverlaps_of_diffs, ?_, ?_, ?_⟩
  · rintro prepared entry member first second both here there ⟨side, line, covers, covers'⟩
    exact refuseOverlaps_of_covers member both here there covers covers'
  · intro cancelled applyTarget selections path widths refused
    obtain ⟨collected, gathered, overlap⟩ := prepare_eq_overlapping refused
    rw [refuseOverlaps_of_diffs (gathered.one_diff differs widths)] at overlap
    cases overlap
  · rintro cancelled applyTarget selections selection member other member' hunk hunk' contents requested
      requested' distinct ⟨side, line, covers, covers'⟩ prepared accepted
    exact not_covers_of_prepare differs accepted member member' contents requested requested'
      distinct covers covers'

end Collisions

private def twoRegions : Layout := ⟨[⟨5, 1, 1⟩, ⟨2, 1, 1⟩], 4⟩

private def twoRegionFile (context : ℕ) : CurrentFile where
  oldPath := some [97]
  newPath := some [97]
  oldBlobId := "1"
  newBlobId := "2"
  oldMode := 0o100644
  newMode := 0o100644
  contextLines := context
  whitespace := ⟨.exact, false⟩
  hunks := (twoRegions.placed context).map (Placed.outline context)
  change := .modified
  binary := false

private def twoRegionSelection (context start lines : ℕ) : HunkSelection :=
  ⟨some [97], some [97], "1", "2", context, ⟨.exact, false⟩, start, lines, start, lines⟩

/-- The two hunks without context go together; the one with a line of context does not go with either. -/
theorem collisions_refused_sample :
    (∀ path, prepare (fun context => .ok [twoRegionFile context]) (fun _ => false) .index
      [twoRegionSelection 0 6 1, twoRegionSelection 0 9 1] ≠ .error (.overlappingHunkSelection path)) ∧
    ∀ prepared, prepare (fun context => .ok [twoRegionFile context]) (fun _ => false) .index
      [twoRegionSelection 0 6 1, twoRegionSelection 1 5 6] ≠ .ok prepared := by
  have differs : Differs fun context => .ok [twoRegionFile context] := by
    intro context files computed current member
    obtain rfl := Except.ok.inj computed
    rw [mem_singleton.mp member]
    exact ⟨twoRegions, Layout.diff_outline (by rintro (_ | _) <;> decide) context⟩
  refine ⟨fun path => (collisions_refused differs).2.2.1 _ _ _ path (by decide), ?_⟩
  have narrow : Requested (fun context => .ok [twoRegionFile context]) (twoRegionSelection 0 6 1)
    ⟨6, 1, 6, 1, []⟩ :=
    ⟨_, _, rfl, rfl, rfl, rfl⟩
  have wide : Requested (fun context => .ok [twoRegionFile context]) (twoRegionSelection 1 5 6)
    ⟨5, 6, 5, 6, []⟩ :=
    ⟨_, _, rfl, rfl, rfl, rfl⟩
  exact (collisions_refused differs).2.2.2 _ _ _ _ mem_cons_self _ (mem_cons_of_mem _ mem_cons_self) _ _ rfl
    narrow wide (by decide) ⟨.old, 6, ⟨by decide, by decide⟩, by decide, by decide⟩

end Harkness.Git
