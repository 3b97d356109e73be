import Harkness.ToMathlib.ListSplice
import Harkness.Git.Hunk.Body
import Harkness.Git.Hunk.Patch

/-! # Where a rendered hunk's result lines are

A file's patch is read as splices of its source: each hunk replaces the source lines it shows by its
result lines. The header is to say where those are once the hunks before it are applied. The running
drift does account for these, but the source start is only carried over: a hunk without source lines
starts at the line before its place, and a result side without lines is always put at zero.
-/

namespace Harkness.Git

open List

namespace Hunk

def start (hunk : Hunk) : Side → ℕ
  | .old => hunk.oldStart
  | .new => hunk.newStart

def count (hunk : Hunk) : Side → ℕ
  | .old => hunk.oldLines
  | .new => hunk.newLines

/-- How many lines of the side precede the hunk: with no line of its own there, it starts at the
last of these. -/
def position (hunk : Hunk) (side : Side) : ℕ :=
  if hunk.count side = 0 then hunk.start side else hunk.start side - 1

/-- The hunk shows lines of the text where they are. -/
structure Fits (hunk : Hunk) (side : Side) (text : List SideLine) : Prop where
  oneBased : hunk.count side ≠ 0 → 1 ≤ hunk.start side
  bound : hunk.position side + hunk.count side ≤ text.length
  shown : sideLines side hunk.lines = (text.drop (hunk.position side)).take (hunk.count side)

/-- One hunk ends on the side before the next begins, with a line between them. -/
def Precedes (side : Side) (first second : Hunk) : Prop :=
  first.position side + first.count side < second.position side

end Hunk

/-- The hunks of a diff between two texts, at any context width. -/
structure Describes (texts : Side → List SideLine) (hunks : List Hunk) : Prop where
  formed : ∀ hunk ∈ hunks, hunk.WellFormed
  fits : ∀ hunk ∈ hunks, ∀ side, hunk.Fits side (texts side)
  apart : ∀ side, hunks.Pairwise (Hunk.Precedes side)
  /-- The differ reads no text of a gibibyte or more. -/
  bounded : ∀ side, (texts side).length < 2 ^ 30

/-- A rendered hunk as its patch is read: the source lines it shows are replaced. -/
def RenderedHunk.splice (rendered : RenderedHunk) (direction : Direction) : Splice SideLine where
  position :=
    if rendered.sourceLines = 0 then rendered.sourceStart else rendered.sourceStart - 1
  removed := rendered.sourceLines
  inserted := sideLines .new (rendered.body direction)

/-- Where a result side belongs that `preceding` lines precede. -/
def trueStart (preceding resultLines : ℕ) : ℕ := if resultLines = 0 then preceding else preceding + 1

/-- Whether the result still has the line once exactly the selected changes are made. -/
def PreparedHunk.keeps (prepared : PreparedHunk) (direction : Direction) (group : LineGroup) :
    Bool :=
  (if prepared.selects group then direction.source.other else direction.source).has group.kind

/-- The hunk begins its source, or replaces lines of it by some. -/
def PreparedHunk.Anchored (prepared : PreparedHunk) (direction : Direction) : Prop :=
  prepared.hunk.position direction.source = 0 ∨
    prepared.hunk.count direction.source ≠ 0 ∧
      ∃ group ∈ lineGroups prepared.hunk.lines, prepared.keeps direction group = true

instance (prepared : PreparedHunk) (direction : Direction) :
    Decidable (prepared.Anchored direction) := by
  unfold PreparedHunk.Anchored
  infer_instance

section Plan

variable {prepared : PreparedHunk} (direction : Direction)

theorem planHunk_sourceLines (formed : prepared.hunk.WellFormed) :
    (planHunk prepared direction).sourceLines = prepared.hunk.count direction.source := by
  have realized := planHunk_realizes direction formed
  refine (realized.sourceCount 0).trans ?_
  rw [realized.source]
  cases direction
  · exact formed.oldCount
  · exact formed.newCount

theorem planHunk_sourceStart : (planHunk prepared direction).sourceStart =
    prepared.hunk.start direction.source := by
  cases direction <;> rfl

theorem planHunk_position (formed : prepared.hunk.WellFormed) :
    ((planHunk prepared direction).splice direction).position =
      prepared.hunk.position direction.source := by
  rw [RenderedHunk.splice, planHunk_sourceLines direction formed, planHunk_sourceStart,
    Hunk.position]

theorem planHunk_stop (formed : prepared.hunk.WellFormed) :
    ((planHunk prepared direction).splice direction).stop =
      prepared.hunk.position direction.source + prepared.hunk.count direction.source := by
  rw [Splice.stop, planHunk_position direction formed]
  exact congrArg _ (planHunk_sourceLines direction formed)

theorem planHunk_resultLines (formed : prepared.hunk.WellFormed) :
    (planHunk prepared direction).resultLines =
      ((planHunk prepared direction).splice direction).inserted.length :=
  (planHunk_realizes direction formed).resultCount 0

theorem planHunk_growth (formed : prepared.hunk.WellFormed) (drift : ℤ) :
    (planHunk prepared direction).drift drift =
      drift + ((planHunk prepared direction).splice direction).growth := by
  rw [RenderedHunk.drift, planHunk_resultLines direction formed]
  rfl

/-- A hunk adds no more than the lines it has on the other side. -/
theorem planHunk_growth_le (formed : prepared.hunk.WellFormed) :
    ((planHunk prepared direction).splice direction).growth ≤
      prepared.hunk.count direction.source.other := by
  have most := resultLines_le direction formed
  rw [planHunk_resultLines direction formed] at most
  have source : ((planHunk prepared direction).splice direction).removed = _ :=
    planHunk_sourceLines direction formed
  rw [Splice.growth, source]
  cases direction <;> simp only [Direction.source, Side.other, Hunk.count] <;> omega

theorem planHunk_resultLines_ne_zero (formed : prepared.hunk.WellFormed) :
    (planHunk prepared direction).resultLines ≠ 0 ↔
      ∃ group ∈ lineGroups prepared.hunk.lines, prepared.keeps direction group = true := by
  rw [planHunk_resultLines direction formed, ne_eq, length_eq_zero_iff]
  change sideLines .new ((planHunk prepared direction).body direction) ≠ [] ↔ _
  rw [(planHunk_realizes direction formed).result, ne_eq, filterMap_eq_nil_iff]
  push Not
  refine ⟨?_, ?_⟩
  · rintro ⟨group, member, shown⟩
    refine ⟨group, by simpa using mem_of_mem_pairedFrom member, ?_⟩
    by_contra hidden
    exact shown (if_neg hidden)
  · rintro ⟨group, member, kept⟩
    have tagged := (formed.grouped group member).kind_cases
    refine ⟨group, mem_paired member tagged, ?_⟩
    rw [PreparedHunk.keeps] at kept
    rw [PreparedHunk.resultLine, LineGroup.shown, if_pos kept]
    exact Option.some_ne_none _

end Plan

/-- The drift once the hunks of a plan are written. -/
def driftAfter (drift : ℤ) (plan : List RenderedHunk) : ℤ :=
  plan.foldl (fun drift rendered => rendered.drift drift) drift

theorem hunkHeaders_getElem? (drift : ℤ) (earlier later : List RenderedHunk)
    (rendered : RenderedHunk) :
    (hunkHeaders drift (earlier ++ rendered :: later))[earlier.length]? =
      some (hunkHeader rendered (driftAfter drift earlier)) := by
  induction earlier generalizing drift with
  | nil => rfl
  | cons first earlier ih =>
    rw [cons_append, hunkHeaders, length_cons, getElem?_cons_succ, ih]
    rfl

theorem driftAfter_planHunk (direction : Direction) (drift : ℤ) (hunks : List PreparedHunk)
    (formed : ∀ prepared ∈ hunks, prepared.hunk.WellFormed) :
    driftAfter drift (hunks.map fun prepared => planHunk prepared direction) = drift +
      ((hunks.map fun prepared => (planHunk prepared direction).splice direction).map
        Splice.growth).sum := by
  induction hunks generalizing drift with
  | nil => rw [map_nil, map_nil, map_nil, sum_nil, Int.add_zero]; rfl
  | cons prepared hunks ih =>
    rw [map_cons, map_cons, map_cons, sum_cons, driftAfter, foldl_cons, ← driftAfter,
      ih _ fun other member => formed other (mem_cons_of_mem _ member),
      planHunk_growth direction (formed prepared mem_cons_self), Int.add_assoc]

/-- Sorted by where they start, hunks that are apart precede each other. -/
theorem PreparedFile.ordered_pairwise {texts : Side → List SideLine} {hunks : List Hunk}
    {prepared : PreparedFile} (direction : Direction) (described : Describes texts hunks)
    (chosen : (prepared.hunks.map PreparedHunk.hunk).Subperm hunks) :
    (prepared.ordered direction).Pairwise fun first second =>
      first.hunk.Precedes direction.source second.hunk := by
  have permuted := mergeSort_perm prepared.hunks (PreparedHunk.leads direction)
  have transitive : ∀ first second third : PreparedHunk, first.leads direction second = true →
      second.leads direction third = true → first.leads direction third = true := by
    intro first second third
    simp only [PreparedHunk.leads, Bool.or_eq_true, Bool.and_eq_true, decide_eq_true_eq, beq_iff_eq]
    omega
  have total : ∀ first second : PreparedHunk,
      (first.leads direction second || second.leads direction first) = true := by
    intro first second
    simp only [PreparedHunk.leads, Bool.or_eq_true, Bool.and_eq_true, decide_eq_true_eq, beq_iff_eq]
    omega
  have sorted := pairwise_mergeSort transitive total prepared.hunks
  have either : (prepared.hunks.map PreparedHunk.hunk).Pairwise fun first second =>
      first.Precedes direction.source second ∨ second.Precedes direction.source first := by
    obtain ⟨sublist, same, within⟩ := chosen
    refine (same.pairwise_iff Or.symm).mp ?_
    exact ((described.apart direction.source).sublist within).imp Or.inl
  have apart : (prepared.ordered direction).Pairwise fun first second =>
      first.hunk.Precedes direction.source second.hunk ∨
        second.hunk.Precedes direction.source first.hunk :=
    (permuted.pairwise_iff Or.symm).mpr (pairwise_map.mp either)
  refine (sorted.and apart).imp_of_mem ?_
  rintro first second here there ⟨leads, precedes | follows⟩
  · exact precedes
  · exfalso
    have fits : ∀ other ∈ prepared.ordered direction,
        other.hunk.Fits direction.source (texts direction.source) := fun other member =>
      described.fits _ (chosen.subset (mem_map_of_mem (permuted.mem_iff.mp member))) _
    have one := (fits first here).oneBased
    have two := (fits second there).oneBased
    have key : first.hunk.start direction.source ≤ second.hunk.start direction.source := by
      simp only [PreparedHunk.leads, Bool.or_eq_true, Bool.and_eq_true, decide_eq_true_eq,
        beq_iff_eq] at leads
      cases direction <;> simp only [PreparedHunk.sortKey, Hunk.start, Direction.source] at leads ⊢
        <;> omega
    simp only [Hunk.Precedes, Hunk.position] at follows
    split_ifs at follows <;> omega

/-- The lines that the hunks of a diff have on one side are lines of that text. -/
theorem sum_count_le {texts : Side → List SideLine} {hunks : List Hunk}
    (described : Describes texts hunks) (side : Side) :
    (hunks.map fun hunk => hunk.count side).sum ≤ (texts side).length := by
  suffices later : ∀ (rest : List Hunk) (done : ℕ), done ≤ (texts side).length →
      (∀ hunk ∈ rest, hunk.Fits side (texts side)) → rest.Pairwise (Hunk.Precedes side) →
      (∀ hunk ∈ rest, done ≤ hunk.position side) →
      done + (rest.map fun hunk => hunk.count side).sum ≤ (texts side).length by
    simpa using later hunks 0 (Nat.zero_le _) (fun hunk member => described.fits hunk member side)
      (described.apart side) fun hunk _ => Nat.zero_le _
  intro rest
  induction rest with
  | nil => intro done bound _ _ _; simpa using bound
  | cons hunk rest ih =>
    intro done bound fits apart after
    have here := after hunk mem_cons_self
    have inside := (fits hunk mem_cons_self).bound
    have next := ih (hunk.position side + hunk.count side) inside
      (fun other member => fits other (mem_cons_of_mem _ member)) apart.of_cons
      fun other member => Nat.le_of_lt (rel_of_pairwise_cons apart member)
    rw [map_cons, sum_cons]
    omega

private theorem sum_chosen_le {texts : Side → List SideLine} {hunks : List Hunk}
    {chosen : List PreparedHunk} (described : Describes texts hunks)
    (within : (chosen.map PreparedHunk.hunk).Subperm hunks) (side : Side) :
    (chosen.map fun prepared => prepared.hunk.count side).sum ≤ (texts side).length := by
  obtain ⟨sublist, same, within⟩ := within
  calc (chosen.map fun prepared => prepared.hunk.count side).sum
      = ((chosen.map PreparedHunk.hunk).map fun hunk => hunk.count side).sum := by
        rw [map_map]; rfl
    _ = (sublist.map fun hunk => hunk.count side).sum := ((same.map _).sum_eq).symm
    _ ≤ (hunks.map fun hunk => hunk.count side).sum :=
        (within.map _).sum_le_sum fun _ _ => Nat.zero_le _
    _ ≤ (texts side).length := sum_count_le described side

private theorem growth_le (direction : Direction) (hunks : List PreparedHunk)
    (formed : ∀ prepared ∈ hunks, prepared.hunk.WellFormed) :
    ((hunks.map fun prepared => (planHunk prepared direction).splice direction).map
        Splice.growth).sum ≤
      ((hunks.map fun prepared => prepared.hunk.count direction.source.other).sum : ℕ) := by
  induction hunks with
  | nil => exact le_refl _
  | cons prepared hunks ih =>
    have first := planHunk_growth_le direction (formed prepared mem_cons_self)
    have rest := ih fun other member => formed other (mem_cons_of_mem _ member)
    rw [map_cons, map_cons, sum_cons, map_cons, sum_cons, Nat.cast_add]
    exact Int.add_le_add first rest

/-- When the source start carried over under the drift is the true one. -/
private theorem resultStart_eq_iff (rendered : RenderedHunk) {drift : ℤ} {position preceding : ℕ}
    (oneBased : rendered.sourceLines ≠ 0 → 1 ≤ rendered.sourceStart)
    (place : position =
      if rendered.sourceLines = 0 then rendered.sourceStart else rendered.sourceStart - 1)
    (shifted : (preceding : ℤ) = position + drift) (outermost : position = 0 ↔ preceding = 0)
    (bounded : preceding + 1 ≤ 2 ^ 32 - 1) :
    (hunkHeader rendered drift).resultStart = trueStart preceding rendered.resultLines ↔
      position = 0 ∨ rendered.sourceLines ≠ 0 ∧ rendered.resultLines ≠ 0 := by
  simp only [hunkHeader, trueStart]
  by_cases emptySource : rendered.sourceLines = 0
  · rw [if_pos emptySource] at place
    by_cases emptyResult : rendered.resultLines = 0
    · rw [if_pos emptyResult, if_pos emptyResult]
      omega
    · rw [if_neg emptyResult, if_neg emptyResult]
      omega
  · rw [if_neg emptySource] at place
    have one := oneBased emptySource
    by_cases emptyResult : rendered.resultLines = 0
    · rw [if_pos emptyResult, if_pos emptyResult]
      omega
    · rw [if_neg emptyResult, if_neg emptyResult]
      omega

/-- Whatever is selected of a diff and whichever way it is rendered, each header is for the hunk in
the image of those before it, and says where its result lines are there just when the hunk begins
the source or replaces lines of it by some. -/
theorem hunkHeaders_resultStart_iff {texts : Side → List SideLine} {hunks : List Hunk}
    {prepared : PreparedFile} (direction : Direction) (described : Describes texts hunks)
    (chosen : (prepared.hunks.map PreparedHunk.hunk).Subperm hunks)
    {earlier later : List PreparedHunk} {current : PreparedHunk}
    (planned : prepared.ordered direction = earlier ++ current :: later) :
    ∃ (header : HunkHeader) (leading : List SideLine),
      (hunkHeaders 0 (prepared.plan direction))[earlier.length]? = some header ∧
      Splice.apply (texts direction.source) (earlier.map fun hunk =>
          (planHunk hunk direction).splice direction) =
        leading ++ (texts direction.source).drop (current.hunk.position direction.source) ∧
      Splice.apply (texts direction.source) ((earlier ++ [current]).map fun hunk =>
          (planHunk hunk direction).splice direction) =
        leading ++ sideLines .new ((planHunk current direction).body direction) ++
          (texts direction.source).drop (current.hunk.position direction.source +
            current.hunk.count direction.source) ∧
      (header.resultStart = trueStart leading.length
          (sideLines .new ((planHunk current direction).body direction)).length ↔
        current.Anchored direction) := by
  have permuted := mergeSort_perm prepared.hunks (PreparedHunk.leads direction)
  have ofDiff : ∀ hunk ∈ earlier ++ current :: later, hunk.hunk ∈ hunks := by
    intro hunk member
    rw [← planned] at member
    exact chosen.subset (mem_map_of_mem (permuted.mem_iff.mp member))
  have formed := fun hunk member => described.formed _ (ofDiff hunk member)
  have here := formed current (by simp)
  have before : ∀ hunk ∈ earlier, hunk.hunk.WellFormed :=
    fun hunk member => formed hunk (mem_append_left _ member)
  have fits := described.fits _ (ofDiff current (by simp)) direction.source
  have ordered := prepared.ordered_pairwise direction described chosen
  rw [planned] at ordered
  have precedes : ∀ hunk ∈ earlier, hunk.hunk.Precedes direction.source current.hunk :=
    fun hunk member => (pairwise_append.mp ordered).2.2 hunk member current mem_cons_self
  have stops : ∀ splice ∈ earlier.map fun hunk => (planHunk hunk direction).splice direction,
      splice.stop < current.hunk.position direction.source := by
    intro splice member
    obtain ⟨hunk, present, rfl⟩ := mem_map.mp member
    rw [planHunk_stop direction (before hunk present)]
    exact precedes hunk present
  have apart : (earlier.map fun hunk => (planHunk hunk direction).splice direction).Pairwise
      fun first second => first.stop ≤ second.position := by
    refine pairwise_map.mpr ((pairwise_append.mp ordered).1.imp_of_mem ?_)
    intro first second one two precedes
    rw [planHunk_stop direction (before first one), planHunk_position direction (before second two)]
    exact Nat.le_of_lt precedes
  have inside := fun splice member => Nat.le_of_lt (stops splice member)
  have bound : current.hunk.position direction.source ≤ (texts direction.source).length :=
    Nat.le_trans (Nat.le_add_right ..) fits.bound
  have place := planHunk_position direction here
  have shifted := Splice.length_leading (texts direction.source) bound inside apart
  set leading := Splice.leading (texts direction.source) (current.hunk.position direction.source)
    (earlier.map fun hunk => (planHunk hunk direction).splice direction)
  have others : (earlier.map fun hunk => hunk.hunk.count direction.source.other).sum ≤
      (texts direction.source.other).length := by
    refine Nat.le_trans ?_ (sum_chosen_le described chosen direction.source.other)
    rw [← (permuted.map _).sum_eq]
    change _ ≤ ((prepared.ordered direction).map _).sum
    rw [planned, map_append, sum_append]
    exact Nat.le_add_right ..
  have size : leading.length < 2 ^ 31 := by
    have added := Int.le_trans (growth_le direction earlier before) (Int.ofNat_le.mpr others)
    have one := described.bounded direction.source
    have other := described.bounded direction.source.other
    omega
  have outermost : current.hunk.position direction.source = 0 ↔ leading.length = 0 := by
    refine ⟨fun first => ?_, fun empty => ?_⟩
    · have none : earlier = [] := by
        refine eq_nil_iff_forall_not_mem.mpr fun hunk member => ?_
        have follows := precedes hunk member
        rw [Hunk.Precedes, first] at follows
        exact Nat.not_lt_zero _ follows
      subst none
      rw [map_nil, map_nil, sum_nil, first] at shifted
      omega
    · by_contra inner
      exact Splice.leading_ne_nil (texts direction.source) (Nat.pos_of_ne_zero inner) bound stops
        (length_eq_zero_iff.mp empty)
  refine ⟨hunkHeader (planHunk current direction) (driftAfter 0 (earlier.map fun hunk =>
    planHunk hunk direction)), leading, ?_, Splice.apply_eq_leading _ inside, ?_, ?_⟩
  · rw [PreparedFile.plan, planned, map_append, map_cons]
    have header := hunkHeaders_getElem? 0 (earlier.map fun hunk => planHunk hunk direction)
      (later.map fun hunk => planHunk hunk direction) (planHunk current direction)
    rwa [length_map] at header
  · rw [map_append, map_singleton]
    have next := Splice.apply_append_eq_leading (texts direction.source)
      ((planHunk current direction).splice direction) (place ▸ inside)
    rwa [place, planHunk_stop direction here] at next
  · have results := planHunk_resultLines direction here
    change _ = ((sideLines .new ((planHunk current direction).body direction)).length) at results
    rw [← results, PreparedHunk.Anchored, ← planHunk_sourceLines direction here,
      ← planHunk_resultLines_ne_zero direction here]
    refine resultStart_eq_iff _ ?_ place.symm ?_ outermost (by omega)
    · rw [planHunk_sourceLines direction here, planHunk_sourceStart]
      exact fits.oneBased
    · rw [shifted, driftAfter_planHunk direction 0 earlier before, Int.zero_add]

private def plain (content : UInt8) : SideLine := ⟨[content], false⟩

private def fileOf (hunks : List PreparedHunk) : PreparedFile :=
  ⟨⟨some [97], some [97], "1", "2", 0o100644, 0o100644⟩, hunks⟩

/-- A line becomes two at the top of a file, and only one of them is selected. -/
def replacedTop : PreparedHunk where
  hunk :=
    { oldStart := 1, oldLines := 1, newStart := 1, newLines := 2
      lines := [⟨.deletion, some 1, none, [1]⟩, ⟨.addition, none, some 1, [4]⟩,
        ⟨.addition, none, some 2, [5]⟩] }
  selectedLines := some [⟨none, some 1⟩]

/-- A line further down the same file is replaced. -/
def replacedBelow : PreparedHunk where
  hunk :=
    { oldStart := 3, oldLines := 1, newStart := 4, newLines := 1
      lines := [⟨.deletion, some 3, none, [3]⟩, ⟨.addition, none, some 4, [6]⟩] }
  selectedLines := none

def replacedTexts : Side → List SideLine
  | .old => [plain 1, plain 2, plain 3]
  | .new => [plain 4, plain 5, plain 2, plain 6]

private theorem describes_replaced :
    Describes replacedTexts [replacedTop.hunk, replacedBelow.hunk] where
  formed := by decide
  fits hunk member side := by
    rcases mem_pair.mp member with rfl | rfl <;> cases side <;>
      exact ⟨by decide, by decide, by decide⟩
  apart side := by cases side <;> exact pairwise_pair.mpr (by unfold Hunk.Precedes; decide)
  bounded side := by cases side <;> decide

private theorem ordered_replaced : (fileOf [replacedTop, replacedBelow]).ordered .forward =
    [replacedTop] ++ replacedBelow :: [] :=
  mergeSort_of_pairwise (by decide)

theorem hunkHeaders_resultStart_replaced :
    ∃ (header : HunkHeader) (leading : List SideLine),
      (hunkHeaders 0 ((fileOf [replacedTop, replacedBelow]).plan .forward))[1]? = some header ∧
      Splice.apply (replacedTexts .old) [(planHunk replacedTop .forward).splice .forward] =
        leading ++ [plain 3] ∧ header.resultStart = trueStart leading.length 1 := by
  obtain ⟨header, leading, written, image, _, correct⟩ :=
    hunkHeaders_resultStart_iff .forward describes_replaced (Subperm.refl _) ordered_replaced
  exact ⟨header, leading, written, image, correct.mpr (by decide)⟩

/-- A line appended to a file of two, without context. -/
def appendedLine : PreparedHunk where
  hunk :=
    { oldStart := 2, oldLines := 0, newStart := 3, newLines := 1
      lines := [⟨.addition, none, some 3, [3]⟩] }
  selectedLines := none

def appendedTexts : Side → List SideLine
  | .old => [plain 1, plain 2]
  | .new => [plain 1, plain 2, plain 3]

private theorem describes_appended : Describes appendedTexts [appendedLine.hunk] where
  formed := by decide
  fits hunk member side := by
    rw [mem_singleton.mp member]
    cases side <;> exact ⟨by decide, by decide, by decide⟩
  apart side := pairwise_singleton ..
  bounded side := by cases side <;> decide

/-- Two lines precede the appended one, yet its result side is said to start at the second. -/
theorem appendedLine_misplaced :
    Describes appendedTexts [appendedLine.hunk] ∧
      hunkHeaders 0 ((fileOf [appendedLine]).plan .forward) = [⟨2, 0, 2, 1⟩] ∧
      Splice.apply (appendedTexts .old) [(planHunk appendedLine .forward).splice .forward] =
        appendedTexts .old ++ [plain 3] ∧
      (2 : ℕ) ≠ trueStart (appendedTexts .old).length 1 := by
  have ordered : (fileOf [appendedLine]).ordered .forward = [appendedLine] := mergeSort_singleton _
  refine ⟨describes_appended, ?_, by decide, by decide⟩
  rw [PreparedFile.plan, ordered]
  decide

end Harkness.Git
