import Harkness.Git.IntraLine.Tokens
import Mathlib.Data.List.FinRange

/-! # Annotating a hunk

A hunk is split at its context lines. What is between two of them is a run: its removed and its added lines,
in order. The removed lines of a run are paired with added ones: lines that share enough of their outer bytes
may be paired, in order, and the best such pairing is found by filling a table of scores and following its
directions back. The pairs are compared under limits on the bytes of a line and on the comparisons of a hunk;
past a limit the hunk says so and keeps its plain lines.
-/

namespace Harkness.Git.IntraLine

section Pairing

open Alignment

/-- A line of a hunk with its counterpart there and the ranges that changed against it. -/
structure PairedLine extends DiffLine where
  pairedLineIndex : Option ℕ
  intraLineRanges : Option (List IntraLineRange)
deriving DecidableEq, Repr

/-- The changed lines between two context lines, by their places in the hunk. -/
structure ChangedRun (count : ℕ) where
  deletions : List (Fin count)
  additions : List (Fin count)
deriving DecidableEq, Repr

def maxIntraLineBytes : ℕ := 4 * 1024
def maxIntraLineComparisons : ℕ := 1000000

/-- Lines sharing less than one fifth of their outer bytes are left unpaired. -/
def minPairSimilarityPerMille : ℕ := 200

/-- What saturating 64-bit arithmetic makes of a result. -/
def saturated (value : ℕ) : ℕ := min value (2 ^ 64 - 1)

def lineBody (line : Bytes) : Bytes :=
  let line := if line.getLast? = some 10 then line.dropLast else line
  if line.getLast? = some 13 then line.dropLast else line

/-- How many bytes agree before the first that does not. -/
def sharedCount (old new : Bytes) : ℕ := ((old.zip new).takeWhile fun pair => pair.1 == pair.2).length

/-- Scores shared outer bytes, without the line endings. -/
def lineSimilarity (old new : Bytes) : ℕ :=
  let old := lineBody old
  let new := lineBody new
  if old = new then 1000
  else if old.isEmpty || new.isEmpty then 0
  else
    let prefixCount := sharedCount old new
    let available := min old.length new.length - prefixCount
    let suffixCount := sharedCount (old.drop (old.length - available)).reverse
      (new.drop (new.length - available)).reverse
    saturated (saturated (prefixCount + suffixCount) * 2000) / saturated (old.length + new.length)

theorem saturated_le (value : ℕ) : saturated value ≤ value := min_le_left _ _

theorem saturated_of_lt {value : ℕ} (fits : value < 2 ^ 64) : saturated value = value :=
  min_eq_left (Nat.le_sub_one_of_lt fits)

theorem saturated_double_le {common total : ℕ} (shared : 2 * common ≤ total) :
    saturated (saturated common * 2000) ≤ saturated total * 1000 := by
  unfold saturated
  generalize 2 ^ 64 - 1 = limit
  omega

theorem sharedCount_le (old new : Bytes) : sharedCount old new ≤ min old.length new.length := by
  rw [← List.length_zip]
  exact (List.takeWhile_sublist _).length_le

/-- No similarity exceeds that of equal lines. -/
theorem lineSimilarity_le (old new : Bytes) : lineSimilarity old new ≤ 1000 := by
  rw [lineSimilarity]
  generalize lineBody old = old
  generalize lineBody new = new
  dsimp only
  split_ifs with same blank
  · exact le_rfl
  · exact Nat.zero_le _
  · have front := sharedCount_le old new
    generalize sharedCount old new = prefixCount at front
    have back := sharedCount_le (old.drop (old.length - (min old.length new.length - prefixCount))).reverse
      (new.drop (new.length - (min old.length new.length - prefixCount))).reverse
    rw [List.length_reverse, List.length_reverse, List.length_drop, List.length_drop] at back
    generalize sharedCount _ _ = suffixCount at back
    have shared : 2 * (prefixCount + suffixCount) ≤ old.length + new.length := by omega
    refine Nat.div_le_of_le_mul ?_
    rw [Nat.mul_comm (saturated _) 1000]
    exact (saturated_double_le shared).trans_eq (Nat.mul_comm _ _)

/-- The bytes of some lines of a hunk. -/
def bytesOf (lines : List PairedLine) (indices : List (Fin lines.length)) : ℕ :=
  (indices.map fun index => lines[index].content.length).sum

variable {lines : List PairedLine}

namespace ChangedRun

def similarity (run : ChangedRun lines.length) (old new : ℕ) : ℕ :=
  match run.deletions[old]?, run.additions[new]? with
  | some deletion, some addition => lineSimilarity lines[deletion].content lines[addition].content
  | _, _ => 0

/-- Lines alike enough are paired; so is the only removed line with the only added one. -/
def eligible (run : ChangedRun lines.length) (old new : ℕ) : Bool :=
  run.similarity old new ≥ minPairSimilarityPerMille ||
    (run.deletions.length == 1 && run.additions.length == 1)

def pairScale (run : ChangedRun lines.length) : ℕ := min run.deletions.length run.additions.length + 1

end ChangedRun

/-- One cell of the table: its score and where that comes from. -/
def pairCell (run : ChangedRun lines.length) (table : Grid (ℕ × CellDirection)) (old new : ℕ) :
    ℕ × CellDirection :=
  let above := (table.get (old - 1) new).1
  let left := (table.get old (new - 1)).1
  let best := if above ≥ left then (above, CellDirection.above) else (left, CellDirection.left)
  if run.eligible (old - 1) (new - 1) then
    let paired := saturated (saturated ((table.get (old - 1) (new - 1)).1 +
      saturated (run.similarity (old - 1) (new - 1) * run.pairScale)) + 1)
    if paired ≥ best.1 then (paired, .paired) else best
  else best

def pairTable (run : ChangedRun lines.length) : Grid (ℕ × CellDirection) :=
  (Grid.replicate (run.deletions.length + 1) (run.additions.length + 1) (0, .unset)).fill (pairCell run)
    ((List.range' 1 run.deletions.length).product (List.range' 1 run.additions.length))

/-- Finds a maximum-weight, order-preserving line alignment. No result is a panic of the code. -/
def pairRun (run : ChangedRun lines.length) : Option (List (Fin lines.length × Fin lines.length)) := do
  let places ← backtrack (fun old new => ((pairTable run).get old new).2)
    (run.deletions.length + run.additions.length) run.deletions.length run.additions.length
  places.mapM fun place => do return (← run.deletions[place.1]?, ← run.additions[place.2]?)

/-- No score of the table saturates. -/
def ChangedRun.ScoresFit (run : ChangedRun lines.length) : Prop :=
  min run.deletions.length run.additions.length * (1000 * run.pairScale + 1) < 2 ^ 64

instance (run : ChangedRun lines.length) : Decidable run.ScoresFit := inferInstanceAs (Decidable (_ < _))

variable {run : ChangedRun lines.length}

/-- No score of a run saturates that has no more candidate pairs than may be compared. -/
theorem scoresFit_of_candidates (few : run.deletions.length * run.additions.length ≤
    maxIntraLineComparisons) :
    run.ScoresFit := by
  have square : min run.deletions.length run.additions.length * min run.deletions.length
    run.additions.length ≤
      maxIntraLineComparisons := (Nat.mul_le_mul (min_le_left _ _) (min_le_right _ _)).trans few
  rw [ChangedRun.ScoresFit, ChangedRun.pairScale]
  generalize min run.deletions.length run.additions.length = fewer at square
  have root : fewer ≤ 1000 := Nat.mul_self_le_mul_self_iff.mp square
  calc fewer * (1000 * (fewer + 1) + 1)
    _ ≤ 1000 * (1000 * (1000 + 1) + 1) := by gcongr
    _ < 2 ^ 64 := by decide

/-- What a pair of a removed and an added line is worth. -/
def ChangedRun.weight (run : ChangedRun lines.length) (old new : ℕ) :
    ℕ := run.similarity old new * run.pairScale + 1

theorem ChangedRun.similarity_le (old new : ℕ) : run.similarity old new ≤ 1000 := by
  rw [similarity]
  split
  · exact lineSimilarity_le _ _
  · exact Nat.zero_le _

theorem ChangedRun.weight_le (old new : ℕ) : run.weight old new ≤ 1000 * run.pairScale + 1 :=
  Nat.add_le_add_right (Nat.mul_le_mul_right _ (ChangedRun.similarity_le old new)) 1

/-- What a cell takes from the cells above, to the left and diagonally before it. -/
theorem pairCell_cases (run : ChangedRun lines.length) (table : Grid (ℕ × CellDirection)) (old new : ℕ) :
    ∃ paired ≤ (table.get old new).1 + run.weight old new,
      ((table.get old new).1 + run.weight old new < 2 ^ 64 →
        paired = (table.get old new).1 + run.weight old new) ∧
      (table.get old (new + 1)).1 ≤ (pairCell run table (old + 1) (new + 1)).1 ∧
      (table.get (old + 1) new).1 ≤ (pairCell run table (old + 1) (new + 1)).1 ∧
      (run.eligible old new = true → paired ≤ (pairCell run table (old + 1) (new + 1)).1) ∧
      (pairCell run table (old + 1) (new + 1) = ((table.get old (new + 1)).1, .above) ∨
        pairCell run table (old + 1) (new + 1) = ((table.get (old + 1) new).1, .left) ∨
        run.eligible old new = true ∧ pairCell run table (old + 1) (new + 1) = (paired, .paired)) := by
  refine ⟨saturated
    (saturated ((table.get old new).1 + saturated (run.similarity old new * run.pairScale)) + 1),
    ?_, fun fits => ?_, ?_⟩
  · have first := saturated_le (run.similarity old new * run.pairScale)
    have second := saturated_le ((table.get old new).1 + saturated (run.similarity old new * run.pairScale))
    refine (saturated_le _).trans ?_
    rw [ChangedRun.weight]
    omega
  · rw [ChangedRun.weight] at fits ⊢
    rw [saturated_of_lt (by omega : run.similarity old new * run.pairScale < 2 ^ 64),
      saturated_of_lt (by omega : (table.get old new).1 + run.similarity old new * run.pairScale < 2 ^ 64),
      saturated_of_lt (by omega), Nat.add_assoc]
  · rw [pairCell, Nat.add_sub_cancel, Nat.add_sub_cancel]
    generalize saturated (saturated _ + 1) = paired
    dsimp only
    split_ifs with allowed first better better
    all_goals grind

private theorem mem_cells {cell : ℕ × ℕ} (rows cols : ℕ) :
    cell ∈ (List.range' 1 rows).product (List.range' 1 cols) ↔
      (1 ≤ cell.1 ∧ cell.1 < 1 + rows) ∧ 1 ≤ cell.2 ∧ cell.2 < 1 + cols :=
  List.mem_product.trans (and_congr List.mem_range'_1 List.mem_range'_1)

/-- The first row and the first column hold no score. -/
theorem pairTable_edge {row col : ℕ} (inRow : row ≤ run.deletions.length)
    (inCol : col ≤ run.additions.length)
    (edge : row = 0 ∨ col = 0) : (pairTable run).get row col = (0, .unset) := by
  rw [pairTable, Grid.get_fill_of_notMem Grid.sized_replicate (fun cell member => ?_)
    (Nat.lt_succ_of_le inCol)
    fun member => ?_, Grid.get_replicate (Nat.lt_succ_of_le inRow) (Nat.lt_succ_of_le inCol)]
  · have bounds := (mem_cells _ _).mp member
    omega
  · have bounds := (mem_cells _ _).mp member
    dsimp only at bounds
    omega

/-- The cells behind them satisfy the rule. -/
theorem pairTable_inner {row col : ℕ} (inRow : row < run.deletions.length)
    (inCol : col < run.additions.length) :
    (pairTable run).get (row + 1) (col + 1) = pairCell run (pairTable run) (row + 1) (col + 1) := by
  refine Grid.get_fill (fun first second => first.1 < second.1 ∨ first.1 = second.1 ∧ first.2 < second.2)
    Grid.sized_replicate (fun cell member => ?_)
      (Grid.pairwise_product List.pairwise_lt_range' List.pairwise_lt_range')
    (fun cell => by omega) (fun cell member grid grid' _ _ agree => ?_) (row + 1, col + 1) ?_
  · have bounds := (mem_cells _ _).mp member
    omega
  · obtain ⟨⟨firstRow, -⟩, firstCol, lastCol⟩ := (mem_cells _ _).mp member
    -- The three cells a cell reads are filled before it.
    have earlier (row col : ℕ) (up : row ≤ cell.1) (back : col ≤ cell.2) (other : row < cell.1 ∨
      col < cell.2) :
        grid.get row col = grid'.get row col := by
      refine agree row col (by omega) (fun same => ?_) (by dsimp only; omega)
      rw [← same] at other
      exact other.elim (lt_irrefl _) (lt_irrefl _)
    rw [pairCell, pairCell, earlier (cell.1 - 1) cell.2 (by omega) le_rfl (by omega),
      earlier cell.1 (cell.2 - 1) le_rfl (by omega) (by omega),
      earlier (cell.1 - 1) (cell.2 - 1) (by omega) (by omega) (by omega)]
  · rw [mem_cells]
    dsimp only
    omega

/-- No score is more than the pairs it stands for can be worth. -/
theorem pairTable_score_le {row col : ℕ} (inRow : row ≤ run.deletions.length)
    (inCol : col ≤ run.additions.length) :
    ((pairTable run).get row col).1 ≤ min row col * (1000 * run.pairScale + 1) := by
  induction row generalizing col with
  | zero =>
    rw [pairTable_edge inRow inCol (.inl rfl)]
    exact Nat.zero_le _
  | succ row ihRow =>
    induction col with
    | zero =>
      rw [pairTable_edge inRow inCol (.inr rfl)]
      exact Nat.zero_le _
    | succ col ihCol =>
      have grows {count : ℕ} (fewer : count ≤ min (row + 1) (col + 1)) :
          count * (1000 * run.pairScale + 1) ≤ min (row + 1) (col + 1) * (1000 * run.pairScale + 1) :=
        Nat.mul_le_mul_right _ fewer
      rw [pairTable_inner inRow inCol]
      obtain ⟨paired, bounded, -, -, -, -, from_⟩ := pairCell_cases run (pairTable run) row col
      rcases from_ with cell | cell | ⟨-, cell⟩ <;> rw [cell]
      · exact (ihRow (by omega) inCol).trans (grows (by omega))
      · exact (ihCol (by omega)).trans (grows (by omega))
      · have before := @ihRow col (by omega) (by omega)
        have step := run.weight_le row col
        have sum := grows (by omega : min row col + 1 ≤ _)
        rw [Nat.add_mul, Nat.one_mul] at sum
        exact bounded.trans (by omega)

/-- The table says what the best alignments of each pair of beginnings are worth, and where that
comes from. -/
theorem pairTable_solves (fits : run.ScoresFit) :
    Solves (fun old new => run.eligible old new = true) run.weight run.deletions.length run.additions.length
      (fun old new => ((pairTable run).get old new).1)
      (fun old new => ((pairTable run).get old new).2) := by
  have cell (row : ℕ) (inRow : row < run.deletions.length) (col : ℕ) (inCol : col < run.additions.length) :
      let here := ((pairTable run).get row col).1 + run.weight row col
      ((pairTable run).get row (col + 1)).1 ≤ ((pairTable run).get (row + 1) (col + 1)).1 ∧
      ((pairTable run).get (row + 1) col).1 ≤ ((pairTable run).get (row + 1) (col + 1)).1 ∧
      (run.eligible row col = true → here ≤ ((pairTable run).get (row + 1) (col + 1)).1) ∧
      ((pairTable run).get (row + 1) (col + 1) = (((pairTable run).get row (col + 1)).1, .above) ∨
        (pairTable run).get (row + 1) (col + 1) = (((pairTable run).get (row + 1) col).1, .left) ∨
        run.eligible row col = true ∧ (pairTable run).get (row + 1) (col + 1) = (here, .paired)) := by
    obtain ⟨paired, -, exact_, cases⟩ := pairCell_cases run (pairTable run) row col
    rw [pairTable_inner inRow inCol]
    rwa [exact_] at cases
    have before := pairTable_score_le inRow.le inCol.le
    have step := run.weight_le row col
    have sum : (min row col + 1) * (1000 * run.pairScale + 1) ≤
        min run.deletions.length run.additions.length * (1000 * run.pairScale + 1) :=
      Nat.mul_le_mul_right _ (by omega)
    rw [Nat.add_mul, Nat.one_mul] at sum
    rw [ChangedRun.ScoresFit] at fits
    omega
  refine ⟨fun col inCol => ?_, fun row inRow => ?_, fun row inRow col inCol => (cell row inRow col inCol).1,
    fun row inRow col inCol => (cell row inRow col inCol).2.1,
    fun row inRow col inCol => (cell row inRow col inCol).2.2.1, fun row inRow col inCol => ?_⟩
  · rw [pairTable_edge (Nat.zero_le _) inCol (.inl rfl)]
  · rw [pairTable_edge inRow (Nat.zero_le _) (.inr rfl)]
  · rcases (cell row inRow col inCol).2.2.2 with same | same | ⟨allowed, same⟩ <;> rw [same]
    · exact .inl ⟨rfl, rfl⟩
    · exact .inr (.inl ⟨rfl, rfl⟩)
    · exact .inr (.inr ⟨rfl, allowed, rfl⟩)

def pairSimilarity (lines : List PairedLine) (pair : Fin lines.length × Fin lines.length) : ℕ :=
  lineSimilarity lines[pair.1].content lines[pair.2].content

def totalSimilarity (lines : List PairedLine) (pairs : List (Fin lines.length × Fin lines.length)) : ℕ :=
  (pairs.map (pairSimilarity lines)).sum

/-- Pairs of a removed and an added line of the run, in order on both sides, each alike enough or alone. -/
structure ChangedRun.Matching (run : ChangedRun lines.length)
    (pairs : List (Fin lines.length × Fin lines.length)) :
    Prop where
  removed : (pairs.map Prod.fst).Sublist run.deletions
  added : (pairs.map Prod.snd).Sublist run.additions
  eligible : ∀ pair ∈ pairs, minPairSimilarityPerMille ≤ pairSimilarity lines pair ∨
    run.deletions.length = 1 ∧ run.additions.length = 1

/-- The pairs that stand at these places of the run. -/
def ChangedRun.Reads (run : ChangedRun lines.length) (places : List (ℕ × ℕ))
    (pairs : List (Fin lines.length × Fin lines.length)) : Prop :=
  places.Forall₂ (fun place pair => run.deletions[place.1]? = some pair.1 ∧
    run.additions[place.2]? = some pair.2) pairs

variable {places : List (ℕ × ℕ)} {pairs : List (Fin lines.length × Fin lines.length)}

private theorem similarity_at {place : ℕ × ℕ} {pair : Fin lines.length × Fin lines.length}
    (reads : run.deletions[place.1]? = some pair.1 ∧ run.additions[place.2]? = some pair.2) :
    run.similarity place.1 place.2 = pairSimilarity lines pair := by
  rw [ChangedRun.similarity, reads.1, reads.2, pairSimilarity]

private theorem eligible_at {place : ℕ × ℕ} {pair : Fin lines.length × Fin lines.length}
    (reads : run.deletions[place.1]? = some pair.1 ∧ run.additions[place.2]? = some pair.2) :
    run.eligible place.1 place.2 = true ↔ minPairSimilarityPerMille ≤ pairSimilarity lines pair ∨
      run.deletions.length = 1 ∧ run.additions.length = 1 := by
  rw [ChangedRun.eligible, similarity_at reads, Bool.or_eq_true, Bool.and_eq_true, beq_iff_eq, beq_iff_eq,
    decide_eq_true_iff]

/-- The similarities of the pairs are those at their places. -/
theorem ChangedRun.Reads.total_eq (reads : run.Reads places pairs) :
    total run.similarity places = totalSimilarity lines pairs := by
  induction reads with
  | nil => rfl
  | cons here _ ih => rw [total_cons, ih, similarity_at here, totalSimilarity, totalSimilarity,
      List.map_cons, List.sum_cons]

/-- The pairs at the places of an alignment are a matching. -/
theorem ChangedRun.Reads.matching (reads : run.Reads places pairs)
    (aligns : Aligns (fun old new => run.eligible old new = true) run.deletions.length
      run.additions.length places) :
    run.Matching pairs where
  removed := sublist_of_places
    (List.forall₂_map_left_iff.mpr (List.forall₂_map_right_iff.mpr (reads.imp fun _ _ => And.left)))
    (List.pairwise_map.mpr (aligns.ordered.imp And.left))
  added := sublist_of_places
    (List.forall₂_map_left_iff.mpr (List.forall₂_map_right_iff.mpr (reads.imp fun _ _ => And.right)))
    (List.pairwise_map.mpr (aligns.ordered.imp And.right))
  eligible := fun pair member => by
    obtain ⟨place, inside, here⟩ := exists_of_mem_right reads member
    exact (eligible_at here).mp (aligns.eligible place inside)

/-- A matching stands at the places of an alignment. -/
theorem ChangedRun.Matching.exists_places (matching : run.Matching pairs) :
    ∃ places, run.Reads places pairs ∧
      Aligns (fun old new => run.eligible old new = true) run.deletions.length
        run.additions.length places := by
  obtain ⟨places, ordered, reads⟩ := exists_pair_places matching.removed matching.added
  refine ⟨places, reads, ordered, fun place member => ?_, fun place member => ?_⟩
  all_goals obtain ⟨pair, inside, here⟩ := exists_of_mem_right (List.Forall₂.flip reads) member
  · exact ⟨(List.getElem?_eq_some_iff.mp here.1).1, (List.getElem?_eq_some_iff.mp here.2).1⟩
  · exact (eligible_at here).mpr (matching.eligible pair inside)

/-- The pairs found stand at the places of a best alignment. -/
theorem pairRun_places (fits : run.ScoresFit) : ∃ places pairs, pairRun run = some pairs ∧
    run.Reads places pairs ∧
    Aligns (fun old new => run.eligible old new = true) run.deletions.length run.additions.length places ∧
    total run.weight places = ((pairTable run).get run.deletions.length run.additions.length).1 := by
  obtain ⟨places, found, aligns, worth⟩ := (pairTable_solves fits).backtrack_eq le_rfl le_rfl le_rfl
  have inside (place : ℕ × ℕ) (member : place ∈ places) : ∃ pair : Fin lines.length × Fin lines.length,
      run.deletions[place.1]? = some pair.1 ∧ run.additions[place.2]? = some pair.2 := by
    obtain ⟨inRow, inCol⟩ := aligns.within place member
    exact ⟨(run.deletions[place.1], run.additions[place.2]), List.getElem?_eq_getElem inRow,
      List.getElem?_eq_getElem inCol⟩
  obtain ⟨pairs, reads⟩ := exists_forall₂ inside
  refine ⟨places, pairs, ?_, reads, aligns, worth⟩
  have read : places.mapM (fun place => do return (← run.deletions[place.1]?, ← run.additions[place.2]?))
    = some pairs :=
    List.mapM_eq_some_iff.mpr (reads.imp fun place pair here => by rw [here.1, here.2]; rfl)
  rw [pairRun, found]
  exact read

/-- The pairs found are an order-preserving matching. -/
theorem pairRun_matching (fits : run.ScoresFit) : ∃ pairs, pairRun run = some pairs ∧
    run.Matching pairs := by
  obtain ⟨places, pairs, found, reads, aligns, -⟩ := pairRun_places fits
  exact ⟨pairs, found, reads.matching aligns⟩

/-- The pairs found are an order-preserving matching with the greatest similarity and, among those, with the
most pairs. -/
theorem best_matching (run : ChangedRun lines.length) (fits : run.ScoresFit) :
    ∃ pairs, pairRun run = some pairs ∧ run.Matching pairs ∧ ∀ other, run.Matching other →
      totalSimilarity lines other < totalSimilarity lines pairs ∨
        totalSimilarity lines other = totalSimilarity lines pairs ∧ other.length ≤ pairs.length := by
  obtain ⟨places, pairs, found, reads, aligns, worth⟩ := pairRun_places fits
  refine ⟨pairs, found, reads.matching aligns, fun other matching => ?_⟩
  obtain ⟨places', reads', aligns'⟩ := matching.exists_places
  rw [← reads.total_eq, ← reads'.total_eq, ← List.Forall₂.length_eq reads, ← List.Forall₂.length_eq reads']
  have few : places.length < run.pairScale := Nat.lt_succ_of_le aligns.length_le
  refine lex_of_total_le few ?_
  exact ((pairTable_solves fits).total_le le_rfl le_rfl aligns').trans_eq worth.symm

private def changedLine (kind : DiffLineKind) (content : Bytes) : PairedLine :=
  ⟨⟨kind, none, none, content⟩, none, none⟩

/-- Two removed lines, and the same two shifted by an inserted one. -/
def shiftedLines : List PairedLine :=
  [changedLine .deletion [97, 98, 10], changedLine .deletion [99, 100, 10], changedLine .addition [120, 10],
    changedLine .addition [97, 99, 10], changedLine .addition [99, 100, 101, 10]]

def shiftedRun : ChangedRun shiftedLines.length := ⟨([0, 1] : List (Fin 5)), ([2, 3, 4] : List (Fin 5))⟩

theorem best_matching_shifted : (pairRun shiftedRun).map (List.map fun pair => (pair.1.val, pair.2.val)) =
      some [(0, 3), (1, 4)] ∧
    ∃ pairs, pairRun shiftedRun = some pairs ∧ shiftedRun.Matching pairs ∧
      ∀ other, shiftedRun.Matching other →
      totalSimilarity shiftedLines other < totalSimilarity shiftedLines pairs ∨
        totalSimilarity shiftedLines other = totalSimilarity shiftedLines pairs ∧
          other.length ≤ pairs.length :=
  ⟨by decide, best_matching shiftedRun (by decide)⟩

/-- One line rewritten as a whole. -/
def rewrittenLines : List PairedLine :=
  [changedLine .deletion [97, 98, 99, 10], changedLine .addition [120, 121, 122, 10]]

private def rewritten : Fin rewrittenLines.length := (0 : Fin 2)
private def rewriting : Fin rewrittenLines.length := (1 : Fin 2)

/-- A lone rewrite is paired although its lines have nothing in common. -/
theorem rewrite_paired : ∃ run : ChangedRun rewrittenLines.length, ∃ pairs, pairRun run = some pairs ∧
    ∃ pair ∈ pairs, pairSimilarity rewrittenLines pair < minPairSimilarityPerMille :=
  ⟨⟨[rewritten], [rewriting]⟩, [(rewritten, rewriting)], by decide,
    (rewritten, rewriting), List.mem_singleton_self _, by decide⟩

end Pairing

section Runs

variable {lines : List PairedLine}

/-- The runs that are complete, and the lines of the run that is not. -/
structure RunScan (count : ℕ) where
  runs : List (ChangedRun count)
  deletions : List (Fin count)
  additions : List (Fin count)

namespace RunScan

def pushRun {count : ℕ} (scan : RunScan count) : RunScan count :=
  if scan.deletions.isEmpty && scan.additions.isEmpty then scan
  else ⟨scan.runs ++ [⟨scan.deletions, scan.additions⟩], [], []⟩

def visit (lines : List PairedLine) (scan : RunScan lines.length) (index : Fin lines.length) :
    RunScan lines.length :=
  match lines[index].kind with
  | .deletion => { scan with deletions := scan.deletions ++ [index] }
  | .addition => { scan with additions := scan.additions ++ [index] }
  | .context => scan.pushRun
  | .bothEofNoNewline | .oldEofNoNewline | .newEofNoNewline => scan

end RunScan

/-- Splits a hunk at context lines. -/
def changedRuns (lines : List PairedLine) : List (ChangedRun lines.length) :=
  ((List.finRange lines.length).foldl (RunScan.visit lines) ⟨[], [], []⟩).pushRun.runs

namespace ChangedRun

def members {count : ℕ} (run : ChangedRun count) : List (Fin count) := run.deletions ++ run.additions

/-- Removed and added lines in order, with no context line among them. -/
structure Sound (lines : List PairedLine) (run : ChangedRun lines.length) : Prop where
  deletionsOrdered : run.deletions.Pairwise (· < ·)
  additionsOrdered : run.additions.Pairwise (· < ·)
  deleted : ∀ index ∈ run.deletions, lines[index].kind = .deletion
  added : ∀ index ∈ run.additions, lines[index].kind = .addition
  unbroken : ∀ first ∈ run.members, ∀ last ∈ run.members, ∀ index, first < index → index < last →
    lines[index].kind ≠ .context

/-- All of the first run stands before all of the second. -/
def Before {count : ℕ} (first second : ChangedRun count) : Prop :=
  ∀ index ∈ first.members, ∀ index' ∈ second.members, index < index'

theorem sound_nil : Sound lines ⟨[], []⟩ := ⟨.nil, .nil, nofun, nofun, nofun⟩

variable {run : ChangedRun lines.length} {index : Fin lines.length}

/-- No context line comes among some lines when the next line after them joins them. -/
private theorem unbroken_insert {members joined : List (Fin lines.length)}
    (only : ∀ member ∈ joined, member ∈ members ∨ member = index)
    (earlier : ∀ member ∈ members, member < index)
    (unbroken : ∀ first ∈ members, ∀ last ∈ members, ∀ other, first < other → other < last →
      lines[other].kind ≠ .context)
    (open_ : ∀ member ∈ members, ∀ other, member < other → other < index → lines[other].kind ≠ .context) :
    ∀ first ∈ joined, ∀ last ∈ joined, ∀ other, first < other → other < last →
      lines[other].kind ≠ .context := by
  intro first inFirst last inLast other after before
  rcases only first inFirst with old | rfl
  · rcases only last inLast with old' | rfl
    · exact unbroken first old last old' other after before
    · exact open_ first old other after before
  · rcases only last inLast with old' | rfl
    · exact absurd (after.trans before) (earlier last old').asymm
    · exact absurd before after.asymm

private theorem pairwise_concat {places : List (Fin lines.length)} (ordered : places.Pairwise (· < ·))
    (earlier : ∀ place ∈ places, place < index) : (places ++ [index]).Pairwise (· < ·) :=
  List.pairwise_append.mpr ⟨ordered, List.pairwise_singleton _ _,
    fun place inside _ same => List.mem_singleton.mp same ▸ earlier place inside⟩

variable (earlier : ∀ member ∈ run.members, member < index)
  (open_ : ∀ member ∈ run.members, ∀ other, member < other → other < index → lines[other].kind ≠ .context)
include earlier open_

/-- A run with no context line behind it goes on with the next removed line. -/
theorem Sound.delete (sound : run.Sound lines) (kind : lines[index].kind = .deletion) :
    Sound lines ⟨run.deletions ++ [index], run.additions⟩ where
  deletionsOrdered := pairwise_concat sound.deletionsOrdered fun member inside =>
    earlier member (List.mem_append_left _ inside)
  additionsOrdered := sound.additionsOrdered
  deleted := List.forall_mem_append.mpr ⟨sound.deleted, List.forall_mem_singleton.mpr kind⟩
  added := sound.added
  unbroken := unbroken_insert (fun member inside => by
    rw [members, List.append_assoc, List.mem_append, List.mem_append, List.mem_singleton] at inside
    rw [members, List.mem_append]
    tauto) earlier sound.unbroken open_

/-- It goes on with the next added line. -/
theorem Sound.add (sound : run.Sound lines) (kind : lines[index].kind = .addition) :
    Sound lines ⟨run.deletions, run.additions ++ [index]⟩ where
  deletionsOrdered := sound.deletionsOrdered
  additionsOrdered := pairwise_concat sound.additionsOrdered fun member inside =>
    earlier member (List.mem_append_right _ inside)
  deleted := sound.deleted
  added := List.forall_mem_append.mpr ⟨sound.added, List.forall_mem_singleton.mpr kind⟩
  unbroken := unbroken_insert (fun member inside => by
    rw [members, List.mem_append, List.mem_append, List.mem_singleton] at inside
    rw [members, List.mem_append]
    tauto) earlier sound.unbroken open_

end ChangedRun

namespace RunScan

/-- The run whose end is not reached. -/
def pending {count : ℕ} (scan : RunScan count) : ChangedRun count := ⟨scan.deletions, scan.additions⟩

/-- What is known of the runs when this many lines have been visited. -/
structure Visited (lines : List PairedLine) (count : ℕ) (scan : RunScan lines.length) : Prop where
  sound : ∀ run ∈ scan.runs ++ [scan.pending], run.Sound lines
  apart : (scan.runs ++ [scan.pending]).Pairwise ChangedRun.Before
  visited : ∀ run ∈ scan.runs ++ [scan.pending], ∀ index ∈ run.members, index.val < count
  open_ : ∀ index ∈ scan.pending.members, ∀ other, index < other → other.val < count →
    lines[other].kind ≠ .context

variable {scan : RunScan lines.length} {index : Fin lines.length}

/-- A run that has begun ends. -/
theorem Visited.pushRun {count : ℕ} (known : Visited lines count scan) :
    (scan.pushRun.runs ++ [scan.pushRun.pending]).Pairwise ChangedRun.Before ∧
      (∀ run ∈ scan.pushRun.runs ++ [scan.pushRun.pending], run ∈ scan.runs ++ [scan.pending] ∨
        run = ⟨[], []⟩) ∧
      scan.pushRun.pending = ⟨[], []⟩ := by
  rw [RunScan.pushRun]
  split_ifs with none
  · rw [Bool.and_eq_true, List.isEmpty_iff, List.isEmpty_iff] at none
    refine ⟨known.apart, fun run member => .inl member, ?_⟩
    rw [pending, none.1, none.2]
  · refine ⟨List.pairwise_append.mpr ⟨known.apart, List.pairwise_singleton _ _, fun _ _ _ same => ?_⟩,
      fun run member => ?_, rfl⟩
    · rw [List.mem_singleton.mp same]
      exact fun _ _ _ nothing => absurd nothing List.not_mem_nil
    · exact (List.mem_append.mp member).imp id List.mem_singleton.mp

/-- The run goes on with a line that is none of the context. -/
theorem Visited.goOn (known : Visited lines index scan) {pending : ChangedRun lines.length}
    (sound : pending.Sound lines) (changed : lines[index].kind ≠ .context)
    (only : ∀ member ∈ pending.members, member ∈ scan.pending.members ∨ member = index) :
    Visited lines (index + 1) ⟨scan.runs, pending.deletions, pending.additions⟩ := by
  obtain ⟨complete, -, before⟩ := List.pairwise_append.mp known.apart
  have earlier (run : ChangedRun lines.length) (inside : run ∈ scan.runs) (member : Fin lines.length)
      (inRun : member ∈ run.members) : member < index :=
    known.visited run (List.mem_append_left _ inside) member inRun
  have visited (member : Fin lines.length) (inRun : member ∈ scan.pending.members) : member < index :=
    known.visited scan.pending (List.mem_append_right _ (List.mem_singleton_self _)) member inRun
  refine ⟨List.forall_mem_append.mpr ⟨fun run inside => known.sound run (List.mem_append_left _ inside),
      List.forall_mem_singleton.mpr sound⟩,
    List.pairwise_append.mpr ⟨complete, List.pairwise_singleton _ _, fun run inside _ same => ?_⟩,
    List.forall_mem_append.mpr ⟨fun run inside member inRun => ?_, List.forall_mem_singleton.mpr
      fun member inRun => ?_⟩,
    fun member inRun other after bounded => ?_⟩
  · rw [List.mem_singleton.mp same]
    intro first inFirst last inLast
    rcases only last inLast with old | rfl
    · exact before run inside scan.pending (List.mem_singleton_self _) first inFirst last old
    · exact earlier run inside first inFirst
  · exact Nat.lt_succ_of_lt (earlier run inside member inRun)
  · rcases only member inRun with old | rfl
    · exact Nat.lt_succ_of_lt (visited member old)
    · exact Nat.lt_succ_self _
  · rcases (Nat.le_of_lt_succ bounded).lt_or_eq with less | same
    · rcases only member inRun with old | rfl
      · exact known.open_ member old other after less
      · exact absurd after (not_lt.mpr less.le)
    · rwa [Fin.ext same]

/-- Visiting the next line. -/
theorem Visited.visit (known : Visited lines index scan) :
    Visited lines (index + 1) (visit lines scan index) := by
  have sound : scan.pending.Sound lines :=
    known.sound _ (List.mem_append_right _ (List.mem_singleton_self _))
  have earlier : ∀ member ∈ scan.pending.members, member < index :=
    known.visited _ (List.mem_append_right _ (List.mem_singleton_self _))
  have marker (changed : lines[index].kind ≠ .context) : Visited lines (index + 1) scan :=
    known.goOn sound changed fun member inside => .inl inside
  rw [RunScan.visit]
  split
  · next kind =>
    refine known.goOn (sound.delete earlier known.open_ kind) (by rw [kind]; exact nofun)
      fun member inside => ?_
    rw [ChangedRun.members, List.append_assoc, List.mem_append, List.mem_append,
      List.mem_singleton] at inside
    rw [ChangedRun.members, List.mem_append]
    tauto
  · next kind =>
    refine known.goOn (sound.add earlier known.open_ kind) (by rw [kind]; exact nofun)
      fun member inside => ?_
    rw [ChangedRun.members, List.mem_append, List.mem_append, List.mem_singleton] at inside
    rw [ChangedRun.members, List.mem_append]
    tauto
  · obtain ⟨apart, from_, empty⟩ := known.pushRun
    refine ⟨fun run inside => ?_, apart, fun run inside => ?_, fun member inside => ?_⟩
    · rcases from_ run inside with old | rfl
      · exact known.sound run old
      · exact ChangedRun.sound_nil
    · rcases from_ run inside with old | rfl
      · exact fun member inRun => Nat.lt_succ_of_lt (known.visited run old member inRun)
      · exact fun member nothing => absurd nothing List.not_mem_nil
    · rw [empty] at inside
      exact absurd inside List.not_mem_nil
  all_goals
    next kind => exact marker (by rw [kind]; exact nofun)

end RunScan

/-- What holds at first and is kept at every index holds at the last. -/
private theorem foldl_finRange {State : Type*} {count : ℕ} {step : State → Fin count → State}
    {start : State}
    {known : ℕ → State → Prop} (first : known 0 start)
    (next : ∀ index : Fin count, ∀ state, known index state → known (index + 1) (step state index)) :
    known count ((List.finRange count).foldl step start) := by
  have upTo (reached : ℕ) (inside : reached ≤ count) :
      known reached (((List.finRange count).take reached).foldl step start) := by
    induction reached with
    | zero => exact first
    | succ reached ih =>
      have here : reached < (List.finRange count).length := by rwa [List.length_finRange]
      rw [List.take_succ_eq_append_getElem here, List.foldl_append, List.foldl_cons, List.foldl_nil,
        List.getElem_finRange]
      exact next ⟨reached, inside⟩ _ (ih (Nat.le_of_succ_le inside))
  have all := upTo count le_rfl
  rwa [List.take_of_length_le (List.length_finRange).le] at all

/-- The runs of a hunk are sound, and stand one before the other. -/
theorem changedRuns_sound (lines : List PairedLine) :
    (∀ run ∈ changedRuns lines, run.Sound lines) ∧ (changedRuns lines).Pairwise ChangedRun.Before := by
  have start : RunScan.Visited lines 0 ⟨[], [], []⟩ := ⟨List.forall_mem_singleton.mpr ChangedRun.sound_nil,
    List.pairwise_singleton _ _, List.forall_mem_singleton.mpr nofun, nofun⟩
  have known := foldl_finRange start fun index scan known => known.visit
  obtain ⟨apart, from_, -⟩ := known.pushRun
  refine ⟨fun run inside => ?_, (List.pairwise_append.mp apart).1⟩
  rcases from_ run (List.mem_append_left _ inside) with old | rfl
  · exact known.sound run old
  · exact ChangedRun.sound_nil

end Runs

section Annotation

/-- Why a hunk carries only its whole-line marks. -/
inductive IntraLineDegradation where
  | lineTooLong (limit : ℕ)
  | pairingTooLarge (limit : ℕ)
deriving DecidableEq, Repr

/-- What is read and written of a hunk. -/
structure PairedHunk where
  intraLineDegradation : Option IntraLineDegradation
  lines : List PairedLine
deriving DecidableEq, Repr

/-- A pair with the ranges of its lines. -/
structure AnnotatedPair (count : ℕ) where
  deletion : Fin count
  addition : Fin count
  oldRanges : List IntraLineRange
  newRanges : List IntraLineRange

namespace PairedLine

def cleared (line : PairedLine) : PairedLine :=
  { line with pairedLineIndex := none, intraLineRanges := none }

def annotated (index : ℕ) (ranges : List IntraLineRange) (line : PairedLine) : PairedLine :=
  { line with pairedLineIndex := some index, intraLineRanges := some ranges }

end PairedLine

variable {lines : List PairedLine}

def pairableRuns (lines : List PairedLine) : List (ChangedRun lines.length) :=
  (changedRuns lines).filter fun run => !run.deletions.isEmpty && !run.additions.isEmpty

def hasLongLine (lines : List PairedLine) : Bool :=
  (pairableRuns lines).any fun run => (run.deletions ++ run.additions).any fun index =>
    lines[index].content.length > maxIntraLineBytes

def contentBytes (lines : List PairedLine) (indices : List (Fin lines.length)) : ℕ :=
  indices.foldl (fun total index => saturated (total + lines[index].content.length)) 0

/-- The comparisons so far with those that the alignment of a run can need. There are none past the
limit. -/
def countRun (lines : List PairedLine) (comparisons : ℕ) (run : ChangedRun lines.length) : Option ℕ :=
  let deletionBytes := contentBytes lines run.deletions
  let additionBytes := contentBytes lines run.additions
  let candidates := saturated (run.deletions.length * run.additions.length)
  let scannedBytes := saturated (saturated (saturated (run.additions.length * deletionBytes) +
    saturated (run.deletions.length * additionBytes)) * 2)
  let comparisons := saturated (saturated (comparisons + candidates) + scannedBytes)
  if comparisons > maxIntraLineComparisons then none else some comparisons

def rangeCells (old new : Bytes) : ℕ :=
  saturated (saturated ((tokenize old).length + 1) * saturated ((tokenize new).length + 1))

/-- Compares the pairs. There are no annotations past the limit, and no answer where the code would
panic. -/
def annotationsFrom (lines : List PairedLine) :
    ℕ → List (Fin lines.length × Fin lines.length) → Option (Option (List (AnnotatedPair lines.length)))
  | _, [] => some (some [])
  | comparisons, (deletion, addition) :: pairs =>
    let oldContent := lines[deletion].content
    let newContent := lines[addition].content
    if lineSimilarity oldContent newContent = 0 then do
      let annotations ← annotationsFrom lines comparisons pairs
      return annotations.map (⟨deletion, addition, fullRange oldContent, fullRange newContent⟩ :: ·)
    else if saturated (comparisons + rangeCells oldContent newContent) >
      maxIntraLineComparisons then some none
    else do
      let ranges ← changedTokenRanges oldContent (tokenize oldContent) newContent (tokenize newContent)
      let annotations ← annotationsFrom lines (saturated (comparisons + rangeCells oldContent newContent))
        pairs
      return annotations.map (⟨deletion, addition, ranges.1, ranges.2⟩ :: ·)

def applyPair {count : ℕ} (lines : List PairedLine) (entry : AnnotatedPair count) : List PairedLine :=
  (lines.modify entry.deletion (.annotated entry.addition entry.oldRanges)).modify entry.addition
    (.annotated entry.deletion entry.newRanges)

def degradePairing (lines : List PairedLine) : PairedHunk :=
  ⟨some (.pairingTooLarge maxIntraLineComparisons), lines⟩

/-- The annotations of cleared lines. -/
def annotateLines (lines : List PairedLine) : Option PairedHunk :=
  if (pairableRuns lines).isEmpty then some ⟨none, lines⟩
  else if hasLongLine lines then some ⟨some (.lineTooLong maxIntraLineBytes), lines⟩
  else
    match (pairableRuns lines).foldlM (countRun lines) 0 with
    | none => some (degradePairing lines)
    | some comparisons => do
      let pairs ← (pairableRuns lines).mapM pairRun
      match ← annotationsFrom lines comparisons pairs.flatten with
      | none => some (degradePairing lines)
      | some annotations => some ⟨none, annotations.foldl applyPair lines⟩

/-- Adds pair and range metadata to a hunk. -/
def annotate (hunk : PairedHunk) : Option PairedHunk := annotateLines (hunk.lines.map PairedLine.cleared)

/-- What the alignment of a run can need: its candidate pairs, and the bytes of each from both ends. -/
def runWork (lines : List PairedLine) (run : ChangedRun lines.length) : ℕ :=
  run.deletions.length * run.additions.length +
    (run.additions.length * bytesOf lines run.deletions + run.deletions.length * bytesOf lines
      run.additions) * 2

/-- What the comparison of a pair needs: a cell for two tokens each, unless the lines share nothing. -/
def pairWork (lines : List PairedLine) (pair : Fin lines.length × Fin lines.length) : ℕ :=
  if pairSimilarity lines pair = 0 then 0
  else ((tokenize lines[pair.1].content).length + 1) * ((tokenize lines[pair.2].content).length + 1)

theorem saturated_saturated_add (first second : ℕ) :
    saturated (saturated first + second) = saturated (first + second) := by
  rw [saturated, saturated, saturated]
  omega

theorem saturated_add_saturated (first second : ℕ) :
    saturated (first + saturated second) = saturated (first + second) := by
  rw [Nat.add_comm, saturated_saturated_add, Nat.add_comm]

theorem saturated_mul_saturated (first second : ℕ) :
    saturated (first * saturated second) = saturated (first * second) := by
  rcases first.eq_zero_or_pos with rfl | some_
  · rw [Nat.zero_mul, Nat.zero_mul]
  · rw [saturated, saturated, saturated]
    generalize 2 ^ 64 - 1 = limit
    rcases Nat.le_total second limit with fits | over_
    · rw [min_eq_left fits]
    · rw [min_eq_right over_, min_eq_right (Nat.le_mul_of_pos_left limit some_),
        min_eq_right (over_.trans (Nat.le_mul_of_pos_left second some_))]

theorem saturated_saturated_mul (first second : ℕ) :
    saturated (saturated first * second) = saturated (first * second) := by
  rw [Nat.mul_comm, saturated_mul_saturated, Nat.mul_comm]

/-- Saturation does not change on which side of the limit a count is. -/
theorem saturated_of_le {value : ℕ} (few : value ≤ maxIntraLineComparisons) : saturated value = value :=
  saturated_of_lt (few.trans_lt (by decide))

theorem limit_lt_saturated {value : ℕ} : maxIntraLineComparisons < saturated value ↔
    maxIntraLineComparisons < value :=
  lt_min_iff.trans (and_iff_left (by decide))

theorem contentBytes_eq (indices : List (Fin lines.length)) :
    contentBytes lines indices = saturated (bytesOf lines indices) := by
  suffices from_ : ∀ total,
      indices.foldl (fun total index => saturated (total + lines[index].content.length))
        (saturated total) = saturated (total + bytesOf lines indices) from by
    have all := from_ 0
    rwa [Nat.zero_add] at all
  induction indices with
  | nil => exact fun total => rfl
  | cons index indices ih =>
    intro total
    rw [List.foldl_cons, saturated_saturated_add, ih, bytesOf, bytesOf, List.map_cons,
      List.sum_cons, Nat.add_assoc]

theorem countRun_eq (comparisons : ℕ) (run : ChangedRun lines.length) : countRun lines comparisons run =
    if maxIntraLineComparisons < comparisons + runWork lines run then none else some
      (comparisons + runWork lines run) := by
  have sum : saturated (saturated (comparisons + saturated (run.deletions.length * run.additions.length)) +
      saturated (saturated (saturated (run.additions.length * contentBytes lines run.deletions) +
        saturated (run.deletions.length * contentBytes lines run.additions)) * 2)) =
      saturated (comparisons + runWork lines run) := by
    rw [contentBytes_eq, contentBytes_eq, saturated_mul_saturated, saturated_mul_saturated,
      saturated_saturated_add, saturated_saturated_add,
      saturated_add_saturated (run.additions.length * bytesOf lines run.deletions),
      saturated_saturated_mul, saturated_add_saturated, Nat.add_right_comm, saturated_add_saturated, runWork,
      Nat.add_right_comm, Nat.add_assoc]
  rw [countRun, sum]
  by_cases many : maxIntraLineComparisons < comparisons + runWork lines run
  · rw [if_pos many, if_pos (limit_lt_saturated.mpr many)]
  · rw [if_neg many, if_neg (limit_lt_saturated.not.mpr many), saturated_of_le (not_lt.mp many)]

theorem foldlM_countRun {comparisons : ℕ} (few : comparisons ≤ maxIntraLineComparisons)
    (runs : List (ChangedRun lines.length)) : runs.foldlM (countRun lines) comparisons =
      if maxIntraLineComparisons < comparisons + (runs.map (runWork lines)).sum then none
      else some (comparisons + (runs.map (runWork lines)).sum) := by
  induction runs generalizing comparisons with
  | nil => rw [List.foldlM_nil, List.map_nil, List.sum_nil, Nat.add_zero, if_neg (not_lt.mpr few)]; rfl
  | cons run runs ih =>
    rw [List.foldlM_cons, countRun_eq, List.map_cons, List.sum_cons, ← Nat.add_assoc]
    by_cases many : maxIntraLineComparisons < comparisons + runWork lines run
    · rw [if_pos many, if_pos (many.trans_le (Nat.le_add_right _ _))]
      rfl
    · rw [if_neg many, ← ih (not_lt.mp many)]
      rfl

/-- Removed lines paired with added ones, in order on both sides and each pair in one run. -/
structure PairsSound (lines : List PairedLine) (pairs : List (Fin lines.length × Fin lines.length)) :
    Prop where
  ordered : pairs.Pairwise fun first second => first.1 < second.1 ∧ first.2 < second.2
  sided : ∀ pair ∈ pairs, lines[pair.1].kind = .deletion ∧ lines[pair.2].kind = .addition
  unbroken : ∀ pair ∈ pairs, ∀ index, pair.1 < index ∧ index < pair.2 ∨ pair.2 < index ∧ index < pair.1 →
    lines[index].kind ≠ .context

variable {run : ChangedRun lines.length} {pairs : List (Fin lines.length × Fin lines.length)}

theorem ChangedRun.Matching.mem_members (matching : run.Matching pairs)
    {pair : Fin lines.length × Fin lines.length}
    (member : pair ∈ pairs) : pair.1 ∈ run.deletions ∧ pair.2 ∈ run.additions :=
  ⟨matching.removed.subset (List.mem_map_of_mem member), matching.added.subset (List.mem_map_of_mem member)⟩

/-- A matching of a run pairs its lines soundly. -/
theorem ChangedRun.Matching.pairsSound (matching : run.Matching pairs) (sound : run.Sound lines) :
    PairsSound lines pairs where
  ordered := (List.pairwise_map.mp (sound.deletionsOrdered.sublist matching.removed)).and
    (List.pairwise_map.mp (sound.additionsOrdered.sublist matching.added))
  sided pair member := ⟨sound.deleted _ (matching.mem_members member).1,
    sound.added _ (matching.mem_members member).2⟩
  unbroken pair member index between := by
    have deletion : pair.1 ∈ run.members := List.mem_append_left _ (matching.mem_members member).1
    have addition : pair.2 ∈ run.members := List.mem_append_right _ (matching.mem_members member).2
    rcases between with between | between
    · exact sound.unbroken _ deletion _ addition index between.1 between.2
    · exact sound.unbroken _ addition _ deletion index between.1 between.2

/-- So do matchings of runs that stand one before the other. -/
theorem pairsSound_flatten {runs : List (ChangedRun lines.length)}
    {matchings : List (List (Fin lines.length × Fin lines.length))} (sound : ∀ run ∈ runs, run.Sound lines)
    (apart : runs.Pairwise ChangedRun.Before)
    (matched : runs.Forall₂ (fun run pairs => run.Matching pairs) matchings) :
    PairsSound lines matchings.flatten := by
  induction matched with
  | nil => exact ⟨.nil, nofun, nofun⟩
  | @cons run pairs runs matchings here rest ih =>
    obtain ⟨first, others⟩ := List.forall_mem_cons.mp sound
    obtain ⟨before, apart⟩ := List.pairwise_cons.mp apart
    have later := ih others apart
    have now := here.pairsSound first
    rw [List.flatten_cons]
    refine ⟨List.pairwise_append.mpr ⟨now.ordered, later.ordered, fun pair member pair' member' => ?_⟩,
      List.forall_mem_append.mpr ⟨now.sided, later.sided⟩, List.forall_mem_append.mpr
        ⟨now.unbroken, later.unbroken⟩⟩
    obtain ⟨pairs', inside, member'⟩ := List.mem_flatten.mp member'
    obtain ⟨run', inRuns, there⟩ := Alignment.exists_of_mem_right rest inside
    have ahead := before run' inRuns
    exact ⟨ahead _ (List.mem_append_left _ (here.mem_members member).1) _
        (List.mem_append_left _ (there.mem_members member').1),
      ahead _ (List.mem_append_right _ (here.mem_members member).2) _
        (List.mem_append_right _ (there.mem_members member').2)⟩

theorem pairableRuns_sound (lines : List PairedLine) :
    (∀ run ∈ pairableRuns lines, run.Sound lines) ∧ (pairableRuns lines).Pairwise ChangedRun.Before :=
  ⟨fun run member => (changedRuns_sound lines).1 run (List.mem_filter.mp member).1,
    (changedRuns_sound lines).2.sublist List.filter_sublist⟩

/-- Runs within the limit are paired. -/
theorem mapM_pairRun {runs : List (ChangedRun lines.length)}
    (few : (runs.map (runWork lines)).sum ≤ maxIntraLineComparisons) :
    runs.mapM pairRun = some (runs.map fun run => (pairRun run).getD []) ∧
      runs.Forall₂ (fun run pairs => run.Matching pairs) (runs.map fun run => (pairRun run).getD []) := by
  have paired (run : ChangedRun lines.length) (member : run ∈ runs) :
      pairRun run = some ((pairRun run).getD []) ∧ run.Matching ((pairRun run).getD []) := by
    have part : runWork lines run ≤ (runs.map (runWork lines)).sum :=
      List.single_le_sum (fun _ _ => Nat.zero_le _) _ (List.mem_map_of_mem member)
    have candidates : run.deletions.length * run.additions.length ≤ maxIntraLineComparisons :=
      (Nat.le_add_right _ _).trans (part.trans few)
    obtain ⟨pairs, found, matching⟩ := pairRun_matching (scoresFit_of_candidates candidates)
    rw [found]
    exact ⟨rfl, matching⟩
  refine ⟨List.mapM_eq_some fun run member => (paired run member).1, ?_⟩
  rw [List.forall₂_map_right_iff]
  exact List.forall₂_same.mpr fun run member => (paired run member).2

/-- An entry gives the lines of a pair changed ranges. -/
structure Describes (lines : List PairedLine) (pair : Fin lines.length × Fin lines.length)
    (entry : AnnotatedPair lines.length) : Prop where
  deletion_eq : entry.deletion = pair.1
  addition_eq : entry.addition = pair.2
  changed : ChangedRanges lines[pair.1].content lines[pair.2].content (entry.oldRanges, entry.newRanges)

/-- Pairs within the limit are annotated. -/
theorem annotationsFrom_eq {comparisons : ℕ} (few : comparisons ≤ maxIntraLineComparisons)
    (pairs : List (Fin lines.length × Fin lines.length)) :
    ∃ annotations, pairs.Forall₂ (Describes lines) annotations ∧ annotationsFrom lines comparisons pairs =
      some (if maxIntraLineComparisons < comparisons + (pairs.map (pairWork lines)).sum then none
        else some annotations) := by
  induction pairs generalizing comparisons with
  | nil => exact ⟨[], .nil, by rw [List.map_nil, List.sum_nil, Nat.add_zero, if_neg (not_lt.mpr few),
      annotationsFrom]⟩
  | cons pair pairs ih =>
    obtain ⟨deletion, addition⟩ := pair
    rw [annotationsFrom, List.map_cons, List.sum_cons, ← Nat.add_assoc, pairWork]
    change ∃ annotations, _ ∧ (if pairSimilarity lines (deletion, addition) = 0 then _ else _) = _
    by_cases unlike : pairSimilarity lines (deletion, addition) = 0
    · rw [if_pos unlike, if_pos unlike, Nat.add_zero]
      obtain ⟨annotations, described, rest⟩ := ih few
      refine ⟨⟨deletion, addition, fullRange lines[deletion].content, fullRange lines[addition].content⟩
        :: annotations,
        .cons ⟨rfl, rfl, fullRange_changed _ _⟩ described, ?_⟩
      rw [rest]
      split_ifs <;> rfl
    · rw [if_neg unlike, if_neg unlike]
      have cells : saturated (comparisons + rangeCells lines[deletion].content lines[addition].content) =
          saturated (comparisons + ((tokenize lines[deletion].content).length + 1) *
            ((tokenize lines[addition].content).length + 1)) := by
        rw [rangeCells, saturated_mul_saturated, saturated_saturated_mul, saturated_add_saturated]
      rw [cells]
      obtain ⟨ranges, found, changed⟩ := changedTokenRanges_changed lines[deletion].content
        lines[addition].content
      by_cases many : maxIntraLineComparisons < comparisons +
        ((tokenize lines[deletion].content).length + 1) *
          ((tokenize lines[addition].content).length + 1)
      · obtain ⟨annotations, described, -⟩ := ih few
        refine ⟨⟨deletion, addition, _, _⟩ :: annotations, .cons ⟨rfl, rfl, changed⟩ described, ?_⟩
        rw [if_pos (limit_lt_saturated.mpr many), if_pos (many.trans_le (Nat.le_add_right _ _))]
      · obtain ⟨annotations, described, rest⟩ := ih (not_lt.mp many)
        refine ⟨⟨deletion, addition, _, _⟩ :: annotations, .cons ⟨rfl, rfl, changed⟩ described, ?_⟩
        rw [if_neg (limit_lt_saturated.not.mpr many), saturated_of_le (not_lt.mp many), found, rest]
        split_ifs <;> rfl

section Application

variable {count : ℕ} {entry : AnnotatedPair count} {annotations : List (AnnotatedPair count)}
  {lines : List PairedLine}

def AnnotatedPair.touched (entry : AnnotatedPair count) : List ℕ := [entry.deletion, entry.addition]

theorem applyPair_untouched {index : ℕ} (apart : index ∉ entry.touched) :
    (applyPair lines entry)[index]? = lines[index]? := by
  rw [AnnotatedPair.touched, List.mem_cons, List.mem_singleton, not_or] at apart
  rw [applyPair, List.getElem?_modify_ne _ _ (Ne.symm apart.2), List.getElem?_modify_ne _ _
    (Ne.symm apart.1)]

theorem foldl_untouched {index : ℕ} (apart : ∀ entry ∈ annotations, index ∉ entry.touched) :
    (annotations.foldl applyPair lines)[index]? = lines[index]? := by
  induction annotations generalizing lines with
  | nil => rfl
  | cons entry annotations ih =>
    obtain ⟨first, others⟩ := List.forall_mem_cons.mp apart
    rw [List.foldl_cons, ih others, applyPair_untouched first]

/-- Each entry is what becomes of its two lines, as no other touches them. -/
theorem foldl_touched (lines : List PairedLine)
    (distinct : (annotations.flatMap AnnotatedPair.touched).Nodup) (member : entry ∈ annotations) :
    (annotations.foldl applyPair lines)[entry.deletion.val]? =
        lines[entry.deletion.val]?.map (.annotated entry.addition entry.oldRanges) ∧
      (annotations.foldl applyPair lines)[entry.addition.val]? =
        lines[entry.addition.val]?.map (.annotated entry.deletion entry.newRanges) := by
  induction annotations generalizing lines with
  | nil => exact absurd member List.not_mem_nil
  | cons first annotations ih =>
    rw [List.flatMap_cons, List.nodup_append] at distinct
    obtain ⟨own, others, apart⟩ := distinct
    rw [List.foldl_cons]
    rcases List.mem_cons.mp member with rfl | later
    · have alone (index : ℕ) (here : index ∈ entry.touched) :
        ∀ other ∈ annotations, index ∉ other.touched :=
        fun other inside there => apart index here index (List.mem_flatMap.mpr ⟨other, inside, there⟩) rfl
      have sides : entry.deletion.val ≠ entry.addition.val := by
        rw [AnnotatedPair.touched, List.nodup_cons, List.mem_singleton] at own
        exact own.1
      rw [foldl_untouched (alone _ List.mem_cons_self),
        foldl_untouched (alone _ (List.mem_cons_of_mem _ (List.mem_singleton_self _))), applyPair]
      constructor
      · rw [List.getElem?_modify_ne _ _ sides.symm, List.getElem?_modify_eq, Option.map_eq_map]
      · rw [List.getElem?_modify_eq, List.getElem?_modify_ne _ _ sides, Option.map_eq_map]
    · have kept (index : ℕ) (here : index ∈ entry.touched) :
          (applyPair lines first)[index]? = lines[index]? := by
        refine applyPair_untouched fun there => ?_
        exact apart index there index (List.mem_flatMap.mpr ⟨entry, later, here⟩) rfl
      obtain ⟨deletion, addition⟩ := ih (applyPair lines first) others later
      rw [deletion, addition, kept _ List.mem_cons_self,
        kept _ (List.mem_cons_of_mem _ (List.mem_singleton_self _))]
      exact ⟨rfl, rfl⟩

theorem applyPair_toDiffLine :
    (applyPair lines entry).map PairedLine.toDiffLine = lines.map PairedLine.toDiffLine := by
  have kept (index place : ℕ) (ranges : List IntraLineRange) (lines : List PairedLine) :
      (lines.modify place (.annotated index ranges)).map PairedLine.toDiffLine =
        lines.map PairedLine.toDiffLine := by
    refine List.ext_getElem? fun here => ?_
    rw [List.getElem?_map, List.getElem?_map, List.getElem?_modify, Option.map_eq_map, Option.map_map]
    refine congrFun (congrArg Option.map (funext fun line => ?_)) _
    rw [Function.comp_apply]
    split_ifs <;> rfl
  rw [applyPair, kept, kept]

theorem foldl_toDiffLine :
    (annotations.foldl applyPair lines).map PairedLine.toDiffLine = lines.map PairedLine.toDiffLine := by
  induction annotations generalizing lines with
  | nil => rfl
  | cons entry annotations ih => rw [List.foldl_cons, ih, applyPair_toDiffLine]

end Application

def counterpart (lines : List PairedLine) (index : ℕ) : Option ℕ :=
  lines[index]?.bind PairedLine.pairedLineIndex

def kindAt (lines : List PairedLine) (index : ℕ) : Option DiffLineKind :=
  (lines.map PairedLine.toDiffLine)[index]?.map DiffLine.kind

def PairedLine.Plain (line : PairedLine) : Prop := line.pairedLineIndex = none ∧ line.intraLineRanges = none

/-- Pairs are symmetric, of a removed and an added line of one run and in order; their ranges cover
what differs. -/
structure Paired (lines : List PairedLine) : Prop where
  symmetric : ∀ {index index'}, counterpart lines index = some index' →
    counterpart lines index' = some index
  sided : ∀ {index index'}, counterpart lines index = some index' →
    kindAt lines index = some .deletion ∧ kindAt lines index' = some .addition ∨
      kindAt lines index = some .addition ∧ kindAt lines index' = some .deletion
  oneRun : ∀ {index index'}, counterpart lines index = some index' →
    ∀ between, index < between → between < index' → kindAt lines between ≠ some .context
  ordered : ∀ {first first' second second'}, counterpart lines first = some first' →
    counterpart lines second = some second' → kindAt lines first = kindAt lines second → first < second →
    first' < second'
  rangesOnPairs : ∀ line ∈ lines, line.pairedLineIndex.isSome = line.intraLineRanges.isSome
  changed : ∀ {index index'}, counterpart lines index = some index' → kindAt lines index = some .deletion →
    ∃ old new oldRanges newRanges, lines[index]? = some old ∧ lines[index']? = some new ∧
      old.intraLineRanges = some oldRanges ∧ new.intraLineRanges = some newRanges ∧
      ChangedRanges old.content new.content (oldRanges, newRanges)

theorem counterpart_of_plain {lines : List PairedLine} (plain : ∀ line ∈ lines, line.Plain) (index : ℕ) :
    counterpart lines index = none := by
  rw [counterpart, Option.bind_eq_none_iff]
  exact fun line here => (plain line (List.mem_of_getElem? here)).1

theorem paired_of_plain {lines : List PairedLine} (plain : ∀ line ∈ lines, line.Plain) : Paired lines := by
  have never {index index' : ℕ} (paired : counterpart lines index = some index') : False := by
    rw [counterpart_of_plain plain] at paired
    exact nomatch paired
  exact ⟨fun paired => (never paired).elim, fun paired => (never paired).elim,
    fun paired => (never paired).elim, fun paired => (never paired).elim,
    fun line member => by rw [(plain line member).1, (plain line member).2]; rfl,
    fun paired => (never paired).elim⟩

def AnnotatedPair.pair {count : ℕ} (entry : AnnotatedPair count) : Fin count × Fin count :=
  (entry.deletion, entry.addition)

section Pairs

variable {annotations : List (AnnotatedPair lines.length)}

/-- No two annotations of sound pairs touch one line. -/
theorem PairsSound.touched_nodup (sound : PairsSound lines (annotations.map AnnotatedPair.pair)) :
    (annotations.flatMap AnnotatedPair.touched).Nodup := by
  have apart {deletion addition : Fin lines.length} (removed : lines[deletion].kind = .deletion)
      (added : lines[addition].kind = .addition) : deletion.val ≠ addition.val := by
    intro same
    rw [Fin.ext same, added] at removed
    exact nomatch removed
  have sided := List.forall_mem_map.mp sound.sided
  rw [List.nodup_flatMap]
  refine ⟨fun entry member => ?_, ?_⟩
  · obtain ⟨removed, added⟩ := sided entry member
    exact List.nodup_cons.mpr ⟨fun same => apart removed added (List.mem_singleton.mp same),
      List.nodup_singleton _⟩
  · refine (List.pairwise_map.mp sound.ordered).imp_of_mem fun {first second} inFirst inSecond before => ?_
    obtain ⟨removed, added⟩ := sided first inFirst
    obtain ⟨removed', added'⟩ := sided second inSecond
    rw [Function.onFun, AnnotatedPair.touched, AnnotatedPair.touched, List.disjoint_cons_left,
      List.singleton_disjoint,
      List.mem_cons, List.mem_singleton, List.mem_cons, List.mem_singleton, not_or, not_or]
    exact ⟨⟨(Fin.val_fin_lt.mpr before.1).ne, apart removed added'⟩, (apart removed' added).symm,
      (Fin.val_fin_lt.mpr before.2).ne⟩

variable (sound : PairsSound lines (annotations.map AnnotatedPair.pair))
include sound

/-- The lines of an entry refer to each other, with its ranges. -/
theorem PairsSound.annotated {entry : AnnotatedPair lines.length} (member : entry ∈ annotations) :
    (annotations.foldl applyPair lines)[entry.deletion.val]? =
        some (lines[entry.deletion].annotated entry.addition entry.oldRanges) ∧
      (annotations.foldl applyPair lines)[entry.addition.val]? =
        some (lines[entry.addition].annotated entry.deletion entry.newRanges) := by
  obtain ⟨deletion, addition⟩ := foldl_touched lines sound.touched_nodup member
  rw [deletion, addition, List.getElem?_eq_getElem entry.deletion.isLt,
    List.getElem?_eq_getElem entry.addition.isLt]
  exact ⟨rfl, rfl⟩

/-- The counterparts are those of the annotations. -/
theorem PairsSound.counterpart_eq_some (plain : ∀ line ∈ lines, line.Plain) {index index' : ℕ} :
    counterpart (annotations.foldl applyPair lines) index = some index' ↔
      ∃ entry ∈ annotations, index = entry.deletion ∧ index' = entry.addition ∨
        index = entry.addition ∧ index' = entry.deletion := by
  constructor
  · intro paired
    by_cases touched : ∃ entry ∈ annotations, index ∈ entry.touched
    · obtain ⟨entry, member, here⟩ := touched
      obtain ⟨deletion, addition⟩ := sound.annotated member
      refine ⟨entry, member, ?_⟩
      rw [AnnotatedPair.touched, List.mem_cons, List.mem_singleton] at here
      rcases here with rfl | rfl
      · rw [counterpart, deletion] at paired
        exact .inl ⟨rfl, (Option.some.inj paired).symm⟩
      · rw [counterpart, addition] at paired
        exact .inr ⟨rfl, (Option.some.inj paired).symm⟩
    · push Not at touched
      rw [counterpart, foldl_untouched touched] at paired
      obtain ⟨line, here, paired⟩ := Option.bind_eq_some_iff.mp paired
      rw [(plain line (List.mem_of_getElem? here)).1] at paired
      exact nomatch paired
  · rintro ⟨entry, member, ⟨rfl, rfl⟩ | ⟨rfl, rfl⟩⟩
    · rw [counterpart, (sound.annotated member).1]
      rfl
    · rw [counterpart, (sound.annotated member).2]
      rfl

omit sound in
theorem kindAt_foldl (index : Fin lines.length) :
    kindAt (annotations.foldl applyPair lines) index = some lines[index].kind := by
  rw [kindAt, foldl_toDiffLine, List.getElem?_map, List.getElem?_eq_getElem index.isLt]
  rfl

/-- Two annotations are in order on both sides. -/
theorem PairsSound.lt_iff {first second : AnnotatedPair lines.length} (inFirst : first ∈ annotations)
    (inSecond : second ∈ annotations) : first.deletion < second.deletion ↔
      first.addition < second.addition := by
  have before := List.pairwise_map.mp sound.ordered
  exact List.Pairwise.forall_of_forall_of_flip
    (R := fun first second => first.deletion < second.deletion ↔ first.addition < second.addition)
    (fun _ _ => iff_of_false (lt_irrefl _) (lt_irrefl _)) (before.imp fun both => iff_of_true both.1 both.2)
    (before.imp fun both => iff_of_false both.1.asymm both.2.asymm) inFirst inSecond

/-- Annotations of sound pairs leave the lines paired. -/
theorem PairsSound.paired (plain : ∀ line ∈ lines, line.Plain)
    (changed : ∀ entry ∈ annotations, ChangedRanges lines[entry.deletion].content
      lines[entry.addition].content (entry.oldRanges, entry.newRanges)) :
    Paired (annotations.foldl applyPair lines) := by
  have sided (entry : AnnotatedPair lines.length) (member : entry ∈ annotations) :
      kindAt (annotations.foldl applyPair lines) entry.deletion = some .deletion ∧
        kindAt (annotations.foldl applyPair lines) entry.addition = some .addition := by
    obtain ⟨removed, added⟩ := List.forall_mem_map.mp sound.sided entry member
    rw [kindAt_foldl, kindAt_foldl]
    exact ⟨congrArg some removed, congrArg some added⟩
  have apart {entry entry' : AnnotatedPair lines.length} (member : entry ∈ annotations)
      (member' : entry' ∈ annotations) :
      kindAt (annotations.foldl applyPair lines) entry.deletion ≠
        kindAt (annotations.foldl applyPair lines) entry'.addition := by
    rw [(sided entry member).1, (sided entry' member').2]
    exact nofun
  refine ⟨fun paired => ?_, fun paired => ?_, fun paired between after before => ?_,
    fun {first first' second second'} paired paired' side before => ?_, fun line member => ?_,
      fun paired kind => ?_⟩
  · rw [sound.counterpart_eq_some plain] at paired ⊢
    obtain ⟨entry, member, way⟩ := paired
    exact ⟨entry, member, way.symm.imp And.symm And.symm⟩
  · obtain ⟨entry, member, ⟨rfl, rfl⟩ | ⟨rfl, rfl⟩⟩ := (sound.counterpart_eq_some plain).mp paired
    · exact .inl (sided entry member)
    · exact .inr (sided entry member).symm
  · obtain ⟨entry, member, way⟩ := (sound.counterpart_eq_some plain).mp paired
    have unbroken := List.forall_mem_map.mp sound.unbroken entry member
    have inside : between < lines.length := by
      rcases way with ⟨-, rfl⟩ | ⟨-, rfl⟩
      · exact before.trans entry.addition.isLt
      · exact before.trans entry.deletion.isLt
    rw [kindAt_foldl ⟨between, inside⟩, Ne, Option.some_inj]
    refine unbroken ⟨between, inside⟩ ?_
    rcases way with ⟨rfl, rfl⟩ | ⟨rfl, rfl⟩
    · exact .inl ⟨after, before⟩
    · exact .inr ⟨after, before⟩
  · obtain ⟨entry, member, way⟩ := (sound.counterpart_eq_some plain).mp paired
    obtain ⟨entry', member', way'⟩ := (sound.counterpart_eq_some plain).mp paired'
    rcases way with ⟨rfl, rfl⟩ | ⟨rfl, rfl⟩ <;> rcases way' with ⟨rfl, rfl⟩ | ⟨rfl, rfl⟩
    · exact (sound.lt_iff member member').mp before
    · exact absurd side (apart member member')
    · exact absurd side.symm (apart member' member)
    · exact (sound.lt_iff member member').mpr before
  · obtain ⟨index, here⟩ := List.getElem?_of_mem member
    by_cases touched : ∃ entry ∈ annotations, index ∈ entry.touched
    · obtain ⟨entry, member, inside⟩ := touched
      obtain ⟨deletion, addition⟩ := sound.annotated member
      rw [AnnotatedPair.touched, List.mem_cons, List.mem_singleton] at inside
      rcases inside with rfl | rfl
      · rw [← Option.some.inj (deletion.symm.trans here)]
        rfl
      · rw [← Option.some.inj (addition.symm.trans here)]
        rfl
    · push Not at touched
      rw [foldl_untouched touched] at here
      obtain ⟨noIndex, noRanges⟩ := plain line (List.mem_of_getElem? here)
      rw [noIndex, noRanges]
      rfl
  · obtain ⟨entry, member, ⟨rfl, rfl⟩ | ⟨rfl, rfl⟩⟩ := (sound.counterpart_eq_some plain).mp paired
    · obtain ⟨deletion, addition⟩ := sound.annotated member
      exact ⟨_, _, _, _, deletion, addition, rfl, rfl, changed entry member⟩
    · rw [(sided entry member).2] at kind
      exact nomatch kind

end Pairs

/-- All comparisons that a hunk needs. -/
def comparisonsOf (lines : List PairedLine) : ℕ :=
  ((pairableRuns lines).map (runWork lines)).sum +
    (((pairableRuns lines).map fun run => (pairRun run).getD []).flatten.map (pairWork lines)).sum

/-- No length of the table for two lines saturates. -/
def LengthsExact (old new : Bytes) : Prop :=
  ∀ oldIndex ≤ (tokenize old).length, ∀ newIndex ≤ (tokenize new).length,
    let lengths := tokenLengths (sameTokens old (tokenize old) new (tokenize new)) (tokenize old).length
      (tokenize new).length
    lengthSucc (lengths.get oldIndex newIndex) = lengths.get oldIndex newIndex + 1

/-- What becomes of cleared lines. -/
structure Annotated (lines : List PairedLine) (hunk : PairedHunk) : Prop where
  unchanged : hunk.lines.map PairedLine.toDiffLine = lines.map PairedLine.toDiffLine
  paired : Paired hunk.lines
  tooLong : hunk.intraLineDegradation = some (.lineTooLong maxIntraLineBytes) ↔ hasLongLine lines = true
  tooLarge : hunk.intraLineDegradation = some (.pairingTooLarge maxIntraLineComparisons) ↔
    hasLongLine lines = false ∧ maxIntraLineComparisons < comparisonsOf lines
  withheld : hasLongLine lines = true ∨ maxIntraLineComparisons < comparisonsOf lines →
    ∀ line ∈ hunk.lines, line.Plain
  unsaturated : hasLongLine lines = false → ∀ run ∈ pairableRuns lines, ∀ deletion ∈ run.deletions,
    ∀ addition ∈ run.additions, LengthsExact lines[deletion].content lines[addition].content
  matched : hasLongLine lines = false → comparisonsOf lines ≤ maxIntraLineComparisons → ∀ index index',
    counterpart hunk.lines index = some index' ↔ ∃ run ∈ pairableRuns lines, ∃ pairs,
      pairRun run = some pairs ∧ ∃ pair ∈ pairs,
        index = pair.1 ∧ index' = pair.2 ∨ index = pair.2 ∧ index' = pair.1

theorem lengthsExact_of_short {old new : Bytes} (short : old.length ≤ maxIntraLineBytes) :
    LengthsExact old new := by
  intro oldIndex inOld newIndex inNew
  refine lengthSucc_tokenLengths ?_ inOld inNew
  calc min (tokenize old).length (tokenize new).length
    _ ≤ (tokenize old).length := min_le_left _ _
    _ ≤ maxIntraLineBytes := (tokenize_length_le old).trans short
    _ < 2 ^ 16 - 1 := by decide

theorem short_of_hasLongLine (short : hasLongLine lines = false) {run : ChangedRun lines.length}
    (member : run ∈ pairableRuns lines) {index : Fin lines.length} (inside : index ∈ run.members) :
    lines[index].content.length ≤ maxIntraLineBytes := by
  rw [hasLongLine, List.any_eq_false] at short
  have here := short run member
  rw [Bool.not_eq_true, List.any_eq_false] at here
  have line := here index inside
  rwa [decide_eq_true_iff, not_lt] at line

/-- The annotations of pairs are those pairs, with changed ranges. -/
theorem pairs_of_described {pairs : List (Fin lines.length × Fin lines.length)}
    {annotations : List (AnnotatedPair lines.length)}
    (described : pairs.Forall₂ (Describes lines) annotations) :
    annotations.map AnnotatedPair.pair = pairs ∧ ∀ entry ∈ annotations,
      ChangedRanges lines[entry.deletion].content lines[entry.addition].content
        (entry.oldRanges, entry.newRanges) := by
  induction described with
  | nil => exact ⟨rfl, nofun⟩
  | @cons pair entry _ _ here _ ih =>
    obtain ⟨same, changed⟩ := ih
    obtain ⟨deletion, addition, oldRanges, newRanges⟩ := entry
    obtain ⟨rfl, rfl⟩ : deletion = pair.1 ∧ addition = pair.2 := ⟨here.deletion_eq, here.addition_eq⟩
    exact ⟨by rw [List.map_cons, same]; rfl, List.forall_mem_cons.mpr ⟨here.changed, changed⟩⟩

/-- Annotating cleared lines reaches no panic. -/
theorem annotateLines_annotated (plain : ∀ line ∈ lines, line.Plain) :
    ∃ hunk, annotateLines lines = some hunk ∧ Annotated lines hunk := by
  have lengths (short : hasLongLine lines = false) (run : ChangedRun lines.length)
    (member : run ∈ pairableRuns lines)
      (deletion : Fin lines.length) (removed : deletion ∈ run.deletions) (addition : Fin lines.length)
      (_ : addition ∈ run.additions) : LengthsExact lines[deletion].content lines[addition].content :=
    lengthsExact_of_short (short_of_hasLongLine short member (List.mem_append_left _ removed))
  rw [annotateLines]
  by_cases none_ : (pairableRuns lines).isEmpty = true
  · have empty := List.isEmpty_iff.mp none_
    have short : hasLongLine lines = false := by rw [hasLongLine, empty, List.any_nil]
    have few : ¬ maxIntraLineComparisons < comparisonsOf lines := by
      rw [comparisonsOf, empty]
      exact Nat.not_lt_zero _
    rw [if_pos none_]
    refine ⟨_, rfl, rfl, paired_of_plain plain, iff_of_false nofun ?_, iff_of_false nofun
      fun both => few both.2,
      fun _ => plain, lengths, fun _ _ index index' => ?_⟩
    · rw [short]
      exact Bool.false_ne_true
    · rw [counterpart_of_plain plain, empty]
      exact iff_of_false nofun fun ⟨_, member, _⟩ => List.not_mem_nil member
  rw [if_neg none_]
  by_cases long : hasLongLine lines = true
  · rw [if_pos long]
    refine ⟨_, rfl, rfl, paired_of_plain plain, iff_of_true rfl long, iff_of_false nofun ?_,
      fun _ => plain, lengths, fun short => absurd long (Bool.eq_false_iff.mp short)⟩
    rw [long]
    exact fun both => Bool.false_ne_true both.1.symm
  have short : hasLongLine lines = false := Bool.eq_false_of_not_eq_true long
  rw [if_neg long, foldlM_countRun (Nat.zero_le _), Nat.zero_add]
  -- Past the limit the lines stay as they are.
  have degraded (many : maxIntraLineComparisons < comparisonsOf lines) :
    Annotated lines (degradePairing lines) :=
    ⟨rfl, paired_of_plain plain, iff_of_false nofun long, iff_of_true rfl ⟨short, many⟩,
      fun _ => plain, lengths, fun _ few => absurd many (not_lt.mpr few)⟩
  by_cases many : maxIntraLineComparisons < ((pairableRuns lines).map (runWork lines)).sum
  · rw [if_pos many]
    exact ⟨_, rfl, degraded (many.trans_le (Nat.le_add_right _ _))⟩
  rw [if_neg many]
  obtain ⟨found, matched⟩ := mapM_pairRun (not_lt.mp many)
  obtain ⟨annotations, described, annotated⟩ := annotationsFrom_eq (not_lt.mp many)
    ((pairableRuns lines).map fun run => (pairRun run).getD []).flatten
  rw [← comparisonsOf] at annotated
  rw [found]
  dsimp only
  rw [Option.bind_eq_bind, Option.bind_some, annotated, Option.bind_eq_bind, Option.bind_some]
  by_cases many' : maxIntraLineComparisons < comparisonsOf lines
  · rw [if_pos many']
    exact ⟨_, rfl, degraded many'⟩
  rw [if_neg many']
  obtain ⟨pairs, changed⟩ := pairs_of_described described
  have sound := pairsSound_flatten (pairableRuns_sound lines).1 (pairableRuns_sound lines).2 matched
  rw [← pairs] at sound
  refine ⟨_, rfl, foldl_toDiffLine, sound.paired plain changed, iff_of_false nofun long,
    iff_of_false nofun fun both => many' both.2, fun limit => absurd limit
      (not_or.mpr ⟨long, many'⟩), lengths, fun _ _ index index' => ?_⟩
  rw [sound.counterpart_eq_some plain]
  constructor
  · rintro ⟨entry, member, way⟩
    have inside : entry.pair ∈ annotations.map AnnotatedPair.pair := List.mem_map_of_mem member
    rw [pairs, List.mem_flatten] at inside
    obtain ⟨_, listed, here⟩ := inside
    obtain ⟨run, inRuns, rfl⟩ := List.mem_map.mp listed
    obtain ⟨matching, same⟩ := Option.isSome_iff_exists.mp (List.isSome_of_mapM_eq_some found inRuns)
    rw [same] at here
    exact ⟨run, inRuns, matching, same, entry.pair, here, way⟩
  · rintro ⟨run, inRuns, matching, same, pair, here, way⟩
    have inside : pair ∈ annotations.map AnnotatedPair.pair := by
      rw [pairs]
      exact List.mem_flatten.mpr ⟨_, List.mem_map_of_mem inRuns, by rw [same]; exact here⟩
    obtain ⟨entry, member, rfl⟩ := List.mem_map.mp inside
    exact ⟨entry, member, way⟩

/-- Every hunk is annotated: no panic is reached, the bytes stay as they are, the lines are paired
in order and run by run, and a hunk past a limit says so and carries no entry. -/
theorem annotate_annotated (hunk : PairedHunk) :
    ∃ annotated, annotate hunk = some annotated ∧ Annotated (hunk.lines.map PairedLine.cleared) annotated ∧
      annotated.lines.map PairedLine.toDiffLine = hunk.lines.map PairedLine.toDiffLine := by
  have plain : ∀ line ∈ hunk.lines.map PairedLine.cleared, line.Plain :=
    List.forall_mem_map.mpr fun line _ => ⟨rfl, rfl⟩
  obtain ⟨annotated, found, known⟩ := annotateLines_annotated plain
  refine ⟨annotated, found, known, known.unchanged.trans ?_⟩
  rw [List.map_map]
  rfl

private def rawLine (kind : DiffLineKind) (content : Bytes) : PairedLine :=
  ⟨⟨kind, none, none, content⟩, none, none⟩

example : annotate ⟨none, [rawLine .deletion [97, 32, 98, 99, 10], rawLine .addition [97, 32, 100, 10]]⟩ =
    some ⟨none,
    [⟨⟨.deletion, none, none, [97, 32, 98, 99, 10]⟩, some 1, some [⟨2, 4⟩]⟩,
      ⟨⟨.addition, none, none, [97, 32, 100, 10]⟩, some 0, some [⟨2, 3⟩]⟩]⟩ := by decide

end Annotation

end Harkness.Git.IntraLine
