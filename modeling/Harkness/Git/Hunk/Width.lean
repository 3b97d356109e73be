import Harkness.Git.Hunk.Position

/-! # The hunks of two contents at any context width

Two contents differ in regions with unchanged lines between them. A diff shows every region with so many
unchanged lines on either side as its width says, or as there are, and in one hunk with the next where
these would meet. So hunks of one diff keep apart, and a hunk says how far its region's lines reach.
-/

namespace Harkness.Git

open List

/-- Lines that changed, behind a gap of lines that did not. -/
structure Region where
  gap : ℕ
  old : ℕ
  new : ℕ
deriving DecidableEq, Repr

namespace Region

def lines (region : Region) : Side → ℕ
  | .old => region.old
  | .new => region.new

/-- Two regions with the lines between them. -/
def join (first second : Region) : Region :=
  ⟨first.gap, first.old + second.gap + second.old, first.new + second.gap + second.new⟩

end Region

/-- The regions that hunks are formed around, in order: those whose context would meet are one. -/
def merged (context : ℕ) : List Region → List Region
  | [] => []
  | region :: rest =>
    match merged context rest with
    | [] => [region]
    | next :: others =>
      if next.gap ≤ 2 * context then region.join next :: others else region :: next :: others

/-- A region with the lines that precede it on each side, and the unchanged ones behind it. -/
structure Placed where
  region : Region
  preceding : Side → ℕ
  behind : ℕ

namespace Placed

/-- How many lines precede the hunk that is formed around the region. -/
def position (placed : Placed) (context : ℕ) (side : Side) : ℕ :=
  placed.preceding side - min context placed.region.gap

def count (placed : Placed) (context : ℕ) (side : Side) : ℕ :=
  min context placed.region.gap + placed.region.lines side + min context placed.behind

/-- The hunk is the one formed around the region. -/
def Shown (context : ℕ) (placed : Placed) (hunk : Hunk) : Prop :=
  ∀ side, hunk.count side = placed.count context side ∧
    hunk.start side = trueStart (placed.position context side) (placed.count context side)

/-- The hunk that is formed around the region, its lines left out. -/
def outline (context : ℕ) (placed : Placed) : Hunk where
  oldStart := trueStart (placed.position context .old) (placed.count context .old)
  oldLines := placed.count context .old
  newStart := trueStart (placed.position context .new) (placed.count context .new)
  newLines := placed.count context .new
  lines := []

theorem shown_outline (context : ℕ) (placed : Placed) : placed.Shown context (placed.outline context) := by
  rintro (_ | _) <;> exact ⟨rfl, rfl⟩

end Placed

/-- The regions behind so many lines of each side, each in its place. -/
def placedFrom (tail : ℕ) (start : Side → ℕ) : List Region → List Placed
  | [] => []
  | region :: rest =>
    ⟨region, fun side => start side + region.gap, (rest.head?.map Region.gap).getD tail⟩ ::
      placedFrom tail (fun side => start side + region.gap + region.lines side) rest

/-- How two contents differ: the regions in order, and the unchanged lines behind the last. -/
structure Layout where
  regions : List Region
  tail : ℕ
deriving DecidableEq, Repr

namespace Layout

def total (layout : Layout) (side : Side) : ℕ :=
  (layout.regions.map fun region => region.gap + region.lines side).sum + layout.tail

def placed (layout : Layout) (context : ℕ) : List Placed :=
  placedFrom layout.tail (fun _ => 0) (merged context layout.regions)

/-- The hunks of the diff with this context width. The differ reads no text of a gibibyte or more. -/
structure Diff (layout : Layout) (context : ℕ) (hunks : List Hunk) : Prop where
  bounded : ∀ side, layout.total side < 2 ^ 30
  shown : Forall₂ (Placed.Shown context) (layout.placed context) hunks

end Layout

/-- No context of two of the regions meets. -/
def Spread (context : ℕ) (regions : List Region) : Prop :=
  ∀ region ∈ regions.tail, 2 * context < region.gap

theorem spread_merged (context : ℕ) (regions : List Region) : Spread context (merged context regions) := by
  induction regions with
  | nil => exact nofun
  | cons region rest ih =>
    rw [merged]
    split
    · exact nofun
    · next next others same =>
      rw [same] at ih
      split_ifs with near
      · exact ih
      · exact forall_mem_cons.mpr ⟨not_le.mp near, ih⟩

private def size (side : Side) (region : Region) : ℕ := region.gap + region.lines side

private theorem size_join (side : Side) (first second : Region) :
    size side (first.join second) = size side first + size side second := by
  cases side <;> simp only [size, Region.join, Region.lines] <;> omega

theorem sum_merged (context : ℕ) (regions : List Region) (side : Side) :
    ((merged context regions).map fun region => region.gap + region.lines side).sum =
      (regions.map fun region => region.gap + region.lines side).sum := by
  change ((merged context regions).map (size side)).sum = (regions.map (size side)).sum
  induction regions with
  | nil => rfl
  | cons region rest ih =>
    rw [map_cons, sum_cons, ← ih, merged]
    split
    · next none => rw [none, map_nil, sum_nil, map_cons, sum_cons, map_nil, sum_nil]
    · next next others same =>
      rw [same, map_cons, sum_cons]
      split_ifs
      · rw [map_cons, sum_cons, size_join]
        omega
      · rw [map_cons, sum_cons, map_cons, sum_cons]

section Places

variable {tail context : ℕ} {start : Side → ℕ} {regions : List Region}

/-- Every region behind some lines begins behind them and its gap, which its context does not fill. -/
private theorem start_lt_position (side : Side) (spread : ∀ region ∈ regions, 2 * context < region.gap) :
    ∀ placed ∈ placedFrom tail start regions, start side + context < placed.position context side := by
  induction regions generalizing start with
  | nil => exact nofun
  | cons region rest ih =>
    have gap := spread region mem_cons_self
    refine forall_mem_cons.mpr ⟨?_, fun placed member => ?_⟩
    · rw [Placed.position]
      dsimp only
      omega
    · have later := ih (fun other inside => spread other (mem_cons_of_mem _ inside)) placed member
      omega

/-- Hunks keep apart on both sides. -/
theorem placedFrom_apart (spread : Spread context regions) :
    (placedFrom tail start regions).Pairwise fun first second =>
      ∀ side, first.position context side + first.count context side < second.position context side := by
  induction regions generalizing start with
  | nil => exact .nil
  | cons region rest ih =>
    refine pairwise_cons.mpr ⟨fun second member side => ?_, ih fun other inside => ?_⟩
    · have later := start_lt_position side spread second member
      rw [Placed.position, Placed.count]
      dsimp only at later ⊢
      omega
    · exact spread other (mem_of_mem_tail inside)

/-- A region's lines are among those of the side, and what is behind it is either the last of them or
more than its context. -/
private theorem behind_of_mem (side : Side) (spread : Spread context regions) :
    ∀ placed ∈ placedFrom tail start regions,
      placed.preceding side + placed.region.lines side + placed.behind =
          start side + (regions.map fun region => region.gap + region.lines side).sum + tail ∨
        2 * context < placed.behind ∧
          placed.preceding side + placed.region.lines side + placed.behind ≤
            start side + (regions.map fun region => region.gap + region.lines side).sum + tail := by
  induction regions generalizing start with
  | nil => exact nofun
  | cons region rest ih =>
    rw [placedFrom, map_cons, sum_cons]
    refine forall_mem_cons.mpr ⟨?_, fun placed member => ?_⟩
    · cases rest with
      | nil =>
        left
        simp only [head?_nil, Option.map_none, Option.getD_none, map_nil, sum_nil]
        omega
      | cons next others =>
        right
        refine ⟨spread next mem_cons_self, ?_⟩
        simp only [head?_cons, Option.map_some, Option.getD_some, map_cons, sum_cons]
        omega
    · have later := ih (fun other inside => spread other (mem_of_mem_tail inside)) placed member
      omega

/-- What precedes a region is its own gap, or that gap is more than its context. -/
private theorem gap_of_mem (side : Side) (spread : Spread context regions) (first : start side = 0) :
    ∀ placed ∈ placedFrom tail start regions,
      placed.preceding side = placed.region.gap ∨
        2 * context < placed.region.gap ∧ placed.region.gap ≤ placed.preceding side := by
  have later : ∀ (rest : List Region) (from_ : Side → ℕ), (∀ region ∈ rest, 2 * context < region.gap) →
      ∀ placed ∈ placedFrom tail from_ rest,
        2 * context < placed.region.gap ∧ placed.region.gap ≤ placed.preceding side := by
    intro rest
    induction rest with
    | nil => exact nofun
    | cons region rest ih =>
      intro from_ gaps
      refine forall_mem_cons.mpr ⟨⟨gaps region mem_cons_self, Nat.le_add_left _ _⟩, ?_⟩
      exact ih _ fun other inside => gaps other (mem_cons_of_mem _ inside)
  cases regions with
  | nil => exact nofun
  | cons region rest =>
    refine forall_mem_cons.mpr ⟨.inl ?_, fun placed member => .inr (later rest _ spread placed member)⟩
    dsimp only
    omega

end Places

namespace Layout

variable {layout : Layout} {context : ℕ} {hunks : List Hunk} {placed : Placed}

/-- A hunk begins so many lines before its region as its width says, and ends so many behind it; where
there are fewer, it is clipped. -/
theorem span_of_mem (side : Side) (member : placed ∈ layout.placed context) :
    placed.position context side = placed.preceding side - context ∧
      placed.position context side + placed.count context side =
        min (layout.total side) (placed.preceding side + placed.region.lines side + context) := by
  have spread := spread_merged context layout.regions
  have ending := behind_of_mem side spread placed member
  have beginning := gap_of_mem side spread rfl placed member
  rw [sum_merged] at ending
  rw [Placed.position, Placed.count, total]
  omega

/-- There are hunks at every width. -/
theorem diff_outline (bounded : ∀ side, layout.total side < 2 ^ 30) (context : ℕ) :
    layout.Diff context ((layout.placed context).map (Placed.outline context)) where
  bounded := bounded
  shown := by
    rw [forall₂_map_right_iff, forall₂_same]
    exact fun placed _ => placed.shown_outline context

theorem Diff.hunk_of_mem {hunk : Hunk} (diff : layout.Diff context hunks) (member : hunk ∈ hunks) :
    ∃ placed ∈ layout.placed context, placed.Shown context hunk := by
  obtain ⟨place, inside, rfl⟩ := getElem_of_mem member
  have bound : place < (layout.placed context).length := diff.shown.length_eq ▸ inside
  exact ⟨_, getElem_mem bound, diff.shown.get bound inside⟩

end Layout

theorem Placed.Shown.position_eq {context : ℕ} {placed : Placed} {hunk : Hunk}
    (shown : placed.Shown context hunk)
    (side : Side) : hunk.position side = placed.position context side := by
  rw [Hunk.position, (shown side).2, (shown side).1, trueStart]
  split_ifs <;> omega

/-- Of the hunks of a diff at any width, one ends on either side before the next begins, with a line
between them. -/
theorem Layout.Diff.apart {layout : Layout} {context : ℕ} {hunks : List Hunk}
    (diff : layout.Diff context hunks) :
    hunks.Pairwise fun first second => ∀ side, first.Precedes side second := by
  have apart : (layout.placed context).Pairwise _ := placedFrom_apart (spread_merged context layout.regions)
  have same := diff.shown.length_eq
  rw [pairwise_iff_getElem] at apart ⊢
  intro i j inside inside' before side
  have order := apart i j (same ▸ inside) (same ▸ inside') before side
  have first := diff.shown.get (same ▸ inside) inside
  have second := diff.shown.get (same ▸ inside') inside'
  rw [get_eq_getElem, get_eq_getElem] at first second
  rw [Hunk.Precedes, first.position_eq side, second.position_eq side, (first side).1]
  exact order

end Harkness.Git
