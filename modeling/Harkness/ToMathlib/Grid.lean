import Mathlib.Data.List.Pairwise
import Mathlib.Data.List.ProdSigma

/-! # Tables that are filled cell by cell

A table is kept row by row in one array. It is filled in some order of its cells, each by a rule
that reads the table as it is then. Where the rule reads no cell that is still to be filled, the
full table satisfies it everywhere.
-/

/-- A table with rows of one width. -/
structure Grid (α : Type*) where
  width : ℕ
  cells : Array α

namespace Grid

variable {α : Type*} [Inhabited α] {grid : Grid α} {rows width row col row' col' : ℕ} {value : α}

def replicate (rows width : ℕ) (value : α) : Grid α := ⟨width, Array.replicate (rows * width) value⟩

def get (grid : Grid α) (row col : ℕ) : α := grid.cells.getD (row * grid.width + col) default

def set (grid : Grid α) (row col : ℕ) (value : α) : Grid α :=
  { grid with cells := grid.cells.setIfInBounds (row * grid.width + col) value }

/-- The table has so many rows of this width. -/
structure Sized (grid : Grid α) (rows width : ℕ) : Prop where
  width_eq : grid.width = width
  size_eq : grid.cells.size = rows * width

omit [Inhabited α] in
theorem sized_replicate : (replicate rows width value).Sized rows width := ⟨rfl, Array.size_replicate⟩

omit [Inhabited α] in
theorem Sized.set (sized : grid.Sized rows width) : (grid.set row col value).Sized rows width :=
  ⟨sized.width_eq, Array.size_setIfInBounds.trans sized.size_eq⟩

theorem place_lt (inRow : row < rows) (inCol : col < width) : row * width + col < rows * width := by
  calc row * width + col
    _ < row * width + width := Nat.add_lt_add_left inCol _
    _ = (row + 1) * width := by rw [Nat.add_mul, Nat.one_mul]
    _ ≤ rows * width := Nat.mul_le_mul_right width inRow

/-- A place in the array is that of one cell. -/
theorem place_inj (inCol : col < width) (inCol' : col' < width)
    (same : row * width + col = row' * width + col') :
    row = row' ∧ col = col' := by
  have rowOf (row col : ℕ) (inside : col < width) : (row * width + col) / width = row := by
    rw [Nat.mul_comm, Nat.mul_add_div (Nat.zero_lt_of_lt inside), Nat.div_eq_of_lt inside, Nat.add_zero]
  have rowSame : row = row' := by rw [← rowOf row col inCol, same, rowOf row' col' inCol']
  subst rowSame
  exact ⟨rfl, Nat.add_left_cancel same⟩

theorem get_replicate (inRow : row < rows) (inCol : col < width) :
    (replicate rows width value).get row col = value := by
  have inside : row * width + col < (Array.replicate (rows * width) value).size := by
    rw [Array.size_replicate]
    exact place_lt inRow inCol
  rw [get, replicate, Array.getD_eq_getD_getElem?, Array.getElem?_eq_getElem inside, Option.getD_some,
    Array.getElem_replicate]

theorem get_set (sized : grid.Sized rows width) (inRow : row < rows) (inCol : col < width)
    (inCol' : col' < width) :
    (grid.set row col value).get row' col' =
      if row' = row ∧ col' = col then value else grid.get row' col' := by
  have inside : row * width + col < grid.cells.size := sized.size_eq ▸ place_lt inRow inCol
  rw [get, get, set, sized.width_eq, Array.getD_eq_getD_getElem?, Array.getElem?_setIfInBounds,
    Array.getD_eq_getD_getElem?]
  by_cases here : row' = row ∧ col' = col
  · obtain ⟨rfl, rfl⟩ := here
    rw [if_pos rfl, if_pos inside, if_pos ⟨rfl, rfl⟩, Option.getD_some]
  · rw [if_neg, if_neg here]
    intro same
    obtain ⟨sameRow, sameCol⟩ := place_inj inCol inCol' same
    exact here ⟨sameRow.symm, sameCol.symm⟩

/-- Fills the cells in this order. -/
def fill (rule : Grid α → ℕ → ℕ → α) (grid : Grid α) (order : List (ℕ × ℕ)) : Grid α :=
  order.foldl (fun grid cell => grid.set cell.1 cell.2 (rule grid cell.1 cell.2)) grid

variable {rule : Grid α → ℕ → ℕ → α} {order : List (ℕ × ℕ)} {before : ℕ × ℕ → ℕ × ℕ → Prop}

omit [Inhabited α] in
theorem Sized.fill (sized : grid.Sized rows width) : (grid.fill rule order).Sized rows width := by
  induction order generalizing grid with
  | nil => exact sized
  | cons cell order ih => exact ih sized.set

/-- What is not filled stays as it is. -/
theorem get_fill_of_notMem (sized : grid.Sized rows width)
    (inside : ∀ cell ∈ order, cell.1 < rows ∧ cell.2 < width)
    (inCol : col < width) (apart : (row, col) ∉ order) :
    (grid.fill rule order).get row col = grid.get row col := by
  induction order generalizing grid with
  | nil => rfl
  | cons cell order ih =>
    rw [List.mem_cons, not_or] at apart
    obtain ⟨⟨inRow, inCol'⟩, others⟩ := List.forall_mem_cons.mp inside
    rw [fill, List.foldl_cons, ← fill, ih sized.set others apart.2,
      get_set sized inRow inCol' inCol, if_neg]
    rintro ⟨rfl, rfl⟩
    exact apart.1 rfl

/-- The rule for a cell reads no cell that comes after it. -/
def ReadsBack (rule : Grid α → ℕ → ℕ → α) (rows width : ℕ) (before : ℕ × ℕ → ℕ × ℕ → Prop)
    (cell : ℕ × ℕ) : Prop :=
  ∀ grid grid' : Grid α, grid.Sized rows width → grid'.Sized rows width →
    (∀ row col, col < width → (row, col) ≠ cell → ¬ before cell (row, col) →
      grid.get row col = grid'.get row col) →
    rule grid cell.1 cell.2 = rule grid' cell.1 cell.2

/-- The full table satisfies the rule. -/
theorem get_fill (before : ℕ × ℕ → ℕ × ℕ → Prop) (sized : grid.Sized rows width)
    (inside : ∀ cell ∈ order, cell.1 < rows ∧ cell.2 < width)
    (ordered : order.Pairwise before) (strict : ∀ cell, ¬ before cell cell)
    (reads : ∀ cell ∈ order, ReadsBack rule rows width before cell) :
    ∀ cell ∈ order,
      (grid.fill rule order).get cell.1 cell.2 = rule (grid.fill rule order) cell.1 cell.2 := by
  induction order generalizing grid with
  | nil => exact fun _ member => absurd member List.not_mem_nil
  | cons cell order ih =>
    obtain ⟨⟨inRow, inCol⟩, others⟩ := List.forall_mem_cons.mp inside
    obtain ⟨later, ordered⟩ := List.pairwise_cons.mp ordered
    refine List.forall_mem_cons.mpr ⟨?_, ih sized.set others ordered fun other member =>
      reads other (List.mem_cons_of_mem _ member)⟩
    rw [fill, List.foldl_cons, ← fill]
    have here : cell ∉ order := fun again => strict cell (later cell again)
    rw [get_fill_of_notMem sized.set others inCol here, get_set sized inRow inCol inCol, if_pos ⟨rfl, rfl⟩]
    refine reads cell List.mem_cons_self _ _ sized sized.set.fill fun row col inCol' apart behind => ?_
    have unfilled : (row, col) ∉ order := fun member => behind (later (row, col) member)
    rw [get_fill_of_notMem sized.set others inCol' unfilled, get_set sized inRow inCol inCol', if_neg]
    rintro ⟨rfl, rfl⟩
    exact apart rfl

/-- Row by row, and in each row column by column. -/
theorem pairwise_product {rowOrder colOrder : ℕ → ℕ → Prop} {rowList colList : List ℕ}
    (ordered : rowList.Pairwise rowOrder) (ordered' : colList.Pairwise colOrder) :
    (rowList.product colList).Pairwise fun first second =>
      rowOrder first.1 second.1 ∨ first.1 = second.1 ∧ colOrder first.2 second.2 := by
  induction rowList with
  | nil => exact .nil
  | cons row rowList ih =>
    obtain ⟨later, ordered⟩ := List.pairwise_cons.mp ordered
    rw [List.product, List.flatMap_cons, ← List.product]
    refine List.pairwise_append.mpr ⟨?_, ih ordered, fun first inRow second behind => ?_⟩
    · exact List.pairwise_map.mpr (ordered'.imp fun before => .inr ⟨rfl, before⟩)
    · obtain ⟨col, -, rfl⟩ := List.mem_map.mp inRow
      exact .inl (later second.1 (List.mem_product.mp behind).1)

end Grid
