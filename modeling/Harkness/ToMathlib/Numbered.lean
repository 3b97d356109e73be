import Mathlib.Data.List.Induction
import Mathlib.Data.List.Sort

/-! # Lists numbered from one

`Numbered key rows` says that the keys of a list are 1, 2, 3 and so on. Selecting by a bound on the
key is then dropping or taking a number of rows, the highest key is the length, sorting by the key
changes nothing and sorting against it reverses. These are the facts keyset paging rests on.
-/

namespace List

variable {α : Type*} {key : α → ℤ} {rows : List α}

/-- The keys of the rows are 1, 2, 3 and so on, in order. -/
def Numbered (key : α → ℤ) (rows : List α) : Prop :=
  ∀ (i : ℕ) (within : i < rows.length), key rows[i] = i + 1

theorem numbered_concat {row : α} :
    Numbered key (rows ++ [row]) ↔ Numbered key rows ∧ key row = rows.length + 1 := by
  constructor
  · intro numbered
    constructor
    · intro i within
      have here := numbered i (by rw [length_append]; omega)
      rwa [getElem_append_left within] at here
    · have last := numbered rows.length (by rw [length_append, length_singleton]; omega)
      rwa [getElem_concat_length rfl] at last
  · rintro ⟨numbered, last⟩ i within
    by_cases inner : i < rows.length
    · rw [getElem_append_left inner]
      exact numbered i inner
    · have same : i = rows.length := by
        rw [length_append, length_singleton] at within
        omega
      subst same
      rw [getElem_concat_length rfl]
      exact last

/-- Keys above a bound are those of the rows after that many. -/
theorem Numbered.filter_gt (numbered : Numbered key rows) (bound : ℕ) :
    rows.filter (fun row => decide ((bound : ℤ) < key row)) = rows.drop bound := by
  induction rows using List.reverseRecOn with
  | nil => rw [filter_nil, drop_nil]
  | append_singleton rows row ih =>
    obtain ⟨earlier, last⟩ := numbered_concat.1 numbered
    rw [filter_append, ih earlier]
    by_cases above : bound ≤ rows.length
    · rw [drop_append_of_le_length above]
      have kept : (bound : ℤ) < key row := by omega
      rw [filter_cons_of_pos (by simpa only [decide_eq_true_eq] using kept), filter_nil]
    · have dropped : ¬(bound : ℤ) < key row := by omega
      rw [filter_cons_of_neg (by simpa only [decide_eq_true_eq] using dropped), filter_nil,
        drop_eq_nil_of_le (by omega), drop_eq_nil_of_le (by
          rw [length_append, length_singleton]; omega), append_nil]

/-- Keys below a bound are those of the first rows. -/
theorem Numbered.filter_lt (numbered : Numbered key rows) (bound : ℕ) :
    rows.filter (fun row => decide (key row < bound)) = rows.take (bound - 1) := by
  induction rows using List.reverseRecOn with
  | nil => rw [filter_nil, take_nil]
  | append_singleton rows row ih =>
    obtain ⟨earlier, last⟩ := numbered_concat.1 numbered
    rw [filter_append, ih earlier]
    by_cases below : rows.length + 1 < bound
    · have kept : key row < bound := by omega
      rw [filter_cons_of_pos (by simpa only [decide_eq_true_eq] using kept), filter_nil,
        take_of_length_le (by omega), take_of_length_le (by
          rw [length_append, length_singleton]; omega)]
    · have dropped : ¬key row < bound := by omega
      rw [filter_cons_of_neg (by simpa only [decide_eq_true_eq] using dropped), filter_nil,
        append_nil, take_append_of_le_length (by omega)]

/-- The highest key is the number of rows. -/
theorem Numbered.foldl_max (numbered : Numbered key rows) :
    rows.foldl (fun highest row => max highest (key row)) 0 = rows.length := by
  induction rows using List.reverseRecOn with
  | nil => rfl
  | append_singleton rows row ih =>
    obtain ⟨earlier, last⟩ := numbered_concat.1 numbered
    rw [foldl_append, ih earlier, foldl_cons, foldl_nil, last, length_append, length_singleton]
    omega

theorem Numbered.pairwise (numbered : Numbered key rows) :
    rows.Pairwise fun row later => key row < key later := by
  rw [pairwise_iff_getElem]
  intro i j first second before
  rw [numbered i first, numbered j second]
  omega

/-- A row whose key is not below any other goes last. -/
private theorem orderedInsert_last {row : α}
    (above : ∀ other ∈ rows, key row < key other) :
    orderedInsert (fun left right => key right ≤ key left) row rows = rows ++ [row] := by
  induction rows with
  | nil => rfl
  | cons other rows ih =>
    rw [forall_mem_cons] at above
    rw [orderedInsert_cons, if_neg (not_le.mpr above.1), ih above.2, cons_append]

/-- Sorting rows with strictly ascending keys by the key changes nothing. -/
theorem insertionSort_ascending (ascending : rows.Pairwise fun row later => key row < key later) :
    rows.insertionSort (fun left right => key left ≤ key right) = rows :=
  (ascending.imp fun before => before.le).insertionSort_eq

/-- Sorting them against the key reverses them. -/
theorem insertionSort_descending
    (ascending : rows.Pairwise fun row later => key row < key later) :
    rows.insertionSort (fun left right => key right ≤ key left) = rows.reverse := by
  induction rows with
  | nil => rfl
  | cons row rows ih =>
    rw [pairwise_cons] at ascending
    rw [insertionSort_cons, ih ascending.2, reverse_cons]
    exact orderedInsert_last fun other member => ascending.1 other (mem_reverse.mp member)

end List
