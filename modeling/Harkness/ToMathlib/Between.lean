import Mathlib.Data.List.Basic
import Harkness.ToMathlib.Numbered

/-! # The rows of a list between two positions

`rows.between first last` holds the rows from position `first` up to, but without, position `last`. A reader
who has come to one position of a growing list and a writer who has come to another have just these rows
between them.
-/

namespace List

variable {α : Type*} {rows more : List α} {first middle last : ℕ}

/-- The rows from one position up to another. -/
def between (rows : List α) (first last : ℕ) : List α := (rows.take last).drop first

theorem length_between (bound : last ≤ rows.length) :
    (rows.between first last).length = last - first := by
  rw [between, length_drop, length_take, Nat.min_eq_left bound]

theorem between_eq_nil (empty : last ≤ first) : rows.between first last = [] := by
  rw [between, drop_eq_nil_iff, length_take]
  omega

theorem between_eq_nil_iff (bound : last ≤ rows.length) :
    rows.between first last = [] ↔ last ≤ first := by
  rw [← length_eq_zero_iff, length_between bound, Nat.sub_eq_zero_iff_le]

theorem between_eq_cons (less : first < last) (bound : last ≤ rows.length) :
    rows.between first last = rows[first] :: rows.between (first + 1) last := by
  have within : first < (rows.take last).length := by rw [length_take]; omega
  rw [between, between, drop_eq_getElem_cons within, getElem_take]

theorem between_succ (le : first ≤ last) (bound : last < rows.length) :
    rows.between first (last + 1) = rows.between first last ++ [rows[last]] := by
  rw [between, between, take_succ_eq_append_getElem bound, drop_append_of_le_length]
  rw [length_take]
  omega

/-- What a list holds between two of its positions stays when it grows. -/
theorem between_of_prefix (grown : rows <+: more) (bound : last ≤ rows.length) :
    more.between first last = rows.between first last := by
  obtain ⟨added, rfl⟩ := grown
  rw [between, between, take_append_of_le_length bound]

theorem take_of_prefix (grown : rows <+: more) (bound : last ≤ rows.length) :
    more.take last = rows.take last := by
  obtain ⟨added, rfl⟩ := grown
  rw [take_append_of_le_length bound]

theorem getLast?_between (less : first < last) (bound : last ≤ rows.length) :
    (rows.between first last).getLast? = some rows[last - 1] := by
  obtain ⟨before, rfl⟩ : ∃ before, last = before + 1 := ⟨last - 1, by omega⟩
  rw [between_succ (by omega) (by omega)]
  simp

/-- The first rows after a position that are not past another, in a list numbered from one. -/
theorem Numbered.takeWhile_drop {key : α → ℤ} (numbered : Numbered key rows) (first last : ℕ) :
    (rows.drop first).takeWhile (fun row => key row ≤ last) = rows.between first last := by
  induction rest : rows.length - first generalizing first with
  | zero =>
    rw [drop_eq_nil_of_le (by omega), takeWhile_nil, between, drop_eq_nil_of_le]
    rw [length_take]
    omega
  | succ rest ih =>
    have within : first < rows.length := by omega
    rw [drop_eq_getElem_cons within, takeWhile_cons, numbered first within]
    by_cases less : first < last
    · have here : decide ((first : ℤ) + 1 ≤ last) = true := decide_eq_true (by omega)
      rw [if_pos here, ih (first + 1) (by omega)]
      have inner : first < (rows.take last).length := by rw [length_take]; omega
      rw [between, between, drop_eq_getElem_cons inner, getElem_take]
    · have here : ¬ decide ((first : ℤ) + 1 ≤ last) = true := by
        rw [decide_eq_true_eq]
        omega
      rw [if_neg here, between_eq_nil (by omega)]

end List
