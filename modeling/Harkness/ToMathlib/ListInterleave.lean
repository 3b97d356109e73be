import Mathlib

/-! # Interleaving two lists

Two lists paired off by index, each pair in order, the longer list's tail at the end. A view that
shows nothing of one list sees the other one whole, so interleaving keeps the order of both.
-/

namespace List

variable {α β : Type*}

/-- Interleaving is the walk over the indices of both lists. -/
theorem flatMap_range_eq_interleave (first second : List α) :
    ((range (max first.length second.length)).flatMap fun index =>
      [first[index]?, second[index]?].filterMap id) = first.interleave second := by
  induction first generalizing second with
  | nil =>
    rw [nil_interleave]
    induction second with
    | nil => rfl
    | cons other second ih =>
      rw [length_nil, Nat.zero_max] at ih ⊢
      rw [length_cons, range_succ_eq_map, flatMap_cons, flatMap_map]
      simpa only [getElem?_nil, getElem?_cons_succ, getElem?_cons_zero, filterMap_cons, id_eq,
        filterMap_nil, singleton_append, cons.injEq, true_and] using ih
  | cons entry first ih =>
    rw [cons_interleave, length_cons]
    cases second with
    | nil =>
      have rest := ih []
      rw [length_nil, Nat.max_zero, interleave_nil] at rest
      rw [length_nil, Nat.max_zero, nil_interleave, range_succ_eq_map, flatMap_cons, flatMap_map]
      simpa only [getElem?_nil, getElem?_cons_succ, getElem?_cons_zero, filterMap_cons, id_eq,
        filterMap_nil, singleton_append, cons.injEq, true_and] using rest
    | cons other second =>
      rw [cons_interleave, length_cons, Nat.succ_max_succ, range_succ_eq_map, flatMap_cons,
        flatMap_map]
      simpa only [getElem?_cons_succ, getElem?_cons_zero, filterMap_cons, id_eq, filterMap_nil,
        cons_append, nil_append, cons.injEq, true_and] using ih second

/-- A view that shows nothing of the second list sees the first one whole. -/
theorem filterMap_interleave_left {view : α → Option β} {first second : List α}
    (hidden : ∀ entry ∈ second, view entry = none) :
    (first.interleave second).filterMap view = first.filterMap view := by
  have shown : (first.filterMap view).Sublist ((first.interleave second).filterMap view) :=
    left_sublist_interleave.filterMap view
  have size : ((first.interleave second).filterMap view).length =
      (first.filterMap view ++ second.filterMap view).length := by
    rw [← filterMap_append]
    exact (interleave_perm_append.filterMap view).length_eq
  rw [filterMap_eq_nil_iff.mpr hidden, append_nil] at size
  exact (shown.eq_of_length size.symm).symm

/-- A view that shows nothing of the first list sees the second one whole. -/
theorem filterMap_interleave_right {view : α → Option β} {first second : List α}
    (hidden : ∀ entry ∈ first, view entry = none) :
    (first.interleave second).filterMap view = second.filterMap view := by
  have shown : (second.filterMap view).Sublist ((first.interleave second).filterMap view) :=
    right_sublist_interleave.filterMap view
  have size : ((first.interleave second).filterMap view).length =
      (first.filterMap view ++ second.filterMap view).length := by
    rw [← filterMap_append]
    exact (interleave_perm_append.filterMap view).length_eq
  rw [filterMap_eq_nil_iff.mpr hidden, nil_append] at size
  exact (shown.eq_of_length size.symm).symm

end List
