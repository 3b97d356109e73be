import Mathlib.Algebra.BigOperators.Group.List.Basic
import Mathlib.Tactic.Abel

/-! # Totals over a list one of whose entries changes

A system of many parties keeps each party's share of some resource at one index. A step of one
party changes one entry, so the total of the shares changes by what that party gained or gave up.
Shares live in any additive commutative monoid: counts, multisets, or functions into either.
-/

namespace List

variable {α M : Type*} [AddCommMonoid M]

/-- The total share of a list of parties. -/
def total (share : α → M) (parties : List α) : M := (parties.map share).sum

@[simp] theorem total_nil (share : α → M) : total share [] = 0 := rfl

@[simp] theorem total_cons (share : α → M) (party : α) (parties : List α) :
    total share (party :: parties) = share party + total share parties := by
  simp only [total, map_cons, sum_cons]

@[simp] theorem total_append (share : α → M) (first second : List α) :
    total share (first ++ second) = total share first + total share second := by
  simp only [total, map_append, sum_append]

/-- The balance of one changed entry: what it had before is what the others do not account for. -/
theorem total_set (share : α → M) {parties : List α} {index : ℕ} {old : α} (new : α)
    (present : parties[index]? = some old) :
    total share (parties.set index new) + share old = total share parties + share new := by
  induction parties generalizing index with
  | nil => simp only [getElem?_nil, reduceCtorEq] at present
  | cons party rest ih =>
    cases index with
    | zero =>
      obtain rfl := Option.some.inj present
      simp only [set_cons_zero, total_cons]
      abel
    | succ index =>
      rw [getElem?_cons_succ] at present
      simp only [set_cons_succ, total_cons, add_assoc, ih present]

theorem total_set_of_eq (share : α → M) {parties : List α} {index : ℕ} {old new : α}
    (present : parties[index]? = some old) (same : share new = share old) :
    total share (parties.set index new) = total share parties := by
  induction parties generalizing index with
  | nil => simp only [set_nil]
  | cons party rest ih =>
    cases index with
    | zero =>
      obtain rfl := Option.some.inj present
      simp only [set_cons_zero, total_cons, same]
    | succ index =>
      rw [getElem?_cons_succ] at present
      simp only [set_cons_succ, total_cons, ih present]

/-- One party's share is part of the total. -/
theorem exists_total_eq_add (share : α → M) {parties : List α} {index : ℕ} {party : α}
    (present : parties[index]? = some party) : ∃ others, total share parties = share party + others := by
  induction parties generalizing index with
  | nil => simp only [getElem?_nil, reduceCtorEq] at present
  | cons head rest ih =>
    cases index with
    | zero =>
      obtain rfl := Option.some.inj present
      exact ⟨total share rest, total_cons share head rest⟩
    | succ index =>
      rw [getElem?_cons_succ] at present
      obtain ⟨others, split⟩ := ih present
      exact ⟨share head + others, by rw [total_cons, split]; abel⟩

/-- Two parties' shares are both part of the total. -/
theorem exists_total_eq_add_add (share : α → M) {parties : List α} {first second : ℕ} {a b : α}
    (left : parties[first]? = some a) (right : parties[second]? = some b) (apart : first ≠ second) :
    ∃ others, total share parties = share a + share b + others := by
  induction parties generalizing first second with
  | nil => simp only [getElem?_nil, reduceCtorEq] at left
  | cons head rest ih =>
    rcases first with _ | first <;> rcases second with _ | second
    · exact absurd rfl apart
    · obtain rfl := Option.some.inj left
      rw [getElem?_cons_succ] at right
      obtain ⟨others, split⟩ := exists_total_eq_add share right
      exact ⟨others, by rw [total_cons, split, add_assoc]⟩
    · obtain rfl := Option.some.inj right
      rw [getElem?_cons_succ] at left
      obtain ⟨others, split⟩ := exists_total_eq_add share left
      exact ⟨others, by rw [total_cons, split]; abel⟩
    · rw [getElem?_cons_succ] at left right
      obtain ⟨others, split⟩ := ih left right fun same => apart (congrArg _ same)
      exact ⟨share head + others, by rw [total_cons, split]; abel⟩

/-- A flattening to which one entry alone contributes. -/
theorem flatMap_eq_of_getElem? {β : Type*} (parts : α → List β) {parties : List α} {index : ℕ}
    {party : α} (present : parties[index]? = some party)
    (others : ∀ other found, parties[other]? = some found → other ≠ index → parts found = []) :
    parties.flatMap parts = parts party := by
  induction parties generalizing index with
  | nil => simp only [getElem?_nil, reduceCtorEq] at present
  | cons head rest ih =>
    cases index with
    | zero =>
      obtain rfl := Option.some.inj present
      have empty : rest.flatMap parts = [] := by
        refine flatMap_eq_nil_iff.mpr fun found member => ?_
        obtain ⟨other, there⟩ := getElem?_of_mem member
        exact others (other + 1) found there (Nat.succ_ne_zero other)
      rw [flatMap_cons, empty, append_nil]
    | succ index =>
      have empty := others 0 head rfl (Nat.succ_ne_zero index).symm
      rw [flatMap_cons, empty, nil_append]
      refine ih present fun other found there apart => ?_
      exact others (other + 1) found there fun same => apart (Nat.succ.inj same)

end List
