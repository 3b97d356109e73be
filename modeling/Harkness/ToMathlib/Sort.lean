import Mathlib.Data.List.Sort

/-! # Sorting what is kept

Insertion sort keeps the order of equals, so it may as well be done before elements are left out.
-/

namespace List

variable {α : Type*} {r : α → α → Prop} [DecidableRel r] {l : List α} {a : α} {p : α → Bool}

theorem orderedInsert_of_forall_rel (first : ∀ b ∈ l, r a b) : l.orderedInsert r a = a :: l := by
  cases l with
  | nil => rfl
  | cons b l => exact if_pos (first b mem_cons_self)

variable [IsTrans α r]

theorem filter_orderedInsert (sorted : l.Pairwise r) : (l.orderedInsert r a).filter p =
    if p a then (l.filter p).orderedInsert r a else l.filter p := by
  induction l with
  | nil => cases kept : p a <;> simp [kept]
  | cons b l ih =>
    obtain ⟨after, sorted⟩ := pairwise_cons.mp sorted
    by_cases before : r a b
    · have first : ∀ c ∈ (b :: l).filter p, r a c := by
        intro c member
        rcases mem_cons.mp (mem_filter.mp member).1 with rfl | later
        · exact before
        · exact trans_of r before (after c later)
      rw [orderedInsert_cons_of_le r l before, filter_cons, orderedInsert_of_forall_rel first]
    · rw [orderedInsert_of_not_le r l before, filter_cons, ih sorted]
      cases kept : p b <;> cases new : p a <;> simp [kept, orderedInsert_of_not_le r _ before]

variable [Std.Total r]

/-- Elements may be left out before a list is sorted, or afterwards. -/
theorem filter_insertionSort (p : α → Bool) (l : List α) :
    (l.insertionSort r).filter p = (l.filter p).insertionSort r := by
  induction l with
  | nil => rfl
  | cons a l ih =>
    rw [insertionSort_cons, filter_orderedInsert (pairwise_insertionSort r l), ih, filter_cons]
    split_ifs <;> rfl

/-- Where a test fails for good once it fails, what comes before is what passes it. -/
theorem lt_length_takeWhile_iff {α : Type*} {p : α → Bool} {l : List α}
    (closed : l.Pairwise fun a b => p b = true → p a = true) {index : ℕ} (inside : index < l.length) :
    index < (l.takeWhile p).length ↔ p l[index] = true := by
  induction l generalizing index with
  | nil => exact absurd inside (Nat.not_lt_zero _)
  | cons a l ih =>
    obtain ⟨first, closed⟩ := pairwise_cons.mp closed
    rw [takeWhile_cons]
    cases passes : p a with
    | false =>
      have fails : p (a :: l)[index] = true → False := by
        intro later
        rcases mem_cons.mp (getElem_mem inside) with same | member
        · rw [same, passes] at later
          cases later
        · rw [first _ member later] at passes
          cases passes
      exact iff_of_false (Nat.not_lt_zero _) fails
    | true =>
      cases index with
      | zero => exact iff_of_true (Nat.succ_pos _) passes
      | succ index =>
        rw [if_pos rfl, length_cons, Nat.succ_lt_succ_iff, getElem_cons_succ]
        exact ih closed (Nat.lt_of_succ_lt_succ inside)

section Firsts

variable {κ : Type*} [DecidableEq κ] (key : α → κ)

/-- What has another key than the last one kept, the first of each run of equal keys. -/
@[simp] def firstsAfter (last : α) : List α → List α
  | [] => []
  | a :: l => if key a = key last then firstsAfter last l else a :: firstsAfter a l

/-- The first of each run of equal keys. -/
def firsts : List α → List α
  | [] => []
  | a :: l => a :: firstsAfter key a l

end Firsts

section FirstsSorted

variable {β κ : Type*} [LinearOrder κ] [DecidableEq κ] {key : β → κ} {s : β → β → Prop} {l : List β} {last b : β}

/-- In a sorted list the first of a run is the least that has its key. -/
theorem mem_firstsAfter [Std.Antisymm s] [Std.Refl s] (monotone : ∀ b c, s b c → key b ≤ key c)
    (sorted : (last :: l).Pairwise s) : b ∈ l.firstsAfter key last ↔
      b ∈ l ∧ key b ≠ key last ∧ ∀ c ∈ l, key c = key b → s b c := by
  induction l generalizing last with
  | nil => simp [firstsAfter]
  | cons first l ih =>
    obtain ⟨above, rest⟩ := pairwise_cons.mp sorted
    obtain ⟨behind, sorted'⟩ := pairwise_cons.mp rest
    have skipped : (last :: l).Pairwise s :=
      pairwise_cons.mpr ⟨fun c member => above c (mem_cons_of_mem _ member), sorted'⟩
    rw [firstsAfter]
    split_ifs with same
    · rw [ih skipped, mem_cons, forall_mem_cons]
      constructor
      · rintro ⟨member, other, least⟩
        exact ⟨.inr member, other, fun equal => absurd (equal.symm.trans same) other, least⟩
      · rintro ⟨rfl | member, other, -, least⟩
        · exact absurd same other
        · exact ⟨member, other, least⟩
    · rw [mem_cons, ih rest, mem_cons, forall_mem_cons]
      have ahead : key last < key first :=
        lt_of_le_of_ne (monotone last first (above first mem_cons_self)) (Ne.symm same)
      constructor
      · rintro (rfl | ⟨member, other, least⟩)
        · exact ⟨.inl rfl, same, fun _ => refl_of s _, fun c member _ => behind c member⟩
        · refine ⟨.inr member, ?_, fun equal => absurd equal.symm other, least⟩
          exact (lt_of_lt_of_le ahead (monotone first b (behind b member))).ne'
      · rintro ⟨rfl | member, -, front, least⟩
        · exact .inl rfl
        · by_cases equal : key first = key b
          · exact .inl (antisymm_of s (front equal) (behind b member))
          · exact .inr ⟨member, Ne.symm equal, least⟩

theorem mem_firsts [Std.Antisymm s] [Std.Refl s] (monotone : ∀ b c, s b c → key b ≤ key c)
    (sorted : l.Pairwise s) :
    b ∈ l.firsts key ↔ b ∈ l ∧ ∀ c ∈ l, key c = key b → s b c := by
  cases l with
  | nil => simp [firsts]
  | cons first l =>
    obtain ⟨above, -⟩ := pairwise_cons.mp sorted
    rw [firsts, mem_cons, mem_firstsAfter monotone sorted, mem_cons, forall_mem_cons]
    constructor
    · rintro (rfl | ⟨member, other, least⟩)
      · exact ⟨.inl rfl, fun _ => refl_of s _, fun c member _ => above c member⟩
      · exact ⟨.inr member, fun equal => absurd equal.symm other, least⟩
    · rintro ⟨rfl | member, front, least⟩
      · exact .inl rfl
      · by_cases equal : key first = key b
        · exact .inl (antisymm_of s (front equal) (above b member))
        · exact .inr ⟨member, Ne.symm equal, least⟩

theorem pairwise_firstsAfter (monotone : ∀ b c, s b c → key b ≤ key c)
    (sorted : (last :: l).Pairwise s) :
    (last :: l.firstsAfter key last).Pairwise fun b c => key b < key c := by
  induction l generalizing last with
  | nil => exact pairwise_singleton _ _
  | cons first l ih =>
    obtain ⟨above, rest⟩ := pairwise_cons.mp sorted
    obtain ⟨behind, sorted'⟩ := pairwise_cons.mp rest
    rw [firstsAfter]
    split_ifs with same
    · exact ih (pairwise_cons.mpr ⟨fun c member => above c (mem_cons_of_mem _ member), sorted'⟩)
    · have strict := ih rest
      have ahead : key last < key first :=
        lt_of_le_of_ne (monotone last first (above first mem_cons_self)) (Ne.symm same)
      refine pairwise_cons.mpr ⟨fun c member => ?_, strict⟩
      rcases mem_cons.mp member with rfl | later
      · exact ahead
      · exact ahead.trans (rel_of_pairwise_cons strict later)

/-- The first of each run of a sorted list have ever greater keys. -/
theorem pairwise_firsts (monotone : ∀ b c, s b c → key b ≤ key c) (sorted : l.Pairwise s) :
    (l.firsts key).Pairwise fun b c => key b < key c := by
  cases l with
  | nil => exact .nil
  | cons first l => exact pairwise_firstsAfter monotone sorted

end FirstsSorted

end List
