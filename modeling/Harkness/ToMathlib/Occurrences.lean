import Mathlib.Data.List.Count
import Mathlib.Data.List.Induction
import Mathlib.Data.List.Nodup

/-! # Occurrences in a list

Every element of a list together with how many equal ones stand before it. The pairs are distinct, and
those of one element are numbered from zero without a gap.
-/

namespace List

variable {α : Type*} [BEq α]

/-- Every element of a list, numbered among its equals. -/
def occurrences (l : List α) : List (α × ℕ) :=
  l.zipIdx.map fun entry => (entry.1, (l.take entry.2).count entry.1)

variable {l : List α} {a : α} {n : ℕ}

@[simp] theorem occurrences_nil : ([] : List α).occurrences = [] := rfl

theorem occurrences_concat (l : List α) (a : α) :
    (l ++ [a]).occurrences = l.occurrences ++ [(a, l.count a)] := by
  have earlier : ∀ entry ∈ l.zipIdx,
      (entry.1, ((l ++ [a]).take entry.2).count entry.1) = (entry.1, (l.take entry.2).count entry.1) := by
    intro entry member
    have inside := (mem_zipIdx member).2.1
    rw [take_append_of_le_length (by omega)]
  rw [occurrences, zipIdx_append, map_append, map_congr_left earlier]
  simp [occurrences]

section Lawful

variable [LawfulBEq α]

theorem mem_occurrences : (a, n) ∈ l.occurrences ↔ n < l.count a := by
  induction l using List.reverseRecOn with
  | nil => simp
  | append_singleton l b ih =>
    rw [occurrences_concat, mem_append, ih, mem_singleton, count_append, count_singleton, Prod.mk.injEq]
    by_cases same : b = a
    · subst same
      simp only [beq_self_eq_true, if_true, true_and]
      omega
    · have other : ¬ a = b := fun equal => same equal.symm
      have unequal : (b == a) = false := beq_false_of_ne same
      simp [other, unequal]

theorem nodup_occurrences (l : List α) : l.occurrences.Nodup := by
  induction l using List.reverseRecOn with
  | nil => exact nodup_nil
  | append_singleton l a ih =>
    rw [occurrences_concat]
    apply ih.append (nodup_singleton _)
    intro entry member last
    obtain rfl := mem_singleton.mp last
    exact absurd (mem_occurrences.mp member) (Nat.lt_irrefl _)

end Lawful

end List
