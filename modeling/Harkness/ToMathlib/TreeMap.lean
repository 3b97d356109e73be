import Mathlib.Data.List.Sort

/-! # Maps ordered by their keys

Lookups in an `ExtTreeMap` with natural-number keys after one insertion, and after a list of keys is
rewritten one by one. A map is determined by its lookups, and its values come in the order of their
keys.
-/

namespace Std.ExtTreeMap

variable {β : Type} {m : ExtTreeMap ℕ β}

theorem getElem?_insert_eq (k a : ℕ) (v : β) :
    (m.insert k v)[a]? = if k = a then some v else m[a]? := by
  simp only [getElem?_insert, Nat.compare_eq_eq]

theorem getElem?_erase_insert (k a : ℕ) (v : β) :
    ((m.erase k).insert k v)[a]? = if k = a then some v else m[a]? := by
  rw [getElem?_insert_eq, getElem?_erase]
  simp only [Nat.compare_eq_eq]
  split_ifs <;> rfl

theorem contains_eq_false_iff {k : ℕ} : m.contains k = false ↔ m[k]? = none := by
  rw [contains_eq_isSome_getElem?, Option.isSome_eq_false_iff, Option.isNone_iff_eq_none]

/-- The keys are listed strictly upwards. -/
theorem keys_lt : (m.toList.map Prod.fst).Pairwise (· < ·) := by
  rw [List.pairwise_map]
  exact ordered_keys_toList.imp Nat.compare_eq_lt.mp

theorem mem_keys_iff {k : ℕ} : k ∈ m.toList.map Prod.fst ↔ (m[k]?).isSome := by
  rw [map_fst_toList_eq_keys, mem_keys, mem_iff_isSome_getElem?]

/-- Maps with the same keys have the same size. -/
theorem size_eq_of_isSome {other : ExtTreeMap ℕ β}
    (same : ∀ k : ℕ, (m[k]?).isSome = (other[k]?).isSome) : m.size = other.size := by
  rw [← length_keys, ← length_keys]
  apply List.Perm.length_eq
  rw [List.perm_ext_iff_of_nodup nodup_keys nodup_keys]
  intro k
  rw [mem_keys, mem_keys, mem_iff_isSome_getElem?, mem_iff_isSome_getElem?, same]

/-- Where a rewriting step changes one key's value by `f` while it satisfies `p`, rewriting each of a
list of distinct such keys changes exactly these. -/
theorem getElem?_foldl {step : ExtTreeMap ℕ β → ℕ → ExtTreeMap ℕ β} {p : β → Prop} {f : β → β}
    (rewritten : ∀ (m : ExtTreeMap ℕ β) (k : ℕ) (v : β), m[k]? = some v → p v →
      ∀ a : ℕ, (step m k)[a]? = if k = a then some (f v) else m[a]?)
    {keys : List ℕ} (distinct : keys.Nodup) (present : ∀ k ∈ keys, ∃ v, m[k]? = some v ∧ p v)
    (a : ℕ) : (keys.foldl step m)[a]? = if a ∈ keys then (m[a]?).map f else m[a]? := by
  induction keys generalizing m with
  | nil => rfl
  | cons k keys ih =>
    obtain ⟨fresh, distinct⟩ := List.nodup_cons.mp distinct
    obtain ⟨v, found, holds⟩ := present k List.mem_cons_self
    have step := rewritten m k v found holds
    rw [List.foldl_cons, ih distinct]
    · rw [step]
      by_cases here : k = a
      · subst here
        simp [fresh, found]
      · have other : a ≠ k := Ne.symm here
        simp only [here, ↓reduceIte, List.mem_cons, other, false_or]
    · intro j member
      have other : k ≠ j := fun same => fresh (same ▸ member)
      rw [step, if_neg other]
      exact present j (List.mem_cons_of_mem k member)

end Std.ExtTreeMap
