import Mathlib.Data.Finset.Insert
import Mathlib.Data.Finset.Union
import Mathlib.Data.Finset.Option

/-! # Tables of rows by their keys

A table answers with the row of a key. A finite support holds the keys that have one, so whether some
row meets a condition is decided; nothing else depends on it, and a statement on a table is a statement
on its answers.
-/

@[simp] theorem Option.filter_const_true {α : Type*} (a : Option α) :
    a.filter (fun _ => true) = a := by
  cases a <;> rfl

/-- The rows of a table by their keys, of which only finitely many have one. -/
structure Keyed (κ ρ : Type*) where
  get : κ → Option ρ
  support : Finset κ
  supported : ∀ k, (get k).isSome → k ∈ support

namespace Keyed

variable {κ ρ : Type*} {table : Keyed κ ρ} {k key : κ} {r row : ρ}

/-- The table without rows. -/
def empty : Keyed κ ρ := ⟨fun _ => none, ∅, fun _ some_ => nomatch some_⟩

@[simp] theorem get_empty : (empty : Keyed κ ρ).get k = none := rfl

/-- Keeps the rows that meet a condition. -/
def filter (table : Keyed κ ρ) (p : κ → ρ → Bool) : Keyed κ ρ where
  get k := (table.get k).filter (p k)
  support := table.support
  supported k some_ := table.supported k (by
    cases found : table.get k with
    | none => rw [found] at some_; cases some_
    | some row => rfl)

theorem get_filter_eq_some {p : κ → ρ → Bool} :
    (table.filter p).get k = some r ↔ table.get k = some r ∧ p k r = true :=
  Option.filter_eq_some_iff

/-- Rewrites every row. -/
def map {σ : Type*} (table : Keyed κ ρ) (f : ρ → σ) : Keyed κ σ where
  get k := (table.get k).map f
  support := table.support
  supported k some_ := table.supported k (by rwa [Option.isSome_map] at some_)

/-- Whether some row meets a condition. -/
def any [DecidableEq κ] (table : Keyed κ ρ) (p : κ → ρ → Bool) : Bool :=
  decide (∃ k ∈ table.support, (table.get k).any (p k) = true)

theorem any_iff [DecidableEq κ] {p : κ → ρ → Bool} :
    table.any p = true ↔ ∃ k r, table.get k = some r ∧ p k r = true := by
  rw [any, decide_eq_true_iff]
  constructor
  · rintro ⟨k, -, holds⟩
    cases found : table.get k with
    | none => rw [found] at holds; cases holds
    | some r => exact ⟨k, r, found, by rwa [found] at holds⟩
  · rintro ⟨k, r, found, meets⟩
    exact ⟨k, table.supported k (by rw [found]; rfl), by rw [found]; exact meets⟩

/-- What the rows of a table name. -/
def values {β : Type*} [DecidableEq β] (table : Keyed κ ρ) (f : κ → ρ → Option β) : Finset β :=
  table.support.biUnion fun k => ((table.get k).bind (f k)).toFinset

variable [DecidableEq κ]

/-- Writes the row of a key, in place of the one it has. -/
def set (table : Keyed κ ρ) (key : κ) (row : ρ) : Keyed κ ρ where
  get := Function.update table.get key (some row)
  support := insert key table.support
  supported k some_ := by
    by_cases same : k = key
    · rw [same]
      exact Finset.mem_insert_self key _
    · rw [Function.update_of_ne same] at some_
      exact Finset.mem_insert_of_mem (table.supported k some_)

theorem get_set : (table.set key row).get k = if k = key then some row else table.get k :=
  Function.update_apply table.get key (some row) k

@[simp] theorem get_set_self : (table.set key row).get key = some row := Function.update_self ..

theorem get_set_of_ne (other : k ≠ key) : (table.set key row).get k = table.get k :=
  Function.update_of_ne other _ _

end Keyed
