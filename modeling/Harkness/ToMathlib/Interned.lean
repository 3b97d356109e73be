import Mathlib.Data.List.Basic
import Mathlib.Data.List.Induction
import Mathlib.Data.List.Nodup

/-! # Values numbered as they first appear

Erasing what appeared before leaves a table of the values of a list in the order in which they first
appear. The table of a longer list begins with that of a shorter one, so the number of a value stays what
it is as the table grows.
-/

namespace List

variable {α β : Type*} [BEq α] [LawfulBEq α] [BEq β] [LawfulBEq β] {l m : List α} {a : α}

theorem eraseDups_concat_of_mem (inside : a ∈ l) : (l ++ [a]).eraseDups = l.eraseDups := by
  rw [eraseDups_append]
  simp [removeAll, inside]

theorem eraseDups_concat_of_notMem (new : a ∉ l) : (l ++ [a]).eraseDups = l.eraseDups ++ [a] := by
  rw [eraseDups_append]
  simp [removeAll, eraseDups_cons, new]

theorem nodup_eraseDups (l : List α) : l.eraseDups.Nodup := by
  induction l using List.reverseRecOn with
  | nil => exact List.nodup_nil
  | append_singleton l a ih =>
    by_cases inside : a ∈ l
    · rwa [eraseDups_concat_of_mem inside]
    · rw [eraseDups_concat_of_notMem inside]
      refine List.nodup_append.mpr ⟨ih, List.nodup_singleton a, fun b listed c member same => ?_⟩
      obtain rfl := List.mem_singleton.mp member
      exact inside (mem_eraseDups.mp (same ▸ listed))

/-- Pushing what is missing, value by value, keeps a table a table. -/
theorem foldl_eraseDups (l m : List α) :
    m.foldl (fun known a => if known.contains a then known else known ++ [a]) l.eraseDups =
      (l ++ m).eraseDups := by
  induction m generalizing l with
  | nil => rw [List.append_nil, List.foldl_nil]
  | cons a m ih =>
    have pushed : (if l.eraseDups.contains a then l.eraseDups else l.eraseDups ++ [a]) =
        (l ++ [a]).eraseDups := by
      by_cases inside : a ∈ l
      · rw [eraseDups_concat_of_mem inside, if_pos (List.contains_iff_mem.mpr (mem_eraseDups.mpr inside))]
      · rw [eraseDups_concat_of_notMem inside, if_neg]
        exact fun known => inside (mem_eraseDups.mp (List.contains_iff_mem.mp known))
    rw [List.foldl_cons, pushed, ih, List.append_assoc, List.singleton_append]

/-- A function that tells the values of a list apart commutes with its table. -/
theorem eraseDups_map {f : α → β} (apart : ∀ a ∈ l, ∀ b ∈ l, f a = f b → a = b) :
    (l.map f).eraseDups = l.eraseDups.map f := by
  induction l using List.reverseRecOn with
  | nil => rfl
  | append_singleton l a ih =>
    have left : ∀ b ∈ l, b ∈ l ++ [a] := fun b listed => List.mem_append_left _ listed
    have last : a ∈ l ++ [a] := List.mem_append_right _ (List.mem_singleton_self a)
    have table := ih fun b listed c member => apart b (left b listed) c (left c member)
    rw [List.map_append, List.map_singleton]
    by_cases inside : a ∈ l
    · rw [eraseDups_concat_of_mem inside, eraseDups_concat_of_mem (List.mem_map_of_mem inside), table]
    · rw [eraseDups_concat_of_notMem inside, eraseDups_concat_of_notMem, table, List.map_append,
        List.map_singleton]
      intro mapped
      obtain ⟨b, listed, same⟩ := List.mem_map.mp mapped
      exact inside (apart b (left b listed) a last same ▸ listed)

/-- A table in place of what it is the table of makes the same table. -/
theorem eraseDups_append_eraseDups (l m : List α) : (l ++ m.eraseDups).eraseDups = (l ++ m).eraseDups := by
  induction m using List.reverseRecOn with
  | nil => rfl
  | append_singleton m a ih =>
    rw [← List.append_assoc]
    by_cases inside : a ∈ m
    · rw [eraseDups_concat_of_mem inside, ih, eraseDups_concat_of_mem (List.mem_append_right _ inside)]
    · rw [eraseDups_concat_of_notMem inside, ← List.append_assoc]
      by_cases known : a ∈ l
      · rw [eraseDups_concat_of_mem (List.mem_append_left _ known),
          eraseDups_concat_of_mem (List.mem_append_left _ known), ih]
      · have new : a ∉ l ++ m := by simp [known, inside]
        have stillNew : a ∉ l ++ m.eraseDups := by simp [known, inside]
        rw [eraseDups_concat_of_notMem new, eraseDups_concat_of_notMem stillNew, ih]

theorem eraseDups_eraseDups_append (l m : List α) : (l.eraseDups ++ m).eraseDups = (l ++ m).eraseDups := by
  rw [← foldl_eraseDups, ← foldl_eraseDups]
  congr 1
  exact eraseDups_append_eraseDups [] l

theorem eraseDups_flatMap_eraseDups {γ : Type*} (items : List γ) (f : γ → List α) :
    (items.flatMap fun item => (f item).eraseDups).eraseDups = (items.flatMap f).eraseDups := by
  induction items with
  | nil => rfl
  | cons item items ih =>
    rw [List.flatMap_cons, List.flatMap_cons, eraseDups_eraseDups_append, ← eraseDups_append_eraseDups, ih,
      eraseDups_append_eraseDups]

/-- The number of a value does not change as the table grows. -/
theorem idxOf_eraseDups_append (inside : a ∈ l) (m : List α) :
    (l ++ m).eraseDups.idxOf a = l.eraseDups.idxOf a := by
  rw [eraseDups_append]
  exact List.idxOf_append_of_mem (mem_eraseDups.mpr inside)

/-- The number a new value gets is the length of the table. -/
theorem idxOf_eraseDups_concat (new : a ∉ l) : (l ++ [a]).eraseDups.idxOf a = l.eraseDups.length := by
  rw [eraseDups_concat_of_notMem new, List.idxOf_append_of_notMem (mt mem_eraseDups.mp new),
    List.idxOf_cons_self, Nat.add_zero]

/-- Numbers looked up in the table that gave them are the values again. -/
theorem filterMap_getElem?_idxOf {table : List α} (inside : ∀ a ∈ l, a ∈ table) :
    (l.map table.idxOf).filterMap (table[·]?) = l := by
  rw [filterMap_map]
  refine (filterMap_congr fun a listed => ?_).trans filterMap_some
  exact getElem?_idxOf (inside a listed)

end List
