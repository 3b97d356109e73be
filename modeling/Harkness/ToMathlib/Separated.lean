import Mathlib.Data.List.Lex
import Mathlib.Order.Lattice

/-! # Names whose parts are separated

A name is a list in which one symbol separates its parts. A name lies beneath another, its directory,
when it goes on behind it with a separator. To lie within a directory is transitive, and in the order of
lists a directory comes before what is beneath it.
-/

namespace Separated

variable {α : Type*} {sep : α} {dir name other : List α}

/-- The name goes on behind the directory with a separator. -/
def Beneath (sep : α) (dir name : List α) : Prop := ∃ rest, name = dir ++ sep :: rest

/-- The name is the directory or lies beneath it. -/
def Within (sep : α) (dir name : List α) : Prop := dir = name ∨ Beneath sep dir name

/-- What stands before the first separator, and behind it, is told by the whole. -/
theorem split_unique {first second rest behind : List α} (none : sep ∉ first) (clear : sep ∉ second)
    (same : first ++ sep :: rest = second ++ sep :: behind) : first = second ∧ rest = behind := by
  induction first generalizing second with
  | nil =>
    cases second with
    | nil => exact ⟨rfl, (List.cons.inj same).2⟩
    | cons head second => exact absurd ((List.cons.inj same).1 ▸ List.mem_cons_self) clear
  | cons head first ih =>
    cases second with
    | nil => exact absurd ((List.cons.inj same).1 ▸ List.mem_cons_self) none
    | cons other second =>
      obtain ⟨rfl, tails⟩ := List.cons.inj same
      obtain ⟨rfl, rests⟩ := ih (fun member => none (List.mem_cons_of_mem _ member))
        (fun member => clear (List.mem_cons_of_mem _ member)) tails
      exact ⟨rfl, rests⟩

theorem Beneath.trans (first : Beneath sep dir other) (second : Beneath sep other name) :
    Beneath sep dir name := by
  obtain ⟨between, rfl⟩ := first
  obtain ⟨rest, rfl⟩ := second
  exact ⟨between ++ sep :: rest, by rw [List.append_assoc, List.cons_append]⟩

theorem Beneath.length_lt (beneath : Beneath sep dir name) : dir.length < name.length := by
  obtain ⟨rest, rfl⟩ := beneath
  rw [List.length_append, List.length_cons]
  omega

theorem Beneath.ne (beneath : Beneath sep dir name) : dir ≠ name := by
  rintro rfl
  exact Nat.lt_irrefl _ beneath.length_lt

theorem Within.refl (name : List α) : Within sep name name := .inl rfl

theorem Within.beneath (within : Within sep dir other) (beneath : Beneath sep other name) :
    Beneath sep dir name := by
  rcases within with rfl | within
  · exact beneath
  · exact within.trans beneath

theorem Within.trans (first : Within sep dir other) (second : Within sep other name) :
    Within sep dir name := by
  rcases second with rfl | second
  · exact first
  · exact .inr (first.beneath second)

section Search

variable [DecidableEq α]

/-- What stands before each separator of a name, the shortest first. -/
def befores (sep : α) : List α → List (List α)
  | [] => []
  | item :: rest => (if item = sep then [[]] else []) ++ (befores sep rest).map (item :: ·)

theorem mem_befores : dir ∈ befores sep name ↔ Beneath sep dir name := by
  induction name generalizing dir with
  | nil => simp [befores, Beneath]
  | cons item name ih =>
    rw [befores, List.mem_append, List.mem_map]
    constructor
    · rintro (first | ⟨before, member, rfl⟩)
      · split_ifs at first with ends
        · rw [List.mem_singleton.mp first, ends]
          exact ⟨name, rfl⟩
        · cases first
      · obtain ⟨rest, rfl⟩ := ih.mp member
        exact ⟨rest, rfl⟩
    · rintro ⟨rest, same⟩
      cases dir with
      | nil =>
        rw [List.nil_append] at same
        rw [if_pos (List.cons.inj same).1]
        exact .inl (List.mem_singleton.mpr rfl)
      | cons other dir =>
        obtain ⟨rfl, rfl⟩ := List.cons.inj same
        exact .inr ⟨dir, ih.mpr ⟨rest, rfl⟩, rfl⟩

/-- What stands before the last separator of a name. -/
def beforeLast (sep : α) : List α → Option (List α)
  | [] => none
  | item :: rest =>
    match beforeLast sep rest with
    | some before => some (item :: before)
    | none => if item = sep then some [] else none

theorem beneath_of_beforeLast (last : beforeLast sep name = some dir) : Beneath sep dir name := by
  induction name generalizing dir with
  | nil => cases last
  | cons item name ih =>
    rw [beforeLast] at last
    cases found : beforeLast sep name with
    | some before =>
      rw [found] at last
      obtain ⟨rest, rfl⟩ := ih found
      rw [← Option.some.inj last]
      exact ⟨rest, rfl⟩
    | none =>
      rw [found] at last
      dsimp only at last
      split_ifs at last with ends
      rw [← Option.some.inj last, ends]
      exact ⟨name, rfl⟩

end Search

section Order

variable [LinearOrder α]

/-- A directory comes before what is beneath it. -/
theorem Beneath.lt (beneath : Beneath sep dir name) : dir < name := by
  obtain ⟨rest, rfl⟩ := beneath
  induction dir with
  | nil => exact List.nil_lt_cons sep rest
  | cons item dir ih => exact List.cons_lt_cons_iff.mpr (.inr ⟨rfl, ih⟩)

end Order

end Separated
