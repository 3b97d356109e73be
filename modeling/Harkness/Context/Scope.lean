import Harkness.Context.Path
import Mathlib

/-! # How much of a worktree one reconcile is about

A scope is the whole worktree, one directory, or a list of paths that is sorted and of which none
contains another. It covers what its entries contain and names the listed paths themselves.
-/

namespace Harkness.Context

open Separated

inductive ReconcileScope where
  | full
  | subtree (directory : RepoPath)
  | paths (named : List RepoPath)
deriving DecidableEq

/-- Whether `paths` holds a strict ancestor of `path`. -/
def ancestorIn (paths : Finset RepoPath) (path : RepoPath) : Bool :=
  (befores separator path).any (· ∈ paths)

/-- Keeps each path that no path kept before it contains. -/
def keepDisjoint (kept : Finset RepoPath) : List RepoPath → List RepoPath
  | [] => []
  | path :: rest =>
    if ancestorIn kept path then keepDisjoint kept rest
    else path :: keepDisjoint (insert path kept) rest

namespace ReconcileScope

/-- One directory and everything beneath it; the root is the whole worktree. -/
def ofDirectory (directory : RepoPath) : ReconcileScope :=
  if directory = [] then full else subtree directory

/-- Exactly these paths, sorted and without any that another contains. -/
def ofPaths (entries : Finset RepoPath) : ReconcileScope :=
  let sorted := entries.sort (· ≤ ·)
  if sorted.any (· = []) then full else paths (keepDisjoint ∅ sorted)

/-- Whether the scope covers a path. -/
def covers (self : ReconcileScope) (path : RepoPath) : Bool :=
  match self with
  | full => true
  | subtree directory => directory.contains path
  | paths named => named.any fun dir => dir.contains path

/-- Whether the scope names a path itself; a list is searched as the sorted one that it is. -/
def namesExactly (self : ReconcileScope) (path : RepoPath) : Bool :=
  match self with
  | full | subtree _ => false
  | paths named => path ∈ named

end ReconcileScope

theorem ancestorIn_iff {paths : Finset RepoPath} {path : RepoPath} :
    ancestorIn paths path = true ↔ ∃ dir ∈ paths, Beneath separator dir path := by
  simp only [ancestorIn, List.any_eq_true, mem_befores, decide_eq_true_eq]
  exact ⟨fun ⟨dir, beneath, among⟩ => ⟨dir, among, beneath⟩,
    fun ⟨dir, among, beneath⟩ => ⟨dir, beneath, among⟩⟩

/-- A path of a sorted list is kept when neither the kept ones nor the list hold an ancestor of it. -/
theorem mem_keepDisjoint {kept : Finset RepoPath} {sorted : List RepoPath} {path : RepoPath}
    (ascending : sorted.Pairwise (· < ·)) : path ∈ keepDisjoint kept sorted ↔
      path ∈ sorted ∧ ∀ dir, dir ∈ kept ∨ dir ∈ sorted → ¬ Beneath separator dir path := by
  induction sorted generalizing kept with
  | nil => simp [keepDisjoint]
  | cons first sorted ih =>
    obtain ⟨before, ascending⟩ := List.pairwise_cons.mp ascending
    rw [keepDisjoint]
    split_ifs with covered
    · obtain ⟨dir, among, above⟩ := ancestorIn_iff.mp covered
      rw [ih ascending, List.mem_cons]
      constructor
      · rintro ⟨member, free⟩
        refine ⟨.inr member, fun other held beneath => ?_⟩
        rcases held with held | held
        · exact free other (.inl held) beneath
        · rcases List.mem_cons.mp held with rfl | held
          · exact free dir (.inl among) (above.trans beneath)
          · exact free other (.inr held) beneath
      · rintro ⟨member, free⟩
        rcases member with rfl | member
        · exact absurd above (free dir (.inl among))
        · exact ⟨member, fun other held => free other (held.imp id (List.mem_cons_of_mem _))⟩
    · have apart : ∀ dir ∈ kept, ¬ Beneath separator dir first :=
        fun dir among above => covered (ancestorIn_iff.mpr ⟨dir, among, above⟩)
      rw [List.mem_cons, List.mem_cons, ih ascending]
      constructor
      · rintro (rfl | ⟨member, free⟩)
        · refine ⟨.inl rfl, fun dir held beneath => ?_⟩
          rcases held with held | held
          · exact apart dir held beneath
          · rcases List.mem_cons.mp held with rfl | held
            · exact beneath.ne rfl
            · exact absurd beneath.lt (before dir held).not_gt
        · refine ⟨.inr member, fun dir held => ?_⟩
          rcases held with held | held
          · exact free dir (.inl (Finset.mem_insert_of_mem held))
          · rcases List.mem_cons.mp held with rfl | held
            · exact free dir (.inl (Finset.mem_insert_self dir kept))
            · exact free dir (.inr held)
      · rintro ⟨member, free⟩
        rcases member with rfl | member
        · exact .inl rfl
        · refine .inr ⟨member, fun dir held => ?_⟩
          rcases held with held | held
          · rcases Finset.mem_insert.mp held with rfl | held
            · exact free dir (.inr List.mem_cons_self)
            · exact free dir (.inl held)
          · exact free dir (.inr (List.mem_cons_of_mem _ held))

/-- The entries that no other entry contains. -/
theorem mem_disjoint {entries : Finset RepoPath} {path : RepoPath} :
    path ∈ keepDisjoint ∅ (entries.sort (· ≤ ·)) ↔
      path ∈ entries ∧ ∀ dir ∈ entries, ¬ Beneath separator dir path := by
  rw [mem_keepDisjoint (Finset.sortedLT_sort entries).pairwise, Finset.mem_sort]
  simp

/-- Every entry lies within one that is kept. -/
theorem exists_kept (entries : Finset RepoPath) {path : RepoPath} (member : path ∈ entries) :
    ∃ dir ∈ keepDisjoint ∅ (entries.sort (· ≤ ·)), Within separator dir path := by
  induction length : path.length using Nat.strong_induction_on generalizing path with
  | _ size ih =>
    by_cases free : ∀ dir ∈ entries, ¬ Beneath separator dir path
    · exact ⟨path, mem_disjoint.mpr ⟨member, free⟩, .refl path⟩
    · obtain ⟨dir, held, beneath⟩ : ∃ dir ∈ entries, Beneath separator dir path := by
        simpa using free
      obtain ⟨top, kept, within⟩ := ih dir.length (length ▸ beneath.length_lt) held rfl
      exact ⟨top, kept, .inr (within.beneath beneath)⟩

namespace ReconcileScope

variable {entries : Finset RepoPath} {directory path : RepoPath}

/-- What a scope covers it covers with everything beneath. -/
theorem covers_trans {scope : ReconcileScope} (covered : scope.covers directory = true)
    (contains : directory.contains path = true) : scope.covers path = true := by
  cases scope with
  | full => rfl
  | subtree dir => exact RepoPath.contains_trans covered contains
  | paths named =>
    obtain ⟨dir, among, above⟩ := List.any_eq_true.mp covered
    exact List.any_eq_true.mpr ⟨dir, among, RepoPath.contains_trans above contains⟩

theorem covers_ofDirectory : (ofDirectory directory).covers path = directory.contains path := by
  rw [ofDirectory]
  split_ifs with root
  · rw [root, RepoPath.contains_root]
    rfl
  · rfl

private theorem any_root : (entries.sort (· ≤ ·)).any (· = []) = true ↔ [] ∈ entries := by
  simp

/-- A list covers what one of its entries contains. -/
theorem covers_ofPaths :
    (ofPaths entries).covers path = true ↔ ∃ entry ∈ entries, entry.contains path = true := by
  rw [ofPaths]
  split_ifs with root
  · exact iff_of_true rfl ⟨[], any_root.mp root, RepoPath.contains_root path⟩
  · rw [covers, List.any_eq_true]
    constructor
    · rintro ⟨dir, kept, contained⟩
      exact ⟨dir, (mem_disjoint.mp kept).1, contained⟩
    · rintro ⟨entry, member, contained⟩
      obtain ⟨dir, kept, within⟩ := exists_kept entries member
      exact ⟨dir, kept, RepoPath.contains_trans (RepoPath.contains_of_within within) contained⟩

/-- A list names the entries that no other entry contains, unless one is the root. -/
theorem namesExactly_ofPaths : (ofPaths entries).namesExactly path = true ↔
    [] ∉ entries ∧ path ∈ entries ∧ ∀ dir ∈ entries, ¬ Beneath separator dir path := by
  rw [ofPaths]
  split_ifs with root
  · exact iff_of_false Bool.false_ne_true fun all => all.1 (any_root.mp root)
  · rw [namesExactly, decide_eq_true_iff, mem_disjoint]
    exact (and_iff_right fun member => root (any_root.mpr member)).symm

end ReconcileScope

end Harkness.Context
