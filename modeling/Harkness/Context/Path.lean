import Harkness.Platform.PathBuf
import Harkness.ToMathlib.Separated

/-! # Repository-relative paths

A path is the bytes Git reports, compared as `memcmp` does. The empty path is the worktree root and
contains everything; any other contains itself and what goes on behind it with a separator.
-/

namespace Harkness.Context

open Separated

/-- A repository-relative path, as its bytes. -/
abbrev RepoPath := List (Fin 256)

instance : LawfulBEq RepoPath := inferInstance

instance : IsTrans RepoPath (· ≤ ·) := inferInstance

instance : Std.Antisymm ((· ≤ ·) : RepoPath → RepoPath → Prop) := inferInstance

instance : Std.Total ((· ≤ ·) : RepoPath → RepoPath → Prop) := inferInstance

/-- The byte between the parts of a path. -/
def separator : Fin 256 := 47

namespace RepoPath

/-- Whether a path is this one or sits beneath it. -/
def contains (self other : RepoPath) : Bool :=
  if self = [] then true
  else if self = other then true
  else
    match self.isPrefixOf? other with
    | none => false
    | some rest => rest.head? = some separator

/-- The directory a path sits in, or none at the root. -/
def parent (self : RepoPath) : Option RepoPath := beforeLast separator self

/-- Shortens a directory, part by part, until it contains the path. -/
def narrow (common path : RepoPath) : RepoPath :=
  if contains common path then common
  else
    match _cut : beforeLast separator common with
    | none => []
    | some shorter => narrow shorter path
termination_by common.length
decreasing_by exact (beneath_of_beforeLast _cut).length_lt

/-- The longest directory that contains every one of some paths. -/
def commonAncestor : List RepoPath → RepoPath
  | [] => []
  | first :: paths => paths.foldl narrow ((parent first).getD [])

variable {dir path other : RepoPath}

theorem contains_iff : contains dir path = true ↔ dir = [] ∨ Within separator dir path := by
  rw [contains]
  split_ifs with root same
  · exact iff_of_true rfl (.inl root)
  · exact iff_of_true rfl (.inr (.inl same))
  · have beneath : Within separator dir path ↔ ∃ rest, path = dir ++ separator :: rest :=
      or_iff_right same
    rw [or_iff_right root, beneath]
    cases found : dir.isPrefixOf? path with
    | none =>
      refine iff_of_false Bool.false_ne_true ?_
      rintro ⟨rest, behind⟩
      rw [List.isPrefixOf?_eq_some_iff_append_eq.mpr behind.symm] at found
      cases found
    | some rest =>
      rw [← List.isPrefixOf?_eq_some_iff_append_eq.mp found]
      cases rest with
      | nil => simp
      | cons byte rest => simp

theorem contains_of_within (within : Within separator dir path) : contains dir path = true :=
  contains_iff.2 (.inr within)

@[simp] theorem contains_root (path : RepoPath) : contains [] path = true := contains_iff.2 (.inl rfl)

@[simp] theorem contains_self (path : RepoPath) : contains path path = true :=
  contains_of_within (.refl path)

/-- What a path contains, a directory that contains the path contains as well. -/
theorem contains_trans (first : contains dir other = true) (second : contains other path = true) :
    contains dir path = true := by
  rw [contains_iff] at first second ⊢
  rcases first with root | first
  · exact .inl root
  · rcases second with rfl | second
    · rcases first with root | ⟨rest, same⟩
      · exact .inl root
      · exact absurd same.symm (List.append_ne_nil_of_right_ne_nil _ (List.cons_ne_nil _ _))
    · exact .inr (first.trans second)

theorem contains_parent (path : RepoPath) : contains ((parent path).getD []) path = true := by
  cases found : parent path with
  | none => exact contains_root path
  | some dir => exact contains_of_within (.inr (beneath_of_beforeLast found))

/-- The shortened directory contains the path, and what the directory contained. -/
theorem contains_narrow (common path : RepoPath) :
    contains (narrow common path) path = true ∧ contains (narrow common path) common = true := by
  fun_induction narrow common path with
  | case1 common within => exact ⟨within, contains_self common⟩
  | case2 common without cut => exact ⟨contains_root path, contains_root common⟩
  | case3 common without shorter cut ih =>
    exact ⟨ih.1, contains_trans ih.2 (contains_of_within (.inr (beneath_of_beforeLast cut)))⟩

theorem contains_foldl_narrow (paths : List RepoPath) (common : RepoPath) :
    contains (paths.foldl narrow common) common = true ∧
      ∀ path ∈ paths, contains (paths.foldl narrow common) path = true := by
  induction paths generalizing common with
  | nil => exact ⟨contains_self common, fun _ member => absurd member List.not_mem_nil⟩
  | cons path paths ih =>
    obtain ⟨here, others⟩ := ih (narrow common path)
    obtain ⟨below, before⟩ := contains_narrow common path
    exact ⟨contains_trans here before, List.forall_mem_cons.mpr ⟨contains_trans here below, others⟩⟩

/-- The common ancestor contains every path it is taken of. -/
theorem contains_commonAncestor {paths : List RepoPath} (member : path ∈ paths) :
    contains (commonAncestor paths) path = true := by
  cases paths with
  | nil => exact absurd member List.not_mem_nil
  | cons first paths =>
    obtain ⟨here, others⟩ := contains_foldl_narrow paths ((parent first).getD [])
    rcases List.mem_cons.mp member with rfl | member
    · exact contains_trans here (contains_parent path)
    · exact others path member

end RepoPath

end Harkness.Context
