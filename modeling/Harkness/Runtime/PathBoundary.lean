import Harkness.Git.CanonicalPath
import Mathlib.Data.List.Destutter
import Mathlib.Data.List.Lex
import Mathlib.Data.List.Sort

/-! # The path boundary

A boundary holds the canonical directories one invocation may address. A candidate is canonicalized with its
missing tail and has to come out below a root; before that every link on its way that is reached below a root
as it is spelled has to lead below a root, up to the first link that is not.
-/

namespace Harkness.Runtime

open Platform Platform.FileTree Git

variable {ν : Type} [LinearOrder ν]

/-- Why a root is unavailable. -/
inductive RootFailure where
  | io (error : IoError)
  | notADirectory
deriving DecidableEq

/-- A filesystem-boundary refusal. -/
inductive BoundaryError (ν : Type) where
  | outsideAllowedRoots (candidate : WrittenPath ν) (roots : List (List ν))
  | symlinkEscapes (link : List (PathPart ν)) (target : List ν)
  | rootUnavailable (root : WrittenPath ν) (reason : RootFailure)
  | candidateUnavailable (candidate : WrittenPath ν) (reason : IoError)
deriving DecidableEq

/-- Stable machine-readable discriminant. -/
def BoundaryError.kind : BoundaryError ν → String
  | outsideAllowedRoots .. => "outside_allowed_roots"
  | symlinkEscapes .. => "symlink_escapes"
  | rootUnavailable .. => "root_unavailable"
  | candidateUnavailable .. => "candidate_unavailable"

/-- A root as the system names it, from the process's directory; it has to be a directory. -/
def canonicalRoot (tree : FileTree ν) (limit : ℕ) (current : List ν) (root : WrittenPath ν) :
    Except (BoundaryError ν) { place : List ν // tree.entry place = some .dir } :=
  match reported (tree.resolve limit (root.from_ current) root.parts) with
  | .error error => .error (.rootUnavailable root (.io error))
  | .ok place =>
    if directory : tree.entry place = some .dir then .ok ⟨place, directory⟩
    else .error (.rootUnavailable root .notADirectory)

/-- Canonical roots one tool invocation may address. -/
structure PathBoundary (tree : FileTree ν) where
  workspaceRoot : List ν
  extraRoots : List (List ν)
  directories : ∀ root ∈ workspaceRoot :: extraRoots, tree.entry root = some .dir

namespace PathBoundary

variable {tree : FileTree ν}

/-- Every root is canonicalized; the additional ones are sorted, without duplicates and the workspace. -/
def new (tree : FileTree ν) (limit : ℕ) (current : List ν) (workspaceRoot : WrittenPath ν)
    (extraRoots : List (WrittenPath ν)) : Except (BoundaryError ν) (PathBoundary tree) := do
  let workspace ← canonicalRoot tree limit current workspaceRoot
  let extras ← extraRoots.mapM (canonicalRoot tree limit current)
  let others := extras.filter fun root => root.1 ≠ workspace.1
  let sorted := (others.insertionSort fun left right => left.1 ≤ right.1).destutter (· ≠ ·)
  .ok {
    workspaceRoot := workspace.1
    extraRoots := sorted.map Subtype.val
    directories := by
      intro root listed
      rcases List.mem_cons.mp listed with rfl | other
      · exact workspace.2
      · obtain ⟨extra, -, rfl⟩ := List.mem_map.mp other
        exact extra.2 }

/-- Every allowed canonical root, workspace first. -/
def roots (boundary : PathBoundary tree) : List (List ν) :=
  boundary.workspaceRoot :: boundary.extraRoots

/-- Whether a path as it is spelled starts with a root. -/
def containsResolved (boundary : PathBoundary tree) (path : List (PathPart ν)) : Bool :=
  boundary.roots.any fun root => (spelled root).isPrefixOf path

/-- What is at the end of a path, where a last link is not followed. -/
def symlinkMetadata (tree : FileTree ν) (limit : ℕ) (above : List (PathPart ν)) :
    PathPart ν → Except IoError (Entry ν)
  | .parent =>
    match canonicalize tree limit (above ++ [.parent]) with
    | .error error => .error error
    | .ok place => ((tree.entry place).map Except.ok).getD (.error .notFound)
  | .name n =>
    match canonicalize tree limit above with
    | .error error => .error error
    | .ok place =>
      if tree.entry place = some .dir then ((tree.entry (place ++ [n])).map Except.ok).getD (.error .notFound)
      else .error .notADirectory

/-- Finds the first link reached from inside an allowed root whose resolved target leaves every root. -/
def escapingSymlink (boundary : PathBoundary tree) (limit : ℕ) (candidate : WrittenPath ν)
    (reached : List (PathPart ν)) :
    List (PathPart ν) → Except (BoundaryError ν) (Option (List (PathPart ν) × List ν))
  | [] => .ok none
  | component :: rest =>
    match symlinkMetadata tree limit reached component with
    | .error .notFound => .ok none
    | .error error => .error (.candidateUnavailable candidate error)
    | .ok (.link target) =>
      if boundary.containsResolved reached then
        match canonicalizeWithMissingTail tree limit
            (if target.absolute then target.parts else reached ++ target.parts) with
        | .error error => .error (.candidateUnavailable candidate error)
        | .ok resolved =>
          if boundary.containsResolved (spelled resolved) then
            boundary.escapingSymlink limit candidate (spelled resolved) rest
          else .ok (some (reached ++ [component], resolved))
      else .ok none
    | .ok _ => boundary.escapingSymlink limit candidate (reached ++ [component]) rest

end PathBoundary

/-- A canonical path proved to be inside one allowed root. -/
structure ContainedPath {tree : FileTree ν} (boundary : PathBoundary tree) where
  supplied : WrittenPath ν
  resolved : List ν
  contained : boundary.containsResolved (spelled resolved) = true

namespace PathBoundary

variable {tree : FileTree ν}

/-- A relative candidate is resolved from the workspace root. -/
def absolute (boundary : PathBoundary tree) (candidate : WrittenPath ν) : WrittenPath ν where
  absolute := true
  parts := if candidate.absolute then candidate.parts else spelled boundary.workspaceRoot ++ candidate.parts

/-- Resolves a candidate and proves that it lies inside one allowed root. -/
def contain (boundary : PathBoundary tree) (limit : ℕ) (supplied : WrittenPath ν) :
    Except (BoundaryError ν) (ContainedPath boundary) :=
  let absolute := boundary.absolute supplied
  match canonicalizeWithMissingTail tree limit absolute.parts with
  | .error error => .error (.candidateUnavailable supplied error)
  | .ok resolved =>
    match boundary.escapingSymlink limit absolute [] absolute.parts with
    | .error error => .error error
    | .ok (some (link, target)) => .error (.symlinkEscapes link target)
    | .ok none =>
      if contained : boundary.containsResolved (spelled resolved) = true then
        .ok ⟨supplied, resolved, contained⟩
      else .error (.outsideAllowedRoots supplied boundary.roots)

end PathBoundary

end Harkness.Runtime
