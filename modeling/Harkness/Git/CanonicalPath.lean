import Harkness.Platform.FileTree

/-! # Canonical paths with a missing tail

The nearest ancestor of a path that exists is canonicalized, and the names below it are put back as they are
written. That is the place the path leads to, unless the first of these names is that of a link whose target
is missing.
-/

namespace Harkness.Git

open Platform Platform.FileTree

variable {ν : Type} [DecidableEq ν]

inductive IoError where
  | notFound
  | notADirectory
  | filesystemLoop
deriving DecidableEq

/-- How the system reports a resolution. -/
def reported : Resolution ν → Except IoError (List ν)
  | .found place => .ok place
  | .missing .. => .error .notFound
  | .notDirectory => .error .notADirectory
  | .loop => .error .filesystemLoop

/-- Canonicalization by the system, which follows every link. -/
def canonicalize (tree : FileTree ν) (limit : ℕ) (path : List (PathPart ν)) : Except IoError (List ν) :=
  reported (tree.resolve limit [] path)

/-- Names are taken from the end of a path, kept in reverse, until what is left exists. -/
def restoreTail (tree : FileTree ν) (limit : ℕ) : List (PathPart ν) → List ν → Except IoError (List ν)
  | [], missing => (canonicalize tree limit []).map (· ++ missing)
  | .parent :: above, missing => (canonicalize tree limit (above.reverse ++ [.parent])).map (· ++ missing)
  | .name n :: above, missing =>
    match canonicalize tree limit (above.reverse ++ [.name n]) with
    | .ok resolved => .ok (resolved ++ missing)
    | .error .notFound => restoreTail tree limit above (n :: missing)
    | .error error => .error error

/-- Canonicalizes the nearest existing ancestor and restores a missing tail. -/
def canonicalizeWithMissingTail (tree : FileTree ν) (limit : ℕ) (path : List (PathPart ν)) :
    Except IoError (List ν) :=
  restoreTail tree limit path.reverse []

/-- On its way the path comes to a link from which a name is missing. -/
def Dangles (tree : FileTree ν) (limit : ℕ) (path : List (PathPart ν)) : Prop :=
  ∃ before n after middle target, path = before ++ .name n :: after ∧
    tree.resolve limit [] before = .found middle ∧ tree.entry (middle ++ [n]) = some (.link target) ∧
      ∃ last m left, tree.resolve limit [] (before ++ [.name n]) = .missing last m left

variable {tree : FileTree ν} {limit links : ℕ} {path before after : List (PathPart ν)}
  {found middle last resolved : List ν} {n m : ν} {left : List (PathPart ν)}

theorem canonicalize_of_resolves (resolves : tree.Resolves links [] path found) (enough : links ≤ limit) :
    canonicalize tree limit path = .ok found := by
  rw [canonicalize, resolve_of_resolves resolves enough]
  rfl

theorem canonicalize_of_misses (misses : tree.Misses links [] path last m left) (enough : links ≤ limit) :
    canonicalize tree limit path = .error .notFound := by
  rw [canonicalize, resolve_of_misses misses enough]
  rfl

/-- A path that leads somewhere is canonicalized whole. -/
theorem restoreTail_of_resolves (resolves : tree.Resolves links [] path found) (enough : links ≤ limit)
    (missing : List ν) : restoreTail tree limit path.reverse missing = .ok (found ++ missing) := by
  induction path using List.reverseRecOn with
  | nil =>
    rw [List.reverse_nil, restoreTail, canonicalize_of_resolves resolves enough]
    rfl
  | append_singleton path part =>
    rw [List.reverse_append, List.reverse_singleton, List.singleton_append]
    cases part with
    | parent =>
      rw [restoreTail, List.reverse_reverse, canonicalize_of_resolves resolves enough]
      rfl
    | name n => rw [restoreTail, List.reverse_reverse, canonicalize_of_resolves resolves enough]

/-- Below the last part of a path that leads somewhere the names are restored. -/
theorem restoreTail_of_misses (leading : tree.Resolves links [] before middle) (enough : links ≤ limit)
    {further : ℕ} (misses : tree.Misses further [] (before ++ [.name n]) last m left)
    (enough' : further ≤ limit) (missing : List ν) :
    restoreTail tree limit (before ++ .name n :: after).reverse missing =
      match names? after with
      | some names => .ok (middle ++ n :: names ++ missing)
      | none => .error .notFound := by
  have notFound (after : List (PathPart ν)) :
      canonicalize tree limit (before ++ .name n :: after) = .error .notFound := by
    have longer := misses.append after
    rw [List.append_assoc, List.singleton_append] at longer
    exact canonicalize_of_misses longer enough'
  induction after using List.reverseRecOn generalizing missing with
  | nil =>
    have here := notFound []
    rw [List.reverse_append, List.reverse_singleton, List.singleton_append, restoreTail,
      List.reverse_reverse, here]
    simp only [names?]
    rw [restoreTail_of_resolves leading enough]
    simp
  | append_singleton after part ih =>
    have here := notFound (after ++ [part])
    rw [← List.cons_append, ← List.append_assoc] at here ⊢
    rw [List.reverse_append, List.reverse_singleton, List.singleton_append]
    cases part with
    | parent =>
      rw [restoreTail, List.reverse_reverse, here, names?_append]
      cases names? after <;> rfl
    | name k =>
      rw [restoreTail, List.reverse_reverse, here]
      dsimp only
      rw [ih, names?_append]
      cases names? after with
      | none => rfl
      | some names => simp [names?]

/-- How a path that leads nowhere is canonicalized. -/
theorem canonicalizeWithMissingTail_of_misses (leading : tree.Resolves links [] before middle)
    (enough : links ≤ limit) {further : ℕ} (misses : tree.Misses further [] (before ++ [.name n]) last m left)
    (enough' : further ≤ limit) :
    canonicalizeWithMissingTail tree limit (before ++ .name n :: after) =
      match names? after with
      | some names => .ok (middle ++ n :: names)
      | none => .error .notFound := by
  rw [canonicalizeWithMissingTail, restoreTail_of_misses leading enough misses enough']
  cases names? after with
  | none => rfl
  | some names => simp only [List.append_nil]

theorem canonicalizeWithMissingTail_of_resolves (resolves : tree.Resolves links [] path found)
    (enough : links ≤ limit) : canonicalizeWithMissingTail tree limit path = .ok found := by
  rw [canonicalizeWithMissingTail, restoreTail_of_resolves resolves enough, List.append_nil]

/-- A failure that is not an absence is the failure of the whole. -/
theorem canonicalizeWithMissingTail_of_error {error : IoError}
    (failed : canonicalize tree limit path = .error error) (other : error ≠ .notFound) :
    canonicalizeWithMissingTail tree limit path = .error error := by
  rw [canonicalizeWithMissingTail]
  induction path using List.reverseRecOn with
  | nil => rw [List.reverse_nil, restoreTail, failed]; rfl
  | append_singleton path part =>
    rw [List.reverse_append, List.reverse_singleton, List.singleton_append]
    cases part with
    | parent => rw [restoreTail, List.reverse_reverse, failed]; rfl
    | name n =>
      rw [restoreTail, List.reverse_reverse, failed]
      cases error with
      | notFound => exact absurd rfl other
      | notADirectory | filesystemLoop => rfl

/-- A path that comes to no dangling link is canonicalized to the place it leads to. -/
theorem canonicalizeWithMissingTail_eq_place (clean : ¬ Dangles tree limit path) :
    (canonicalizeWithMissingTail tree limit path).toOption = tree.place limit path := by
  rw [FileTree.place]
  cases end_ : tree.resolve limit [] path with
  | found place =>
    obtain ⟨links, enough, resolves⟩ := resolve_eq_found_iff.mp end_
    rw [canonicalizeWithMissingTail_of_resolves resolves enough]
    rfl
  | missing last m left =>
    obtain ⟨links, enough, misses⟩ := resolve_eq_missing_iff.mp end_
    obtain ⟨before, n, after, first, middle, rfl, leading, directory, turn⟩ := misses.turn
    rcases turn with ⟨absent, rfl, rfl, rfl, rfl⟩ | ⟨target, second, rest, here, sum, rfl, within⟩
    · have here := leading.misses (.here directory absent : tree.Misses 0 _ [.name m] _ m [])
      rw [canonicalizeWithMissingTail_of_misses leading enough here enough]
      dsimp only
      cases names? left <;> rfl
    · refine absurd ⟨before, n, after, middle, target, rfl, ?_, here, last, m, rest, ?_⟩ clean
      · exact resolve_of_resolves leading (by omega)
      · have inner : tree.Misses (second + 1) middle [.name n] last m rest :=
          .link directory here (by rw [List.append_nil]; exact within)
        exact resolve_of_misses (leading.misses inner) (by omega)
  | notDirectory =>
    have failed : canonicalize tree limit path = .error .notADirectory := by rw [canonicalize, end_]; rfl
    rw [canonicalizeWithMissingTail_of_error failed nofun]
    rfl
  | loop =>
    have failed : canonicalize tree limit path = .error .filesystemLoop := by rw [canonicalize, end_]; rfl
    rw [canonicalizeWithMissingTail_of_error failed nofun]
    rfl

/-- A path that comes to a dangling link is never canonicalized to the place it leads to. -/
theorem Dangles.ne_place (dangles : Dangles tree limit path)
    (canonical : canonicalizeWithMissingTail tree limit path = .ok resolved) :
    tree.place limit path ≠ some resolved := by
  obtain ⟨before, n, after, middle, target, rfl, end_, here, last, m, left, missed⟩ := dangles
  obtain ⟨first, enough, leading⟩ := resolve_eq_found_iff.mp end_
  obtain ⟨links, enough', misses⟩ := resolve_eq_missing_iff.mp missed
  obtain ⟨directory, absent⟩ := misses.absent
  have whole := misses.append after
  rw [List.append_assoc, List.singleton_append] at whole
  rw [canonicalizeWithMissingTail_of_misses leading enough misses enough'] at canonical
  rw [FileTree.place, resolve_of_misses whole enough']
  cases spelled : names? after with
  | none => rw [spelled] at canonical; cases canonical
  | some names =>
    rw [spelled] at canonical
    cases canonical
    intro same
    obtain ⟨rest, -, same⟩ := Option.map_eq_some_iff.mp same
    have one : last ++ [m] <+: middle ++ n :: names := ⟨rest, by rw [List.append_assoc]; exact same⟩
    have other : middle ++ [n] <+: middle ++ n :: names := ⟨names, by rw [List.append_assoc]; rfl⟩
    -- Of the missing place and the link one would lie above the other.
    rcases List.prefix_or_prefix_of_prefix one other with above | below
    · by_cases equal : last ++ [m] = middle ++ [n]
      · rw [equal, here] at absent
        cases absent
      · rw [tree.dir_of_entry above equal (by rw [here]; exact nofun)] at absent
        cases absent
    · by_cases equal : middle ++ [n] = last ++ [m]
      · rw [← equal, here] at absent
        cases absent
      · have within : middle ++ [n] <+: last := by
          obtain ⟨added, longer⟩ := below
          cases added using List.reverseRecOn with
          | nil => exact absurd (by rwa [List.append_nil] at longer) equal
          | append_singleton added k =>
            rw [← List.append_assoc] at longer
            exact ⟨added, (List.append_inj' longer rfl).1⟩
        by_cases top : middle ++ [n] = last
        · rw [top, directory] at here
          cases here
        · rw [tree.dir_of_entry within top (by rw [directory]; exact nofun)] at here
          cases here

end Harkness.Git
