import Mathlib.Data.List.Induction

/-! # Trees of files with symbolic links

A place in a tree is the list of the names that lead to it from the root. A written path is resolved part by
part: a name leads into a directory, two dots lead out of it, and a link puts the parts it is written with in
its own place, as often as a limit allows. A resolution finds a place, misses a name in a directory, or fails.
-/

namespace Harkness.Platform

variable {ν : Type}

/-- A part of a written path. -/
inductive PathPart (ν : Type) where
  | parent
  | name (n : ν)
deriving DecidableEq

/-- A path as it is written. -/
structure WrittenPath (ν : Type) where
  absolute : Bool
  parts : List (PathPart ν)
deriving DecidableEq

inductive Entry (ν : Type) where
  | dir
  | file
  | link (target : WrittenPath ν)
deriving DecidableEq

/-- What is at each place; only directories hold something. -/
structure FileTree (ν : Type) where
  entry : List ν → Option (Entry ν)
  root : entry [] = some .dir
  holder : ∀ place n, entry (place ++ [n]) ≠ none → entry place = some .dir

/-- The tree of a table of its places. -/
def FileTree.ofTable [DecidableEq ν] (table : List (List ν × Entry ν)) (root : table.lookup [] = some .dir)
    (holder : ∀ row ∈ table, row.1 ≠ [] → table.lookup row.1.dropLast = some .dir) : FileTree ν where
  entry place := table.lookup place
  root := root
  holder place n there := by
    obtain ⟨entry, found⟩ := Option.ne_none_iff_exists'.mp there
    obtain ⟨before, after, listed, -⟩ := List.lookup_eq_some_iff.mp found
    have above := holder (place ++ [n], entry) (by rw [listed]; exact List.mem_append_cons_self) (by simp)
    rwa [List.dropLast_concat] at above

/-- The parts that lead to a place. -/
def spelled (place : List ν) : List (PathPart ν) := place.map .name

/-- Where the parts of a path are resolved from. -/
def WrittenPath.from_ (path : WrittenPath ν) (place : List ν) : List ν :=
  if path.absolute then [] else place

/-- The names of parts that are all names. -/
def names? : List (PathPart ν) → Option (List ν)
  | [] => some []
  | .parent :: _ => none
  | .name n :: rest => (names? rest).map (n :: ·)

theorem names?_append (parts more : List (PathPart ν)) :
    names? (parts ++ more) = (names? parts).bind fun names => (names? more).map (names ++ ·) := by
  induction parts with
  | nil => simp [names?]
  | cons part parts ih =>
    cases part with
    | parent => rfl
    | name n =>
      rw [List.cons_append, names?, names?, ih]
      cases names? parts with
      | none => rfl
      | some names => cases names? more <;> rfl

/-- How a resolution ends. -/
inductive Resolution (ν : Type) where
  | found (place : List ν)
  | missing (place : List ν) (n : ν) (rest : List (PathPart ν))
  | notDirectory
  | loop
deriving DecidableEq

namespace FileTree

section resolve

variable [DecidableEq ν]

/-- The parts are followed up to the first link, which is left to `jump`. -/
@[simp] def follow (tree : FileTree ν) (jump : List ν → List (PathPart ν) → Resolution ν) (place : List ν) :
    List (PathPart ν) → Resolution ν
  | [] => .found place
  | .parent :: rest =>
    if tree.entry place = some .dir then tree.follow jump place.dropLast rest else .notDirectory
  | .name n :: rest =>
    if tree.entry place = some .dir then
      match tree.entry (place ++ [n]) with
      | none => .missing place n rest
      | some (.link target) => jump (target.from_ place) (target.parts ++ rest)
      | some _ => tree.follow jump (place ++ [n]) rest
    else .notDirectory

/-- The resolution of a path, with at most so many links. -/
def resolve (tree : FileTree ν) : ℕ → List ν → List (PathPart ν) → Resolution ν
  | 0 => tree.follow fun _ _ => .loop
  | limit + 1 => tree.follow (tree.resolve limit)

/-- The place a path leads to, or at which it would be created: names that are missing below a directory are
the names of what is created. -/
def place (tree : FileTree ν) (limit : ℕ) (parts : List (PathPart ν)) : Option (List ν) :=
  match tree.resolve limit [] parts with
  | .found place => some place
  | .missing last n rest => (names? rest).map fun names => last ++ n :: names
  | .notDirectory | .loop => none

end resolve

/-- The parts lead from one place to another through so many links. -/
inductive Resolves (tree : FileTree ν) : ℕ → List ν → List (PathPart ν) → List ν → Prop
  | nil (place : List ν) : Resolves tree 0 place [] place
  | parent {links : ℕ} {place found : List ν} {rest : List (PathPart ν)}
      (directory : tree.entry place = some .dir) (tail : Resolves tree links place.dropLast rest found) :
      Resolves tree links place (.parent :: rest) found
  | name {links : ℕ} {place found : List ν} {n : ν} {rest : List (PathPart ν)} {entry : Entry ν}
      (directory : tree.entry place = some .dir) (here : tree.entry (place ++ [n]) = some entry)
      (plain : ∀ target, entry ≠ .link target) (tail : Resolves tree links (place ++ [n]) rest found) :
      Resolves tree links place (.name n :: rest) found
  | link {links : ℕ} {place found : List ν} {n : ν} {rest : List (PathPart ν)} {target : WrittenPath ν}
      (directory : tree.entry place = some .dir) (here : tree.entry (place ++ [n]) = some (.link target))
      (tail : Resolves tree links (target.from_ place) (target.parts ++ rest) found) :
      Resolves tree (links + 1) place (.name n :: rest) found

/-- The parts lead through so many links to a directory that does not hold the next name. -/
inductive Misses (tree : FileTree ν) :
    ℕ → List ν → List (PathPart ν) → List ν → ν → List (PathPart ν) → Prop
  | here {place : List ν} {n : ν} {rest : List (PathPart ν)} (directory : tree.entry place = some .dir)
      (absent : tree.entry (place ++ [n]) = none) : Misses tree 0 place (.name n :: rest) place n rest
  | parent {links : ℕ} {place last : List ν} {m : ν} {rest left : List (PathPart ν)}
      (directory : tree.entry place = some .dir)
      (tail : Misses tree links place.dropLast rest last m left) :
      Misses tree links place (.parent :: rest) last m left
  | name {links : ℕ} {place last : List ν} {n m : ν} {rest left : List (PathPart ν)} {entry : Entry ν}
      (directory : tree.entry place = some .dir) (here : tree.entry (place ++ [n]) = some entry)
      (plain : ∀ target, entry ≠ .link target) (tail : Misses tree links (place ++ [n]) rest last m left) :
      Misses tree links place (.name n :: rest) last m left
  | link {links : ℕ} {place last : List ν} {n m : ν} {rest left : List (PathPart ν)} {target : WrittenPath ν}
      (directory : tree.entry place = some .dir) (here : tree.entry (place ++ [n]) = some (.link target))
      (tail : Misses tree links (target.from_ place) (target.parts ++ rest) last m left) :
      Misses tree (links + 1) place (.name n :: rest) last m left

/-- On its way from a place a path comes to a link, its own or one a link puts in: the directory of the link
and its name. -/
inductive Meets (tree : FileTree ν) : List ν → List (PathPart ν) → List ν → ν → Prop
  | here {place : List ν} {n : ν} {rest : List (PathPart ν)} {target : WrittenPath ν}
      (directory : tree.entry place = some .dir) (link : tree.entry (place ++ [n]) = some (.link target)) :
      Meets tree place (.name n :: rest) place n
  | parent {place holder : List ν} {m : ν} {rest : List (PathPart ν)}
      (directory : tree.entry place = some .dir) (tail : Meets tree place.dropLast rest holder m) :
      Meets tree place (.parent :: rest) holder m
  | name {place holder : List ν} {n m : ν} {rest : List (PathPart ν)} {entry : Entry ν}
      (directory : tree.entry place = some .dir) (here : tree.entry (place ++ [n]) = some entry)
      (plain : ∀ target, entry ≠ .link target) (tail : Meets tree (place ++ [n]) rest holder m) :
      Meets tree place (.name n :: rest) holder m
  | link {place holder : List ν} {n m : ν} {rest : List (PathPart ν)} {target : WrittenPath ν}
      (directory : tree.entry place = some .dir) (here : tree.entry (place ++ [n]) = some (.link target))
      (tail : Meets tree (target.from_ place) (target.parts ++ rest) holder m) :
      Meets tree place (.name n :: rest) holder m

variable {tree : FileTree ν} {limit links more : ℕ} {place found last : List ν} {n m : ν}
  {parts before after rest left : List (PathPart ν)}

section derive

variable [DecidableEq ν]

/-- A derivation is found by following, whatever the limit leaves over. -/
theorem resolve_of_resolves (resolves : tree.Resolves links place parts found) (enough : links ≤ limit) :
    tree.resolve limit place parts = .found found := by
  induction resolves generalizing limit with
  | nil place => cases limit <;> rfl
  | parent directory tail ih =>
    have rest := ih enough
    cases limit <;> simp only [resolve, follow, directory, if_true] at rest ⊢ <;> exact rest
  | @name links place found n rest entry directory here plain tail ih =>
    have rest := ih enough
    cases entry with
    | link target => exact absurd rfl (plain target)
    | dir | file => cases limit <;> simp only [resolve, follow, directory, here, if_true] at rest ⊢ <;> exact rest
  | link directory here tail ih =>
    cases limit with
    | zero => exact absurd enough (Nat.not_succ_le_zero _)
    | succ limit =>
      simp only [resolve, follow, directory, here, if_true]
      exact ih (Nat.le_of_succ_le_succ enough)

theorem resolve_of_misses (misses : tree.Misses links place parts last m left) (enough : links ≤ limit) :
    tree.resolve limit place parts = .missing last m left := by
  induction misses generalizing limit with
  | here directory absent => cases limit <;> simp only [resolve, follow, directory, absent, if_true]
  | parent directory tail ih =>
    have rest := ih enough
    cases limit <;> simp only [resolve, follow, directory, if_true] at rest ⊢ <;> exact rest
  | @name links place last n m rest left entry directory here plain tail ih =>
    have rest := ih enough
    cases entry with
    | link target => exact absurd rfl (plain target)
    | dir | file => cases limit <;> simp only [resolve, follow, directory, here, if_true] at rest ⊢ <;> exact rest
  | link directory here tail ih =>
    cases limit with
    | zero => exact absurd enough (Nat.not_succ_le_zero _)
    | succ limit =>
      simp only [resolve, follow, directory, here, if_true]
      exact ih (Nat.le_of_succ_le_succ enough)

/-- Following finds or misses by a derivation, where jumping does. -/
theorem follow_derives {jump : List ν → List (PathPart ν) → Resolution ν} {limit : ℕ}
    (jumps : ∀ place parts,
      (∀ found, jump place parts = .found found →
        ∃ links, links + 1 ≤ limit ∧ tree.Resolves links place parts found) ∧
      ∀ last m left, jump place parts = .missing last m left →
        ∃ links, links + 1 ≤ limit ∧ tree.Misses links place parts last m left)
    (place : List ν) (parts : List (PathPart ν)) :
    (∀ found, tree.follow jump place parts = .found found →
      ∃ links ≤ limit, tree.Resolves links place parts found) ∧
    ∀ last m left, tree.follow jump place parts = .missing last m left →
      ∃ links ≤ limit, tree.Misses links place parts last m left := by
  induction parts generalizing place with
  | nil =>
    refine ⟨fun found same => ?_, nofun⟩
    cases same
    exact ⟨0, Nat.zero_le _, .nil place⟩
  | cons part rest ih =>
    cases part with
    | parent =>
      simp only [follow]
      split
      · rename_i directory
        obtain ⟨finds, misses⟩ := ih place.dropLast
        refine ⟨fun found same => ?_, fun last m left same => ?_⟩
        · obtain ⟨links, bound, tail⟩ := finds found same
          exact ⟨links, bound, .parent directory tail⟩
        · obtain ⟨links, bound, tail⟩ := misses last m left same
          exact ⟨links, bound, .parent directory tail⟩
      · exact ⟨nofun, nofun⟩
    | name n =>
      simp only [follow]
      split
      · rename_i directory
        split
        · rename_i absent
          refine ⟨nofun, fun last m left same => ?_⟩
          cases same
          exact ⟨0, Nat.zero_le _, .here directory absent⟩
        · rename_i target here
          obtain ⟨finds, misses⟩ := jumps (target.from_ place) (target.parts ++ rest)
          refine ⟨fun found same => ?_, fun last m left same => ?_⟩
          · obtain ⟨links, bound, tail⟩ := finds found same
            exact ⟨links + 1, bound, .link directory here tail⟩
          · obtain ⟨links, bound, tail⟩ := misses last m left same
            exact ⟨links + 1, bound, .link directory here tail⟩
        · rename_i entry plain here
          obtain ⟨finds, misses⟩ := ih (place ++ [n])
          refine ⟨fun found same => ?_, fun last m left same => ?_⟩
          · obtain ⟨links, bound, tail⟩ := finds found same
            exact ⟨links, bound, .name directory here plain tail⟩
          · obtain ⟨links, bound, tail⟩ := misses last m left same
            exact ⟨links, bound, .name directory here plain tail⟩
      · exact ⟨nofun, nofun⟩

theorem resolve_derives (limit : ℕ) (place : List ν) (parts : List (PathPart ν)) :
    (∀ found, tree.resolve limit place parts = .found found →
      ∃ links ≤ limit, tree.Resolves links place parts found) ∧
    ∀ last m left, tree.resolve limit place parts = .missing last m left →
      ∃ links ≤ limit, tree.Misses links place parts last m left := by
  induction limit generalizing place parts with
  | zero =>
    refine follow_derives (fun _ _ => ⟨?_, ?_⟩) place parts
    · intro found same; cases same
    · intro last m left same; cases same
  | succ limit ih =>
    refine follow_derives (fun place parts => ?_) place parts
    obtain ⟨finds, misses⟩ := ih place parts
    refine ⟨fun found same => ?_, fun last m left same => ?_⟩
    · obtain ⟨links, bound, tail⟩ := finds found same
      exact ⟨links, Nat.succ_le_succ bound, tail⟩
    · obtain ⟨links, bound, tail⟩ := misses last m left same
      exact ⟨links, Nat.succ_le_succ bound, tail⟩

theorem resolve_eq_found_iff : tree.resolve limit place parts = .found found ↔
    ∃ links ≤ limit, tree.Resolves links place parts found :=
  ⟨(resolve_derives limit place parts).1 found, fun ⟨_, bound, resolves⟩ => resolve_of_resolves resolves bound⟩

theorem resolve_eq_missing_iff : tree.resolve limit place parts = .missing last m left ↔
    ∃ links ≤ limit, tree.Misses links place parts last m left :=
  ⟨(resolve_derives limit place parts).2 last m left, fun ⟨_, bound, misses⟩ => resolve_of_misses misses bound⟩

end derive

theorem Resolves.append (leading : tree.Resolves links place before found)
    (trailing : tree.Resolves more found after last) :
    tree.Resolves (links + more) place (before ++ after) last := by
  induction leading with
  | nil place => rwa [Nat.zero_add]
  | parent directory tail ih => exact .parent directory (ih trailing)
  | name directory here plain tail ih => exact .name directory here plain (ih trailing)
  | link directory here tail ih =>
    rw [Nat.add_right_comm]
    have tail := ih trailing
    rw [List.append_assoc] at tail
    exact .link directory here tail

theorem Resolves.misses (leading : tree.Resolves links place before found)
    (trailing : tree.Misses more found after last m left) :
    tree.Misses (links + more) place (before ++ after) last m left := by
  induction leading with
  | nil place => rwa [Nat.zero_add]
  | parent directory tail ih => exact .parent directory (ih trailing)
  | name directory here plain tail ih => exact .name directory here plain (ih trailing)
  | link directory here tail ih =>
    rw [Nat.add_right_comm]
    have tail := ih trailing
    rw [List.append_assoc] at tail
    exact .link directory here tail

/-- What follows a missing name is left over. -/
theorem Misses.append (misses : tree.Misses links place before last m left) (after : List (PathPart ν)) :
    tree.Misses links place (before ++ after) last m (left ++ after) := by
  induction misses with
  | here directory absent => exact .here directory absent
  | parent directory tail ih => exact .parent directory ih
  | name directory here plain tail ih => exact .name directory here plain ih
  | link directory here tail ih =>
    rw [List.append_assoc] at ih
    exact .link directory here ih

/-- A path that leads somewhere leads through a place after each part of it. -/
theorem Resolves.split (resolves : tree.Resolves links place (before ++ after) found) :
    ∃ first middle second, links = first + second ∧ tree.Resolves first place before middle ∧
      tree.Resolves second middle after found := by
  generalize whole : before ++ after = parts at resolves
  induction resolves generalizing before with
  | nil place =>
    obtain ⟨rfl, rfl⟩ := List.append_eq_nil_iff.mp whole
    exact ⟨0, place, 0, rfl, .nil place, .nil place⟩
  | @parent links place found rest directory tail ih =>
    cases before with
    | nil => subst whole; exact ⟨0, place, links, (Nat.zero_add _).symm, .nil place, .parent directory tail⟩
    | cons part before =>
      obtain ⟨rfl, same⟩ := List.cons.inj whole
      obtain ⟨first, middle, second, sum, leading, trailing⟩ := ih same
      exact ⟨first, middle, second, sum, .parent directory leading, trailing⟩
  | @name links place found n rest entry directory here plain tail ih =>
    cases before with
    | nil => subst whole; exact ⟨0, place, links, (Nat.zero_add _).symm, .nil place, .name directory here plain tail⟩
    | cons part before =>
      obtain ⟨rfl, same⟩ := List.cons.inj whole
      obtain ⟨first, middle, second, sum, leading, trailing⟩ := ih same
      exact ⟨first, middle, second, sum, .name directory here plain leading, trailing⟩
  | @link links place found n rest target directory here tail ih =>
    cases before with
    | nil => subst whole; exact ⟨0, place, links + 1, (Nat.zero_add _).symm, .nil place, .link directory here tail⟩
    | cons part before =>
      obtain ⟨rfl, rfl⟩ := List.cons.inj whole
      obtain ⟨first, middle, second, sum, leading, trailing⟩ := ih (List.append_assoc _ _ _)
      refine ⟨first + 1, middle, second, ?_, .link directory here leading, trailing⟩
      rw [sum, Nat.add_right_comm]

/-- A path misses a name in its first parts, or leads through them and misses it in the rest. -/
theorem Misses.split (misses : tree.Misses links place (before ++ after) last m left) :
    (∃ rest, tree.Misses links place before last m rest ∧ left = rest ++ after) ∨
      ∃ first middle second, links = first + second ∧ tree.Resolves first place before middle ∧
        tree.Misses second middle after last m left := by
  generalize whole : before ++ after = parts at misses
  induction misses generalizing before with
  | @here place n rest directory absent =>
    cases before with
    | nil => subst whole; exact .inr ⟨0, place, 0, rfl, .nil place, .here directory absent⟩
    | cons part before =>
      obtain ⟨rfl, rfl⟩ := List.cons.inj whole
      exact .inl ⟨before, .here directory absent, rfl⟩
  | @parent links place last m rest left directory tail ih =>
    cases before with
    | nil =>
      subst whole
      exact .inr ⟨0, place, links, (Nat.zero_add _).symm, .nil place, .parent directory tail⟩
    | cons part before =>
      obtain ⟨rfl, same⟩ := List.cons.inj whole
      rcases ih same with ⟨rest, within, over_⟩ | ⟨first, middle, second, sum, leading, trailing⟩
      · exact .inl ⟨rest, .parent directory within, over_⟩
      · exact .inr ⟨first, middle, second, sum, .parent directory leading, trailing⟩
  | @name links place last n m rest left entry directory here plain tail ih =>
    cases before with
    | nil =>
      subst whole
      exact .inr ⟨0, place, links, (Nat.zero_add _).symm, .nil place, .name directory here plain tail⟩
    | cons part before =>
      obtain ⟨rfl, same⟩ := List.cons.inj whole
      rcases ih same with ⟨rest, within, over_⟩ | ⟨first, middle, second, sum, leading, trailing⟩
      · exact .inl ⟨rest, .name directory here plain within, over_⟩
      · exact .inr ⟨first, middle, second, sum, .name directory here plain leading, trailing⟩
  | @link links place last n m rest left target directory here tail ih =>
    cases before with
    | nil =>
      subst whole
      exact .inr ⟨0, place, links + 1, (Nat.zero_add _).symm, .nil place, .link directory here tail⟩
    | cons part before =>
      obtain ⟨rfl, rfl⟩ := List.cons.inj whole
      rcases ih (List.append_assoc _ _ _) with
        ⟨rest, within, over_⟩ | ⟨first, middle, second, sum, leading, trailing⟩
      · exact .inl ⟨rest, .link directory here within, over_⟩
      · refine .inr ⟨first + 1, middle, second, ?_, .link directory here leading, trailing⟩
        rw [sum, Nat.add_right_comm]

/-- A path that misses a name does so at one of its own parts: there the name is absent, or it names a link
from which a name is missed. -/
theorem Misses.turn (misses : tree.Misses links place parts last m left) :
    ∃ before n after first middle, parts = before ++ .name n :: after ∧
      tree.Resolves first place before middle ∧ tree.entry middle = some .dir ∧
        (tree.entry (middle ++ [n]) = none ∧ first = links ∧ last = middle ∧ m = n ∧ left = after ∨
          ∃ target second rest, tree.entry (middle ++ [n]) = some (.link target) ∧
            first + (second + 1) = links ∧ left = rest ++ after ∧
              tree.Misses second (target.from_ middle) target.parts last m rest) := by
  induction parts generalizing links place with
  | nil => cases misses
  | cons part parts ih =>
    cases misses with
    | here directory absent =>
      exact ⟨[], _, _, 0, _, rfl, .nil _, directory, .inl ⟨absent, rfl, rfl, rfl, rfl⟩⟩
    | parent directory tail =>
      obtain ⟨before, n, after, first, middle, rfl, leading, rest⟩ := ih tail
      exact ⟨.parent :: before, n, after, first, middle, rfl, .parent directory leading, rest⟩
    | name directory here plain tail =>
      obtain ⟨before, n, after, first, middle, rfl, leading, rest⟩ := ih tail
      exact ⟨.name _ :: before, n, after, first, middle, rfl, .name directory here plain leading, rest⟩
    | @link links _ _ n _ _ _ target directory here tail =>
      rcases tail.split with ⟨rest, within, rfl⟩ | ⟨through, middle, second, sum, leading, trailing⟩
      · exact ⟨[], n, _, 0, _, rfl, .nil _, directory,
          .inr ⟨target, links, rest, here, by rw [Nat.zero_add], rfl, within⟩⟩
      · obtain ⟨before, k, after, first, end_, rfl, before_, directory', rest⟩ := ih trailing
        refine ⟨.name n :: before, k, after, through + first + 1, end_, rfl,
          .link directory here (leading.append before_), directory', ?_⟩
        rcases rest with ⟨absent, same, outcome⟩ | ⟨inner, third, left, here', total, over_, missed⟩
        · exact .inl ⟨absent, by omega, outcome⟩
        · exact .inr ⟨inner, third, left, here', by omega, over_, missed⟩

/-- Everything above something is a directory. -/
theorem dir_of_entry (tree : FileTree ν) {place below : List ν} (above : place <+: below)
    (proper : place ≠ below) (something : tree.entry below ≠ none) : tree.entry place = some .dir := by
  obtain ⟨added, rfl⟩ := above
  induction added using List.reverseRecOn with
  | nil => exact absurd (List.append_nil place).symm proper
  | append_singleton added n ih =>
    rw [← List.append_assoc] at something
    have directory := tree.holder _ n something
    by_cases same : added = []
    · rw [same, List.append_nil] at directory
      exact directory
    · refine ih (fun none => same ?_) (by rw [directory]; exact nofun)
      exact List.append_right_eq_self.mp none.symm

/-- The missing name is absent from a directory. -/
theorem Misses.absent (misses : tree.Misses links place parts last m left) :
    tree.entry last = some .dir ∧ tree.entry (last ++ [m]) = none := by
  induction misses with
  | here directory absent => exact ⟨directory, absent⟩
  | parent _ _ ih => exact ih
  | name _ _ _ _ ih => exact ih
  | link _ _ _ ih => exact ih

/-- A path leads to something that is not a link. -/
theorem Resolves.entry (resolves : tree.Resolves links place parts found) {entry : Entry ν}
    (start : tree.entry place = some entry) (plain : ∀ target, entry ≠ .link target) :
    ∃ entry, tree.entry found = some entry ∧ ∀ target, entry ≠ .link target := by
  induction resolves generalizing entry with
  | nil => exact ⟨entry, start, plain⟩
  | @parent links place found rest directory tail ih =>
    refine ih (?_ : tree.entry _ = some .dir) nofun
    by_cases top : place = []
    · rw [top]; exact tree.root
    · refine tree.dir_of_entry (List.dropLast_prefix place) (fun same => top ?_) (by rw [directory]; exact nofun)
      have length := congrArg List.length same
      rw [List.length_dropLast] at length
      exact List.length_eq_zero_iff.mp (by omega)
  | name directory here plain' tail ih => exact ih here plain'
  | @link links place found n rest target directory here tail ih =>
    refine ih (?_ : tree.entry _ = some .dir) nofun
    unfold WrittenPath.from_
    split
    · exact tree.root
    · exact directory

/-- The names of a place lead to it without a link. -/
theorem resolves_spelled (tree : FileTree ν) {place : List ν} {entry : Entry ν}
    (here : tree.entry place = some entry) (plain : ∀ target, entry ≠ .link target) :
    tree.Resolves 0 [] (spelled place) place := by
  induction place using List.reverseRecOn generalizing entry with
  | nil => exact .nil []
  | append_singleton place n ih =>
    have directory := tree.holder place n (by rw [here]; exact nofun)
    rw [spelled, List.map_append]
    exact (ih directory nofun).append (.name directory here plain (.nil _))

end FileTree

end Harkness.Platform
