import Harkness.Runtime.PathBoundary
import Mathlib.Data.String.Basic

/-! # What the path boundary admits

What is admitted should be the place a candidate leads to, inside a root and through no link out of the roots;
and a candidate that stays inside the roots once it has come inside one should be admitted. That holds of a
candidate exactly where no link on its way is missed: one that dangles, or one that leads out of the roots
behind the first link that is spelled outside them.
-/

namespace Harkness.Runtime.PathBoundary

open Platform Platform.FileTree Git

variable {ν : Type} [LinearOrder ν] {tree : FileTree ν} {boundary : PathBoundary tree} {limit : ℕ}

/-- A place is inside an allowed root. -/
def Inside (boundary : PathBoundary tree) (place : List ν) : Prop :=
  ∃ root ∈ boundary.roots, root <+: place

instance (boundary : PathBoundary tree) (place : List ν) : Decidable (boundary.Inside place) :=
  inferInstanceAs (Decidable (∃ root ∈ boundary.roots, root <+: place))

/-- Once a path has come inside a root it is inside one after each of its further parts. -/
def Stays (boundary : PathBoundary tree) (limit : ℕ) (path : List (PathPart ν)) : Prop :=
  ∀ i j place, i ≤ j → tree.place limit (path.take i) = some place → boundary.Inside place →
    ∃ later, tree.place limit (path.take j) = some later ∧ boundary.Inside later

/-- A path leads to a place inside a root. -/
def EndsInside (boundary : PathBoundary tree) (limit : ℕ) (path : List (PathPart ν)) : Prop :=
  ∃ place, tree.place limit path = some place ∧ boundary.Inside place

/-- On its way a path comes to a link that is inside a root and leads outside all of them. -/
def Exits (boundary : PathBoundary tree) (limit : ℕ) (path : List (PathPart ν)) : Prop :=
  ∃ holder n out, tree.Meets [] path holder n ∧ boundary.Inside holder ∧
    tree.place limit (spelled holder ++ [.name n]) = some out ∧ ¬ boundary.Inside out

/-- What the boundary is for: what it admits is where the candidate leads, inside a root; it refuses a
candidate that comes to a link out of the roots; and it admits every candidate that stays inside the roots and
ends inside one. -/
structure Faithful (boundary : PathBoundary tree) (limit : ℕ) (candidate : WrittenPath ν) : Prop where
  sound : ∀ contained, boundary.contain limit candidate = .ok contained →
    tree.place limit (boundary.absolute candidate).parts = some contained.resolved ∧
      boundary.Inside contained.resolved
  confined : boundary.Exits limit (boundary.absolute candidate).parts →
    ∀ contained, boundary.contain limit candidate ≠ .ok contained
  complete : boundary.Stays limit (boundary.absolute candidate).parts →
    boundary.EndsInside limit (boundary.absolute candidate).parts →
      ∃ contained, boundary.contain limit candidate = .ok contained

/-- What a walk along a path comes to: a link, with the path above it as it is spelled and the place it is
canonicalized to, or a part that cannot be looked at. -/
inductive Look (ν : Type) where
  | link (above : List (PathPart ν)) (leads : Except IoError (List ν))
  | failure (error : IoError)

/-- The links a path is spelled through, each replaced by where it leads, up to a missing name. -/
def looks (tree : FileTree ν) (limit : ℕ) (reached : List (PathPart ν)) : List (PathPart ν) → List (Look ν)
  | [] => []
  | component :: rest =>
    match symlinkMetadata tree limit reached component with
    | .error .notFound => []
    | .error error => [.failure error]
    | .ok (.link target) =>
      match canonicalizeWithMissingTail tree limit
          (if target.absolute then target.parts else reached ++ target.parts) with
      | .error error => [.link reached (.error error)]
      | .ok resolved => .link reached (.ok resolved) :: looks tree limit (spelled resolved) rest
    | .ok _ => looks tree limit (reached ++ [component]) rest

/-- A link is spelled below a root. -/
def Look.below (boundary : PathBoundary tree) : Look ν → Bool
  | .link above _ => boundary.containsResolved above
  | .failure _ => true

/-- A link leads inside a root. -/
def Look.Admits (boundary : PathBoundary tree) : Look ν → Prop
  | .link _ (.ok place) => boundary.Inside place
  | .link _ (.error _) | .failure _ => False

/-- Up to the first link that is spelled outside the roots all links of a path lead inside one. -/
def Passes (boundary : PathBoundary tree) (limit : ℕ) (path : List (PathPart ν)) : Prop :=
  ∀ look ∈ (looks tree limit [] path).takeWhile (Look.below boundary), look.Admits boundary

/-- On its way a path comes to a dangling link that is inside a root, and only names follow. -/
def DanglesInside (boundary : PathBoundary tree) (limit : ℕ) (path : List (PathPart ν)) : Prop :=
  ∃ before n after middle target, path = before ++ .name n :: after ∧
    tree.resolve limit [] before = .found middle ∧ tree.entry (middle ++ [n]) = some (.link target) ∧
      (∃ last m left, tree.resolve limit [] (before ++ [.name n]) = .missing last m left) ∧
        (names? after).isSome ∧ boundary.Inside middle

/-- A path on which no link is missed: where no link dangles, one that leads out is among those that are
looked at, or the path does not end inside; and where one dangles, it is not to be admitted and is not. -/
structure Guarded (boundary : PathBoundary tree) (limit : ℕ) (path : List (PathPart ν)) : Prop where
  seen : ¬ Dangles tree limit path → boundary.Passes limit path → boundary.EndsInside limit path →
    ¬ boundary.Exits limit path
  refused : Dangles tree limit path → boundary.Passes limit path → ¬ boundary.DanglesInside limit path
  needless : Dangles tree limit path → boundary.Stays limit path → ¬ boundary.EndsInside limit path

theorem containsResolved_iff {path : List (PathPart ν)} :
    boundary.containsResolved path = true ↔ ∃ root ∈ boundary.roots, spelled root <+: path := by
  simp only [containsResolved, List.any_eq_true, List.isPrefixOf_iff_prefix]

omit [LinearOrder ν] in
theorem spelled_prefix_iff {root place : List ν} : spelled root <+: spelled place ↔ root <+: place := by
  refine List.prefix_map_iff_of_injective ?_
  intro left right same
  cases same
  rfl

theorem containsResolved_spelled {place : List ν} :
    boundary.containsResolved (spelled place) = true ↔ boundary.Inside place := by
  simp only [containsResolved_iff, spelled_prefix_iff, Inside]

/-- Two places one path leads to are the same. -/
theorem resolves_unique {first second : ℕ} {start one other : List ν} {parts : List (PathPart ν)}
    (left : tree.Resolves first start parts one) (right : tree.Resolves second start parts other) :
    one = other := by
  have same := (resolve_of_resolves left (Nat.le_max_left first second)).symm.trans
    (resolve_of_resolves right (Nat.le_max_right first second))
  cases same
  rfl

theorem place_of_resolves {links : ℕ} {path : List (PathPart ν)} {found : List ν}
    (resolves : tree.Resolves links [] path found) (enough : links ≤ limit) :
    tree.place limit path = some found := by
  rw [FileTree.place, resolve_of_resolves resolves enough]

/-- The next part of a path that leads somewhere and comes to no dangling link: its name is absent, or it
leads on. -/
theorem advance {done rest : List (PathPart ν)} {component : PathPart ν} {links : ℕ} {place last : List ν}
    (here : tree.Resolves links [] done place) (enough : links ≤ limit)
    (clean : ¬ Dangles tree limit (done ++ component :: rest))
    (leads : tree.place limit (done ++ component :: rest) = some last) :
    (∃ n, component = .name n ∧ tree.entry place = some .dir ∧ tree.entry (place ++ [n]) = none) ∨
      ∃ first more next, first + more ≤ limit ∧ tree.Resolves first [] done place ∧
        tree.Resolves more place [component] next := by
  have onward {total : ℕ} {next : List ν} (bound : total ≤ limit)
      (resolves : tree.Resolves total [] (done ++ [component]) next) :
      ∃ first more next, first + more ≤ limit ∧ tree.Resolves first [] done place ∧
        tree.Resolves more place [component] next := by
    obtain ⟨first, middle, more, rfl, leading, trailing⟩ := resolves.split
    obtain rfl := resolves_unique leading here
    exact ⟨first, more, next, bound, leading, trailing⟩
  have whole : done ++ component :: rest = (done ++ [component]) ++ rest := by
    rw [List.append_assoc, List.singleton_append]
  rw [FileTree.place] at leads
  cases end_ : tree.resolve limit [] (done ++ component :: rest) with
  | found found =>
    obtain ⟨total, bound, resolves⟩ := resolve_eq_found_iff.mp end_
    rw [whole] at resolves
    obtain ⟨first, next, second, sum, leading, -⟩ := resolves.split
    exact .inr (onward (by omega) leading)
  | missing last m left =>
    obtain ⟨total, bound, misses⟩ := resolve_eq_missing_iff.mp end_
    rw [whole] at misses
    rcases misses.split with ⟨over_, within, -⟩ | ⟨first, next, second, sum, leading, -⟩
    · have missed := resolve_of_misses within bound
      rcases within.split with ⟨over', within', -⟩ | ⟨first, middle, second, sum, leading, trailing⟩
      · have found := resolve_of_resolves here enough
        rw [resolve_of_misses within' bound] at found
        cases found
      · obtain rfl := resolves_unique leading here
        cases trailing with
        | here directory absent => exact .inl ⟨m, rfl, directory, absent⟩
        | parent _ tail => cases tail
        | name _ _ _ tail => cases tail
        | @link links place last n m rest left target directory entry tail =>
          exact absurd ⟨done, n, _, _, target, rfl, resolve_of_resolves leading (by omega), entry, _, _, _,
            missed⟩ clean
    · exact .inr (onward (by omega) leading)
  | notDirectory | loop => rw [end_] at leads; cases leads

/-- A path that is spelled below a root with one part more is so already, or it is the root. -/
theorem inside_of_concat {reached : List (PathPart ν)} {component : PathPart ν} {next : List ν}
    (spelt : tree.Resolves 0 [] (reached ++ [component]) next)
    (inside : boundary.containsResolved reached = true → boundary.Inside next)
    (below : boundary.containsResolved (reached ++ [component]) = true) : boundary.Inside next := by
  obtain ⟨root, listed, starts⟩ := containsResolved_iff.mp below
  rcases List.prefix_concat_iff.mp starts with whole | shorter
  · have leads := tree.resolves_spelled (boundary.directories root listed) nofun
    rw [whole] at leads
    exact ⟨root, listed, (resolves_unique leads spelt) ▸ List.prefix_refl root⟩
  · exact inside (containsResolved_iff.mpr ⟨root, listed, shorter⟩)

/-- Below the roots no link of a candidate that stays inside them escapes. -/
theorem escapingSymlink_eq_none (candidate : WrittenPath ν) {done rest reached : List (PathPart ν)} {links : ℕ}
    {place last : List ν} (here : tree.Resolves links [] done place) (enough : links ≤ limit)
    (spelt : tree.Resolves 0 [] reached place)
    (lexical : boundary.containsResolved reached = true → boundary.Inside place)
    (clean : ¬ Dangles tree limit (done ++ rest)) (leads : tree.place limit (done ++ rest) = some last)
    (stays : boundary.Stays limit (done ++ rest)) :
    boundary.escapingSymlink limit candidate reached rest = .ok none := by
  induction rest generalizing done reached links place with
  | nil => rfl
  | cons component rest ih =>
    have canonical : canonicalize tree limit reached = .ok place :=
      canonicalize_of_resolves spelt (Nat.zero_le _)
    rcases advance here enough clean leads with
      ⟨n, rfl, directory, absent⟩ | ⟨first, more, next, bound, leading, onward⟩
    · rw [escapingSymlink, symlinkMetadata, canonical]
      simp [directory, absent]
    · have arrived := leading.append onward
      have inside (within : boundary.Inside place) : boundary.Inside next := by
        have taken : (done ++ component :: rest).take done.length = done := List.take_left
        have taken' : (done ++ component :: rest).take (done.length + 1) = done ++ [component] := by
          rw [List.append_cons]
          exact List.take_left' (by rw [List.length_append, List.length_singleton])
        obtain ⟨later, same, inside⟩ := stays done.length (done.length + 1) place (Nat.le_succ _)
          (by rw [taken]; exact place_of_resolves here enough) within
        rw [taken', place_of_resolves arrived bound] at same
        cases same
        exact inside
      have rest_ : done ++ component :: rest = (done ++ [component]) ++ rest := by
        rw [List.append_assoc, List.singleton_append]
      rw [rest_] at clean leads stays
      cases onward with
      | parent directory tail =>
        cases tail
        have spelt' : tree.Resolves 0 [] (reached ++ [.parent]) place.dropLast :=
          spelt.append (.parent directory (.nil _))
        obtain ⟨entry, there, plain⟩ := arrived.entry tree.root nofun
        have metadata : symlinkMetadata tree limit reached .parent = .ok entry := by
          rw [symlinkMetadata, canonicalize_of_resolves spelt' (Nat.zero_le _)]
          simp [there]
        have goes := ih arrived bound spelt'
          (inside_of_concat spelt' fun below => inside (lexical below)) clean leads stays
        rw [escapingSymlink, metadata]
        cases entry with
        | link target => exact absurd rfl (plain target)
        | dir | file => exact goes
      | @name _ _ _ n _ entry directory there plain tail =>
        cases tail
        have spelt' : tree.Resolves 0 [] (reached ++ [.name n]) (place ++ [n]) :=
          spelt.append (.name directory there plain (.nil _))
        have metadata : symlinkMetadata tree limit reached (.name n) = .ok entry := by
          rw [symlinkMetadata, canonical]
          simp [directory, there]
        have goes := ih arrived bound spelt'
          (inside_of_concat spelt' fun below => inside (lexical below)) clean leads stays
        rw [escapingSymlink, metadata]
        cases entry with
        | link target => exact absurd rfl (plain target)
        | dir | file => exact goes
      | @link hops _ _ n _ target directory there tail =>
        rw [List.append_nil] at tail
        have metadata : symlinkMetadata tree limit reached (.name n) = .ok (.link target) := by
          rw [symlinkMetadata, canonical]
          simp [directory, there]
        rw [escapingSymlink, metadata]
        dsimp only
        split
        · rename_i below
          have within := inside (lexical below)
          have resolved : canonicalizeWithMissingTail tree limit
              (if target.absolute = true then target.parts else reached ++ target.parts) = .ok next := by
            refine canonicalizeWithMissingTail_of_resolves (?_ : tree.Resolves (0 + hops) [] _ next) (by omega)
            unfold WrittenPath.from_ at tail
            split
            · rename_i absolute
              rw [if_pos absolute] at tail
              rw [Nat.zero_add]
              exact tail
            · rename_i relative
              rw [if_neg relative] at tail
              exact spelt.append tail
          obtain ⟨entry, exists_, plain⟩ := arrived.entry tree.root nofun
          rw [resolved]
          dsimp only
          rw [if_pos (containsResolved_spelled.mpr within)]
          exact ih arrived bound (tree.resolves_spelled exists_ plain) (fun _ => within) clean leads stays
        · rfl

/-- The check of the links finds none that escapes where those it looks at lead inside. -/
theorem escapingSymlink_eq_none_iff (candidate : WrittenPath ν) {reached rest : List (PathPart ν)} :
    boundary.escapingSymlink limit candidate reached rest = .ok none ↔
      ∀ look ∈ (looks tree limit reached rest).takeWhile (Look.below boundary), look.Admits boundary := by
  induction rest generalizing reached with
  | nil => exact ⟨fun _ => nofun, fun _ => rfl⟩
  | cons component rest ih =>
    rw [escapingSymlink, looks]
    cases symlinkMetadata tree limit reached component with
    | error error =>
      cases error with
      | notFound => exact ⟨fun _ => nofun, fun _ => rfl⟩
      | notADirectory | filesystemLoop => exact ⟨nofun, fun all => (all _ (List.mem_singleton_self _)).elim⟩
    | ok entry =>
      cases entry with
      | dir | file => exact ih
      | link target =>
        dsimp only
        cases canonicalizeWithMissingTail tree limit
            (if target.absolute = true then target.parts else reached ++ target.parts) with
        | error error =>
          by_cases below : boundary.containsResolved reached = true
          · simp [below, Look.below, Look.Admits]
          · simp [below, Look.below]
        | ok resolved =>
          by_cases below : boundary.containsResolved reached = true
          · by_cases inside : boundary.Inside resolved
            · simp [below, containsResolved_spelled.mpr inside, ih, Look.below, Look.Admits, inside]
            · have outside := mt containsResolved_spelled.mp inside
              simp [below, outside, Look.below, Look.Admits, inside]
          · simp [below, Look.below]

/-- A candidate is admitted as the place it is canonicalized to. -/
theorem exists_contain_iff {candidate : WrittenPath ν} :
    (∃ contained, boundary.contain limit candidate = .ok contained) ↔
      boundary.Passes limit (boundary.absolute candidate).parts ∧
        ∃ resolved, canonicalizeWithMissingTail tree limit (boundary.absolute candidate).parts = .ok resolved ∧
          boundary.Inside resolved := by
  rw [Passes, ← escapingSymlink_eq_none_iff (boundary.absolute candidate)]
  unfold contain
  dsimp only
  cases canonicalizeWithMissingTail tree limit (boundary.absolute candidate).parts with
  | error error => simp
  | ok resolved =>
    dsimp only
    cases boundary.escapingSymlink limit (boundary.absolute candidate) [] (boundary.absolute candidate).parts with
    | error error => simp
    | ok escaped =>
      cases escaped with
      | some escaped => simp
      | none =>
        dsimp only
        by_cases inside : boundary.containsResolved (spelled resolved) = true
        · rw [dif_pos inside]
          exact ⟨fun _ => ⟨rfl, resolved, rfl, containsResolved_spelled.mp inside⟩, fun _ => ⟨_, rfl⟩⟩
        · rw [dif_neg inside]
          simpa using mt containsResolved_spelled.mpr inside

theorem resolved_of_contain {candidate : WrittenPath ν} {contained : ContainedPath boundary}
    (admitted : boundary.contain limit candidate = .ok contained) :
    canonicalizeWithMissingTail tree limit (boundary.absolute candidate).parts = .ok contained.resolved := by
  unfold contain at admitted
  dsimp only at admitted
  split at admitted
  · cases admitted
  · rename_i resolved canonical
    split at admitted
    · cases admitted
    · cases admitted
    · split at admitted
      · cases admitted
        exact canonical
      · cases admitted

/-- Where no link dangles a candidate is admitted that passes the check and ends inside. -/
theorem exists_contain_iff_of_clean {candidate : WrittenPath ν}
    (clean : ¬ Dangles tree limit (boundary.absolute candidate).parts) :
    (∃ contained, boundary.contain limit candidate = .ok contained) ↔
      boundary.Passes limit (boundary.absolute candidate).parts ∧
        boundary.EndsInside limit (boundary.absolute candidate).parts := by
  rw [exists_contain_iff, EndsInside, ← canonicalizeWithMissingTail_eq_place clean]
  cases canonicalizeWithMissingTail tree limit (boundary.absolute candidate).parts <;> simp [Except.toOption]

/-- Where no link dangles the links of a candidate that stays inside and ends inside pass the check. -/
theorem passes_of_stays {candidate : WrittenPath ν}
    (clean : ¬ Dangles tree limit (boundary.absolute candidate).parts)
    (stays : boundary.Stays limit (boundary.absolute candidate).parts)
    (ends : boundary.EndsInside limit (boundary.absolute candidate).parts) :
    boundary.Passes limit (boundary.absolute candidate).parts := by
  obtain ⟨place, leads, -⟩ := ends
  have start : tree.Resolves 0 [] [] [] := .nil []
  refine (escapingSymlink_eq_none_iff (boundary.absolute candidate)).mp ?_
  refine escapingSymlink_eq_none _ start (Nat.zero_le limit) start ?_ clean leads stays
  intro below
  obtain ⟨root, listed, starts⟩ := containsResolved_iff.mp below
  refine ⟨root, listed, ?_⟩
  exact (List.map_eq_nil_iff.mp (List.prefix_nil.mp starts)).symm ▸ List.prefix_refl []

/-- Nothing is below a link, so a place below one is inside a root only where the link is. -/
theorem inside_below_link {middle names : List ν} {n : ν} {target : WrittenPath ν}
    (link : tree.entry (middle ++ [n]) = some (.link target)) :
    boundary.Inside (middle ++ n :: names) ↔ boundary.Inside middle := by
  refine ⟨?_, fun ⟨root, listed, starts⟩ => ⟨root, listed, starts.trans (List.prefix_append _ _)⟩⟩
  rintro ⟨root, listed, starts⟩
  have directory := boundary.directories root listed
  have other : middle ++ [n] <+: middle ++ n :: names := ⟨names, by rw [List.append_assoc]; rfl⟩
  rcases List.prefix_or_prefix_of_prefix starts other with above | below
  · rcases List.prefix_concat_iff.mp above with same | shorter
    · rw [same, link] at directory
      cases directory
    · exact ⟨root, listed, shorter⟩
  · by_cases same : middle ++ [n] = root
    · rw [same, directory] at link
      cases link
    · rw [tree.dir_of_entry below same (by rw [directory]; exact nofun)] at link
      cases link

/-- Where a link dangles a candidate is admitted that passes the check, if the link is inside a root and only
names follow. -/
theorem exists_contain_iff_of_dangles {candidate : WrittenPath ν}
    (dangles : Dangles tree limit (boundary.absolute candidate).parts) :
    (∃ contained, boundary.contain limit candidate = .ok contained) ↔
      boundary.Passes limit (boundary.absolute candidate).parts ∧
        boundary.DanglesInside limit (boundary.absolute candidate).parts := by
  rw [exists_contain_iff]
  refine and_congr_right fun _ => ⟨?_, ?_⟩
  · rintro ⟨resolved, canonical, inside⟩
    obtain ⟨before, n, after, middle, target, parts, found, link, last, m, left, missed⟩ := dangles
    obtain ⟨first, enough, leading⟩ := resolve_eq_found_iff.mp found
    obtain ⟨links, enough', misses⟩ := resolve_eq_missing_iff.mp missed
    rw [parts, canonicalizeWithMissingTail_of_misses leading enough misses enough'] at canonical
    cases named : names? after with
    | none => rw [named] at canonical; cases canonical
    | some names =>
      rw [named] at canonical
      cases canonical
      exact ⟨before, n, after, middle, target, parts, found, link, ⟨last, m, left, missed⟩,
        by rw [named]; rfl, (inside_below_link link).mp inside⟩
  · rintro ⟨before, n, after, middle, target, parts, found, link, ⟨last, m, left, missed⟩, named, inside⟩
    obtain ⟨first, enough, leading⟩ := resolve_eq_found_iff.mp found
    obtain ⟨links, enough', misses⟩ := resolve_eq_missing_iff.mp missed
    obtain ⟨names, named⟩ := Option.isSome_iff_exists.mp named
    refine ⟨middle ++ n :: names, ?_, (inside_below_link link).mpr inside⟩
    rw [parts, canonicalizeWithMissingTail_of_misses leading enough misses enough', named]

/-- Where no link dangles the boundary is faithful to a candidate unless it admits one that comes to a link
out of the roots. -/
theorem faithful_iff_of_clean {candidate : WrittenPath ν}
    (clean : ¬ Dangles tree limit (boundary.absolute candidate).parts) :
    boundary.Faithful limit candidate ↔
      (boundary.Passes limit (boundary.absolute candidate).parts →
        boundary.EndsInside limit (boundary.absolute candidate).parts →
          ¬ boundary.Exits limit (boundary.absolute candidate).parts) := by
  constructor
  · intro faithful passes ends exits
    obtain ⟨contained, admitted⟩ := (exists_contain_iff_of_clean clean).mpr ⟨passes, ends⟩
    exact faithful.confined exits contained admitted
  · intro seen
    constructor
    · intro contained admitted
      have same := canonicalizeWithMissingTail_eq_place clean
      rw [resolved_of_contain admitted] at same
      exact ⟨same.symm, containsResolved_spelled.mp contained.contained⟩
    · intro exits contained admitted
      obtain ⟨passes, ends⟩ := (exists_contain_iff_of_clean clean).mp ⟨contained, admitted⟩
      exact seen passes ends exits
    · intro stays ends
      exact (exists_contain_iff_of_clean clean).mpr ⟨passes_of_stays clean stays ends, ends⟩

/-- Where a link dangles the boundary is faithful to a candidate that it refuses and that was not to be
admitted: what it admits there is never where the candidate leads. -/
theorem faithful_iff_of_dangles {candidate : WrittenPath ν}
    (dangles : Dangles tree limit (boundary.absolute candidate).parts) :
    boundary.Faithful limit candidate ↔
      (¬ ∃ contained, boundary.contain limit candidate = .ok contained) ∧
        (boundary.Stays limit (boundary.absolute candidate).parts →
          ¬ boundary.EndsInside limit (boundary.absolute candidate).parts) := by
  constructor
  · intro faithful
    have refused : ¬ ∃ contained, boundary.contain limit candidate = .ok contained := by
      rintro ⟨contained, admitted⟩
      exact dangles.ne_place (resolved_of_contain admitted) (faithful.sound contained admitted).1
    exact ⟨refused, fun stays ends => refused (faithful.complete stays ends)⟩
  · rintro ⟨refused, needless⟩
    constructor
    · intro contained admitted
      exact absurd ⟨contained, admitted⟩ refused
    · intro _ contained admitted
      exact refused ⟨contained, admitted⟩
    · intro stays ends
      exact absurd ends (needless stays)

/-- The boundary is faithful to a candidate exactly where no link on its way is missed. -/
theorem faithful_iff_clean (boundary : PathBoundary tree) (limit : ℕ) (candidate : WrittenPath ν) :
    boundary.Faithful limit candidate ↔ boundary.Guarded limit (boundary.absolute candidate).parts := by
  by_cases dangles : Dangles tree limit (boundary.absolute candidate).parts
  · rw [faithful_iff_of_dangles dangles, exists_contain_iff_of_dangles dangles]
    constructor
    · rintro ⟨refused, needless⟩
      exact ⟨fun clean => absurd dangles clean, fun _ passes inside => refused ⟨passes, inside⟩,
        fun _ => needless⟩
    · intro guarded
      exact ⟨fun ⟨passes, inside⟩ => guarded.refused dangles passes inside, guarded.needless dangles⟩
  · rw [faithful_iff_of_clean dangles]
    constructor
    · intro seen
      exact ⟨fun _ => seen, fun now => absurd now dangles, fun now => absurd now dangles⟩
    · intro guarded
      exact guarded.seen dangles

/-- A workspace with a link out of it, a link to a name outside that is missing, and a link to that link; and
outside it a link to it, one back into it and one to a name in it that is missing. -/
def outward : FileTree String :=
  .ofTable [([], .dir), (["alias"], .link ⟨true, [.name "work"]⟩),
    (["in"], .link ⟨true, [.name "work", .name "new"]⟩), (["out"], .dir),
    (["out", "back"], .link ⟨true, [.name "work"]⟩), (["work"], .dir),
    (["work", "exit"], .link ⟨true, [.name "out"]⟩), (["work", "first"], .link ⟨false, [.name "note"]⟩),
    (["work", "note"], .link ⟨true, [.name "out", .name "new"]⟩)] rfl (by decide)

def outwardBoundary : PathBoundary outward where
  workspaceRoot := ["work"]
  extraRoots := []
  directories := by decide

/-- A candidate that comes into the workspace from outside, leaves it by a link and comes back. -/
def roundabout : WrittenPath String :=
  ⟨true, [.name "alias", .name "exit", .name "back", .name "file"]⟩

/-- A candidate that comes into the workspace from outside, to a missing name. -/
def inward : WrittenPath String :=
  ⟨true, [.name "in"]⟩

/-- The missing name outside is where two candidates lead that are admitted as the links' own places: one
comes to it by a second link, the other from outside the roots. The candidate that leaves the workspace by a
link and comes back is admitted, and the one that leads to a missing name in it is refused. -/
theorem outward_unfaithful :
    new outward 40 [] ⟨true, [.name "work"]⟩ [] = .ok outwardBoundary ∧
    ¬ outwardBoundary.Inside ["out", "new"] ∧
    (∀ row ∈ [((⟨false, [.name "first"]⟩ : WrittenPath String), ["work", "first"]),
        (⟨true, [.name "alias", .name "note"]⟩, ["work", "note"])],
      outward.place 40 (outwardBoundary.absolute row.1).parts = some ["out", "new"] ∧
        (∃ contained, outwardBoundary.contain 40 row.1 = .ok contained ∧ contained.resolved = row.2) ∧
          ¬ outwardBoundary.Faithful 40 row.1) ∧
    (outwardBoundary.Exits 40 roundabout.parts ∧
      (∃ contained, outwardBoundary.contain 40 roundabout = .ok contained) ∧
        ¬ outwardBoundary.Faithful 40 roundabout) ∧
    outward.place 40 inward.parts = some ["work", "new"] ∧ outwardBoundary.Stays 40 inward.parts ∧
      outwardBoundary.contain 40 inward = .error (.outsideAllowedRoots inward [["work"]]) ∧
        ¬ outwardBoundary.Faithful 40 inward := by
  have unfaithful (candidate : WrittenPath String) (resolved : List String)
      (contained : outwardBoundary.containsResolved (spelled resolved) = true)
      (leads : outward.place 40 (outwardBoundary.absolute candidate).parts = some ["out", "new"])
      (admitted : outwardBoundary.contain 40 candidate = .ok ⟨candidate, resolved, contained⟩)
      (elsewhere : ["out", "new"] ≠ resolved) : ¬ outwardBoundary.Faithful 40 candidate := by
    intro faithful
    have same := (faithful.sound _ admitted).1
    rw [leads] at same
    exact elsewhere (Option.some.inj same)
  refine ⟨rfl, by decide, ?_, ?_, ?_⟩
  · intro row listed
    rcases List.mem_pair.mp listed with rfl | rfl
    · exact ⟨rfl, ⟨⟨_, _, rfl⟩, rfl, rfl⟩, unfaithful _ ["work", "first"] rfl rfl rfl (by decide)⟩
    · exact ⟨rfl, ⟨⟨_, _, rfl⟩, rfl, rfl⟩, unfaithful _ ["work", "note"] rfl rfl rfl (by decide)⟩
  · have exits : outwardBoundary.Exits 40 roundabout.parts := by
      refine ⟨["work"], "exit", ["out"], ?_, by decide, rfl, by decide⟩
      exact .link rfl rfl (.name rfl rfl nofun (.here rfl rfl))
    have admitted : outwardBoundary.contain 40 roundabout = .ok ⟨roundabout, ["work", "file"], rfl⟩ := rfl
    exact ⟨exits, ⟨_, admitted⟩, fun faithful => faithful.confined exits _ admitted⟩
  · have stays : outwardBoundary.Stays 40 inward.parts := by
      intro i j place before leads inside
      cases i with
      | zero => cases leads; exact absurd inside (by decide)
      | succ i =>
        have whole (k : ℕ) (some_ : i + 1 ≤ k) : inward.parts.take k = inward.parts :=
          List.take_of_length_le (by simp only [inward, List.length_singleton]; omega)
        rw [whole _ le_rfl] at leads
        exact ⟨place, by rw [whole _ before, leads], inside⟩
    have refused : outwardBoundary.contain 40 inward = .error (.outsideAllowedRoots inward [["work"]]) := rfl
    refine ⟨rfl, stays, refused, fun faithful => ?_⟩
    obtain ⟨contained, admitted⟩ := faithful.complete stays ⟨_, rfl, by decide⟩
    rw [refused] at admitted
    cases admitted

end Harkness.Runtime.PathBoundary
