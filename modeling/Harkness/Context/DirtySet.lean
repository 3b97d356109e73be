import Harkness.Context.Scope

/-! # The dirty set of the watcher

Hints wait here to become one scope. A marker covers what it contains, the set stays within its
capacity, and what cannot be held is replaced by the directory that holds all of it. Whatever comes in
is covered by what is taken.
-/

namespace Harkness.Context

open Separated

/-- One suggestion about where the index may have fallen behind. -/
inductive ChangeHint where
  | path (path : RepoPath)
  | subtree (directory : RepoPath)
  | overflow
deriving DecidableEq

/-- Most entries the dirty set holds. -/
def watchQueueCapacity : ℕ := 4096

/-- The coalesced set of hints waiting to become one scope. -/
structure DirtySet where
  paths : Finset RepoPath
  subtrees : Finset RepoPath
  everything : Bool
  overflows : ℕ
  /-- The size the most recent collapse gave up at, until it is reported. -/
  dropped : Option ℕ
deriving DecidableEq

namespace DirtySet

def new : DirtySet := ⟨∅, ∅, false, 0, none⟩

def len (self : DirtySet) : ℕ := self.paths.card + self.subtrees.card

def isEmpty (self : DirtySet) : Bool := !self.everything && self.paths = ∅ && self.subtrees = ∅

/-- Whether a marker already covers a path. -/
def covered (self : DirtySet) (path : RepoPath) : Bool :=
  decide (∃ dir ∈ self.subtrees, dir.contains path = true)

/-- Records that the set gives up on what it holds; the count saturates. -/
def giveUp (self : DirtySet) : DirtySet :=
  { self with
    dropped := some (max self.len (self.dropped.getD 0))
    paths := ∅
    subtrees := ∅
    overflows := min (self.overflows + 1) (2 ^ 64 - 1) }

/-- Collapses everything queued into a single full pass. -/
def collapse (self : DirtySet) : DirtySet := { self.giveUp with everything := true }

/-- The directory holding everything in the set. -/
def held (self : DirtySet) : RepoPath :=
  RepoPath.commonAncestor (self.paths.sort (· ≤ ·) ++ self.subtrees.sort (· ≤ ·))

/-- A set past its capacity narrows to the one directory that holds all of it. -/
def bound (self : DirtySet) : DirtySet :=
  if self.len ≤ watchQueueCapacity then self
  else if self.held = [] then { self.giveUp with everything := true }
  else { self.giveUp with subtrees := {self.held} }

/-- The set with a path, before its capacity is looked at. -/
def addPath (self : DirtySet) (path : RepoPath) : DirtySet :=
  { self with paths := insert path self.paths }

/-- The set with a marker and without what the marker contains. -/
def addSubtree (self : DirtySet) (directory : RepoPath) : DirtySet :=
  { self with
    paths := self.paths.filter fun path => ¬ directory.contains path
    subtrees := insert directory (self.subtrees.filter fun dir => ¬ directory.contains dir) }

/-- Absorbs one hint. -/
def insert (self : DirtySet) (hint : ChangeHint) : DirtySet :=
  if self.everything then self
  else
    match hint with
    | .overflow => self.collapse
    | .subtree directory =>
      if directory = [] then self.collapse
      else if self.covered directory then self
      else (self.addSubtree directory).bound
    | .path path => if self.covered path then self else (self.addPath path).bound

/-- The scope the set describes. -/
def scope (self : DirtySet) : ReconcileScope :=
  if self.everything then .full
  else
    match self.paths.sort (· ≤ ·), self.subtrees.sort (· ≤ ·) with
    | [], [only] => .ofDirectory only
    | _, _ => .ofPaths (self.paths ∪ self.subtrees)

/-- Empties the set into the scope it describes. -/
def take (self : DirtySet) : ReconcileScope × DirtySet :=
  (self.scope, { self with everything := false, paths := ∅, subtrees := ∅ })

/-- The set covers what the hint is about. -/
def Holds (self : DirtySet) : ChangeHint → Prop
  | .path path => self.everything = true ∨ path ∈ self.paths ∨ self.covered path = true
  | .subtree directory =>
    self.everything = true ∨ directory ≠ [] ∧ self.covered directory = true
  | .overflow => self.everything = true

/-- What is true of every set, whatever its size. -/
structure Sound (set : DirtySet) : Prop where
  cleared : set.everything = true → set.paths = ∅ ∧ set.subtrees = ∅
  rootless : [] ∉ set.subtrees
  /-- No marker contains another entry. -/
  apart : ∀ dir ∈ set.subtrees, (∀ path ∈ set.paths, dir.contains path = false) ∧
    ∀ other ∈ set.subtrees, dir.contains other = true → dir = other

variable {set : DirtySet} {directory path : RepoPath} {hint : ChangeHint}

theorem covered_iff : set.covered path = true ↔ ∃ dir ∈ set.subtrees, dir.contains path = true :=
  decide_eq_true_iff

theorem isEmpty_iff :
    set.isEmpty = true ↔ set.everything = false ∧ set.paths = ∅ ∧ set.subtrees = ∅ := by
  simp [isEmpty, and_assoc]

theorem not_holds_of_isEmpty (empty : set.isEmpty = true) : ¬ set.Holds hint := by
  obtain ⟨partial_, paths, subtrees⟩ := isEmpty_iff.mp empty
  have uncovered : ∀ path, set.covered path = false := fun path => by simp [covered, subtrees]
  cases hint <;> simp [Holds, partial_, paths, uncovered]

theorem covered_trans (covered : set.covered directory = true)
    (contained : directory.contains path = true) : set.covered path = true := by
  obtain ⟨dir, marker, contains⟩ := covered_iff.mp covered
  exact covered_iff.mpr ⟨dir, marker, RepoPath.contains_trans contains contained⟩

/-- A set that covers every entry of another holds what the other holds. -/
theorem Holds.mono {other : DirtySet} (holds : set.Holds hint)
    (everything : set.everything = true → other.everything = true)
    (paths : ∀ path ∈ set.paths, other.everything = true ∨ path ∈ other.paths ∨
      other.covered path = true)
    (subtrees : ∀ dir ∈ set.subtrees, other.everything = true ∨ other.covered dir = true) :
    other.Holds hint := by
  cases hint with
  | overflow => exact everything holds
  | path path =>
    rcases holds with all | member | covered
    · exact .inl (everything all)
    · exact paths path member
    · obtain ⟨dir, marker, contains⟩ := covered_iff.mp covered
      rcases subtrees dir marker with all | covered
      · exact .inl all
      · exact .inr (.inr (covered_trans covered contains))
  | subtree directory =>
    rcases holds with all | ⟨filled, covered⟩
    · exact .inl (everything all)
    · obtain ⟨dir, marker, contains⟩ := covered_iff.mp covered
      rcases subtrees dir marker with all | covered
      · exact .inl all
      · exact .inr ⟨filled, covered_trans covered contains⟩

theorem covered_marker (marker : directory ∈ set.subtrees) : set.covered directory = true :=
  covered_iff.mpr ⟨directory, marker, RepoPath.contains_self directory⟩

theorem sound_everything (set : DirtySet) : Sound { set.giveUp with everything := true } where
  cleared _ := ⟨rfl, rfl⟩
  rootless := Finset.notMem_empty _
  apart _ marker := absurd marker (Finset.notMem_empty _)

theorem holds_everything (all : set.everything = true) (hint : ChangeHint) : set.Holds hint := by
  cases hint with
  | overflow => exact all
  | path path => exact .inl all
  | subtree directory => exact .inl all

theorem contains_held (set : DirtySet) :
    (∀ path ∈ set.paths, set.held.contains path = true) ∧
      ∀ dir ∈ set.subtrees, set.held.contains dir = true := by
  constructor
  · exact fun path member => RepoPath.contains_commonAncestor
      (List.mem_append_left _ ((Finset.mem_sort _).mpr member))
  · exact fun dir member => RepoPath.contains_commonAncestor
      (List.mem_append_right _ ((Finset.mem_sort _).mpr member))

/-- The bound keeps what the set holds, and the set small. -/
theorem Sound.bound (sound : set.Sound) (partial_ : set.everything = false) :
    set.bound.Sound ∧ set.bound.len ≤ watchQueueCapacity ∧
      ∀ hint, set.Holds hint → set.bound.Holds hint := by
  rw [DirtySet.bound]
  split_ifs with within root
  · exact ⟨sound, within, fun _ holds => holds⟩
  · exact ⟨sound_everything set, Nat.zero_le _, fun hint _ => holds_everything rfl hint⟩
  · obtain ⟨paths, subtrees⟩ := contains_held set
    have marked : ∀ path : RepoPath, set.held.contains path = true →
        covered { set.giveUp with subtrees := {set.held} } path = true :=
      fun path contains => covered_iff.mpr ⟨set.held, Finset.mem_singleton_self _, contains⟩
    refine ⟨⟨?_, ?_, ?_⟩, ?_, fun hint holds => holds.mono ?_ ?_ ?_⟩
    · intro all
      exact absurd (all.symm.trans partial_) (by decide)
    · exact fun member => root (Finset.mem_singleton.mp member).symm
    · intro dir marker
      refine ⟨fun path member => absurd member (Finset.notMem_empty _), fun other member _ => ?_⟩
      rw [Finset.mem_singleton.mp marker, Finset.mem_singleton.mp member]
    · change 0 + Finset.card {set.held} ≤ watchQueueCapacity
      rw [Finset.card_singleton]
      decide
    · exact id
    · exact fun path member => .inr (.inr (marked path (paths path member)))
    · exact fun dir member => .inr (marked dir (subtrees dir member))

theorem Sound.addPath (sound : set.Sound) (partial_ : set.everything = false)
    (free : set.covered path = false) : (set.addPath path).Sound where
  cleared all := absurd (all.symm.trans partial_) (by decide)
  rootless := sound.rootless
  apart dir marker := by
    refine ⟨fun other member => ?_, (sound.apart dir marker).2⟩
    rcases Finset.mem_insert.mp member with rfl | member
    · refine Bool.eq_false_iff.mpr fun contains => ?_
      have covered : set.covered other = true := covered_iff.mpr ⟨dir, marker, contains⟩
      exact absurd (covered.symm.trans free) (by decide)
    · exact (sound.apart dir marker).1 other member

theorem holds_addPath (holds : set.Holds hint) : (set.addPath path).Holds hint :=
  holds.mono id (fun _ member => .inr (.inl (Finset.mem_insert_of_mem member)))
    (fun _ marker => .inr (covered_marker marker))

theorem Sound.addSubtree (sound : set.Sound) (partial_ : set.everything = false)
    (filled : directory ≠ []) (free : set.covered directory = false) :
    (set.addSubtree directory).Sound where
  cleared all := absurd (all.symm.trans partial_) (by decide)
  rootless member := by
    rcases Finset.mem_insert.mp member with same | member
    · exact filled same.symm
    · exact sound.rootless (Finset.mem_filter.mp member).1
  apart dir marker := by
    constructor
    · intro path member
      obtain ⟨member, outside⟩ := Finset.mem_filter.mp member
      rcases Finset.mem_insert.mp marker with rfl | marker
      · exact Bool.eq_false_iff.mpr outside
      · exact (sound.apart dir (Finset.mem_filter.mp marker).1).1 path member
    · intro other member contains
      rcases Finset.mem_insert.mp marker with rfl | marker
      · rcases Finset.mem_insert.mp member with rfl | member
        · rfl
        · exact absurd contains (Finset.mem_filter.mp member).2
      · have held := (Finset.mem_filter.mp marker).1
        rcases Finset.mem_insert.mp member with rfl | member
        · have covered : set.covered other = true := covered_iff.mpr ⟨dir, held, contains⟩
          exact absurd (covered.symm.trans free) (by decide)
        · exact (sound.apart dir held).2 other (Finset.mem_filter.mp member).1 contains

theorem holds_addSubtree (holds : set.Holds hint) : (set.addSubtree directory).Holds hint := by
  have marked : ∀ path : RepoPath, directory.contains path = true →
      (set.addSubtree directory).covered path = true :=
    fun path contains => covered_iff.mpr ⟨directory, Finset.mem_insert_self _ _, contains⟩
  refine holds.mono id (fun path member => ?_) fun dir marker => ?_
  · by_cases contains : directory.contains path = true
    · exact .inr (.inr (marked path contains))
    · exact .inr (.inl (Finset.mem_filter.mpr ⟨member, contains⟩))
  · by_cases contains : directory.contains dir = true
    · exact .inr (marked dir contains)
    · exact .inr (covered_marker (Finset.mem_insert_of_mem (Finset.mem_filter.mpr ⟨marker, contains⟩)))

/-- Absorbing a hint keeps what the set holds and adds the hint to it. -/
theorem Sound.insert (sound : set.Sound) (small : set.len ≤ watchQueueCapacity) (hint : ChangeHint) :
    (set.insert hint).Sound ∧ (set.insert hint).len ≤ watchQueueCapacity ∧
      (set.insert hint).Holds hint ∧ ∀ other, set.Holds other → (set.insert hint).Holds other := by
  unfold DirtySet.insert
  split_ifs with all
  · exact ⟨sound, small, holds_everything all hint, fun _ holds => holds⟩
  · have partial_ : set.everything = false := Bool.eq_false_iff.mpr all
    have collapsed : set.collapse.Sound ∧ set.collapse.len ≤ watchQueueCapacity ∧
        set.collapse.Holds hint ∧ ∀ other, set.Holds other → set.collapse.Holds other :=
      ⟨sound_everything set, Nat.zero_le _, holds_everything rfl hint,
        fun other _ => holds_everything rfl other⟩
    cases hint with
    | overflow => exact collapsed
    | subtree directory =>
      dsimp only
      split_ifs with root covered
      · exact collapsed
      · exact ⟨sound, small, .inr ⟨root, covered⟩, fun _ holds => holds⟩
      · obtain ⟨bounded, within, keeps⟩ :=
          (sound.addSubtree partial_ root (Bool.eq_false_iff.mpr covered)).bound partial_
        exact ⟨bounded, within,
          keeps _ (.inr ⟨root, covered_marker (Finset.mem_insert_self directory _)⟩),
          fun _ holds => keeps _ (holds_addSubtree holds)⟩
    | path path =>
      dsimp only
      split_ifs with covered
      · exact ⟨sound, small, .inr (.inr covered), fun _ holds => holds⟩
      · obtain ⟨bounded, within, keeps⟩ :=
          (sound.addPath partial_ (Bool.eq_false_iff.mpr covered)).bound partial_
        exact ⟨bounded, within, keeps _ (.inr (.inl (Finset.mem_insert_self path _))),
          fun _ holds => keeps _ (holds_addPath holds)⟩

theorem covers_scope (partial_ : set.everything = false) : set.scope.covers path = true ↔
    ∃ entry, (entry ∈ set.paths ∨ entry ∈ set.subtrees) ∧ entry.contains path = true := by
  rw [scope, if_neg (Bool.eq_false_iff.mp partial_)]
  split
  · rename_i none_ one
    rw [ReconcileScope.covers_ofDirectory]
    have paths : ∀ entry, entry ∉ set.paths := fun entry member => by
      rw [← Finset.mem_sort (· ≤ ·), none_] at member
      cases member
    have subtrees : ∀ entry, entry ∈ set.subtrees ↔ entry = _ := fun entry => by
      rw [← Finset.mem_sort (· ≤ ·), one, List.mem_singleton]
    simp only [paths, subtrees, false_or, exists_eq_left]
  · rw [ReconcileScope.covers_ofPaths]
    simp only [Finset.mem_union]

/-- The scope covers what the set holds. -/
theorem covers_of_holds (holds : set.Holds hint) : (∀ path, hint = .path path →
      set.scope.covers path = true) ∧ (∀ dir path, hint = .subtree dir → dir.contains path = true →
      set.scope.covers path = true) ∧ (hint = .overflow → set.scope = .full) := by
  by_cases all : set.everything = true
  · have full : set.scope = .full := if_pos all
    rw [full]
    exact ⟨fun _ _ => rfl, fun _ _ _ _ => rfl, fun _ => rfl⟩
  · have partial_ : set.everything = false := Bool.eq_false_iff.mpr all
    have marked : ∀ path, set.covered path = true → set.scope.covers path = true := by
      intro path covered
      obtain ⟨dir, marker, contains⟩ := covered_iff.mp covered
      exact (covers_scope partial_).mpr ⟨dir, .inr marker, contains⟩
    refine ⟨?_, ?_, ?_⟩
    · rintro path rfl
      rcases holds with all' | member | covered
      · exact absurd all' all
      · exact (covers_scope partial_).mpr ⟨path, .inl member, RepoPath.contains_self path⟩
      · exact marked path covered
    · rintro dir path rfl contains
      rcases holds with all' | ⟨-, covered⟩
      · exact absurd all' all
      · exact marked path (covered_trans covered contains)
    · rintro rfl
      exact absurd holds all

/-- A set that holds a path is taken as a list. -/
theorem scope_of_mem (partial_ : set.everything = false) (member : path ∈ set.paths) :
    set.scope = .ofPaths (set.paths ∪ set.subtrees) := by
  rw [scope, if_neg (Bool.eq_false_iff.mp partial_)]
  split
  · rename_i none_ _
    rw [← Finset.mem_sort (· ≤ ·), none_] at member
    cases member
  · rfl

/-- A path that is held as such is named, unless an entry contains it. -/
theorem namesExactly_scope (sound : set.Sound) (partial_ : set.everything = false)
    (member : path ∈ set.paths) (alone : ∀ entry ∈ set.paths, entry.contains path = true → entry = path)
    (filled : path ≠ []) : set.scope.namesExactly path = true := by
  rw [scope_of_mem partial_ member, ReconcileScope.namesExactly_ofPaths, Finset.mem_union,
    Finset.mem_union]
  refine ⟨?_, .inl member, fun dir held beneath => ?_⟩
  · rintro (root | root)
    · exact filled (alone [] root (RepoPath.contains_root path)).symm
    · exact sound.rootless root
  · have contains := RepoPath.contains_of_within (.inr beneath)
    rcases Finset.mem_union.mp held with held | held
    · exact beneath.ne (alone dir held contains)
    · rw [(sound.apart dir held).1 path member] at contains
      cases contains

/-- Whether absorbing a hint takes the set past its capacity. -/
def crowds (self : DirtySet) : ChangeHint → Bool
  | .overflow => false
  | .subtree directory => !self.everything && directory ≠ [] && !self.covered directory &&
      watchQueueCapacity < (self.addSubtree directory).len
  | .path path => !self.everything && !self.covered path &&
      watchQueueCapacity < (self.addPath path).len

/-- What may be done with a set. -/
inductive Operation where
  | hint (hint : ChangeHint)
  | take

/-- A set, the hints it absorbed since it was last taken, and whether one of them crowded it. -/
structure History where
  set : DirtySet
  hints : List ChangeHint
  crowded : Bool

def History.step (history : History) : Operation → History
  | .hint hint => ⟨history.set.insert hint, history.hints ++ [hint],
      history.crowded || history.set.crowds hint⟩
  | .take => ⟨history.set.take.2, [], false⟩

def History.run (operations : List Operation) : History :=
  operations.foldl History.step ⟨new, [], false⟩

/-- Entries of a set that was not crowded were hinted as such, and it covers everything because it was
told so. -/
structure Told (set : DirtySet) (hints : List ChangeHint) : Prop where
  paths : ∀ path ∈ set.paths, .path path ∈ hints
  subtrees : ∀ dir ∈ set.subtrees, .subtree dir ∈ hints
  everything : set.everything = true → .overflow ∈ hints ∨ .subtree [] ∈ hints

theorem Told.insert {hints : List ChangeHint} (told : set.Told hints)
    (roomy : set.crowds hint = false) : (set.insert hint).Told (hints ++ [hint]) := by
  have kept : set.Told (hints ++ [hint]) :=
    ⟨fun path member => List.mem_append_left _ (told.paths path member),
      fun dir member => List.mem_append_left _ (told.subtrees dir member),
      fun all => (told.everything all).imp (List.mem_append_left _) (List.mem_append_left _)⟩
  have last : hint ∈ hints ++ [hint] := List.mem_append_right _ List.mem_cons_self
  have collapsed : .overflow ∈ hints ++ [hint] ∨ .subtree [] ∈ hints ++ [hint] →
      set.collapse.Told (hints ++ [hint]) :=
    fun whole => ⟨fun _ member => absurd member (Finset.notMem_empty _),
      fun _ member => absurd member (Finset.notMem_empty _), fun _ => whole⟩
  unfold DirtySet.insert
  split_ifs with all
  · exact kept
  · cases hint with
    | overflow => exact collapsed (.inl last)
    | subtree directory =>
      dsimp only
      split_ifs with root covered
      · exact collapsed (.inr (root ▸ last))
      · exact kept
      · have within : (set.addSubtree directory).len ≤ watchQueueCapacity := by
          simpa [crowds, all, root, covered] using roomy
        rw [bound, if_pos within]
        refine ⟨fun path member => kept.paths path (Finset.mem_filter.mp member).1,
          fun dir marker => ?_, kept.everything⟩
        rcases Finset.mem_insert.mp marker with rfl | marker
        · exact last
        · exact kept.subtrees dir (Finset.mem_filter.mp marker).1
    | path path =>
      dsimp only
      split_ifs with covered
      · exact kept
      · have within : (set.addPath path).len ≤ watchQueueCapacity := by
          simpa [crowds, all, covered] using roomy
        rw [bound, if_pos within]
        refine ⟨fun other member => ?_, kept.subtrees, kept.everything⟩
        rcases Finset.mem_insert.mp member with rfl | member
        · exact last
        · exact kept.paths other member

/-- What is true of a set with the hints it absorbed. -/
structure History.Kept (history : History) : Prop where
  sound : history.set.Sound
  small : history.set.len ≤ watchQueueCapacity
  holds : ∀ hint ∈ history.hints, history.set.Holds hint
  told : history.crowded = false → history.set.Told history.hints

theorem History.kept_of_empty (set : DirtySet) : History.Kept ⟨set.take.2, [], false⟩ where
  sound := ⟨fun all => absurd all Bool.false_ne_true, Finset.notMem_empty _,
    fun _ marker => absurd marker (Finset.notMem_empty _)⟩
  small := Nat.zero_le _
  holds _ member := absurd member List.not_mem_nil
  told _ := ⟨fun _ member => absurd member (Finset.notMem_empty _),
    fun _ member => absurd member (Finset.notMem_empty _), fun all => absurd all Bool.false_ne_true⟩

theorem History.Kept.step {history : History} (kept : history.Kept) (operation : Operation) :
    (history.step operation).Kept := by
  cases operation with
  | take => exact kept_of_empty history.set
  | hint hint =>
    obtain ⟨sound, small, holds, keeps⟩ := kept.sound.insert kept.small hint
    refine ⟨sound, small, fun other member => ?_, fun roomy => ?_⟩
    · rcases List.mem_append.mp member with earlier | last
      · exact keeps other (kept.holds other earlier)
      · rw [List.mem_singleton.mp last]
        exact holds
    · obtain ⟨before, now⟩ := Bool.or_eq_false_iff.mp roomy
      exact (kept.told before).insert now

theorem History.kept_run (operations : List Operation) : (History.run operations).Kept := by
  have general : ∀ history : History, history.Kept → (operations.foldl History.step history).Kept := by
    induction operations with
    | nil => exact fun _ kept => kept
    | cons operation operations ih => exact fun _ kept => ih _ (kept.step operation)
  exact general _ (kept_of_empty new)

/-- No hint is lost between two times a set is taken. -/
structure LosesNothing (history : History) : Prop where
  paths : ∀ path, .path path ∈ history.hints → history.set.take.1.covers path = true
  subtrees : ∀ dir path : RepoPath, .subtree dir ∈ history.hints → dir.contains path = true →
    history.set.take.1.covers path = true
  whole : .overflow ∈ history.hints ∨ .subtree [] ∈ history.hints ∨ .path [] ∈ history.hints →
    ∀ path, history.set.take.1.covers path = true
  bounded : history.set.len ≤ watchQueueCapacity
  apart : ∀ dir ∈ history.set.subtrees, (∀ path ∈ history.set.paths, dir.contains path = false) ∧
    ∀ other ∈ history.set.subtrees, dir.contains other = true → dir = other
  /-- A path is named unless a directory, another path or an overflow was hinted that covers it. -/
  named : ∀ path : RepoPath, .path path ∈ history.hints → path ≠ [] → history.crowded = false →
    .overflow ∉ history.hints → (∀ dir : RepoPath, .subtree dir ∈ history.hints → dir.contains path = false) →
    (∀ other : RepoPath, .path other ∈ history.hints → other.contains path = true → other = path) →
    history.set.take.1.namesExactly path = true
  emptied : history.set.take.2.isEmpty = true

theorem loses_nothing (operations : List Operation) : LosesNothing (History.run operations) := by
  obtain ⟨sound, small, holds, told⟩ := History.kept_run operations
  generalize History.run operations = history at sound small holds told
  have root_of_path : .path [] ∈ history.hints → ∀ path, history.set.scope.covers path = true := by
    intro member path
    by_cases all : history.set.everything = true
    · have full : history.set.scope = .full := if_pos all
      rw [full]
      rfl
    · have partial_ := Bool.eq_false_iff.mpr all
      obtain ⟨entry, held, contains⟩ :=
        (covers_scope partial_).mp ((covers_of_holds (holds _ member)).1 [] rfl)
      exact (covers_scope partial_).mpr
        ⟨entry, held, RepoPath.contains_trans contains (RepoPath.contains_root path)⟩
  constructor
  · exact fun path member => (covers_of_holds (holds _ member)).1 path rfl
  · exact fun dir path member => (covers_of_holds (holds _ member)).2.1 dir path rfl
  · rintro (member | member | member) path
    · have full := (covers_of_holds (holds _ member)).2.2 rfl
      rw [take, full]
      rfl
    · exact (covers_of_holds (holds _ member)).2.1 [] path rfl (RepoPath.contains_root path)
    · exact root_of_path member path
  · exact small
  · exact sound.apart
  · intro path member filled roomy calm outside alone
    have hinted := told roomy
    have partial_ : history.set.everything = false := by
      refine Bool.eq_false_iff.mpr fun all => ?_
      rcases hinted.everything all with overflow | root
      · exact calm overflow
      · exact absurd ((outside [] root).symm.trans (RepoPath.contains_root path)) (by decide)
    have held : path ∈ history.set.paths := by
      rcases holds _ member with all | held | covered
      · exact absurd (all.symm.trans partial_) (by decide)
      · exact held
      · obtain ⟨dir, marker, contains⟩ := covered_iff.mp covered
        exact absurd ((outside dir (hinted.subtrees dir marker)).symm.trans contains) (by decide)
    exact namesExactly_scope sound partial_ held
      (fun entry among => alone entry (hinted.paths entry among)) filled
  · rfl

/-- A hinted path that another hinted path contains is covered and no longer named. -/
theorem nested_path_unnamed :
    let history := History.run [.hint (.path [97]), .hint (.path [97, 47, 98])]
    (∀ dir, .subtree dir ∉ history.hints) ∧ history.crowded = false ∧
      .path [97, 47, 98] ∈ history.hints ∧
      history.set.take.1.covers [97, 47, 98] = true ∧
      history.set.take.1.namesExactly [97, 47, 98] = false := by
  have beneath : Beneath separator [97] ([97, 47, 98] : RepoPath) := ⟨[98], rfl⟩
  intro history
  have first : [97] ∈ history.set.paths := by decide
  have second : [97, 47, 98] ∈ history.set.paths := by decide
  refine ⟨by simp [history, History.run, History.step], by decide, by decide, ?_, ?_⟩
  · exact (covers_scope rfl).mpr ⟨_, .inl second, RepoPath.contains_self _⟩
  · rw [take, scope_of_mem rfl second, Bool.eq_false_iff, Ne, ReconcileScope.namesExactly_ofPaths]
    exact fun named => named.2.2 _ (Finset.mem_union_left _ first) beneath

end DirtySet

end Harkness.Context
