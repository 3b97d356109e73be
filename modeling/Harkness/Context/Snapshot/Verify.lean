import Harkness.Context.Snapshot.Record

/-! # Whether a snapshot still describes its workspace

Verification compares a snapshot with a later read of the workspace, component by component; the sets
of paths are joined in order. The composite digest of a snapshot assembled from that read answers the
same question through its hashes.
-/

namespace Harkness.Context.Snapshot

/-- Which part of a workspace identity a divergence belongs to. -/
inductive SnapshotComponent where
  | repositoryIdentity
  | worktreeRoot
  | head
  | branch
  | index
  | trackedDirty
  | untracked
deriving DecidableEq, Repr

/-- The place of a component in the order of the comparison. -/
def SnapshotComponent.place : SnapshotComponent → ℕ
  | repositoryIdentity => 0
  | worktreeRoot => 1
  | head => 2
  | branch => 3
  | index => 4
  | trackedDirty => 5
  | untracked => 6

/-- How one component moved between a capture and a verification. -/
inductive PathDivergence where
  | added
  | removed
  | changed
deriving DecidableEq, Repr

structure StalePath where
  path : Option Vector_
  component : SnapshotComponent
  change : PathDivergence
deriving DecidableEq

/-- Why a workspace could not be checked at all. -/
inductive UnverifiableReason where
  | repositoryUnavailable
  | worktreeRootMissing
  | statusUnavailable
  | cancelled
deriving DecidableEq, Repr

inductive FreshnessState where
  | fresh
  | stale (changed : List StalePath)
  | unverifiable (reason : UnverifiableReason)
deriving DecidableEq

/-- What a verdict names. -/
def FreshnessState.changed : FreshnessState → List StalePath
  | stale changed => changed
  | fresh | unverifiable _ => []

/-- One re-read of a workspace. -/
structure WorkspaceReading where
  outcome : Except UnverifiableReason Collected

/-- Reports a present, absent or changed scalar component. -/
def scalarDivergence (component : SnapshotComponent) : Option Text → Option Text → List StalePath
  | some before, some after => if before = after then [] else [⟨none, component, .changed⟩]
  | none, none => []
  | none, some _ => [⟨none, component, .added⟩]
  | some _, none => [⟨none, component, .removed⟩]

/-- Merge-joins two sorted path sets and names every difference. -/
def setDivergence (component : SnapshotComponent) :
    List FileDigestEntry → List FileDigestEntry → List StalePath
  | left :: before, right :: after =>
    if left.path = right.path then
      if left.digest ≠ right.digest then
        ⟨some left.path, component, .changed⟩ :: setDivergence component before after
      else
        setDivergence component before after
    else if left.path < right.path then
      ⟨some left.path, component, .removed⟩ :: setDivergence component before (right :: after)
    else
      ⟨some right.path, component, .added⟩ :: setDivergence component (left :: before) after
  | before, [] => before.map fun entry => ⟨some entry.path, component, .removed⟩
  | [], after => after.map fun entry => ⟨some entry.path, component, .added⟩

namespace WorkspaceSnapshot

variable {sha256 : List UInt8 → Sha256Hex}

/-- Everything that moved, component by component. -/
def divergences (snapshot : WorkspaceSnapshot sha256) (collected : Collected) : List StalePath :=
  (if collected.repositoryIdentity ≠ snapshot.repositoryIdentity then
    [⟨none, .repositoryIdentity, .changed⟩] else []) ++
  (if collected.worktreeRoot.components ≠ snapshot.worktreeRoot.components then
    [⟨none, .worktreeRoot, .changed⟩] else []) ++
  scalarDivergence .head snapshot.head collected.head ++
  scalarDivergence .branch snapshot.branch collected.branch ++
  setDivergence .index snapshot.files.staged collected.files.staged ++
  setDivergence .trackedDirty snapshot.files.trackedDirty collected.files.trackedDirty ++
  setDivergence .untracked snapshot.files.untracked collected.files.untracked

/-- Compares a snapshot with a workspace read somebody else performed. -/
def verifyAgainst (snapshot : WorkspaceSnapshot sha256) (reading : WorkspaceReading) :
    FreshnessState :=
  match reading.outcome with
  | .error reason => .unverifiable reason
  | .ok collected =>
    if snapshot.divergences collected = [] then .fresh else .stale (snapshot.divergences collected)

end WorkspaceSnapshot

/-- What a path set holds of a path. -/
def held (entries : List FileDigestEntry) (path : Vector_) : Option ContentDigest :=
  (entries.find? (·.path = path)).map (·.digest)

/-- How a contribution moved. -/
def classify {α : Type} [DecidableEq α] : Option α → Option α → Option PathDivergence
  | none, none => none
  | none, some _ => some .added
  | some _, none => some .removed
  | some before, some after => if before = after then none else some .changed

theorem classify_eq_none {α : Type} [DecidableEq α] {before after : Option α} :
    classify before after = none ↔ before = after := by
  cases before <;> cases after <;> simp [classify]

theorem Canonical.held_eq_none {entries : List FileDigestEntry} {path : Vector_}
    (above : ∀ entry ∈ entries, path < entry.path) : held entries path = none := by
  rw [held, Option.map_eq_none_iff, List.find?_eq_none]
  intro entry member same
  exact (above entry member).ne' (by simpa using same)

theorem held_cons (entry : FileDigestEntry) {entries : List FileDigestEntry} {path : Vector_} :
    held (entry :: entries) path = if entry.path = path then some entry.digest else held entries path := by
  rw [held, List.find?_cons]
  split_ifs with same <;> simp [same, held]

theorem mem_of_held {entries : List FileDigestEntry} {path : Vector_} {digest : ContentDigest}
    (there : held entries path = some digest) : ⟨path, digest⟩ ∈ entries := by
  obtain ⟨entry, found, rfl⟩ := Option.map_eq_some_iff.mp there
  obtain rfl : entry.path = path := by simpa using List.find?_some found
  exact List.mem_of_find?_eq_some found

/-- Canonical sets that hold the same are the same. -/
theorem Canonical.eq_of_held {entries others : List FileDigestEntry} (first : Canonical entries)
    (second : Canonical others) (same : ∀ path, held entries path = held others path) :
    entries = others := by
  have mem_iff : ∀ {list : List FileDigestEntry}, Canonical list → ∀ entry : FileDigestEntry,
      entry ∈ list ↔ held list entry.path = some entry.digest := by
    intro list canonical entry
    refine ⟨fun member => ?_, mem_of_held⟩
    induction list with
    | nil => cases member
    | cons head list ih =>
      obtain ⟨above, rest⟩ := List.pairwise_cons.mp canonical
      rw [held_cons]
      rcases List.mem_cons.mp member with rfl | later
      · rw [if_pos rfl]
      · rw [if_neg (above entry later).ne, ih rest later]
  apply List.Pairwise.eq_of_mem_iff (r := fun left right : FileDigestEntry => left.path < right.path)
  · exact first
  · exact second
  · intro entry
    rw [mem_iff first, mem_iff second, same]

variable {before after : List FileDigestEntry} {component : SnapshotComponent}

theorem setDivergence_form {entry : StalePath} (member : entry ∈ setDivergence component before after) :
    entry.component = component ∧ ∃ path, entry.path = some path := by
  fun_induction setDivergence component before after with
  | case1 left before right after same differ ih =>
    rcases List.mem_cons.mp member with rfl | later
    · exact ⟨rfl, _, rfl⟩
    · exact ih later
  | case2 left before right after same equal ih => exact ih member
  | case3 left before right after other less ih =>
    rcases List.mem_cons.mp member with rfl | later
    · exact ⟨rfl, _, rfl⟩
    · exact ih later
  | case4 left before right after other more ih =>
    rcases List.mem_cons.mp member with rfl | later
    · exact ⟨rfl, _, rfl⟩
    · exact ih later
  | case5 before =>
    obtain ⟨from_, -, rfl⟩ := List.mem_map.mp member
    exact ⟨rfl, _, rfl⟩
  | case6 after =>
    obtain ⟨from_, -, rfl⟩ := List.mem_map.mp member
    exact ⟨rfl, _, rfl⟩

/-- A path alone on its side of the join. -/
theorem mem_map_held {entries : List FileDigestEntry} (canonical : Canonical entries)
    {path : Vector_} {change : PathDivergence} (moved : PathDivergence) :
    (⟨some path, component, change⟩ : StalePath) ∈
        entries.map (fun entry => ⟨some entry.path, component, moved⟩) ↔
      change = moved ∧ (held entries path).isSome := by
  induction entries with
  | nil => simp [held]
  | cons entry entries ih =>
    rw [List.map_cons, List.mem_cons, ih canonical.of_cons, held_cons]
    by_cases same : entry.path = path
    · subst same
      simp only [StalePath.mk.injEq, true_and, if_pos, Option.isSome_some, and_true]
      exact or_iff_left_of_imp And.left
    · simp [same, Ne.symm same]

/-- The join names exactly the paths of which the sets hold different things. -/
theorem mem_setDivergence (first : Canonical before) (second : Canonical after) {path : Vector_}
    {change : PathDivergence} :
    (⟨some path, component, change⟩ : StalePath) ∈ setDivergence component before after ↔
      classify (held before path) (held after path) = some change := by
  fun_induction setDivergence component before after with
  | case1 left before right after same differ ih =>
    obtain ⟨above, first'⟩ := List.pairwise_cons.mp first
    obtain ⟨above', second'⟩ := List.pairwise_cons.mp second
    rw [List.mem_cons, ih first' second', held_cons, held_cons, ← same]
    by_cases here : left.path = path
    · subst here
      rw [if_pos rfl, if_pos rfl, Canonical.held_eq_none above,
        Canonical.held_eq_none (same ▸ above')]
      simp [classify, differ, eq_comm]
    · simp [here, Ne.symm here]
  | case2 left before right after same equal ih =>
    obtain ⟨above, first'⟩ := List.pairwise_cons.mp first
    obtain ⟨above', second'⟩ := List.pairwise_cons.mp second
    rw [ih first' second', held_cons, held_cons, ← same]
    by_cases here : left.path = path
    · subst here
      rw [if_pos rfl, if_pos rfl, Canonical.held_eq_none above,
        Canonical.held_eq_none (same ▸ above')]
      simp [classify, not_not.mp equal]
    · simp [here]
  | case3 left before right after other paths ih =>
    obtain ⟨above, first'⟩ := List.pairwise_cons.mp first
    rw [List.mem_cons, ih first' second, held_cons left]
    by_cases here : left.path = path
    · subst here
      have missing : held (right :: after) left.path = none := by
        apply Canonical.held_eq_none
        intro entry member
        rcases List.mem_cons.mp member with rfl | later
        · exact paths
        · exact paths.trans (List.rel_of_pairwise_cons second later)
      rw [if_pos rfl, missing, Canonical.held_eq_none above]
      simp [classify, eq_comm]
    · simp [here, Ne.symm here]
  | case4 left before right after other more ih =>
    obtain ⟨above, second'⟩ := List.pairwise_cons.mp second
    have paths : right.path < left.path := lt_of_le_of_ne (not_lt.mp more) (Ne.symm other)
    rw [List.mem_cons, ih first second', held_cons right]
    by_cases here : right.path = path
    · subst here
      have missing : held (left :: before) right.path = none := by
        apply Canonical.held_eq_none
        intro entry member
        rcases List.mem_cons.mp member with rfl | later
        · exact paths
        · exact paths.trans (List.rel_of_pairwise_cons first later)
      rw [if_pos rfl, missing, Canonical.held_eq_none above]
      simp [classify, eq_comm]
    · simp [here, Ne.symm here]
  | case5 before =>
    rw [mem_map_held first]
    cases held before path <;> simp [classify, held, eq_comm]
  | case6 after =>
    rw [mem_map_held second]
    cases held after path <;> simp [classify, held, eq_comm]

/-- Entries come in the order of their components, and within one in the order of their paths. -/
def StalePath.Precedes (left right : StalePath) : Prop :=
  left.component.place < right.component.place ∨
    (left.component = right.component ∧
      ∃ path ∈ left.path, ∃ other ∈ right.path, path < other)

/-- What the join names lies within the sets. -/
theorem path_mem_of_mem_setDivergence {entry : StalePath}
    (member : entry ∈ setDivergence component before after) :
    ∃ path, entry.path = some path ∧ ∃ from_ ∈ before ++ after, from_.path = path := by
  fun_induction setDivergence component before after with
  | case1 left before right after same differ ih | case2 left before right after same differ ih
  | case3 left before right after other less ih | case4 left before right after other more ih
  | case5 before | case6 after => grind

/-- The join goes through both sets in order. -/
theorem pairwise_setDivergence (first : Canonical before) (second : Canonical after) :
    (setDivergence component before after).Pairwise StalePath.Precedes := by
  have ahead : ∀ {path change} {before after : List FileDigestEntry},
      (∀ from_ ∈ before ++ after, path < from_.path) →
        ∀ entry ∈ setDivergence component before after,
          (⟨some path, component, change⟩ : StalePath).Precedes entry := by
    intro path change before after above entry member
    obtain ⟨other, there, from_, inside, rfl⟩ := path_mem_of_mem_setDivergence member
    exact .inr ⟨(setDivergence_form member).1.symm, path, rfl, from_.path, there, above from_ inside⟩
  fun_induction setDivergence component before after with
  | case1 left before right after same differ ih =>
    obtain ⟨above, first'⟩ := List.pairwise_cons.mp first
    obtain ⟨above', second'⟩ := List.pairwise_cons.mp second
    refine List.pairwise_cons.mpr ⟨ahead ?_, ih first' second'⟩
    exact List.forall_mem_append.mpr ⟨above, same ▸ above'⟩
  | case2 left before right after same equal ih => exact ih first.of_cons second.of_cons
  | case3 left before right after other less ih =>
    obtain ⟨above, first'⟩ := List.pairwise_cons.mp first
    refine List.pairwise_cons.mpr ⟨ahead ?_, ih first' second⟩
    refine List.forall_mem_append.mpr ⟨above, List.forall_mem_cons.mpr ⟨less, fun from_ member => ?_⟩⟩
    exact less.trans (List.rel_of_pairwise_cons second member)
  | case4 left before right after other more ih =>
    obtain ⟨above, second'⟩ := List.pairwise_cons.mp second
    have less : right.path < left.path := lt_of_le_of_ne (not_lt.mp more) (Ne.symm other)
    refine List.pairwise_cons.mpr ⟨ahead ?_, ih first second'⟩
    refine List.forall_mem_append.mpr ⟨List.forall_mem_cons.mpr ⟨less, fun from_ member => ?_⟩, above⟩
    exact less.trans (List.rel_of_pairwise_cons first member)
  | case5 before =>
    exact List.pairwise_map.mpr (first.imp fun less => .inr ⟨rfl, _, rfl, _, rfl, less⟩)
  | case6 after =>
    exact List.pairwise_map.mpr (second.imp fun less => .inr ⟨rfl, _, rfl, _, rfl, less⟩)

/-- The bytes a component absorbs, by path where it names paths. -/
def Collected.contribution (collected : Collected) :
    SnapshotComponent → Option Vector_ → Option (List UInt8)
  | .repositoryIdentity, none => some (utf8 collected.repositoryIdentity.val)
  | .worktreeRoot, none => some collected.worktreeRoot.bytes.asBytes
  | .head, none => collected.head.map fun head => utf8 head.val
  | .branch, none => collected.branch.map fun branch => utf8 branch.val
  | .index, some path => (held collected.files.staged path).map fun digest => utf8 digest.asDigestInput
  | .trackedDirty, some path =>
    (held collected.files.trackedDirty path).map fun digest => utf8 digest.asDigestInput
  | .untracked, some path =>
    (held collected.files.untracked path).map fun digest => utf8 digest.asDigestInput
  | _, _ => none

/-- A list of divergences that names, in order and each once, exactly the contributions that differ. -/
structure Exact (before after : Collected) (changed : List StalePath) : Prop where
  ordered : changed.Pairwise StalePath.Precedes
  mem_iff : ∀ entry : StalePath, entry ∈ changed ↔
    classify (before.contribution entry.component entry.path)
      (after.contribution entry.component entry.path) = some entry.change

/-- What a snapshot recorded of the workspace. -/
def WorkspaceSnapshot.collected {sha256 : List UInt8 → Sha256Hex} (snapshot : WorkspaceSnapshot sha256) :
    Collected :=
  ⟨snapshot.repositoryIdentity, snapshot.worktreeRoot, snapshot.head, snapshot.branch, snapshot.files⟩

def WorkspaceSnapshot.request {sha256 : List UInt8 → Sha256Hex} (snapshot : WorkspaceSnapshot sha256) :
    CaptureRequest :=
  ⟨snapshot.projectId, snapshot.instructionsDigest, snapshot.configGeneration,
    snapshot.indexGeneration⟩

theorem utf8_injective : Function.Injective utf8 := by
  intro first second same
  exact String.toList_inj.mp (Utf8.encode_injective same)

theorem utf8_append (first second : String) : utf8 (first ++ second) = utf8 first ++ utf8 second := by
  rw [utf8, String.toList_append, Utf8.encode_append]
  rfl

theorem asBytes_injective : Function.Injective Vector_.asBytes := by
  intro first second same
  have injective : Function.Injective UInt8.ofFin := fun _ _ equal => congrArg UInt8.toFin equal
  exact Subtype.ext (List.map_injective_iff.mpr injective same)

theorem asDigestInput_injective : Function.Injective ContentDigest.asDigestInput := by
  rintro (⟨digest⟩ | ⟨digest⟩ | ⟨id⟩ | _ | _) (⟨other⟩ | ⟨other⟩ | ⟨other⟩ | _ | _) same
  -- The spellings differ from the first characters on, or are those of one variant.
  all_goals
    have texts := congrArg String.toList same
    simp [ContentDigest.asDigestInput] at texts
  · rw [Subtype.ext (String.toList_inj.mp texts)]
  · rw [Subtype.ext (String.toList_inj.mp texts)]
  · rw [Subtype.ext (String.toList_inj.mp texts)]
  · rfl
  · rfl

/-- Components short enough for their frames. -/
def Fit (components : List (List UInt8)) : Prop := ∀ part ∈ components, part.length < 256 ^ 8

theorem length_asBytes (vector : Vector_) : vector.asBytes.length < 256 ^ 8 := by
  rw [Vector_.asBytes, List.length_map]
  exact vector.property.trans (by decide)

theorem length_text (text : Text) : (utf8 text.val).length < 256 ^ 8 := text.property.trans (by decide)

theorem length_digest (digest : Sha256Hex) : (utf8 digest.val).length < 256 ^ 8 := by
  rw [digest.property.1]
  decide

theorem length_integer (value : ℕ) : (integer value).length < 256 ^ 8 := by
  rw [integer, LengthFrame.length_leBytes]
  decide

theorem length_asDigestInput (digest : ContentDigest) :
    (utf8 digest.asDigestInput).length < 256 ^ 8 := by
  cases digest with
  | content digest =>
    rw [ContentDigest.asDigestInput, utf8_append, List.length_append, digest.property.1]
    decide
  | symlinkTarget digest =>
    rw [ContentDigest.asDigestInput, utf8_append, List.length_append, digest.property.1]
    decide
  | stagedBlob id =>
    have short := id.property
    have tag : (utf8 "staged_blob:").length = 12 := by decide
    rw [ContentDigest.asDigestInput, utf8_append, List.length_append, tag]
    omega
  | absent => decide
  | unreadable => decide

theorem fit_pathSet (entries : List FileDigestEntry) : Fit (pathSet entries) := by
  rw [Fit, pathSet, List.forall_mem_cons, List.forall_mem_cons]
  refine ⟨by decide, length_integer _, fun part member => ?_⟩
  obtain ⟨entry, -, inside⟩ := List.mem_flatMap.mp member
  rcases List.mem_pair.mp inside with rfl | rfl
  · exact length_asBytes entry.path
  · exact length_asDigestInput entry.digest

theorem fit_optionalField {field : Option Text} :
    Fit (optionalField (field.map fun text => utf8 text.val)) := by
  cases field with
  | none => exact List.forall_mem_singleton.mpr (by decide)
  | some text =>
    exact List.forall_mem_cons.mpr ⟨by decide, List.forall_mem_singleton.mpr (length_text text)⟩

theorem fit_components {sha256 : List UInt8 → Sha256Hex} (snapshot : WorkspaceSnapshot sha256) :
    Fit snapshot.components := by
  simp only [Fit, WorkspaceSnapshot.components, List.forall_mem_append, List.forall_mem_cons,
    length_text, length_asBytes, length_digest, length_integer, true_and]
  exact ⟨⟨⟨⟨by decide, List.forall_mem_nil _⟩, fit_optionalField⟩, fit_optionalField⟩,
    List.forall_mem_nil _⟩

theorem pathSet_injective : Function.Injective pathSet := by
  intro entries others same
  obtain ⟨-, rest⟩ := List.cons.inj (List.cons.inj same).2
  clear same
  induction entries generalizing others with
  | nil =>
    cases others with
    | nil => rfl
    | cons other others => cases rest
  | cons entry entries ih =>
    cases others with
    | nil => cases rest
    | cons other others =>
      obtain ⟨paths, rest⟩ := List.cons.inj rest
      obtain ⟨digests, rest⟩ := List.cons.inj rest
      have first : entry = other := by
        obtain ⟨path, digest⟩ := entry
        obtain rfl : path = other.path := asBytes_injective paths
        obtain rfl : digest = other.digest := asDigestInput_injective (utf8_injective digests)
        rfl
      rw [first, ih rest]

theorem optionalField_append_inj {field other : Option Text} {rest otherRest : List (List UInt8)}
    (same : optionalField (field.map fun text => utf8 text.val) ++ rest =
      optionalField (other.map fun text => utf8 text.val) ++ otherRest) :
    field = other ∧ rest = otherRest := by
  cases field <;> cases other
  · exact ⟨rfl, (List.cons.inj same).2⟩
  · exact absurd (List.cons.inj same).1 (by decide)
  · exact absurd (List.cons.inj same).1 (by decide)
  · obtain ⟨-, same⟩ := List.cons.inj same
    obtain ⟨texts, rest⟩ := List.cons.inj same
    exact ⟨congrArg some (Subtype.ext (utf8_injective texts)), rest⟩

namespace WorkspaceSnapshot

variable {sha256 : List UInt8 → Sha256Hex} (snapshot : WorkspaceSnapshot sha256)

/-- The path sets of a snapshot. -/
def sets : List (List FileDigestEntry) :=
  [snapshot.files.staged, snapshot.files.trackedDirty, snapshot.files.untracked]

/-- What is hashed for the digest of a snapshot. -/
def hashed : List (List UInt8) :=
  LengthFrame.frames 8 snapshot.components ::
    snapshot.sets.map fun entries => LengthFrame.frames 8 (pathSet entries)

/-- No two different things that are hashed have one digest. -/
def CollisionFree (snapshot other : WorkspaceSnapshot sha256) : Prop :=
  ∀ first ∈ snapshot.hashed ++ other.hashed, ∀ second ∈ snapshot.hashed ++ other.hashed,
    sha256 first = sha256 second → first = second

variable {snapshot} {other : WorkspaceSnapshot sha256}

theorem digestOf_inj {components others : List (List UInt8)} (fit : Fit components)
    (otherFit : Fit others)
    (free : sha256 (LengthFrame.frames 8 components) = sha256 (LengthFrame.frames 8 others) →
      LengthFrame.frames 8 components = LengthFrame.frames 8 others) :
    digestOf sha256 components = digestOf sha256 others ↔ components = others := by
  constructor
  · intro same
    exact LengthFrame.frames_inj (by decide) fit otherFit (free same)
  · rintro rfl
    rfl

theorem pathSetDigest_inj (free : CollisionFree snapshot other) (entries others : List FileDigestEntry)
    (member : entries ∈ snapshot.sets) (otherMember : others ∈ other.sets) :
    pathSetDigest sha256 entries = pathSetDigest sha256 others ↔ entries = others := by
  have inside := List.mem_cons_of_mem (LengthFrame.frames 8 snapshot.components)
    (List.mem_map_of_mem (f := fun entries => LengthFrame.frames 8 (pathSet entries)) member)
  have otherInside := List.mem_cons_of_mem (LengthFrame.frames 8 other.components)
    (List.mem_map_of_mem (f := fun entries => LengthFrame.frames 8 (pathSet entries)) otherMember)
  rw [pathSetDigest, pathSetDigest, ← pathSet_injective.eq_iff]
  exact digestOf_inj (fit_pathSet _) (fit_pathSet _)
    (free _ (List.mem_append_left _ inside) _ (List.mem_append_right _ otherInside))

/-- Snapshots taken with one request have one digest exactly if they recorded the same. -/
theorem digest_eq_iff (free : CollisionFree snapshot other) (request : snapshot.request = other.request) :
    snapshot.digest = other.digest ↔
      snapshot.repositoryIdentity = other.repositoryIdentity ∧
      snapshot.worktreeRoot = other.worktreeRoot ∧ snapshot.head = other.head ∧
      snapshot.branch = other.branch ∧ snapshot.files.staged = other.files.staged ∧
      snapshot.files.trackedDirty = other.files.trackedDirty ∧
      snapshot.files.untracked = other.files.untracked := by
  obtain ⟨project, instructions, config, index⟩ := CaptureRequest.mk.inj request
  have whole : snapshot.digest = other.digest ↔ snapshot.components = other.components :=
    digestOf_inj (fit_components _) (fit_components _)
      (free _ (List.mem_append_left _ List.mem_cons_self) _
        (List.mem_append_right _ List.mem_cons_self))
  have staged := pathSetDigest_inj free snapshot.files.staged other.files.staged
    (by simp [sets]) (by simp [sets])
  have tracked := pathSetDigest_inj free snapshot.files.trackedDirty other.files.trackedDirty
    (by simp [sets]) (by simp [sets])
  have untracked := pathSetDigest_inj free snapshot.files.untracked other.files.untracked
    (by simp [sets]) (by simp [sets])
  rw [whole, ← staged, ← tracked, ← untracked, ← snapshot.indexDigest_eq, ← other.indexDigest_eq,
    ← snapshot.trackedDirtyDigest_eq, ← other.trackedDirtyDigest_eq, ← snapshot.untrackedDigest_eq,
    ← other.untrackedDigest_eq]
  constructor
  · intro same
    simp only [components, List.append_assoc, List.cons_append, List.nil_append, List.cons.injEq,
      true_and] at same
    obtain ⟨-, identity, root, same⟩ := same
    obtain ⟨heads, same⟩ := optionalField_append_inj same
    obtain ⟨branches, same⟩ := optionalField_append_inj same
    simp only [List.cons.injEq] at same
    obtain ⟨first, second, third, -⟩ := same
    refine ⟨Subtype.ext (utf8_injective identity), congrArg PathBuf.mk (asBytes_injective root), heads,
      branches, Subtype.ext (utf8_injective first), Subtype.ext (utf8_injective second),
      Subtype.ext (utf8_injective third)⟩
  · rintro ⟨identity, root, heads, branches, first, second, third⟩
    simp only [components, identity, root, heads, branches, first, second, third, project,
      instructions, config, index]

theorem classify_map {α β : Type} [DecidableEq α] [DecidableEq β] {f : α → β}
    (injective : Function.Injective f) (before after : Option α) :
    classify (before.map f) (after.map f) = classify before after := by
  cases before <;> cases after <;> simp [classify, injective.eq_iff]

theorem mem_scalarDivergence {component : SnapshotComponent} {before after : Option Text}
    {entry : StalePath} : entry ∈ scalarDivergence component before after ↔
      entry.component = component ∧ entry.path = none ∧
        classify (before.map fun text => utf8 text.val) (after.map fun text => utf8 text.val) =
          some entry.change := by
  have injective : Function.Injective fun text : Text => utf8 text.val :=
    utf8_injective.comp Subtype.val_injective
  rw [classify_map injective]
  obtain ⟨path, other, change⟩ := entry
  rcases before with _ | before <;> rcases after with _ | after <;>
    simp only [scalarDivergence, classify] <;> grind

theorem mem_setDivergence_iff {component : SnapshotComponent} {before after : List FileDigestEntry}
    (first : Canonical before) (second : Canonical after) {entry : StalePath} :
    entry ∈ setDivergence component before after ↔ entry.component = component ∧
      ∃ path, entry.path = some path ∧
        classify ((held before path).map fun digest => utf8 digest.asDigestInput)
          ((held after path).map fun digest => utf8 digest.asDigestInput) = some entry.change := by
  have injective : Function.Injective fun digest : ContentDigest => utf8 digest.asDigestInput :=
    utf8_injective.comp asDigestInput_injective
  simp only [classify_map injective]
  constructor
  · intro member
    obtain ⟨same, path, there⟩ := setDivergence_form member
    obtain ⟨_, _, change⟩ := entry
    obtain rfl := same
    obtain rfl := there
    exact ⟨rfl, path, rfl, (mem_setDivergence first second).mp member⟩
  · obtain ⟨_, _, change⟩ := entry
    rintro ⟨rfl, path, rfl, moved⟩
    exact (mem_setDivergence first second).mpr moved

/-- In order, and of components before a place. -/
def OrderedBelow (place : ℕ) (entries : List StalePath) : Prop :=
  entries.Pairwise StalePath.Precedes ∧ ∀ entry ∈ entries, entry.component.place < place

theorem OrderedBelow.append {place : ℕ} {entries more : List StalePath}
    (below : OrderedBelow place entries) (ordered : more.Pairwise StalePath.Precedes)
    (there : ∀ entry ∈ more, entry.component.place = place) :
    OrderedBelow (place + 1) (entries ++ more) := by
  refine ⟨List.pairwise_append.mpr ⟨below.1, ordered, fun entry first other second => ?_⟩, ?_⟩
  · have less := below.2 entry first
    exact .inl (there other second ▸ less)
  · intro entry member
    rcases List.mem_append.mp member with first | second
    · have less := below.2 entry first
      omega
    · have same := there entry second
      omega

theorem OrderedBelow.append_ite {place : ℕ} {entries : List StalePath} {p : Prop} [Decidable p]
    (below : OrderedBelow place entries) (entry : StalePath) (there : entry.component.place = place) :
    OrderedBelow (place + 1) (entries ++ if p then [entry] else []) := by
  split_ifs
  · exact below.append (List.pairwise_singleton _ _) (List.forall_mem_singleton.mpr there)
  · exact below.append .nil nofun

theorem OrderedBelow.append_scalar {place : ℕ} {entries : List StalePath}
    (below : OrderedBelow place entries) (component : SnapshotComponent) (before after : Option Text)
    (there : component.place = place) :
    OrderedBelow (place + 1) (entries ++ scalarDivergence component before after) := by
  refine below.append ?_ fun entry member => (mem_scalarDivergence.1 member).1 ▸ there
  rcases before with _ | before <;> rcases after with _ | after <;>
    simp only [scalarDivergence, List.pairwise_singleton, List.Pairwise.nil]
  split_ifs <;> simp

theorem OrderedBelow.append_set {place : ℕ} {entries : List StalePath}
    {before after : List FileDigestEntry} (below : OrderedBelow place entries)
    (first : Canonical before) (second : Canonical after) (component : SnapshotComponent)
    (there : component.place = place) :
    OrderedBelow (place + 1) (entries ++ setDivergence component before after) :=
  below.append (pairwise_setDivergence first second) fun _ member =>
    (setDivergence_form member).1 ▸ there

theorem ordered_divergences (collected : Collected) :
    (snapshot.divergences collected).Pairwise StalePath.Precedes := by
  have none_ : OrderedBelow 0 [] := ⟨.nil, nofun⟩
  have identity := none_.append_ite (p := collected.repositoryIdentity ≠ snapshot.repositoryIdentity)
    ⟨none, .repositoryIdentity, .changed⟩ rfl
  have root := identity.append_ite
    (p := collected.worktreeRoot.components ≠ snapshot.worktreeRoot.components)
    ⟨none, .worktreeRoot, .changed⟩ rfl
  have head := root.append_scalar .head snapshot.head collected.head rfl
  have branch := head.append_scalar .branch snapshot.branch collected.branch rfl
  have index := branch.append_set snapshot.files.staged_canonical collected.files.staged_canonical
    .index rfl
  have tracked := index.append_set snapshot.files.trackedDirty_canonical
    collected.files.trackedDirty_canonical .trackedDirty rfl
  exact (tracked.append_set snapshot.files.untracked_canonical collected.files.untracked_canonical
    .untracked rfl).1

/-- Each divergence is the one of its component; the roots are compared as paths. -/
theorem mem_divergences {collected : Collected} {entry : StalePath} :
    entry ∈ snapshot.divergences collected ↔
      if entry.component = .worktreeRoot then
        entry.path = none ∧ collected.worktreeRoot.components ≠ snapshot.worktreeRoot.components ∧
          entry.change = .changed
      else
        classify (snapshot.collected.contribution entry.component entry.path)
          (collected.contribution entry.component entry.path) = some entry.change := by
  simp only [divergences, List.mem_append, mem_scalarDivergence,
    mem_setDivergence_iff snapshot.files.staged_canonical collected.files.staged_canonical,
    mem_setDivergence_iff snapshot.files.trackedDirty_canonical collected.files.trackedDirty_canonical,
    mem_setDivergence_iff snapshot.files.untracked_canonical collected.files.untracked_canonical]
  have injective : Function.Injective fun text : Text => utf8 text.val :=
    utf8_injective.comp Subtype.val_injective
  have identities : collected.repositoryIdentity ≠ snapshot.repositoryIdentity ↔
      utf8 snapshot.repositoryIdentity.val ≠ utf8 collected.repositoryIdentity.val :=
    (injective.ne_iff.trans ne_comm).symm
  obtain ⟨path, component, change⟩ := entry
  cases component <;> cases path <;>
    simp [Collected.contribution, WorkspaceSnapshot.collected, classify, identities, eq_comm]

/-- Freshness and identity agree, and the divergences named are the contributions that differ, however
the entries of the reading were collected. -/
structure Agrees (snapshot : WorkspaceSnapshot sha256) (collected : Collected) (id : String)
    (capturedAt : OffsetDateTime) : Prop where
  fresh_iff : snapshot.verifyAgainst ⟨.ok collected⟩ = .fresh ↔
    (assemble sha256 id snapshot.request collected capturedAt).digest = snapshot.digest
  exact_ : Exact snapshot.collected collected (snapshot.verifyAgainst ⟨.ok collected⟩).changed
  independent : ∀ staged trackedDirty untracked others othersDirty othersUntracked,
    collected.files = .new staged trackedDirty untracked →
    (∀ entry, entry ∈ staged ↔ entry ∈ others) →
    (∀ entry, entry ∈ trackedDirty ↔ entry ∈ othersDirty) →
    (∀ entry, entry ∈ untracked ↔ entry ∈ othersUntracked) →
      snapshot.verifyAgainst ⟨.ok { collected with files := .new others othersDirty othersUntracked }⟩ =
        snapshot.verifyAgainst ⟨.ok collected⟩

theorem changed_verifyAgainst (collected : Collected) :
    (snapshot.verifyAgainst ⟨.ok collected⟩).changed = snapshot.divergences collected := by
  rw [verifyAgainst]
  dsimp only
  split_ifs with none_
  · exact none_.symm
  · rfl

theorem verifyAgainst_eq_fresh (collected : Collected) :
    snapshot.verifyAgainst ⟨.ok collected⟩ = .fresh ↔ snapshot.divergences collected = [] := by
  rw [verifyAgainst]
  dsimp only
  split_ifs with none_
  · exact iff_of_true rfl none_
  · exact iff_of_false nofun none_

/-- Nothing diverges exactly when the reading found what was recorded, the roots equal as paths. -/
theorem divergences_eq_nil (collected : Collected) : snapshot.divergences collected = [] ↔
    snapshot.repositoryIdentity = collected.repositoryIdentity ∧
    snapshot.worktreeRoot.components = collected.worktreeRoot.components ∧
    snapshot.head = collected.head ∧ snapshot.branch = collected.branch ∧
    snapshot.files.staged = collected.files.staged ∧
    snapshot.files.trackedDirty = collected.files.trackedDirty ∧
    snapshot.files.untracked = collected.files.untracked := by
  have texts : Function.Injective fun text : Text => utf8 text.val :=
    utf8_injective.comp Subtype.val_injective
  have digests : Function.Injective fun digest : ContentDigest => utf8 digest.asDigestInput :=
    utf8_injective.comp asDigestInput_injective
  have silent : snapshot.divergences collected = [] ↔
      ∀ entry : StalePath, entry ∉ snapshot.divergences collected :=
    List.eq_nil_iff_forall_not_mem
  -- A component moved nowhere if no change of it is named.
  have still : ∀ {α : Type} [DecidableEq α] {before after : Option α},
      (∀ change, classify before after ≠ some change) ↔ before = after := by
    intro α _ before after
    rw [← classify_eq_none, Option.eq_none_iff_forall_ne_some]
  simp only [silent, mem_divergences]
  constructor
  · intro none_
    have at_ : ∀ component path, component ≠ .worktreeRoot →
        snapshot.collected.contribution component path = collected.contribution component path := by
      intro component path other
      refine still.mp fun change moved => none_ ⟨path, component, change⟩ ?_
      rwa [if_neg other]
    refine ⟨?_, ?_, ?_, ?_, ?_, ?_, ?_⟩
    · exact texts (Option.some.inj (at_ .repositoryIdentity none nofun))
    · by_contra moved
      exact none_ ⟨none, .worktreeRoot, .changed⟩ (by simp [Ne.symm moved])
    · exact Option.map_injective texts (at_ .head none nofun)
    · exact Option.map_injective texts (at_ .branch none nofun)
    · exact snapshot.files.staged_canonical.eq_of_held collected.files.staged_canonical
        fun path => Option.map_injective digests (at_ .index (some path) nofun)
    · exact snapshot.files.trackedDirty_canonical.eq_of_held collected.files.trackedDirty_canonical
        fun path => Option.map_injective digests (at_ .trackedDirty (some path) nofun)
    · exact snapshot.files.untracked_canonical.eq_of_held collected.files.untracked_canonical
        fun path => Option.map_injective digests (at_ .untracked (some path) nofun)
  · rintro ⟨identity, root, head, branch, staged, tracked, untracked⟩ ⟨path, component, change⟩
    split_ifs with here
    · rintro ⟨-, moved, -⟩
      exact moved root.symm
    · refine still.mpr ?_ change
      cases component <;> cases path <;>
        simp_all [Collected.contribution, WorkspaceSnapshot.collected]

/-- Freshness and identity agree for a reading exactly when its root, should it be the recorded path, is
spelled as it was recorded. -/
theorem agrees_iff (snapshot : WorkspaceSnapshot sha256) (collected : Collected) (id : String)
    (capturedAt : OffsetDateTime)
    (free : CollisionFree snapshot (assemble sha256 id snapshot.request collected capturedAt)) :
    snapshot.Agrees collected id capturedAt ↔
      (snapshot.worktreeRoot.components = collected.worktreeRoot.components →
        snapshot.worktreeRoot = collected.worktreeRoot) := by
  have digests := digest_eq_iff free rfl
  constructor
  · intro agrees paths
    have named := agrees.exact_.mem_iff ⟨none, .worktreeRoot, .changed⟩
    rw [changed_verifyAgainst, mem_divergences, if_pos rfl] at named
    by_contra respelled
    have moved : classify (snapshot.collected.contribution .worktreeRoot none)
        (collected.contribution .worktreeRoot none) = some .changed := by
      refine if_neg fun same => respelled ?_
      exact congrArg PathBuf.mk (asBytes_injective same)
    exact (named.mpr moved).2.1 paths.symm
  · intro spelled
    have root : snapshot.worktreeRoot.components = collected.worktreeRoot.components ↔
        snapshot.worktreeRoot = collected.worktreeRoot :=
      ⟨spelled, fun same => same ▸ rfl⟩
    refine ⟨?_, ⟨?_, fun entry => ?_⟩, ?_⟩
    · rw [verifyAgainst_eq_fresh, divergences_eq_nil, root, eq_comm (b := snapshot.digest), digests]
      rfl
    · rw [changed_verifyAgainst]
      exact ordered_divergences collected
    · rw [changed_verifyAgainst, mem_divergences]
      split_ifs with here
      · obtain ⟨path, _, change⟩ := entry
        obtain rfl := here
        cases path with
        | none =>
          have bytes : snapshot.worktreeRoot.bytes.asBytes = collected.worktreeRoot.bytes.asBytes ↔
              snapshot.worktreeRoot = collected.worktreeRoot :=
            ⟨fun same => congrArg PathBuf.mk (asBytes_injective same), fun same => same ▸ rfl⟩
          simp only [Collected.contribution, WorkspaceSnapshot.collected, classify, bytes, ← root]
          by_cases same : snapshot.worktreeRoot.components = collected.worktreeRoot.components
          · simp [same]
          · simp [same, Ne.symm same, eq_comm]
        | some path => simp [Collected.contribution, classify]
      · rfl
    · intro staged trackedDirty untracked others othersDirty othersUntracked files first second third
      have same : SnapshotFiles.new others othersDirty othersUntracked = collected.files := by
        rw [files]
        simp only [SnapshotFiles.new, canonicalizeEntries_congr first, canonicalizeEntries_congr second,
          canonicalizeEntries_congr third]
      rw [same]

/-- What `fs::canonicalize` gives for a path is spelled one way: without `.` and `..` and without a separator
that separates nothing. -/
def SpellsOneWay (canonicalize : PathBuf → Option PathBuf) : Prop :=
  ∀ asked other found spelled, canonicalize asked = some found → canonicalize other = some spelled →
    found.components = spelled.components → found = spelled

/-- Freshness and identity agree for a snapshot and a reading whose roots `fs::canonicalize` spelled, as it
spells the root of every capture and of every reading. -/
theorem freshness_agrees (snapshot : WorkspaceSnapshot sha256) (collected : Collected) (id : String)
    (capturedAt : OffsetDateTime)
    (free : CollisionFree snapshot (assemble sha256 id snapshot.request collected capturedAt))
    {canonicalize : PathBuf → Option PathBuf} (oneWay : SpellsOneWay canonicalize) {asked other : PathBuf}
    (captured : canonicalize asked = some snapshot.worktreeRoot)
    (read : canonicalize other = some collected.worktreeRoot) :
    snapshot.Agrees collected id capturedAt :=
  (agrees_iff snapshot collected id capturedAt free).mpr (oneWay asked other _ _ captured read)

end WorkspaceSnapshot

/-- The digest that is one digit throughout. -/
def repeated (digit : Char) (hexadecimal : digit ∈ "0123456789abcdef".toList)
    (byte : (utf8 (String.ofList (List.replicate 64 digit))).length = 64) : Sha256Hex :=
  ⟨String.ofList (List.replicate 64 digit), byte, by
    intro other member
    rw [String.toList_ofList] at member
    rw [List.eq_of_mem_replicate member]
    exact hexadecimal⟩

theorem length_replicate_utf8 {digit : Char} (byte : (String.utf8EncodeChar digit).length = 1) (count : ℕ) :
    (utf8 (String.ofList (List.replicate count digit))).length = count := by
  rw [utf8, String.toList_ofList]
  induction count with
  | zero => rfl
  | succ count ih =>
    rw [List.replicate_succ, Utf8.encode, List.flatMap_cons, List.length_append, byte, Nat.add_comm]
    exact congrArg (· + 1) ih

def zeros : Sha256Hex := repeated '0' (by decide) (length_replicate_utf8 rfl 64)

def ones : Sha256Hex := repeated '1' (by decide) (length_replicate_utf8 rfl 64)

/-- A hash that tells the inputs below apart by their lengths. -/
def sampleSha256 (bytes : List UInt8) : Sha256Hex := if bytes.length < 100 then zeros else ones

def sampleText : Text := ⟨"a", by decide⟩

/-- `/w`. -/
def sampleRoot : PathBuf := ⟨⟨[47, 119], by decide⟩⟩

/-- A clean workspace. -/
def sampleCollected : Collected := ⟨sampleText, sampleRoot, none, none, .new [] [] []⟩

def sampleRequest : CaptureRequest := ⟨sampleText, zeros, 0, 0⟩

/-- The workspace as recorded. -/
def sampleSnapshot : WorkspaceSnapshot sampleSha256 :=
  .assemble sampleSha256 "a" sampleRequest sampleCollected ⟨0, 0⟩

/-- Finds the one root there is, however it is spelled. -/
def sampleCanonicalize (path : PathBuf) : Option PathBuf :=
  if path.components = sampleRoot.components then some sampleRoot else none

theorem sampleCanonicalize_spellsOneWay : WorkspaceSnapshot.SpellsOneWay sampleCanonicalize := by
  have found : ∀ asked root, sampleCanonicalize asked = some root → root = sampleRoot := by
    intro asked root spelled
    unfold sampleCanonicalize at spelled
    split_ifs at spelled
    exact (Option.some.inj spelled).symm
  intro asked other first second here there _
  rw [found asked first here, found other second there]

/-- What the composite digest of a clean workspace absorbs, in bytes. -/
theorem length_sample : 100 ≤ (LengthFrame.frames 8 sampleSnapshot.components).length := by
  have digests : ∀ digest : Sha256Hex, (utf8 digest.val).length = 64 := fun digest => digest.2.1
  rw [LengthFrame.length_frames]
  simp only [WorkspaceSnapshot.components, sampleSnapshot, WorkspaceSnapshot.assemble, sampleCollected,
    sampleRequest, Option.map_none, optionalField, integer, List.cons_append, List.nil_append,
    List.map_cons, List.map_nil, List.sum_cons, List.sum_nil, LengthFrame.length_leBytes, digests]
  omega

theorem sample_collisionFree : sampleSnapshot.CollisionFree sampleSnapshot := by
  have domain : (utf8 "harkness.context.path_set.v1").length = 28 := by decide
  have empty : (LengthFrame.frames 8 (pathSet [])).length = 52 := by
    rw [LengthFrame.length_frames]
    simp [pathSet, integer, domain]
  have sets : sampleSha256 (LengthFrame.frames 8 (pathSet [])) = zeros := by
    rw [sampleSha256, if_pos (by omega)]
  have canonical : sampleSha256 (LengthFrame.frames 8 sampleSnapshot.components) = ones := by
    rw [sampleSha256, if_neg (not_lt.mpr length_sample)]
  have none_ : sampleSnapshot.sets = [[], [], []] := rfl
  have inside : ∀ {bytes}, bytes ∈ sampleSnapshot.hashed ++ sampleSnapshot.hashed →
      bytes = LengthFrame.frames 8 sampleSnapshot.components ∨
        bytes = LengthFrame.frames 8 (pathSet []) := by
    intro bytes member
    rw [List.mem_append, or_self, WorkspaceSnapshot.hashed, none_] at member
    simpa using member
  have apart : zeros ≠ ones := by decide
  intro first member second otherMember same
  rcases inside member with rfl | rfl <;> rcases inside otherMember with rfl | rfl
  · rfl
  · exact absurd (sets.symm.trans (same.symm.trans canonical)) apart
  · exact absurd (sets.symm.trans (same.trans canonical)) apart
  · rfl

theorem freshness_agrees_sample : sampleSnapshot.Agrees sampleCollected "a" ⟨0, 0⟩ :=
  WorkspaceSnapshot.freshness_agrees sampleSnapshot sampleCollected "a" ⟨0, 0⟩ sample_collisionFree
    sampleCanonicalize_spellsOneWay (if_pos rfl : sampleCanonicalize sampleRoot = _)
      (if_pos rfl : sampleCanonicalize sampleRoot = _)

end Harkness.Context.Snapshot
