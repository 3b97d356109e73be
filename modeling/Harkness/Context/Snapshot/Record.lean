import Harkness.Context.Path
import Harkness.Platform.PathBuf
import Harkness.ToMathlib.LengthFrame
import Harkness.ToMathlib.Sort
import Harkness.ToMathlib.Utf8
import Mathlib.Data.Prod.Lex
import Mathlib.Data.String.Basic

/-! # Workspace identity

A snapshot records what one read of a worktree found: the repository, the root, the checked-out commit
and branch, and three sets of paths with what each held. Its digest absorbs every component framed by
its length. A vector holds less than `2 ^ 63` bytes, which is why the frames can be told apart.
-/

namespace Harkness.Context.Snapshot

/-- The bytes of a string. -/
def utf8 (text : String) : List UInt8 := Utf8.encode text.toList

/-- A string as memory holds it. -/
abbrev Text := { text : String // (utf8 text).length < 2 ^ 63 }

/-- A byte vector as memory holds it. -/
abbrev Vector_ := { bytes : List (Fin 256) // bytes.length < 2 ^ 63 }

def Vector_.asBytes (vector : Vector_) : List UInt8 := vector.val.map UInt8.ofFin

/-- A SHA-256 digest in its canonical lowercase hexadecimal spelling. -/
abbrev Sha256Hex := { text : String //
  (utf8 text).length = 64 ∧ ∀ digit ∈ text.toList, digit ∈ "0123456789abcdef".toList }

/-- Absorbs an optional component, distinguishing absent from empty. -/
def optionalField : Option (List UInt8) → List (List UInt8)
  | some bytes => [utf8 "some", bytes]
  | none => [utf8 "none"]

/-- A counter or generation as eight little-endian bytes. -/
def integer (value : ℕ) : List UInt8 := LengthFrame.leBytes 8 value

/-- The digest of the domain and the components absorbed after it. -/
def digestOf (sha256 : List UInt8 → Sha256Hex) (components : List (List UInt8)) : Sha256Hex :=
  sha256 (LengthFrame.frames 8 components)

inductive ContentDigest where
  | content (digest : Sha256Hex)
  | symlinkTarget (digest : Sha256Hex)
  | stagedBlob (id : Text)
  | absent
  | unreadable
deriving DecidableEq

namespace ContentDigest

/-- The canonical spelling, which is both stored and hashed. -/
@[simp] def asDigestInput : ContentDigest → String
  | content digest => "content:" ++ digest.val
  | symlinkTarget digest => "symlink:" ++ digest.val
  | stagedBlob id => "staged_blob:" ++ id.val
  | absent => "absent"
  | unreadable => "unreadable"

/-- The place of a digest in the declared order of its variants. -/
def rank : ContentDigest → ℕ ×ₗ String
  | content digest => toLex (0, digest.val)
  | symlinkTarget digest => toLex (1, digest.val)
  | stagedBlob id => toLex (2, id.val)
  | absent => toLex (3, "")
  | unreadable => toLex (4, "")

def absentLast (digest : ContentDigest) : ℕ := if digest = absent then 1 else 0

theorem rank_injective : Function.Injective rank := by
  rintro (_ | _ | _ | _ | _) (_ | _ | _ | _ | _) same <;>
    simp_all [rank, Subtype.ext_iff]

end ContentDigest

/-- One path and what it contributed to a workspace identity. -/
structure FileDigestEntry where
  path : Vector_
  digest : ContentDigest
deriving DecidableEq

namespace FileDigestEntry

/-- Entries are ordered by path, then real readings before the absent marker, then by digest. -/
def order (entry : FileDigestEntry) : Vector_ ×ₗ ℕ ×ₗ ℕ ×ₗ String :=
  toLex (entry.path, toLex (entry.digest.absentLast, entry.digest.rank))

def le (left right : FileDigestEntry) : Prop := left.order ≤ right.order

instance : DecidableRel le := fun left right => inferInstanceAs (Decidable (left.order ≤ right.order))

theorem order_injective : Function.Injective order := by
  rintro ⟨path, digest⟩ ⟨otherPath, otherDigest⟩ same
  obtain ⟨paths, rest⟩ := Prod.mk.inj (toLex.injective same)
  obtain ⟨-, ranks⟩ := Prod.mk.inj (toLex.injective rest)
  exact congrArg₂ FileDigestEntry.mk paths (ContentDigest.rank_injective ranks)

instance : Std.Antisymm le := ⟨fun _ _ first second => order_injective (le_antisymm first second)⟩

instance : Std.Refl le := ⟨fun entry => le_refl entry.order⟩

instance : IsTrans FileDigestEntry le := ⟨fun _ _ _ first second => le_trans first second⟩

instance : Std.Total le := ⟨fun left right => le_total left.order right.order⟩

theorem path_le_of_le (left right : FileDigestEntry) (ordered : le left right) :
    left.path ≤ right.path := by
  rcases Prod.Lex.le_iff.mp ordered with less | ⟨same, -⟩
  · exact le_of_lt less
  · exact le_of_eq same

end FileDigestEntry

/-- Sorts by path and keeps one entry per path, preferring a real reading over the absent marker. -/
def canonicalizeEntries (entries : List FileDigestEntry) : List FileDigestEntry :=
  (entries.insertionSort FileDigestEntry.le).firsts FileDigestEntry.path

/-- Every path at most once, in order. -/
def Canonical (entries : List FileDigestEntry) : Prop :=
  entries.Pairwise fun left right => left.path < right.path

theorem canonical_canonicalizeEntries (entries : List FileDigestEntry) :
    Canonical (canonicalizeEntries entries) :=
  List.pairwise_firsts FileDigestEntry.path_le_of_le (List.pairwise_insertionSort _ entries)

/-- What is kept of a path is the least of what was collected for it. -/
theorem mem_canonicalizeEntries {entries : List FileDigestEntry} {entry : FileDigestEntry} :
    entry ∈ canonicalizeEntries entries ↔
      entry ∈ entries ∧ ∀ other ∈ entries, other.path = entry.path → entry.le other := by
  rw [canonicalizeEntries, List.mem_firsts FileDigestEntry.path_le_of_le
    (List.pairwise_insertionSort _ entries)]
  simp only [List.mem_insertionSort]

/-- The canonical form depends on which entries were collected, not on their order or repetition. -/
theorem canonicalizeEntries_congr {entries others : List FileDigestEntry}
    (same : ∀ entry, entry ∈ entries ↔ entry ∈ others) :
    canonicalizeEntries entries = canonicalizeEntries others := by
  apply List.Pairwise.eq_of_mem_iff (r := fun left right : FileDigestEntry => left.path < right.path)
  · exact canonical_canonicalizeEntries entries
  · exact canonical_canonicalizeEntries others
  · intro entry
    simp only [mem_canonicalizeEntries, same]

/-- A canonical list is its own canonical form. -/
theorem Canonical.canonicalizeEntries_eq {entries : List FileDigestEntry}
    (canonical : Canonical entries) : canonicalizeEntries entries = entries := by
  apply List.Pairwise.eq_of_mem_iff (r := fun left right : FileDigestEntry => left.path < right.path)
  · exact canonical_canonicalizeEntries entries
  · exact canonical
  · intro entry
    rw [mem_canonicalizeEntries]
    refine and_iff_left_of_imp fun member other otherMember same => ?_
    have paths : (entries.map FileDigestEntry.path).Nodup :=
      (List.pairwise_map.mpr canonical).imp ne_of_lt
    rw [List.inj_on_of_nodup_map paths otherMember member same]
    exact refl_of FileDigestEntry.le entry

/-- Entries are sorted by path and hold one entry per path. -/
structure SnapshotFiles where
  staged : List FileDigestEntry
  trackedDirty : List FileDigestEntry
  untracked : List FileDigestEntry
  staged_canonical : Canonical staged
  trackedDirty_canonical : Canonical trackedDirty
  untracked_canonical : Canonical untracked

/-- Normalizes three collected path sets into the canonical form. -/
def SnapshotFiles.new (staged trackedDirty untracked : List FileDigestEntry) : SnapshotFiles where
  staged := canonicalizeEntries staged
  trackedDirty := canonicalizeEntries trackedDirty
  untracked := canonicalizeEntries untracked
  staged_canonical := canonical_canonicalizeEntries staged
  trackedDirty_canonical := canonical_canonicalizeEntries trackedDirty
  untracked_canonical := canonical_canonicalizeEntries untracked

/-- What the digest of a path set absorbs. -/
def pathSet (entries : List FileDigestEntry) : List (List UInt8) :=
  utf8 "harkness.context.path_set.v1" :: integer entries.length ::
    entries.flatMap fun entry => [entry.path.asBytes, utf8 entry.digest.asDigestInput]

/-- Rolls one path set up into a digest. -/
def pathSetDigest (sha256 : List UInt8 → Sha256Hex) (entries : List FileDigestEntry) : Sha256Hex :=
  digestOf sha256 (pathSet entries)

/-- A platform path, compared by its components. -/
structure PathBuf where
  bytes : Vector_
deriving DecidableEq

def PathBuf.components (path : PathBuf) : List Platform.Component := Platform.components path.bytes.val

/-- Nanoseconds since the epoch and the offset they were written with, in seconds. -/
structure OffsetDateTime where
  nanoseconds : ℤ
  offset : ℤ
deriving DecidableEq

/-- Everything a snapshot needs that the workspace itself cannot supply. -/
structure CaptureRequest where
  projectId : Text
  instructionsDigest : Sha256Hex
  configGeneration : UInt64
  indexGeneration : UInt64

/-- The workspace facts one read of the worktree produces. -/
structure Collected where
  repositoryIdentity : Text
  worktreeRoot : PathBuf
  head : Option Text
  branch : Option Text
  files : SnapshotFiles

/-- One capture of the exact state of one worktree, whose digests are those of its entries. -/
structure WorkspaceSnapshot (sha256 : List UInt8 → Sha256Hex) where
  id : String
  projectId : Text
  repositoryIdentity : Text
  worktreeRoot : PathBuf
  head : Option Text
  branch : Option Text
  files : SnapshotFiles
  indexDigest : Sha256Hex
  trackedDirtyDigest : Sha256Hex
  untrackedDigest : Sha256Hex
  instructionsDigest : Sha256Hex
  configGeneration : UInt64
  indexGeneration : UInt64
  capturedAt : OffsetDateTime
  indexDigest_eq : indexDigest = pathSetDigest sha256 files.staged
  trackedDirtyDigest_eq : trackedDirtyDigest = pathSetDigest sha256 files.trackedDirty
  untrackedDigest_eq : untrackedDigest = pathSetDigest sha256 files.untracked

namespace WorkspaceSnapshot

variable {sha256 : List UInt8 → Sha256Hex}

/-- Assembles a snapshot from components that have already been read. -/
def assemble (sha256 : List UInt8 → Sha256Hex) (id : String) (request : CaptureRequest)
    (collected : Collected) (capturedAt : OffsetDateTime) : WorkspaceSnapshot sha256 where
  id := id
  projectId := request.projectId
  repositoryIdentity := collected.repositoryIdentity
  worktreeRoot := collected.worktreeRoot
  head := collected.head
  branch := collected.branch
  files := collected.files
  indexDigest := pathSetDigest sha256 collected.files.staged
  trackedDirtyDigest := pathSetDigest sha256 collected.files.trackedDirty
  untrackedDigest := pathSetDigest sha256 collected.files.untracked
  instructionsDigest := request.instructionsDigest
  configGeneration := request.configGeneration
  indexGeneration := request.indexGeneration
  capturedAt := capturedAt
  indexDigest_eq := rfl
  trackedDirtyDigest_eq := rfl
  untrackedDigest_eq := rfl

/-- What the composite digest absorbs: every field except the id and the time of the capture. -/
def components (snapshot : WorkspaceSnapshot sha256) : List (List UInt8) :=
  [utf8 "harkness.context.workspace_snapshot.v1", utf8 snapshot.projectId.val,
    utf8 snapshot.repositoryIdentity.val, snapshot.worktreeRoot.bytes.asBytes] ++
  optionalField (snapshot.head.map fun head => utf8 head.val) ++
  optionalField (snapshot.branch.map fun branch => utf8 branch.val) ++
  [utf8 snapshot.indexDigest.val, utf8 snapshot.trackedDirtyDigest.val,
    utf8 snapshot.untrackedDigest.val, utf8 snapshot.instructionsDigest.val,
    integer snapshot.configGeneration.toNat, integer snapshot.indexGeneration.toNat]

/-- The composite identity. -/
def digest (snapshot : WorkspaceSnapshot sha256) : Sha256Hex := digestOf sha256 snapshot.components

end WorkspaceSnapshot

inductive ContextDomainError where
  | schemaVersionTooOld (record : String) (found minimum : ℕ)
  | schemaVersionTooNew (record : String) (found maximum : ℕ)
  | invalidSnapshotWire (reason : String)
  | digestMismatch (component expected found : String)
deriving DecidableEq

def contextRecordSchemaVersion : ℕ := 1

def minimumContextRecordSchemaVersion : ℕ := 1

/-- Refuses a record this build cannot read. -/
def validateRecordSchemaVersion (record : String) (found : ℕ) : Except ContextDomainError Unit :=
  if found < minimumContextRecordSchemaVersion then
    .error (.schemaVersionTooOld record found minimumContextRecordSchemaVersion)
  else if found > contextRecordSchemaVersion then
    .error (.schemaVersionTooNew record found contextRecordSchemaVersion)
  else
    .ok ()

structure SnapshotWire where
  schemaVersion : ℕ
  id : String
  projectId : Text
  repositoryIdentity : Text
  worktreeRoot : PathBuf
  head : Option Text
  branch : Option Text
  staged : List FileDigestEntry
  trackedDirty : List FileDigestEntry
  untracked : List FileDigestEntry
  indexDigest : Sha256Hex
  trackedDirtyDigest : Sha256Hex
  untrackedDigest : Sha256Hex
  instructionsDigest : Sha256Hex
  configGeneration : UInt64
  indexGeneration : UInt64
  capturedAt : OffsetDateTime
  digest : Sha256Hex

def invalid (condition : Bool) (reason : String) : Except ContextDomainError Unit :=
  if condition then .error (.invalidSnapshotWire reason) else .ok ()

/-- Refuses an entry list that is not sorted by path and free of duplicates. -/
def checkCanonicalOrder (component : String) : List FileDigestEntry → Except ContextDomainError Unit
  | first :: second :: rest =>
    let display (entry : FileDigestEntry) := String.ofList (Utf8.decodeLossy entry.path.asBytes)
    if first.path < second.path then checkCanonicalOrder component (second :: rest)
    else if first.path = second.path then
      .error (.invalidSnapshotWire (component ++ " names '" ++ display first ++ "' more than once"))
    else
      .error (.invalidSnapshotWire (component ++ " is not sorted by path: '" ++ display first ++
        "' precedes '" ++ display second ++ "'"))
  | _ => .ok ()

/-- Refuses one digest that disagrees with what is beneath it. -/
def checkDigest (component : String) (expected found : Sha256Hex) : Except ContextDomainError Unit :=
  if expected = found then .ok () else .error (.digestMismatch component expected.val found.val)

/-- Reads a stored snapshot; its digests are derived again rather than trusted. -/
def SnapshotWire.tryFrom (sha256 : List UInt8 → Sha256Hex) (wire : SnapshotWire) :
    Except ContextDomainError (WorkspaceSnapshot sha256) := do
  validateRecordSchemaVersion "workspace_snapshot" wire.schemaVersion
  invalid (wire.capturedAt.offset ≠ 0) "captured_at must use the UTC offset"
  invalid (wire.repositoryIdentity.val = "") "repository_identity is empty"
  invalid (wire.worktreeRoot.bytes.val = []) "worktree_root is empty"
  invalid (wire.head.any (·.val = "")) "head is present and empty"
  invalid (wire.branch.any (·.val = "")) "branch is present and empty"
  checkCanonicalOrder "staged" wire.staged
  checkCanonicalOrder "tracked_dirty" wire.trackedDirty
  checkCanonicalOrder "untracked" wire.untracked
  let request : CaptureRequest :=
    ⟨wire.projectId, wire.instructionsDigest, wire.configGeneration, wire.indexGeneration⟩
  let snapshot := WorkspaceSnapshot.assemble sha256 wire.id request
    ⟨wire.repositoryIdentity, wire.worktreeRoot, wire.head, wire.branch,
      .new wire.staged wire.trackedDirty wire.untracked⟩ wire.capturedAt
  checkDigest "index" snapshot.indexDigest wire.indexDigest
  checkDigest "tracked_dirty" snapshot.trackedDirtyDigest wire.trackedDirtyDigest
  checkDigest "untracked" snapshot.untrackedDigest wire.untrackedDigest
  checkDigest "workspace_snapshot" wire.digest snapshot.digest
  .ok snapshot

/-- The stored form of a snapshot. -/
def WorkspaceSnapshot.toWire {sha256 : List UInt8 → Sha256Hex} (snapshot : WorkspaceSnapshot sha256) :
    SnapshotWire where
  schemaVersion := contextRecordSchemaVersion
  id := snapshot.id
  projectId := snapshot.projectId
  repositoryIdentity := snapshot.repositoryIdentity
  worktreeRoot := snapshot.worktreeRoot
  head := snapshot.head
  branch := snapshot.branch
  staged := snapshot.files.staged
  trackedDirty := snapshot.files.trackedDirty
  untracked := snapshot.files.untracked
  indexDigest := snapshot.indexDigest
  trackedDirtyDigest := snapshot.trackedDirtyDigest
  untrackedDigest := snapshot.untrackedDigest
  instructionsDigest := snapshot.instructionsDigest
  configGeneration := snapshot.configGeneration
  indexGeneration := snapshot.indexGeneration
  capturedAt := snapshot.capturedAt
  digest := snapshot.digest

theorem checkCanonicalOrder_eq_ok {component : String} {entries : List FileDigestEntry}
    (canonical : Canonical entries) : checkCanonicalOrder component entries = .ok () := by
  fun_induction checkCanonicalOrder component entries with
  | case1 first second rest less ih => exact ih canonical.of_cons
  | case2 first second rest display less same =>
    exact absurd (List.rel_of_pairwise_cons canonical List.mem_cons_self) less
  | case3 first second rest display less other =>
    exact absurd (List.rel_of_pairwise_cons canonical List.mem_cons_self) less
  | case4 => rfl

/-- What is stored reads back, the fields of a capture being there. -/
theorem WorkspaceSnapshot.tryFrom_toWire {sha256 : List UInt8 → Sha256Hex}
    (snapshot : WorkspaceSnapshot sha256) (utc : snapshot.capturedAt.offset = 0)
    (identity : snapshot.repositoryIdentity.val ≠ "") (root : snapshot.worktreeRoot.bytes.val ≠ [])
    (head : ∀ head ∈ snapshot.head, head.val ≠ "") (branch : ∀ branch ∈ snapshot.branch, branch.val ≠ "") :
    snapshot.toWire.tryFrom sha256 = .ok snapshot := by
  obtain ⟨id, projectId, repositoryIdentity, worktreeRoot, head_, branch_, files, _, _, _, instructions,
    config, index, capturedAt, rfl, rfl, rfl⟩ := snapshot
  have same : SnapshotFiles.new files.staged files.trackedDirty files.untracked = files := by
    simp only [SnapshotFiles.new, files.staged_canonical.canonicalizeEntries_eq,
      files.trackedDirty_canonical.canonicalizeEntries_eq,
      files.untracked_canonical.canonicalizeEntries_eq]
  have named : ∀ {field : Option Text}, (∀ text ∈ field, text.val ≠ "") →
      field.any (·.val = "") = false := by
    rintro (_ | text) filled
    · rfl
    · simpa using filled text rfl
  replace utc : capturedAt.offset = 0 := utc
  simp [SnapshotWire.tryFrom, toWire, same, validateRecordSchemaVersion, contextRecordSchemaVersion,
    minimumContextRecordSchemaVersion, invalid, utc, identity, root, named head, named branch,
    checkCanonicalOrder_eq_ok files.staged_canonical,
    checkCanonicalOrder_eq_ok files.trackedDirty_canonical,
    checkCanonicalOrder_eq_ok files.untracked_canonical, checkDigest, assemble, digest, components, bind,
    Except.bind]

end Harkness.Context.Snapshot
