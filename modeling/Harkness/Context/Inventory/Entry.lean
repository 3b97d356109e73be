import Harkness.Context.Path

/-! # Entries of an inventory

What a walk records of one path: its metadata and its class, never its content.
-/

namespace Harkness.Context

inductive FileClass where
  | source | testCode | configuration | documentation | instruction | buildManifest | generated
  | vendor | lockfile | binary | secretSensitive | oversized | unknownText | unsupportedEncoding
deriving DecidableEq, Repr

/-- Whether a file of this class may ever be shown to a model. -/
def FileClass.isRetrievable : FileClass → Bool
  | secretSensitive | binary | unsupportedEncoding => false
  | _ => true

/-- Whether a file of this class may have its content indexed. -/
def FileClass.isEligible (self : FileClass) : Bool := self.isRetrievable && self ≠ .oversized

/-- Why a walk did not descend into a directory. -/
inductive Boundary where
  | nestedRepository
  | submodule
deriving DecidableEq, Repr

structure InventoryEntry where
  path : RepoPath
  byteSize : ℕ
  mtimeNs : Option ℤ
  fileClass : FileClass
  symlink : Bool
  boundary : Option Boundary
  unreadable : Bool
deriving DecidableEq

/-- Whether the content of an entry may be indexed and retrieved. -/
def InventoryEntry.eligible (self : InventoryEntry) : Bool :=
  self.fileClass.isEligible && !self.symlink && self.boundary.isNone && !self.unreadable

end Harkness.Context
