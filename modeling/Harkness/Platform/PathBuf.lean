import Mathlib

/-! # Platform paths

On Unix a path is bytes, read as components: separators in a row count once, a single dot only at the
start of a relative path. Paths are equal when their components are.
-/

namespace Harkness.Platform

/-- What every literal byte rests on. -/
instance neZero_byte : NeZero 256 := ⟨by decide⟩

inductive Component where
  | rootDir
  | curDir
  | parentDir
  | normal (name : List (Fin 256))
deriving DecidableEq, Repr

/-- The component one part between separators stands for, if any. -/
def Component.ofPart : List (Fin 256) → Option Component
  | [] => none
  | [46] => none
  | [46, 46] => some .parentDir
  | name => some (.normal name)

/-- The components of a path. -/
def components (bytes : List (Fin 256)) : List Component :=
  let parts := bytes.splitOn 47
  match bytes.head? with
  | none => []
  | some first =>
    let leading :=
      if first = 47 then [Component.rootDir]
      else if parts.head? = some [46] then [Component.curDir]
      else []
    leading ++ parts.filterMap Component.ofPart

end Harkness.Platform
