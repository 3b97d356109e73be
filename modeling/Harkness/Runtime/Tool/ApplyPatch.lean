import Harkness.Git.UnifiedPatch
import Harkness.ToMathlib.Except
import Harkness.ToMathlib.Lines
import Harkness.ToMathlib.ListSplice

/-! # Applying the hunks of a patch

The base is split into lines and the hunks are walked in order: the lines up to a hunk's start are
copied, then its context and deletions are compared with the base while its context and additions
are written. An application that succeeds is a splice of the base at the starts of the hunks.
-/

namespace Harkness.Runtime.Tool

open Git List

/-- A patch that does not fit the files it names. -/
structure PatchConflict where
  path : DiffPath
  reason : String
deriving DecidableEq

/-- The lines of a file, each with the newline that ends it. -/
def splitLines (bytes : Bytes) : List Bytes := Lines.split newline bytes

/-- The bytes written so far, the place in the base and the old lines of the hunk read so far. -/
structure Applying where
  output : Bytes
  cursor : ℕ
  consumed : ℕ

/-- How many lines of the base the applier puts before the hunk. -/
def start (hunk : UnifiedPatchHunk) : ℕ := if hunk.oldStart = 0 then 0 else hunk.oldStart - 1

def applyLine (path : DiffPath) (source : List Bytes) (number : ℕ) (state : Applying)
    (line : UnifiedPatchLine) : Except PatchConflict Applying :=
  match line with
  | .addition bytes => .ok { state with output := state.output ++ bytes }
  | .context bytes | .deletion bytes =>
    match source[state.cursor]? with
    | none => .error ⟨path, "hunk " ++ toString number ++ " extends past end of file"⟩
    | some actual =>
      if actual ≠ bytes then
        .error ⟨path, "hunk " ++ toString number ++ " does not match line " ++
          toString (state.cursor + 1)⟩
      else .ok {
        output := if line matches .context _ then state.output ++ actual else state.output
        cursor := state.cursor + 1
        consumed := state.consumed + 1 }

def applyHunk (path : DiffPath) (source : List Bytes) (number : ℕ) (state : Applying)
    (hunk : UnifiedPatchHunk) : Except PatchConflict Applying :=
  if start hunk < state.cursor ∨ source.length < start hunk then
    .error ⟨path, "hunk " ++ toString number ++ " starts outside the remaining base"⟩
  else do
    let kept := ((source.drop state.cursor).take (start hunk - state.cursor)).flatten
    let applied ← hunk.lines.foldlM (applyLine path source number)
      ⟨state.output ++ kept, start hunk, 0⟩
    if applied.consumed ≠ hunk.oldLines then
      .error ⟨path, "hunk " ++ toString number ++ " header declares " ++ toString hunk.oldLines ++
        " old lines but contains " ++ toString applied.consumed⟩
    else return applied

def applyHunksFrom (path : DiffPath) (source : List Bytes) :
    ℕ → Applying → List UnifiedPatchHunk → Except PatchConflict Applying
  | _, state, [] => .ok state
  | number, state, hunk :: hunks => do
    applyHunksFrom path source (number + 1) (← applyHunk path source number state hunk) hunks

def applyHunks (path : DiffPath) (original : Bytes) (hunks : List UnifiedPatchHunk) :
    Except PatchConflict Bytes := do
  let source := splitLines original
  let state ← applyHunksFrom path source 1 ⟨[], 0, 0⟩ hunks
  return state.output ++ (source.drop state.cursor).flatten

/-- The line as the old side has it. -/
def oldLine : UnifiedPatchLine → Option Bytes
  | .context bytes | .deletion bytes => some bytes
  | .addition _ => none

/-- The line as the new side has it. -/
def newLine : UnifiedPatchLine → Option Bytes
  | .context bytes | .addition bytes => some bytes
  | .deletion _ => none

def oldSide (hunk : UnifiedPatchHunk) : List Bytes := hunk.lines.filterMap oldLine

def newSide (hunk : UnifiedPatchHunk) : List Bytes := hunk.lines.filterMap newLine

/-- The hunk put behind a number of lines of the base. -/
def spliceAt (position : UnifiedPatchHunk → ℕ) (hunk : UnifiedPatchHunk) : Splice Bytes where
  position := position hunk
  removed := hunk.oldLines
  inserted := newSide hunk

/-- The hunk counts its old lines and they are those of the base at the place. -/
structure MatchesAt (position : UnifiedPatchHunk → ℕ) (source : List Bytes)
    (hunk : UnifiedPatchHunk) : Prop where
  counted : (oldSide hunk).length = hunk.oldLines
  inside : position hunk ≤ source.length
  shown : oldSide hunk <+: source.drop (position hunk)

/-- The hunks match the base from a line on, each behind the one before. -/
structure Walks (position : UnifiedPatchHunk → ℕ) (source : List Bytes) (cursor : ℕ)
    (hunks : List UnifiedPatchHunk) : Prop where
  fits : ∀ hunk ∈ hunks, MatchesAt position source hunk
  begun : ∀ hunk ∈ hunks, cursor ≤ position hunk
  ordered : hunks.Pairwise fun first second =>
    position first + first.oldLines ≤ position second

theorem walks_nil {position : UnifiedPatchHunk → ℕ} {source : List Bytes} {cursor : ℕ} :
    Walks position source cursor [] :=
  ⟨nofun, nofun, .nil⟩

theorem walks_cons {position : UnifiedPatchHunk → ℕ} {source : List Bytes} {cursor : ℕ}
    {hunk : UnifiedPatchHunk} {hunks : List UnifiedPatchHunk} :
    Walks position source cursor (hunk :: hunks) ↔ cursor ≤ position hunk ∧
      MatchesAt position source hunk ∧
        Walks position source (position hunk + hunk.oldLines) hunks := by
  constructor
  · rintro ⟨fits, begun, ordered⟩
    rw [forall_mem_cons] at fits begun
    rw [pairwise_cons] at ordered
    exact ⟨begun.1, fits.1, fits.2, ordered.1, ordered.2⟩
  · rintro ⟨begun, fits, others⟩
    refine ⟨forall_mem_cons.mpr ⟨fits, others.fits⟩, forall_mem_cons.mpr ⟨begun, ?_⟩,
      pairwise_cons.mpr ⟨others.begun, others.ordered⟩⟩
    exact fun other member => le_trans (le_trans begun (Nat.le_add_right _ _))
      (others.begun other member)

private theorem singleton_prefix_drop {source : List Bytes} {cursor : ℕ} {bytes : Bytes} :
    [bytes] <+: source.drop cursor ↔ source[cursor]? = some bytes := by
  rw [← head?_drop]
  cases source.drop cursor with
  | nil => simp only [prefix_nil, cons_ne_nil, head?_nil, reduceCtorEq]
  | cons first rest =>
    simp only [cons_prefix_cons, nil_prefix, and_true, head?_cons, Option.some.injEq, eq_comm]

private theorem applyLine_eq_ok {path : DiffPath} {source : List Bytes} {number : ℕ}
    {state next : Applying} {line : UnifiedPatchLine} :
    applyLine path source number state line = .ok next ↔
      (oldLine line).toList <+: source.drop state.cursor ∧
        next = ⟨state.output ++ (newLine line).toList.flatten,
          state.cursor + (oldLine line).toList.length,
          state.consumed + (oldLine line).toList.length⟩ := by
  cases line with
  | addition bytes =>
    simp only [applyLine, oldLine, newLine, Option.toList_none, Option.toList_some, nil_prefix,
      true_and, flatten_singleton, length_nil, Nat.add_zero, Except.ok.injEq, eq_comm]
  | context bytes =>
    simp only [applyLine, oldLine, newLine, Option.toList_some, singleton_prefix_drop,
      flatten_singleton, length_singleton]
    cases source[state.cursor]? with
    | none => simp only [reduceCtorEq, false_and]
    | some actual =>
      simp only [Except.ite_error_eq_ok, not_not, Option.some.injEq, Except.ok.injEq, if_true]
      constructor
      · rintro ⟨rfl, rfl⟩
        exact ⟨rfl, rfl⟩
      · rintro ⟨rfl, rfl⟩
        exact ⟨rfl, rfl⟩
  | deletion bytes =>
    simp only [applyLine, oldLine, newLine, Option.toList_some, Option.toList_none,
      singleton_prefix_drop, flatten_nil, append_nil, length_singleton]
    cases source[state.cursor]? with
    | none => simp only [reduceCtorEq, false_and]
    | some actual =>
      simp only [Except.ite_error_eq_ok, not_not, Option.some.injEq, Except.ok.injEq]
      constructor
      · rintro ⟨rfl, rfl⟩
        exact ⟨rfl, rfl⟩
      · rintro ⟨rfl, rfl⟩
        exact ⟨rfl, rfl⟩

private theorem append_prefix_drop {source first second : List Bytes} {cursor : ℕ} :
    first ++ second <+: source.drop cursor ↔
      first <+: source.drop cursor ∧ second <+: source.drop (cursor + first.length) := by
  constructor
  · rintro ⟨rest, whole⟩
    refine ⟨⟨second ++ rest, by rw [← append_assoc, whole]⟩, rest, ?_⟩
    rw [← drop_drop, ← whole, append_assoc, drop_left]
  · rintro ⟨⟨after, whole⟩, rest, others⟩
    rw [← drop_drop, ← whole, drop_left] at others
    exact ⟨rest, by rw [← whole, ← others, append_assoc]⟩

private theorem foldlM_applyLine_eq_ok {path : DiffPath} {source : List Bytes} {number : ℕ}
    {state next : Applying} {lines : List UnifiedPatchLine} :
    lines.foldlM (applyLine path source number) state = .ok next ↔
      lines.filterMap oldLine <+: source.drop state.cursor ∧
        next = ⟨state.output ++ (lines.filterMap newLine).flatten,
          state.cursor + (lines.filterMap oldLine).length,
          state.consumed + (lines.filterMap oldLine).length⟩ := by
  induction lines generalizing state with
  | nil =>
    simp only [foldlM_nil, filterMap_nil, nil_prefix, flatten_nil, append_nil, length_nil,
      Nat.add_zero, true_and]
    constructor
    · exact fun same => (Except.ok.inj same).symm
    · exact fun same => congrArg Except.ok same.symm
  | cons line lines ih =>
    have old : (line :: lines).filterMap oldLine =
        (oldLine line).toList ++ lines.filterMap oldLine := by
      rw [filterMap_cons]
      cases oldLine line <;> rfl
    have new : (line :: lines).filterMap newLine =
        (newLine line).toList ++ lines.filterMap newLine := by
      rw [filterMap_cons]
      cases newLine line <;> rfl
    rw [foldlM_cons, old, new, append_prefix_drop]
    simp only [Except.bind_eq_ok, applyLine_eq_ok, ih]
    constructor
    · rintro ⟨_, ⟨here, rfl⟩, there, rfl⟩
      refine ⟨⟨here, there⟩, ?_⟩
      simp only [flatten_append, append_assoc, length_append, Nat.add_assoc]
    · rintro ⟨⟨here, there⟩, rfl⟩
      refine ⟨_, ⟨here, rfl⟩, there, ?_⟩
      simp only [flatten_append, append_assoc, length_append, Nat.add_assoc]

private theorem applyHunk_eq_ok {path : DiffPath} {source : List Bytes} {number : ℕ}
    {state next : Applying} {hunk : UnifiedPatchHunk} :
    applyHunk path source number state hunk = .ok next ↔
      state.cursor ≤ start hunk ∧ MatchesAt start source hunk ∧
        next = ⟨state.output ++
          ((source.drop state.cursor).take (start hunk - state.cursor)).flatten ++
            (newSide hunk).flatten, start hunk + hunk.oldLines, hunk.oldLines⟩ := by
  simp only [applyHunk, Except.ite_error_eq_ok, Except.bind_eq_ok, foldlM_applyLine_eq_ok, not_or,
    not_lt, not_not]
  constructor
  · rintro ⟨⟨begun, inside⟩, _, ⟨shown, rfl⟩, counted, same⟩
    obtain rfl := Except.ok.inj same
    have count : (oldSide hunk).length = hunk.oldLines := by
      rw [← counted]
      exact (Nat.zero_add _).symm
    refine ⟨begun, ⟨count, inside, shown⟩, ?_⟩
    rw [← count, newSide, oldSide, Nat.zero_add]
  · rintro ⟨begun, ⟨counted, inside, shown⟩, rfl⟩
    refine ⟨⟨begun, inside⟩, _, ⟨shown, rfl⟩, (Nat.zero_add _).trans counted, ?_⟩
    rw [← counted, newSide, oldSide, Nat.zero_add]
    rfl

private theorem walks_of_applyHunksFrom {path : DiffPath} {source : List Bytes} {number : ℕ}
    {state next : Applying} {hunks : List UnifiedPatchHunk}
    (applied : applyHunksFrom path source number state hunks = .ok next) :
    Walks start source state.cursor hunks ∧
      next.output ++ (source.drop next.cursor).flatten = state.output ++
        (Splice.applyFrom source state.cursor (hunks.map (spliceAt start))).flatten := by
  induction hunks generalizing state number with
  | nil =>
    obtain rfl := Except.ok.inj applied
    exact ⟨walks_nil, rfl⟩
  | cons hunk hunks ih =>
    obtain ⟨_, here, rest⟩ := Except.bind_eq_ok.mp applied
    obtain ⟨begun, fits, rfl⟩ := applyHunk_eq_ok.1 here
    obtain ⟨walks, whole⟩ := ih rest
    refine ⟨walks_cons.mpr ⟨begun, fits, walks⟩, ?_⟩
    rw [whole, map_cons, Splice.applyFrom]
    simp only [spliceAt, Splice.stop, flatten_append, append_assoc]

private theorem applyHunksFrom_of_walks {source : List Bytes} {hunks : List UnifiedPatchHunk}
    (path : DiffPath) (number : ℕ) (state : Applying)
    (walks : Walks start source state.cursor hunks) :
    ∃ next, applyHunksFrom path source number state hunks = .ok next := by
  induction hunks generalizing state number with
  | nil => exact ⟨state, rfl⟩
  | cons hunk hunks ih =>
    obtain ⟨begun, fits, walks⟩ := walks_cons.mp walks
    obtain ⟨next, rest⟩ := ih (number + 1) ⟨state.output ++
      ((source.drop state.cursor).take (start hunk - state.cursor)).flatten ++
        (newSide hunk).flatten, start hunk + hunk.oldLines, hunk.oldLines⟩ walks
    exact ⟨next, Except.bind_eq_ok.mpr ⟨_, applyHunk_eq_ok.2 ⟨begun, fits, rfl⟩, rest⟩⟩

/-- An application succeeds exactly when the hunks match the base in order at their starts, and what
it gives is the base with them spliced in there. -/
theorem applyHunks_eq_ok {path : DiffPath} {original output : Bytes}
    {hunks : List UnifiedPatchHunk} :
    applyHunks path original hunks = .ok output ↔
      Walks start (splitLines original) 0 hunks ∧
        output = (Splice.apply (splitLines original) (hunks.map (spliceAt start))).flatten := by
  simp only [applyHunks, Except.bind_eq_ok]
  constructor
  · rintro ⟨state, applied, same⟩
    obtain ⟨walks, whole⟩ := walks_of_applyHunksFrom applied
    exact ⟨walks, (Except.ok.inj same).symm.trans whole⟩
  · rintro ⟨walks, rfl⟩
    obtain ⟨state, applied⟩ := applyHunksFrom_of_walks path 1 ⟨[], 0, 0⟩ walks
    exact ⟨state, applied, congrArg Except.ok (walks_of_applyHunksFrom applied).2⟩

end Harkness.Runtime.Tool
