import Harkness.Context.Reconcile.Overlap
import Mathlib.Data.List.Lex

/-! # The merge of a walk with the rows of the index

Both sides are sorted by the bytes of their paths. One forward pass over each examines every path that
the walk saw, with the row of that path if there is one, and removes the rows that the walk has no path
for; a row that is ahead of the entry at hand is put back. A walk that was cut short removes nothing.
-/

namespace Harkness.Context.Reconcile

open Index

/-- What a merge asks for, in turn. Each of them may be refused, which ends the merge. -/
inductive Step where
  /-- Whether the pass was cancelled. -/
  | poll
  /-- The next row of the cursor. -/
  | next
  | remove (path : RepoPath)
  | examine (entry : InventoryEntry) (existing : Option IndexedFile) (outcome : Outcome)

/-- What a pass brings to its merge. -/
structure Pass where
  components : Components
  /-- Whether metadata is not to be believed for a path. -/
  hinted : RepoPath → Bool
  /-- What the file system answers when a path is read. -/
  attempts : RepoPath → List Attempt

/-- Removes the rows before a path; what is left begins with the row that was put back. -/
def skipRows (sweep : Bool) (path : RepoPath) : List IndexedFile → List Step × List IndexedFile
  | [] => ([], [])
  | row :: rows =>
    if path ≤ row.path then ([], row :: rows)
    else
      let (steps, left) := skipRows sweep path rows
      ((if sweep then [.remove row.path] else []) ++ .next :: steps, left)

/-- Takes the row of a path when it is the one at hand. -/
def takeRow (path : RepoPath) : List IndexedFile → Option IndexedFile × List Step × List IndexedFile
  | [] => (none, [], [])
  | row :: rows => if row.path = path then (some row, [.next], rows) else (none, [], row :: rows)

/-- The rows behind the last entry. -/
def trailingRows (sweep : Bool) : List IndexedFile → List Step
  | [] => []
  | row :: rows => .poll :: (if sweep then [.remove row.path] else []) ++ .next :: trailingRows sweep rows

def mergeEntries (pass : Pass) (sweep : Bool) : List InventoryEntry → List IndexedFile → List Step
  | [], rows => trailingRows sweep rows
  | entry :: entries, rows =>
    let (skipped, rows) := skipRows sweep entry.path rows
    let (existing, taken, rows) := takeRow entry.path rows
    let outcome :=
      apply pass.components entry existing (pass.hinted entry.path) (pass.attempts entry.path)
    .poll :: skipped ++ taken ++ .examine entry existing outcome :: mergeEntries pass sweep entries rows

/-- Walks the entries and the rows together, in path order. -/
def merge (pass : Pass) (truncated : Bool) (entries : List InventoryEntry) (rows : List IndexedFile) :
    List Step :=
  .next :: mergeEntries pass (!truncated) entries rows

/-- What is done of some steps, up to the first one that is refused, and with what. -/
def carryOut {ε : Type*} (refused : ℕ → Option ε) : ℕ → List Step → List Step × Option ε
  | _, [] => ([], none)
  | count, step :: steps =>
    match refused count with
    | some fault => ([], some fault)
    | none =>
      let (done, ended) := carryOut refused (count + 1) steps
      (step :: done, ended)

namespace Step

def examined : Step → Option (InventoryEntry × Option IndexedFile)
  | examine entry existing _ => some (entry, existing)
  | poll | next | remove _ => none

def removed : Step → Option RepoPath
  | remove path => some path
  | poll | next | examine .. => none

def recorded : Step → Option PendingFile
  | examine _ _ outcome => outcome.file
  | poll | next | remove _ => none

end Step

/-- Whether paths ascend strictly. -/
def Ascending (paths : List RepoPath) : Prop := paths.Pairwise (· < ·)

/-- Steps that examine every entry once, with its row, and that remove a row exactly when no entry has
its path and the walk saw everything. -/
structure Exact (truncated : Bool) (entries : List InventoryEntry) (rows : List IndexedFile)
    (steps : List Step) : Prop where
  examined : steps.filterMap Step.examined =
    entries.map fun entry => (entry, rows.find? (·.path = entry.path))
  removed : steps.filterMap Step.removed =
    if truncated then [] else (rows.map (·.path)).filter (· ∉ entries.map (·.path))
  /-- What is recorded for an entry is recorded under its path. -/
  recorded : ∀ file ∈ steps.filterMap Step.recorded, file.path ∈ entries.map (·.path)

section Merge

variable {pass : Pass} {sweep truncated : Bool} {path : RepoPath} {entry : InventoryEntry}
  {entries : List InventoryEntry} {row : IndexedFile} {rows : List IndexedFile}

/-- Steps that only remove rows of some paths. -/
structure Removes (sweep : Bool) (rows : List IndexedFile) (steps : List Step) : Prop where
  examined : steps.filterMap Step.examined = []
  recorded : steps.filterMap Step.recorded = []
  removed : steps.filterMap Step.removed = if sweep then rows.map (·.path) else []

theorem Removes.cons {steps : List Step} (removes : Removes sweep rows steps) (row : IndexedFile) :
    Removes sweep (row :: rows) ((if sweep then [.remove row.path] else []) ++ .next :: steps) := by
  cases sweep with
  | false => exact ⟨removes.examined, removes.recorded, removes.removed⟩
  | true => exact ⟨removes.examined, removes.recorded, congrArg (row.path :: ·) removes.removed⟩

/-- The rows before a path are removed, and the others are left. -/
theorem skipRows_spec (sweep : Bool) (path : RepoPath) (rows : List IndexedFile) :
    ∃ before, rows = before ++ (skipRows sweep path rows).2 ∧ (∀ row ∈ before, row.path < path) ∧
      (∀ row ∈ (skipRows sweep path rows).2.head?, path ≤ row.path) ∧
      Removes sweep before (skipRows sweep path rows).1 := by
  induction rows with
  | nil => exact ⟨[], rfl, by simp, by simp [skipRows], rfl, rfl, by cases sweep <;> rfl⟩
  | cons row rows ih =>
    rw [skipRows]
    by_cases ahead : path ≤ row.path
    · rw [if_pos ahead]
      refine ⟨[], rfl, by simp, ?_, rfl, rfl, by cases sweep <;> rfl⟩
      rintro first ⟨⟩
      exact ahead
    · rw [if_neg ahead]
      obtain ⟨before, split, behind, left, removes⟩ := ih
      refine ⟨row :: before, congrArg (row :: ·) split, ?_, left, removes.cons row⟩
      rintro other (_ | ⟨_, member⟩)
      · exact not_le.mp ahead
      · exact behind other member

theorem trailingRows_removes (sweep : Bool) (rows : List IndexedFile) :
    Removes sweep rows (trailingRows sweep rows) := by
  induction rows with
  | nil => exact ⟨rfl, rfl, by cases sweep <;> rfl⟩
  | cons row rows ih =>
    obtain ⟨examined, recorded, removed⟩ := ih.cons row
    exact ⟨examined, recorded, removed⟩

/-- From rows that do not come before a path its own is taken, and all later ones are left. -/
theorem takeRow_spec (sweep : Bool) (ascending : Ascending (rows.map (·.path)))
    (left : ∀ row ∈ rows.head?, path ≤ row.path) :
    (takeRow path rows).1 = rows.find? (·.path = path) ∧ Removes sweep [] (takeRow path rows).2.1 ∧
      rows = (takeRow path rows).1.toList ++ (takeRow path rows).2.2 ∧
      ∀ row ∈ (takeRow path rows).2.2, path < row.path := by
  have nothing : (if sweep then ([] : List IndexedFile).map (·.path) else []) = [] := by
    cases sweep <;> rfl
  cases rows with
  | nil => exact ⟨rfl, ⟨rfl, rfl, nothing.symm⟩, rfl, by simp [takeRow]⟩
  | cons row rows =>
    obtain ⟨later, ascending⟩ := List.pairwise_cons.mp ascending
    have later : ∀ other ∈ rows, row.path < other.path := fun other member =>
      later other.path (List.mem_map_of_mem member)
    rw [takeRow]
    by_cases same : row.path = path
    · rw [if_pos same, List.find?_cons_of_pos (by simpa using same)]
      exact ⟨rfl, ⟨rfl, rfl, nothing.symm⟩, rfl, fun other member => same ▸ later other member⟩
    · have ahead : path < row.path := lt_of_le_of_ne (left row rfl) (Ne.symm same)
      rw [if_neg same]
      refine ⟨?_, ⟨rfl, rfl, nothing.symm⟩, rfl, ?_⟩
      · refine (List.find?_eq_none.mpr fun other member => ?_).symm
        rcases List.mem_cons.mp member with rfl | member
        · simpa using same
        · simpa using (ahead.trans (later other member)).ne'
      · rintro other (_ | ⟨_, member⟩)
        · exact ahead
        · exact ahead.trans (later other member)

/-- The row of a path is looked for behind rows of other paths. -/
theorem find_append {front : List IndexedFile} (others : ∀ row ∈ front, row.path ≠ path) :
    (front ++ rows).find? (·.path = path) = rows.find? (·.path = path) := by
  rw [List.find?_append, List.find?_eq_none.mpr, Option.none_or]
  exact fun row member => by simpa using others row member

/-- Rows that no entry has the path of are all kept for removal. -/
theorem unnamed_eq_self (others : ∀ row ∈ rows, ∀ entry ∈ entries, row.path ≠ entry.path) :
    (rows.map (·.path)).filter (· ∉ entries.map (·.path)) = rows.map (·.path) := by
  refine List.filter_eq_self.mpr fun path among => ?_
  obtain ⟨row, member, rfl⟩ := List.mem_map.mp among
  have free : row.path ∉ entries.map (·.path) := by
    intro named
    obtain ⟨entry, listed, same⟩ := List.mem_map.mp named
    exact others row member entry listed same.symm
  exact decide_eq_true free

/-- The entry in front names no row of another path. -/
theorem unnamed_cons (others : ∀ row ∈ rows, row.path ≠ entry.path) :
    (rows.map (·.path)).filter (· ∉ (entry :: entries).map (·.path)) =
      (rows.map (·.path)).filter (· ∉ entries.map (·.path)) := by
  refine List.filter_congr fun path among => ?_
  obtain ⟨row, member, rfl⟩ := List.mem_map.mp among
  simp [others row member]

/-- A row of an entry's path is none to remove. -/
theorem unnamed_eq_nil (own : ∀ row ∈ rows, row.path = entry.path) :
    (rows.map (·.path)).filter (· ∉ (entry :: entries).map (·.path)) = [] := by
  refine List.filter_eq_nil_iff.mpr fun path among => ?_
  obtain ⟨row, member, rfl⟩ := List.mem_map.mp among
  simp [own row member]

/-- What a merge asks for, for entries and rows that ascend. -/
theorem mergeEntries_exact (pass : Pass) (truncated : Bool) (entries : List InventoryEntry)
    (rows : List IndexedFile) (walked : Ascending (entries.map (·.path)))
    (read : Ascending (rows.map (·.path))) :
    Exact truncated entries rows (mergeEntries pass (!truncated) entries rows) := by
  induction entries generalizing rows with
  | nil =>
    obtain ⟨examined, recorded, removed⟩ := trailingRows_removes (!truncated) rows
    refine ⟨examined, ?_, by rw [mergeEntries, recorded]; simp⟩
    rw [mergeEntries, removed]
    cases truncated <;> simp
  | cons entry entries ih =>
    obtain ⟨later, walked⟩ := List.pairwise_cons.mp walked
    obtain ⟨before, split, behind, left, skips⟩ := skipRows_spec (!truncated) entry.path rows
    set skipped := skipRows (!truncated) entry.path rows with skippedEq
    have readLeft : Ascending (skipped.2.map (·.path)) := by
      rw [split, List.map_append] at read
      exact (List.pairwise_append.mp read).2.1
    obtain ⟨own, takes, rest, ahead⟩ := takeRow_spec (!truncated) readLeft left
    set taken := takeRow entry.path skipped.2 with takenEq
    have readRest : Ascending (taken.2.2.map (·.path)) := by
      rw [rest, List.map_append] at readLeft
      exact (List.pairwise_append.mp readLeft).2.1
    have own_path : ∀ row ∈ taken.1.toList, row.path = entry.path := by
      intro row member
      rw [own, Option.mem_toList] at member
      simpa using List.find?_some member
    have whole : rows = before ++ (taken.1.toList ++ taken.2.2) := rest ▸ split
    have later : ∀ other ∈ entries, entry.path < other.path := fun other member =>
      later other.path (List.mem_map_of_mem member)
    have asked : mergeEntries pass (!truncated) (entry :: entries) rows =
        .poll :: skipped.1 ++ taken.2.1 ++ .examine entry taken.1 (apply pass.components entry taken.1
          (pass.hinted entry.path) (pass.attempts entry.path)) ::
            mergeEntries pass (!truncated) entries taken.2.2 := rfl
    obtain ⟨examined, removed, recorded⟩ := ih taken.2.2 walked readRest
    refine ⟨?_, ?_, ?_⟩
    · have here : rows.find? (·.path = entry.path) = taken.1 := by
        rw [split, find_append fun row member => (behind row member).ne, own]
      have after : ∀ other ∈ entries,
          taken.2.2.find? (·.path = other.path) = rows.find? (·.path = other.path) := by
        intro other member
        rw [whole, find_append fun row among => ((behind row among).trans (later other member)).ne,
          find_append fun row among => (own_path row among).trans_ne (later other member).ne]
      rw [asked, List.filterMap_append, List.filterMap_append, List.filterMap_cons_none rfl, skips.examined,
        takes.examined]
      change (entry, taken.1) :: _ = _
      rw [examined, List.map_cons, here]
      exact congrArg ((entry, taken.1) :: ·) (List.map_congr_left fun other member =>
        congrArg (Prod.mk other) (after other member))
    · rw [asked, List.filterMap_append, List.filterMap_append, List.filterMap_cons_none rfl, skips.removed,
        takes.removed, List.filterMap_cons_none rfl, removed]
      cases truncated with
      | true => rfl
      | false =>
        have apart : ∀ row ∈ before, ∀ other ∈ entry :: entries, row.path ≠ other.path := by
          intro row member other listed
          rcases List.mem_cons.mp listed with rfl | listed
          · exact (behind row member).ne
          · exact ((behind row member).trans (later other listed)).ne
        rw [whole, List.map_append, List.map_append, List.filter_append, List.filter_append,
          unnamed_eq_self apart,
          unnamed_eq_nil own_path, unnamed_cons fun row member => (ahead row member).ne']
        simp
    · intro file member
      rw [asked, List.filterMap_append, List.filterMap_append, List.filterMap_cons_none rfl, skips.recorded,
        takes.recorded, List.nil_append, List.nil_append, List.filterMap_cons] at member
      cases made : (apply pass.components entry taken.1 (pass.hinted entry.path)
        (pass.attempts entry.path)).file with
      | none =>
        simp only [Step.recorded, made] at member
        exact List.mem_cons_of_mem _ (recorded file member)
      | some first =>
        simp only [Step.recorded, made] at member
        rcases List.mem_cons.mp member with rfl | member
        · rw [(records_of_apply made).path]
          exact List.mem_cons_self
        · exact List.mem_cons_of_mem _ (recorded file member)

theorem carryOut_prefix {ε : Type*} (refused : ℕ → Option ε) (count : ℕ) (steps : List Step) :
    (carryOut refused count steps).1 <+: steps := by
  induction steps generalizing count with
  | nil => exact List.prefix_rfl
  | cons step steps ih =>
    rw [carryOut]
    cases refused count with
    | some fault => exact List.nil_prefix
    | none => exact List.cons_prefix_cons.mpr ⟨rfl, ih (count + 1)⟩

theorem carryOut_whole {ε : Type*} (refused : ℕ → Option ε) (count : ℕ) (steps : List Step)
    (ended : (carryOut refused count steps).2 = none) : (carryOut refused count steps).1 = steps := by
  induction steps generalizing count with
  | nil => rfl
  | cons step steps ih =>
    rw [carryOut] at ended ⊢
    cases open_ : refused count with
    | some fault =>
      rw [open_] at ended
      cases ended
    | none =>
      rw [open_] at ended
      exact congrArg (step :: ·) (ih (count + 1) ended)

/-- **The reconcile merge is exact**: for every walk and every stream of rows, each sorted by path, the
merge examines each entry once, together with the row of its path if there is one; it removes a row
exactly when no entry has its path and the walk was not cut short; and it records nothing for a path
that it removes. A merge that is refused something stops there. -/
theorem merge_exact {ε : Type*} (pass : Pass) (truncated : Bool) (entries : List InventoryEntry)
    (rows : List IndexedFile) (walked : Ascending (entries.map (·.path)))
    (read : Ascending (rows.map (·.path))) (refused : ℕ → Option ε) :
    Exact truncated entries rows (merge pass truncated entries rows) ∧
      (∀ file ∈ (merge pass truncated entries rows).filterMap Step.recorded,
        file.path ∉ (merge pass truncated entries rows).filterMap Step.removed) ∧
      (carryOut refused 0 (merge pass truncated entries rows)).1 <+: merge pass truncated entries rows ∧
      ((carryOut refused 0 (merge pass truncated entries rows)).2 = none →
        (carryOut refused 0 (merge pass truncated entries rows)).1 = merge pass truncated entries rows) := by
  obtain ⟨examined, removed, recorded⟩ := mergeEntries_exact pass truncated entries rows walked read
  refine ⟨⟨examined, removed, recorded⟩, ?_, carryOut_prefix .., carryOut_whole refused 0 _⟩
  intro file member gone
  have gone : file.path ∈ (mergeEntries pass (!truncated) entries rows).filterMap Step.removed := gone
  rw [removed] at gone
  split_ifs at gone
  · cases gone
  · exact (of_decide_eq_true (List.mem_filter.mp gone).2) (recorded file member)

end Merge

def rowAt (path : RepoPath) : IndexedFile :=
  ⟨path, none, none, false, ⟨0, none, .unknownText, false, none, false, 1⟩, none, none, none, 1⟩

/-- The row of `a` is removed, that of `b` goes with its entry, and `c` has none. -/
theorem merge_exact_sample :
    (merge ⟨sampleComponents, fun _ => false, fun _ => []⟩ false
      [⟨[98], 0, none, .binary, false, none, false⟩, ⟨[99], 0, none, .binary, false, none, false⟩]
      [rowAt [97], rowAt [98]]).filterMap Step.removed = [[97]] :=
  (merge_exact ⟨sampleComponents, fun _ => false, fun _ => []⟩ false
    [⟨[98], 0, none, .binary, false, none, false⟩, ⟨[99], 0, none, .binary, false, none, false⟩]
    [rowAt [97], rowAt [98]] (by unfold Ascending; decide) (by unfold Ascending; decide)
    fun _ => (none : Option Unit)).1.removed.trans (by decide)

end Harkness.Context.Reconcile
