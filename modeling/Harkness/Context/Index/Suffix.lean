import Harkness.Context.Index.Symbols
import Harkness.ToMathlib.Except
import Harkness.ToMathlib.Like
import Harkness.ToMathlib.Sort
import Mathlib

/-! # Looking symbols up by the end of their names

The rows of the visible symbols of a worktree are selected by a LIKE pattern, in the order of their
qualified names, and one more than asked for says whether there are further ones. LIKE compares ASCII
letters without their case, reads names and pattern to their first NUL and refuses a long pattern.
-/

namespace Harkness.Context.Index

open Like

def maxReadRows : ℕ := 50000

/-- One more row than the caller asked for, or none where it asked for no rows. -/
def probeLimit (limit : ℕ) : Option ℕ :=
  let bounded := min limit maxReadRows
  if bounded = 0 then none else some (bounded + 1)

structure IndexedPage (α : Type*) where
  rows : List α
  /-- Whether the store holds more than this page returned. -/
  more : Bool
deriving DecidableEq

/-- Trims the row behind the limit off and says whether it was there. -/
def page {α : Type*} (rows : List α) (limit : ℕ) : IndexedPage α :=
  let bounded := min limit maxReadRows
  ⟨rows.take bounded, bounded < rows.length⟩

/-- A symbol joined with the version it belongs to and the file that names the version. -/
structure SymbolRow where
  fileVersion : String
  path : RepoPath
  version : VersionRow
  byteSize : ℕ
  symbol : SymbolRecord
deriving DecidableEq

/-- The rows of the symbols that are visible in a worktree, file by file. -/
def Database.symbolRows (self : Database) (worktree : WorktreeKey) : List SymbolRow :=
  ((self.files.support.image Prod.snd).sort (· ≤ ·)).flatMap fun path =>
    ((self.file worktree path).bind (·.fileVersion)).toList.flatMap fun fileVersion =>
      (self.versions.get fileVersion).toList.flatMap fun version =>
        (self.contents.get version.contentSha256).toList.flatMap fun byteSize =>
          version.symbols.map fun symbol => ⟨fileVersion, path, version, byteSize, symbol⟩

namespace SymbolRow

def qualifiedPath (self : SymbolRow) : String := self.symbol.qualifiedPath

/-- What rows are ordered by: the code points of a name come in the order of their bytes. -/
def key (self : SymbolRow) : String ×ₗ RepoPath ×ₗ ℕ :=
  toLex (self.qualifiedPath, toLex (self.path, self.symbol.byteRange.start))

def Before (one other : SymbolRow) : Prop := one.key ≤ other.key

instance : DecidableRel Before := fun one other => inferInstanceAs (Decidable (one.key ≤ other.key))

instance : IsTrans SymbolRow Before := ⟨fun _ _ _ first second => le_trans first second⟩

instance : Std.Total Before := ⟨fun one other => le_total one.key other.key⟩

def read (sha256 : List UInt8 → String) (self : SymbolRow) : Option IndexedSymbol :=
  readSymbol sha256 self.fileVersion { self.version with path := self.path } self.byteSize self.symbol

end SymbolRow

def ordered (rows : List SymbolRow) : List SymbolRow := rows.insertionSort SymbolRow.Before

/-- Replaces a character wherever it stands. -/
def replaceChar (wanted : Char) (replacement text : List Char) : List Char :=
  text.flatMap fun character => if character = wanted then replacement else [character]

def escapeLike (value : List Char) : List Char :=
  replaceChar '_' ['\\', '_'] (replaceChar '%' ['\\', '%'] (replaceChar '\\' ['\\', '\\'] value))

def suffixPattern (suffix : String) : List Char := '%' :: ':' :: ':' :: escapeLike suffix.toList

/-- Whether the query selects a name, which is compared with the pattern if it is not the suffix itself; none
where the pattern is refused. -/
def selects (suffix qualified : String) : Option Bool :=
  if qualified = suffix then some true else like '\\' (suffixPattern suffix) qualified.toList

/-- The rows that a condition selects, all of which it has to answer. -/
def whereRows {α : Type} (condition : α → Option Bool) : List α → Option (List α)
  | [] => some []
  | row :: rows => do
    let selected : Bool ← condition row
    let kept ← whereRows condition rows
    some (bif selected then row :: kept else kept)

/-- Every symbol whose qualified path ends in a suffix; a row that cannot be read fails the query. -/
def symbolsQualifiedSuffix (sha256 : List UInt8 → String) (db : Database) (worktree : WorktreeKey)
    (suffix : String) (limit : ℕ) : Option (IndexedPage IndexedSymbol) :=
  match probeLimit limit with
  | none => some ⟨[], false⟩
  | some probe => do
    let rows ← whereRows (selects suffix ·.qualifiedPath) (db.symbolRows worktree)
    let read ← ((ordered rows).take probe).mapM (SymbolRow.read sha256)
    some (page read limit)

/-- What stands in front of a suffix, where it is not the whole name. -/
def behindColons (suffix : String) : List Char := ':' :: ':' :: suffix.toList

/-- Whether a name is the suffix or ends with it behind two colons. -/
def EndsIn (suffix qualified : String) : Prop :=
  qualified = suffix ∨ behindColons suffix <:+ qualified.toList

instance (suffix qualified : String) : Decidable (EndsIn suffix qualified) :=
  inferInstanceAs (Decidable (_ ∨ _))

/-- Whether a name does so when the case of ASCII letters is left out of account behind the colons, and what is
behind a NUL in the name and in the suffix. -/
def FoldsIn (suffix qualified : String) : Prop :=
  qualified = suffix ∨
    ∃ back ∈ (untilNul qualified.toList).tails, FoldEq back (untilNul (behindColons suffix))

instance (suffix qualified : String) : Decidable (FoldsIn suffix qualified) :=
  inferInstanceAs (Decidable (_ ∨ _))

/-- The rows that end in a suffix, in order. -/
def endingIn (db : Database) (worktree : WorktreeKey) (suffix : String) : List SymbolRow :=
  ordered ((db.symbolRows worktree).filter fun row => EndsIn suffix row.qualifiedPath)

/-- A page of exactly the symbols that end in a suffix, as far as the limit goes, which says whether
there are further ones. -/
structure SuffixPage (sha256 : List UInt8 → String) (db : Database) (worktree : WorktreeKey)
    (suffix : String) (limit : ℕ) (answer : IndexedPage IndexedSymbol) : Prop where
  rows : ((endingIn db worktree suffix).take (min limit maxReadRows)).mapM (SymbolRow.read sha256) =
    some answer.rows
  more : answer.more = true ↔ min limit maxReadRows < (endingIn db worktree suffix).length

/-- The rows that end in a suffix up to case and what is behind a NUL, in order. -/
def foldingIn (db : Database) (worktree : WorktreeKey) (suffix : String) : List SymbolRow :=
  ordered ((db.symbolRows worktree).filter fun row => FoldsIn suffix row.qualifiedPath)

/-- LIKE takes the pattern. -/
def Short (suffix : String) : Prop := byteLength (suffixPattern suffix) ≤ maxPatternLength

instance (suffix : String) : Decidable (Short suffix) := inferInstanceAs (Decidable (_ ≤ _))

/-- A query for some rows is answered where LIKE takes the pattern, or has no name to compare, and the rows
that fill the page can be read. Its page is exact where the names it has room for are the same up to case and
NUL as they are byte for byte, and as well those that it has no room for are there or not. A query for no rows
is exact where there are none. -/
structure Unaffected (sha256 : List UInt8 → String) (db : Database) (worktree : WorktreeKey)
    (suffix : String) (limit : ℕ) : Prop where
  compared : limit ≠ 0 → Short suffix ∨ ∀ row ∈ db.symbolRows worktree, row.qualifiedPath = suffix
  readable : limit ≠ 0 → ∀ row ∈ (foldingIn db worktree suffix).take (min limit maxReadRows + 1),
    (row.read sha256).isSome = true
  shown : ∀ row ∈ (foldingIn db worktree suffix).take (min limit maxReadRows),
    EndsIn suffix row.qualifiedPath
  found : ∀ row ∈ (endingIn db worktree suffix).take (min limit maxReadRows),
    FoldsIn suffix row.qualifiedPath
  further : limit ≠ 0 → (min limit maxReadRows < (foldingIn db worktree suffix).length ↔
    min limit maxReadRows < (endingIn db worktree suffix).length)
  nothing : limit = 0 → endingIn db worktree suffix = []

section Pattern

variable {suffix qualified : String}

theorem escapeLike_eq (value : List Char) : escapeLike value = escaped '\\' value := by
  induction value with
  | nil => rfl
  | cons character value ih =>
    have each : ∀ wanted replacement (first rest : List Char), replaceChar wanted replacement (first ++ rest) =
        replaceChar wanted replacement first ++ replaceChar wanted replacement rest :=
      fun _ _ _ _ => List.flatMap_append
    have split : escapeLike (character :: value) = escapeLike [character] ++ escapeLike value := by
      rw [← List.singleton_append, escapeLike, each, each, each]
      rfl
    have one : escapeLike [character] =
        if character = '\\' ∨ character = '%' ∨ character = '_' then ['\\', character] else [character] := by
      by_cases backslash : character = '\\'
      · subst backslash
        rfl
      · by_cases percent : character = '%'
        · subst percent
          rfl
        · by_cases underscore : character = '_'
          · subst underscore
            rfl
          · simp [escapeLike, replaceChar, backslash, percent, underscore]
    rw [split, one, ih]
    rfl

theorem tokens_suffixPattern (suffix : String) : tokens '\\' (untilNul (suffixPattern suffix)) =
    some (.anything :: (untilNul (behindColons suffix)).map .literal) := by
  rw [suffixPattern, behindColons, untilNul_cons (by decide), untilNul_cons (by decide),
    untilNul_cons (by decide), untilNul_cons (by decide), untilNul_cons (by decide), tokens_cons (by decide),
    tokens_cons (by decide), tokens_cons (by decide), escapeLike_eq, untilNul_escaped (by decide),
    tokens_escaped]
  rfl

/-- The pattern selects what ends in the suffix up to case and what is behind a NUL. -/
theorem selects_eq : selects suffix qualified =
    if qualified = suffix ∨ Short suffix then some (decide (FoldsIn suffix qualified)) else none := by
  rw [selects]
  by_cases same : qualified = suffix
  · rw [if_pos same, if_pos (.inl same), decide_eq_true (show FoldsIn suffix qualified from .inl same)]
  · rw [if_neg same, like]
    by_cases short : Short suffix
    · rw [if_neg (not_lt.mpr short), if_pos (.inr short), tokens_suffixPattern, Option.any_some]
      congr 1
      rw [Bool.eq_iff_iff, matchesTokens_anything, decide_eq_true_iff, FoldsIn, or_iff_right same]
      constructor
      · rintro ⟨front, back, split, meets⟩
        exact ⟨back, (List.mem_tails ..).mpr ⟨front, split.symm⟩, (matchesTokens_literals _ _).mp meets⟩
      · rintro ⟨back, tail, folds⟩
        obtain ⟨front, split⟩ := (List.mem_tails ..).mp tail
        exact ⟨front, back, split.symm, (matchesTokens_literals _ _).mpr folds⟩
    · rw [if_pos (not_le.mp short), if_neg (not_or.mpr ⟨same, short⟩)]

end Pattern

section Pages

variable {sha256 : List UInt8 → String} {db : Database} {worktree : WorktreeKey} {suffix : String}
  {limit : ℕ} {answer : IndexedPage IndexedSymbol}

theorem whereRows_eq_some {α : Type} {condition : α → Option Bool} {rows kept : List α} :
    whereRows condition rows = some kept ↔ (∀ row ∈ rows, (condition row).isSome = true) ∧
      kept = rows.filter fun row => condition row = some true := by
  induction rows generalizing kept with
  | nil =>
    rw [whereRows, Option.some.injEq, eq_comm]
    exact ⟨fun same => ⟨nofun, same⟩, And.right⟩
  | cons row rows ih =>
    rw [whereRows, List.forall_mem_cons]
    cases answer : condition row with
    | none => simp
    | some selected =>
      have step : (some selected >>= fun selected => whereRows condition rows >>= fun kept =>
          some (bif selected then row :: kept else kept)) =
            (whereRows condition rows).map fun kept => bif selected then row :: kept else kept := by
        cases whereRows condition rows <;> rfl
      rw [step, Option.map_eq_some_iff]
      simp only [ih, and_assoc, exists_and_left, exists_eq_left, List.filter_cons, answer, Option.isSome_some,
        true_and]
      refine and_congr_right fun _ => ?_
      cases selected <;> exact eq_comm

/-- What the query selects, where it compares every name. -/
theorem selected_iff {rows : List SymbolRow} :
    whereRows (selects suffix ·.qualifiedPath) (db.symbolRows worktree) = some rows ↔
      (Short suffix ∨ ∀ row ∈ db.symbolRows worktree, row.qualifiedPath = suffix) ∧
        rows = (db.symbolRows worktree).filter fun row => FoldsIn suffix row.qualifiedPath := by
  have answered : (∀ row ∈ db.symbolRows worktree, (selects suffix row.qualifiedPath).isSome = true) ↔
      (Short suffix ∨ ∀ row ∈ db.symbolRows worktree, row.qualifiedPath = suffix) := by
    have each : ∀ row : SymbolRow, (selects suffix row.qualifiedPath).isSome = true ↔
        row.qualifiedPath = suffix ∨ Short suffix := by
      intro row
      rw [selects_eq]
      split_ifs with compared
      · exact iff_of_true rfl compared
      · exact iff_of_false nofun compared
    simp only [each]
    by_cases short : Short suffix <;> simp [short]
  rw [whereRows_eq_some, answered]
  refine and_congr_right fun compared => ?_
  have same : ∀ row ∈ db.symbolRows worktree,
      decide (selects suffix row.qualifiedPath = some true) = decide (FoldsIn suffix row.qualifiedPath) := by
    intro row member
    have here : row.qualifiedPath = suffix ∨ Short suffix := compared.symm.imp_left fun all => all row member
    rw [selects_eq, if_pos here]
    simp
  rw [List.filter_congr same]

/-- The rows of a worktree in order. -/
def allRows (db : Database) (worktree : WorktreeKey) : List SymbolRow := ordered (db.symbolRows worktree)

theorem foldingIn_eq : foldingIn db worktree suffix =
    (allRows db worktree).filter fun row => FoldsIn suffix row.qualifiedPath := by
  rw [foldingIn, allRows, ordered, ordered, List.filter_insertionSort]

theorem endingIn_eq : endingIn db worktree suffix =
    (allRows db worktree).filter fun row => EndsIn suffix row.qualifiedPath := by
  rw [endingIn, allRows, ordered, ordered, List.filter_insertionSort]

theorem readSymbol_qualifiedPath {fileVersion : String} {row : VersionRow} {byteSize : ℕ}
    {symbol : SymbolRecord} {indexed : IndexedSymbol}
    (read : readSymbol sha256 fileVersion row byteSize symbol = some indexed) :
    indexed.qualifiedPath = symbol.qualifiedPath := by
  unfold readSymbol at read
  split at read
  · split_ifs at read
    obtain rfl := Option.some.inj read
    rfl
  · cases read

/-- What is read of rows has their names. -/
theorem qualifiedPaths_of_read {rows : List SymbolRow} {indexed : List IndexedSymbol}
    (read : rows.mapM (SymbolRow.read sha256) = some indexed) :
    indexed.map (·.qualifiedPath) = rows.map SymbolRow.qualifiedPath := by
  have each := List.mapM_eq_some_iff.mp read
  clear read
  induction each with
  | nil => rfl
  | cons here _ ih =>
    rw [List.map_cons, List.map_cons, ih, readSymbol_qualifiedPath here]
    rfl

/-- What a query with a limit answers. -/
theorem answered_iff (some_ : limit ≠ 0) :
    symbolsQualifiedSuffix sha256 db worktree suffix limit = some answer ↔
      (Short suffix ∨ ∀ row ∈ db.symbolRows worktree, row.qualifiedPath = suffix) ∧
        ∃ read, ((foldingIn db worktree suffix).take (min limit maxReadRows + 1)).mapM
          (SymbolRow.read sha256) = some read ∧ page read limit = answer := by
  have bounded : min limit maxReadRows ≠ 0 := by
    have : maxReadRows ≠ 0 := by decide
    omega
  have probe : probeLimit limit = some (min limit maxReadRows + 1) := if_neg bounded
  rw [symbolsQualifiedSuffix, probe]
  dsimp only
  rw [Option.bind_eq_bind, Option.bind_eq_some_iff]
  simp only [selected_iff, Option.bind_eq_bind, Option.bind_eq_some_iff, Option.some.injEq]
  constructor
  · rintro ⟨rows, ⟨compared, rfl⟩, read, each, same⟩
    exact ⟨compared, read, each, same⟩
  · rintro ⟨compared, read, each, same⟩
    exact ⟨_, ⟨compared, rfl⟩, read, each, same⟩

/-- The rows of a page are the first ones selected, and it says whether there are further ones. -/
theorem answered_spec (some_ : limit ≠ 0)
    (answered : symbolsQualifiedSuffix sha256 db worktree suffix limit = some answer) :
    ((foldingIn db worktree suffix).take (min limit maxReadRows)).mapM (SymbolRow.read sha256) =
      some answer.rows ∧
      (answer.more = true ↔ min limit maxReadRows < (foldingIn db worktree suffix).length) := by
  obtain ⟨-, read, each, rfl⟩ := (answered_iff some_).mp answered
  have each := List.mapM_eq_some_iff.mp each
  have length := each.length_eq
  rw [List.length_take] at length
  constructor
  · have front := List.forall₂_take (min limit maxReadRows) each
    rw [List.take_take, min_eq_left (Nat.le_succ _)] at front
    exact List.mapM_eq_some_iff.mpr front
  · have more : (page read limit).more = true ↔ min limit maxReadRows < read.length := decide_eq_true_iff
    rw [more]
    omega

/-- Two selections of one list have the same first members where those of each are members of both. -/
theorem take_filter_eq {α : Type*} {p q : α → Bool} {l : List α} {count : ℕ}
    (shown : ∀ a ∈ (l.filter p).take count, q a = true) (found : ∀ a ∈ (l.filter q).take count, p a = true) :
    (l.filter p).take count = (l.filter q).take count := by
  induction l generalizing count with
  | nil => rfl
  | cons a l ih =>
    cases count with
    | zero => rfl
    | succ count =>
      by_cases first : p a = true <;> by_cases second : q a = true
      · simp only [List.filter_cons_of_pos first, List.filter_cons_of_pos second, List.take_succ_cons,
          List.forall_mem_cons] at shown found ⊢
        rw [ih shown.2 found.2]
      · rw [List.filter_cons_of_pos first, List.take_succ_cons, List.forall_mem_cons] at shown
        exact absurd shown.1 second
      · rw [List.filter_cons_of_pos second, List.take_succ_cons, List.forall_mem_cons] at found
        exact absurd found.1 first
      · simp only [List.filter_cons_of_neg first, List.filter_cons_of_neg second] at shown found ⊢
        exact ih shown found

/-- A query for no rows answers an empty page. -/
theorem suffixPage_zero : SuffixPage sha256 db worktree suffix 0 ⟨[], false⟩ ↔
    endingIn db worktree suffix = [] := by
  constructor
  · intro exact_
    have none_ : ¬ 0 < (endingIn db worktree suffix).length := by simpa using exact_.more
    exact List.eq_nil_of_length_eq_zero (by omega)
  · intro none_
    exact ⟨by simp, by simp [none_]⟩

/-- A page of exact names shows exact names only, misses none and counts them as they are. -/
theorem undisturbed_of_suffixPage (some_ : limit ≠ 0)
    (answered : symbolsQualifiedSuffix sha256 db worktree suffix limit = some answer)
    (exact_ : SuffixPage sha256 db worktree suffix limit answer) :
    Unaffected sha256 db worktree suffix limit := by
  obtain ⟨rows, more⟩ := answered_spec some_ answered
  obtain ⟨compared, read, each, -⟩ := (answered_iff some_).mp answered
  have names := (qualifiedPaths_of_read rows).symm.trans (qualifiedPaths_of_read exact_.rows)
  refine ⟨fun _ => compared, fun _ row member => ?_, fun row member => ?_, fun row member => ?_,
    fun _ => more.symm.trans exact_.more, fun zero => absurd zero some_⟩
  · exact List.isSome_of_mapM_eq_some each member
  · have shown := List.mem_map_of_mem (f := SymbolRow.qualifiedPath) member
    rw [names] at shown
    obtain ⟨other, among, same⟩ := List.mem_map.mp shown
    have ends := List.mem_of_mem_take among
    rw [endingIn_eq, List.mem_filter, decide_eq_true_iff] at ends
    exact same ▸ ends.2
  · have shown := List.mem_map_of_mem (f := SymbolRow.qualifiedPath) member
    rw [← names] at shown
    obtain ⟨other, among, same⟩ := List.mem_map.mp shown
    have folds := List.mem_of_mem_take among
    rw [foldingIn_eq, List.mem_filter, decide_eq_true_iff] at folds
    exact same ▸ folds.2

/-- Where the first names are the same either way, what is selected shows as what is exact. -/
theorem suffixPage_of_undisturbed (some_ : limit ≠ 0)
    (unaffected : Unaffected sha256 db worktree suffix limit) :
    ∃ answer, symbolsQualifiedSuffix sha256 db worktree suffix limit = some answer ∧
      SuffixPage sha256 db worktree suffix limit answer := by
  obtain ⟨read, each⟩ := List.exists_mapM_eq_some (unaffected.readable some_)
  have answered := (answered_iff some_).mpr ⟨unaffected.compared some_, read, each, rfl⟩
  obtain ⟨rows, more⟩ := answered_spec some_ answered
  refine ⟨_, answered, ?_, more.trans (unaffected.further some_)⟩
  have shown := unaffected.shown
  have found := unaffected.found
  rw [foldingIn_eq] at shown rows
  rw [endingIn_eq] at found ⊢
  rw [← take_filter_eq (fun row member => decide_eq_true (shown row member))
    fun row member => decide_eq_true (found row member)]
  exact rows

/-- **Suffix lookup is exact** exactly where it is answered and neither a letter in another case nor a NUL
puts a name among those it has room for, or takes one from there, or alone says that there are further ones. -/
theorem suffixPage_iff_undisturbed : (∃ answer,
    symbolsQualifiedSuffix sha256 db worktree suffix limit = some answer ∧
      SuffixPage sha256 db worktree suffix limit answer) ↔ Unaffected sha256 db worktree suffix limit := by
  by_cases zero : limit = 0
  · subst zero
    constructor
    · rintro ⟨answer, answered, exact_⟩
      obtain rfl := Option.some.inj answered
      have none_ := suffixPage_zero.mp exact_
      exact ⟨fun some_ => absurd rfl some_, fun some_ => absurd rfl some_, by simp, by simp,
        fun some_ => absurd rfl some_, fun _ => none_⟩
    · intro unaffected
      exact ⟨_, rfl, suffixPage_zero.mpr (unaffected.nothing rfl)⟩
  · constructor
    · rintro ⟨answer, answered, exact_⟩
      exact undisturbed_of_suffixPage zero answered exact_
    · exact suffixPage_of_undisturbed zero

end Pages

def widgetFoo : SymbolRecord where
  id := SymbolId.derive (fun _ => "digest") [97] "rust" "Widget::Foo" "struct"
  name := "Foo"
  qualifiedPath := "Widget::Foo"
  kind := "struct"
  ordinal := 0
  byteRange := ⟨0, 1, none, none⟩
  parent := none
  isTest := false
  nameIsLossy := false

def widgetVersion : VersionRow where
  contentSha256 := "content"
  path := [97]
  language := some "rust"
  transcoded := false
  truncated := false
  chunkingVersion := none
  parserVersion := none
  chunks := []
  symbols := [widgetFoo]
  references := []
  health := none

/-- One file of one worktree, which declares `Widget::Foo`. -/
def widgets : Database where
  worktrees := Keyed.empty.set "w" ⟨1, 1, none⟩
  files := Keyed.empty.set ("w", [97])
    ⟨some "version", ⟨1, none, .source, false, none, false, 1⟩, 1⟩
  pending := .empty
  versions := Keyed.empty.set "version" widgetVersion
  contents := Keyed.empty.set "content" 1
  parserVersions := .empty

theorem symbolRows_widgets :
    widgets.symbolRows "w" = [⟨"version", [97], widgetVersion, 1, widgetFoo⟩] := by
  have paths : (widgets.files.support.image Prod.snd).sort (· ≤ ·) = [[97]] := by
    have one : widgets.files.support.image Prod.snd = {[97]} := by decide
    rw [one, Finset.sort_singleton]
  rw [Database.symbolRows, paths]
  rfl

theorem answer_widgets (suffix : String) (selected : selects suffix "Widget::Foo" = some true) :
    ∃ answer, symbolsQualifiedSuffix (fun _ => "digest") widgets "w" suffix 10 = some answer ∧
      answer.rows.map (·.qualifiedPath) = ["Widget::Foo"] := by
  refine ⟨⟨[⟨widgetFoo.id, "version", [97], "Foo", "Widget::Foo", .struct, 0, ⟨0, 1, none, none⟩, none, false,
    false, ""⟩], false⟩, ?_, rfl⟩
  have kept : whereRows (selects suffix ·.qualifiedPath) (widgets.symbolRows "w") =
      some [⟨"version", [97], widgetVersion, 1, widgetFoo⟩] := by
    rw [symbolRows_widgets, whereRows]
    exact congrArg (· >>= _) selected
  rw [symbolsQualifiedSuffix]
  dsimp only [probeLimit]
  rw [if_neg (by decide)]
  dsimp only
  rw [kept]
  decide

/-- Looking for `foo` finds `Widget::Foo`, which does not end in it. -/
theorem widgets_inexact : ∃ answer,
    symbolsQualifiedSuffix (fun _ => "digest") widgets "w" "foo" 10 = some answer ∧
      answer.rows.map (·.qualifiedPath) = ["Widget::Foo"] ∧
      ¬ SuffixPage (fun _ => "digest") widgets "w" "foo" 10 answer := by
  obtain ⟨answer, answered, names⟩ := answer_widgets "foo" (by decide)
  refine ⟨answer, answered, names, fun exact_ => ?_⟩
  have none_ : endingIn widgets "w" "foo" = [] := by
    rw [endingIn, symbolRows_widgets]
    decide
  have rows := exact_.rows
  rw [none_, List.take_nil] at rows
  have empty : [] = answer.rows := Option.some.inj rows
  rw [← empty] at names
  cases names

end Harkness.Context.Index
