import Harkness.Runtime.Domain.Record
import Harkness.Runtime.Store.Timestamp
import Mathlib.Data.Prod.Lex

/-! # Paging through the history of runs

Runs are listed newest first by the texts of their creation and identity. One row beyond a page is where
the next page starts; the rows may change between two requests.
-/

namespace Harkness.Runtime.Store

open Approval DateTime Domain Domain.Record FixedWidth

def maxRunPageLimit : ℕ := 500

/-- Where a listing goes on: the first run that was not returned. -/
structure RunCursor where
  createdAt : Instant
  id : RunId
deriving DecidableEq

structure RunPage where
  limit : ℕ
  cursor : Option RunCursor
deriving DecidableEq

/-- One page of run history, newest first. -/
structure RunListing where
  runs : List Run
  nextCursor : Option RunCursor
deriving DecidableEq

namespace RunCursor

/-- The cursor that names a run. -/
def of (run : Run) : RunCursor := ⟨run.lifecycle.createdAt, run.id⟩

/-- What the columns of a run, or the arguments of a query, compare by. -/
def text (self : RunCursor) : List Char ×ₗ List Char :=
  toLex (timestampText self.createdAt, formatId self.id)

/-- Creation, then identity. -/
def age (self : RunCursor) : ℤ ×ₗ ℕ := toLex (self.createdAt, self.id)

end RunCursor

/-- `ORDER BY created_at DESC, id DESC` -/
def Precedes (one other : Run) : Prop := (RunCursor.of other).text ≤ (RunCursor.of one).text

instance : DecidableRel Precedes :=
  fun one other => inferInstanceAs (Decidable ((RunCursor.of other).text ≤ (RunCursor.of one).text))

instance : IsTrans Run Precedes := ⟨fun _ _ _ first second => le_trans second first⟩

instance : Std.Total Precedes := ⟨fun one other => le_total (RunCursor.of other).text (RunCursor.of one).text⟩

/-- `WHERE (created_at, id) <= (:created_at, :id)` -/
def atOrBehind (cursor : Option RunCursor) (run : Run) : Bool :=
  cursor.all fun cursor => (RunCursor.of run).text ≤ cursor.text

/-- Lists a page of the stored runs. -/
def listRuns (table : List Run) (page : RunPage) : Except StoreError RunListing :=
  if page.limit = 0 ∨ maxRunPageLimit < page.limit then
    .error (.invalidPageLimit page.limit maxRunPageLimit)
  else
    let rows := ((table.filter (atOrBehind page.cursor)).insertionSort Precedes).take (page.limit + 1)
    .ok ⟨rows.take page.limit, rows[page.limit]?.map RunCursor.of⟩

inductive Browse where
  /-- A new run; one that has the identity of a stored run is refused. -/
  | insert (run : Run)
  | remove (id : RunId)
  /-- The page that the cursor of the page before asks for. -/
  | request (limit : ℕ)

/-- The stored runs and one reader, with how many pages it read, what was stored at its first request and what
was removed since. -/
structure Browser where
  table : List Run
  cursor : Option RunCursor
  delivered : List Run
  pages : ℕ
  first : Option (List Run)
  removed : List RunId
  finished : Bool

namespace Browser

def start (table : List Run) : Browser := ⟨table, none, [], 0, none, [], false⟩

def step (self : Browser) : Browse → Browser
  | .insert run =>
    if self.table.any (·.id = run.id) then self else { self with table := run :: self.table }
  | .remove id =>
    { self with table := self.table.filter (·.id ≠ id), removed := id :: self.removed }
  | .request limit =>
    if self.finished then self
    else
      match listRuns self.table ⟨limit, self.cursor⟩ with
      | .error _ => self
      | .ok listing =>
        { self with
          cursor := listing.nextCursor
          delivered := self.delivered ++ listing.runs
          pages := self.pages + 1
          first := some (self.first.getD self.table)
          removed := if self.first.isSome then self.removed else []
          finished := listing.nextCursor.isNone }

def run (table : List Run) (acts : List Browse) : Browser := acts.foldl step (start table)

end Browser

/-- Whether a run comes at a cursor or behind it. -/
def Remaining (cursor : Option RunCursor) (run : Run) : Prop :=
  ∀ place ∈ cursor, (RunCursor.of run).age ≤ place.age

/-- Runs in descending order of creation and identity, each page going on where the one before ended, full
unless it is the last and saying whether there are further ones, and in the end every run that was there all
the time. A reader who is not at the end got at least one run by each page. -/
structure Exact (browser : Browser) : Prop where
  descending : browser.delivered.Pairwise fun one other => (RunCursor.of other).age < (RunCursor.of one).age
  complete : browser.finished = true → ∀ first, browser.first = some first → ∀ run ∈ first,
    run.id ∉ browser.removed → run ∈ browser.delivered
  further : ∀ limit listing, listRuns browser.table ⟨limit, browser.cursor⟩ = .ok listing →
    (listing.nextCursor.isSome = true ↔
      ∃ run ∈ browser.table, Remaining browser.cursor run ∧ run ∉ listing.runs)
  continues : ∀ limit listing, listRuns browser.table ⟨limit, browser.cursor⟩ = .ok listing →
    ∀ shown ∈ listing.runs, shown ∈ browser.table ∧ Remaining browser.cursor shown ∧
      ∀ run ∈ browser.table, Remaining browser.cursor run → run ∉ listing.runs →
        (RunCursor.of run).age < (RunCursor.of shown).age
  refused : ∀ limit, listRuns browser.table ⟨limit, browser.cursor⟩ =
    .error (.invalidPageLimit limit maxRunPageLimit) ↔ limit = 0 ∨ maxRunPageLimit < limit
  full : ∀ limit listing, listRuns browser.table ⟨limit, browser.cursor⟩ = .ok listing →
    listing.runs.length ≤ limit ∧ (listing.nextCursor.isSome = true → listing.runs.length = limit)
  progress : browser.finished = false → browser.pages ≤ browser.delivered.length

/-- Runs of which no two were created in years before the year 0 that differ. -/
def OneYearBeforeZero (runs : List Run) : Prop :=
  ∀ one ∈ runs, ∀ other ∈ runs, yearOf one.lifecycle.createdAt < 0 → yearOf other.lifecycle.createdAt < 0 →
    yearOf one.lifecycle.createdAt = yearOf other.lifecycle.createdAt

/-- What the types of instants and identifiers promise. -/
def Typed (run : Run) : Prop := Representable run.lifecycle.createdAt ∧ run.id < 2 ^ 128

section Order

variable {runs table : List Run} {one other : Run} {cursor : Option RunCursor} {limit : ℕ}
  {listing : RunListing}

/-- Runs whose texts come in the order that they have. -/
structure Comparable (runs : List Run) : Prop where
  typed : ∀ run ∈ runs, Typed run
  oneYear : OneYearBeforeZero runs

theorem Comparable.lt (comparable : Comparable runs) (held : one ∈ runs) (held' : other ∈ runs)
    (before : (RunCursor.of one).age < (RunCursor.of other).age) :
    (RunCursor.of one).text < (RunCursor.of other).text := by
  have typed := comparable.typed one held
  have typed' := comparable.typed other held'
  rcases Prod.Lex.toLex_lt_toLex.mp before with earlier | ⟨same, lower⟩
  · refine Prod.Lex.toLex_lt_toLex.mpr (.inl (timestampText_lt typed.1 typed'.1 ?_ earlier))
    by_contra differs
    obtain ⟨negative, differs⟩ := not_or.mp differs
    have negative := not_le.mp negative
    have mono : yearOf one.lifecycle.createdAt ≤ yearOf other.lifecycle.createdAt := yearOf_mono earlier.le
    exact differs (comparable.oneYear one held other held' (mono.trans_lt negative) negative)
  · refine Prod.Lex.toLex_lt_toLex.mpr (.inr ⟨congrArg timestampText same, ?_⟩)
    exact formatId_lt typed'.2 lower

theorem Comparable.lt_iff (comparable : Comparable runs) (held : one ∈ runs) (held' : other ∈ runs) :
    (RunCursor.of one).text < (RunCursor.of other).text ↔
      (RunCursor.of one).age < (RunCursor.of other).age := by
  refine ⟨fun before => ?_, comparable.lt held held'⟩
  rcases lt_trichotomy (RunCursor.of one).age (RunCursor.of other).age with lower | same | higher
  · exact lower
  · obtain ⟨created, id⟩ := Prod.mk.inj (toLex_inj.mp same)
    have equal : RunCursor.of one = RunCursor.of other := congrArg₂ RunCursor.mk created id
    rw [equal] at before
    exact absurd before (lt_irrefl _)
  · exact absurd before (comparable.lt held' held higher).asymm

theorem Comparable.le_iff (comparable : Comparable runs) (held : one ∈ runs) (held' : other ∈ runs) :
    (RunCursor.of one).text ≤ (RunCursor.of other).text ↔
      (RunCursor.of one).age ≤ (RunCursor.of other).age := by
  rw [← not_lt, ← not_lt, comparable.lt_iff held' held]

/-- A page of the rows at a cursor or behind it. -/
structure Listed (table : List Run) (page : RunPage) (listing : RunListing) (rows : List Run) : Prop where
  descending : rows.Pairwise fun one other => (RunCursor.of other).age < (RunCursor.of one).age
  mem_iff : ∀ run, run ∈ rows ↔ run ∈ table ∧ Remaining page.cursor run
  positive : 0 < page.limit
  runs : listing.runs = rows.take page.limit
  nextCursor : listing.nextCursor = rows[page.limit]?.map RunCursor.of

theorem listRuns_listed (comparable : Comparable runs) (held : ∀ run ∈ table, run ∈ runs)
    (distinct : (table.map (·.id)).Nodup) (anchored : ∀ place ∈ cursor, ∃ run ∈ runs, place = RunCursor.of run)
    (listed : listRuns table ⟨limit, cursor⟩ = .ok listing) :
    ∃ rows, Listed table ⟨limit, cursor⟩ listing rows := by
  rw [listRuns] at listed
  split_ifs at listed with refused
  obtain ⟨positive, -⟩ := not_or.mp refused
  obtain rfl := Except.ok.inj listed
  have perm := List.perm_insertionSort Precedes (table.filter (atOrBehind cursor))
  have among : ∀ run, run ∈ (table.filter (atOrBehind cursor)).insertionSort Precedes →
      run ∈ runs := fun run member => held run (List.mem_filter.mp (perm.mem_iff.mp member)).1
  refine ⟨(table.filter (atOrBehind cursor)).insertionSort Precedes, ?_, fun run => ?_,
    Nat.pos_of_ne_zero positive, ?_, ?_⟩
  · have ids : ((table.filter (atOrBehind cursor)).insertionSort Precedes).Pairwise
        fun one other => one.id ≠ other.id := by
      have kept : ((table.filter (atOrBehind cursor)).map Run.id).Nodup :=
        distinct.sublist (List.filter_sublist.map _)
      have sorted := (perm.map Run.id).nodup_iff.mpr kept
      exact List.pairwise_map.mp sorted
    refine ((List.pairwise_insertionSort Precedes _).and ids).imp_of_mem
      fun {one other} first second both => ?_
    have le := (comparable.le_iff (among other second) (among one first)).mp both.1
    refine lt_of_le_of_ne le fun same => both.2 ?_
    exact (Prod.mk.inj (toLex_inj.mp same)).2.symm
  · rw [perm.mem_iff, List.mem_filter]
    refine and_congr_right fun member => ?_
    cases cursor with
    | none => exact iff_of_true rfl nofun
    | some place =>
      obtain ⟨anchor, held', rfl⟩ := anchored place rfl
      have compared : atOrBehind (some (RunCursor.of anchor)) run = true ↔
          (RunCursor.of run).text ≤ (RunCursor.of anchor).text := decide_eq_true_iff
      rw [compared, comparable.le_iff (held run member) held']
      exact ⟨fun le _ same => Option.some.inj same ▸ le, fun all => all _ rfl⟩
  · rw [List.take_take, min_eq_left (Nat.le_succ _)]
  · rw [List.getElem?_take_of_lt (Nat.lt_succ_self _)]

end Order

section Follow

variable {runs table rows : List Run} {browser : Browser} {limit : ℕ} {page : RunPage}
  {listing : RunListing} {run : Run}

/-- The first run that a page leaves out comes behind every one of the page, and ahead of the rest. -/
theorem Listed.next (listed : Listed table page listing rows) {place : RunCursor}
    (more : listing.nextCursor = some place) : ∃ anchor ∈ rows, place = RunCursor.of anchor ∧
      (∀ shown ∈ listing.runs, (RunCursor.of anchor).age < (RunCursor.of shown).age) ∧
      ∀ run ∈ rows, run ∈ listing.runs ∨ (RunCursor.of run).age ≤ (RunCursor.of anchor).age := by
  rw [listed.nextCursor, Option.map_eq_some_iff] at more
  obtain ⟨anchor, there, rfl⟩ := more
  obtain ⟨inside, here⟩ := List.getElem?_eq_some_iff.mp there
  have split : rows = rows.take page.limit ++ anchor :: rows.drop (page.limit + 1) := by
    rw [← here, ← List.drop_eq_getElem_cons inside, List.take_append_drop]
  have descending := listed.descending
  rw [split] at descending
  obtain ⟨-, behind, across⟩ := List.pairwise_append.mp descending
  refine ⟨anchor, List.mem_of_getElem? there, rfl, fun shown member => ?_, fun run member => ?_⟩
  · rw [listed.runs] at member
    exact across shown member anchor List.mem_cons_self
  · rw [split] at member
    rcases List.mem_append.mp member with shown | member
    · rw [listed.runs]
      exact .inl shown
    · rcases List.mem_cons.mp member with rfl | member
      · exact .inr le_rfl
      · exact .inr ((List.pairwise_cons.mp behind).1 run member).le

theorem listRuns_refused (table : List Run) (page : RunPage) :
    listRuns table page = .error (.invalidPageLimit page.limit maxRunPageLimit) ↔
      page.limit = 0 ∨ maxRunPageLimit < page.limit := by
  rw [listRuns]
  split_ifs with refused
  · exact iff_of_true rfl refused
  · exact iff_of_false nofun refused

/-- A page is full unless nothing is left behind it. -/
theorem Listed.full (listed : Listed table page listing rows) : listing.runs.length ≤ page.limit ∧
    (listing.nextCursor.isSome = true → listing.runs.length = page.limit) := by
  rw [listed.runs, List.length_take, listed.nextCursor, Option.isSome_map, isSome_getElem?]
  omega

theorem Listed.subset (listed : Listed table page listing rows) {shown : Run}
    (member : shown ∈ listing.runs) : shown ∈ rows := by
  rw [listed.runs] at member
  exact List.mem_of_mem_take member

/-- A page that leaves nothing over shows everything. -/
theorem Listed.whole (listed : Listed table page listing rows) (none_ : listing.nextCursor = none) :
    listing.runs = rows := by
  have short : rows.length ≤ page.limit := by
    rw [listed.nextCursor, Option.map_eq_none_iff, List.getElem?_eq_none_iff] at none_
    exact none_
  rw [listed.runs, List.take_of_length_le short]

/-- Where a reader stands in a store that only ever holds some runs. -/
structure Follows (runs : List Run) (browser : Browser) : Prop where
  held : ∀ run ∈ browser.table, run ∈ runs
  distinct : (browser.table.map Run.id).Nodup
  anchored : ∀ place ∈ browser.cursor, ∃ run ∈ runs, place = RunCursor.of run
  descending : browser.delivered.Pairwise fun one other => (RunCursor.of other).age < (RunCursor.of one).age
  ahead : ∀ place ∈ browser.cursor, ∀ run ∈ browser.delivered, place.age < (RunCursor.of run).age
  unread : browser.first = none → browser.delivered = [] ∧ browser.cursor = none ∧ browser.finished = false
  waiting : browser.first.isSome = true → browser.finished = false → browser.cursor.isSome = true
  kept : ∀ first, browser.first = some first → ∀ run ∈ first, run.id ∉ browser.removed →
    run ∈ browser.table ∧
      (run ∈ browser.delivered ∨ browser.finished = false ∧ Remaining browser.cursor run)
  progress : browser.finished = false → browser.pages ≤ browser.delivered.length

/-- A page goes on behind everything that was delivered before. -/
theorem Follows.older (follows : Follows runs browser) (open_ : browser.finished = false)
    (listed : Listed browser.table ⟨limit, browser.cursor⟩ listing rows) {shown : Run}
    (delivered : run ∈ browser.delivered) (among : shown ∈ rows) :
    (RunCursor.of shown).age < (RunCursor.of run).age := by
  have remaining := ((listed.mem_iff shown).mp among).2
  cases first : browser.first with
  | none =>
    rw [(follows.unread first).1] at delivered
    cases delivered
  | some runs =>
    obtain ⟨place, anchored⟩ := Option.isSome_iff_exists.mp (follows.waiting (by rw [first]; rfl) open_)
    exact (remaining place anchored).trans_lt (follows.ahead place anchored run delivered)

/-- A run that was there at the first page and stays is delivered, or it is still to come. -/
theorem Follows.standing (follows : Follows runs browser) (known : browser.first.getD browser.table = table)
    (member : run ∈ table)
    (stays : run.id ∉ if browser.first.isSome then browser.removed else []) :
    run ∈ browser.table ∧ (run ∈ browser.delivered ∨ Remaining browser.cursor run) := by
  cases begun : browser.first with
  | none =>
    rw [begun, Option.getD_none] at known
    obtain rfl := known
    refine ⟨member, .inr ?_⟩
    rw [(follows.unread begun).2.1]
    intro place anchored
    cases anchored
  | some earlier =>
    rw [begun, Option.getD_some] at known
    obtain rfl := known
    rw [begun] at stays
    obtain ⟨stored, delivered⟩ := follows.kept earlier begun run member stays
    exact ⟨stored, delivered.imp_right And.right⟩

theorem Follows.request (follows : Follows runs browser) (comparable : Comparable runs)
    (open_ : browser.finished = false)
    (listed : listRuns browser.table ⟨limit, browser.cursor⟩ = .ok listing) :
    Follows runs { browser with
      cursor := listing.nextCursor
      delivered := browser.delivered ++ listing.runs
      pages := browser.pages + 1
      first := some (browser.first.getD browser.table)
      removed := if browser.first.isSome then browser.removed else []
      finished := listing.nextCursor.isNone } := by
  obtain ⟨rows, page⟩ := listRuns_listed comparable follows.held follows.distinct follows.anchored listed
  refine ⟨follows.held, follows.distinct, fun place more => ?_, ?_, fun place more run member => ?_, nofun,
    fun _ unfinished => ?_, fun first known run member stays => ?_, fun unfinished => ?_⟩
  · obtain ⟨anchor, among, same, -⟩ := page.next more
    exact ⟨anchor, follows.held anchor ((page.mem_iff anchor).mp among).1, same⟩
  · refine List.pairwise_append.mpr ⟨follows.descending, ?_, fun run member shown among =>
      follows.older open_ page member (page.subset among)⟩
    rw [page.runs]
    exact page.descending.sublist (List.take_sublist _ _)
  · obtain ⟨anchor, among, rfl, shown, -⟩ := page.next more
    rcases List.mem_append.mp member with before | now
    · exact follows.older open_ page before among
    · exact shown run now
  · cases more : listing.nextCursor with
    | none =>
      rw [more] at unfinished
      cases unfinished
    | some place => rfl
  · obtain ⟨stored, delivered | remaining⟩ := follows.standing (Option.some.inj known) member stays
    · exact ⟨stored, .inl (List.mem_append_left _ delivered)⟩
    · refine ⟨stored, ?_⟩
      have among := (page.mem_iff run).mpr ⟨stored, remaining⟩
      cases more : listing.nextCursor with
      | none => exact .inl (List.mem_append_right _ (page.whole more ▸ among))
      | some place =>
        obtain ⟨anchor, -, rfl, -, rest⟩ := page.next more
        rcases rest run among with shown | behind
        · exact .inl (List.mem_append_right _ shown)
        · refine .inr ⟨rfl, ?_⟩
          rintro _ ⟨⟩
          exact behind
  · have filled := page.full.2 (by simpa using unfinished)
    have progress := follows.progress open_
    have positive : 0 < limit := page.positive
    simp only [List.length_append, filled]
    omega

theorem Follows.step (follows : Follows runs browser) (comparable : Comparable runs) (act : Browse)
    (held : ∀ run, act = .insert run → run ∈ runs) : Follows runs (browser.step act) := by
  cases act with
  | insert run =>
    rw [Browser.step]
    split_ifs with taken
    · exact follows
    · have new : run.id ∉ browser.table.map Run.id := by
        intro stored
        obtain ⟨other, member, same⟩ := List.mem_map.mp stored
        exact taken (List.any_eq_true.mpr ⟨other, member, decide_eq_true same⟩)
      refine { follows with
        held := List.forall_mem_cons.mpr ⟨held run rfl, follows.held⟩
        distinct := List.nodup_cons.mpr ⟨new, follows.distinct⟩
        kept := fun first known other member stays => ?_ }
      obtain ⟨stored, delivered⟩ := follows.kept first known other member stays
      exact ⟨List.mem_cons_of_mem _ stored, delivered⟩
  | remove id =>
    refine { follows with
      held := fun run member => follows.held run (List.mem_filter.mp member).1
      distinct := follows.distinct.sublist (List.filter_sublist.map _)
      kept := fun first known run member stays => ?_ }
    obtain ⟨differs, stays⟩ := not_or.mp (mt List.mem_cons.mpr stays)
    obtain ⟨stored, delivered⟩ := follows.kept first known run member stays
    exact ⟨List.mem_filter.mpr ⟨stored, decide_eq_true differs⟩, delivered⟩
  | request limit =>
    rw [Browser.step]
    by_cases finished : browser.finished = true
    · rw [if_pos finished]
      exact follows
    · rw [if_neg finished]
      cases listed : listRuns browser.table ⟨limit, browser.cursor⟩ with
      | error refused => exact follows
      | ok listing => exact follows.request comparable (by simpa using finished) listed

theorem Follows.exact (follows : Follows runs browser) (comparable : Comparable runs) : Exact browser := by
  refine ⟨follows.descending, fun finished first known run member stays => ?_, fun limit listing listed => ?_,
    fun limit listing listed shown member => ?_, fun limit => listRuns_refused _ ⟨limit, browser.cursor⟩,
    fun limit listing listed => ?_, follows.progress⟩
  · rcases (follows.kept first known run member stays).2 with delivered | ⟨unfinished, -⟩
    · exact delivered
    · rw [finished] at unfinished
      cases unfinished
  · obtain ⟨rows, page⟩ := listRuns_listed comparable follows.held follows.distinct follows.anchored listed
    constructor
    · intro more
      obtain ⟨place, more⟩ := Option.isSome_iff_exists.mp more
      obtain ⟨anchor, among, -, ahead, -⟩ := page.next more
      obtain ⟨stored, remaining⟩ := (page.mem_iff anchor).mp among
      exact ⟨anchor, stored, remaining, fun shown => lt_irrefl _ (ahead anchor shown)⟩
    · rintro ⟨run, stored, remaining, missing⟩
      by_contra none_
      have whole := page.whole (by simpa using none_)
      exact missing (whole ▸ (page.mem_iff run).mpr ⟨stored, remaining⟩)
  · obtain ⟨rows, page⟩ := listRuns_listed comparable follows.held follows.distinct follows.anchored listed
    obtain ⟨stored, remaining⟩ := (page.mem_iff shown).mp (page.subset member)
    refine ⟨stored, remaining, fun run stored remaining missing => ?_⟩
    have among := (page.mem_iff run).mpr ⟨stored, remaining⟩
    cases more : listing.nextCursor with
    | none => exact absurd (page.whole more ▸ among) missing
    | some place =>
      obtain ⟨anchor, -, -, ahead, rest⟩ := page.next more
      exact ((rest run among).resolve_left missing).trans_lt (ahead shown member)
  · obtain ⟨rows, page⟩ := listRuns_listed comparable follows.held follows.distinct follows.anchored listed
    exact page.full

end Follow

end Harkness.Runtime.Store
