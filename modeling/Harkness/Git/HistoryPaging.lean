import Harkness.Git.History
import Mathlib.Data.List.Induction

/-! # Following a log from page to page

The commit graph is fixed: an id is that of its content. Each page may find other refs, other objects
still there and another walk, as long as the walk lists what it is asked for. A listing under way is
then continued by every page that is served.
-/

namespace Harkness.Git.History

open Ancestry

variable {Oid : Type}

/-- What a walk yields is a listing, broken off at its first failure. -/
def Yields : List (Except ErrorCode Oid) → List Oid → Prop
  | [], rest => rest = []
  | .ok id :: walk, rest => ∃ tail, rest = id :: tail ∧ Yields walk tail
  | .error _ :: _, _ => True

/-- The commits found are those of the graph, and a walk whose starts are there lists exactly what they
reach and the hidden commit does not, children before parents. -/
structure Repository.Lawful (parents : Oid → List Oid) (repository : Repository Oid) : Prop where
  findCommit : ∀ id commit, repository.findCommit id = .ok commit → commit.parentIds = parents id
  walk : ∀ revwalk, repository.revwalk = .ok revwalk → ∀ starts hidden,
    (∀ start ∈ starts, revwalk.push start = none) → (∀ id ∈ hidden, revwalk.hide id = none) →
      ∃ nodes, Listing parents starts hidden nodes ∧ Yields (revwalk.yields starts hidden) nodes

variable [DecidableEq Oid] {parents : Oid → List Oid} {repository : Repository Oid}
  {cancelled : ℕ → Bool} {starts frontier earlier : List Oid} {hidden anchor : Option Oid}
  {options : LogOptions Oid}

/-- The commits of the page continue the listing, and the walk yields what is left of it. -/
structure Filling.Sound (parents : Oid → List Oid) (starts : List Oid) (hidden : Option Oid)
    (earlier : List Oid) (filling : Filling Oid) : Prop where
  underway : Underway parents starts hidden (earlier ++ filling.commits.map (·.id)) filling.frontier
  rest : ∃ nodes, Listing parents filling.frontier hidden nodes ∧ Yields filling.walk nodes

/-- What taking a commit needs and does. -/
theorem Filling.take_eq_ok {filling next : Filling Oid} {cursor : Option Oid} {id : Oid}
    {walk : List (Except ErrorCode Oid)} :
    filling.take repository cursor id walk = .ok next ↔
      (∀ anchor ∈ filling.expectedAnchor, anchor = id) ∧
        ∃ commit, repository.findCommit id = .ok commit ∧
          ∃ frontier, advanceFrontier filling.frontier id commit = some frontier ∧
            next = ⟨walk, frontier, none, filling.commits ++ [commitInfo id commit],
              filling.looks + 1⟩ := by
  have anchored : expectAnchor filling.expectedAnchor id = .ok () ↔
      ∀ anchor ∈ filling.expectedAnchor, anchor = id := by
    cases filling.expectedAnchor with
    | none => simp [expectAnchor]
    | some anchor => by_cases same : anchor = id <;> simp [expectAnchor, same]
  simp only [Filling.take, Except.bind_eq_ok, Except.mapError_eq_ok]
  constructor
  · rintro ⟨⟨⟩, first, commit, found, rest⟩
    refine ⟨anchored.mp first, commit, found, ?_⟩
    cases moved : advanceFrontier filling.frontier id commit with
    | none => simp [moved] at rest
    | some frontier => exact ⟨frontier, rfl, by simpa [moved] using rest.symm⟩
  · rintro ⟨first, commit, found, frontier, moved, rfl⟩
    exact ⟨(), anchored.mpr first, commit, found, by rw [moved]⟩

theorem Filling.Sound.take (lawful : repository.Lawful parents) {filling next : Filling Oid}
    (sound : filling.Sound parents starts hidden earlier) {cursor : Option Oid} {id : Oid}
    {walk : List (Except ErrorCode Oid)} (ahead : filling.walk = .ok id :: walk)
    (taken : filling.take repository cursor id walk = .ok next) :
    next.Sound parents starts hidden earlier := by
  obtain ⟨-, commit, found, frontier, moved, rfl⟩ := take_eq_ok.1 taken
  obtain ⟨nodes, listing, yields⟩ := sound.rest
  rw [ahead] at yields
  obtain ⟨tail, rfl, yields⟩ := yields
  have advanced : frontier = advance parents filling.frontier id := by
    rw [advanceFrontier, if_pos listing.head_mem, lawful.findCommit id commit found] at moved
    exact (Option.some.inj moved).symm
  subst advanced
  refine ⟨?_, tail, listing.tail sound.underway.pending, yields⟩
  simpa [commitInfo] using sound.underway.step listing

/-- A turn of the loop stops at the end of the walk or takes a commit. -/
theorem Filling.fill_succ {cursor : Option Oid} {room : ℕ} {filling filled : Filling Oid}
    (success : fill repository cancelled cursor (room + 1) filling = .ok filled) :
    (filling.walk = [] ∧ filled = { filling with looks := filling.looks + 1 }) ∨
      ∃ id walk next, filling.walk = .ok id :: walk ∧
        filling.take repository cursor id walk = .ok next ∧
          fill repository cancelled cursor room next = .ok filled := by
  rw [fill, Except.bind_eq_ok] at success
  obtain ⟨-, -, success⟩ := success
  cases ahead : filling.walk with
  | nil =>
    rw [ahead] at success
    exact .inl ⟨rfl, (Except.ok.inj success).symm⟩
  | cons first walk =>
    rw [ahead] at success
    cases first with
    | error source => cases success
    | ok id =>
      obtain ⟨next, taken, success⟩ := Except.bind_eq_ok.mp success
      exact .inr ⟨id, walk, next, rfl, taken, success⟩

theorem Filling.Sound.fill (lawful : repository.Lawful parents) {cursor : Option Oid} {room : ℕ}
    {filling filled : Filling Oid} (sound : filling.Sound parents starts hidden earlier)
    (success : Filling.fill repository cancelled cursor room filling = .ok filled) :
    filled.Sound parents starts hidden earlier := by
  induction room generalizing filling with
  | zero =>
    obtain rfl := Except.ok.inj success
    exact sound
  | succ room ih =>
    obtain ⟨-, rfl⟩ | ⟨id, walk, next, ahead, taken, success⟩ := fill_succ success
    · exact ⟨sound.underway, sound.rest⟩
    · exact ih (sound.take lawful ahead taken) success

/-- The starts pushed are the frontier, in another order. -/
theorem mem_pushes {start : Oid} (anchored : ∀ id ∈ anchor, id ∈ frontier) :
    start ∈ pushes frontier anchor ↔ start ∈ frontier := by
  rw [pushes, List.mem_append, List.mem_filter, List.mem_reverse, Option.mem_toList]
  constructor
  · rintro (⟨member, -⟩ | last)
    · exact member
    · exact anchored start last
  · intro member
    by_cases last : some start = anchor
    · exact .inr last.symm
    · exact .inl ⟨member, by simpa using last⟩

theorem reachedFrom_pushes (anchored : ∀ id ∈ anchor, id ∈ frontier) {node : Oid} :
    ReachedFrom parents (pushes frontier anchor) node ↔ ReachedFrom parents frontier node := by
  simp only [ReachedFrom, mem_pushes anchored]

/-- A walk that starts lists what the frontier reaches. -/
theorem Revwalk.start_sound (lawful : repository.Lawful parents) {revwalk : Revwalk Oid}
    (answered : repository.revwalk = .ok revwalk) (anchored : ∀ id ∈ anchor, id ∈ frontier)
    {walk : List (Except ErrorCode Oid)} (started : revwalk.start frontier anchor hidden = .ok walk) :
    ∃ nodes, Listing parents frontier hidden nodes ∧ Yields walk nodes := by
  rw [Revwalk.start] at started
  cases failed : ((pushes frontier anchor).findSome? revwalk.push).or
      (hidden.bind revwalk.hide) with
  | some source => simp [failed] at started
  | none =>
    rw [failed] at started
    obtain rfl := Except.ok.inj started
    obtain ⟨pushed, hid⟩ := Option.or_eq_none_iff.mp failed
    have each : ∀ start ∈ pushes frontier anchor, revwalk.push start = none := by
      simpa using pushed
    have covered : ∀ id ∈ hidden, revwalk.hide id = none := by
      rintro id rfl
      exact hid
    obtain ⟨nodes, listing, yields⟩ := lawful.walk revwalk answered _ hidden each covered
    refine ⟨nodes, ⟨listing.nodup, fun node => ?_, listing.childrenFirst⟩, yields⟩
    rw [listing.mem_iff node, Within, Within, reachedFrom_pushes anchored]

/-- A page served: what it holds of the listing, and where the rest of it continues. -/
def LogPage.Continues (parents : Oid → List Oid) (starts : List Oid) (hidden : Option Oid)
    (range : LogRange) (earlier : List Oid) (page : LogPage Oid) : Prop :=
  match page.nextCursor with
  | none => Listing parents starts hidden (earlier ++ page.commits.map (·.id))
  | some cursor => cursor.hidden = hidden ∧ cursor.range = range ∧
    Underway parents starts hidden (earlier ++ page.commits.map (·.id)) cursor.frontier ∧
      ∃ rest, Listing parents cursor.frontier hidden (cursor.anchor :: rest)

/-- The steps of a page that is served. -/
theorem logFrom_eq_ok {page : LogPage Oid}
    (served : logFrom repository cancelled options frontier hidden anchor = .ok page) :
    ∃ revwalk, repository.revwalk = .ok revwalk ∧
      ∃ walk, revwalk.start frontier anchor hidden = .ok walk ∧
        ∃ filled, Filling.fill repository cancelled anchor options.limit
            ⟨walk, frontier, anchor, [], 1⟩ = .ok filled ∧
          page.commits = filled.commits ∧
            ((filled.walk = [] ∧ page.nextCursor = none) ∨
              ∃ next walk, filled.walk = .ok next :: walk ∧
                page.nextCursor = some ⟨next, filled.frontier, hidden, options.range⟩) := by
  simp only [logFrom, Except.bind_eq_ok, Except.mapError_eq_ok] at served
  obtain ⟨revwalk, answered, walk, started, filled, success, served⟩ := served
  refine ⟨revwalk, answered, walk, started, filled, success, ?_⟩
  cases expected : filled.expectedAnchor with
  | some anchor => simp [expected] at served
  | none =>
    simp only [expected, Except.bind_eq_ok] at served
    obtain ⟨-, -, served⟩ := served
    cases ahead : filled.walk with
    | nil =>
      rw [ahead] at served
      obtain rfl := Except.ok.inj served
      exact ⟨rfl, .inl ⟨rfl, rfl⟩⟩
    | cons first walk =>
      rw [ahead] at served
      cases first with
      | error source => cases served
      | ok next =>
        obtain rfl := Except.ok.inj served
        exact ⟨rfl, .inr ⟨next, walk, rfl, rfl⟩⟩

theorem logFrom_continues (lawful : repository.Lawful parents)
    (underway : Underway parents starts hidden earlier frontier)
    (anchored : ∀ id ∈ anchor, id ∈ frontier) {page : LogPage Oid}
    (served : logFrom repository cancelled options frontier hidden anchor = .ok page) :
    page.Continues parents starts hidden options.range earlier := by
  obtain ⟨revwalk, answered, walk, started, filled, success, commits, next⟩ := logFrom_eq_ok served
  have begun : Filling.Sound parents starts hidden earlier ⟨walk, frontier, anchor, [], 1⟩ :=
    ⟨by simpa using underway, revwalk.start_sound lawful answered anchored started⟩
  have sound := begun.fill lawful success
  obtain ⟨nodes, listing, yields⟩ := sound.rest
  obtain ⟨over_, none_⟩ | ⟨id, walk, ahead, some_⟩ := next
  · rw [over_] at yields
    obtain rfl : nodes = [] := yields
    rw [LogPage.Continues, none_, commits]
    exact sound.underway.listing listing
  · rw [ahead] at yields
    obtain ⟨rest, rfl, -⟩ := yields
    rw [LogPage.Continues, some_, commits]
    exact ⟨rfl, rfl, sound.underway, rest, listing⟩

/-- One request for a page. -/
structure Visit (Oid : Type) where
  opened : Except ErrorCode (Repository Oid)
  cancelled : ℕ → Bool
  limit : ℕ
  /-- Whether the continuation was serialized in between. -/
  serialized : Bool

/-- What a caller has: the range the first page resolved, the continuation and the commits. -/
inductive Paging (Oid : Type) where
  | fresh
  | reading (range : Option (ResolvedRange Oid)) (cursor : LogCursor Oid)
      (listed : List (CommitInfo Oid))
  | done (range : Option (ResolvedRange Oid)) (listed : List (CommitInfo Oid))
  | refused

/-- The range a first page starts from. -/
def Visit.resolved (visit : Visit Oid) (range : LogRange) : Option (ResolvedRange Oid) :=
  match openRepository visit.opened with
  | .error _ => none
  | .ok repository =>
    match repository.resolveRange range with
    | .error _ => none
    | .ok resolved => resolved

/-- A failure other than a refused cursor leaves the caller where it was. -/
def Paging.answer (before : Paging Oid) (range : Option (ResolvedRange Oid))
    (listed : List (CommitInfo Oid)) : Except (GitError Oid) (LogPage Oid) → Paging Oid
  | .ok ⟨commits, none⟩ => .done range (listed ++ commits)
  | .ok ⟨commits, some cursor⟩ => .reading range cursor (listed ++ commits)
  | .error (.invalidLogCursor _) => .refused
  | .error _ => before

def Visit.carry (visit : Visit Oid) (text : OidText Oid) (cursor : LogCursor Oid) :
    Except WireError (LogCursor Oid) :=
  if visit.serialized then text.deserialize (text.serialize cursor) else .ok cursor

def Paging.visit (text : OidText Oid) (range : LogRange) (paging : Paging Oid) (visit : Visit Oid) :
    Paging Oid :=
  match paging with
  | .fresh => Paging.answer .fresh (visit.resolved range) []
      (log visit.opened visit.cancelled ⟨range, visit.limit, none⟩)
  | .reading resolved cursor listed =>
    match visit.carry text cursor with
    | .error _ => .reading resolved cursor listed
    | .ok carried => Paging.answer (.reading resolved cursor listed) resolved listed
        (log visit.opened visit.cancelled ⟨range, visit.limit, some carried⟩)
  | .done resolved listed => .done resolved listed
  | .refused => .refused

def follow (text : OidText Oid) (range : LogRange) (visits : List (Visit Oid)) : Paging Oid :=
  visits.foldl (Paging.visit text range) .fresh

/-- What holds of a caller at any time. -/
def Paging.Sound (parents : Oid → List Oid) (range : LogRange) : Paging Oid → Prop
  | .fresh | .refused => True
  | .reading none _ _ => False
  | .reading (some resolved) cursor listed => cursor.hidden = resolved.hidden ∧ cursor.range = range ∧
    Underway parents [resolved.start] resolved.hidden (listed.map (·.id)) cursor.frontier ∧
      ∃ rest, Listing parents cursor.frontier resolved.hidden (cursor.anchor :: rest)
  | .done none listed => listed = []
  | .done (some resolved) listed =>
    Listing parents [resolved.start] resolved.hidden (listed.map (·.id))

def Visit.Lawful (parents : Oid → List Oid) (visit : Visit Oid) : Prop :=
  ∀ repository, visit.opened = .ok repository → repository.Lawful parents

omit [DecidableEq Oid] in
theorem openRepository_eq_ok {opened : Except ErrorCode (Repository Oid)} :
    openRepository opened = .ok repository ↔ opened = .ok repository ∧ repository.hasWorkdir := by
  rcases opened with code | found
  · cases code <;> simp [openRepository]
  · rw [openRepository]
    split_ifs with there
    · constructor
      · rintro ⟨⟩
        exact ⟨rfl, there⟩
      · rintro ⟨⟨⟩, -⟩
        rfl
    · constructor
      · rintro ⟨⟩
      · rintro ⟨⟨⟩, has⟩
        exact absurd has there

omit [DecidableEq Oid] in
/-- What a served page continues keeps the caller sound. -/
theorem Paging.sound_answer {resolved : ResolvedRange Oid} {range : LogRange}
    {listed : List (CommitInfo Oid)} {before : Paging Oid} (kept : before.Sound parents range)
    {answer : Except (GitError Oid) (LogPage Oid)}
    (continues : ∀ page, answer = .ok page → page.Continues parents [resolved.start] resolved.hidden
      range (listed.map (·.id))) :
    (before.answer (some resolved) listed answer).Sound parents range := by
  rcases answer with error | ⟨commits, _ | cursor⟩
  · cases error <;> first | exact kept | trivial
  · have whole := continues _ rfl
    simpa [Paging.answer, Paging.Sound, LogPage.Continues] using whole
  · obtain ⟨same, here, underway, rest⟩ := continues _ rfl
    exact ⟨same, here, by simpa using underway, rest⟩

/-- The steps of a page served from a continuation. -/
theorem log_cursor_eq_ok {opened : Except ErrorCode (Repository Oid)} {cursor : LogCursor Oid}
    (given : options.cursor = some cursor) {page : LogPage Oid}
    (served : log opened cancelled options = .ok page) :
    options.limit ≠ 0 ∧ cursor.anchor ∈ cursor.frontier ∧ ∃ repository, opened = .ok repository ∧
      logFrom repository cancelled options cursor.frontier cursor.hidden (some cursor.anchor)
        = .ok page := by
  rw [log, Except.ite_error_eq_ok, given] at served
  simp only [Except.bind_eq_ok, openRepository_eq_ok] at served
  obtain ⟨limit, -, -, repository, ⟨there, -⟩, served⟩ := served
  split_ifs at served with accepted
  exact ⟨limit, accepted.2.2, repository, there, served⟩

/-- A page served without a continuation is of the range resolved, or of an unborn head. -/
theorem log_first_eq_ok {opened : Except ErrorCode (Repository Oid)} (given : options.cursor = none)
    {page : LogPage Oid} (served : log opened cancelled options = .ok page) :
    options.limit ≠ 0 ∧ ∃ repository, openRepository opened = .ok repository ∧
      ((repository.resolveRange options.range = .ok none ∧ page = ⟨[], none⟩) ∨
        ∃ resolved, repository.resolveRange options.range = .ok (some resolved) ∧
          logFrom repository cancelled options [resolved.start] resolved.hidden none = .ok page) := by
  rw [log, Except.ite_error_eq_ok, given] at served
  simp only [Except.bind_eq_ok] at served
  obtain ⟨limit, -, -, repository, there, range, resolves, served⟩ := served
  refine ⟨limit, repository, there, ?_⟩
  cases range with
  | none => exact .inl ⟨resolves, (Except.ok.inj served).symm⟩
  | some resolved => exact .inr ⟨resolved, resolves, served⟩

theorem Paging.Sound.visit {text : OidText Oid} {range : LogRange} {paging : Paging Oid}
    (sound : paging.Sound parents range) {visit : Visit Oid} (lawful : visit.Lawful parents) :
    (paging.visit text range visit).Sound parents range := by
  cases paging with
  | fresh =>
    rw [Paging.visit]
    cases answer : log visit.opened visit.cancelled ⟨range, visit.limit, none⟩ with
    | error error => cases error <;> trivial
    | ok page =>
      obtain ⟨-, repository, there, first⟩ := log_first_eq_ok rfl answer
      have found := (openRepository_eq_ok.mp there).1
      obtain ⟨resolves, rfl⟩ | ⟨resolved, resolves, served⟩ := first
      · simp [Visit.resolved, there, resolves, Paging.answer, Paging.Sound]
      · have known : visit.resolved range = some resolved := by
          simp only [Visit.resolved, there, resolves]
        rw [known]
        have blank : Paging.fresh.Sound parents range := trivial
        refine Paging.sound_answer blank ?_
        rintro _ ⟨⟩
        exact logFrom_continues (lawful repository found) (.begin_ _ _) (by simp) served
  | reading resolved cursor listed =>
    cases resolved with
    | none => exact sound.elim
    | some resolved =>
      have carried : visit.carry text cursor = .ok cursor := by
        rw [Visit.carry, OidText.deserialize_serialize, ite_self]
      simp only [Paging.visit, carried]
      apply Paging.sound_answer sound
      intro page answer
      obtain ⟨hidden, here, underway, -⟩ := sound
      obtain ⟨-, anchored, repository, there, served⟩ := log_cursor_eq_ok rfl answer
      rw [hidden] at served
      refine logFrom_continues (lawful repository there) underway ?_ served
      rintro _ ⟨⟩
      exact anchored
  | done resolved listed => exact sound
  | refused => exact sound

/-- A page that fails only as a refused cursor. -/
def Refuses {α : Type} (answer : Except (GitError Oid) α) : Prop :=
  ∀ error, answer = .error error → ∃ cursor, error = .invalidLogCursor cursor

omit [DecidableEq Oid] in
theorem Refuses.ok {α : Type} (value : α) : Refuses (.ok value : Except (GitError Oid) α) := nofun

omit [DecidableEq Oid] in
theorem Refuses.invalid {α : Type} (cursor : Oid) :
    Refuses (α := α) (.error (.invalidLogCursor cursor)) := by
  rintro _ ⟨⟩
  exact ⟨cursor, rfl⟩

omit [DecidableEq Oid] in
theorem Refuses.missing {α : Type} (cursor : Oid) {code : ErrorCode} (missing : code = .notFound) :
    Refuses (α := α) (.error (cursorOrInspection (some cursor) code)) := by
  subst missing
  exact .invalid cursor

omit [DecidableEq Oid] in
theorem Refuses.bind {α β : Type} {first : Except (GitError Oid) α} {rest : α → Except (GitError Oid) β}
    (refuses : Refuses first) (more : ∀ value, first = .ok value → Refuses (rest value)) :
    Refuses (first >>= rest) := by
  cases first with
  | error error =>
    rintro _ ⟨⟩
    exact refuses error rfl
  | ok value => exact more value rfl

/-- A repository that answers, if only that an object is missing. -/
structure Repository.Answers (repository : Repository Oid) : Prop where
  findCommit : ∀ id code, repository.findCommit id = .error code → code = .notFound
  revwalk : ∃ revwalk, repository.revwalk = .ok revwalk ∧
    (∀ id code, revwalk.push id = some code → code = .notFound) ∧
      (∀ id code, revwalk.hide id = some code → code = .notFound) ∧
        ∀ starts hidden code, .error code ∈ revwalk.yields starts hidden → code = .notFound

/-- A request for at least one commit that is not cancelled and finds a repository that answers. -/
structure Visit.Calm (visit : Visit Oid) : Prop where
  limit : visit.limit ≠ 0
  cancelled : ∀ look, visit.cancelled look = false
  answers : ∃ repository, openRepository visit.opened = .ok repository ∧ repository.Answers

/-- Ids spelled by their length. -/
def sampleText : OidText ℕ where
  spell id := String.ofList (List.replicate id 'a')
  fromStr text := some text.length
  fromStr_spell id := by simp

def sampleSignature : CommitSignature := ⟨[], [], ⟨0, 0, '+'⟩⟩

/-- Whether a commit is within the bounds of a walk, where each commit merges all before it. -/
def sampleWithin (starts : List ℕ) (hidden : Option ℕ) (id : ℕ) : Bool :=
  starts.any (id ≤ ·) && hidden.all (· < id)

def sampleRepository (head : ℕ) : Repository ℕ where
  hasWorkdir := true
  revparseSingle _ := .ok head
  peelToCommit id := .ok id
  headFailure := none
  mergeBase one two := .ok (min one two)
  findCommit id := .ok ⟨List.range id, sampleSignature, sampleSignature, []⟩
  revwalk := .ok ⟨fun _ => none, fun _ => none, fun starts hidden =>
    ((List.range (starts.foldr max 0 + 1)).reverse.filter (sampleWithin starts hidden)).map .ok⟩

theorem reaches_range {upper lower : ℕ} : Reaches List.range upper lower ↔ lower ≤ upper := by
  constructor
  · intro path
    induction path with
    | refl => exact Nat.le_refl _
    | tail _ edge ih =>
      have less := List.mem_range.mp edge
      omega
  · intro below
    rcases Nat.eq_or_lt_of_le below with rfl | less
    · exact .refl
    · exact .parent (List.mem_range.mpr less)

theorem sampleRepository_lawful (head : ℕ) : (sampleRepository head).Lawful List.range := by
  refine ⟨by rintro id _ ⟨⟩; rfl, ?_⟩
  rintro _ ⟨⟩ starts hidden - -
  have yields : ∀ ids : List ℕ, Yields (ids.map .ok) ids := by
    intro ids
    induction ids with
    | nil => rfl
    | cons id ids ih => exact ⟨ids, rfl, ih⟩
  refine ⟨_, ⟨?_, fun id => ?_, ?_⟩, yields _⟩
  · exact (List.nodup_reverse.mpr List.nodup_range).filter _
  · have bounded : ∀ start ∈ starts, start ≤ starts.foldr max 0 := by
      induction starts with
      | nil => simp
      | cons first starts ih => grind
    simp only [List.mem_filter, List.mem_reverse, List.mem_range, sampleWithin, Within, ReachedFrom,
      reaches_range, Bool.and_eq_true, List.any_eq_true, decide_eq_true_eq]
    constructor
    · rintro ⟨-, reached, above⟩
      refine ⟨reached, ?_⟩
      cases hidden <;> simp_all
    · rintro ⟨⟨start, member, below⟩, above⟩
      refine ⟨?_, ⟨start, member, below⟩, ?_⟩
      · have := bounded start member
        omega
      · cases hidden <;> simp_all
  · constructor
    · apply List.Pairwise.filter
      rw [List.pairwise_reverse]
      exact List.pairwise_lt_range.imp fun less => by simp [Nat.le_of_lt less]
    · simp

end Harkness.Git.History
