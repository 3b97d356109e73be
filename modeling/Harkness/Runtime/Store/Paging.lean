import Harkness.Runtime.Store.Approval
import Harkness.Runtime.Store.EventLog

/-! # Following a run's log page by page

A session interleaves appends to any run with the requests of one reader, who follows the cursor of
each page to the next, in one direction and with any page size at each request. What the reader has
at the end is compared with the log at the first or the last request. Read from its newest end, the
log is bounded by the largest integer a column holds, exclusively.
-/

namespace Harkness.Runtime.Store

variable {π : Type} (codecs : Codecs) (payloads : PayloadCodec π) (runId : RunId)
  (order : EventOrder)

/-- An append by any writer, or the reader asking for the page after its cursor. -/
inductive Act (π : Type) where
  | append (runId : RunId) (event : RunEvent π) (contained : Bool)
  | request (limit : ℕ)

/-- The table and one reader. `history` lists the accepted appends and `pages` what it was at each
page read, the first page first. -/
structure Session (π : Type) where
  table : List EventRow
  history : List (RunId × RunEvent π)
  cursor : Option ℕ
  delivered : List (StoredEvent π)
  finished : Bool
  pages : List (List (RunId × RunEvent π))

namespace Session

def start : Session π := ⟨[], [], none, [], false, []⟩

def step (session : Session π) : Act π → Session π
  | .append other event contained =>
    match appendEvent codecs other event (payloads.serialize event.payload) contained
        session.table with
    | .ok (_, table) => { session with table, history := session.history ++ [(other, event)] }
    | .error _ => session
  | .request limit =>
    if session.finished then session
    else match eventPage codecs payloads runId ⟨limit, order, session.cursor⟩ session.table with
      | .ok listing => { session with
          cursor := listing.nextCursor
          delivered := session.delivered ++ listing.events
          finished := listing.nextCursor.isNone
          pages := session.pages ++ [session.history] }
      | .error _ => session

def run (acts : List (Act π)) : Session π :=
  acts.foldl (step codecs payloads runId order) start

theorem run_append (acts later : List (Act π)) :
    run codecs payloads runId order (acts ++ later) =
      later.foldl (step codecs payloads runId order) (run codecs payloads runId order acts) :=
  List.foldl_append

end Session

/-- What the types of an act's arguments promise. -/
def Act.Valid : Act π → Prop
  | .append runId event _ => runId < 2 ^ 128 ∧ event.Valid
  | .request _ => True

/-- An event past a page's boundary, in the page's direction. -/
def Past (page : EventPage) (event : StoredEvent π) : Prop :=
  match page.order, page.from_ with
  | _, none => True
  | .oldest, some seq => seq < event.seq
  | .newest, some seq => event.seq < seq

variable {codecs payloads runId order}

section Page

variable {history : List (RunId × RunEvent π)} {page : EventPage}

theorem seq_le_of_mem {event : StoredEvent π} (member : event ∈ log payloads runId history) :
    1 ≤ event.seq ∧ event.seq ≤ (log payloads runId history).length := by
  have seqs : event.seq ∈ (log payloads runId history).map StoredEvent.seq :=
    List.mem_map_of_mem member
  rw [log_seq, List.mem_range'_1] at seqs
  omega

/-- What is left past a boundary is the events past it, but for the last position of all when the
log is read backwards from there. -/
theorem mem_remaining (within : (log payloads runId history).length ≤ i64Max)
    {event : StoredEvent π} : event ∈ remaining page (log payloads runId history) ↔
      event ∈ log payloads runId history ∧ Past page event ∧
        (page.order = .newest → event.seq < boundary .newest page.from_) := by
  have numbered := log_numbered payloads runId history
  obtain ⟨limit, order, from_⟩ := page
  cases order with
  | oldest =>
    rw [remaining, ← numbered.filter_gt, List.mem_filter, decide_eq_true_eq]
    refine and_congr_right fun member => ?_
    have place := seq_le_of_mem member
    cases from_ with
    | none => simp only [boundary, Past, reduceCtorEq, false_implies, and_true, iff_true]; omega
    | some seq => simp only [boundary, Past, reduceCtorEq, false_implies, and_true]; omega
  | newest =>
    rw [remaining, List.mem_reverse, ← numbered.filter_lt, List.mem_filter, decide_eq_true_eq]
    refine and_congr_right fun member => ?_
    have place := seq_le_of_mem member
    cases from_ with
    | none => simp only [boundary, Past, true_and, forall_const]; omega
    | some seq => simp only [boundary, Past, forall_const]; omega

theorem remaining_nodup : (remaining page (log payloads runId history)).Nodup := by
  have distinct : (log payloads runId history).Nodup := by
    refine List.Nodup.of_map StoredEvent.seq ?_
    rw [log_seq]
    exact List.nodup_range'
  rw [remaining]
  split
  · exact distinct.sublist (List.drop_sublist _ _)
  · exact List.nodup_reverse.mpr (distinct.sublist (List.take_sublist _ _))

/-- A cursor is present exactly when an event past the boundary is not on the page. -/
theorem nextCursor_isSome_iff (within : (log payloads runId history).length ≤ i64Max)
    (positive : 0 < page.limit) (bounded : page.limit ≤ maxEventPageLimit) :
    (pageOf page (log payloads runId history)).nextCursor.isSome ↔
      ∃ event ∈ log payloads runId history, Past page event ∧
        event ∉ (pageOf page (log payloads runId history)).events := by
  have present : (pageOf page (log payloads runId history)).nextCursor.isSome ↔
      page.limit < (remaining page (log payloads runId history)).length := by
    simp only [pageOf]
    split_ifs with more
    · have filled : (remaining page (log payloads runId history)).take page.limit ≠ [] := by
        rw [← List.length_pos_iff, List.length_take]
        omega
      rw [List.getLast?_eq_some_getLast filled]
      exact iff_of_true rfl more
    · exact iff_of_false Bool.false_ne_true more
  rw [present]
  constructor
  · intro more
    obtain ⟨logged, past, _⟩ := (mem_remaining within).mp (List.getElem_mem more)
    refine ⟨_, logged, past, fun kept => ?_⟩
    obtain ⟨i, early, same⟩ := List.mem_take_iff_getElem.mp kept
    have place := (remaining_nodup.getElem_inj_iff).mp same
    omega
  · rintro ⟨event, logged, past, missed⟩
    by_contra few
    refine missed ?_
    change event ∈ (remaining page (log payloads runId history)).take page.limit
    rw [List.take_of_length_le (not_lt.mp few)]
    refine (mem_remaining within).mpr ⟨logged, past, fun newest => ?_⟩
    have place := seq_le_of_mem logged
    -- A boundary at the last position leaves more than any page holds.
    simp only [remaining, newest, List.length_reverse, List.length_take] at few
    simp only [maxEventPageLimit] at bounded
    cases from_ : page.from_ with
    | none =>
      simp only [from_, boundary, i64Max] at few within ⊢
      omega
    | some seq =>
      simp only [Past, newest, from_] at past
      simp only [from_, boundary, i64Max] at few within ⊢
      omega

/-- Reading on from what is left of a goal: the next part is added and the cursor, when there is
one, is the position reached. -/
theorem pageOf_of_drop {goal log : List (StoredEvent π)} {page : EventPage} {seen : ℕ}
    (positive : 0 < page.limit) (left : remaining page log = goal.drop seen) :
    goal.take seen ++ (pageOf page log).events = goal.take (seen + page.limit) ∧
      (pageOf page log).nextCursor = if seen + page.limit < goal.length
        then (goal[seen + page.limit - 1]?).map StoredEvent.seq else none := by
  constructor
  · rw [pageOf, left, List.take_add]
  · simp only [pageOf, left, List.length_drop]
    have same : page.limit < goal.length - seen ↔ seen + page.limit < goal.length := by omega
    simp only [same]
    split_ifs with more
    · rw [List.getLast?_eq_getElem?, List.length_take, List.length_drop,
        Nat.min_eq_left (by omega), List.getElem?_take_of_lt (by omega), List.getElem?_drop]
      congr 2
      omega
    · rfl

end Page

section Invariant

/-- The part of a log a reader from its newest end can be given. -/
def readable (log : List (StoredEvent π)) : List (StoredEvent π) :=
  (log.take (i64Max - 1)).reverse

/-- Where a reader who has not finished stands. -/
def Placed (payloads : PayloadCodec π) (runId : RunId) (session : Session π) : EventOrder → Prop
  | .oldest => session.delivered <+: log payloads runId session.history ∧
      boundary .oldest session.cursor = session.delivered.length
  | .newest =>
    (session.pages = [] → session.delivered = [] ∧ session.cursor = none) ∧
      ∀ first, session.pages.head? = some first →
        session.delivered <+: readable (log payloads runId first) ∧
        session.delivered.length < (readable (log payloads runId first)).length ∧
        session.cursor =
          some ((readable (log payloads runId first)).length - session.delivered.length + 1)

/-- What a reader who has finished was given. -/
def Given (payloads : PayloadCodec π) (runId : RunId) (session : Session π) : EventOrder → Prop
  | .oldest => ∃ last, session.pages.getLast? = some last ∧
      session.delivered = log payloads runId last
  | .newest => ∃ first, session.pages.head? = some first ∧
      session.delivered = readable (log payloads runId first)

structure Session.Sound (codecs : Codecs) (payloads : PayloadCodec π) (runId : RunId)
    (order : EventOrder) (session : Session π) : Prop where
  recorded : Recorded codecs payloads session.table session.history
  pages : ∀ seen ∈ session.pages, seen <+: session.history
  open_ : session.finished = false → Placed payloads runId session order ∧
    session.pages.length ≤ session.delivered.length
  closed : session.finished = true → Given payloads runId session order

theorem length_readable (log : List (StoredEvent π)) :
    (readable log).length = min (i64Max - 1) log.length := by
  rw [readable, List.length_reverse, List.length_take]

theorem log_extended {seen history : List (RunId × RunEvent π)} (earlier : seen <+: history) :
    log payloads runId seen <+: log payloads runId history := by
  obtain ⟨later, rfl⟩ := earlier
  exact log_append runId seen later

theorem start_sound : (Session.start : Session π).Sound codecs payloads runId order where
  recorded := recorded_nil
  pages := nofun
  open_ := by
    refine fun _ => ⟨?_, le_refl _⟩
    cases order with
    | oldest => exact ⟨List.nil_prefix, rfl⟩
    | newest => exact ⟨fun _ => ⟨rfl, rfl⟩, nofun⟩
  closed := nofun

/-- An append moves no reader. -/
theorem sound_append (lawful : codecs.Lawful) (promised : payloads.Lawful) {session : Session π}
    (sound : session.Sound codecs payloads runId order) {other : RunId} {event : RunEvent π}
    {contained : Bool} (small : other < 2 ^ 128) (valid : event.Valid) :
    (session.step codecs payloads runId order (.append other event contained)).Sound
      codecs payloads runId order := by
  simp only [Session.step]
  split
  · rename_i table appended
    have extended : session.history <+: session.history ++ [(other, event)] :=
      List.prefix_append _ _
    refine ⟨(sound.recorded.append lawful promised small valid appended).1,
      fun seen member => (sound.pages seen member).trans extended, fun unfinished => ?_,
      sound.closed⟩
    obtain ⟨placed, progress⟩ := sound.open_ unfinished
    refine ⟨?_, progress⟩
    cases order with
    | oldest => exact ⟨placed.1.trans (log_extended extended), placed.2⟩
    | newest => exact placed
  · exact sound

theorem readable_seq (history : List (RunId × RunEvent π)) {i : ℕ}
    (within : i < (readable (log payloads runId history)).length) :
    ((readable (log payloads runId history))[i]?).map StoredEvent.seq =
      some ((readable (log payloads runId history)).length - i) := by
  have short := length_readable (log payloads runId history)
  have place := log_numbered payloads runId history
    ((readable (log payloads runId history)).length - 1 - i) (by omega)
  rw [List.getElem?_eq_getElem within, Option.map_some]
  simp only [readable, List.getElem_reverse, List.getElem_take, List.length_reverse,
    List.length_take] at within place ⊢
  congr 1
  omega

/-- What the reader is on its way to: the log so far, or the readable part of the log it began
with. -/
def goal (payloads : PayloadCodec π) (runId : RunId) (session : Session π) :
    EventOrder → List (StoredEvent π)
  | .oldest => log payloads runId session.history
  | .newest => readable (log payloads runId (session.pages.head?.getD session.history))

/-- The next page of a reader who has not finished starts where it stands. -/
theorem remaining_of_placed {session : Session π}
    (sound : session.Sound codecs payloads runId order)
    (unfinished : session.finished = false) (limit : ℕ) :
    session.delivered = (goal payloads runId session order).take session.delivered.length ∧
      remaining ⟨limit, order, session.cursor⟩ (log payloads runId session.history) =
        (goal payloads runId session order).drop session.delivered.length := by
  obtain ⟨placed, _⟩ := sound.open_ unfinished
  cases order with
  | oldest =>
    obtain ⟨seen, reached⟩ := placed
    simp only [goal, remaining, reached]
    exact ⟨List.prefix_iff_eq_take.mp seen, trivial⟩
  | newest =>
    cases read : session.pages with
    | nil =>
      obtain ⟨none, begun⟩ := placed.1 read
      simp only [goal, read, remaining, begun, none, boundary, readable, List.length_nil,
        List.take_zero, List.drop_zero, true_and]
      rfl
    | cons first rest =>
      obtain ⟨seen, short, cursor⟩ := placed.2 first (by rw [read, List.head?_cons])
      have earlier : log payloads runId first <+: log payloads runId session.history :=
        log_extended (sound.pages first (read ▸ List.mem_cons_self))
      have size := length_readable (log payloads runId first)
      have target : goal payloads runId session .newest = readable (log payloads runId first) := by
        simp only [goal, read, List.head?_cons, Option.getD_some]
      rw [target]
      refine ⟨List.prefix_iff_eq_take.mp seen, ?_⟩
      have bound : boundary .newest session.cursor - 1 =
          (readable (log payloads runId first)).length - session.delivered.length := by
        simp only [cursor, boundary]
        omega
      simp only [remaining, bound]
      obtain ⟨later, same⟩ := earlier
      rw [← same, List.take_append_of_le_length (by omega), readable, List.drop_reverse,
        List.take_take]
      congr 2
      rw [List.length_reverse, List.length_take]
      omega

/-- A page request moves the reader on, or finishes it. -/
theorem sound_request {session : Session π} (sound : session.Sound codecs payloads runId order)
    (small : runId < 2 ^ 128) (limit : ℕ) :
    (session.step codecs payloads runId order (.request limit)).Sound
      codecs payloads runId order := by
  simp only [Session.step]
  by_cases done : session.finished = true
  · rwa [if_pos done]
  · rw [if_neg done]
    by_cases refused : limit = 0 ∨ maxEventPageLimit < limit
    · rwa [eventPage_refused refused]
    · have unfinished : session.finished = false := by simpa only [Bool.not_eq_true] using done
      have positive : 0 < limit := by omega
      obtain ⟨taken, left⟩ := remaining_of_placed sound unfinished limit
      obtain ⟨further, next⟩ := pageOf_of_drop positive left
      have size := (sound.recorded runId small).1
      rw [eventPage_of_recorded sound.recorded small positive (by dsimp only; omega)]
      rw [← taken] at further
      dsimp only at further next ⊢
      rw [next]
      have first : (session.pages ++ [session.history]).head? =
          some (session.pages.head?.getD session.history) := by
        cases session.pages <;> rfl
      refine ⟨sound.recorded, fun seen member => ?_, fun still => ?_, fun ended => ?_⟩
      · obtain earlier | last := List.mem_append.mp member
        · exact sound.pages seen earlier
        · exact List.mem_singleton.mp last ▸ List.prefix_refl _
      · have more : session.delivered.length + limit <
            (goal payloads runId session order).length := by
          by_contra few
          rw [if_neg few] at still
          cases still
        rw [if_pos more, further]
        have reached : ((goal payloads runId session order).take
            (session.delivered.length + limit)).length = session.delivered.length + limit := by
          rw [List.length_take]
          omega
        refine ⟨?_, ?_⟩
        · cases order with
          | oldest =>
            refine ⟨List.take_prefix _ _, ?_⟩
            have place := log_numbered payloads runId session.history
              (session.delivered.length + limit - 1) (by simp only [goal] at more; omega)
            rw [reached]
            simp only [goal] at more ⊢
            rw [List.getElem?_eq_getElem (by omega), Option.map_some, boundary]
            dsimp only at place ⊢
            omega
          | newest =>
            refine ⟨fun none => absurd none (List.append_ne_nil_of_right_ne_nil _ (by nofun)),
              fun start begun => ?_⟩
            obtain rfl := Option.some.inj (first.symm.trans begun)
            simp only [goal] at more reached ⊢
            refine ⟨List.take_prefix _ _, by rwa [reached], ?_⟩
            rw [reached, readable_seq _ (by omega)]
            congr 1
            omega
        · have progress := (sound.open_ unfinished).2
          dsimp only
          rw [List.length_append, List.length_singleton, reached]
          omega
      · have all : (goal payloads runId session order).length ≤
            session.delivered.length + limit := by
          by_contra few
          rw [if_pos (not_le.mp few), List.getElem?_eq_getElem (by omega)] at ended
          cases ended
        rw [further, List.take_of_length_le all]
        cases order with
        | oldest => exact ⟨_, List.getLast?_concat, rfl⟩
        | newest => exact ⟨_, first, rfl⟩

theorem sound_step (lawful : codecs.Lawful) (promised : payloads.Lawful) {session : Session π}
    (sound : session.Sound codecs payloads runId order) (small : runId < 2 ^ 128) {act : Act π}
    (valid : act.Valid) : (session.step codecs payloads runId order act).Sound
      codecs payloads runId order := by
  cases act with
  | append other event contained => exact sound_append lawful promised sound valid.1 valid.2
  | request limit => exact sound_request sound small limit

/-- Every session is sound, whatever the order of appends and requests. -/
theorem sound_run (lawful : codecs.Lawful) (promised : payloads.Lawful) (small : runId < 2 ^ 128)
    {acts : List (Act π)} (valid : ∀ act ∈ acts, act.Valid) :
    (Session.run codecs payloads runId order acts).Sound codecs payloads runId order := by
  induction acts using List.reverseRecOn with
  | nil => exact start_sound
  | append_singleton acts act ih =>
    rw [Session.run_append]
    refine sound_step lawful promised ?_ small (valid act (by simp only [List.mem_append,
      List.mem_singleton, or_true]))
    exact ih fun earlier member => valid earlier (List.mem_append_left _ member)

end Invariant

/-- The rows of every run read back as its accepted events in the order they were appended, with
the positions 1, 2, 3 and so on. -/
def InAppendOrder (codecs : Codecs) (payloads : PayloadCodec π) (session : Session π) : Prop :=
  ∀ other < 2 ^ 128, ∃ stored,
    (rowsOf codecs other session.table).mapM (storedEvent codecs payloads) = .ok stored ∧
    stored.map StoredEvent.seq = List.range' 1 stored.length ∧
    stored.map StoredEvent.event =
      (eventsOf other session.history).map (RunEvent.reread payloads)

/-- Every page that could be asked for now names a cursor exactly when an event of the run past its
boundary is not on it. -/
def CursorExact (codecs : Codecs) (payloads : PayloadCodec π) (runId : RunId)
    (session : Session π) : Prop :=
  ∀ page : EventPage, 0 < page.limit → page.limit ≤ maxEventPageLimit → ∃ listing,
    eventPage codecs payloads runId page session.table = .ok listing ∧
    (listing.nextCursor.isSome ↔ ∃ event ∈ log payloads runId session.history,
      Past page event ∧ event ∉ listing.events)

/-- The log as the reader is to have it: read forwards, all that was there at the last page; read
backwards, all that was there at the first page, the last event first. -/
def expected (payloads : PayloadCodec π) (runId : RunId) (session : Session π) :
    EventOrder → List (StoredEvent π)
  | .oldest => log payloads runId (session.pages.getLast?.getD [])
  | .newest => (log payloads runId (session.pages.head?.getD [])).reverse

theorem delivered_eq_expected_iff {session : Session π}
    (sound : session.Sound codecs payloads runId order) (finished : session.finished = true) :
    session.delivered = expected payloads runId session order ↔
      order = .oldest ∨ (log payloads runId (session.pages.head?.getD [])).length < i64Max := by
  have given := sound.closed finished
  cases order with
  | oldest =>
    obtain ⟨last, read, same⟩ := given
    simp only [expected, read, Option.getD_some, same, true_or]
  | newest =>
    obtain ⟨first, read, same⟩ := given
    simp only [expected, read, Option.getD_some, same, readable, List.reverse_inj,
      List.take_eq_self_iff, reduceCtorEq, false_or]
    have positive : 0 < i64Max := by decide
    omega

/-- A log leaves the last position free. `append_event` numbers a row by the rows that are stored, so a log
without a free position would hold as many rows as there are positions. -/
def Session.HasRoom (payloads : PayloadCodec π) (runId : RunId) (session : Session π) : Prop :=
  (log payloads runId session.history).length < i64Max

theorem length_log_le {seen history : List (RunId × RunEvent π)} (earlier : seen <+: history) :
    (log payloads runId seen).length ≤ (log payloads runId history).length :=
  (log_extended earlier).length_le

/-- In every interleaving of appends and requests the events of a run are numbered in append order, cursors
are exact, and a reader who finished was given the log it is to have. A reader who has not finished has been
given at least one event by each page, and a page size out of range is refused. -/
theorem event_pages (lawful : codecs.Lawful) (promised : payloads.Lawful)
    (small : runId < 2 ^ 128) {acts : List (Act π)} (valid : ∀ act ∈ acts, act.Valid)
    (room : (Session.run codecs payloads runId order acts).HasRoom payloads runId) :
    let session := Session.run codecs payloads runId order acts
    InAppendOrder codecs payloads session ∧ CursorExact codecs payloads runId session ∧
    (session.finished = true → session.delivered = expected payloads runId session order) ∧
    (session.finished = false → session.pages.length ≤ session.delivered.length ∧
      session.delivered <+: goal payloads runId session order) ∧
    ∀ page : EventPage, page.limit = 0 ∨ maxEventPageLimit < page.limit →
      eventPage codecs payloads runId page session.table =
        .error (.invalidPageLimit page.limit maxEventPageLimit) := by
  intro session
  have sound : session.Sound codecs payloads runId order := sound_run lawful promised small valid
  refine ⟨fun other bounded => ?_, fun page positive bounded => ?_, fun finished => ?_,
    fun unfinished => ?_, fun page refused => eventPage_refused refused⟩
  · exact ⟨log payloads other session.history, Except.mapM_eq_ok_of_forall₂
      ((sound.recorded other bounded).2.imp fun _ _ => And.left), log_seq other session.history,
      log_event other session.history⟩
  · exact ⟨_, eventPage_of_recorded sound.recorded small positive bounded,
      nextCursor_isSome_iff (sound.recorded runId small).1 positive bounded⟩
  · refine (delivered_eq_expected_iff sound finished).mpr (.inr ?_)
    cases read : session.pages.head? with
    | none => exact Nat.lt_of_le_of_lt (length_log_le List.nil_prefix) room
    | some first => exact (length_log_le (sound.pages first (List.mem_of_head? read))).trans_lt room
  · obtain ⟨taken, _⟩ := remaining_of_placed sound unfinished 1
    exact ⟨(sound.open_ unfinished).2, taken ▸ List.take_prefix _ _⟩

/-- Payloads that carry nothing, spelled `null`. -/
def samplePayloads : PayloadCodec Unit where
  serialize _ := "null"
  deserialize text := if text = "null" then .ok () else .error "expected value"

theorem samplePayloads_lawful : samplePayloads.Lawful :=
  fun _ => ⟨(), rfl⟩

/-- An event of the year 9999, which is the first that is looked for. -/
def sampleEvent : RunEvent Unit := ⟨.diagnostic, 253402214400 * 10 ^ 9, none, none, none, ()⟩

theorem sampleEvent_valid : sampleEvent.Valid where
  kind := rfl
  at_ := by decide
  stepId := nofun
  toolCallId := nofun
  artifactId := nofun

/-- Two appends, a page of one, an append to the run and one to another, and a page of five. -/
def sampleActs : List (Act Unit) :=
  [.append 1 sampleEvent true, .append 1 sampleEvent true, .request 1, .append 1 sampleEvent true,
    .append 2 sampleEvent true, .request 5]

theorem sampleActs_valid : ∀ act ∈ sampleActs, act.Valid := by
  simp only [sampleActs, List.forall_mem_cons, Act.Valid, sampleEvent_valid, and_true, true_and,
    List.not_mem_nil, false_implies, implies_true]
  decide

theorem event_pages_sample :
    let session := Session.run sampleCodecs samplePayloads 1 .newest sampleActs
    session.finished = true ∧ session.delivered = expected samplePayloads 1 session .newest := by
  have finished : (Session.run sampleCodecs samplePayloads 1 .newest sampleActs).finished = true := by
    decide
  have room : (Session.run sampleCodecs samplePayloads 1 .newest sampleActs).HasRoom samplePayloads 1 := by
    unfold Session.HasRoom
    decide
  exact ⟨finished, (event_pages sampleCodecs_lawful samplePayloads_lawful (by decide) sampleActs_valid
    room).2.2.1 finished⟩

end Harkness.Runtime.Store
