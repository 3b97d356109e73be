import Harkness.Runtime.Store.Event

/-! # The log a table holds

The events accepted so far, one list over all runs, are what the table of rows stands for: the rows
of a run read back as its events, numbered from one in the order they were appended. An append that
succeeds extends that list by its event and every page is a piece of the log it is read from.
-/

namespace Harkness.Runtime.Store

open DateTime Domain Domain.Record

variable {π : Type} {codecs : Codecs} {payloads : PayloadCodec π}

/-- The payload a written one reads back as. -/
def PayloadCodec.reread (payloads : PayloadCodec π) (payload : π) : π :=
  match payloads.deserialize (payloads.serialize payload) with
  | .ok back => back
  | .error _ => payload

/-- What the types of an event's fields promise: a kind is one that parsing gives, an instant has a
date and an identifier is 128 bits wide. -/
structure RunEvent.Valid (event : RunEvent π) : Prop where
  kind : EventKind.parse event.kind.asStr = event.kind
  at_ : Representable event.at_
  stepId : ∀ id, event.stepId = some id → id < 2 ^ 128
  toolCallId : ∀ id, event.toolCallId = some id → id < 2 ^ 128
  artifactId : ∀ id, event.artifactId = some id → id < 2 ^ 128

def RunEvent.reread (payloads : PayloadCodec π) (event : RunEvent π) : RunEvent π :=
  { event with payload := payloads.reread event.payload }

/-- The events of one run, in the order they were appended. -/
def eventsOf (runId : RunId) (history : List (RunId × RunEvent π)) : List (RunEvent π) :=
  (history.filter fun entry => entry.1 = runId).map Prod.snd

/-- The log of one run: its events as they read back, numbered from one. -/
def log (payloads : PayloadCodec π) (runId : RunId) (history : List (RunId × RunEvent π)) :
    List (StoredEvent π) :=
  (eventsOf runId history).mapIdx fun i event => ⟨runId, i + 1, event.reread payloads⟩

/-- The table stands for the history: the rows of each run read back as its log. -/
def Recorded (codecs : Codecs) (payloads : PayloadCodec π) (table : List EventRow)
    (history : List (RunId × RunEvent π)) : Prop :=
  ∀ runId < 2 ^ 128, (log payloads runId history).length ≤ i64Max ∧
    List.Forall₂ (fun row event => storedEvent codecs payloads row = .ok event ∧
      row.seq = event.seq) (rowsOf codecs runId table) (log payloads runId history)

@[simp] theorem length_log (runId : RunId) (history : List (RunId × RunEvent π)) :
    (log payloads runId history).length = (eventsOf runId history).length := by
  rw [log, List.length_mapIdx]

theorem log_seq (runId : RunId) (history : List (RunId × RunEvent π)) :
    (log payloads runId history).map StoredEvent.seq =
      List.range' 1 (log payloads runId history).length := by
  refine List.ext_getElem (by simp only [List.length_map, List.length_range']) ?_
  intro i _ _
  simp only [log, List.getElem_map, List.getElem_mapIdx, List.getElem_range']
  omega

theorem log_event (runId : RunId) (history : List (RunId × RunEvent π)) :
    (log payloads runId history).map StoredEvent.event =
      (eventsOf runId history).map (RunEvent.reread payloads) := by
  refine List.ext_getElem (by simp only [List.length_map, length_log]) ?_
  intro i _ _
  simp only [log, List.getElem_map, List.getElem_mapIdx]

theorem log_append (runId : RunId) (history later : List (RunId × RunEvent π)) :
    log payloads runId history <+: log payloads runId (history ++ later) := by
  rw [log, log, eventsOf, eventsOf, List.filter_append, List.map_append, List.mapIdx_append]
  exact List.prefix_append _ _

theorem eventsOf_concat (runId other : RunId) (event : RunEvent π)
    (history : List (RunId × RunEvent π)) :
    eventsOf runId (history ++ [(other, event)]) =
      eventsOf runId history ++ if other = runId then [event] else [] := by
  rw [eventsOf, eventsOf, List.filter_append, List.map_append]
  split_ifs with same
  · rw [List.filter_singleton, decide_eq_true same]
    rfl
  · rw [List.filter_singleton, decide_eq_false same]
    rfl

theorem log_concat_self (runId : RunId) (event : RunEvent π)
    (history : List (RunId × RunEvent π)) :
    log payloads runId (history ++ [(runId, event)]) = log payloads runId history ++
      [⟨runId, (log payloads runId history).length + 1, event.reread payloads⟩] := by
  rw [log, eventsOf_concat, if_pos rfl, List.mapIdx_concat, length_log]
  rfl

theorem log_concat_other {runId other : RunId} (different : other ≠ runId) (event : RunEvent π)
    (history : List (RunId × RunEvent π)) :
    log payloads runId (history ++ [(other, event)]) = log payloads runId history := by
  rw [log, eventsOf_concat, if_neg different, List.append_nil]
  rfl

theorem log_numbered (payloads : PayloadCodec π) (runId : RunId)
    (history : List (RunId × RunEvent π)) :
    List.Numbered (fun event : StoredEvent π => (event.seq : ℤ)) (log payloads runId history) := by
  intro i within
  simp only [log, List.getElem_mapIdx]
  omega

section Append

/-- The row an event is written as, given the texts of its instant. -/
def rowOf (codecs : Codecs) (payloads : PayloadCodec π) (runId : RunId) (event : RunEvent π)
    (seq : ℕ) (at_ : String) : EventRow where
  schemaVersion := runtimeRecordSchemaVersion
  runId := codecs.formatId runId
  seq := seq
  at_ := at_
  kind := event.kind.asStr
  stepId := event.stepId.map codecs.formatId
  toolCallId := event.toolCallId.map codecs.formatId
  artifactId := event.artifactId.map codecs.formatId
  payloadJson := payloads.serialize event.payload

/-- What an append that succeeds has checked and written. -/
theorem appendEvent_eq_ok {runId : RunId} {event : RunEvent π} {contained : Bool}
    {table next : List EventRow} {seq : ℕ} :
    appendEvent codecs runId event (payloads.serialize event.payload) contained table =
        .ok (seq, next) ↔
      (payloads.serialize event.payload).utf8ByteSize ≤ maxInlinePayloadBytes ∧
        nextSequence codecs runId table = .ok seq ∧ seq ≤ i64Max ∧
        event.kind.asStr.utf8ByteSize ≤ maxInlinePayloadBytes ∧ contained = true ∧
        ∃ at_, encodeTimestamp codecs runEvent "at" event.at_ = .ok at_ ∧
          next = table ++ [rowOf codecs payloads runId event seq at_] := by
  simp only [appendEvent, Except.bind_eq_ok, Except.ite_error_eq_ok]
  constructor
  · rintro ⟨⟨⟩, fits, sequence, found, small, at_, encoded, kind, spelled, appended⟩
    split at appended
    · rename_i contained
      cases appended
      obtain ⟨short, rfl⟩ := encodeText_eq_ok.mp spelled
      exact ⟨withinInlineLimit_eq_ok.mp fits, found, not_lt.mp small, short, contained, at_, encoded,
        rfl⟩
    · cases appended
  · rintro ⟨fits, found, small, short, rfl, at_, encoded, rfl⟩
    exact ⟨(), withinInlineLimit_eq_ok.mpr fits, seq, found, not_lt.mpr small, at_, encoded, _,
      encodeText_eq_ok.mpr ⟨short, rfl⟩, rfl⟩

theorem optionalId_map (lawful : codecs.Lawful) {id : Option ℕ} (field : String)
    (small : ∀ value, id = some value → value < 2 ^ 128) :
    optionalId codecs field (id.map codecs.formatId) = .ok id := by
  cases id with
  | none => rfl
  | some id =>
    have fits : optionalText runEvent field (some (codecs.formatId id)) =
        .ok (some (codecs.formatId id)) := by
      rw [optionalText, text_id lawful (small id rfl)]
      rfl
    rw [Option.map_some, optionalId, fits]
    simp only [bind, Except.bind, decodeId_formatId lawful (small id rfl)]
    rfl

theorem decodePayload_serialize (promised : payloads.Lawful) (record field : String)
    (payload : π) : decodePayload payloads record field (payloads.serialize payload) =
      .ok (payloads.reread payload) := by
  obtain ⟨back, read⟩ := promised payload
  rw [decodePayload, PayloadCodec.reread, read]
  rfl

/-- A row that was appended reads back as its event. -/
theorem storedEvent_rowOf (lawful : codecs.Lawful) (promised : payloads.Lawful) {runId : RunId}
    (small : runId < 2 ^ 128) {event : RunEvent π} (valid : event.Valid) {seq : ℕ}
    {at_ : String} (fits : (payloads.serialize event.payload).utf8ByteSize ≤ maxInlinePayloadBytes)
    (short : event.kind.asStr.utf8ByteSize ≤ maxInlinePayloadBytes)
    (encoded : encodeTimestamp codecs runEvent "at" event.at_ = .ok at_) :
    storedEvent codecs payloads (rowOf codecs payloads runId event seq at_) =
      .ok ⟨runId, seq, event.reread payloads⟩ := by
  obtain ⟨instantFits, instant⟩ := decodeTimestamp_of_encode lawful.timestamps valid.at_ encoded
  have current : Store.schemaVersion runEvent
      (rowOf codecs payloads runId event seq at_).schemaVersion =
        .ok runtimeRecordSchemaVersion := rfl
  have positive : ¬(rowOf codecs payloads runId event seq at_).seq < 0 :=
    not_lt.mpr (Int.natCast_nonneg seq)
  rw [storedEvent, current]
  simp only [bind, Except.bind, if_neg positive]
  simp only [rowOf, text_of_le fits, text_of_le short, instantFits, instant, valid.kind,
    optionalId_map lawful _ valid.stepId, optionalId_map lawful _ valid.toolCallId,
    optionalId_map lawful _ valid.artifactId, decodePayload_serialize promised, text_id lawful small,
    decodeId_formatId lawful small, Int.toNat_natCast]
  rfl

end Append

section Recorded

variable {table : List EventRow} {history : List (RunId × RunEvent π)}

theorem recorded_nil : Recorded codecs payloads [] [] :=
  fun _ _ => ⟨Nat.zero_le _, List.Forall₂.nil⟩

theorem rowsOf_numbered (recorded : Recorded codecs payloads table history) {runId : RunId}
    (small : runId < 2 ^ 128) : List.Numbered EventRow.seq (rowsOf codecs runId table) := by
  obtain ⟨aligned, each⟩ := List.forall₂_iff_get.mp (recorded runId small).2
  intro i within
  have here := (each i within (aligned ▸ within)).2
  rw [List.get_eq_getElem] at here
  rw [here]
  exact log_numbered payloads runId history i (aligned ▸ within)

theorem nextSequence_of_recorded (recorded : Recorded codecs payloads table history)
    {runId : RunId} (small : runId < 2 ^ 128) :
    nextSequence codecs runId table = .ok ((log payloads runId history).length + 1) := by
  have highest := (rowsOf_numbered recorded small).foldl_max
  rw [(recorded runId small).2.length_eq] at highest
  rw [nextSequence, highest, if_neg (not_lt.mpr (Int.natCast_nonneg _)), Int.toNat_natCast]

theorem formatId_injective (lawful : codecs.Lawful) {left right : ℕ} (first : left < 2 ^ 128)
    (second : right < 2 ^ 128) (same : codecs.formatId left = codecs.formatId right) :
    left = right := by
  have back := (lawful.id left first).1
  rw [same, (lawful.id right second).1] at back
  exact (Except.ok.inj back).symm

/-- An append that succeeds takes the next position and extends the log of its run alone. -/
theorem Recorded.append (lawful : codecs.Lawful) (promised : payloads.Lawful)
    (recorded : Recorded codecs payloads table history) {runId : RunId} (small : runId < 2 ^ 128)
    {event : RunEvent π} (valid : event.Valid) {contained : Bool} {seq : ℕ}
    {next : List EventRow} (appended : appendEvent codecs runId event
      (payloads.serialize event.payload) contained table = .ok (seq, next)) :
    Recorded codecs payloads next (history ++ [(runId, event)]) ∧
      seq = (log payloads runId history).length + 1 := by
  obtain ⟨fits, found, storable, short, _, at_, encoded, rfl⟩ := appendEvent_eq_ok.mp appended
  rw [nextSequence_of_recorded recorded small] at found
  have position := (Except.ok.inj found).symm
  refine ⟨fun other bounded => ?_, position⟩
  have row : storedEvent codecs payloads (rowOf codecs payloads runId event seq at_) = _ :=
    storedEvent_rowOf lawful promised small valid fits short encoded
  obtain ⟨within, rows⟩ := recorded other bounded
  by_cases same : runId = other
  · subst same
    have kept : rowsOf codecs runId (table ++ [rowOf codecs payloads runId event seq at_]) =
        rowsOf codecs runId table ++ [rowOf codecs payloads runId event seq at_] := by
      rw [rowsOf, List.filter_append, List.filter_singleton, decide_eq_true (by rfl)]
      rfl
    rw [kept, log_concat_self]
    constructor
    · rw [List.length_append, List.length_singleton, ← position]
      exact storable
    · subst position
      exact List.rel_append rows (.cons ⟨row, rfl⟩ .nil)
  · have kept : rowsOf codecs other (table ++ [rowOf codecs payloads runId event seq at_]) =
        rowsOf codecs other table := by
      rw [rowsOf, List.filter_append, List.filter_singleton, decide_eq_false, cond_false,
        List.append_nil]
      · rfl
      · exact fun texts => same (formatId_injective lawful small bounded texts)
    rw [kept, log_concat_other same]
    exact ⟨within, rows⟩

/-- What is left of a log past a page's boundary, in the page's direction. -/
def remaining (page : EventPage) (log : List (StoredEvent π)) : List (StoredEvent π) :=
  match page.order with
  | .oldest => log.drop (boundary .oldest page.from_)
  | .newest => (log.take (boundary .newest page.from_ - 1)).reverse

/-- The page of a log: the first events of what is left, and the last of them when more follow. -/
def pageOf (page : EventPage) (log : List (StoredEvent π)) : EventListing π where
  events := (remaining page log).take page.limit
  nextCursor := if page.limit < (remaining page log).length
    then ((remaining page log).take page.limit).getLast?.map StoredEvent.seq else none

theorem selected_of_recorded (recorded : Recorded codecs payloads table history) {runId : RunId}
    (small : runId < 2 ^ 128) (page : EventPage) :
    List.Forall₂ (fun row event => storedEvent codecs payloads row = .ok event ∧
      row.seq = event.seq) (selected codecs runId page table)
        (remaining page (log payloads runId history)) := by
  have numbered := rowsOf_numbered recorded small
  have rows := (recorded runId small).2
  obtain ⟨limit, order, from_⟩ := page
  cases order with
  | oldest =>
    simp only [selected, remaining]
    rw [numbered.filter_gt, List.insertionSort_ascending (numbered.pairwise.drop)]
    exact List.forall₂_drop _ rows
  | newest =>
    simp only [selected, remaining]
    rw [numbered.filter_lt, List.insertionSort_descending (numbered.pairwise.take)]
    exact List.forall₂_reverse_iff.mpr (List.forall₂_take _ rows)

/-- A page request answers with the page of the run's log. -/
theorem eventPage_of_recorded (recorded : Recorded codecs payloads table history) {runId : RunId}
    (small : runId < 2 ^ 128) {page : EventPage} (positive : 0 < page.limit)
    (bounded : page.limit ≤ maxEventPageLimit) :
    eventPage codecs payloads runId page table =
      .ok (pageOf page (log payloads runId history)) := by
  have probe : min (page.limit + 1) i64Max = page.limit + 1 := by
    simp only [maxEventPageLimit, i64Max] at bounded ⊢
    omega
  have read : ((selected codecs runId page table).take (page.limit + 1)).mapM
      (storedEvent codecs payloads) =
        .ok ((remaining page (log payloads runId history)).take (page.limit + 1)) :=
    Except.mapM_eq_ok_of_forall₂
      ((List.forall₂_take _ (selected_of_recorded recorded small page)).imp fun _ _ => And.left)
  have more : page.limit < ((remaining page (log payloads runId history)).take
      (page.limit + 1)).length ↔ page.limit < (remaining page (log payloads runId history)).length := by
    rw [List.length_take]
    omega
  rw [eventPage, if_neg (by omega), probe]
  simp only [read, bind, Except.bind, pure, Except.pure, more, List.take_take, pageOf,
    Nat.min_eq_left (Nat.le_succ _)]

/-- A limit outside the range is refused whatever the table holds. -/
theorem eventPage_refused {runId : RunId} {page : EventPage}
    (refused : page.limit = 0 ∨ maxEventPageLimit < page.limit) :
    eventPage codecs payloads runId page table =
      .error (.invalidPageLimit page.limit maxEventPageLimit) := by
  rw [eventPage, if_pos refused]

/-- Replaying the log after a position gives the events of the page that starts there. -/
theorem events_of_recorded (recorded : Recorded codecs payloads table history) {runId : RunId}
    (small : runId < 2 ^ 128) (after : Option ℕ) {limit : ℕ} (positive : 0 < limit)
    (bounded : limit ≤ maxEventPageLimit) :
    events codecs payloads runId after limit table =
      .ok (pageOf ⟨limit, .oldest, after⟩ (log payloads runId history)).events := by
  have clamp : min limit i64Max = limit := by
    simp only [maxEventPageLimit, i64Max] at bounded ⊢
    omega
  have start : boundary .oldest after = min (after.getD 0) i64Max := by
    cases after <;> rfl
  have rows := selected_of_recorded recorded small ⟨limit, .oldest, after⟩
  simp only [selected, start] at rows
  rw [events, if_neg (by omega), clamp]
  exact Except.mapM_eq_ok_of_forall₂
    ((List.forall₂_take limit rows).imp fun _ _ => And.left)

theorem latestSequence_of_recorded (recorded : Recorded codecs payloads table history)
    {runId : RunId} (small : runId < 2 ^ 128) :
    latestSequence codecs runId table =
      .ok ((log payloads runId history).getLast?.map StoredEvent.seq) := by
  have numbered := rowsOf_numbered recorded small
  have rows := (recorded runId small).2
  rw [latestSequence]
  cases stored : rowsOf codecs runId table with
  | nil =>
    rw [stored, List.forall₂_nil_left_iff] at rows
    rw [rows]
    rfl
  | cons row rest =>
    rw [stored] at numbered rows
    have length := rows.length_eq
    have highest := numbered.foldl_max
    have first : row.seq = 1 := numbered 0 (Nat.succ_pos _)
    have from_ : max 0 row.seq = row.seq := by omega
    rw [List.foldl_cons, from_] at highest
    have last : (log payloads runId history).getLast?.map StoredEvent.seq =
        some (log payloads runId history).length := by
      rw [List.getLast?_eq_getElem?, ← List.getElem?_map, log_seq]
      rw [List.length_cons] at length
      rw [List.getElem?_range' (by omega)]
      congr 1
      omega
    simp only [highest, last, length, if_neg (not_lt.mpr (Int.natCast_nonneg _)),
      Int.toNat_natCast]

end Recorded

end Harkness.Runtime.Store
