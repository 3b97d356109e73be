import Harkness.Runtime.Observe.LineFilter

/-! # An artifact's bytes on their way to its file

Bytes pass through the redactor's filter, where there is one, then through a buffer, then into the file,
where they are hashed and counted. Every write to the file may fail, and a write that fails may have put
a part of its bytes there.
-/

namespace Harkness.Runtime.Store

open Observe

/-- What becomes of one `write_all` on the file. -/
inductive FileAnswer where
  | done
  /-- It fails with so many of its bytes in the file. -/
  | failed (kept : ℕ)
deriving DecidableEq, Repr

inductive IoError where
  | file
  | closed
deriving DecidableEq, Repr

/-- Bytes on their way to disk, hashed and counted as they pass. -/
structure RecordedHandle where
  /-- What becomes of the writes to come; those after them succeed. -/
  answers : List FileAnswer
  isOpen : Bool
  /-- What the file holds. -/
  bytes : List UInt8
  /-- What the hasher has taken. -/
  hashed : List UInt8
  byteSize : ℕ
deriving DecidableEq

namespace RecordedHandle

/-- All of the buffer is written, hashed and counted, or the write fails. -/
def write (buffer : List UInt8) : Mutation IoError RecordedHandle ℕ := fun recorded =>
  if recorded.isOpen then
    match recorded.answers with
    | .failed kept :: answers =>
      (.error .file, { recorded with answers, bytes := recorded.bytes ++ buffer.take kept })
    | answers =>
      (.ok buffer.length,
        { recorded with
          answers := answers.tail
          bytes := recorded.bytes ++ buffer
          hashed := recorded.hashed ++ buffer
          byteSize := recorded.byteSize + buffer.length })
  else (.error .closed, recorded)

end RecordedHandle

/-- Bytes buffered between the redactor and the file. -/
def streamBufferBytes : ℕ := 64 * 1024

/-- `io::BufWriter` over the recording layer. -/
structure BufWriter where
  inner : RecordedHandle
  buffer : List UInt8
deriving DecidableEq

namespace BufWriter

def onInner {α : Type} (operation : Mutation IoError RecordedHandle α) : Mutation IoError BufWriter α :=
  .focus BufWriter.inner (fun inner writer => { writer with inner }) operation

/-- Writes what is buffered. The recording layer takes all of it or fails, and then it stays buffered. -/
def flushBuf : Mutation IoError BufWriter Unit := do
  let writer ← .read
  if writer.buffer ≠ [] then do
    let _ ← onInner (RecordedHandle.write writer.buffer)
    .update fun writer => { writer with buffer := [] }

/-- The path of a write that does not fit in what is left of the buffer. -/
def writeCold (bytes : List UInt8) : Mutation IoError BufWriter ℕ := do
  let writer ← .read
  .when (streamBufferBytes - writer.buffer.length < bytes.length) flushBuf
  if streamBufferBytes ≤ bytes.length then onInner (RecordedHandle.write bytes)
  else do
    .update fun writer => { writer with buffer := writer.buffer ++ bytes }
    pure bytes.length

/-- `write`, and `write_all`, since every write takes all of its bytes. -/
def write (bytes : List UInt8) : Mutation IoError BufWriter ℕ := do
  let writer ← .read
  if bytes.length < streamBufferBytes - writer.buffer.length then do
    .update fun writer => { writer with buffer := writer.buffer ++ bytes }
    pure bytes.length
  else writeCold bytes

/-- Where the redactor's filter writes; flushing the file itself does nothing. -/
def sink : Sink IoError BufWriter where
  writeAll bytes := do
    let _ ← write bytes
    pure ()
  flush := flushBuf

end BufWriter

/-- The writer chain of an artifact. Without a redactor nothing is ever carried over. -/
abbrev Stream := LineFilter BufWriter

/-- What the redactor makes of a chunk, for a stream it wraps. -/
abbrev Rule := Option (List UInt8 → List UInt8)

namespace Stream

/-- A stream on a file just created. -/
def create : Stream := ⟨⟨⟨[], true, [], [], 0⟩, []⟩, []⟩

def write (rule : Rule) (buffer : List UInt8) : Mutation IoError Stream ℕ :=
  match rule with
  | none => .focus LineFilter.sink (fun sink stream => { stream with sink }) (BufWriter.write buffer)
  | some rule => LineFilter.write BufWriter.sink rule buffer

def flush (rule : Rule) : Mutation IoError Stream Unit :=
  match rule with
  | none => LineFilter.onSink BufWriter.flushBuf
  | some rule => LineFilter.flush BufWriter.sink rule

/-- `drop`: the filter hands on what it carries, the buffer is written, and errors are ignored. -/
def drop (rule : Rule) (stream : Stream) : Stream :=
  let dropped :=
    match rule with
    | none => stream
    | some rule => LineFilter.drop BufWriter.sink rule stream
  ((LineFilter.onSink BufWriter.flushBuf : Mutation IoError Stream Unit) dropped).2

/-- What the stream holds for the file: the bytes in it and those buffered, and those carried over. -/
def held (stream : Stream) : List UInt8 × List UInt8 :=
  (stream.sink.inner.bytes ++ stream.sink.buffer, stream.buffer)

end Stream

namespace RecordedHandle

/-- What is hashed and counted is what the file holds. -/
def Exact (recorded : RecordedHandle) : Prop :=
  recorded.hashed = recorded.bytes ∧ recorded.byteSize = recorded.bytes.length

variable {recorded next : RecordedHandle} {buffer : List UInt8} {count : ℕ}

theorem write_ok (done : write buffer recorded = (.ok count, next)) :
    count = buffer.length ∧ next.bytes = recorded.bytes ++ buffer ∧ (recorded.Exact → next.Exact) := by
  unfold write at done
  split_ifs at done
  · split at done
    · cases done
    · cases done
      exact ⟨rfl, rfl, fun exact_ => ⟨congrArg (· ++ buffer) exact_.1, by
        rw [List.length_append, ← exact_.2]⟩⟩
  · cases done

/-- A write that fails leaves a part of its bytes in the file at most. -/
theorem write_error {error : IoError} (failed : write buffer recorded = (.error error, next)) :
    ∃ kept, next.bytes = recorded.bytes ++ buffer.take kept ∧ next.hashed = recorded.hashed ∧
      next.byteSize = recorded.byteSize := by
  unfold write at failed
  split_ifs at failed
  · split at failed
    · cases failed
      exact ⟨_, rfl, rfl, rfl⟩
    · cases failed
  · cases failed
    exact ⟨0, (List.append_nil _).symm, rfl, rfl⟩

theorem write_isOpen (recorded : RecordedHandle) (buffer : List UInt8) :
    (write buffer recorded).2.isOpen = recorded.isOpen := by
  unfold write
  split_ifs
  · split <;> rfl
  · rfl

end RecordedHandle

namespace BufWriter

variable {writer next : BufWriter} {bytes : List UInt8} {count : ℕ}

/-- The bytes in the file, then those buffered. -/
def total (writer : BufWriter) : List UInt8 := writer.inner.bytes ++ writer.buffer

/-- All that was delivered is in the file, hashed and counted, or buffered. -/
def Delivers (writer : BufWriter) (delivered : List UInt8) : Prop :=
  writer.inner.Exact ∧ writer.total = delivered

theorem flushBuf_eq (writer : BufWriter) : flushBuf writer =
    if writer.buffer = [] then (.ok (), writer)
    else
      match RecordedHandle.write writer.buffer writer.inner with
      | (.ok _, inner) => (.ok (), ⟨inner, []⟩)
      | (.error error, inner) => (.error error, ⟨inner, writer.buffer⟩) := by
  change (if writer.buffer ≠ [] then _ else _ : Mutation IoError BufWriter Unit) writer = _
  by_cases empty : writer.buffer = []
  · rw [if_neg (not_not.mpr empty), if_pos empty]
    rfl
  · rw [if_pos empty, if_neg empty]
    rcases wrote : RecordedHandle.write writer.buffer writer.inner with ⟨error | count, inner⟩
    · have refused : onInner (RecordedHandle.write writer.buffer) writer = (.error error, ⟨inner, writer.buffer⟩) := by
        change ((RecordedHandle.write _ writer.inner).1, BufWriter.mk (RecordedHandle.write _ writer.inner).2 _) = _
        rw [wrote]
      exact Mutation.bind_of_error refused
    · have done : onInner (RecordedHandle.write writer.buffer) writer = (.ok count, ⟨inner, writer.buffer⟩) := by
        change ((RecordedHandle.write _ writer.inner).1, BufWriter.mk (RecordedHandle.write _ writer.inner).2 _) = _
        rw [wrote]
      exact Mutation.bind_of_ok done

/-- A flush that succeeds moves what is buffered into the file. -/
theorem flushBuf_ok {done : Unit} (flushed : flushBuf writer = (.ok done, next)) :
    next.buffer = [] ∧ next.total = writer.total ∧ (writer.inner.Exact → next.inner.Exact) := by
  rw [flushBuf_eq] at flushed
  split_ifs at flushed with empty
  · cases flushed
    exact ⟨empty, rfl, id⟩
  · rcases wrote : RecordedHandle.write writer.buffer writer.inner with ⟨error | count, inner⟩
    · rw [wrote] at flushed
      cases flushed
    · rw [wrote] at flushed
      cases flushed
      obtain ⟨-, bytes, exact_⟩ := RecordedHandle.write_ok wrote
      exact ⟨rfl, (List.append_nil _).trans bytes, exact_⟩

theorem append_ok (done : (do
      Mutation.update fun writer => { writer with buffer := writer.buffer ++ bytes }
      pure bytes.length : Mutation IoError BufWriter ℕ) writer = (.ok count, next)) :
    count = bytes.length ∧ next.total = writer.total ++ bytes ∧ (writer.inner.Exact → next.inner.Exact) := by
  cases done
  exact ⟨rfl, (List.append_assoc _ _ _).symm, id⟩

theorem writeCold_ok (done : writeCold bytes writer = (.ok count, next)) :
    count = bytes.length ∧ next.total = writer.total ++ bytes ∧ (writer.inner.Exact → next.inner.Exact) := by
  obtain ⟨_, _, seen, done⟩ := Mutation.bind_eq_ok.mp done
  obtain ⟨rfl, rfl⟩ := Mutation.read_eq_ok.mp seen
  obtain ⟨_, mid, emptied, done⟩ := Mutation.bind_eq_ok.mp done
  have before : mid.total = writer.total ∧ (writer.inner.Exact → mid.inner.Exact) ∧
      (streamBufferBytes ≤ bytes.length → mid.buffer = []) := by
    unfold Mutation.when at emptied
    split_ifs at emptied with room
    · obtain ⟨empty, total, exact_⟩ := flushBuf_ok emptied
      exact ⟨total, exact_, fun _ => empty⟩
    · obtain ⟨-, rfl⟩ := Mutation.pure_eq_ok.mp emptied
      refine ⟨rfl, id, fun large => List.length_eq_zero_iff.mp ?_⟩
      have positive : 0 < streamBufferBytes := by decide
      omega
  obtain ⟨total, exact_, empty⟩ := before
  split_ifs at done with large
  · obtain ⟨inner, wrote, rfl⟩ := Mutation.focus_eq_ok.mp done
    obtain ⟨rfl, appended, kept⟩ := RecordedHandle.write_ok wrote
    refine ⟨rfl, ?_, fun sound => kept (exact_ sound)⟩
    have nothing := empty large
    rw [← total, BufWriter.total, BufWriter.total, nothing, appended, List.append_nil, List.append_nil]
  · obtain ⟨rfl, appended, kept⟩ := append_ok done
    exact ⟨rfl, appended.trans (by rw [total]), fun sound => kept (exact_ sound)⟩

/-- A write that succeeds takes all of its bytes, behind those before them. -/
theorem write_ok (done : write bytes writer = (.ok count, next)) :
    count = bytes.length ∧ next.total = writer.total ++ bytes ∧ (writer.inner.Exact → next.inner.Exact) := by
  obtain ⟨_, _, seen, done⟩ := Mutation.bind_eq_ok.mp done
  obtain ⟨rfl, rfl⟩ := Mutation.read_eq_ok.mp seen
  split_ifs at done
  · exact append_ok done
  · exact writeCold_ok done

/-- What is delivered to the buffer is delivered to a sink that keeps everything. -/
theorem echoes : LineFilter.Echoes sink (Sink.recorder IoError) Delivers := by
  rintro bytes writer delivered ⟨sound, rfl⟩ _ next done
  obtain ⟨count, mid, wrote, done⟩ := Mutation.bind_eq_ok.mp done
  obtain ⟨-, rfl⟩ := Mutation.pure_eq_ok.mp done
  obtain ⟨-, total, kept⟩ := write_ok wrote
  exact ⟨_, rfl, kept sound, total⟩

/-- What an operation, successful or not, does to a writer: it loses nothing, and what the hasher has not
seen makes the bytes more. -/
structure Grows (before after : BufWriter) : Prop where
  isOpen : after.inner.isOpen = before.inner.isOpen
  more : before.total.length ≤ after.total.length
  sound : before.inner.Exact → after.inner.Exact ∨ before.total.length < after.total.length

theorem Grows.refl (writer : BufWriter) : Grows writer writer := ⟨rfl, le_rfl, .inl⟩

theorem Grows.trans (first second third : BufWriter) (left : Grows first second)
    (right : Grows second third) : Grows first third := by
  refine ⟨right.isOpen.trans left.isOpen, left.more.trans right.more, fun exact_ => ?_⟩
  rcases left.sound exact_ with kept | longer
  · exact (right.sound kept).imp_right left.more.trans_lt
  · exact .inr (longer.trans_le right.more)

/-- What a failed write leaves in the file was not hashed. -/
theorem grows_of_failed {inner : RecordedHandle} {error : IoError}
    (failed : RecordedHandle.write bytes writer.inner = (.error error, inner)) :
    Grows writer ⟨inner, writer.buffer⟩ := by
  obtain ⟨kept, appended, hashed, size⟩ := RecordedHandle.write_error failed
  have isOpen := RecordedHandle.write_isOpen writer.inner bytes
  rw [failed] at isOpen
  have length : (BufWriter.mk inner writer.buffer).total.length =
      writer.total.length + (bytes.take kept).length := by
    simp only [total, appended, List.length_append]
    omega
  refine ⟨isOpen, by omega, fun exact_ => ?_⟩
  by_cases nothing : bytes.take kept = []
  · rw [nothing, List.append_nil] at appended
    exact .inl ⟨by rw [hashed, appended, exact_.1], by rw [size, appended, exact_.2]⟩
  · have := List.length_pos_iff.mpr nothing
    exact .inr (by omega)

theorem flushBuf_moves : flushBuf.Moves Grows := by
  intro writer
  rw [flushBuf_eq]
  split_ifs with empty
  · exact .refl writer
  · rcases wrote : RecordedHandle.write writer.buffer writer.inner with ⟨error | count, inner⟩
    · exact grows_of_failed wrote
    · obtain ⟨-, appended, kept⟩ := RecordedHandle.write_ok wrote
      have isOpen := RecordedHandle.write_isOpen writer.inner writer.buffer
      rw [wrote] at isOpen
      have total : (BufWriter.mk inner []).total = writer.total := (List.append_nil _).trans appended
      exact ⟨isOpen, by rw [total], fun exact_ => .inl (kept exact_)⟩

theorem onInner_moves (bytes : List UInt8) : (onInner (RecordedHandle.write bytes)).Moves Grows := by
  intro writer
  rcases wrote : RecordedHandle.write bytes writer.inner with ⟨error | count, inner⟩
  · have grown := grows_of_failed wrote
    change Grows writer ⟨(RecordedHandle.write bytes writer.inner).2, writer.buffer⟩
    rw [wrote]
    exact grown
  · obtain ⟨-, appended, kept⟩ := RecordedHandle.write_ok wrote
    have isOpen := RecordedHandle.write_isOpen writer.inner bytes
    change Grows writer ⟨(RecordedHandle.write bytes writer.inner).2, writer.buffer⟩
    rw [wrote] at isOpen ⊢
    refine ⟨isOpen, ?_, fun exact_ => .inl (kept exact_)⟩
    simp only [total, appended, List.length_append]
    omega

theorem append_moves (bytes : List UInt8) : (do
    Mutation.update fun writer => { writer with buffer := writer.buffer ++ bytes }
    pure bytes.length : Mutation IoError BufWriter ℕ).Moves Grows := by
  intro writer
  refine ⟨rfl, ?_, .inl⟩
  change writer.total.length ≤ (writer.inner.bytes ++ (writer.buffer ++ bytes)).length
  simp only [total, List.length_append]
  omega

theorem write_moves (bytes : List UInt8) : (write bytes).Moves Grows := by
  refine .bind Grows.trans Grows.refl fun writer => ?_
  split_ifs
  · exact append_moves bytes
  · refine .bind Grows.trans Grows.refl fun writer => .bind Grows.trans ?_ fun _ => ?_
    · unfold Mutation.when
      split_ifs
      · exact flushBuf_moves
      · exact Grows.refl
    · split_ifs
      · exact onInner_moves bytes
      · exact append_moves bytes

theorem sink_moves (bytes : List UInt8) : (sink.writeAll bytes).Moves Grows :=
  .bind Grows.trans (write_moves bytes) fun _ => Grows.refl

end BufWriter

namespace Stream

/-- What the caller of a stream was told had succeeded. -/
inductive Accepted where
  | wrote (bytes : List UInt8)
  | flushed
deriving DecidableEq

/-- What a success does to a filter before a sink that never fails. -/
def accept (rule : Rule) (filter : LineFilter (List UInt8)) : Accepted → LineFilter (List UInt8)
  | .wrote bytes =>
    match rule with
    | none => { filter with sink := filter.sink ++ bytes }
    | some rule => (LineFilter.write (Sink.recorder IoError) rule bytes filter).2
  | .flushed =>
    match rule with
    | none => filter
    | some rule => (LineFilter.flush (Sink.recorder IoError) rule filter).2

def accepts (rule : Rule) (accepted : List Accepted) : LineFilter (List UInt8) :=
  accepted.foldl (accept rule) (LineFilter.wrapStream [])

theorem accepts_concat (rule : Rule) (accepted : List Accepted) (last : Accepted) :
    accepts rule (accepted ++ [last]) = accept rule (accepts rule accepted) last := by
  unfold accepts
  rw [List.foldl_append]
  rfl

/-- The content that was accepted: what the redactor makes of it, once nothing is carried over. -/
def content (rule : Rule) (accepted : List Accepted) : List UInt8 :=
  (accept rule (accepts rule accepted) .flushed).sink

/-- The stream holds what was accepted. -/
def Holds (rule : Rule) (stream : Stream) (accepted : List Accepted) : Prop :=
  LineFilter.Beside BufWriter.Delivers stream (accepts rule accepted)

theorem accepts_none_buffer (accepted : List Accepted) : (accepts none accepted).buffer = [] := by
  induction accepted using List.reverseRecOn with
  | nil => rfl
  | append_singleton accepted last ih =>
    rw [accepts_concat]
    cases last with
    | wrote bytes => exact ih
    | flushed => exact ih

/-- Without a redactor the content is what was written. -/
theorem content_none (writes : List (List UInt8)) :
    content none (writes.map .wrote) = writes.flatten := by
  have from_ (filter : LineFilter (List UInt8)) :
      ((writes.map Accepted.wrote).foldl (accept none) filter).sink = filter.sink ++ writes.flatten := by
    induction writes generalizing filter with
    | nil => exact (List.append_nil _).symm
    | cons bytes writes ih =>
      rw [List.map_cons, List.foldl_cons, ih, List.flatten_cons, ← List.append_assoc]
      rfl
  exact from_ _

/-- With one the content is what the filter hands on. -/
theorem content_some (rule : List UInt8 → List UInt8) (writes : List (List UInt8)) :
    content (some rule) (writes.map .wrote) = (LineFilter.run IoError rule writes .flush).2 := by
  have from_ (filter : LineFilter (List UInt8)) :
      (writes.map Accepted.wrote).foldl (accept (some rule)) filter =
        (LineFilter.writeEach (Sink.recorder IoError) rule writes filter).2 := by
    induction writes generalizing filter with
    | nil => rfl
    | cons bytes writes ih => exact ih _
  unfold content accepts
  rw [from_]
  rfl

variable {rule : Rule} {stream next : Stream} {accepted : List Accepted} {buffer : List UInt8} {count : ℕ}

theorem create_holds : Holds rule create [] := ⟨rfl, ⟨rfl, rfl⟩, rfl⟩

/-- A write that succeeds is accepted. -/
theorem write_accepted (done : write rule buffer stream = (.ok count, next))
    (holds : Holds rule stream accepted) : Holds rule next (accepted ++ [.wrote buffer]) := by
  unfold Holds
  rw [accepts_concat]
  cases rule with
  | none =>
    obtain ⟨writer, wrote, rfl⟩ := LineFilter.onSink_ok done
    obtain ⟨-, total, exact_⟩ := BufWriter.write_ok wrote
    obtain ⟨carried, sound, delivered⟩ := holds
    exact ⟨carried, exact_ sound, total.trans (congrArg (· ++ buffer) delivered)⟩
  | some rule =>
    obtain ⟨far, other, beside⟩ :=
      LineFilter.write_follows BufWriter.echoes holds buffer count next done
    have same : far = accept (some rule) (accepts (some rule) accepted) (.wrote buffer) :=
      (congrArg Prod.snd other).symm
    exact same ▸ beside

/-- A write that succeeds reports all of its bytes. -/
theorem write_count (done : write rule buffer stream = (.ok count, next)) : count = buffer.length := by
  cases rule with
  | none =>
    obtain ⟨writer, wrote, -⟩ := LineFilter.onSink_ok done
    exact (BufWriter.write_ok wrote).1
  | some rule =>
    obtain ⟨_, _, -, done⟩ := Mutation.bind_eq_ok.mp done
    obtain ⟨_, _, -, done⟩ := Mutation.bind_eq_ok.mp done
    obtain ⟨filter, _, -, done⟩ := Mutation.bind_eq_ok.mp done
    split_ifs at done
    · obtain ⟨_, _, -, done⟩ := Mutation.bind_eq_ok.mp done
      obtain ⟨_, _, -, done⟩ := Mutation.bind_eq_ok.mp done
      exact (Mutation.pure_eq_ok.mp done).1.symm
    · exact (Mutation.pure_eq_ok.mp done).1.symm

/-- So is a flush, and it leaves nothing buffered or carried over. -/
theorem flush_accepted {done : Unit} (flushed : flush rule stream = (.ok done, next))
    (holds : Holds rule stream accepted) : Holds rule next (accepted ++ [.flushed]) := by
  unfold Holds
  rw [accepts_concat]
  cases rule with
  | none =>
    obtain ⟨writer, wrote, rfl⟩ := LineFilter.onSink_ok flushed
    obtain ⟨-, total, exact_⟩ := BufWriter.flushBuf_ok wrote
    obtain ⟨carried, sound, delivered⟩ := holds
    exact ⟨carried, exact_ sound, total.trans delivered⟩
  | some rule =>
    have follows : Mutation.FollowsAt (LineFilter.Beside BufWriter.Delivers) stream
        (accepts (some rule) accepted) (LineFilter.flush BufWriter.sink rule)
          (LineFilter.flush (Sink.recorder IoError) rule) := by
      refine .bind (LineFilter.remainder_follows BufWriter.echoes holds) fun _ mid far beside => ?_
      unfold LineFilter.onSink
      refine .focus (R := BufWriter.Delivers) ?_ fun _ _ related => ⟨beside.1, related⟩
      rintro done writer ended
      obtain ⟨-, total, exact_⟩ := BufWriter.flushBuf_ok ended
      exact ⟨_, rfl, exact_ beside.2.1, total.trans beside.2.2⟩
    obtain ⟨far, other, beside⟩ := follows done next flushed
    have same : far = accept (some rule) (accepts (some rule) accepted) .flushed :=
      (congrArg Prod.snd other).symm
    exact same ▸ beside

theorem flush_empties {done : Unit} (flushed : flush rule stream = (.ok done, next))
    (holds : Holds rule stream accepted) : next.buffer = [] ∧ next.sink.buffer = [] := by
  cases rule with
  | none =>
    obtain ⟨writer, wrote, rfl⟩ := LineFilter.onSink_ok flushed
    exact ⟨holds.1.trans (accepts_none_buffer accepted), (BufWriter.flushBuf_ok wrote).1⟩
  | some rule =>
    obtain ⟨carried, _, ended⟩ := LineFilter.flush_ok flushed
    exact ⟨carried, (BufWriter.flushBuf_ok ended).1⟩

/-- What a flush leaves in the file is the content that was accepted, hashed and counted. -/
theorem flush_content {done : Unit} (flushed : flush rule stream = (.ok done, next))
    (holds : Holds rule stream accepted) :
    next.sink.inner.Exact ∧ next.sink.inner.bytes = content rule accepted := by
  obtain ⟨-, sound, total⟩ := flush_accepted flushed holds
  obtain ⟨-, empty⟩ := flush_empties flushed holds
  rw [accepts_concat] at total
  refine ⟨sound, ?_⟩
  rw [content, ← total, BufWriter.total, empty, List.append_nil]

/-- Dropping a stream that was flushed writes nothing. -/
theorem drop_of_empty (carried : stream.buffer = []) (empty : stream.sink.buffer = []) :
    drop rule stream = stream := by
  have still : BufWriter.flushBuf stream.sink = (.ok (), stream.sink) := by
    rw [BufWriter.flushBuf_eq, if_pos empty]
  have dropped : (match rule with
      | none => stream
      | some rule => LineFilter.drop BufWriter.sink rule stream) = stream := by
    cases rule with
    | none => rfl
    | some rule => exact LineFilter.drop_of_empty carried (congrArg Prod.snd still)
  unfold drop
  rw [dropped]
  change { stream with sink := (BufWriter.flushBuf stream.sink).2 } = stream
  rw [still]

theorem write_moves (rule : Rule) (buffer : List UInt8) :
    (write rule buffer).Moves (LineFilter.OnSink BufWriter.Grows) := by
  cases rule with
  | none => exact fun stream => BufWriter.write_moves buffer stream.sink
  | some rule => exact LineFilter.write_moves .refl .trans BufWriter.sink_moves buffer

theorem flush_moves (rule : Rule) : (flush rule).Moves (LineFilter.OnSink BufWriter.Grows) := by
  cases rule with
  | none => exact fun stream => BufWriter.flushBuf_moves stream.sink
  | some rule =>
    refine .bind (T := LineFilter.OnSink BufWriter.Grows) (fun _ _ _ => BufWriter.Grows.trans _ _ _)
      (LineFilter.remainder_moves .refl .trans BufWriter.sink_moves) fun _ => ?_
    exact fun stream => BufWriter.flushBuf_moves stream.sink

/-- An operation that left what the stream holds as it was left what was accepted in it. -/
theorem holds_of_held (moved : LineFilter.OnSink BufWriter.Grows stream next)
    (same : next.held = stream.held) (holds : Holds rule stream accepted) : Holds rule next accepted := by
  obtain ⟨carried, sound, total⟩ := holds
  have whole : next.sink.total = stream.sink.total := congrArg Prod.fst same
  refine ⟨(congrArg Prod.snd same).trans carried, ?_, whole.trans total⟩
  rcases moved.sound sound with kept | longer
  · exact kept
  · rw [whole] at longer
    exact absurd longer (lt_irrefl _)

end Stream

end Harkness.Runtime.Store
