import Harkness.Machine.Mutation
import Harkness.Runtime.Observe.Secret
import Harkness.ToMathlib.Lines

/-! # The stream redactor

An artifact's bytes pass through a filter that rewrites them a line at a time, however they are cut
into writes. The end of a write that is not yet a line waits in a buffer for the next one; a buffer
that reaches its bound is rewritten as it is. Where no line is longer than the bound, what arrives
downstream is the concatenation of the rewritten lines.
-/

namespace Harkness.Runtime.Observe

open Lines (splitFrom cutFrom)

/-- Most bytes of one artifact line held before the filter gives up on finding a newline. -/
def maxFilteredLineBytes : ℕ := 64 * 1024

def newline : UInt8 := 10

/-- Where the filter writes. -/
structure Sink (ε σ : Type) where
  writeAll : List UInt8 → Mutation ε σ Unit
  flush : Mutation ε σ Unit

/-- A sink's state and the partial line carried over to the next write. -/
structure LineFilter (σ : Type) where
  sink : σ
  buffer : List UInt8

/-- What the standard redactor makes of one chunk of a stream. -/
def StandardRedactor.rewrite (redactShapeBytes : List UInt8 → Option (List UInt8))
    (redactor : StandardRedactor) (chunk : List UInt8) : List UInt8 :=
  let source := redactor.secrets.redactedBytes id chunk (Utf8.encode declaredSecretMarker)
  (redactShapeBytes source).getD source

namespace LineFilter

variable {ε σ : Type} (sink : Sink ε σ) (rule : List UInt8 → List UInt8)

def onSink (operation : Mutation ε σ Unit) : Mutation ε (LineFilter σ) Unit :=
  .focus LineFilter.sink (fun sink filter => { filter with sink }) operation

/-- Redacts one chunk and writes it downstream. -/
def emit (chunk : List UInt8) : Mutation ε (LineFilter σ) Unit :=
  onSink (sink.writeAll (rule chunk))

/-- `Vec::extend_from_slice` on the buffer -/
def extend (piece : List UInt8) : Mutation ε (LineFilter σ) Unit :=
  .update fun filter => { filter with buffer := filter.buffer ++ piece }

/-- `mem::take` of the buffer -/
def take : Mutation ε (LineFilter σ) (List UInt8) :=
  fun filter => (.ok filter.buffer, { filter with buffer := [] })

/-- Completes the pending partial line from the front of `chunk`, if it can, and returns what is
left of it. -/
def completePending (chunk : List UInt8) : Mutation ε (LineFilter σ) (List UInt8) := do
  let filter ← .read
  if filter.buffer = [] then pure chunk
  else
    match chunk.findIdx? (· == newline) with
    | some position => do
      extend (chunk.take (position + 1))
      let line ← take
      emit sink rule line
      pure (chunk.drop (position + 1))
    | none => do
      extend chunk
      pure []

/-- A piece is written when it is a complete line, and carried over when it is not. -/
def writePieces : List (List UInt8) → Mutation ε (LineFilter σ) Unit
  | [] => pure ()
  | piece :: pieces => do
    if piece.getLast? = some newline then emit sink rule piece
    else extend piece
    writePieces pieces

def write (buffer : List UInt8) : Mutation ε (LineFilter σ) ℕ := do
  let rest ← completePending sink rule buffer
  writePieces sink rule (Lines.split newline rest)
  let filter ← .read
  if maxFilteredLineBytes ≤ filter.buffer.length then do
    let chunk ← take
    emit sink rule chunk
  pure buffer.length

/-- Writes what is left in the buffer. -/
def remainder : Mutation ε (LineFilter σ) Unit := do
  let filter ← .read
  if filter.buffer ≠ [] then do
    let remainder ← take
    emit sink rule remainder

def flush : Mutation ε (LineFilter σ) Unit := do
  remainder sink rule
  onSink sink.flush

/-- `drop`: errors are ignored. -/
def drop (filter : LineFilter σ) : LineFilter σ :=
  (onSink sink.flush ((remainder sink rule filter).2)).2

/-- `wrap_stream`: nothing is carried over yet. -/
def wrapStream (sink : σ) : LineFilter σ := ⟨sink, []⟩

/-- How a stream ends. -/
inductive Ending where
  | flush
  | drop
  deriving DecidableEq, Repr

def finish (filter : LineFilter σ) : Ending → LineFilter σ
  | .flush => (flush sink rule filter).2
  | .drop => drop sink rule filter

/-- Successive writes, and what each of them reports. -/
def writeEach : List (List UInt8) → LineFilter σ → List (Except ε ℕ) × LineFilter σ
  | [], filter => ([], filter)
  | buffer :: buffers, filter =>
    let (report, next) := write sink rule buffer filter
    let (reports, last) := writeEach buffers next
    (report :: reports, last)

end LineFilter

/-- A sink that accepts everything and keeps what it is given. -/
def Sink.recorder (ε : Type) : Sink ε (List UInt8) where
  writeAll bytes := .update fun delivered => delivered ++ bytes
  flush := pure ()

namespace LineFilter

variable {ε : Type} {rule : List UInt8 → List UInt8} {delivered buffer : List UInt8}

variable (ε rule delivered) in
/-- A pending line is completed by what precedes the next newline; without one all of the chunk is
pending. -/
private theorem completePending_cut (plain : newline ∉ buffer) (chunk : List UInt8) :
    ∃ rest lines carry,
      completePending (Sink.recorder ε) rule chunk ⟨delivered, buffer⟩ =
        (.ok rest, ⟨delivered ++ lines.flatMap rule, carry⟩) ∧
      newline ∉ carry ∧ (carry = [] ∨ rest = []) ∧
      cutFrom newline buffer chunk =
        (lines ++ (cutFrom newline carry rest).1, (cutFrom newline carry rest).2) := by
  by_cases empty : buffer = []
  · subst empty
    refine ⟨chunk, [], [], ?_, List.not_mem_nil, Or.inl rfl, rfl⟩
    rw [List.flatMap_nil, List.append_nil]
    rfl
  · have started : completePending (Sink.recorder ε) rule chunk ⟨delivered, buffer⟩ =
        (match chunk.findIdx? (· == newline) with
        | some position => do
          extend (chunk.take (position + 1))
          let line ← take
          emit (Sink.recorder ε) rule line
          pure (chunk.drop (position + 1))
        | none => do
          extend chunk
          pure [] : Mutation ε (LineFilter (List UInt8)) (List UInt8)) ⟨delivered, buffer⟩ := by
      change (if buffer = [] then _ else _ : Mutation ε _ _) _ = _
      rw [if_neg empty]
    rw [started]
    rcases found : chunk.findIdx? (· == newline) with _ | position
    · have absent : newline ∉ chunk := by
        intro member
        have none := List.findIdx?_eq_none_iff.mp found newline member
        simp at none
      refine ⟨[], [], buffer ++ chunk, ?_, ?_, Or.inr rfl, ?_⟩
      · rw [List.flatMap_nil, List.append_nil]
        rfl
      · rw [List.mem_append, not_or]
        exact ⟨plain, absent⟩
      · rw [Lines.cutFrom_plain absent]
        rfl
    · obtain ⟨inside, ends, before⟩ := List.findIdx?_eq_some_iff_getElem.mp found
      have first : newline ∉ chunk.take position := by
        intro member
        obtain ⟨place, below, same⟩ := List.mem_take_iff_getElem.mp member
        exact before place (by omega) (by rw [same]; rfl)
      have here : chunk[position] = newline := eq_of_beq ends
      have split : chunk = chunk.take position ++ newline :: chunk.drop (position + 1) := by
        rw [← here, ← List.drop_eq_getElem_cons inside, List.take_append_drop]
      have line : chunk.take (position + 1) = chunk.take position ++ [newline] := by
        rw [List.take_succ_eq_append_getElem inside, here]
      refine ⟨chunk.drop (position + 1), [buffer ++ chunk.take position ++ [newline]], [], ?_,
        List.not_mem_nil, Or.inl rfl, ?_⟩
      · rw [List.flatMap_singleton, List.append_assoc, ← line]
        rfl
      · conv_lhs => rw [split]
        rw [Lines.cutFrom_line first]
        rfl

private theorem writePieces_lines {lines : List (List UInt8)}
    (ended : ∀ line ∈ lines, line.getLast? = some newline) (pieces : List (List UInt8)) :
    writePieces (Sink.recorder ε) rule (lines ++ pieces) ⟨delivered, buffer⟩ =
      writePieces (Sink.recorder ε) rule pieces ⟨delivered ++ lines.flatMap rule, buffer⟩ := by
  induction lines generalizing delivered with
  | nil => rw [List.flatMap_nil, List.append_nil, List.nil_append]
  | cons line lines ih =>
    rw [List.flatMap_cons, ← List.append_assoc,
      ← ih fun other member => ended other (List.mem_cons_of_mem _ member)]
    change (if line.getLast? = some newline then _ else _ : Mutation ε _ Unit) _ = _
    rw [if_pos (ended line List.mem_cons_self)]
    rfl

private theorem writePieces_cut {carry rest : List UInt8} (plain : newline ∉ carry)
    (either : carry = [] ∨ rest = []) :
    writePieces (Sink.recorder ε) rule (Lines.split newline rest) ⟨delivered, carry⟩ =
      (.ok (), ⟨delivered ++ (cutFrom newline carry rest).1.flatMap rule,
        (cutFrom newline carry rest).2⟩) := by
  rcases either with rfl | rfl
  · rw [Lines.split, Lines.splitFrom_eq_cut,
      writePieces_lines fun line member => Lines.getLast?_of_mem_cut member]
    have left := Lines.cutFrom_rest_plain plain rest
    split_ifs with empty
    · rw [empty]
      rfl
    · have open_ : (cutFrom newline [] rest).2.getLast? ≠ some newline :=
        fun last => left (List.mem_of_getLast? last)
      change (if (cutFrom newline [] rest).2.getLast? = some newline then _ else _ :
        Mutation ε _ Unit) _ = _
      rw [if_neg open_]
      rfl
  · rw [cutFrom, List.flatMap_nil, List.append_nil]
    rfl

/-- A write delivers the lines it completes and keeps what follows them, but for a rest that has
reached the bound. -/
theorem write_cut (plain : newline ∉ buffer) (chunk : List UInt8) :
    write (Sink.recorder ε) rule chunk ⟨delivered, buffer⟩ =
      (.ok chunk.length,
        if maxFilteredLineBytes ≤ (cutFrom newline buffer chunk).2.length then
          ⟨delivered ++ (cutFrom newline buffer chunk).1.flatMap rule ++
            rule (cutFrom newline buffer chunk).2, []⟩
        else
          ⟨delivered ++ (cutFrom newline buffer chunk).1.flatMap rule,
            (cutFrom newline buffer chunk).2⟩) := by
  obtain ⟨rest, lines, carry, completed, carried, either, whole⟩ :=
    completePending_cut ε rule delivered plain chunk
  rw [write, Mutation.bind_of_ok completed, Mutation.bind_of_ok (writePieces_cut carried either),
    whole, List.flatMap_append, ← List.append_assoc]
  change (if maxFilteredLineBytes ≤ (cutFrom newline carry rest).2.length then _ else _ :
    Mutation ε _ ℕ) _ = _
  split_ifs
  · rfl
  · rfl

variable (ε rule delivered) in
/-- After a write nothing of its buffer is a complete line. -/
private theorem write_plain (plain : newline ∉ buffer) (chunk : List UInt8) :
    ∃ next carry, write (Sink.recorder ε) rule chunk ⟨delivered, buffer⟩ =
      (.ok chunk.length, ⟨next, carry⟩) ∧ newline ∉ carry := by
  rw [write_cut plain]
  split_ifs
  · exact ⟨_, _, rfl, List.not_mem_nil⟩
  · exact ⟨_, _, rfl, Lines.cutFrom_rest_plain plain chunk⟩

theorem writeEach_reports (plain : newline ∉ buffer) (writes : List (List UInt8)) :
    (writeEach (Sink.recorder ε) rule writes ⟨delivered, buffer⟩).1 =
      writes.map fun chunk => .ok chunk.length := by
  induction writes generalizing delivered buffer with
  | nil => rfl
  | cons chunk writes ih =>
    obtain ⟨next, carry, written, left⟩ :=
      write_plain ε rule delivered plain chunk
    rw [writeEach, written, List.map_cons, ← ih left]

theorem finish_sink (ending : Ending) :
    (finish (Sink.recorder ε) rule ⟨delivered, buffer⟩ ending).sink =
      delivered ++ (splitFrom newline buffer []).flatMap rule := by
  have left : (remainder (Sink.recorder ε) rule ⟨delivered, buffer⟩) =
      (.ok (), ⟨delivered ++ (splitFrom newline buffer []).flatMap rule, []⟩) := by
    change (if buffer ≠ [] then _ else _ : Mutation ε _ Unit) _ = _
    rw [Lines.splitFrom_nil]
    by_cases empty : buffer = []
    · rw [if_neg (not_not.mpr empty), if_pos empty, List.flatMap_nil, List.append_nil, empty]
      rfl
    · rw [if_pos empty, if_neg empty, List.flatMap_singleton]
      rfl
  cases ending with
  | flush =>
    change (flush (Sink.recorder ε) rule ⟨delivered, buffer⟩).2.sink = _
    rw [flush, Mutation.bind_of_ok left]
    rfl
  | drop =>
    change (drop (Sink.recorder ε) rule ⟨delivered, buffer⟩).sink = _
    rw [drop, left]
    rfl

/-- Each line is delivered once, rewritten, where none is longer than the bound. -/
theorem writeEach_lines (plain : newline ∉ buffer) (writes : List (List UInt8)) (ending : Ending)
    (short : ∀ line ∈ splitFrom newline buffer writes.flatten,
      line.length ≤ maxFilteredLineBytes) :
    (finish (Sink.recorder ε) rule
      (writeEach (Sink.recorder ε) rule writes ⟨delivered, buffer⟩).2 ending).sink =
      delivered ++ (splitFrom newline buffer writes.flatten).flatMap rule := by
  induction writes generalizing delivered buffer with
  | nil => exact finish_sink ending
  | cons chunk writes ih =>
    rw [writeEach, write_cut plain]
    rw [List.flatten_cons, Lines.splitFrom_append_cut] at short ⊢
    have left := Lines.cutFrom_rest_plain plain chunk
    split_ifs with full
    · -- The bound is reached, so nothing follows.
      have none : writes.flatten = [] := by
        by_contra more
        obtain ⟨line, member, longer⟩ :=
          Lines.exists_longer_line more (cutFrom newline buffer chunk).2
        have bound := short line (List.mem_append_right _ member)
        omega
      have some_ : (cutFrom newline buffer chunk).2 ≠ [] := by
        intro empty
        rw [empty] at full
        exact absurd full (by decide)
      have later := @ih (delivered ++ (cutFrom newline buffer chunk).1.flatMap rule ++
        rule (cutFrom newline buffer chunk).2) [] List.not_mem_nil
      rw [none, Lines.splitFrom_nil, if_pos rfl] at later
      rw [none, Lines.splitFrom_nil, if_neg some_, List.flatMap_append, List.flatMap_singleton,
        ← List.append_assoc]
      refine (later fun _ member => absurd member List.not_mem_nil).trans ?_
      rw [List.flatMap_nil, List.append_nil]
    · rw [List.flatMap_append, ← List.append_assoc]
      exact ih left fun line member => short line (List.mem_append_right _ member)

/-- Where the rule changes nothing, all bytes arrive in their order. -/
theorem writeEach_id (plain : newline ∉ buffer) (writes : List (List UInt8)) (ending : Ending) :
    (finish (Sink.recorder ε) id
      (writeEach (Sink.recorder ε) id writes ⟨delivered, buffer⟩).2 ending).sink =
      delivered ++ buffer ++ writes.flatten := by
  induction writes generalizing delivered buffer with
  | nil =>
    refine (finish_sink ending).trans ?_
    rw [List.flatMap_id, Lines.splitFrom_flatten, List.flatten_nil, List.append_assoc]
  | cons chunk writes ih =>
    rw [writeEach, write_cut plain]
    have whole : (cutFrom newline buffer chunk).1.flatten ++ (cutFrom newline buffer chunk).2 =
        buffer ++ chunk := Lines.cutFrom_flatten buffer chunk
    split_ifs
    · refine (ih List.not_mem_nil).trans ?_
      rw [List.append_nil, List.flatMap_id, id, List.append_assoc delivered, whole,
        List.flatten_cons, List.append_assoc, List.append_assoc, List.append_assoc]
    · refine (ih (Lines.cutFrom_rest_plain plain chunk)).trans ?_
      rw [List.flatMap_id, List.append_assoc delivered, whole, List.flatten_cons,
        List.append_assoc, List.append_assoc, List.append_assoc]

/-- Everything written through a new filter, what each write reports and what arrives. -/
def run (ε : Type) (rule : List UInt8 → List UInt8) (writes : List (List UInt8))
    (ending : Ending) : List (Except ε ℕ) × List UInt8 :=
  let (reports, filter) := writeEach (Sink.recorder ε) rule writes (wrapStream [])
  (reports, (finish (Sink.recorder ε) rule filter ending).sink)

/-- However a stream is cut into writes, each consumes all of its input, no byte is lost, repeated or
moved, and the lines arrive rewritten one by one if none is longer than the bound. -/
theorem run_lines (ε : Type) (rule : List UInt8 → List UInt8) (writes : List (List UInt8))
    (ending : Ending) :
    (run ε rule writes ending).1 = writes.map (fun chunk => .ok chunk.length) ∧
    ((∀ line ∈ Lines.split newline writes.flatten, line.length ≤ maxFilteredLineBytes) →
      (run ε rule writes ending).2 = (Lines.split newline writes.flatten).flatMap rule) ∧
    ((∀ chunk, rule chunk = chunk) → (run ε rule writes ending).2 = writes.flatten) := by
  refine ⟨writeEach_reports List.not_mem_nil writes, fun short => ?_, fun same => ?_⟩
  · exact (writeEach_lines List.not_mem_nil writes ending short).trans (List.nil_append _)
  · obtain rfl : rule = id := funext same
    exact (writeEach_id List.not_mem_nil writes ending).trans (List.nil_append _)

theorem run_lines_sample :
    (run Unit List.reverse [[97], [98, 10, 99]] .drop).2 = [10, 98, 97, 99] ∧
      (run Unit id [[97], [98, 10, 99]] .flush).2 = [97, 98, 10, 99] :=
  ⟨((run_lines Unit List.reverse [[97], [98, 10, 99]] .drop).2.1 (by decide)).trans (by decide),
    (run_lines Unit id [[97], [98, 10, 99]] .flush).2.2 fun _ => rfl⟩

section Sinks

variable {ε δ σ τ : Type} {near : Sink ε σ} {far : Sink δ τ} {R : σ → τ → Prop} {T : σ → σ → Prop}
  {rule : List UInt8 → List UInt8}

/-- Two filters that carry the same bytes, before related sinks. -/
def Beside (R : σ → τ → Prop) (left : LineFilter σ) (right : LineFilter τ) : Prop :=
  left.buffer = right.buffer ∧ R left.sink right.sink

/-- What one sink takes, the other takes as well. -/
def Echoes (near : Sink ε σ) (far : Sink δ τ) (R : σ → τ → Prop) : Prop :=
  ∀ bytes s t, R s t → Mutation.FollowsAt R s t (near.writeAll bytes) (far.writeAll bytes)

variable {left : LineFilter σ} {right : LineFilter τ}

theorem emit_follows (echoes : Echoes near far R) (beside : Beside R left right) (chunk : List UInt8) :
    Mutation.FollowsAt (Beside R) left right (emit near rule chunk) (emit far rule chunk) := by
  unfold emit onSink
  exact .focus (echoes _ _ _ beside.2) fun _ _ related => ⟨beside.1, related⟩

theorem extend_follows (beside : Beside R left right) (piece : List UInt8) :
    Mutation.FollowsAt (Beside R) left right (extend piece : Mutation ε _ Unit)
      (extend piece : Mutation δ _ Unit) :=
  .update ⟨congrArg (· ++ piece) beside.1, beside.2⟩

theorem take_follows (beside : Beside R left right) :
    Mutation.FollowsAt (Beside R) left right (take : Mutation ε _ _) (take : Mutation δ _ _) := by
  intro a mid done
  cases done
  exact ⟨_, congrArg (fun buffer => (Except.ok buffer, _)) beside.1.symm, rfl, beside.2⟩

theorem completePending_follows (echoes : Echoes near far R) (beside : Beside R left right)
    (chunk : List UInt8) : Mutation.FollowsAt (Beside R) left right (completePending near rule chunk)
      (completePending far rule chunk) := by
  refine .read_bind ?_
  by_cases empty : right.buffer = []
  · rw [if_pos (beside.1.trans empty), if_pos empty]
    exact .pure beside chunk
  · rw [if_neg (beside.1 ▸ empty), if_neg empty]
    split
    · exact .bind (extend_follows beside _) fun _ _ _ beside => .bind (take_follows beside)
        fun line _ _ beside => .bind (emit_follows echoes beside line) fun _ _ _ beside => .pure beside _
    · exact .bind (extend_follows beside _) fun _ _ _ beside => .pure beside _

theorem writePieces_follows (echoes : Echoes near far R) (beside : Beside R left right)
    (pieces : List (List UInt8)) : Mutation.FollowsAt (Beside R) left right
      (writePieces near rule pieces) (writePieces far rule pieces) := by
  induction pieces generalizing left right with
  | nil => exact .pure beside ()
  | cons piece pieces ih =>
    rw [writePieces, writePieces]
    split_ifs
    · exact .bind (emit_follows echoes beside piece) fun _ _ _ beside => ih beside
    · exact .bind (extend_follows beside piece) fun _ _ _ beside => ih beside

/-- A write that succeeds before one sink does so before the other. -/
theorem write_follows (echoes : Echoes near far R) (beside : Beside R left right)
    (buffer : List UInt8) :
    Mutation.FollowsAt (Beside R) left right (write near rule buffer) (write far rule buffer) := by
  refine .bind (completePending_follows echoes beside buffer) fun rest _ _ beside =>
    .bind (writePieces_follows echoes beside _) fun _ mid other beside => .read_bind ?_
  rw [beside.1]
  split_ifs
  · exact .bind (take_follows beside) fun chunk _ _ beside =>
      .bind (emit_follows echoes beside chunk) fun _ _ _ beside => .pure beside _
  · exact .pure beside _

theorem remainder_follows (echoes : Echoes near far R) (beside : Beside R left right) :
    Mutation.FollowsAt (Beside R) left right (remainder near rule) (remainder far rule) := by
  refine .read_bind ?_
  rw [beside.1]
  split_ifs
  · exact .bind (take_follows beside) fun _ _ _ beside => emit_follows echoes beside _
  · exact .pure beside ()

/-- A relation between the sinks of two filters. -/
def OnSink (T : σ → σ → Prop) (before after : LineFilter σ) : Prop := T before.sink after.sink

/-- What a write, successful or not, does to the sink is what the sink does to itself. -/
theorem write_moves (refl : ∀ s, T s s) (trans : ∀ a b c, T a b → T b c → T a c)
    (each : ∀ bytes, (near.writeAll bytes).Moves T) (buffer : List UInt8) :
    (write near rule buffer).Moves (OnSink T) := by
  have emits (chunk : List UInt8) : (emit near rule chunk).Moves (OnSink T) :=
    fun filter => each (rule chunk) filter.sink
  have still (filter : LineFilter σ) : OnSink T filter filter := refl filter.sink
  have onward (a b c : LineFilter σ) : OnSink T a b → OnSink T b c → OnSink T a c := trans _ _ _
  have completes (chunk : List UInt8) : (completePending near rule chunk).Moves (OnSink T) := by
    refine .bind onward still fun filter => ?_
    by_cases empty : filter.buffer = []
    · rw [if_pos empty]
      exact still
    · rw [if_neg empty]
      split
      · refine .bind onward (fun filter => refl filter.sink) fun _ => ?_
        refine .bind onward (fun filter => refl filter.sink) fun _ => ?_
        exact .bind onward (emits _) fun _ => still
      · exact .bind onward (fun filter => refl filter.sink) fun _ => still
  have pieces (pieces : List (List UInt8)) : (writePieces near rule pieces).Moves (OnSink T) := by
    induction pieces with
    | nil => exact still
    | cons piece pieces ih =>
      rw [writePieces]
      split_ifs
      · exact .bind onward (emits piece) fun _ => ih
      · exact .bind onward (fun filter => refl filter.sink) fun _ => ih
  refine .bind onward (completes buffer) fun _ => .bind onward (pieces _) fun _ => ?_
  refine .bind onward still fun _ => ?_
  split_ifs
  · refine .bind onward (fun filter => refl filter.sink) fun _ => ?_
    exact .bind onward (emits _) fun _ => still
  · exact still

theorem remainder_moves (refl : ∀ s, T s s) (trans : ∀ a b c, T a b → T b c → T a c)
    (each : ∀ bytes, (near.writeAll bytes).Moves T) : (remainder near rule).Moves (OnSink T) := by
  have onward (a b c : LineFilter σ) : OnSink T a b → OnSink T b c → OnSink T a c := trans _ _ _
  refine .bind onward (fun filter => refl filter.sink) fun _ => ?_
  split_ifs
  · refine .bind onward (fun filter => refl filter.sink) fun _ => ?_
    exact fun filter => each _ filter.sink
  · exact fun filter => refl filter.sink

/-- What succeeds on the sink leaves what is carried. -/
theorem onSink_ok {α : Type} {operation : Mutation ε σ α} {filter after : LineFilter σ} {a : α}
    (done : Mutation.focus LineFilter.sink (fun sink filter => { filter with sink }) operation filter =
      (.ok a, after)) : ∃ sink, operation filter.sink = (.ok a, sink) ∧ after = ⟨sink, filter.buffer⟩ := by
  obtain ⟨sink, moved, same⟩ := Mutation.focus_eq_ok.mp done
  exact ⟨sink, moved, same.symm⟩

/-- A flush that succeeds carries nothing over. -/
theorem flush_ok {filter after : LineFilter σ} {done : Unit}
    (flushed : flush near rule filter = (.ok done, after)) :
    after.buffer = [] ∧ ∃ sink, near.flush sink = (.ok done, after.sink) := by
  obtain ⟨_, mid, left, flushed⟩ := Mutation.bind_eq_ok.mp flushed
  obtain ⟨sink, ended, rfl⟩ := onSink_ok flushed
  refine ⟨?_, mid.sink, ended⟩
  change mid.buffer = []
  obtain ⟨_, _, seen, left⟩ := Mutation.bind_eq_ok.mp left
  obtain ⟨rfl, rfl⟩ := Mutation.read_eq_ok.mp seen
  split_ifs at left with carried
  · obtain ⟨chunk, taken, took, left⟩ := Mutation.bind_eq_ok.mp left
    cases took
    obtain ⟨_, -, rfl⟩ := onSink_ok left
    rfl
  · obtain ⟨-, rfl⟩ := Mutation.pure_eq_ok.mp left
    exact not_not.mp carried

/-- A filter that carries nothing, before a sink that a flush leaves alone, is dropped as it is. -/
theorem drop_of_empty {filter : LineFilter σ} (empty : filter.buffer = [])
    (still : (near.flush filter.sink).2 = filter.sink) : drop near rule filter = filter := by
  have left : remainder near rule filter = (.ok (), filter) := by
    change (if filter.buffer ≠ [] then _ else _ : Mutation ε (LineFilter σ) Unit) filter = _
    rw [if_neg (not_not.mpr empty)]
    rfl
  rw [drop, left]
  change { filter with sink := (near.flush filter.sink).2 } = filter
  rw [still]

end Sinks

end LineFilter

end Harkness.Runtime.Observe
