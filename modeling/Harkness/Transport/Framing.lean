import Harkness.ToMathlib.Lines
import Harkness.Transport.Frame
import Mathlib.Data.List.TakeWhile

/-! # What the splitter makes of a stream

The state of a splitter is determined by the bytes after the last newline alone, however they arrived.
From this, one chunk takes the state of the bytes before it to the state of the bytes with it, and any
sequence of reads delivers the lines of the whole stream.
-/

namespace Harkness.Transport

open Lines (cutFrom)

variable {ν : Type} {limit : ℕ} {read run : List UInt8} {lines : List (List UInt8)}

/-- The bytes without a carriage return at their end. -/
def strip (bytes : List UInt8) : List UInt8 :=
  if bytes.getLast? = some carriageReturn then bytes.dropLast else bytes

/-- A line without its newline, and without a carriage return before it. -/
def content (line : List UInt8) : List UInt8 :=
  strip (if line.getLast? = some newline then line.dropLast else line)

/-- Whether the content of a line is within the bound. -/
def fits (limit : ℕ) (line : List UInt8) : Bool := (content line).length ≤ limit

/-- The contents handed on for some lines: those that are not blank. -/
def delivered (lines : List (List UInt8)) : List (List UInt8) := (lines.map content).filter (· ≠ [])

theorem content_line (body : List UInt8) : content (body ++ [newline]) = strip body := by
  rw [content, if_pos List.getLast?_concat, List.dropLast_concat]

theorem content_plain {line : List UInt8} (plain : newline ∉ line) : content line = strip line := by
  rw [content, if_neg fun last => plain (List.mem_of_getLast? last)]

theorem delivered_append (first second : List (List UInt8)) :
    delivered (first ++ second) = delivered first ++ delivered second := by
  rw [delivered, List.map_append, List.filter_append]
  rfl

/-- A blank line is skipped. -/
theorem delivered_line (body : List UInt8) :
    delivered [body ++ [newline]] = if strip body = [] then [] else [strip body] := by
  rw [delivered, List.map_singleton, content_line]
  split_ifs with blank
  · rw [blank]
    rfl
  · exact List.filter_cons_of_pos (decide_eq_true blank)

theorem strip_append (read : List UInt8) (filled : run ≠ []) :
    strip (read ++ run) = read ++ strip run := by
  rw [strip, strip, List.getLast?_append_of_ne_nil _ filled, List.dropLast_append_of_ne_nil filled]
  split_ifs <;> rfl

theorem length_strip (bytes : List UInt8) :
    (strip bytes).length ≤ bytes.length ∧ bytes.length ≤ (strip bytes).length + 1 := by
  rw [strip]
  split_ifs
  · rw [List.length_dropLast]
    omega
  · omega

/-- More of a line is not shorter. -/
theorem length_strip_append (read run : List UInt8) :
    (strip read).length ≤ (strip (read ++ run)).length := by
  rcases eq_or_ne run [] with rfl | filled
  · rw [List.append_nil]
  · rw [strip_append read filled, List.length_append]
    have shorter := (length_strip read).1
    omega

/-- The splitter after the bytes of an unfinished line. -/
def LineSplitter.holding (limit : ℕ) (read : List UInt8) : LineSplitter :=
  ⟨limit, strip read, decide (read.getLast? = some carriageReturn)⟩

/-- The refusal of a line that is too long. -/
def refusal (limit : ℕ) : TransportError := .messageTooLarge (limit + 1) limit

namespace LineSplitter

/-- A partial line is reported when there are bytes after the last newline. -/
theorem hasPartialLine_holding : (holding limit read).hasPartialLine = true ↔ read ≠ [] := by
  constructor
  · rintro part rfl
    cases part
  · intro filled
    by_cases deferred : read.getLast? = some carriageReturn
    · simp only [hasPartialLine, holding, deferred, decide_true, Bool.or_true]
    · simp [hasPartialLine, holding, strip, deferred, filled]

theorem extend_pending (pending : List UInt8) (deferred : Bool) :
    extend run ⟨limit, pending, deferred⟩ =
      if (pending ++ run).length ≤ limit then (.ok (), ⟨limit, pending ++ run, deferred⟩)
      else (.error (refusal limit), ⟨limit, [], deferred⟩) := by
  rw [extend, List.length_append]
  dsimp only
  split_ifs with over_ within
  · omega
  · rfl
  · rfl
  · omega

/-- A carriage return that is held back becomes content when it fits. -/
private theorem settle_holding : settle (holding limit read) =
    if read.getLast? = some carriageReturn ∧ limit < read.length then
      (.error (refusal limit), new limit)
    else (.ok (), ⟨limit, read, false⟩) := by
  by_cases deferred : read.getLast? = some carriageReturn
  · have whole : strip read ++ [carriageReturn] = read := by
      rw [strip, if_pos deferred]
      exact List.dropLast_append_getLast? _ deferred
    rw [settle, holding, if_pos (decide_eq_true deferred)]
    dsimp only
    rw [extend_pending, whole]
    split_ifs with within over_ over_
    · omega
    · rfl
    · rfl
    · exact absurd ⟨deferred, Nat.lt_of_not_le within⟩ over_
  · have same : strip read = read := if_neg deferred
    rw [settle, holding, if_neg (by simpa using deferred), if_neg fun over_ => deferred over_.1, same]
    rw [decide_eq_false deferred]

private theorem holdBack_settled (filled : run ≠ []) : holdBack run ⟨limit, read, false⟩ =
    if (strip (read ++ run)).length ≤ limit then (.ok (), holding limit (read ++ run))
    else (.error (refusal limit), new limit) := by
  have last : (read ++ run).getLast? = run.getLast? := List.getLast?_append_of_ne_nil _ filled
  rw [holding, last, strip_append read filled, holdBack, strip]
  by_cases deferred : run.getLast? = some carriageReturn
  · rw [if_pos deferred, if_pos deferred, decide_eq_true deferred]
    by_cases within : (read ++ run.dropLast).length ≤ limit
    · have taken : extend run.dropLast ⟨limit, read, false⟩ =
          (.ok (), ⟨limit, read ++ run.dropLast, false⟩) := by rw [extend_pending, if_pos within]
      rw [if_pos within]
      exact Mutation.bind_of_ok taken
    · have refused : extend run.dropLast ⟨limit, read, false⟩ = (.error (refusal limit), new limit) := by
        rw [extend_pending, if_neg within]
        rfl
      rw [if_neg within]
      exact Mutation.bind_of_error refused
  · rw [if_neg deferred, if_neg deferred, decide_eq_false deferred, extend_pending]
    rfl

/-- A run takes the state of the bytes before it to the state of the bytes with it. -/
theorem absorb_holding (within : (strip read).length ≤ limit) (run : List UInt8) :
    absorb run (holding limit read) =
      if (strip (read ++ run)).length ≤ limit then (.ok (), holding limit (read ++ run))
      else (.error (refusal limit), new limit) := by
  rcases eq_or_ne run [] with rfl | filled
  · rw [absorb, if_pos rfl, List.append_nil, if_pos within]
    rfl
  · rw [absorb, if_neg filled]
    by_cases over_ : read.getLast? = some carriageReturn ∧ limit < read.length
    · -- the held-back byte alone is one too many
      have longer : ¬(strip (read ++ run)).length ≤ limit := by
        rw [strip_append read filled, List.length_append]
        omega
      have refused : settle (holding limit read) = (.error (refusal limit), new limit) := by
        rw [settle_holding, if_pos over_]
      rw [if_neg longer]
      exact Mutation.bind_of_error refused
    · have settled : settle (holding limit read) = (.ok (), ⟨limit, read, false⟩) := by
        rw [settle_holding, if_neg over_]
      exact (Mutation.bind_of_ok settled).trans (holdBack_settled filled)

end LineSplitter

/-- What a stream comes to, given its complete lines and what follows them: all of it, or the lines
before the first one that is too long. -/
def outcome (limit : ℕ) (lines : List (List UInt8)) (cut : List (List UInt8) × List UInt8) :
    Except TransportError Unit × Feeding :=
  if cut.1.all (fits limit) ∧ (strip cut.2).length ≤ limit then
    (.ok (), ⟨.holding limit cut.2, lines ++ delivered cut.1⟩)
  else (.error (refusal limit), ⟨.new limit, lines ++ delivered (cut.1.takeWhile (fits limit))⟩)

/-- Lines within the bound are handed on before what follows them. -/
theorem outcome_append {first second : List (List UInt8)} {rest : List UInt8}
    (within : ∀ line ∈ first, fits limit line = true) :
    outcome limit lines (first ++ second, rest) =
      outcome limit (lines ++ delivered first) (second, rest) := by
  have all : first.all (fits limit) = true := List.all_eq_true.mpr within
  simp only [outcome, List.all_append, all, Bool.true_and, List.takeWhile_append_of_pos within,
    delivered_append, List.append_assoc]

theorem outcome_of_long {line : List UInt8} {second : List (List UInt8)} {rest : List UInt8}
    (long : fits limit line = false) :
    outcome limit lines (line :: second, rest) = (.error (refusal limit), ⟨.new limit, lines⟩) := by
  simp only [outcome, List.all_cons, long, Bool.false_and, Bool.false_eq_true, false_and, if_false,
    List.takeWhile_cons, delivered, List.map_nil, List.filter_nil, List.append_nil]

/-- Nothing behind a line that is too long counts. -/
theorem outcome_of_not_all {first second : List (List UInt8)} {rest : List UInt8}
    (long : first.all (fits limit) = false) :
    outcome limit lines (first ++ second, rest) =
      (.error (refusal limit), ⟨.new limit, lines ++ delivered (first.takeWhile (fits limit))⟩) := by
  have whole := first.takeWhile_append_dropWhile (p := fits limit)
  have before : ∀ line ∈ first.takeWhile (fits limit), fits limit line = true :=
    fun line => List.mem_takeWhile_imp
  cases behind : first.dropWhile (fits limit) with
  | nil =>
    rw [behind, List.append_nil] at whole
    rw [← whole, List.all_eq_true.mpr before] at long
    cases long
  | cons line more =>
    have over_ : fits limit line = false := by
      have head := List.head?_dropWhile_not (fits limit) first
      rw [behind] at head
      exact head
    rw [behind] at whole
    conv_lhs => rw [← whole]
    rw [List.append_assoc, outcome_append before, List.cons_append, outcome_of_long over_]

/-- Lines handed on earlier stay in front. -/
theorem outcome_lines (lines : List (List UInt8)) (cut : List (List UInt8) × List UInt8) :
    outcome limit lines cut = ((outcome limit [] cut).1,
      ⟨(outcome limit [] cut).2.splitter, lines ++ (outcome limit [] cut).2.lines⟩) := by
  rw [outcome, outcome]
  split_ifs <;> rfl

namespace Feeding

theorem onSplitter_holding (within : (strip read).length ≤ limit) (run : List UInt8) :
    onSplitter (LineSplitter.absorb run) ⟨.holding limit read, lines⟩ =
      if (strip (read ++ run)).length ≤ limit then
        (.ok (), ⟨.holding limit (read ++ run), lines⟩)
      else (.error (refusal limit), ⟨.new limit, lines⟩) := by
  rw [onSplitter, Mutation.focus]
  dsimp only
  rw [LineSplitter.absorb_holding within]
  split_ifs <;> rfl

theorem endLine_holding : endLine ⟨.holding limit read, lines⟩ =
    (.ok (), ⟨.holding limit [], lines ++ delivered [read ++ [newline]]⟩) := by
  rw [delivered_line]
  change (Except.ok (), (⟨.holding limit [],
    if strip read = [] then lines else lines ++ [strip read]⟩ : Feeding)) = _
  split_ifs
  · rw [List.append_nil]
  · rfl

/-- A chunk takes the state of the bytes before it to what the bytes with it come to. -/
theorem feedFrom_holding (within : (strip read).length ≤ limit) (run chunk : List UInt8) :
    feedFrom run chunk ⟨.holding limit read, lines⟩ =
      outcome limit lines (cutFrom newline (read ++ run) chunk) := by
  induction chunk generalizing read run lines with
  | nil =>
    rw [feedFrom, onSplitter_holding within, cutFrom, outcome]
    simp only [List.all_nil, true_and, List.takeWhile_nil, delivered, List.map_nil, List.filter_nil,
      List.append_nil]
  | cons byte chunk ih =>
    rw [feedFrom, cutFrom]
    by_cases ends : byte = newline
    · subst ends
      have line : fits limit (read ++ run ++ [newline]) = decide ((strip (read ++ run)).length ≤ limit) := by
        rw [fits, content_line]
      rw [if_pos rfl, if_pos rfl]
      by_cases long : (strip (read ++ run)).length ≤ limit
      · have taken : onSplitter (LineSplitter.absorb run) ⟨.holding limit read, lines⟩ =
            (.ok (), ⟨.holding limit (read ++ run), lines⟩) := by
          rw [onSplitter_holding within, if_pos long]
        have first : ∀ other ∈ [read ++ run ++ [newline]], fits limit other = true := by
          intro other member
          rw [List.mem_singleton.mp member, line, decide_eq_true long]
        rw [Mutation.bind_of_ok taken, Mutation.bind_of_ok endLine_holding, ih (Nat.zero_le _),
          List.nil_append]
        exact (outcome_append first).symm
      · have refused : onSplitter (LineSplitter.absorb run) ⟨.holding limit read, lines⟩ =
            (.error (refusal limit), ⟨.new limit, lines⟩) := by
          rw [onSplitter_holding within, if_neg long]
        rw [Mutation.bind_of_error refused, outcome_of_long (line.trans (decide_eq_false long))]
    · rw [if_neg ends, if_neg ends, ih within, List.append_assoc]

/-- What is too long before a chunk is too long with it. -/
private theorem outcome_of_over (long : limit < (strip read).length) (chunk : List UInt8) :
    outcome limit lines (cutFrom newline read chunk) = (.error (refusal limit), ⟨.new limit, lines⟩) := by
  induction chunk generalizing read with
  | nil =>
    rw [cutFrom, outcome, if_neg fun both => Nat.not_le.mpr long both.2]
    simp only [List.takeWhile_nil, delivered, List.map_nil, List.filter_nil, List.append_nil]
  | cons byte chunk ih =>
    rw [cutFrom]
    split_ifs with ends
    · refine outcome_of_long ?_
      rw [fits, ends, content_line]
      exact decide_eq_false (Nat.not_le.mpr long)
    · exact ih (Nat.lt_of_lt_of_le long (length_strip_append read [byte]))

/-- However a stream is cut into reads, it comes to what the whole of it comes to. -/
theorem feedAll_holding (within : (strip read).length ≤ limit) (chunks : List (List UInt8)) :
    feedAll chunks ⟨.holding limit read, lines⟩ =
      outcome limit lines (cutFrom newline read chunks.flatten) := by
  induction chunks generalizing read lines with
  | nil =>
    rw [List.flatten_nil, cutFrom, outcome, if_pos ⟨rfl, within⟩]
    simp only [delivered, List.map_nil, List.filter_nil, List.append_nil]
    rfl
  | cons chunk chunks ih =>
    have first : feedFrom [] chunk ⟨.holding limit read, lines⟩ = _ := feedFrom_holding within [] chunk
    rw [List.append_nil] at first
    rw [List.flatten_cons, Lines.cutFrom_append, feedAll]
    generalize cutFrom newline read chunk = cut at first
    by_cases all : cut.1.all (fits limit) = true
    · rw [outcome_append (List.all_eq_true.mp all)]
      by_cases short : (strip cut.2).length ≤ limit
      · rw [outcome, if_pos ⟨all, short⟩] at first
        exact (Mutation.bind_of_ok first).trans (ih short)
      · rw [outcome, if_neg fun both => short both.2] at first
        refine (Mutation.bind_of_error first).trans ?_
        rw [outcome_of_over (Nat.lt_of_not_le short), List.takeWhile_eq_self_iff.mpr
          (List.all_eq_true.mp all)]
    · rw [outcome, if_neg fun both => all both.1] at first
      rw [outcome_of_not_all (Bool.eq_false_iff.mpr all)]
      exact Mutation.bind_of_error first

end Feeding

/-- The bytes a text is written as. -/
def textBytes (text : String) : List UInt8 := Utf8.encode text.toList

theorem findTerminator_eq_none {text : List Char} :
    findTerminator text = none ↔ '\n' ∉ text ∧ '\r' ∉ text := by
  induction text with
  | nil => simp [findTerminator]
  | cons character rest ih =>
    rw [findTerminator]
    split_ifs with ends
    · rcases ends with rfl | rfl <;> simp
    · rw [Option.map_eq_none_iff, ih]
      simp only [List.mem_cons, not_or]
      grind

theorem frame_eq_ok {encoded framed : String} : frame encoded = .ok framed ↔
    ('\n' ∉ encoded.toList ∧ '\r' ∉ encoded.toList) ∧ framed = encoded ++ "\n" := by
  rw [frame, ← findTerminator_eq_none]
  cases findTerminator encoded.toList with
  | none => simp [eq_comm]
  | some offset => simp

theorem textBytes_append (first second : String) :
    textBytes (first ++ second) = textBytes first ++ textBytes second := by
  rw [textBytes, String.toList_append, Utf8.encode_append]
  rfl

/-- A framed message is one line, and its content is the message. -/
theorem framed_line {encoded framed : String} (success : frame encoded = .ok framed) :
    textBytes framed = textBytes encoded ++ [newline] ∧ newline ∉ textBytes encoded ∧
      strip (textBytes encoded) = textBytes encoded := by
  obtain ⟨⟨noNewline, noReturn⟩, rfl⟩ := frame_eq_ok.mp success
  refine ⟨textBytes_append encoded "\n", fun member => ?_, if_neg fun last => ?_⟩
  · exact noNewline (Utf8.mem_of_byte_mem (by decide) member)
  · exact noReturn (Utf8.mem_of_byte_mem (by decide) (List.mem_of_getLast? last))

/-- Framed messages are cut where they were framed. -/
theorem cutFrom_framed {messages framed : List String}
    (frames : List.Forall₂ (fun message line => frame message = .ok line) messages framed) :
    cutFrom newline [] (framed.flatMap textBytes) =
      (messages.map fun message => textBytes message ++ [newline], []) := by
  induction frames with
  | nil => rfl
  | @cons message line messages framed first _ ih =>
    obtain ⟨bytes, plain, -⟩ := framed_line first
    rw [List.flatMap_cons, bytes, List.append_assoc, List.singleton_append,
      Lines.cutFrom_line plain, ih, List.nil_append, List.map_cons]

theorem delivered_framed {messages framed : List String}
    (frames : List.Forall₂ (fun message line => frame message = .ok line) messages framed)
    (filled : ∀ message ∈ messages, message ≠ "") :
    delivered (messages.map fun message => textBytes message ++ [newline]) =
      messages.map textBytes := by
  induction frames with
  | nil => rfl
  | @cons message line messages framed first _ ih =>
    obtain ⟨-, -, whole⟩ := framed_line first
    obtain ⟨some_, others⟩ := List.forall_mem_cons.mp filled
    have bytes : textBytes message ≠ [] := fun empty => some_ <| by
      have none_ : textBytes message = textBytes "" := empty
      exact String.toList_inj.mp (Utf8.encode_injective none_)
    rw [List.map_cons, ← List.singleton_append, delivered_append, delivered_line, whole,
      if_neg bytes, ih others]
    rfl

section Reading

variable (decode : List UInt8 → Except TransportError (Message ν))

/-- The events of the lines handed on, and of the end of the stream. -/
def report (fed : Except TransportError Unit × Feeding) : List (ReaderEvent ν) :=
  let (events, last) := decodeLines decode fed.2.lines
  if last then events
  else
    match fed.1 with
    | .error fault => events ++ [.fault fault]
    | .ok () => events ++ [.closed fed.2.splitter.hasPartialLine]

theorem decodeLines_append (first second : List (List UInt8)) :
    decodeLines decode (first ++ second) =
      if (decodeLines decode first).2 then decodeLines decode first
      else ((decodeLines decode first).1 ++ (decodeLines decode second).1,
        (decodeLines decode second).2) := by
  induction first with
  | nil => rfl
  | cons line first ih =>
    rw [List.cons_append, decodeLines, decodeLines]
    cases decode line with
    | error fault => rfl
    | ok message =>
      dsimp only
      rw [ih]
      split_ifs <;> rfl

theorem report_append {result : Except TransportError Unit} {splitter : LineSplitter}
    (first second : List (List UInt8)) :
    report decode (result, ⟨splitter, first ++ second⟩) =
      if (decodeLines decode first).2 then (decodeLines decode first).1
      else (decodeLines decode first).1 ++ report decode (result, ⟨splitter, second⟩) := by
  rw [report, decodeLines_append, report]
  dsimp only
  by_cases last : (decodeLines decode first).2 = true
  · rw [if_pos last, if_pos last, if_pos last]
  · rw [if_neg last, if_neg last]
    dsimp only
    split_ifs
    · rfl
    · cases result with
      | error fault => exact List.append_assoc _ _ _
      | ok _ => exact List.append_assoc _ _ _

/-- The events of a stream are those of the lines of the whole of it. -/
theorem readMessages_holding (within : (strip read).length ≤ limit) {reads : List Read}
    (open_ : ∀ each ∈ reads, each ≠ .ended) :
    readMessages decode (reads ++ [.ended]) (.holding limit read) =
      report decode (Feeding.feedAll (reads.filterMap Read.data?) ⟨.holding limit read, []⟩) := by
  induction reads generalizing read with
  | nil => rfl
  | cons each reads ih =>
    obtain ⟨here, others⟩ := List.forall_mem_cons.mp open_
    cases each with
    | ended => exact absurd rfl here
    | interrupted => exact ih within others
    | data bytes =>
      obtain ⟨cut, first⟩ : ∃ cut, Feeding.feed bytes ⟨.holding limit read, []⟩ = outcome limit [] cut :=
        ⟨_, Feeding.feedFrom_holding within [] bytes⟩
      have datas : (Read.data bytes :: reads).filterMap Read.data? = bytes :: reads.filterMap Read.data? :=
        rfl
      rw [List.cons_append, readMessages, first, datas, Feeding.feedAll]
      by_cases all : cut.1.all (fits limit) = true ∧ (strip cut.2).length ≤ limit
      · rw [outcome, if_pos all, List.nil_append] at first ⊢
        have later : Feeding.feedAll (reads.filterMap Read.data?)
            ⟨.holding limit cut.2, delivered cut.1⟩ = _ :=
          Feeding.feedAll_holding all.2 (reads.filterMap Read.data?)
        rw [Mutation.bind_of_ok first, later, outcome_lines, report_append]
        dsimp only
        rw [ih all.2 others, Feeding.feedAll_holding all.2]
      · rw [outcome, if_neg all, List.nil_append] at first ⊢
        rw [Mutation.bind_of_error first]
        rfl

end Reading

/-- What a new splitter comes to after some reads. -/
def fed (limit : ℕ) (chunks : List (List UInt8)) : Except TransportError Unit × Feeding :=
  Feeding.feedAll chunks ⟨.new limit, []⟩

theorem fed_eq (limit : ℕ) (chunks : List (List UInt8)) :
    fed limit chunks = outcome limit [] (cutFrom newline [] chunks.flatten) := by
  have empty : (strip []).length ≤ limit := Nat.zero_le limit
  exact Feeding.feedAll_holding empty chunks

theorem fed_lines (limit : ℕ) (chunks : List (List UInt8)) : (fed limit chunks).2.lines =
    delivered ((cutFrom newline [] chunks.flatten).1.takeWhile (fits limit)) := by
  rw [fed_eq, outcome]
  split_ifs with all
  · rw [List.takeWhile_eq_self_iff.mpr (List.all_eq_true.mp all.1)]
    rfl
  · rfl

/-- The last line counts as well when its newline has not come. -/
theorem fed_eq_ok {chunks : List (List UInt8)} : (fed limit chunks).1 = .ok () ↔
    ∀ line ∈ Lines.split newline chunks.flatten, (content line).length ≤ limit := by
  have plain : newline ∉ (cutFrom newline [] chunks.flatten).2 :=
    Lines.cutFrom_rest_plain List.not_mem_nil _
  rw [fed_eq, Lines.split, Lines.splitFrom_eq_cut]
  generalize cutFrom newline [] chunks.flatten = cut at plain
  have last : (∀ line ∈ if cut.2 = [] then [] else [cut.2], (content line).length ≤ limit) ↔
      (strip cut.2).length ≤ limit := by
    rw [← content_plain plain]
    split_ifs with none_
    · rw [none_]
      exact ⟨fun _ => Nat.zero_le limit, fun _ _ member => absurd member List.not_mem_nil⟩
    · exact List.forall_mem_singleton
  have first : (∀ line ∈ cut.1, (content line).length ≤ limit) ↔ cut.1.all (fits limit) = true := by
    simp only [List.all_eq_true, fits, decide_eq_true_eq]
  rw [List.forall_mem_append, first, last, outcome]
  split_ifs with all
  · exact ⟨fun _ => all, fun _ => rfl⟩
  · exact ⟨fun success => (by cases success), fun both => absurd both all⟩

theorem error_of_fed {chunks : List (List UInt8)} {error : TransportError}
    (failure : (fed limit chunks).1 = .error error) : error = refusal limit := by
  rw [fed_eq, outcome] at failure
  split_ifs at failure
  exact (Except.error.inj failure).symm

theorem splitter_of_fed {chunks : List (List UInt8)} (success : (fed limit chunks).1 = .ok ()) :
    (fed limit chunks).2.splitter = .holding limit (cutFrom newline [] chunks.flatten).2 := by
  rw [fed_eq, outcome] at success ⊢
  split_ifs at success ⊢
  rfl

/-- The bound holds of what is pending and of every line handed on. -/
theorem fed_bounded (limit : ℕ) (chunks : List (List UInt8)) :
    (fed limit chunks).2.splitter.pending.length ≤ limit ∧
      ∀ line ∈ (fed limit chunks).2.lines, line.length ≤ limit := by
  constructor
  · rw [fed_eq, outcome]
    split_ifs with all
    · exact all.2
    · exact Nat.zero_le limit
  · intro line member
    rw [fed_lines, delivered, List.mem_filter, List.mem_map] at member
    obtain ⟨⟨source, within, rfl⟩, -⟩ := member
    have fitting : fits limit source = true := List.mem_takeWhile_imp within
    exact of_decide_eq_true fitting

theorem fed_framed {messages framed : List String} {chunks : List (List UInt8)}
    (frames : List.Forall₂ (fun message line => frame message = .ok line) messages framed)
    (each : ∀ message ∈ messages, message ≠ "" ∧ (textBytes message).length ≤ limit)
    (stream : chunks.flatten = framed.flatMap textBytes) :
    fed limit chunks = (.ok (), ⟨.new limit, messages.map textBytes⟩) := by
  have within : ∀ line ∈ messages.map fun message => textBytes message ++ [newline],
      fits limit line = true := by
    intro line member
    obtain ⟨message, among, rfl⟩ := List.mem_map.mp member
    rw [fits, content_line]
    exact decide_eq_true ((length_strip _).1.trans (each message among).2)
  have filled : ∀ message ∈ messages, message ≠ "" := fun message among => (each message among).1
  rw [fed_eq, stream, cutFrom_framed frames, outcome,
    if_pos ⟨List.all_eq_true.mpr within, Nat.zero_le limit⟩, delivered_framed frames filled]
  rfl

/-- A stream in reads that may fall anywhere. -/
structure Splits (limit : ℕ) (chunks : List (List UInt8)) : Prop where
  /-- The complete lines are handed on in order, up to the first that is too long. -/
  lines : (fed limit chunks).2.lines =
    delivered ((cutFrom newline [] chunks.flatten).1.takeWhile (fits limit))
  /-- A line that is too long is refused, also while its newline has not come. -/
  fails : (fed limit chunks).1 ≠ .ok () ↔
    ∃ line ∈ Lines.split newline chunks.flatten, limit < (content line).length
  refused : ∀ error, (fed limit chunks).1 = .error error → error = refusal limit
  part : (fed limit chunks).1 = .ok () → ((fed limit chunks).2.splitter.hasPartialLine = true ↔
    (cutFrom newline [] chunks.flatten).2 ≠ [])
  bounded : (fed limit chunks).2.splitter.pending.length ≤ limit ∧
    ∀ line ∈ (fed limit chunks).2.lines, line.length ≤ limit
  /-- Framed messages arrive as they were. -/
  recovered : ∀ messages framed : List String,
    List.Forall₂ (fun message line => frame message = .ok line) messages framed →
    (∀ message ∈ messages, message ≠ "" ∧ (textBytes message).length ≤ limit) →
    chunks.flatten = framed.flatMap textBytes →
    fed limit chunks = (.ok (), ⟨.new limit, messages.map textBytes⟩)
  /-- The reader of a peer's output reports the messages of these lines. -/
  events : ∀ (ν : Type) (decode : List UInt8 → Except TransportError (Message ν)) (reads : List Read),
    (∀ each ∈ reads, each ≠ .ended) → reads.filterMap Read.data? = chunks →
    readMessages decode (reads ++ [.ended]) (.new limit) = report decode (fed limit chunks)

/-- Framing does not depend on where reads fall. -/
theorem splits (limit : ℕ) (chunks : List (List UInt8)) : Splits limit chunks where
  lines := fed_lines limit chunks
  fails := by
    rw [Ne, fed_eq_ok]
    simp only [not_forall, Nat.not_le, exists_prop]
  refused error failure := error_of_fed failure
  part success := by
    rw [splitter_of_fed success]
    exact LineSplitter.hasPartialLine_holding
  bounded := fed_bounded limit chunks
  recovered messages framed frames each stream := fed_framed frames each stream
  events ν decode reads open_ datas := by
    have empty : (strip []).length ≤ limit := Nat.zero_le limit
    rw [fed, ← datas]
    exact readMessages_holding decode empty open_

/-- A line whose newline never comes is refused when it is too long, and the carriage return at its end
is not charged. -/
theorem unterminated_lines :
    (newline ∉ ([97, 97] : List UInt8) ∧ (fed 1 [[97, 97]]).1 = .error (refusal 1)) ∧
      newline ∉ ([97, 13] : List UInt8) ∧ 1 < ([97, 13] : List UInt8).length ∧
        (fed 1 [[97, 13]]).1 = .ok () := by
  decide

end Harkness.Transport
