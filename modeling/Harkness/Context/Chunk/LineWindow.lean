import Harkness.Context.Chunk.Builder
import Harkness.ToMathlib.Sort
import Mathlib

/-! # Windows of lines

A text without structure is chunked as windows of lines. A window takes lines until the next one starts
more than the target behind it, and hands its last lines on to the window after it.
-/

namespace Harkness.Context.Chunk

open String (utf8Len)

/-- Consecutive lines and the span that they cover. -/
structure LineWindow where
  line : ℕ
  endLine : ℕ
  start : ℕ
  stop : ℕ
deriving DecidableEq

/-- Where a line starts; behind the last line the text ends. -/
def startOf (starts : List ℕ) (len line : ℕ) : ℕ := starts.getD line len

/-- The first line behind a window: one that starts beyond the target, or none of the text. -/
def endLineOf (starts : List ℕ) (len line : ℕ) : ℕ :=
  line + 1 + ((starts.drop (line + 1)).takeWhile
    fun next => next - startOf starts len line ≤ targetChunkBytes).length

def windowAt (starts : List ℕ) (len line : ℕ) : LineWindow where
  line
  endLine := endLineOf starts len line
  start := startOf starts len line
  stop := min (startOf starts len (endLineOf starts len line)) len

/-- How many lines the window after this one repeats. -/
def LineWindow.overlap (self : LineWindow) : ℕ := min chunkOverlapLines ((self.endLine - self.line) / 4)

/-- The windows from a line on. -/
def windowsFrom (starts : List ℕ) (len line : ℕ) : List LineWindow :=
  if _before : line < starts.length then
    let window := windowAt starts len line
    window :: if window.stop = len then []
      else windowsFrom starts len (max (window.endLine - window.overlap) (line + 1))
  else []
termination_by starts.length - line

def windows (text : List Char) : List LineWindow := windowsFrom (lineStarts text) (utf8Len text) 0

/-- Pushes windows in turn, numbered from an index on. -/
def pushWindows (text : List Char) (builder : ChunkSetBuilder) (index : ℕ) :
    List LineWindow → Except ChunkError ChunkSetBuilder
  | [] => .ok builder
  | window :: rest => do
    let builder ← pushSpan text builder window.start window.stop (.lineWindow index)
    pushWindows text builder (min (index + 1) u32Max) rest

/-- The chunks of a text that is cut into windows of lines. -/
def lineWindowSet (text : List Char) : Except ChunkError ChunkSetBuilder :=
  if utf8Len text = 0 then .ok ⟨[⟨.wholeFile, 0, 0, 0⟩], false⟩
  else pushWindows text ⟨[], false⟩ 0 (windows text)

/-- Chunks of at most four thirds of the text, from windows that each end later than the one before. -/
structure RepeatsLittle (text : List Char) : Prop where
  total : ∀ set, lineWindowSet text = .ok set → 3 * totalLength set.chunks ≤ 4 * utf8Len text
  advances : (windows text).IsChain fun window next => window.stop < next.stop

def lengthsOf (starts : List ℕ) (len : ℕ) : List ℕ :=
  (List.range starts.length).map fun line => startOf starts len (line + 1) - startOf starts len line

/-- The lengths of the lines of a text. -/
def lineLengths (text : List Char) : List ℕ := lengthsOf (lineStarts text) (utf8Len text)

/-- How many of the lines ahead go on a window that has lines of some length already. -/
def fitting (length : ℕ) : List ℕ → ℕ
  | [] => 0
  | line :: lines => if length ≤ targetChunkBytes then fitting (length + line) lines + 1 else 0

/-- How many lines make the first window of lines with these lengths. -/
def span : List ℕ → ℕ
  | [] => 0
  | line :: lines => fitting line lines + 1

/-- The lengths of the runs of lines that each window hands on to the next. -/
def handedOn (lines : List ℕ) : List ℕ :=
  if _more : span lines < lines.length then
    let kept := span lines - min chunkOverlapLines (span lines / 4)
    ((lines.take (span lines)).drop kept).sum :: handedOn (lines.drop kept)
  else []
termination_by lines.length
decreasing_by
  have positive : 0 < span lines := by
    cases lines with
    | nil => exact absurd _more (Nat.not_lt_zero _)
    | cons line lines => exact Nat.succ_pos _
  rw [List.length_drop]
  omega

theorem span_pos {lines : List ℕ} (some_ : lines ≠ []) : 0 < span lines := by
  cases lines with
  | nil => exact absurd rfl some_
  | cons line lines => exact Nat.succ_pos _

/-- Lines that do not all go on a window leave it beyond the target. -/
theorem targetChunkBytes_lt_fitting {length : ℕ} {lines : List ℕ} (more : fitting length lines < lines.length) :
    targetChunkBytes < length + (lines.take (fitting length lines)).sum := by
  induction lines generalizing length with
  | nil => exact absurd more (Nat.not_lt_zero _)
  | cons line lines ih =>
    rw [fitting] at more ⊢
    split_ifs at more ⊢ with within
    · have rest := ih (Nat.lt_of_succ_lt_succ more)
      rw [List.take_succ_cons, List.sum_cons]
      omega
    · rw [List.take_zero, List.sum_nil]
      omega

theorem targetChunkBytes_lt_span {lines : List ℕ} (more : span lines < lines.length) :
    targetChunkBytes < (lines.take (span lines)).sum := by
  cases lines with
  | nil => exact absurd more (Nat.not_lt_zero _)
  | cons line lines =>
    rw [span, List.take_succ_cons, List.sum_cons]
    exact targetChunkBytes_lt_fitting (Nat.lt_of_succ_lt_succ more)

/-- Where each line is at most a quarter of the target over the lines that overlap, each run that is handed on
is at most a quarter of its window, and of the target. -/
theorem handedOn_of_short {lines : List ℕ}
    (short : ∀ line ∈ lines, 4 * chunkOverlapLines * line ≤ targetChunkBytes) :
    3 * (handedOn lines).sum ≤ lines.sum ∧ ∀ run ∈ handedOn lines, 4 * run ≤ targetChunkBytes := by
  induction remaining : lines.length using Nat.strong_induction_on generalizing lines with
  | _ remaining ih =>
    rw [handedOn]
    by_cases more : span lines < lines.length
    · rw [dif_pos more]
      have some_ : 0 < span lines := span_pos fun empty => by rw [empty] at more; cases more
      have full := targetChunkBytes_lt_span more
      set kept := span lines - min chunkOverlapLines (span lines / 4) with keeps
      have within : kept ≤ span lines := Nat.sub_le _ _
      have positive : 0 < kept := by omega
      obtain ⟨third, runs⟩ := ih (lines.drop kept).length (by rw [List.length_drop]; omega)
        (fun line member => short line (List.mem_of_mem_drop member)) rfl
      -- the run has at most as many lines as may overlap
      have run : 4 * ((lines.take (span lines)).drop kept).sum ≤ targetChunkBytes := by
        have each : ∀ line ∈ (lines.take (span lines)).drop kept,
            line ≤ targetChunkBytes / (4 * chunkOverlapLines) :=
          fun line member => (Nat.le_div_iff_mul_le (by decide)).mpr <| by
            rw [Nat.mul_comm]
            exact short line (List.mem_of_mem_take (List.mem_of_mem_drop member))
        have bound := List.sum_le_card_nsmul _ _ each
        have few : ((lines.take (span lines)).drop kept).length ≤ chunkOverlapLines := by
          rw [List.length_drop, List.length_take]
          omega
        rw [smul_eq_mul] at bound
        have both := bound.trans (Nat.mul_le_mul_right _ few)
        have target : chunkOverlapLines * (targetChunkBytes / (4 * chunkOverlapLines)) * 4 ≤ targetChunkBytes := by
          decide
        omega
      have window := List.sum_take_add_sum_drop (lines.take (span lines)) kept
      have text := List.sum_take_add_sum_drop lines kept
      rw [List.take_take, min_eq_left within] at window
      refine ⟨?_, List.forall_mem_cons.mpr ⟨run, runs⟩⟩
      rw [List.sum_cons]
      omega
    · rw [dif_neg more]
      exact ⟨Nat.zero_le _, nofun⟩

/-- Lines of which those that are handed on hold at most a third of the text together, and no run of
them more than a window has before its last line. -/
structure Spared (text : List Char) : Prop where
  third : 3 * (handedOn (lineLengths text)).sum ≤ utf8Len text
  short : ∀ run ∈ handedOn (lineLengths text), run ≤ targetChunkBytes

section Starts

variable {starts : List ℕ} {len line other : ℕ}

/-- Lines that each start behind the one before, and before the end. -/
def Increasing (starts : List ℕ) (len : ℕ) : Prop := (starts ++ [len]).Pairwise (· < ·)

theorem startOf_eq (inside : line ≤ starts.length) :
    (starts ++ [len])[line]? = some (startOf starts len line) := by
  rcases inside.lt_or_eq with before | rfl
  · rw [startOf, List.getD_eq_getElem _ _ before, List.getElem?_append_left before,
      List.getElem?_eq_getElem before]
  · rw [startOf, List.getD_eq_default _ _ le_rfl, List.getElem?_append_right le_rfl, Nat.sub_self,
      List.getElem?_cons_zero]

theorem Increasing.lt (increasing : Increasing starts len) (before : line < other)
    (inside : other ≤ starts.length) : startOf starts len line < startOf starts len other := by
  obtain ⟨first, here⟩ := List.getElem?_eq_some_iff.mp
    (startOf_eq (before.le.trans inside) : _ = some (startOf starts len line))
  obtain ⟨second, there⟩ := List.getElem?_eq_some_iff.mp
    (startOf_eq inside : _ = some (startOf starts len other))
  rw [← here, ← there]
  exact List.pairwise_iff_getElem.mp increasing line other first second before

theorem Increasing.le (increasing : Increasing starts len) (before : line ≤ other)
    (inside : other ≤ starts.length) : startOf starts len line ≤ startOf starts len other := by
  rcases before.lt_or_eq with before | rfl
  · exact (increasing.lt before inside).le
  · exact le_rfl

theorem startOf_length : startOf starts len starts.length = len := List.getD_eq_default _ _ le_rfl

theorem Increasing.le_len (increasing : Increasing starts len) (inside : line ≤ starts.length) :
    startOf starts len line ≤ len := by
  simpa only [startOf_length] using increasing.le inside le_rfl

theorem lt_endLineOf : line < endLineOf starts len line := by
  rw [endLineOf]
  omega

theorem endLineOf_le (inside : line < starts.length) : endLineOf starts len line ≤ starts.length := by
  have fewer := (List.takeWhile_prefix (l := starts.drop (line + 1))
    fun next => next - startOf starts len line ≤ targetChunkBytes).length_le
  rw [List.length_drop] at fewer
  rw [endLineOf]
  omega

/-- A later line goes into a window exactly when it starts within the target. -/
theorem lt_endLineOf_iff (increasing : Increasing starts len) (before : line < other)
    (inside : other < starts.length) : other < endLineOf starts len line ↔
      startOf starts len other - startOf starts len line ≤ targetChunkBytes := by
  have there : other - (line + 1) < (starts.drop (line + 1)).length := by
    rw [List.length_drop]
    omega
  have closed : (starts.drop (line + 1)).Pairwise fun one later =>
      decide (later - startOf starts len line ≤ targetChunkBytes) = true →
        decide (one - startOf starts len line ≤ targetChunkBytes) = true := by
    refine ((List.pairwise_append.mp increasing).1.drop).imp fun {one later} ascends reached => ?_
    have reached := of_decide_eq_true reached
    exact decide_eq_true (by omega)
  have own : (starts.drop (line + 1))[other - (line + 1)] = startOf starts len other := by
    rw [List.getElem_drop, startOf, List.getD_eq_getElem _ _ inside]
    congr 1
    omega
  have counted := List.lt_length_takeWhile_iff closed there
  rw [own, decide_eq_true_iff] at counted
  rw [← counted, endLineOf]
  omega

@[simp] theorem length_lengthsOf : (lengthsOf starts len).length = starts.length := by
  simp [lengthsOf]

theorem drop_lengthsOf (inside : line < starts.length) : (lengthsOf starts len).drop line =
    (startOf starts len (line + 1) - startOf starts len line) :: (lengthsOf starts len).drop (line + 1) := by
  rw [List.drop_eq_getElem_cons (by simpa using inside)]
  simp [lengthsOf]

/-- Lines in a row are as long as from the start of the first to the start of the one behind them. -/
theorem sum_lengthsOf (increasing : Increasing starts len) (count : ℕ)
    (inside : line + count ≤ starts.length) : (((lengthsOf starts len).drop line).take count).sum =
      startOf starts len (line + count) - startOf starts len line := by
  induction count generalizing line with
  | zero => simp
  | succ count ih =>
    rw [drop_lengthsOf (by omega), List.take_succ_cons, List.sum_cons, ih (by omega)]
    have first : startOf starts len line ≤ startOf starts len (line + 1) :=
      increasing.le (by omega) (by omega)
    have rest : startOf starts len (line + 1) ≤ startOf starts len (line + 1 + count) :=
      increasing.le (by omega) (by omega)
    have same : line + 1 + count = line + (count + 1) := by omega
    rw [same] at rest ⊢
    omega

theorem fitting_lengthsOf (increasing : Increasing starts len) (before : line ≤ other)
    (inside : other ≤ starts.length) :
    fitting (startOf starts len other - startOf starts len line) ((lengthsOf starts len).drop other) =
      ((starts.drop other).takeWhile
        fun next => next - startOf starts len line ≤ targetChunkBytes).length := by
  induction remaining : starts.length - other generalizing other with
  | zero =>
    have last : other = starts.length := by omega
    rw [List.drop_eq_nil_of_le (by simp [last]), List.drop_eq_nil_of_le last.ge]
    rfl
  | succ remaining ih =>
    have more : other < starts.length := by omega
    have own : starts[other] = startOf starts len other := (List.getD_eq_getElem _ _ more).symm
    have first : startOf starts len line ≤ startOf starts len other := increasing.le before inside
    have step : startOf starts len other ≤ startOf starts len (other + 1) :=
      increasing.le (by omega) (by omega)
    have sum : startOf starts len other - startOf starts len line +
        (startOf starts len (other + 1) - startOf starts len other) =
          startOf starts len (other + 1) - startOf starts len line := by omega
    rw [drop_lengthsOf more, List.drop_eq_getElem_cons more, fitting, List.takeWhile_cons, own, sum,
      ih (by omega) (by omega) (by omega)]
    by_cases reached : startOf starts len other - startOf starts len line ≤ targetChunkBytes
    · simp [reached]
    · simp [reached]

theorem span_lengthsOf (increasing : Increasing starts len) (inside : line < starts.length) :
    span ((lengthsOf starts len).drop line) = endLineOf starts len line - line := by
  rw [drop_lengthsOf inside, span, fitting_lengthsOf increasing (Nat.le_add_right line 1) inside, endLineOf]
  omega

/-- The line that the window after the one at a line starts with. -/
def nextLine (starts : List ℕ) (len line : ℕ) : ℕ :=
  endLineOf starts len line - (windowAt starts len line).overlap

theorem nextLine_bounds (starts : List ℕ) (len line : ℕ) :
    line < nextLine starts len line ∧ nextLine starts len line ≤ endLineOf starts len line := by
  have later : line < endLineOf starts len line := lt_endLineOf
  have few : (windowAt starts len line).overlap ≤ (endLineOf starts len line - line) / 4 :=
    min_le_right _ _
  rw [nextLine]
  omega

theorem windowAt_stop (increasing : Increasing starts len) (inside : line < starts.length) :
    (windowAt starts len line).stop = startOf starts len (endLineOf starts len line) :=
  min_eq_left (increasing.le_len (endLineOf_le inside))

theorem windowAt_stop_eq_iff (increasing : Increasing starts len) (inside : line < starts.length) :
    (windowAt starts len line).stop = len ↔ endLineOf starts len line = starts.length := by
  rw [windowAt_stop increasing inside]
  constructor
  · intro reached
    by_contra short
    have short : endLineOf starts len line < starts.length := (endLineOf_le inside).lt_of_ne short
    have before := increasing.lt short le_rfl
    rw [startOf_length] at before
    omega
  · intro last
    rw [last, startOf_length]

theorem windowsFrom_eq (increasing : Increasing starts len) (inside : line < starts.length) :
    windowsFrom starts len line = windowAt starts len line ::
      if endLineOf starts len line = starts.length then []
      else windowsFrom starts len (nextLine starts len line) := by
  have bounds := nextLine_bounds starts len line
  rw [windowsFrom, dif_pos inside]
  simp only [windowAt_stop_eq_iff increasing inside]
  have next : max ((windowAt starts len line).endLine - (windowAt starts len line).overlap) (line + 1) =
      nextLine starts len line := max_eq_left bounds.1
  rw [next]

/-- What the window at a line hands on, and what the windows after it do. -/
theorem handedOn_lengthsOf (increasing : Increasing starts len) (inside : line < starts.length) :
    handedOn ((lengthsOf starts len).drop line) =
      if endLineOf starts len line = starts.length then []
      else (startOf starts len (endLineOf starts len line) - startOf starts len (nextLine starts len line)) ::
        handedOn ((lengthsOf starts len).drop (nextLine starts len line)) := by
  have bounds := nextLine_bounds starts len line
  have reached : endLineOf starts len line ≤ starts.length := endLineOf_le inside
  have overlap : (windowAt starts len line).overlap =
      min chunkOverlapLines ((endLineOf starts len line - line) / 4) := rfl
  have kept : line + (endLineOf starts len line - line - (windowAt starts len line).overlap) =
      nextLine starts len line := by
    rw [nextLine]
    omega
  rw [handedOn, span_lengthsOf increasing inside, List.length_drop, length_lengthsOf, ← overlap]
  by_cases last : endLineOf starts len line = starts.length
  · rw [if_pos last, dif_neg (by omega)]
  · rw [if_neg last, dif_pos (by omega)]
    dsimp only
    rw [List.drop_take, List.drop_drop, kept,
      sum_lengthsOf increasing _ (by omega)]
    congr 3
    omega

theorem sum_windowsFrom (increasing : Increasing starts len) (inside : line < starts.length) :
    ((windowsFrom starts len line).map fun window => window.stop - window.start).sum =
      len - startOf starts len line + (handedOn ((lengthsOf starts len).drop line)).sum := by
  induction remaining : starts.length - line using Nat.strong_induction_on generalizing line with
  | _ remaining ih =>
    have bounds := nextLine_bounds starts len line
    have stop := windowAt_stop increasing inside
    have reached : endLineOf starts len line ≤ starts.length := endLineOf_le inside
    have start : (windowAt starts len line).start = startOf starts len line := rfl
    rw [windowsFrom_eq increasing inside, handedOn_lengthsOf increasing inside, List.map_cons, List.sum_cons,
      stop, start]
    by_cases last : endLineOf starts len line = starts.length
    · rw [if_pos last, if_pos last, last, startOf_length]
      simp
    · rw [if_neg last, if_neg last, List.sum_cons,
        ih (starts.length - nextLine starts len line) (by omega) (by omega) rfl]
      have first : startOf starts len line ≤ startOf starts len (nextLine starts len line) :=
        increasing.le (by omega) (by omega)
      have handed := increasing.le bounds.2 reached
      have ending := increasing.le_len reached
      omega

/-- The next window ends later exactly when what it repeats is within the target. -/
theorem stop_lt_iff (increasing : Increasing starts len) (inside : line < starts.length)
    (more : endLineOf starts len line ≠ starts.length) :
    (windowAt starts len line).stop < (windowAt starts len (nextLine starts len line)).stop ↔
      startOf starts len (endLineOf starts len line) - startOf starts len (nextLine starts len line) ≤
        targetChunkBytes := by
  have bounds := nextLine_bounds starts len line
  have reached : endLineOf starts len line < starts.length := (endLineOf_le inside).lt_of_ne more
  have next : nextLine starts len line < starts.length := by omega
  have later : endLineOf starts len (nextLine starts len line) ≤ starts.length := endLineOf_le next
  rw [windowAt_stop increasing inside, windowAt_stop increasing next]
  have ends : startOf starts len (endLineOf starts len line) <
      startOf starts len (endLineOf starts len (nextLine starts len line)) ↔
        endLineOf starts len line < endLineOf starts len (nextLine starts len line) := by
    constructor
    · intro before
      by_contra back
      exact absurd (increasing.le (not_lt.mp back) reached.le) (not_le.mpr before)
    · exact fun before => increasing.lt before later
  rw [ends]
  rcases bounds.2.lt_or_eq with behind | same
  · exact lt_endLineOf_iff increasing behind reached
  · rw [same, Nat.sub_self]
    exact iff_of_true lt_endLineOf (Nat.zero_le _)

theorem isChain_windowsFrom (increasing : Increasing starts len) (inside : line < starts.length) :
    (windowsFrom starts len line).IsChain (fun window next => window.stop < next.stop) ↔
      ∀ run ∈ handedOn ((lengthsOf starts len).drop line), run ≤ targetChunkBytes := by
  induction remaining : starts.length - line using Nat.strong_induction_on generalizing line with
  | _ remaining ih =>
    have bounds := nextLine_bounds starts len line
    have reached : endLineOf starts len line ≤ starts.length := endLineOf_le inside
    rw [windowsFrom_eq increasing inside, handedOn_lengthsOf increasing inside]
    by_cases last : endLineOf starts len line = starts.length
    · simp [last]
    · have next : nextLine starts len line < starts.length := by omega
      have rest := ih (starts.length - nextLine starts len line) (by omega) next rfl
      rw [if_neg last, if_neg last, List.forall_mem_cons, ← rest, ← stop_lt_iff increasing inside last,
        windowsFrom_eq increasing next, List.isChain_cons_cons]

theorem mem_windowsFrom (increasing : Increasing starts len) (inside : line < starts.length) :
    ∀ window ∈ windowsFrom starts len line, window.start ≤ window.stop ∧ window.stop ≤ len := by
  induction remaining : starts.length - line using Nat.strong_induction_on generalizing line with
  | _ remaining ih =>
    have bounds := nextLine_bounds starts len line
    have reached : endLineOf starts len line ≤ starts.length := endLineOf_le inside
    intro window member
    rw [windowsFrom_eq increasing inside] at member
    rcases List.mem_cons.mp member with rfl | member
    · rw [windowAt_stop increasing inside]
      exact ⟨increasing.le lt_endLineOf.le reached, increasing.le_len reached⟩
    · split_ifs at member with last
      · cases member
      · exact ih (starts.length - nextLine starts len line) (by omega) (by omega) rfl window member

end Starts

section Text

variable {text : List Char} {builder after : ChunkSetBuilder}

theorem Pushed.trans {first second : ℕ} {before middle : ChunkSetBuilder}
    (one : Pushed first before middle) (two : Pushed second middle after) :
    Pushed (first + second) before after := by
  refine ⟨?_, fun whole => ?_, fun spent => two.truncated (one.truncated spent)⟩
  · have := one.le
    have := two.le
    omega
  · have unspent : middle.truncated = false := by
      by_contra spent
      rw [two.truncated (by simpa using spent)] at whole
      cases whole
    have := one.eq unspent
    have := two.eq whole
    omega

theorem pushWindows_pushed (windows : List LineWindow) (builder : ChunkSetBuilder) (index : ℕ)
    (inside : ∀ window ∈ windows, window.start ≤ window.stop ∧ window.stop ≤ utf8Len text) :
    ∃ after, pushWindows text builder index windows = .ok after ∧
      Pushed (windows.map fun window => window.stop - window.start).sum builder after := by
  induction windows generalizing builder index with
  | nil => exact ⟨builder, rfl, le_rfl, fun _ => rfl, id⟩
  | cons window rest ih =>
    obtain ⟨here, inside⟩ := List.forall_mem_cons.mp inside
    obtain ⟨middle, pushed, first⟩ := pushSpan_pushed builder (.lineWindow index) here.1 here.2
    obtain ⟨after, success, second⟩ := ih middle (min (index + 1) u32Max) inside
    refine ⟨after, ?_, first.trans second⟩
    rw [pushWindows, pushed]
    exact success

theorem lineFeeds_ascending (offset : ℕ) (text : List Char) :
    (∀ feed ∈ lineFeeds offset text, offset ≤ feed) ∧ (lineFeeds offset text).Pairwise (· < ·) := by
  induction text generalizing offset with
  | nil => exact ⟨by simp [lineFeeds], List.Pairwise.nil⟩
  | cons character rest ih =>
    obtain ⟨behind, ascending⟩ := ih (offset + character.utf8Size)
    have size := character.utf8Size_pos
    rw [lineFeeds]
    refine ⟨fun feed member => ?_, ?_⟩
    · rcases List.mem_append.mp member with here | later
      · split_ifs at here
        · exact (List.mem_singleton.mp here).ge
        · cases here
      · have := behind feed later
        omega
    · refine List.pairwise_append.mpr ⟨by split_ifs <;> simp, ascending, fun one here other later => ?_⟩
      have := behind other later
      split_ifs at here
      · obtain rfl := List.mem_singleton.mp here
        omega
      · cases here

theorem increasing_lineStarts (content : utf8Len text ≠ 0) : Increasing (lineStarts text) (utf8Len text) := by
  have feeds := (lineFeeds_ascending 0 text).2
  have starts : (((lineFeeds 0 text).map (· + 1)).filter (· < utf8Len text)).Pairwise (· < ·) :=
    (List.pairwise_map.mpr (feeds.imp fun before => Nat.succ_lt_succ before)).filter _
  refine List.pairwise_append.mpr ⟨List.pairwise_cons.mpr ⟨fun start member => ?_, starts⟩,
    List.pairwise_singleton _ _, fun start member stop end_ => ?_⟩
  · obtain ⟨feed, -, rfl⟩ := List.mem_map.mp (List.mem_filter.mp member).1
    exact Nat.succ_pos _
  · obtain rfl := List.mem_singleton.mp end_
    rcases List.mem_cons.mp member with rfl | member
    · exact Nat.pos_of_ne_zero content
    · exact of_decide_eq_true (List.mem_filter.mp member).2

/-- What the windows of a text push. -/
theorem lineWindowSet_pushed (content : utf8Len text ≠ 0) : ∃ set, lineWindowSet text = .ok set ∧
    Pushed (utf8Len text + (handedOn (lineLengths text)).sum) ⟨[], false⟩ set := by
  have increasing := increasing_lineStarts content
  have some_ : 0 < (lineStarts text).length := Nat.succ_pos _
  have spans := sum_windowsFrom increasing some_
  have first : startOf (lineStarts text) (utf8Len text) 0 = 0 := rfl
  rw [List.drop_zero, first, Nat.sub_zero] at spans
  obtain ⟨set, success, pushed⟩ := pushWindows_pushed (windows text) ⟨[], false⟩ 0
    (mem_windowsFrom increasing some_)
  refine ⟨set, by rw [lineWindowSet, if_neg content, success], ?_⟩
  rw [lineLengths, ← spans]
  exact pushed

theorem advances_iff (content : utf8Len text ≠ 0) :
    (windows text).IsChain (fun window next => window.stop < next.stop) ↔
      ∀ run ∈ handedOn (lineLengths text), run ≤ targetChunkBytes := by
  have all := isChain_windowsFrom (increasing_lineStarts content)
    (Nat.succ_pos _ : 0 < (lineStarts text).length)
  rw [List.drop_zero] at all
  exact all

theorem empty_spared (empty : utf8Len text = 0) : RepeatsLittle text ∧ Spared text := by
  obtain rfl : text = [] := by
    cases text with
    | nil => rfl
    | cons character rest =>
      have := character.utf8Size_pos
      rw [String.utf8Len_cons] at empty
      omega
  refine ⟨⟨?_, ?_⟩, ⟨?_, ?_⟩⟩
  · rintro set ⟨⟩
    exact Nat.zero_le _
  · rw [windows, windowsFrom]
    simp [windowAt, lineStarts, lineFeeds, startOf, endLineOf]
  · rw [handedOn]
    simp [lineLengths, lengthsOf, lineStarts, lineFeeds, span, fitting]
  · rw [handedOn]
    simp [lineLengths, lengthsOf, lineStarts, lineFeeds, span, fitting]

/-- The windows of a text with lines of at most 128 bytes repeat little. -/
theorem spared_of_short (short : ∀ line ∈ lineLengths text, line ≤ 128) : Spared text := by
  by_cases empty : utf8Len text = 0
  · exact (empty_spared empty).2
  · obtain ⟨third, runs⟩ := handedOn_of_short fun line member =>
      (Nat.mul_le_mul_left (4 * chunkOverlapLines) (short line member)).trans (by decide)
    have whole := sum_lengthsOf (increasing_lineStarts empty) (lineStarts text).length
      (Nat.zero_add _).le
    rw [List.drop_zero, List.take_of_length_le (by rw [length_lengthsOf]), Nat.zero_add, startOf_length] at whole
    rw [lineLengths, whole] at third
    refine ⟨third.trans (Nat.sub_le _ _), fun run member => ?_⟩
    have quarter := runs run member
    omega

/-- **Windows repeat little** when the runs of lines that they hand on hold at most a third of the text,
none of them more than the target; and while the budget of chunks lasts, only then. -/
theorem repeatsLittle_iff_spared (text : List Char) : ∃ set, lineWindowSet text = .ok set ∧
    (Spared text → RepeatsLittle text) ∧
      (set.truncated = false → RepeatsLittle text → Spared text) := by
  by_cases empty : utf8Len text = 0
  · obtain ⟨little, spared⟩ := empty_spared empty
    exact ⟨⟨[⟨.wholeFile, 0, 0, 0⟩], false⟩, if_pos empty, fun _ => little, fun _ _ => spared⟩
  · obtain ⟨set, success, le, eq, -⟩ := lineWindowSet_pushed empty
    have nothing : totalLength [] = 0 := rfl
    rw [nothing, Nat.zero_add] at le eq
    refine ⟨set, success, fun spared => ⟨?_, (advances_iff empty).mpr spared.short⟩,
      fun whole little => ⟨?_, (advances_iff empty).mp little.advances⟩⟩
    · intro other made
      obtain rfl := Except.ok.inj (success.symm.trans made)
      have third := spared.third
      omega
    · have total := little.total set success
      rw [eq whole] at total
      omega

end Text

/-- Seven empty lines, a long one, and a short one at the end. -/
def shortAndLong : List Char := List.replicate 7 '\n' ++ (List.replicate 5000 'x' ++ ['\n', 'y'])

theorem lineFeeds_replicate (offset count : ℕ) (rest : List Char) :
    lineFeeds offset (List.replicate count 'x' ++ rest) = lineFeeds (offset + count) rest := by
  induction count generalizing offset with
  | zero => rfl
  | succ count ih =>
    rw [List.replicate_succ, List.cons_append, lineFeeds, if_neg (by decide), List.nil_append, ih]
    congr 1
    have size : ('x').utf8Size = 1 := rfl
    omega

theorem utf8Len_shortAndLong : utf8Len shortAndLong = 5009 := by
  have run : ∀ count, utf8Len (List.replicate count 'x') = count := by
    intro count
    induction count with
    | zero => rfl
    | succ count ih =>
      rw [List.replicate_succ, String.utf8Len_cons, ih]
      rfl
  rw [shortAndLong, String.utf8Len_append, String.utf8Len_append, run]
  rfl

theorem lineStarts_shortAndLong : lineStarts shortAndLong = [0, 1, 2, 3, 4, 5, 6, 7, 5008] := by
  have feeds : lineFeeds 0 shortAndLong = [0, 1, 2, 3, 4, 5, 6, 5007] := by
    have head (rest : List Char) :
        lineFeeds 0 (List.replicate 7 '\n' ++ rest) = [0, 1, 2, 3, 4, 5, 6] ++ lineFeeds 7 rest := rfl
    rw [shortAndLong, head, lineFeeds_replicate]
    rfl
  rw [lineStarts, feeds, utf8Len_shortAndLong]
  rfl

theorem windows_shortAndLong :
    windows shortAndLong = [⟨0, 8, 0, 5008⟩, ⟨6, 8, 6, 5008⟩, ⟨8, 9, 5008, 5009⟩] := by
  rw [windows, utf8Len_shortAndLong, lineStarts_shortAndLong]
  have first : windowAt [0, 1, 2, 3, 4, 5, 6, 7, 5008] 5009 0 = ⟨0, 8, 0, 5008⟩ := by decide
  have second : windowAt [0, 1, 2, 3, 4, 5, 6, 7, 5008] 5009 6 = ⟨6, 8, 6, 5008⟩ := by decide
  have third : windowAt [0, 1, 2, 3, 4, 5, 6, 7, 5008] 5009 8 = ⟨8, 9, 5008, 5009⟩ := by decide
  rw [windowsFrom, dif_pos (by decide), first]
  dsimp only
  rw [if_neg (by decide)]
  change _ :: windowsFrom _ _ 6 = _
  rw [windowsFrom, dif_pos (by decide), second]
  dsimp only
  rw [if_neg (by decide)]
  change _ :: _ :: windowsFrom _ _ 8 = _
  rw [windowsFrom, dif_pos (by decide), third]
  dsimp only
  rw [if_pos rfl]

/-- A short span is one piece. -/
theorem pushSpan_short {text : List Char} {builder : ChunkSetBuilder} {anchor : Anchor} {start stop : ℕ}
    (content : start < stop) (inside : stop ≤ utf8Len text) (short : stop - start ≤ maxChunkBytes)
    (room : builder.chunks.length ≠ maxChunksPerFile) : pushSpan text builder start stop anchor =
      .ok { builder with chunks := builder.chunks ++ [⟨anchor, 0, start, stop⟩] } := by
  have accepted : ¬ (start > stop || stop > utf8Len text) = true := by
    simp only [Bool.or_eq_true, decide_eq_true_eq]
    omega
  have whole : pieceStop text start stop = stop := if_pos short
  rw [pushSpan, if_neg accepted, if_neg content.ne, pushFrom, dif_pos content, if_neg room, whole, pushFrom,
    dif_neg (lt_irrefl stop)]

/-- The second window repeats the long line and ends where the first one does, and the chunks hold twice
the text. -/
theorem shortAndLong_repeats : ¬ RepeatsLittle shortAndLong ∧
    ¬ (windows shortAndLong).IsChain (fun window next => window.stop < next.stop) ∧
      ∃ set, lineWindowSet shortAndLong = .ok set ∧
        4 * utf8Len shortAndLong < 3 * totalLength set.chunks := by
  have stuck : ¬ (windows shortAndLong).IsChain fun window next => window.stop < next.stop := by
    rw [windows_shortAndLong]
    simp
  refine ⟨fun little => stuck little.advances, stuck,
    ⟨[⟨.lineWindow 0, 0, 0, 5008⟩, ⟨.lineWindow 1, 0, 6, 5008⟩, ⟨.lineWindow 2, 0, 5008, 5009⟩],
    false⟩, ?_, ?_⟩
  · have content : utf8Len shortAndLong ≠ 0 := by rw [utf8Len_shortAndLong]; decide
    have inside {stop : ℕ} (before : stop ≤ 5009) : stop ≤ utf8Len shortAndLong := by
      rwa [utf8Len_shortAndLong]
    have pushes (builder : ChunkSetBuilder) (index start stop : ℕ) (rest : List LineWindow)
        (window : LineWindow) (bounds : window.start = start ∧ window.stop = stop) (some_ : start < stop)
        (before : stop ≤ 5009) (short : stop - start ≤ maxChunkBytes)
        (room : builder.chunks.length ≠ maxChunksPerFile) :
        pushWindows shortAndLong builder index (window :: rest) =
          pushWindows shortAndLong
            { builder with chunks := builder.chunks ++ [⟨.lineWindow index, 0, start, stop⟩] }
            (min (index + 1) u32Max) rest := by
      obtain ⟨rfl, rfl⟩ := bounds
      rw [pushWindows, pushSpan_short some_ (inside before) short room]
      rfl
    rw [lineWindowSet, if_neg content, windows_shortAndLong,
      pushes _ _ 0 5008 _ _ ⟨rfl, rfl⟩ (by decide) (by decide) (by decide) (by decide),
      pushes _ _ 6 5008 _ _ ⟨rfl, rfl⟩ (by decide) (by decide) (by decide) (by decide),
      pushes _ _ 5008 5009 _ _ ⟨rfl, rfl⟩ (by decide) (by decide) (by decide) (by decide)]
    rfl
  · rw [utf8Len_shortAndLong]
    decide

end Harkness.Context.Chunk
