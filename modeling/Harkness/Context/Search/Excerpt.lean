import Harkness.Context.Path
import Harkness.Context.Search.BoundedText
import Harkness.ToMathlib.Lines

/-! # What a content search shows of a match

The searcher reports a line of the file with its terminator. The match shows the line without it, clamped,
and names the range of the bytes shown; lines before and after it are cut from the same bytes.
-/

namespace Harkness.Context.Search

def lineFeed : UInt8 := 10

def carriageReturn : UInt8 := 13

section Bytes

variable {α : Type*} [DecidableEq α]

/-- Drops an element at the end, if it is there. -/
def stripSuffix (last : α) (items : List α) : List α :=
  if items.getLast? = some last then items.dropLast else items

/-- The place of the last occurrence. -/
def rposition (wanted : α) : List α → Option ℕ
  | [] => none
  | item :: items =>
    match rposition wanted items with
    | some place => some (place + 1)
    | none => if item = wanted then some 0 else none

/-- The place of the first occurrence. -/
def position (wanted : α) : List α → Option ℕ
  | [] => none
  | item :: items => if item = wanted then some 0 else (position wanted items).map (· + 1)

end Bytes

/-- The bytes between two places. -/
def slice (bytes : List UInt8) (start stop : ℕ) : List UInt8 := (bytes.drop start).take (stop - start)

/-- Drops a trailing line feed, and a carriage return before that. -/
def stripTerminator (line : List UInt8) : List UInt8 :=
  stripSuffix carriageReturn (stripSuffix lineFeed line)

section Context

variable (base64 : Base64) (bytes : List UInt8) (limit : ℕ)

/-- The lines before a place, the nearest one first. -/
def precedingFrom : ℕ → ℕ → List BoundedText
  | 0, _ => []
  | count + 1, stop =>
    if stop = 0 then []
    else
      let begin_ := ((rposition lineFeed (bytes.take (stop - 1))).map (· + 1)).getD 0
      .clamped base64 (stripTerminator (slice bytes begin_ stop)) limit :: precedingFrom count begin_

/-- The lines immediately before a place, in file order. -/
def precedingLines (start count : ℕ) : List BoundedText :=
  (precedingFrom base64 bytes limit count start).reverse

/-- The lines immediately after a place, in file order. -/
def followingLines (start : ℕ) : ℕ → List BoundedText
  | 0 => []
  | count + 1 =>
    if bytes.length ≤ start then []
    else
      let stop := ((position lineFeed (bytes.drop start)).map (start + · + 1)).getD bytes.length
      .clamped base64 (stripTerminator (slice bytes start stop)) limit :: followingLines stop count

end Context

/-- A line as the searcher reports it. -/
structure SinkMatch where
  absoluteByteOffset : ℕ
  bytes : List UInt8
  lineNumber : ℕ
deriving DecidableEq

/-- Where the bytes shown come from. -/
structure Provenance where
  path : RepoPath
  start : ℕ
  stop : ℕ
  /-- The line, where its number is one of 32 bits. -/
  line : Option ℕ
  contentSha256 : String
  truncated : Bool
deriving DecidableEq

structure SearchMatch where
  path : RepoPath
  byteOffset : ℕ
  lineNumber : ℕ
  line : BoundedText
  before : List BoundedText
  after : List BoundedText
  contentSha256 : String
  provenance : Provenance
deriving DecidableEq

/-- What a search brings to each matching line. -/
structure Plan where
  base64 : Base64
  sha256 : List UInt8 → String
  /-- Where the engine finds a first match in some bytes. -/
  find : List UInt8 → Option ℕ
  maxLineBytes : ℕ
  contextLines : ℕ

/-- The match that one reported line is turned into. -/
def matched (plan : Plan) (path : RepoPath) (bytes : List UInt8) (mat : SinkMatch) : SearchMatch :=
  let lineStart := mat.absoluteByteOffset
  let within := (plan.find mat.bytes).getD 0
  let line := BoundedText.clamped plan.base64 (stripTerminator mat.bytes) plan.maxLineBytes
  let shown := line.shownBytes plan.base64
  { path
    byteOffset := lineStart + within
    lineNumber := mat.lineNumber
    line
    before := precedingLines plan.base64 bytes plan.maxLineBytes lineStart plan.contextLines
    after := followingLines plan.base64 bytes plan.maxLineBytes (lineStart + mat.bytes.length)
      plan.contextLines
    contentSha256 := plan.sha256 bytes
    provenance :=
      { path
        start := lineStart
        stop := lineStart + shown.length
        line := if mat.lineNumber < 2 ^ 32 then some mat.lineNumber else none
        contentSha256 := plan.sha256 shown
        truncated := line.truncated } }

/-- The lines of a file, each with its terminator. -/
def fileLines (bytes : List UInt8) : List (List UInt8) := Lines.split lineFeed bytes

/-- A line without the line feed that ends it, or the two bytes of a carriage return and a line feed. -/
def lineContent (line : List UInt8) : List UInt8 :=
  if line.getLast? = some lineFeed then stripSuffix carriageReturn line.dropLast else line

/-- The report of the line at a place of the file. -/
structure Reports (bytes : List UInt8) (index : ℕ) (mat : SinkMatch) : Prop where
  line : (fileLines bytes)[index]? = some mat.bytes
  offset : mat.absoluteByteOffset = ((fileLines bytes).take index).flatten.length
  number : mat.lineNumber = index + 1

/-- A match that is anchored in the file: it shows the bytes of its range, from the start of the line on,
and the lines around it. -/
structure Anchored (plan : Plan) (bytes : List UInt8) (index : ℕ) (mat : SinkMatch) (found : SearchMatch) :
    Prop where
  shown : found.line.shownBytes plan.base64 = slice bytes found.provenance.start found.provenance.stop
  start : found.provenance.start = mat.absoluteByteOffset
  inside : found.provenance.start ≤ found.provenance.stop ∧
    found.provenance.stop ≤ mat.absoluteByteOffset + (lineContent mat.bytes).length
  digest : found.provenance.contentSha256 =
    plan.sha256 (slice bytes found.provenance.start found.provenance.stop)
  /-- The match starts in the line, at its line feed at the latest. -/
  offset : mat.absoluteByteOffset ≤ found.byteOffset ∧
    found.byteOffset ≤ mat.absoluteByteOffset + (stripSuffix lineFeed mat.bytes).length
  before : found.before = (((fileLines bytes).take index).reverse.take plan.contextLines).reverse.map
    fun line => .clamped plan.base64 (lineContent line) plan.maxLineBytes
  after : found.after = (((fileLines bytes).drop (index + 1)).take plan.contextLines).map
    fun line => .clamped plan.base64 (lineContent line) plan.maxLineBytes

/-- The engine finds its match within the line, and no line after it that is shown ends in a carriage
return without a line feed. -/
structure Plain (plan : Plan) (bytes : List UInt8) (index : ℕ) (mat : SinkMatch) : Prop where
  within : ∀ place ∈ plan.find mat.bytes, place ≤ (stripSuffix lineFeed mat.bytes).length
  ended : ∀ line ∈ ((fileLines bytes).drop (index + 1)).take plan.contextLines,
    line.getLast? ≠ some carriageReturn

section Places

variable {α : Type*} [DecidableEq α] {wanted : α} {front back items : List α}

theorem stripSuffix_append : stripSuffix wanted (items ++ [wanted]) = items := by
  rw [stripSuffix, List.getLast?_append, List.getLast?_singleton, Option.some_or, if_pos rfl,
    List.dropLast_concat]

theorem stripSuffix_isPrefix (wanted : α) (items : List α) : stripSuffix wanted items <+: items := by
  unfold stripSuffix
  split_ifs
  · exact List.dropLast_prefix items
  · exact List.prefix_rfl

theorem position_none (absent : wanted ∉ items) : position wanted items = none := by
  induction items with
  | nil => rfl
  | cons item items ih =>
    obtain ⟨differs, absent⟩ := not_or.mp (mt List.mem_cons.mpr absent)
    rw [position, if_neg (Ne.symm differs), ih absent]
    rfl

theorem position_append (absent : wanted ∉ front) :
    position wanted (front ++ wanted :: back) = some front.length := by
  induction front with
  | nil => exact if_pos rfl
  | cons item front ih =>
    obtain ⟨differs, absent⟩ := not_or.mp (mt List.mem_cons.mpr absent)
    rw [List.cons_append, position, if_neg (Ne.symm differs), ih absent]
    rfl

theorem rposition_none (absent : wanted ∉ items) : rposition wanted items = none := by
  induction items with
  | nil => rfl
  | cons item items ih =>
    obtain ⟨differs, absent⟩ := not_or.mp (mt List.mem_cons.mpr absent)
    rw [rposition, ih absent]
    exact if_neg (Ne.symm differs)

theorem rposition_append (absent : wanted ∉ back) :
    rposition wanted (front ++ wanted :: back) = some front.length := by
  induction front with
  | nil =>
    rw [List.nil_append, rposition, rposition_none absent]
    exact if_pos rfl
  | cons item front ih =>
    rw [List.cons_append, rposition, ih]
    rfl

end Places

section Lines

variable {line : List UInt8}

theorem stripTerminator_isPrefix (line : List UInt8) : stripTerminator line <+: line :=
  (stripSuffix_isPrefix _ _).trans (stripSuffix_isPrefix _ _)

/-- What is stripped of a line that a line feed ends is what ends it. -/
theorem stripTerminator_terminated (body : List UInt8) :
    stripTerminator (body ++ [lineFeed]) = lineContent (body ++ [lineFeed]) := by
  rw [stripTerminator, stripSuffix_append, lineContent, List.getLast?_append, List.getLast?_singleton,
    Option.some_or, if_pos rfl, List.dropLast_concat]

/-- Too much is stripped of a line that ends in a carriage return alone, and of no other. -/
theorem stripTerminator_eq_iff : stripTerminator line = lineContent line ↔
    line.getLast? ≠ some carriageReturn := by
  by_cases fed : line.getLast? = some lineFeed
  · refine iff_of_true ?_ (by rw [fed]; decide)
    have inner : stripSuffix lineFeed line = line.dropLast := if_pos fed
    rw [stripTerminator, inner, lineContent, if_pos fed]
  · have whole : stripTerminator line = stripSuffix carriageReturn line := by
      have inner : stripSuffix lineFeed line = line := if_neg fed
      rw [stripTerminator, inner]
    rw [whole, lineContent, if_neg fed, stripSuffix]
    split_ifs with returned
    · refine iff_of_false (fun same => ?_) (not_not.mpr returned)
      have length := congrArg List.length same
      rw [List.length_dropLast] at length
      cases line with
      | nil => cases returned
      | cons byte line =>
        rw [List.length_cons] at length
        omega
    · exact iff_of_true rfl returned

theorem stripTerminator_isPrefix_lineContent (line : List UInt8) : stripTerminator line <+: lineContent line := by
  by_cases fed : line.getLast? = some lineFeed
  · have same := stripTerminator_eq_iff.mpr (by rw [fed]; decide : line.getLast? ≠ some carriageReturn)
    exact same ▸ List.prefix_rfl
  · rw [lineContent, if_neg fed]
    exact stripTerminator_isPrefix line

/-- Excerpts are equal only where what is stripped is. -/
theorem clamped_strip_eq_iff {base64 : Base64} {limit : ℕ} :
    BoundedText.clamped base64 (stripTerminator line) limit = .clamped base64 (lineContent line) limit ↔
      line.getLast? ≠ some carriageReturn := by
  rw [← stripTerminator_eq_iff]
  refine ⟨fun same => ?_, fun same => by rw [same]⟩
  have length := congrArg BoundedText.sourceBytes same
  rw [BoundedText.clamped_sourceBytes, BoundedText.clamped_sourceBytes] at length
  exact (stripTerminator_isPrefix_lineContent line).eq_of_length length

end Lines

section Cut

variable {base64 : Base64} {bytes : List UInt8} {limit : ℕ} {above below : List (List UInt8)}

/-- A line that a line feed ends. -/
def Fed (line : List UInt8) : Prop := ∃ body, lineFeed ∉ body ∧ line = body ++ [lineFeed]

/-- Every line but the last is ended by a line feed. -/
theorem fed_of_proper {line : List UInt8} (proper : Lines.Proper lineFeed (above ++ line :: below)) :
    ∀ other ∈ above, Fed other := by
  induction above with
  | nil => exact fun _ member => absurd member List.not_mem_nil
  | cons first above ih =>
    refine List.forall_mem_cons.mpr ⟨?_, ih proper.tail⟩
    rcases proper.head with ended | ⟨-, -, none_⟩
    · exact ended
    · exact absurd none_ (by simp)

theorem slice_append (front middle back : List UInt8) :
    slice (front ++ middle ++ back) front.length (front.length + middle.length) = middle := by
  rw [slice, List.append_assoc, List.drop_left, Nat.add_sub_cancel_left, List.take_left]

/-- Behind lines that line feeds end the search backwards finds where the last of them starts. -/
theorem begin_eq (fed : ∀ line ∈ above, Fed line) {body : List UInt8} (plain : lineFeed ∉ body) :
    ((rposition lineFeed (above.flatten ++ body)).map (· + 1)).getD 0 = above.flatten.length := by
  rcases above.eq_nil_or_concat with rfl | ⟨init, last, rfl⟩
  · rw [List.flatten_nil, List.nil_append, rposition_none plain]
    rfl
  · rw [List.concat_eq_append] at fed ⊢
    obtain ⟨front, -, rfl⟩ := fed last (by simp)
    have split : (init ++ [front ++ [lineFeed]]).flatten ++ body =
        (init.flatten ++ front) ++ lineFeed :: body := by simp
    rw [split, rposition_append plain]
    simp
    omega

theorem precedingFrom_eq (count : ℕ) {rest : List UInt8} (fed : ∀ line ∈ above, Fed line)
    (split : bytes = above.flatten ++ rest) : precedingFrom base64 bytes limit count above.flatten.length =
      (above.reverse.take count).map fun line => .clamped base64 (lineContent line) limit := by
  induction count generalizing above rest with
  | zero => simp [precedingFrom]
  | succ count ih =>
    rcases above.eq_nil_or_concat with rfl | ⟨init, last, rfl⟩
    · simp [precedingFrom]
    · rw [List.concat_eq_append] at fed split ⊢
      obtain ⟨body, plain, rfl⟩ := fed last (by simp)
      have fedInit : ∀ line ∈ init, Fed line := fun line member => fed line (by simp [member])
      have length : (init ++ [body ++ [lineFeed]]).flatten.length =
          init.flatten.length + (body ++ [lineFeed]).length := by simp
      have front : bytes.take (init.flatten.length + (body ++ [lineFeed]).length - 1) =
          init.flatten ++ body := by
        have whole : bytes = (init.flatten ++ body) ++ (lineFeed :: rest) := by rw [split]; simp
        have cut : init.flatten.length + (body ++ [lineFeed]).length - 1 =
            (init.flatten ++ body).length := by simp
        rw [whole, cut, List.take_left]
      have cut : bytes = init.flatten ++ (body ++ [lineFeed]) ++ rest := by rw [split]; simp
      rw [precedingFrom, length, if_neg (by simp), front, begin_eq fedInit plain]
      dsimp only
      have shorter : bytes = init.flatten ++ ((body ++ [lineFeed]) ++ rest) := by
        rw [cut, List.append_assoc]
      rw [ih fedInit shorter, cut,
        slice_append, stripTerminator_terminated]
      simp

theorem followingLines_eq (count : ℕ) {front : List UInt8} (proper : Lines.Proper lineFeed below)
    (split : bytes = front ++ below.flatten) : followingLines base64 bytes limit front.length count =
      (below.take count).map fun line => .clamped base64 (stripTerminator line) limit := by
  induction count generalizing front below with
  | zero => simp [followingLines]
  | succ count ih =>
    rw [followingLines]
    cases below with
    | nil =>
      rw [if_pos (by simp [split])]
      rfl
    | cons line below =>
      have whole : bytes = front ++ line ++ below.flatten := by rw [split]; simp
      have filled : line ≠ [] := by
        rcases proper.head with ⟨body, -, rfl⟩ | ⟨filled, -, -⟩
        · simp
        · exact filled
      have stop : ((position lineFeed (bytes.drop front.length)).map (front.length + · + 1)).getD
          bytes.length = front.length + line.length := by
        rw [whole, List.append_assoc, List.drop_left]
        rcases proper.head with ⟨body, plain, rfl⟩ | ⟨-, plain, rfl⟩
        · rw [List.append_assoc, List.singleton_append, position_append plain]
          simp
          omega
        · rw [List.flatten_nil, List.append_nil, position_none plain]
          simp
      have room : ¬ bytes.length ≤ front.length := by
        have := List.length_pos_iff.mpr filled
        rw [whole]
        simp only [List.length_append]
        omega
      have next := ih proper.tail whole
      rw [List.length_append] at next
      rw [if_neg room, stop]
      dsimp only
      rw [next, whole, slice_append]
      rfl

end Cut

section Matched

variable {plan : Plan} {path : RepoPath} {bytes : List UInt8} {index : ℕ} {mat : SinkMatch}

/-- A reported line stands between the lines before it and those after it. -/
theorem Reports.split (reports : Reports bytes index mat) : ∃ above below,
    (fileLines bytes).take index = above ∧ (fileLines bytes).drop (index + 1) = below ∧
      Lines.Proper lineFeed (above ++ mat.bytes :: below) ∧
        bytes = above.flatten ++ mat.bytes ++ below.flatten ∧
          mat.absoluteByteOffset = above.flatten.length := by
  obtain ⟨room, line⟩ := List.getElem?_eq_some_iff.mp reports.line
  have lines : fileLines bytes =
      (fileLines bytes).take index ++ mat.bytes :: (fileLines bytes).drop (index + 1) := by
    rw [← line, ← List.drop_eq_getElem_cons room, List.take_append_drop]
  refine ⟨_, _, rfl, rfl, ?_, ?_, reports.offset⟩
  · rw [← lines]
    exact Lines.split_proper bytes
  · calc bytes = (fileLines bytes).flatten := (Lines.split_flatten bytes).symm
      _ = _ := by
        conv_lhs => rw [lines]
        simp

/-- A match is anchored in its file exactly if the engine finds it within the line and no shown line after
it ends in a carriage return alone. -/
theorem anchored_iff_plain (reports : Reports bytes index mat) (lawful : plan.base64.Lawful) :
    Anchored plan bytes index mat (matched plan path bytes mat) ↔ Plain plan bytes index mat := by
  obtain ⟨above, below, aboveEq, belowEq, proper, whole, offset⟩ := reports.split
  have shown := (BoundedText.shownBytes_clamped (stripTerminator mat.bytes) plan.maxLineBytes lawful).1
  -- What is shown of the line is cut from the file at the range given.
  have read : slice bytes mat.absoluteByteOffset (mat.absoluteByteOffset +
      ((matched plan path bytes mat).line.shownBytes plan.base64).length) =
        (matched plan path bytes mat).line.shownBytes plan.base64 := by
    obtain ⟨rest, line⟩ := shown.trans (stripTerminator_isPrefix mat.bytes)
    rw [offset, whole, ← line, ← List.append_assoc, List.append_assoc _ rest]
    exact slice_append _ _ _
  have before : (matched plan path bytes mat).before = ((above.reverse.take plan.contextLines).reverse.map
      fun line => .clamped plan.base64 (lineContent line) plan.maxLineBytes) := by
    change precedingLines _ _ _ mat.absoluteByteOffset _ = _
    rw [precedingLines, offset, precedingFrom_eq _ (fed_of_proper proper)
      (by rw [whole, List.append_assoc]), List.map_reverse]
  have after : (matched plan path bytes mat).after = ((below.take plan.contextLines).map
      fun line => .clamped plan.base64 (stripTerminator line) plan.maxLineBytes) := by
    change followingLines _ _ _ (mat.absoluteByteOffset + mat.bytes.length) _ = _
    rw [offset, ← List.length_append]
    exact followingLines_eq _ proper.of_append.tail whole
  constructor
  · intro anchored
    refine ⟨fun place found => ?_, ?_⟩
    · have bound := anchored.offset.2
      change mat.absoluteByteOffset + (plan.find mat.bytes).getD 0 ≤ _ at bound
      rw [Option.mem_def.mp found, Option.getD_some] at bound
      omega
    · have same := anchored.after
      rw [after, belowEq, List.map_inj_left] at same
      rw [belowEq]
      exact fun line member => clamped_strip_eq_iff.mp (same line member)
  · intro plain
    refine ⟨read.symm, rfl, ⟨Nat.le_add_right _ _, ?_⟩, ?_, ⟨Nat.le_add_right _ _, ?_⟩, ?_, ?_⟩
    · exact Nat.add_le_add_left (shown.trans (stripTerminator_isPrefix_lineContent mat.bytes)).length_le _
    · exact congrArg plan.sha256 read.symm
    · change mat.absoluteByteOffset + (plan.find mat.bytes).getD 0 ≤ _
      cases found : plan.find mat.bytes with
      | none => exact Nat.add_le_add_left (Nat.zero_le _) _
      | some place => exact Nat.add_le_add_left (plain.within place found) _
    · rw [before, aboveEq]
    · rw [after, belowEq, List.map_inj_left]
      have ended := plain.ended
      rw [belowEq] at ended
      exact fun line member => clamped_strip_eq_iff.mpr (ended line member)

/-- One character a byte. -/
def latin : Base64 where
  encode := List.map fun byte => Char.ofNat byte.toNat
  decode text := some (text.map fun char => UInt8.ofNat char.toNat)

theorem latin_lawful : latin.Lawful := by
  intro bytes
  change some ((bytes.map fun byte => Char.ofNat byte.toNat).map fun char => UInt8.ofNat char.toNat) = _
  rw [List.map_map, Option.some_inj]
  refine (List.map_congr_left fun byte _ => ?_).trans (List.map_id bytes)
  have valid : byte.toNat.isValidChar := .inl (by have := byte.toNat_lt; omega)
  change UInt8.ofNat (Char.ofNat byte.toNat).toNat = byte
  rw [Char.ofNat, dif_pos valid]
  exact UInt8.ofNat_toNat

/-- A search with one line of context. -/
def letterA (find : List UInt8 → Option ℕ) : Plan where
  base64 := latin
  sha256 bytes := String.ofList (latin.encode bytes)
  find
  maxLineBytes := 1024
  contextLines := 1

/-- The carriage return that ends a file is cut off the line shown after the match, and a pattern that asks
for the end of the line is found behind it. -/
theorem return_and_end_unanchored :
    (Reports [97, 10, 98, 13] 0 ⟨0, [97, 10], 1⟩ ∧
      ¬ Anchored (letterA (position 97)) [97, 10, 98, 13] 0 ⟨0, [97, 10], 1⟩
        (matched (letterA (position 97)) [97] [97, 10, 98, 13] ⟨0, [97, 10], 1⟩)) ∧
    Reports [97, 10, 98, 10] 0 ⟨0, [97, 10], 1⟩ ∧
      ¬ Anchored (letterA fun line => some ((position 98 line).getD line.length)) [97, 10, 98, 10] 0
        ⟨0, [97, 10], 1⟩ (matched (letterA fun line => some ((position 98 line).getD line.length)) [97]
          [97, 10, 98, 10] ⟨0, [97, 10], 1⟩) := by
  refine ⟨⟨⟨by decide, by decide, rfl⟩, fun anchored => ?_⟩, ⟨by decide, by decide, rfl⟩,
    fun anchored => ?_⟩
  · exact absurd anchored.after (by decide)
  · exact absurd anchored.offset.2 (by decide)

/-- A match with a line before it and one after it, in a file with two kinds of line ends. -/
theorem anchored_sample : Anchored (letterA (position 97)) [98, 13, 10, 97, 10, 99] 1 ⟨3, [97, 10], 2⟩
    (matched (letterA (position 97)) [97] [98, 13, 10, 97, 10, 99] ⟨3, [97, 10], 2⟩) :=
  (anchored_iff_plain ⟨by decide, by decide, rfl⟩ latin_lawful).mpr ⟨by decide, by decide⟩

end Matched

end Harkness.Context.Search
