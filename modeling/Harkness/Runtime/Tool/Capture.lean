import Harkness.Provider.Assembler
import Harkness.ToMathlib.Utf8Lossy
import Mathlib.Data.List.DropRight

/-! # What a reader keeps of a pipe

A child's pipe is read in chunks. The last bytes are kept and all are counted; the first ones are
admitted to an artifact. Standard error is split into segments besides, at line terminators and at a
length, and the text of every segment that is not blank is sent on. None of this depends on how the
stream was cut into reads.

A byte may carry more than itself, which `key` reads.
-/

namespace Harkness.Runtime.Tool.Capture

open Provider (isWhitespace)
open Utf8 (lossyItems decodeLossy)

/-- Longest one segment grows before it is sent as it stands. -/
def maxSegmentBytes : ℕ := 8 * 1024

variable {β : Type*}

/-- The last `capacity` bytes of a stream, and how many went past. -/
structure Tail (β : Type*) where
  retained : List β
  capacity : ℕ
  total : ℕ
  truncated : Bool
  deriving DecidableEq, Repr

namespace Tail

def new (capacity : ℕ) : Tail β where
  retained := []
  capacity := capacity
  total := 0
  truncated := false

def push (tail : Tail β) (chunk : List β) : Tail β :=
  let total := tail.total + chunk.length
  if tail.capacity = 0 then { tail with total, truncated := tail.truncated || !chunk.isEmpty }
  else if tail.capacity ≤ chunk.length then
    { tail with
      total
      truncated := tail.truncated || (decide (tail.capacity < chunk.length) || !tail.retained.isEmpty)
      retained := chunk.drop (chunk.length - tail.capacity) }
  else
    let overflow := tail.retained.length + chunk.length - tail.capacity
    { tail with
      total
      truncated := tail.truncated || decide (0 < overflow)
      retained := tail.retained.drop overflow ++ chunk }

/-- The tail of a stream. -/
structure Holds (tail : Tail β) (room : ℕ) (stream : List β) : Prop where
  capacity : tail.capacity = room
  retained : tail.retained = stream.drop (stream.length - room)
  total : tail.total = stream.length
  truncated : tail.truncated = decide (room < stream.length)

theorem holds_new (room : ℕ) : (new room : Tail β).Holds room [] where
  capacity := rfl
  retained := List.drop_nil.symm
  total := rfl
  truncated := rfl

theorem Holds.push {tail : Tail β} {room : ℕ} {stream : List β} (holds : tail.Holds room stream)
    (chunk : List β) : (tail.push chunk).Holds room (stream ++ chunk) := by
  obtain ⟨retained, capacity, total, truncated⟩ := tail
  obtain ⟨same, kept, counted, dropped⟩ := holds
  dsimp only at same kept counted dropped
  subst same kept counted dropped
  dsimp only [Tail.push]
  split_ifs with zero long
  · subst zero
    refine ⟨rfl, ?_, (List.length_append).symm, ?_⟩
    · rw [Nat.sub_zero, Nat.sub_zero, List.drop_length, List.drop_length]
    · rw [List.length_append, Bool.eq_iff_iff]
      cases chunk with
      | nil => simp
      | cons => simp
  · refine ⟨rfl, ?_, (List.length_append).symm, ?_⟩
    · have past : stream.length + chunk.length - capacity - stream.length = chunk.length - capacity := by
        omega
      have gone : stream.drop (stream.length + chunk.length - capacity) = [] :=
        List.drop_of_length_le (by omega)
      rw [List.length_append, List.drop_append, gone, past, List.nil_append]
    · have some_ : (!(stream.drop (stream.length - capacity)).isEmpty) = decide (0 < stream.length) := by
        rw [Bool.eq_iff_iff]
        simp
        omega
      dsimp only
      rw [List.length_append, some_, Bool.eq_iff_iff]
      simp only [Bool.or_eq_true, decide_eq_true_eq]
      omega
  · have room : stream.length - capacity +
        (min capacity stream.length + chunk.length - capacity) = stream.length + chunk.length - capacity := by
      omega
    have kept : (stream.drop (stream.length - capacity)).length = min capacity stream.length := by
      rw [List.length_drop]
      omega
    refine ⟨rfl, ?_, (List.length_append).symm, ?_⟩
    · dsimp only
      rw [kept, List.drop_drop, room, List.length_append, List.drop_append_of_le_length (by omega)]
    · dsimp only
      rw [kept, List.length_append, Bool.eq_iff_iff]
      simp only [Bool.or_eq_true, decide_eq_true_eq]
      omega

end Tail

section Segments

variable (key : β → UInt8)

/-- A text without the white space at its ends, `str::trim`. -/
def trim (text : List (Char × List β)) : List (Char × List β) :=
  (text.dropWhile fun char => isWhitespace char.1).rdropWhile fun char => isWhitespace char.1

/-- What `send_segment` sends of an accumulated segment, unless it is only white space. -/
def message (segment : List β) : Option (List (Char × List β)) :=
  if segment = [] then none
  else
    let message := trim (lossyItems key segment)
    if message = [] then none else some message

/-- The segment that one more byte ends, and the one it leaves. -/
def splitByte (segment : List β) (byte : β) : Option (List β) × List β :=
  if key byte = 10 ∨ key byte = 13 then (some segment, [])
  else
    let segment := segment ++ [byte]
    if maxSegmentBytes ≤ segment.length then (some segment, []) else (none, segment)

/-- The segments a chunk ends, and the one it leaves. -/
def splitSegments : List β → List β → List (List β) × List β
  | segment, [] => ([], segment)
  | segment, byte :: chunk =>
    let (ended, left) := splitByte key segment byte
    let (rest, left) := splitSegments left chunk
    (ended.toList ++ rest, left)

/-- The segments of a whole stream, the last of which only its end ends. -/
def segments (stream : List β) : List (List β) :=
  (splitSegments key [] stream).1 ++ [(splitSegments key [] stream).2]

/-- What is sent of a whole stream. -/
def messages (stream : List β) : List (List (Char × List β)) :=
  (segments key stream).filterMap (message key)

variable {key} {segment : List β}

/-- A stream is split alike however it is cut. -/
theorem splitSegments_append (segment first second : List β) :
    splitSegments key segment (first ++ second) =
      ((splitSegments key segment first).1 ++
          (splitSegments key (splitSegments key segment first).2 second).1,
        (splitSegments key (splitSegments key segment first).2 second).2) := by
  induction first generalizing segment with
  | nil => rfl
  | cons byte first ih =>
    rw [List.cons_append, splitSegments, splitSegments]
    dsimp only
    rw [ih, List.append_assoc]

/-- A segment is a part of the stream. -/
theorem infix_of_mem_segments {part stream : List β} (member : part ∈ segments key stream) :
    part <:+: stream := by
  suffices general : ∀ segment, part ∈ (splitSegments key segment stream).1 ++
      [(splitSegments key segment stream).2] → part <:+: segment ++ stream from general [] member
  clear member
  induction stream with
  | nil =>
    intro segment member
    obtain rfl := List.mem_singleton.mp member
    exact (List.append_nil part).symm ▸ List.infix_rfl
  | cons byte stream ih =>
    intro segment member
    rw [splitSegments] at member
    dsimp only at member
    have here : splitByte key segment byte = (some segment, []) ∨
        splitByte key segment byte = (some (segment ++ [byte]), []) ∨
        splitByte key segment byte = (none, segment ++ [byte]) := by
      unfold splitByte
      dsimp only
      split_ifs
      · exact .inl rfl
      · exact .inr (.inl rfl)
      · exact .inr (.inr rfl)
    rw [List.append_assoc, List.mem_append] at member
    rcases here with split | split | split
    all_goals rw [split] at member
    · rcases member with first | later
      · obtain rfl := List.mem_singleton.mp first
        exact (List.prefix_append _ _).isInfix
      · exact (ih [] later).trans ((List.suffix_cons byte stream).trans (List.suffix_append _ _)).isInfix
    · rcases member with first | later
      · obtain rfl := List.mem_singleton.mp first
        exact ⟨[], stream, by rw [List.nil_append, List.append_assoc, List.singleton_append]⟩
      · exact (ih [] later).trans ((List.suffix_cons byte stream).trans (List.suffix_append _ _)).isInfix
    · rcases member with first | later
      · exact absurd first List.not_mem_nil
      · rw [List.append_cons]
        exact ih _ later

theorem splitSegments_map (key : β → UInt8) (segment chunk : List β) :
    splitSegments id (segment.map key) (chunk.map key) =
      ((splitSegments key segment chunk).1.map (List.map key),
        (splitSegments key segment chunk).2.map key) := by
  induction chunk generalizing segment with
  | nil => rfl
  | cons byte chunk ih =>
    have step : splitByte id (segment.map key) (key byte) =
        ((splitByte key segment byte).1.map (List.map key), (splitByte key segment byte).2.map key) := by
      simp only [splitByte, id, List.length_append, List.length_map, List.length_singleton]
      split_ifs
      · rfl
      · simp
      · simp
    rw [List.map_cons, splitSegments, splitSegments, step]
    dsimp only
    rw [ih]
    cases (splitByte key segment byte).1 with
    | none => rfl
    | some => rfl

theorem map_fst_trim (text : List (Char × List β)) : (trim text).map Prod.fst =
    ((text.map Prod.fst).dropWhile isWhitespace).rdropWhile isWhitespace := by
  rw [trim, List.rdropWhile, List.rdropWhile, List.dropWhile_map, ← List.map_reverse, List.dropWhile_map,
    ← List.map_reverse]
  rfl

theorem map_fst_message (segment : List β) : (message id (segment.map key)).map (List.map Prod.fst) =
    (message key segment).map (List.map Prod.fst) := by
  have chars : (trim (lossyItems id (segment.map key))).map Prod.fst =
      (trim (lossyItems key segment)).map Prod.fst := by
    rw [map_fst_trim, map_fst_trim, Utf8.map_fst_lossyItems, Utf8.map_fst_lossyItems, List.map_id]
  have empty : trim (lossyItems id (segment.map key)) = [] ↔ trim (lossyItems key segment) = [] := by
    rw [← List.map_eq_nil_iff (f := Prod.fst), chars, List.map_eq_nil_iff]
  unfold message
  simp only [List.map_eq_nil_iff, empty]
  split_ifs
  · rfl
  · rfl
  · exact congrArg some chars

theorem map_fst_messages (stream : List β) : (messages id (stream.map key)).map (List.map Prod.fst) =
    (messages key stream).map (List.map Prod.fst) := by
  have split : segments id (stream.map key) = (segments key stream).map (List.map key) := by
    have whole := splitSegments_map key [] stream
    rw [List.map_nil] at whole
    rw [segments, segments, whole, List.map_append]
    rfl
  rw [messages, messages, List.map_filterMap, List.map_filterMap, split, List.filterMap_map]
  exact List.filterMap_congr fun segment _ => map_fst_message segment

end Segments

section Chunks

variable (key : β → UInt8)

/-- The tail of a stream read in chunks. -/
def tailOf (capacity : ℕ) (chunks : List (List β)) : Tail β := chunks.foldl Tail.push (Tail.new capacity)

/-- The segments that chunks end one after another, and the one they leave. -/
def splitChunks : List β → List (List β) → List (List β) × List β
  | segment, [] => ([], segment)
  | segment, chunk :: chunks =>
    let (ended, left) := splitSegments key segment chunk
    let (rest, left) := splitChunks left chunks
    (ended ++ rest, left)

/-- What is sent of a stream read in chunks. -/
def messagesOf (chunks : List (List β)) : List (List (Char × List β)) :=
  ((splitChunks key [] chunks).1 ++ [(splitChunks key [] chunks).2]).filterMap (message key)

variable {key}

theorem tailOf_holds (capacity : ℕ) (chunks : List (List β)) :
    (tailOf capacity chunks).Holds capacity chunks.flatten := by
  suffices general : ∀ (tail : Tail β) (stream : List β), tail.Holds capacity stream →
      (chunks.foldl Tail.push tail).Holds capacity (stream ++ chunks.flatten) from
    general _ [] (Tail.holds_new capacity)
  induction chunks with
  | nil =>
    intro tail stream holds
    rwa [List.flatten_nil, List.append_nil]
  | cons chunk chunks ih =>
    intro tail stream holds
    rw [List.flatten_cons, ← List.append_assoc]
    exact ih _ _ (holds.push chunk)

theorem splitChunks_eq (segment : List β) (chunks : List (List β)) :
    splitChunks key segment chunks = splitSegments key segment chunks.flatten := by
  induction chunks generalizing segment with
  | nil => rfl
  | cons chunk chunks ih =>
    rw [splitChunks, List.flatten_cons, splitSegments_append]
    dsimp only
    rw [ih]

theorem messagesOf_eq (chunks : List (List β)) : messagesOf key chunks = messages key chunks.flatten := by
  rw [messagesOf, messages, segments, splitChunks_eq]

end Chunks

end Harkness.Runtime.Tool.Capture
