import Harkness.ToMathlib.Utf8
import Mathlib

/-! # Cutting a text into chunks

A span of a text is pushed as pieces, each ending at a line where that keeps it near its target length,
until the budget of a file is spent. Offsets are those of the decoded text.
-/

namespace Harkness.Context.Chunk

open String (utf8Len)

def maxChunkBytes : ℕ := 16 * 1024

def targetChunkBytes : ℕ := 4 * 1024

/-- How many trailing lines of a window the next one repeats at most. -/
def chunkOverlapLines : ℕ := 8

def maxChunksPerFile : ℕ := 512

def u32Max : ℕ := 2 ^ 32 - 1

/-- What a chunk hangs on within its file. -/
inductive Anchor where
  | symbol (path : List String)
  | heading (path : List String)
  | configKey (path : List String)
  | lineWindow (index : ℕ)
  | wholeFile
deriving DecidableEq, Repr

/-- What identifies a chunk within its file, and where it lies. -/
structure ChunkRecord where
  anchor : Anchor
  ordinal : ℕ
  start : ℕ
  stop : ℕ
deriving DecidableEq, Repr

def ChunkRecord.length (self : ChunkRecord) : ℕ := self.stop - self.start

inductive ChunkError where
  /-- A span that is none of the decoded content. -/
  | outlineMismatch (start stop : ℕ)
deriving DecidableEq, Repr

structure ChunkSetBuilder where
  chunks : List ChunkRecord
  truncated : Bool
deriving DecidableEq

/-- The length of all chunks together. -/
def totalLength (chunks : List ChunkRecord) : ℕ := (chunks.map ChunkRecord.length).sum

/-- The offset of every line feed. -/
def lineFeeds (offset : ℕ) : List Char → List ℕ
  | [] => []
  | character :: rest =>
    (if character = '\n' then [offset] else []) ++ lineFeeds (offset + character.utf8Size) rest

/-- Where the lines of a text start; one that would be empty at its end is none. -/
def lineStarts (text : List Char) : List ℕ :=
  0 :: ((lineFeeds 0 text).map (· + 1)).filter (· < utf8Len text)

/-- Behind the last line feed before the target, or else at the limit. -/
def preferredBoundary (text : List Char) (start target limit stop : ℕ) : ℕ :=
  if limit = stop then stop
  else
    let rest := Utf8.after start text
    let candidate := start + utf8Len (Utf8.within (target - start) rest)
    match Utf8.rfind '\n' (Utf8.slice text start candidate) with
    | some newline => start + newline + 1
    | none =>
      max (start + utf8Len (Utf8.within (limit - start) rest))
        (start + (rest.head?.map Char.utf8Size).getD 1)

/-- Where the piece that starts at a cursor ends. -/
def pieceStop (text : List Char) (cursor stop : ℕ) : ℕ :=
  if stop - cursor ≤ maxChunkBytes then stop
  else
    let limit := min (cursor + maxChunkBytes) stop
    let target := min (cursor + targetChunkBytes) limit
    preferredBoundary text cursor target limit stop

variable {text : List Char} {cursor start stop target limit : ℕ}

theorem lt_preferredBoundary (before : start < stop) :
    start < preferredBoundary text start target limit stop := by
  unfold preferredBoundary
  split_ifs
  · exact before
  · have size : 1 ≤ ((Utf8.after start text).head?.map Char.utf8Size).getD 1 := by
      cases (Utf8.after start text).head? with
      | none => exact le_rfl
      | some character => exact character.utf8Size_pos
    dsimp only
    split <;> omega

theorem lt_pieceStop (before : cursor < stop) : cursor < pieceStop text cursor stop := by
  rw [pieceStop]
  split_ifs
  · exact before
  · exact lt_preferredBoundary before

theorem pieceStop_le (before : cursor < stop) : pieceStop text cursor stop ≤ stop := by
  rw [pieceStop]
  split_ifs with short
  · exact le_rfl
  · have long : cursor + maxChunkBytes < stop := by omega
    have bounded : min (cursor + maxChunkBytes) stop = cursor + maxChunkBytes := min_eq_left long.le
    have target_le : min (cursor + targetChunkBytes) (cursor + maxChunkBytes) = cursor + targetChunkBytes :=
      min_eq_left (by simp [targetChunkBytes, maxChunkBytes])
    dsimp only
    rw [bounded, target_le, preferredBoundary, if_neg long.ne, Nat.add_sub_cancel_left,
      Nat.add_sub_cancel_left]
    have fits := Utf8.utf8Len_within_le targetChunkBytes (Utf8.after cursor text)
    have fitsLimit := Utf8.utf8Len_within_le maxChunkBytes (Utf8.after cursor text)
    have target_lt : targetChunkBytes < maxChunkBytes := by decide
    dsimp only
    split
    next newline found =>
      obtain ⟨first, second, split, length⟩ := Utf8.rfind_eq_some found
      have shorter := Utf8.utf8Len_within_le
        (cursor + utf8Len (Utf8.within targetChunkBytes (Utf8.after cursor text)) - cursor)
        (Utf8.after cursor text)
      rw [← Utf8.slice, split, String.utf8Len_append, String.utf8Len_cons] at shorter
      omega
    next =>
      have size : ((Utf8.after cursor text).head?.map Char.utf8Size).getD 1 ≤ 4 := by
        cases (Utf8.after cursor text).head? with
        | none => decide
        | some character => exact character.utf8Size_le_four
      have four : 4 ≤ maxChunkBytes := by decide
      omega

/-- Pushes the pieces of a span, from a cursor on. -/
def pushFrom (text : List Char) (stop : ℕ) (anchor : Anchor) (builder : ChunkSetBuilder)
    (cursor ordinal : ℕ) : ChunkSetBuilder :=
  if before : cursor < stop then
    if builder.chunks.length = maxChunksPerFile then { builder with truncated := true }
    else
      pushFrom text stop anchor
        { builder with
          chunks := builder.chunks ++ [⟨anchor, ordinal, cursor, pieceStop text cursor stop⟩] }
        (pieceStop text cursor stop) (min (ordinal + 1) u32Max)
  else builder
termination_by stop - cursor
decreasing_by
  have : cursor < pieceStop text cursor stop := lt_pieceStop before
  omega

def pushSpan (text : List Char) (builder : ChunkSetBuilder) (start stop : ℕ) (anchor : Anchor) :
    Except ChunkError ChunkSetBuilder :=
  if start > stop || stop > utf8Len text then .error (.outlineMismatch start stop)
  else if start = stop then .ok builder
  else .ok (pushFrom text stop anchor builder start 0)

/-- What a push adds: no more than the span it is about, and all of it unless the budget is spent. -/
structure Pushed (span : ℕ) (before after : ChunkSetBuilder) : Prop where
  le : totalLength after.chunks ≤ totalLength before.chunks + span
  eq : after.truncated = false → totalLength after.chunks = totalLength before.chunks + span
  truncated : before.truncated = true → after.truncated = true

theorem pushFrom_pushed (text : List Char) (stop : ℕ) (anchor : Anchor) (builder : ChunkSetBuilder)
    (cursor ordinal : ℕ) :
    Pushed (stop - cursor) builder (pushFrom text stop anchor builder cursor ordinal) := by
  induction builder, cursor, ordinal using pushFrom.induct text stop anchor with
  | case1 builder cursor ordinal before spent =>
    rw [pushFrom, dif_pos before, if_pos spent]
    exact ⟨Nat.le_add_right _ _, nofun, fun _ => rfl⟩
  | case2 builder cursor ordinal before room ih =>
    rw [pushFrom, dif_pos before, if_neg room]
    have later : cursor < pieceStop text cursor stop := lt_pieceStop before
    have inside : pieceStop text cursor stop ≤ stop := pieceStop_le before
    have piece : totalLength (builder.chunks ++ [⟨anchor, ordinal, cursor, pieceStop text cursor stop⟩]) =
        totalLength builder.chunks + (pieceStop text cursor stop - cursor) := by
      simp [totalLength, ChunkRecord.length]
    obtain ⟨le, eq, truncated⟩ := ih
    rw [piece] at le eq
    refine ⟨by omega, fun whole => ?_, truncated⟩
    have sum := eq whole
    omega
  | case3 builder cursor ordinal behind =>
    rw [pushFrom, dif_neg behind]
    have nothing : stop - cursor = 0 := by omega
    rw [nothing]
    exact ⟨le_rfl, fun _ => rfl, id⟩

/-- A span within the text is pushed. -/
theorem pushSpan_pushed (builder : ChunkSetBuilder) (anchor : Anchor) (order : start ≤ stop)
    (inside : stop ≤ utf8Len text) : ∃ after, pushSpan text builder start stop anchor = .ok after ∧
      Pushed (stop - start) builder after := by
  have accepted : ¬ (start > stop || stop > utf8Len text) = true := by
    simp only [Bool.or_eq_true, decide_eq_true_eq]
    omega
  rw [pushSpan, if_neg accepted]
  split_ifs with empty
  · subst empty
    rw [Nat.sub_self]
    exact ⟨builder, rfl, le_rfl, fun _ => rfl, id⟩
  · exact ⟨_, rfl, pushFrom_pushed text stop anchor builder start 0⟩

end Harkness.Context.Chunk
