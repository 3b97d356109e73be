import Harkness.Git.Diff
import Harkness.ToMathlib.Alignment
import Harkness.ToMathlib.Except
import Harkness.ToMathlib.Grid
import Mathlib.Data.Nat.Basic

/-! # Changed ranges of a paired line

Both lines of a pair are cut into tokens. The tokens of a longest common subsequence are matched; what lies
between matched tokens has changed.
-/

namespace Harkness.Git.IntraLine

/-- A half-open changed range of the bytes of a line. -/
structure IntraLineRange where
  start : ℕ
  stop : ℕ
deriving DecidableEq, Repr

structure Token where
  start : ℕ
  stop : ℕ
deriving DecidableEq, Repr

def isAsciiWhitespace (byte : UInt8) : Bool := byte == 32 || byte == 9 || byte == 10 ||
    byte == 12 || byte == 13

def isAsciiAlphanumeric (byte : UInt8) : Bool :=
  (48 ≤ byte && byte ≤ 57) || (65 ≤ byte && byte ≤ 90) || (97 ≤ byte && byte ≤ 122)

def isWordByte (byte : UInt8) : Bool := isAsciiAlphanumeric byte || byte == 95 || 128 ≤ byte

/-- The end of the token that starts here and goes on as long as its bytes satisfy the predicate. -/
def takeWhile (bytes : Bytes) (start : ℕ) (predicate : UInt8 → Bool) : ℕ :=
  start + 1 + ((bytes.drop (start + 1)).takeWhile predicate).length

def tokenEnd (bytes : Bytes) (start : ℕ) (byte : UInt8) : ℕ :=
  if byte = 13 ∧ bytes[start + 1]? = some 10 then start + 2
  else if byte = 13 ∨ byte = 10 then start + 1
  else if isWordByte byte then takeWhile bytes start isWordByte
  else if isAsciiWhitespace byte then
    takeWhile bytes start fun byte => isAsciiWhitespace byte && !(byte == 13 || byte == 10)
  else start + 1

def tokenizeFrom (bytes : Bytes) : ℕ → ℕ → List Token
  | 0, _ => []
  | fuel + 1, start =>
    match bytes[start]? with
    | none => []
    | some byte => ⟨start, tokenEnd bytes start byte⟩ :: tokenizeFrom bytes fuel (tokenEnd bytes start byte)

/-- Cuts a line into words, horizontal whitespace, line endings and single other bytes. -/
def tokenize (bytes : Bytes) : List Token := tokenizeFrom bytes bytes.length 0

/-- Tokens that follow each other without gap from one place of a line to another, none of them empty. -/
def Tiles : ℕ → List Token → ℕ → Prop
  | lower, [], upper => lower = upper
  | lower, token :: tokens, upper => token.start = lower ∧ token.start < token.stop ∧
      Tiles token.stop tokens upper

private theorem takeWhile_bounds {bytes : Bytes} {start : ℕ} (inside : start < bytes.length)
    (predicate : UInt8 → Bool) :
    start < takeWhile bytes start predicate ∧ takeWhile bytes start predicate ≤ bytes.length := by
  have taken := (List.takeWhile_sublist predicate (l := bytes.drop (start + 1))).length_le
  rw [List.length_drop] at taken
  rw [takeWhile]
  omega

/-- A token is not empty and ends in its line. -/
theorem tokenEnd_bounds {bytes : Bytes} {start : ℕ} {byte : UInt8} (here : bytes[start]? = some byte) :
    start < tokenEnd bytes start byte ∧ tokenEnd bytes start byte ≤ bytes.length := by
  obtain ⟨inside, -⟩ := List.getElem?_eq_some_iff.mp here
  rw [tokenEnd]
  split_ifs with ending
  · obtain ⟨next, -⟩ := List.getElem?_eq_some_iff.mp ending.2
    omega
  · omega
  · exact takeWhile_bounds inside _
  · exact takeWhile_bounds inside _
  · omega

theorem tokenizeFrom_tiles {bytes : Bytes} {fuel start : ℕ} (enough : bytes.length ≤ start + fuel)
    (inside : start ≤ bytes.length) : Tiles start (tokenizeFrom bytes fuel start) bytes.length := by
  induction fuel generalizing start with
  | zero => exact le_antisymm inside enough
  | succ fuel ih =>
    rw [tokenizeFrom]
    cases here : bytes[start]? with
    | none => exact le_antisymm inside (List.getElem?_eq_none_iff.mp here)
    | some byte =>
      obtain ⟨further, within⟩ := tokenEnd_bounds here
      exact ⟨rfl, further, ih (by dsimp only; omega) within⟩

/-- The tokens of a line tile it. -/
theorem tokenize_tiles (bytes : Bytes) : Tiles 0 (tokenize bytes) bytes.length :=
  tokenizeFrom_tiles (Nat.zero_add _).ge (Nat.zero_le _)

/-- There are no more tokens than bytes. -/
theorem Tiles.length_le {lower upper : ℕ} {tokens : List Token} (tiles : Tiles lower tokens upper) :
    lower + tokens.length ≤ upper := by
  induction tokens generalizing lower with
  | nil => exact tiles.le
  | cons token tokens ih =>
    obtain ⟨rfl, filled, rest⟩ := tiles
    have further := ih rest
    rw [List.length_cons]
    omega

theorem tokenize_length_le (content : Bytes) : (tokenize content).length ≤ content.length :=
  (Nat.zero_add _).symm.trans_le (tokenize_tiles content).length_le

/-- Where the token of this index starts; behind the last token, where the line ends. -/
def boundary (tokens : List Token) (upper index : ℕ) : ℕ := (tokens[index]?.map Token.start).getD upper

variable {tokens : List Token} {lower upper index index' : ℕ}

theorem Tiles.boundary_zero (tiles : Tiles lower tokens upper) : boundary tokens upper 0 = lower := by
  cases tokens with
  | nil => exact tiles.symm
  | cons token tokens => exact tiles.1

theorem boundary_length : boundary tokens upper tokens.length = upper := by
  rw [boundary, List.getElem?_eq_none le_rfl, Option.map_none, Option.getD_none]

theorem boundary_of_lt (inside : index < tokens.length) :
    boundary tokens upper index = tokens[index].start := by
  rw [boundary, List.getElem?_eq_getElem inside, Option.map_some, Option.getD_some]

/-- A token ends where the next one starts. -/
theorem Tiles.stop_eq (tiles : Tiles lower tokens upper) (inside : index < tokens.length) :
    tokens[index].stop = boundary tokens upper (index + 1) := by
  induction tokens generalizing lower index with
  | nil => exact absurd inside (Nat.not_lt_zero _)
  | cons token tokens ih =>
    cases index with
    | zero => exact tiles.2.2.boundary_zero.symm
    | succ index => exact ih tiles.2.2 (Nat.lt_of_succ_lt_succ inside)

theorem Tiles.boundary_lt_succ (tiles : Tiles lower tokens upper) (inside : index < tokens.length) :
    boundary tokens upper index < boundary tokens upper (index + 1) := by
  rw [boundary_of_lt inside, ← tiles.stop_eq inside]
  induction tokens generalizing lower index with
  | nil => exact absurd inside (Nat.not_lt_zero _)
  | cons token tokens ih =>
    cases index with
    | zero => exact tiles.2.1
    | succ index => exact ih tiles.2.2 (Nat.lt_of_succ_lt_succ inside)

theorem Tiles.boundary_lt (tiles : Tiles lower tokens upper) (before : index < index')
    (inside : index' ≤ tokens.length) : boundary tokens upper index < boundary tokens upper index' := by
  induction index', before using Nat.le_induction with
  | base => exact tiles.boundary_lt_succ inside
  | succ index' _ ih => exact (ih (Nat.le_of_succ_le inside)).trans (tiles.boundary_lt_succ inside)

theorem Tiles.boundary_le (tiles : Tiles lower tokens upper) (before : index ≤ index')
    (inside : index' ≤ tokens.length) : boundary tokens upper index ≤ boundary tokens upper index' := by
  rcases before.lt_or_eq with less | rfl
  · exact (tiles.boundary_lt less inside).le
  · exact le_rfl

/-- No result is a read outside of the tokens. -/
def pushUnmatchedRange (ranges : List IntraLineRange) (tokens : List Token) (start stop : ℕ) :
    Option (List IntraLineRange) :=
  if start < stop then do return ranges ++ [⟨(← tokens[start]?).start,
    (← tokens[stop - 1]?).stop⟩] else some ranges

/-- What lies before a matched token is pushed, and the cursor moves behind the token. -/
def pushMatched (tokens : List Token) (state : List IntraLineRange × ℕ) (index : ℕ) :
    Option (List IntraLineRange × ℕ) := do
  return (← pushUnmatchedRange state.1 tokens state.2 index, index + 1)

def unmatchedRanges (tokens : List Token) (matched : List ℕ) : Option (List IntraLineRange) := do
  let state ← matched.foldlM (pushMatched tokens) ([], 0)
  pushUnmatchedRange state.1 tokens state.2 tokens.length

/-- What lies between two boundaries, if anything does. -/
def gap (bound : ℕ → ℕ) (start stop : ℕ) : List IntraLineRange :=
  if start < stop then [⟨bound start, bound stop⟩] else []

/-- The gaps between matched tokens from this token on. -/
def gaps (bound : ℕ → ℕ) (count : ℕ) : ℕ → List ℕ → List IntraLineRange
  | cursor, [] => gap bound cursor count
  | cursor, index :: matched => gap bound cursor index ++ gaps bound count (index + 1) matched

variable {ranges : List IntraLineRange} {matched : List ℕ} {cursor : ℕ}

theorem Tiles.pushUnmatchedRange_eq (tiles : Tiles lower tokens upper) (inside : index' ≤ tokens.length) :
    pushUnmatchedRange ranges tokens index index' =
      some (ranges ++ gap (boundary tokens upper) index index') := by
  rw [pushUnmatchedRange, gap]
  split_ifs with some_
  · have first : index < tokens.length := by omega
    have last : index' - 1 < tokens.length := by omega
    rw [boundary_of_lt first, List.getElem?_eq_getElem first, List.getElem?_eq_getElem last]
    have stop := tiles.stop_eq last
    rw [Nat.sub_add_cancel (Nat.one_le_of_lt some_)] at stop
    rw [← stop]
    rfl
  · rw [List.append_nil]

/-- The ranges are the gaps between the matched tokens. -/
theorem Tiles.unmatchedRanges_eq (tiles : Tiles lower tokens upper)
    (inside : ∀ index ∈ matched, index < tokens.length) :
    unmatchedRanges tokens matched = some (gaps (boundary tokens upper) tokens.length 0 matched) := by
  suffices from_ : ∀ state : List IntraLineRange × ℕ,
    (matched.foldlM (pushMatched tokens) state >>= fun state =>
      pushUnmatchedRange state.1 tokens state.2 tokens.length) =
      some (state.1 ++ gaps (boundary tokens upper) tokens.length state.2 matched) from from_ ([], 0)
  induction matched with
  | nil => exact fun state => tiles.pushUnmatchedRange_eq le_rfl
  | cons index matched ih =>
    intro state
    obtain ⟨here, later⟩ := List.forall_mem_cons.mp inside
    have push : pushMatched tokens state index =
        some (state.1 ++ gap (boundary tokens upper) state.2 index, index + 1) := by
      rw [pushMatched, tiles.pushUnmatchedRange_eq here.le]
      rfl
    rw [List.foldlM_cons, push, gaps, ← List.append_assoc]
    exact ih later (_, index + 1)

/-- Ranges of a line in order, apart from each other, none of them empty, all of whole tokens. -/
structure RangesOn (content : Bytes) (ranges : List IntraLineRange) : Prop where
  filled : ∀ range ∈ ranges, range.start < range.stop
  inBounds : ∀ range ∈ ranges, range.stop ≤ content.length
  apart : ranges.Pairwise fun first second => first.stop < second.start
  onTokens : ∀ range ∈ ranges, ∃ first ∈ tokenize content, ∃ last ∈ tokenize content,
    first.start = range.start ∧ last.stop = range.stop

/-- The bytes of a line from this place on that lie in none of the ranges behind it. -/
def withoutRanges (content : Bytes) : ℕ → List IntraLineRange → Bytes
  | cursor, [] => content.drop cursor
  | cursor, range :: ranges =>
    (content.drop cursor).take (range.start - cursor) ++ withoutRanges content range.stop ranges

def tokenBytes (content : Bytes) (token : Token) : Bytes :=
  (content.drop token.start).take (token.stop - token.start)

private theorem mem_gap {bound : ℕ → ℕ} {range : IntraLineRange} (member : range ∈ gap bound index index') :
    index < index' ∧ range = ⟨bound index, bound index'⟩ := by
  rw [gap] at member
  split_ifs at member with some_
  · exact ⟨some_, List.mem_singleton.mp member⟩
  · exact absurd member List.not_mem_nil

/-- A gap runs from one token boundary behind the cursor to a later one. -/
theorem mem_gaps {bound : ℕ → ℕ} {count : ℕ} {range : IntraLineRange}
    (inside : ∀ index ∈ matched, index < count)
    (behind : ∀ index ∈ matched, cursor ≤ index) (ordered : matched.Pairwise (· < ·))
    (member : range ∈ gaps bound count cursor matched) :
    ∃ index index', cursor ≤ index ∧ index < index' ∧ index' ≤ count ∧
      range = ⟨bound index, bound index'⟩ := by
  induction matched generalizing cursor with
  | nil =>
    obtain ⟨some_, rfl⟩ := mem_gap member
    exact ⟨cursor, count, le_rfl, some_, le_rfl, rfl⟩
  | cons index matched ih =>
    obtain ⟨here, later⟩ := List.forall_mem_cons.mp inside
    obtain ⟨after, ordered⟩ := List.pairwise_cons.mp ordered
    have first := behind index List.mem_cons_self
    rcases List.mem_append.mp member with now | then_
    · obtain ⟨some_, rfl⟩ := mem_gap now
      exact ⟨cursor, index, le_rfl, some_, here.le, rfl⟩
    · obtain ⟨start, stop, reached, some_, within, rfl⟩ := ih later after ordered then_
      exact ⟨start, stop, by omega, some_, within, rfl⟩

/-- Two gaps are apart by a matched token at least. -/
theorem pairwise_gaps {bound : ℕ → ℕ} {count : ℕ} (increasing : ∀ index index', index < index' →
    index' ≤ count →
      bound index < bound index') (inside : ∀ index ∈ matched, index < count)
    (ordered : matched.Pairwise (· < ·)) (behind : ∀ index ∈ matched, cursor ≤ index) :
    (gaps bound count cursor matched).Pairwise fun first second => first.stop < second.start := by
  induction matched generalizing cursor with
  | nil =>
    rw [gaps, gap]
    split_ifs
    · exact List.pairwise_singleton _ _
    · exact .nil
  | cons index matched ih =>
    obtain ⟨here, later⟩ := List.forall_mem_cons.mp inside
    obtain ⟨after, ordered⟩ := List.pairwise_cons.mp ordered
    refine List.pairwise_append.mpr ⟨?_, ih later ordered after, fun first now second then_ => ?_⟩
    · rw [gap]
      split_ifs
      · exact List.pairwise_singleton _ _
      · exact .nil
    · obtain ⟨-, rfl⟩ := mem_gap now
      obtain ⟨start, stop, reached, some_, within, rfl⟩ := mem_gaps later after ordered then_
      exact increasing index start reached (by omega)

private theorem withoutRanges_eq_append {content : Bytes} {start stop : ℕ} (further : start ≤ stop)
    (behind : ∀ range ∈ ranges, stop ≤ range.start) :
    withoutRanges content start ranges =
      (content.drop start).take (stop - start) ++ withoutRanges content stop ranges := by
  have rest : (content.drop start).drop (stop - start) = content.drop stop := by
    rw [List.drop_drop, Nat.add_sub_cancel' further]
  cases ranges with
  | nil => rw [withoutRanges, withoutRanges, ← rest, List.take_append_drop]
  | cons range ranges =>
    have first := behind range List.mem_cons_self
    rw [withoutRanges, withoutRanges, ← rest, ← List.append_assoc, ← List.take_add]
    congr 2
    omega

/-- Without the gaps, a line is its matched tokens. -/
theorem Tiles.withoutRanges_gaps {content : Bytes} (tiles : Tiles lower tokens content.length)
    (inside : ∀ index ∈ matched, index < tokens.length) (ordered : matched.Pairwise (· < ·))
    (behind : ∀ index ∈ matched, cursor ≤ index) (within : cursor ≤ tokens.length) :
    withoutRanges content (boundary tokens content.length cursor)
        (gaps (boundary tokens content.length) tokens.length cursor matched) =
      matched.flatMap fun index => (tokens[index]?.map (tokenBytes content)).getD [] := by
  -- A gap in front takes away all up to the token it ends at.
  have skip (cursor index : ℕ) (ranges : List IntraLineRange) (further : cursor ≤ index) :
      withoutRanges content (boundary tokens content.length cursor)
          (gap (boundary tokens content.length) cursor index ++ ranges) =
        withoutRanges content (boundary tokens content.length index) ranges := by
    rw [gap]
    split_ifs with some_
    · rw [List.singleton_append, withoutRanges, Nat.sub_self, List.take_zero, List.nil_append]
    · rw [List.nil_append, Nat.le_antisymm further (not_lt.mp some_)]
  induction matched generalizing cursor with
  | nil =>
    have all := skip cursor tokens.length [] within
    rw [List.append_nil, boundary_length, withoutRanges, List.drop_length] at all
    exact all
  | cons index matched ih =>
    obtain ⟨here, later⟩ := List.forall_mem_cons.mp inside
    obtain ⟨after, ordered⟩ := List.pairwise_cons.mp ordered
    rw [gaps, skip cursor index _ (behind index List.mem_cons_self),
      withoutRanges_eq_append (tiles.boundary_lt_succ here).le, ih later ordered after here,
        List.flatMap_cons,
      List.getElem?_eq_getElem here, Option.map_some, Option.getD_some, tokenBytes, ← boundary_of_lt here,
      tiles.stop_eq here]
    intro range member
    obtain ⟨start, stop, reached, further, bounded, rfl⟩ := mem_gaps later after ordered member
    exact tiles.boundary_le reached (by omega)

/-- Gaps between tokens of a line are ranges on it. -/
theorem rangesOn_of_boundaries {content : Bytes}
    (apart : ranges.Pairwise fun first second => first.stop < second.start)
    (bounds : ∀ range ∈ ranges, ∃ index index', index < index' ∧ index' ≤ (tokenize content).length ∧
      range = ⟨boundary (tokenize content) content.length index,
        boundary (tokenize content) content.length index'⟩) :
    RangesOn content ranges := by
  have tiles := tokenize_tiles content
  refine ⟨fun range member => ?_, fun range member => ?_, apart, fun range member => ?_⟩
  all_goals obtain ⟨index, index', before, inside, rfl⟩ := bounds range member
  · exact tiles.boundary_lt before inside
  · exact (tiles.boundary_le inside le_rfl).trans_eq boundary_length
  · have first : index < (tokenize content).length := by omega
    have last : index' - 1 < (tokenize content).length := by omega
    refine ⟨(tokenize content)[index], List.getElem_mem first, (tokenize content)[index' - 1],
      List.getElem_mem last,
      (boundary_of_lt first).symm, ?_⟩
    rw [tiles.stop_eq last, Nat.sub_add_cancel (Nat.one_le_of_lt before)]

/-- What saturating 16-bit arithmetic makes of one more. -/
def lengthSucc (length : ℕ) : ℕ := min (length + 1) (2 ^ 16 - 1)

/-- How many tokens can be matched from these two on. -/
def lengthsCell (same : ℕ → ℕ → Bool) (lengths : Grid ℕ) (old new : ℕ) : ℕ :=
  if same old new then lengthSucc (lengths.get (old + 1) (new + 1))
  else max (lengths.get (old + 1) new) (lengths.get old (new + 1))

def tokenLengths (same : ℕ → ℕ → Bool) (oldCount newCount : ℕ) : Grid ℕ :=
  (Grid.replicate (oldCount + 1) (newCount + 1) 0).fill (lengthsCell same)
    ((List.range oldCount).reverse.product (List.range newCount).reverse)

/-- Follows the lengths from two tokens on. There is no answer where the fuel runs out. -/
def matchesFrom (same : ℕ → ℕ → Bool) (lengths : Grid ℕ) (oldCount newCount : ℕ) :
    ℕ → ℕ → ℕ → Option (List (ℕ × ℕ))
  | fuel, old, new =>
    if old < oldCount ∧ new < newCount then
      match fuel with
      | 0 => none
      | fuel + 1 =>
        if same old new ∧ lengths.get old new = lengthSucc (lengths.get (old + 1) (new + 1)) then
          (matchesFrom same lengths oldCount newCount fuel (old + 1) (new + 1)).map ((old, new) :: ·)
        else if lengths.get (old + 1) new ≥ lengths.get old (new + 1) then
          matchesFrom same lengths oldCount newCount fuel (old + 1) new
        else matchesFrom same lengths oldCount newCount fuel old (new + 1)
    else some []

def tokensEqual (old : Bytes) (oldToken : Token) (new : Bytes) (newToken : Token) : Bool :=
  tokenBytes old oldToken == tokenBytes new newToken

/-- Whether the tokens at these places are equal. -/
def sameTokens (old : Bytes) (oldTokens : List Token) (new : Bytes) (newTokens : List Token)
    (oldIndex newIndex : ℕ) : Bool :=
  match oldTokens[oldIndex]?, newTokens[newIndex]? with
  | some oldToken, some newToken => tokensEqual old oldToken new newToken
  | _, _ => false

/-- Uses an exact token LCS to turn a paired line into changed byte ranges. -/
def changedTokenRanges (old : Bytes) (oldTokens : List Token) (new : Bytes) (newTokens : List Token) :
    Option (List IntraLineRange × List IntraLineRange) := do
  let same := sameTokens old oldTokens new newTokens
  let lengths := tokenLengths same oldTokens.length newTokens.length
  let matched ← matchesFrom same lengths oldTokens.length newTokens.length
    (oldTokens.length + newTokens.length) 0 0
  return (← unmatchedRanges oldTokens (matched.map Prod.fst), ← unmatchedRanges newTokens
    (matched.map Prod.snd))

variable {same : ℕ → ℕ → Bool} {lengths : Grid ℕ} {oldCount newCount old new : ℕ}

private theorem mem_places {cell : ℕ × ℕ} (rows cols : ℕ) :
    cell ∈ (List.range rows).reverse.product (List.range cols).reverse ↔ cell.1 < rows ∧ cell.2 < cols :=
  List.mem_product.trans (and_congr (List.mem_reverse.trans List.mem_range)
    (List.mem_reverse.trans List.mem_range))

theorem tokenLengths_edge (inOld : old ≤ oldCount) (inNew : new ≤ newCount) (edge : old = oldCount ∨
    new = newCount) :
    (tokenLengths same oldCount newCount).get old new = 0 := by
  rw [tokenLengths, Grid.get_fill_of_notMem Grid.sized_replicate (fun cell member => ?_)
    (Nat.lt_succ_of_le inNew)
    fun member => ?_, Grid.get_replicate (Nat.lt_succ_of_le inOld) (Nat.lt_succ_of_le inNew)]
  · have bounds := (mem_places _ _).mp member
    omega
  · have bounds := (mem_places _ _).mp member
    dsimp only at bounds
    omega

/-- The lengths satisfy the rule. -/
theorem tokenLengths_inner (inOld : old < oldCount) (inNew : new < newCount) :
    (tokenLengths same oldCount newCount).get old new =
      lengthsCell same (tokenLengths same oldCount newCount) old new := by
  refine Grid.get_fill (fun first second => second.1 < first.1 ∨ first.1 = second.1 ∧ second.2 < first.2)
    Grid.sized_replicate (fun cell member => ?_)
    (Grid.pairwise_product (List.pairwise_reverse.mpr List.pairwise_lt_range)
      (List.pairwise_reverse.mpr List.pairwise_lt_range))
    (fun cell => by omega) (fun cell member grid grid' _ _ agree => ?_) (old, new)
    ((mem_places _ _).mpr ⟨inOld, inNew⟩)
  · have bounds := (mem_places _ _).mp member
    omega
  · obtain ⟨lastRow, lastCol⟩ := (mem_places _ _).mp member
    -- The three cells a cell reads are filled before it.
    have earlier (row col : ℕ) (down : cell.1 ≤ row) (on : cell.2 ≤ col) (inside : col ≤ newCount)
        (other : cell.1 < row ∨ cell.2 < col) : grid.get row col = grid'.get row col := by
      refine agree row col (by omega) (fun same => ?_) (by dsimp only; omega)
      rw [← same] at other
      exact other.elim (lt_irrefl _) (lt_irrefl _)
    rw [lengthsCell, lengthsCell, earlier (cell.1 + 1) (cell.2 + 1) (by omega) (by omega)
      (by omega) (by omega),
      earlier (cell.1 + 1) cell.2 (by omega) le_rfl (by omega) (by omega),
      earlier cell.1 (cell.2 + 1) le_rfl (by omega) (by omega) (by omega)]

/-- No more tokens can be matched than are left on either side. -/
theorem tokenLengths_le (inOld : old ≤ oldCount) (inNew : new ≤ newCount) :
    (tokenLengths same oldCount newCount).get old new ≤ min (oldCount - old) (newCount - new) := by
  induction left : (oldCount - old) + (newCount - new) using Nat.strong_induction_on
    generalizing old new with
  | _ count ih =>
    by_cases edge : old = oldCount ∨ new = newCount
    · rw [tokenLengths_edge inOld inNew edge]
      exact Nat.zero_le _
    · rw [tokenLengths_inner (by omega) (by omega), lengthsCell]
      split_ifs
      · have both := @ih _ (by omega) (old + 1) (new + 1) (by omega) (by omega) rfl
        exact (min_le_left _ _).trans (by omega)
      · have down := @ih _ (by omega) (old + 1) new (by omega) (by omega) rfl
        have on := @ih _ (by omega) old (new + 1) (by omega) (by omega) rfl
        omega

/-- A table of lines with few enough tokens never saturates. -/
theorem lengthSucc_tokenLengths (few : min oldCount newCount < 2 ^ 16 - 1) (inOld : old ≤ oldCount)
    (inNew : new ≤ newCount) : lengthSucc ((tokenLengths same oldCount newCount).get old new) =
      (tokenLengths same oldCount newCount).get old new + 1 := by
  have bounded : (tokenLengths same oldCount newCount).get old new ≤ _ := tokenLengths_le inOld inNew
  exact min_eq_left (by omega)

/-- The tokens matched from two tokens on are equal, and in order on both sides. -/
structure Matched (same : ℕ → ℕ → Bool) (oldCount newCount old new : ℕ) (pairs : List (ℕ × ℕ)) : Prop where
  ordered : pairs.Pairwise fun first second => first.1 < second.1 ∧ first.2 < second.2
  behind : ∀ pair ∈ pairs, old ≤ pair.1 ∧ new ≤ pair.2
  within : ∀ pair ∈ pairs, pair.1 < oldCount ∧ pair.2 < newCount
  same : ∀ pair ∈ pairs, same pair.1 pair.2 = true

theorem Matched.mono {old' new' : ℕ} {pairs : List (ℕ × ℕ)}
    (matched : Matched same oldCount newCount old' new' pairs)
    (earlier : old ≤ old') (earlier' : new ≤ new') : Matched same oldCount newCount old new pairs where
  ordered := matched.ordered
  behind pair member := ⟨earlier.trans (matched.behind pair member).1,
    earlier'.trans (matched.behind pair member).2⟩
  within := matched.within
  same := matched.same

theorem Matched.cons {pairs : List (ℕ × ℕ)}
    (matched : Matched same oldCount newCount (old + 1) (new + 1) pairs)
    (inOld : old < oldCount) (inNew : new < newCount) (equal : same old new = true) :
    Matched same oldCount newCount old new ((old, new) :: pairs) where
  ordered := List.pairwise_cons.mpr ⟨matched.behind, matched.ordered⟩
  behind := List.forall_mem_cons.mpr ⟨⟨le_rfl, le_rfl⟩,
    (matched.mono (Nat.le_succ _) (Nat.le_succ _)).behind⟩
  within := List.forall_mem_cons.mpr ⟨⟨inOld, inNew⟩, matched.within⟩
  same := List.forall_mem_cons.mpr ⟨equal, matched.same⟩

theorem matchesFrom_matched (same : ℕ → ℕ → Bool) (lengths : Grid ℕ) {fuel : ℕ}
    (enough : (oldCount - old) + (newCount - new) ≤ fuel) :
    ∃ pairs, matchesFrom same lengths oldCount newCount fuel old new = some pairs ∧
      Matched same oldCount newCount old new pairs := by
  induction fuel generalizing old new with
  | zero =>
    refine ⟨[], ?_, .nil, nofun, nofun, nofun⟩
    rw [matchesFrom, if_neg (by omega)]
  | succ fuel ih =>
    rw [matchesFrom]
    split_ifs with inside equal further
    · obtain ⟨pairs, found, matched⟩ := @ih (old + 1) (new + 1) (by omega)
      exact ⟨(old, new) :: pairs, by rw [found]; rfl, matched.cons inside.1 inside.2 equal.1⟩
    · obtain ⟨pairs, found, matched⟩ := @ih (old + 1) new (by omega)
      exact ⟨pairs, found, matched.mono (Nat.le_succ _) le_rfl⟩
    · obtain ⟨pairs, found, matched⟩ := @ih old (new + 1) (by omega)
      exact ⟨pairs, found, matched.mono le_rfl (Nat.le_succ _)⟩
    · exact ⟨[], rfl, .nil, nofun, nofun, nofun⟩

def fullRange (content : Bytes) : List IntraLineRange :=
  if content.isEmpty then [] else [⟨0, content.length⟩]

/-- Ranges on both lines of a pair whose other bytes are the same. -/
structure ChangedRanges (old new : Bytes) (ranges : List IntraLineRange × List IntraLineRange) : Prop where
  removed : RangesOn old ranges.1
  added : RangesOn new ranges.2
  equalRemainder : withoutRanges old 0 ranges.1 = withoutRanges new 0 ranges.2

theorem rangesOn_gaps {content : Bytes} (inside : ∀ index ∈ matched, index < (tokenize content).length)
    (ordered : matched.Pairwise (· < ·)) :
    RangesOn content (gaps (boundary (tokenize content) content.length) (tokenize content).length
      0 matched) := by
  refine rangesOn_of_boundaries (pairwise_gaps (fun index index' before bounded =>
    (tokenize_tiles content).boundary_lt before bounded) inside ordered fun _ _ => Nat.zero_le _)
      fun range member => ?_
  obtain ⟨index, index', -, before, bounded, same⟩ :=
    mem_gaps inside (fun _ _ => Nat.zero_le _) ordered member
  exact ⟨index, index', before, bounded, same⟩

theorem changedTokenRanges_changed (old new : Bytes) :
    ∃ ranges, changedTokenRanges old (tokenize old) new (tokenize new) = some ranges ∧
      ChangedRanges old new ranges := by
  have enough : ((tokenize old).length - 0) + ((tokenize new).length - 0) ≤
      (tokenize old).length + (tokenize new).length := le_rfl
  obtain ⟨pairs, found, matched⟩ := matchesFrom_matched (sameTokens old (tokenize old) new (tokenize new))
    (tokenLengths (sameTokens old (tokenize old) new (tokenize new)) (tokenize old).length
    (tokenize new).length) enough
  have oldInside : ∀ index ∈ pairs.map Prod.fst, index < (tokenize old).length :=
    List.forall_mem_map.mpr fun pair member => (matched.within pair member).1
  have newInside : ∀ index ∈ pairs.map Prod.snd, index < (tokenize new).length :=
    List.forall_mem_map.mpr fun pair member => (matched.within pair member).2
  have oldOrdered : (pairs.map Prod.fst).Pairwise (· < ·) :=
    List.pairwise_map.mpr (matched.ordered.imp And.left)
  have newOrdered : (pairs.map Prod.snd).Pairwise (· < ·) :=
    List.pairwise_map.mpr (matched.ordered.imp And.right)
  have oldRest := (tokenize_tiles old).withoutRanges_gaps oldInside oldOrdered (fun _ _ => Nat.zero_le _)
    (Nat.zero_le _)
  have newRest := (tokenize_tiles new).withoutRanges_gaps newInside newOrdered (fun _ _ => Nat.zero_le _)
    (Nat.zero_le _)
  rw [(tokenize_tiles _).boundary_zero, List.flatMap_map] at oldRest newRest
  refine ⟨(_, _), ?_, rangesOn_gaps oldInside oldOrdered, rangesOn_gaps newInside newOrdered, ?_⟩
  · rw [changedTokenRanges, found, Option.bind_eq_bind, Option.bind_some,
      (tokenize_tiles old).unmatchedRanges_eq oldInside,
      (tokenize_tiles new).unmatchedRanges_eq newInside]
    rfl
  · rw [oldRest, newRest]
    refine List.flatMap_congr fun pair member => ?_
    have equal := matched.same pair member
    rw [sameTokens] at equal
    split at equal
    · next oldToken newToken oldHere newHere =>
      rw [oldHere, newHere, Option.map_some, Option.map_some, Option.getD_some, Option.getD_some]
      exact beq_iff_eq.mp equal
    · exact absurd equal Bool.false_ne_true

/-- The full range is the gap that is left when no token is matched. -/
theorem fullRange_eq_gaps (content : Bytes) :
    fullRange content = gaps (boundary (tokenize content) content.length)
      (tokenize content).length 0 [] := by
  have tiles := tokenize_tiles content
  rw [fullRange, gaps, gap, tiles.boundary_zero, boundary_length]
  rcases eq_or_ne content [] with rfl | filled
  · have none (some_ : 0 < (tokenize []).length) : False := by
      have further := tiles.boundary_lt some_ le_rfl
      rw [tiles.boundary_zero, boundary_length] at further
      exact Nat.lt_irrefl 0 further
    rw [if_neg none]
    rfl
  · have some_ : 0 < (tokenize content).length := by
      refine Nat.pos_of_ne_zero fun none => ?_
      rw [List.eq_nil_of_length_eq_zero none] at tiles
      exact filled (List.eq_nil_of_length_eq_zero tiles.symm)
    rw [List.isEmpty_eq_false_iff.mpr filled, if_neg Bool.false_ne_true, if_pos some_]

/-- Without the full range nothing is left. -/
theorem fullRange_changed (old new : Bytes) : ChangedRanges old new (fullRange old, fullRange new) := by
  have onLine (content : Bytes) : RangesOn content (fullRange content) := by
    rw [fullRange_eq_gaps]
    exact rangesOn_gaps (List.forall_mem_nil _) .nil
  have nothing (content : Bytes) : withoutRanges content 0 (fullRange content) = [] := by
    have rest := (tokenize_tiles content).withoutRanges_gaps (List.forall_mem_nil _) .nil
      (List.forall_mem_nil _) (Nat.zero_le _)
    rwa [(tokenize_tiles content).boundary_zero, ← fullRange_eq_gaps] at rest
  exact ⟨onLine old, onLine new, (nothing old).trans (nothing new).symm⟩

end Harkness.Git.IntraLine
