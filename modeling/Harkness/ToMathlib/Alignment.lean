import Mathlib

/-! # Order-preserving alignments

An alignment of two sequences pairs some items of one with as many of the other, in order on both
sides. A table of best totals says of each pair of beginnings what the alignments of them are worth
at most; a table of directions that say where the best total of a cell comes from leads back along
an alignment with that total.
-/

namespace Alignment

/-- Pairs of eligible places of two sequences of these lengths, in order on both sides. -/
structure Aligns (eligible : ℕ → ℕ → Prop) (rows cols : ℕ) (pairs : List (ℕ × ℕ)) : Prop where
  ordered : pairs.Pairwise fun first second => first.1 < second.1 ∧ first.2 < second.2
  within : ∀ pair ∈ pairs, pair.1 < rows ∧ pair.2 < cols
  eligible : ∀ pair ∈ pairs, eligible pair.1 pair.2

/-- What an alignment is worth. -/
def total (weight : ℕ → ℕ → ℕ) (pairs : List (ℕ × ℕ)) : ℕ :=
  (pairs.map fun pair => weight pair.1 pair.2).sum

variable {eligible : ℕ → ℕ → Prop} {weight : ℕ → ℕ → ℕ} {rows cols : ℕ}
  {pairs : List (ℕ × ℕ)} {pair : ℕ × ℕ}

theorem aligns_nil : Aligns eligible rows cols [] := ⟨.nil, nofun, nofun⟩

@[simp]
theorem total_nil : total weight [] = 0 := by rw [total, List.map_nil, List.sum_nil]

theorem total_cons : total weight (pair :: pairs) = weight pair.1 pair.2 + total weight pairs := by
  rw [total, List.map_cons, List.sum_cons, total]

theorem total_concat : total weight (pairs ++ [pair]) = total weight pairs + weight pair.1 pair.2 := by
  rw [total, List.map_append, List.sum_append, List.map_singleton, List.sum_singleton, total]

theorem Aligns.mono {rows' cols' : ℕ} (aligns : Aligns eligible rows cols pairs) (moreRows : rows ≤ rows')
    (moreCols : cols ≤ cols') : Aligns eligible rows' cols' pairs where
  ordered := aligns.ordered
  within pair member := ⟨(aligns.within pair member).1.trans_le moreRows,
    (aligns.within pair member).2.trans_le moreCols⟩
  eligible := aligns.eligible

theorem Aligns.concat (aligns : Aligns eligible rows cols pairs) (allowed : eligible rows cols) :
    Aligns eligible (rows + 1) (cols + 1) (pairs ++ [(rows, cols)]) where
  ordered := List.pairwise_append.mpr ⟨aligns.ordered, List.pairwise_singleton _ _,
    fun pair member last same => by
    rw [List.mem_singleton.mp same]
    exact aligns.within pair member⟩
  within := List.forall_mem_append.mpr ⟨fun pair member =>
    ⟨(aligns.within pair member).1.trans (Nat.lt_succ_self _), (aligns.within pair member).2.trans
      (Nat.lt_succ_self _)⟩,
    List.forall_mem_singleton.mpr ⟨Nat.lt_succ_self _, Nat.lt_succ_self _⟩⟩
  eligible := List.forall_mem_append.mpr ⟨aligns.eligible, List.forall_mem_singleton.mpr allowed⟩

/-- An alignment does without the last row, or without the last column, or ends with a pair of both. -/
theorem Aligns.cases_last (aligns : Aligns eligible (rows + 1) (cols + 1) pairs) :
    Aligns eligible rows (cols + 1) pairs ∨ Aligns eligible (rows + 1) cols pairs ∨
      ∃ earlier, pairs = earlier ++ [(rows, cols)] ∧ Aligns eligible rows cols earlier ∧
        eligible rows cols := by
  rcases List.eq_nil_or_concat pairs with rfl | ⟨earlier, last, rfl⟩
  · exact .inl aligns_nil
  rw [List.concat_eq_append] at aligns ⊢
  obtain ⟨ordered, -, behind⟩ := List.pairwise_append.mp aligns.ordered
  have before (pair : ℕ × ℕ) (member : pair ∈ earlier) : pair.1 < last.1 ∧ pair.2 < last.2 :=
    behind pair member last (List.mem_singleton_self _)
  have inside := aligns.within last (List.mem_append_right _ (List.mem_singleton_self _))
  rcases (Nat.le_of_lt_succ inside.1).lt_or_eq with fewer | sameRow
  · refine .inl ⟨aligns.ordered, fun pair member => ⟨?_, (aligns.within pair member).2⟩, aligns.eligible⟩
    rcases List.mem_append.mp member with early | late
    · exact (before pair early).1.trans fewer
    · rwa [List.mem_singleton.mp late]
  rcases (Nat.le_of_lt_succ inside.2).lt_or_eq with fewer | sameCol
  · refine .inr (.inl ⟨aligns.ordered, fun pair member => ⟨(aligns.within pair member).1, ?_⟩,
      aligns.eligible⟩)
    rcases List.mem_append.mp member with early | late
    · exact (before pair early).2.trans fewer
    · rwa [List.mem_singleton.mp late]
  · obtain rfl : last = (rows, cols) := Prod.ext sameRow sameCol
    refine .inr (.inr ⟨earlier, rfl, ⟨ordered, before, fun pair member => ?_⟩, ?_⟩)
    · exact aligns.eligible pair (List.mem_append_left _ member)
    · exact aligns.eligible (rows, cols) (List.mem_append_right _ (List.mem_singleton_self _))

/-- An alignment has at most as many pairs as either sequence has items. -/
theorem Aligns.length_le (aligns : Aligns eligible rows cols pairs) : pairs.length ≤ min rows cols := by
  have bounded (side : ℕ × ℕ → ℕ) (count : ℕ)
      (ordered : pairs.Pairwise fun first second => side first < side second)
      (within : ∀ pair ∈ pairs, side pair < count) : pairs.length ≤ count := by
    have nodup : (pairs.map side).Nodup := List.pairwise_map.mpr (ordered.imp ne_of_lt)
    have subset : pairs.map side ⊆ List.range count := fun place member => by
      obtain ⟨pair, inside, rfl⟩ := List.mem_map.mp member
      exact List.mem_range.mpr (within pair inside)
    have few := (List.Nodup.subperm nodup subset).length_le
    rwa [List.length_map, List.length_range] at few
  refine le_min (bounded Prod.fst rows ?_ fun pair member => (aligns.within pair member).1)
    (bounded Prod.snd cols ?_ fun pair member => (aligns.within pair member).2)
  · exact aligns.ordered.imp And.left
  · exact aligns.ordered.imp And.right

section Places

variable {α β : Type*} {items chosen : List α} {places : List ℕ}

/-- What is related to an item of a list stands in the other. -/
theorem exists_of_mem_right {R : α → β → Prop} {others : List β}
    (related : items.Forall₂ R others) {other : β}
    (member : other ∈ others) : ∃ item ∈ items, R item other := by
  induction related with
  | nil => exact absurd member List.not_mem_nil
  | cons here _ ih =>
    rcases List.mem_cons.mp member with rfl | later
    · exact ⟨_, List.mem_cons_self, here⟩
    · obtain ⟨item, inside, there⟩ := ih later
      exact ⟨item, List.mem_cons_of_mem _ inside, there⟩

theorem exists_forall₂ {R : α → β → Prop} (each : ∀ item ∈ items, ∃ other, R item other) :
    ∃ others, items.Forall₂ R others := by
  induction items with
  | nil => exact ⟨[], .nil⟩
  | cons item items ih =>
    obtain ⟨⟨other, here⟩, later⟩ := List.forall_mem_cons.mp each
    obtain ⟨others, rest⟩ := ih later
    exact ⟨other :: others, .cons here rest⟩

/-- What stands at increasing places is a sublist. -/
theorem sublist_of_places (read : places.Forall₂ (fun place item => items[place]? = some item) chosen)
    (increasing : places.Pairwise (· < ·)) : chosen.Sublist items := by
  suffices behind : ∀ start, (∀ place ∈ places, start ≤ place) → chosen.Sublist (items.drop start) from
    behind 0 fun _ _ => Nat.zero_le _
  induction read with
  | nil => exact fun _ _ => List.nil_sublist _
  | @cons place item places chosen here _ ih =>
    intro start later
    obtain ⟨before, increasing⟩ := List.pairwise_cons.mp increasing
    obtain ⟨inside, rfl⟩ := List.getElem?_eq_some_iff.mp here
    refine List.Sublist.trans ?_ (List.drop_sublist_drop_left items (later place List.mem_cons_self))
    rw [List.drop_eq_getElem_cons inside]
    exact (ih increasing (place + 1) before).cons_cons _

/-- The items of a sublist stand at increasing places. -/
theorem exists_places (sub : chosen.Sublist items) :
    ∃ places : List ℕ, places.Pairwise (· < ·) ∧
      places.Forall₂ (fun place item => items[place]? = some item) chosen := by
  obtain ⟨places, rfl, increasing⟩ := List.sublist_eq_map_getElem sub
  refine ⟨places.map Fin.val, List.pairwise_map.mpr increasing, ?_⟩
  rw [List.forall₂_map_left_iff, List.forall₂_map_right_iff]
  exact List.forall₂_same.mpr fun place _ => List.getElem?_eq_getElem place.isLt

/-- Two sublists of one length stand at increasing pairs of places. -/
theorem exists_pair_places {others : List β} {chosen : List (α × β)}
    (sub : (chosen.map Prod.fst).Sublist items)
    (sub' : (chosen.map Prod.snd).Sublist others) :
    ∃ places : List (ℕ × ℕ), places.Pairwise (fun first second => first.1 < second.1 ∧ first.2 < second.2) ∧
      places.Forall₂ (fun place pair => items[place.1]? = some pair.1 ∧
        others[place.2]? = some pair.2) chosen := by
  obtain ⟨rows, ordered, read⟩ := exists_places sub
  obtain ⟨cols, ordered', read'⟩ := exists_places sub'
  refine ⟨rows.zip cols, ?_, ?_⟩
  · rw [List.pairwise_iff_getElem] at ordered ordered' ⊢
    intro first second inside inside' before
    rw [List.length_zip] at inside inside'
    rw [List.getElem_zip, List.getElem_zip]
    exact ⟨ordered first second (by omega) (by omega) before, ordered' first second (by omega)
      (by omega) before⟩
  · clear ordered ordered' sub sub'
    induction chosen generalizing rows cols with
    | nil =>
      obtain rfl := List.forall₂_nil_right_iff.mp read
      exact .nil
    | cons pair chosen ih =>
      obtain ⟨row, rows, here, rest, rfl⟩ := List.forall₂_cons_right_iff.mp read
      obtain ⟨col, cols, here', rest', rfl⟩ := List.forall₂_cons_right_iff.mp read'
      exact .cons ⟨here, here'⟩ (ih rows rest cols rest')

end Places

/-- Where the best total of a cell comes from. -/
inductive CellDirection where
  | unset
  | above
  | left
  | paired
deriving DecidableEq, Repr, Inhabited

/-- The totals of the cells behind the first row and column, each with the direction it comes from. -/
structure Solves (eligible : ℕ → ℕ → Prop) (weight : ℕ → ℕ → ℕ) (rows cols : ℕ) (score : ℕ → ℕ → ℕ)
    (direction : ℕ → ℕ → CellDirection) : Prop where
  first_row : ∀ col ≤ cols, score 0 col = 0
  first_col : ∀ row ≤ rows, score row 0 = 0
  above : ∀ row < rows, ∀ col < cols, score row (col + 1) ≤ score (row + 1) (col + 1)
  left : ∀ row < rows, ∀ col < cols, score (row + 1) col ≤ score (row + 1) (col + 1)
  paired : ∀ row < rows, ∀ col < cols, eligible row col →
    score row col + weight row col ≤ score (row + 1) (col + 1)
  from_ : ∀ row < rows, ∀ col < cols,
    direction (row + 1) (col + 1) = .above ∧ score (row + 1) (col + 1) = score row (col + 1) ∨
    direction (row + 1) (col + 1) = .left ∧ score (row + 1) (col + 1) = score (row + 1) col ∨
    direction (row + 1) (col + 1) = .paired ∧ eligible row col ∧
      score (row + 1) (col + 1) = score row col + weight row col

/-- Follows the directions from a cell back to the first row or column. There is no answer where a
cell has no direction, or where the fuel runs out. -/
def backtrack (direction : ℕ → ℕ → CellDirection) : ℕ → ℕ → ℕ → Option (List (ℕ × ℕ))
  | _, 0, _ => some []
  | _, _ + 1, 0 => some []
  | 0, _ + 1, _ + 1 => none
  | fuel + 1, row + 1, col + 1 =>
    match direction (row + 1) (col + 1) with
    | .paired => (backtrack direction fuel row col).map (· ++ [(row, col)])
    | .above => backtrack direction fuel row (col + 1)
    | .left => backtrack direction fuel (row + 1) col
    | .unset => none

variable {score : ℕ → ℕ → ℕ} {direction : ℕ → ℕ → CellDirection}

/-- No alignment is worth more than the table says. -/
theorem Solves.total_le (solves : Solves eligible weight rows cols score direction) {row col : ℕ}
    (inRow : row ≤ rows) (inCol : col ≤ cols) (aligns : Aligns eligible row col pairs) :
    total weight pairs ≤ score row col := by
  induction row generalizing col pairs with
  | zero =>
    cases pairs with
    | nil => exact Nat.zero_le _
    | cons pair rest => exact absurd (aligns.within pair List.mem_cons_self).1 (Nat.not_lt_zero _)
  | succ row ihRow =>
    induction col generalizing pairs with
    | zero =>
      cases pairs with
      | nil => exact Nat.zero_le _
      | cons pair rest => exact absurd (aligns.within pair List.mem_cons_self).2 (Nat.not_lt_zero _)
    | succ col ihCol =>
      rcases aligns.cases_last with fewer | fewer | ⟨earlier, rfl, before, allowed⟩
      · exact (ihRow (by omega) inCol fewer).trans (solves.above row inRow col inCol)
      · exact (ihCol (by omega) fewer).trans (solves.left row inRow col inCol)
      · rw [total_concat]
        have first := ihRow (by omega) (by omega) before
        have last := solves.paired row inRow col inCol allowed
        exact (Nat.add_le_add_right first _).trans last

/-- Following the directions finds an alignment that is worth what the table says. -/
theorem Solves.backtrack_eq (solves : Solves eligible weight rows cols score direction) {fuel row col : ℕ}
    (inRow : row ≤ rows) (inCol : col ≤ cols) (enough : row + col ≤ fuel) :
    ∃ pairs, backtrack direction fuel row col = some pairs ∧ Aligns eligible row col pairs ∧
      total weight pairs = score row col := by
  induction fuel generalizing row col with
  | zero =>
    obtain rfl : row = 0 := by omega
    exact ⟨[], by rw [backtrack], aligns_nil, (solves.first_row col inCol).symm⟩
  | succ fuel ih =>
    cases row with
    | zero => exact ⟨[], by rw [backtrack], aligns_nil, (solves.first_row col inCol).symm⟩
    | succ row =>
      cases col with
      | zero => exact ⟨[], by rw [backtrack], aligns_nil, (solves.first_col (row + 1) inRow).symm⟩
      | succ col =>
        rw [backtrack]
        rcases solves.from_ row inRow col inCol with ⟨way, same⟩ | ⟨way, same⟩ | ⟨way, allowed, same⟩
        · obtain ⟨pairs, found, aligns, worth⟩ := @ih row (col + 1) (by omega) inCol (by omega)
          rw [way, same]
          exact ⟨pairs, found, aligns.mono (Nat.le_succ _) le_rfl, worth⟩
        · obtain ⟨pairs, found, aligns, worth⟩ := @ih (row + 1) col inRow (by omega) (by omega)
          rw [way, same]
          exact ⟨pairs, found, aligns.mono le_rfl (Nat.le_succ _), worth⟩
        · obtain ⟨pairs, found, aligns, worth⟩ := @ih row col (by omega) (by omega) (by omega)
          rw [way, same]
          refine ⟨pairs ++ [(row, col)], by rw [found]; rfl, aligns.concat allowed, ?_⟩
          rw [total_concat, worth]

/-- A total that counts each pair once besides its scaled weight has the number of pairs as its last
digit. -/
theorem total_scaled {scale : ℕ} : total (fun row col => weight row col * scale + 1) pairs =
    total weight pairs * scale + pairs.length := by
  induction pairs with
  | nil => rw [total_nil, total_nil, Nat.zero_mul, List.length_nil]
  | cons pair pairs ih =>
    rw [total_cons, total_cons, ih, List.length_cons, Nat.add_mul]
    omega

/-- The alignment with the greatest such total is greatest in weight first and then in the number of
pairs, if it has fewer pairs than the scale. -/
theorem lex_of_total_le {scale : ℕ} {other : List (ℕ × ℕ)} (few : pairs.length < scale)
    (best : total (fun row col => weight row col * scale + 1) other ≤
      total (fun row col => weight row col * scale + 1) pairs) :
    total weight other < total weight pairs ∨
      total weight other = total weight pairs ∧ other.length ≤ pairs.length := by
  rw [total_scaled, total_scaled] at best
  rcases Nat.lt_trichotomy (total weight other) (total weight pairs) with less | same | more
  · exact .inl less
  · rw [same] at best
    exact .inr ⟨same, Nat.le_of_add_le_add_left best⟩
  · have step : (total weight pairs + 1) * scale ≤ total weight other * scale :=
      Nat.mul_le_mul_right scale more
    rw [Nat.add_mul, Nat.one_mul] at step
    omega

end Alignment
