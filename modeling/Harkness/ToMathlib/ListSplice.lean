import Mathlib

/-! # Splicing entries into a list

A splice replaces a stretch of a source list by other entries. Splices located in the source and
apart from each other are made in one walk, and the entries that then precede the next splice are
those before it in the source, as many more or fewer as the earlier splices added or took away.
-/

namespace List

/-- `removed` entries from `position` on are replaced by `inserted`. -/
structure Splice (α : Type*) where
  position : ℕ
  removed : ℕ
  inserted : List α

namespace Splice

variable {α : Type*}

/-- Where the source goes on after the splice. -/
def stop (splice : Splice α) : ℕ := splice.position + splice.removed

/-- How many more entries there are after the splice than before. -/
def growth (splice : Splice α) : ℤ := (splice.inserted.length : ℤ) - splice.removed

/-- The rest of the source from `done` on, with the splices made. -/
def applyFrom (source : List α) (done : ℕ) : List (Splice α) → List α
  | [] => source.drop done
  | splice :: rest =>
    (source.drop done).take (splice.position - done) ++ splice.inserted ++
      applyFrom source splice.stop rest

/-- The source with the splices made. -/
def apply (source : List α) (splices : List (Splice α)) : List α := applyFrom source 0 splices

/-- Begun one entry earlier, before every splice, the walk keeps that entry. -/
theorem applyFrom_pred (source : List α) {done : ℕ} {splices : List (Splice α)}
    (positive : 0 < done) (inside : done ≤ source.length)
    (behind : ∀ splice ∈ splices.head?, done ≤ splice.position) :
    applyFrom source (done - 1) splices = source[done - 1] :: applyFrom source done splices := by
  have kept : source.drop (done - 1) = source[done - 1] :: source.drop done := by
    rw [drop_eq_getElem_cons (by omega), Nat.sub_add_cancel positive]
  cases splices with
  | nil => exact kept
  | cons splice rest =>
    have after := behind splice (by rw [head?_cons, Option.mem_some])
    have one : splice.position - (done - 1) = splice.position - done + 1 := by omega
    rw [applyFrom, applyFrom, kept, one, take_succ_cons, cons_append, cons_append]

/-- The entries that precede `position` once the splices before it are made. -/
def leading (source : List α) (position : ℕ) (splices : List (Splice α)) : List α :=
  apply (source.take position) splices

private theorem applyFrom_append (source : List α) {done position : ℕ}
    {earlier : List (Splice α)} (later : List (Splice α)) (begun : done ≤ position)
    (inside : ∀ splice ∈ earlier, splice.stop ≤ position) :
    applyFrom source done earlier =
        applyFrom (source.take position) done earlier ++ source.drop position ∧
      ∀ next : Splice α, next.position = position →
        applyFrom source done (earlier ++ next :: later) =
          applyFrom (source.take position) done earlier ++ next.inserted ++
            applyFrom source next.stop later := by
  induction earlier generalizing done with
  | nil =>
    have parts : source.drop done =
        (source.take position).drop done ++ source.drop position := by
      rw [drop_take]
      have rest : source.drop position = (source.drop done).drop (position - done) := by
        rw [drop_drop, Nat.add_sub_cancel' begun]
      rw [rest, take_append_drop]
    refine ⟨parts, ?_⟩
    rintro next rfl
    rw [nil_append, applyFrom, applyFrom, drop_take]
  | cons splice earlier ih =>
    have fits := inside splice mem_cons_self
    have within : splice.position ≤ position := Nat.le_trans (Nat.le_add_right ..) fits
    have kept : ((source.take position).drop done).take (splice.position - done) =
        (source.drop done).take (splice.position - done) := by
      rw [drop_take, take_take, Nat.min_eq_left (by omega)]
    obtain ⟨whole, step⟩ := ih fits fun other member => inside other (mem_cons_of_mem _ member)
    refine ⟨?_, ?_⟩
    · rw [applyFrom, applyFrom, kept, whole]
      simp only [append_assoc]
    · intro next here
      rw [cons_append, applyFrom, applyFrom, kept, step next here]
      simp only [append_assoc]

/-- Made before `position`, the splices leave the source from there on as it is. -/
theorem apply_eq_leading (source : List α) {position : ℕ} {earlier : List (Splice α)}
    (inside : ∀ splice ∈ earlier, splice.stop ≤ position) :
    apply source earlier = leading source position earlier ++ source.drop position :=
  (applyFrom_append source [] (Nat.zero_le _) inside).1

/-- The next splice inserts right behind the entries that precede it. -/
theorem apply_append_eq_leading (source : List α) {earlier : List (Splice α)} (next : Splice α)
    (inside : ∀ splice ∈ earlier, splice.stop ≤ next.position) :
    apply source (earlier ++ [next]) =
      leading source next.position earlier ++ next.inserted ++ source.drop next.stop :=
  (applyFrom_append source [] (Nat.zero_le _) inside).2 next rfl

private theorem length_applyFrom (source : List α) {done : ℕ} {splices : List (Splice α)}
    (begun : done ≤ source.length) (after : ∀ splice ∈ splices, done ≤ splice.position)
    (inside : ∀ splice ∈ splices, splice.stop ≤ source.length)
    (apart : splices.Pairwise fun first second => first.stop ≤ second.position) :
    ((applyFrom source done splices).length : ℤ) =
      source.length - done + (splices.map growth).sum := by
  induction splices generalizing done with
  | nil =>
    rw [applyFrom, length_drop, map_nil, sum_nil]
    omega
  | cons splice splices ih =>
    have fits := inside splice mem_cons_self
    have follows := after splice mem_cons_self
    have rest := ih fits (fun other member => rel_of_pairwise_cons apart member)
      (fun other member => inside other (mem_cons_of_mem _ member)) apart.of_cons
    rw [applyFrom, length_append, length_append, length_take, length_drop, map_cons, sum_cons,
      growth]
    simp only [stop] at fits rest
    push_cast
    rw [show splice.stop = splice.position + splice.removed from rfl, rest]
    omega

/-- The entries that precede `position` are those of the source, and what the splices added. -/
theorem length_leading (source : List α) {position : ℕ} {splices : List (Splice α)}
    (bound : position ≤ source.length) (inside : ∀ splice ∈ splices, splice.stop ≤ position)
    (apart : splices.Pairwise fun first second => first.stop ≤ second.position) :
    ((leading source position splices).length : ℤ) = position + (splices.map growth).sum := by
  have size : (source.take position).length = position := length_take_of_le bound
  have total := length_applyFrom (source.take position) (Nat.zero_le _)
    (fun splice _ => Nat.zero_le splice.position) (by rwa [size]) apart
  rw [leading, apply, total, size]
  omega

private theorem applyFrom_ne_nil (source : List α) {done : ℕ} (splices : List (Splice α))
    (begun : done < source.length) (inside : ∀ splice ∈ splices, splice.stop < source.length) :
    applyFrom source done splices ≠ [] := by
  induction splices generalizing done with
  | nil =>
    rw [applyFrom, ne_eq, drop_eq_nil_iff]
    omega
  | cons splice splices ih =>
    intro empty
    rw [applyFrom, append_eq_nil_iff] at empty
    exact ih (inside splice mem_cons_self)
      (fun other member => inside other (mem_cons_of_mem _ member)) empty.2

/-- Splices that all end before the entry at `position - 1` leave it in place. -/
theorem leading_ne_nil (source : List α) {position : ℕ} {splices : List (Splice α)}
    (positive : 0 < position) (bound : position ≤ source.length)
    (inside : ∀ splice ∈ splices, splice.stop < position) :
    leading source position splices ≠ [] := by
  have size : (source.take position).length = position := length_take_of_le bound
  exact applyFrom_ne_nil _ splices (by rwa [size]) (by rwa [size])

end Splice

end List
