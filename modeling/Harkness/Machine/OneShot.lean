import Mathlib.Data.List.Count

/-! # Objects that close once

An operation either is refused, and then changes nothing, or closes an object that was open. So a
run accepts at most one operation, and ends where it began or at the result of that one operation
on the object it began with.
-/

namespace Harkness

/-- Operations that are refused without effect or close an open object. -/
structure OneShot (σ α ε : Type*) where
  apply : σ → α → Except ε Unit × σ
  closed : σ → Prop
  refused : ∀ {s a e}, (apply s a).1 = .error e → (apply s a).2 = s
  opened : ∀ {s a}, (apply s a).1 = .ok () → ¬ closed s
  closes : ∀ {s a}, (apply s a).1 = .ok () → closed (apply s a).2

namespace OneShot

variable {σ α ε : Type*} {m : OneShot σ α ε} {s : σ} {a : α}

/-- The object after the operations, in order, whatever each of them answered. -/
def run (m : OneShot σ α ε) : σ → List α → σ
  | s, [] => s
  | s, a :: as => m.run (m.apply s a).2 as

/-- What each operation of a run answered. -/
def outcomes (m : OneShot σ α ε) : σ → List α → List (Except ε Unit)
  | _, [] => []
  | s, a :: as => (m.apply s a).1 :: m.outcomes (m.apply s a).2 as

def accepted : Except ε Unit → Bool
  | .ok () => true
  | .error _ => false

theorem run_append (m : OneShot σ α ε) (s : σ) (first second : List α) :
    m.run s (first ++ second) = m.run (m.run s first) second := by
  induction first generalizing s with
  | nil => rfl
  | cons a as ih => exact ih _

/-- A closed object refuses every operation, so it is left as it is. -/
theorem apply_of_closed (closed : m.closed s) :
    (∃ error, (m.apply s a).1 = .error error) ∧ (m.apply s a).2 = s := by
  cases answer : (m.apply s a).1 with
  | error e => exact ⟨⟨e, rfl⟩, m.refused answer⟩
  | ok _ => exact absurd closed (m.opened answer)

theorem run_of_closed (closed : m.closed s) (as : List α) : m.run s as = s := by
  induction as with
  | nil => rfl
  | cons a as ih =>
    change m.run (m.apply s a).2 as = s
    rw [(apply_of_closed closed).2]
    exact ih

theorem outcomes_of_closed (closed : m.closed s) (as : List α) :
    (m.outcomes s as).countP accepted = 0 := by
  induction as with
  | nil => rfl
  | cons a as ih =>
    obtain ⟨⟨error, refused⟩, same⟩ := apply_of_closed (a := a) closed
    rw [outcomes, refused, same, List.countP_cons_of_neg Bool.false_ne_true]
    exact ih

/-- Nothing of a run is accepted and it ends where it began, or one operation is, on the object the
run began with, and the run ends closed at its result. -/
theorem run_cases (m : OneShot σ α ε) (s : σ) (as : List α) :
    ((m.outcomes s as).countP accepted = 0 ∧ m.run s as = s) ∨
      ((m.outcomes s as).countP accepted = 1 ∧ m.closed (m.run s as) ∧
        ∃ a ∈ as, (m.apply s a).1 = .ok () ∧ m.run s as = (m.apply s a).2) := by
  induction as with
  | nil => exact .inl ⟨rfl, rfl⟩
  | cons a as ih =>
    rw [outcomes, run]
    cases answer : (m.apply s a).1 with
    | error e =>
      rw [m.refused answer, List.countP_cons_of_neg Bool.false_ne_true]
      rcases ih with none | ⟨one, closed, other, member, success, same⟩
      · exact .inl none
      · exact .inr ⟨one, closed, other, List.mem_cons_of_mem _ member, success, same⟩
    | ok _ =>
      have closed := m.closes answer
      rw [List.countP_cons_of_pos rfl, outcomes_of_closed closed, run_of_closed closed]
      exact .inr ⟨rfl, closed, a, List.mem_cons_self, answer, rfl⟩

/-- What closed the object stays. -/
theorem run_of_closed_prefix {before after : List α} (closed : m.closed (m.run s before)) :
    m.run s (before ++ after) = m.run s before := by
  rw [run_append, run_of_closed closed]

end OneShot

end Harkness
