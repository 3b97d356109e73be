import Mathlib.Data.Option.Basic
import Mathlib.Data.List.Basic

/-! # Machines with partial moves, their paths and invariants

A machine moves by actions; an action that is not enabled has no successor. `Path m s as t` is a
finite run carrying exactly the actions `as`, `run?` computes it, and `Reachable` is the end of a
run from an initial state. A property that holds initially and is kept by every move holds of every
reachable state, and one kept by every move from a reachable state is kept along every run.
-/

namespace Harkness

/-- The initial states and the partial moves of a system. -/
structure Machine (σ α : Type*) where
  Initial : σ → Prop
  step : σ → α → Option σ

namespace Machine

variable {σ α : Type*} {m : Machine σ α} {s mid t : σ} {first second : List α}

/-- A finite run carrying exactly its actions. -/
inductive Path (m : Machine σ α) : σ → List α → σ → Prop
  | nil (s : σ) : Path m s [] s
  | cons {s mid t : σ} {a : α} {as : List α} :
      m.step s a = some mid → Path m mid as t → Path m s (a :: as) t

/-- The state at the end of a run, when every action of it is enabled in turn. -/
def run? (m : Machine σ α) : σ → List α → Option σ
  | s, [] => some s
  | s, a :: as => (m.step s a).bind fun next => m.run? next as

theorem run?_eq_some_iff {as : List α} : m.run? s as = some t ↔ m.Path s as t := by
  constructor
  · intro success
    induction as generalizing s with
    | nil => cases success; exact .nil _
    | cons a as ih =>
      obtain ⟨mid, step, rest⟩ := Option.bind_eq_some_iff.mp success
      exact .cons step (ih rest)
  · intro path
    induction path with
    | nil => rfl
    | cons step _ ih => simp only [run?, step, Option.bind_some, ih]

/-- Runs compose at their shared state. -/
theorem Path.append (left : m.Path s first mid) (right : m.Path mid second t) :
    m.Path s (first ++ second) t := by
  induction left with
  | nil => exact right
  | cons step _ ih => exact .cons step (ih right)

/-- Its actions determine where a run ends. -/
theorem Path.unique {as : List α} (one : m.Path s as t) (other : m.Path s as mid) : t = mid :=
  Option.some.inj ((run?_eq_some_iff.mpr one).symm.trans (run?_eq_some_iff.mpr other))

/-- A run passes a state between any two parts of it. -/
theorem Path.split (path : m.Path s (first ++ second) t) :
    ∃ mid, m.Path s first mid ∧ m.Path mid second t := by
  induction first generalizing s with
  | nil => exact ⟨s, .nil s, path⟩
  | cons a first ih =>
    cases path with
    | cons step rest =>
      obtain ⟨mid, leading, trailing⟩ := ih rest
      exact ⟨mid, .cons step leading, trailing⟩

/-- What every move keeps, a run keeps. -/
theorem Path.preserves {as : List α} {P : σ → Prop}
    (kept : ∀ ⦃s a t⦄, P s → m.step s a = some t → P t) (path : m.Path s as t) : P s → P t := by
  induction path with
  | nil => exact id
  | cons step _ ih => exact fun start => ih (kept start step)

/-- A condition on every move of a run, in the state it is made in. -/
def Each (m : Machine σ α) (R : σ → α → Prop) (s : σ) (as : List α) : Prop :=
  ∀ first a rest mid, as = first ++ a :: rest → m.Path s first mid → R mid a

/-- The rest of a run meets what the whole run meets. -/
theorem Each.rest {R : σ → α → Prop} (each : m.Each R s (first ++ second))
    (leading : m.Path s first mid) : m.Each R mid second := by
  intro before a after here same path
  refine each (first ++ before) a after here ?_ (leading.append path)
  rw [same, List.append_assoc]

theorem Each.imp {R S : σ → α → Prop} {as : List α} (weaker : ∀ s a, R s a → S s a)
    (each : m.Each R s as) : m.Each S s as :=
  fun first a rest mid here leading => weaker mid a (each first a rest mid here leading)

/-- The beginning of a run meets what the whole run meets. -/
theorem Each.begin_ {R : σ → α → Prop} (each : m.Each R s (first ++ second)) : m.Each R s first := by
  intro before a after here same path
  refine each before a (after ++ second) here ?_ path
  rw [same, List.append_assoc, List.cons_append]

theorem Each.head {R : σ → α → Prop} {a : α} {as : List α} (each : m.Each R s (a :: as)) : R s a :=
  each [] a as s rfl (.nil s)

theorem Each.tail {R : σ → α → Prop} {a : α} {as : List α} (each : m.Each R s (a :: as))
    (step : m.step s a = some mid) : m.Each R mid as :=
  have whole : m.Each R s ([a] ++ as) := each
  whole.rest (.cons step (.nil mid))

theorem each_nil {R : σ → α → Prop} : m.Each R s [] :=
  fun _ _ _ _ here => absurd here (by simp)

/-- A run is checked move by move. -/
theorem each_cons {R : σ → α → Prop} {a : α} {as : List α} (head : R s a)
    (tail : ∀ mid, m.step s a = some mid → m.Each R mid as) : m.Each R s (a :: as) := by
  intro first b rest mid here leading
  cases leading with
  | nil =>
    obtain ⟨rfl, -⟩ := List.cons.inj here
    exact head
  | cons step leading =>
    obtain ⟨rfl, rfl⟩ := List.cons.inj here
    exact tail _ step _ b rest mid rfl leading

theorem Each.and {R S : σ → α → Prop} {as : List α} (left : m.Each R s as) (right : m.Each S s as) :
    m.Each (fun s a => R s a ∧ S s a) s as :=
  fun first a rest mid here leading =>
    ⟨left first a rest mid here leading, right first a rest mid here leading⟩

/-- Whether every move of a run passes a check in the state it is made in. -/
def checks (m : Machine σ α) (check : σ → α → Bool) : σ → List α → Bool
  | _, [] => true
  | s, a :: as => check s a && (m.step s a).all fun next => m.checks check next as

theorem each_of_checks {check : σ → α → Bool} {as : List α} (passed : m.checks check s as = true) :
    m.Each (fun s a => check s a = true) s as := by
  intro first a rest mid here leading
  induction leading generalizing as with
  | nil =>
    subst here
    rw [List.nil_append, checks, Bool.and_eq_true] at passed
    exact passed.1
  | cons step _ ih =>
    subst here
    rw [List.cons_append, checks, Bool.and_eq_true, step] at passed
    exact ih passed.2 rfl

/-- What every move that meets a condition keeps, a run of such moves keeps. -/
theorem Path.preserves_of {as : List α} {P : σ → Prop} {R : σ → α → Prop}
    (kept : ∀ ⦃s a t⦄, P s → R s a → m.step s a = some t → P t) (path : m.Path s as t)
    (each : m.Each R s as) : P s → P t := by
  induction path with
  | nil => exact id
  | @cons s mid t a as step _ ih =>
    intro start
    exact ih (each.tail step) (kept start each.head step)

/-- A run that comes to have a property takes a move to it. -/
theorem Path.exists_turn {as : List α} {P : σ → Prop} (path : m.Path s as t) (without : ¬P s)
    (with_ : P t) : ∃ first a second before after, as = first ++ a :: second ∧
      m.Path s first before ∧ ¬P before ∧ m.step before a = some after ∧ P after ∧
      m.Path after second t := by
  induction path with
  | nil => exact absurd with_ without
  | @cons s mid t a as step rest ih =>
    by_cases here : P mid
    · exact ⟨[], a, as, s, mid, rfl, .nil s, without, step, here, rest⟩
    · obtain ⟨first, b, second, before, after, same, leading, missing, turn, holds, trailing⟩ :=
        ih here with_
      exact ⟨a :: first, b, second, before, after, by rw [same]; rfl, .cons step leading, missing,
        turn, holds, trailing⟩

/-- How many moves of one kind a run has, when each of them takes from a measure that only moves of another
kind add to, so much each time. -/
theorem Path.countP_le_of {as : List α} {I : σ → Prop} {R : σ → α → Prop} (kind more : α → Bool) (cost : ℕ)
    (measure : σ → ℕ) (kept : ∀ ⦃s a t⦄, I s → R s a → m.step s a = some t → I t)
    (falls : ∀ ⦃s a t⦄, I s → R s a → m.step s a = some t →
      measure t + (if kind a then 1 else 0) ≤ measure s + if more a then cost else 0)
    (path : m.Path s as t) (each : m.Each R s as) (start : I s) :
    as.countP kind + measure t ≤ measure s + cost * as.countP more := by
  induction path with
  | nil => simp
  | @cons s mid t a as step _ ih =>
    have later := ih (each.tail step) (kept start each.head step)
    have here := falls start each.head step
    rw [List.countP_cons, List.countP_cons, Nat.mul_add]
    split at here <;> split at here <;> simp_all <;> omega

/-- How many moves of one kind a run has, when each of them takes from a measure that no other move
adds to. -/
theorem Path.countP_le {as : List α} {I : σ → Prop} (kind : α → Bool) (measure : σ → ℕ)
    (kept : ∀ ⦃s a t⦄, I s → m.step s a = some t → I t)
    (falls : ∀ ⦃s a t⦄, I s → m.step s a = some t →
      measure t + (if kind a then 1 else 0) ≤ measure s)
    (path : m.Path s as t) (start : I s) : as.countP kind + measure t ≤ measure s := by
  have counted := path.countP_le_of (R := fun _ _ => True) kind (fun _ => false) 0 measure
    (fun _ _ _ here _ => kept here) (fun _ _ _ here _ => falls here) (fun _ _ _ _ _ _ => trivial) start
  rwa [Nat.zero_mul] at counted

/-- The end of some run from an initial state. -/
def Reachable (m : Machine σ α) (t : σ) : Prop := ∃ s as, m.Initial s ∧ m.Path s as t

theorem Reachable.initial (start : m.Initial s) : m.Reachable s := ⟨s, [], start, .nil s⟩

theorem Reachable.path {as : List α} (reachable : m.Reachable s) (path : m.Path s as t) :
    m.Reachable t := by
  obtain ⟨origin, before, start, leading⟩ := reachable
  exact ⟨origin, before ++ as, start, leading.append path⟩

theorem Reachable.step {a : α} (reachable : m.Reachable s) (step : m.step s a = some t) :
    m.Reachable t :=
  reachable.path (.cons step (.nil t))

theorem Reachable.of_run? {as : List α} (start : m.Initial s) (success : m.run? s as = some t) :
    m.Reachable t :=
  ⟨s, as, start, run?_eq_some_iff.mp success⟩

/-- The invariant rule. -/
theorem Reachable.invariant {P : σ → Prop} (start : ∀ s, m.Initial s → P s)
    (kept : ∀ ⦃s a t⦄, P s → m.step s a = some t → P t) (reachable : m.Reachable t) : P t := by
  obtain ⟨s, as, initial, path⟩ := reachable
  exact path.preserves kept (start s initial)

/-- The invariant rule for a property whose preservation rests on one already established. -/
theorem Reachable.invariant_of {P Q : σ → Prop} (known : ∀ s, m.Reachable s → Q s)
    (start : ∀ s, m.Initial s → P s)
    (kept : ∀ ⦃s a t⦄, Q s → P s → m.step s a = some t → P t) (reachable : m.Reachable t) : P t := by
  have both : m.Reachable t ∧ P t := by
    refine reachable.invariant (P := fun s => m.Reachable s ∧ P s)
      (fun s initial => ⟨.initial initial, start s initial⟩) ?_
    rintro s a t ⟨here, holds⟩ step
    exact ⟨here.step step, kept (known s here) holds step⟩
  exact both.2

/-- The states reached from an initial one by moves that meet a condition in the state they are made in. -/
inductive ReachedBy (m : Machine σ α) (R : σ → α → Prop) : σ → Prop
  | start {s : σ} : m.Initial s → ReachedBy m R s
  | step {s t : σ} {a : α} : ReachedBy m R s → R s a → m.step s a = some t → ReachedBy m R t

/-- The invariant rule for moves that meet a condition. -/
theorem ReachedBy.invariant {R : σ → α → Prop} {P : σ → Prop} (start : ∀ s, m.Initial s → P s)
    (kept : ∀ ⦃s a t⦄, P s → R s a → m.step s a = some t → P t) (reached : m.ReachedBy R t) : P t := by
  induction reached with
  | start initial => exact start _ initial
  | step _ meets step ih => exact kept ih meets step

/-- A run whose moves meet a condition, move by move. -/
def Walks (m : Machine σ α) (R : σ → α → Prop) : σ → List α → σ → Prop
  | s, [], t => s = t
  | s, a :: as, t => ∃ mid, m.step s a = some mid ∧ R s a ∧ m.Walks R mid as t

theorem ReachedBy.walks {R : σ → α → Prop} (reached : m.ReachedBy R s) (as : List α)
    (walks : m.Walks R s as t) : m.ReachedBy R t := by
  induction as generalizing s with
  | nil => exact walks ▸ reached
  | cons a as ih =>
    obtain ⟨mid, step, meets, rest⟩ := walks
    exact ih (reached.step meets step) rest

/-- Moves of one kind can bring about a property. -/
def Leads (m : Machine σ α) (kind : α → Prop) (P : σ → Prop) (s : σ) : Prop :=
  ∃ as t, (∀ a ∈ as, kind a) ∧ m.Path s as t ∧ P t

theorem Leads.here {kind : α → Prop} {P : σ → Prop} (holds : P s) : m.Leads kind P s :=
  ⟨[], s, nofun, .nil s, holds⟩

theorem Leads.step {kind : α → Prop} {P : σ → Prop} (a : α) (moves : kind a)
    (step : m.step s a = some mid) (rest : m.Leads kind P mid) : m.Leads kind P s := by
  obtain ⟨as, t, all, path, holds⟩ := rest
  exact ⟨a :: as, t, List.forall_mem_cons.mpr ⟨moves, all⟩, .cons step path, holds⟩

end Machine

end Harkness
