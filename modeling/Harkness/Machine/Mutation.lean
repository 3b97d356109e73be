import Mathlib.Data.List.Basic

/-! # Fallible operations on a mutable state

An operation of type `Mutation ε σ α` reads and writes a state and may refuse; a refusal keeps what
was written before it, so nothing is undone by construction. `Atomic` says that a refusal left the
state as it was. It follows from the order of the parts: checks that write nothing come first, and
writes that cannot refuse come last.
-/

namespace Harkness

/-- An operation on a mutable state that may refuse, the state written so far being kept. -/
def Mutation (ε σ α : Type) : Type := σ → Except ε α × σ

namespace Mutation

variable {ε σ τ α β : Type}

instance : Monad (Mutation ε σ) where
  pure a := fun s => (.ok a, s)
  bind m next := fun s =>
    match m s with
    | (.ok a, mid) => next a mid
    | (.error e, mid) => (.error e, mid)

/-- Reads the state. -/
def read : Mutation ε σ σ := fun s => (.ok s, s)

/-- Writes the state. -/
def update (f : σ → σ) : Mutation ε σ Unit := fun s => (.ok (), f s)

/-- A check that touches nothing. -/
def check (result : Except ε α) : Mutation ε σ α := fun s => (result, s)

/-- An operation done under a condition. -/
def when (p : Prop) [Decidable p] (m : Mutation ε σ Unit) : Mutation ε σ Unit :=
  if p then m else pure ()

/-- An operation on a part of the state. -/
def focus (view : σ → τ) (put : τ → σ → σ) (m : Mutation ε τ α) : Mutation ε σ α :=
  fun s => ((m (view s)).1, put (m (view s)).2 s)

/-- The successful ends of two operations in sequence. -/
theorem bind_eq_ok {m : Mutation ε σ α} {next : α → Mutation ε σ β} {s t : σ} {b : β} :
    (m >>= next) s = (.ok b, t) ↔ ∃ a mid, m s = (.ok a, mid) ∧ next a mid = (.ok b, t) := by
  change (match m s with
    | (.ok a, mid) => next a mid
    | (.error e, mid) => (.error e, mid)) = _ ↔ _
  rcases first : m s with ⟨result, mid⟩
  cases result with
  | error e => simp
  | ok a => simp

/-- An operation that succeeds hands its value and state on. -/
theorem bind_of_ok {m : Mutation ε σ α} {next : α → Mutation ε σ β} {s mid : σ} {a : α}
    (first : m s = (.ok a, mid)) : (m >>= next) s = next a mid := by
  change (match m s with
    | (.ok a, mid) => next a mid
    | (.error e, mid) => (.error e, mid)) = _
  rw [first]

/-- An operation that refuses ends the sequence. -/
theorem bind_of_error {m : Mutation ε σ α} {next : α → Mutation ε σ β} {s mid : σ} {e : ε}
    (first : m s = (.error e, mid)) : (m >>= next) s = (.error e, mid) := by
  change (match m s with
    | (.ok a, mid) => next a mid
    | (.error e, mid) => (.error e, mid)) = _
  rw [first]

theorem pure_eq_ok {s t : σ} {a b : α} :
    (pure a : Mutation ε σ α) s = (.ok b, t) ↔ a = b ∧ s = t := by
  change (Except.ok a, s) = _ ↔ _
  simp

/-- A value returned after an operation changes nothing of the state. -/
theorem snd_bind_pure {m : Mutation ε σ α} {s : σ} {b : β} :
    ((m >>= fun _ => pure b : Mutation ε σ β) s).2 = (m s).2 := by
  change (match m s with
    | (.ok _, mid) => (pure b : Mutation ε σ β) mid
    | (.error e, mid) => (.error e, mid)).2 = _
  rcases m s with ⟨_ | _, mid⟩ <;> rfl

theorem read_eq_ok {s t u : σ} : (read : Mutation ε σ σ) s = (.ok u, t) ↔ s = u ∧ s = t := by
  simp [read]

theorem update_eq_ok {f : σ → σ} {s t : σ} {u : Unit} :
    (update f : Mutation ε σ Unit) s = (.ok u, t) ↔ f s = t := by
  simp [update]

theorem check_eq_ok {result : Except ε α} {s t : σ} {a : α} :
    (check result : Mutation ε σ α) s = (.ok a, t) ↔ result = .ok a ∧ s = t := by
  simp [check]

theorem when_update_eq_ok {p : Prop} [Decidable p] {f : σ → σ} {s t : σ} {u : Unit} :
    (when p (update f) : Mutation ε σ Unit) s = (.ok u, t) ↔ (if p then f s else s) = t := by
  unfold when
  split
  · exact update_eq_ok
  · rw [pure_eq_ok, and_iff_right rfl]

theorem focus_eq_ok {view : σ → τ} {put : τ → σ → σ} {m : Mutation ε τ α} {s t : σ} {a : α} :
    focus view put m s = (.ok a, t) ↔ ∃ part, m (view s) = (.ok a, part) ∧ put part s = t := by
  rcases run : m (view s) with ⟨result, part⟩
  simp [focus, run]

/-- A value comes with a state as described, and a refusal is one of those described. -/
def Results (m : Mutation ε σ α) (s : σ) (good : α → σ → Prop) (bad : ε → Prop) : Prop :=
  match m s with
  | (.ok a, t) => good a t
  | (.error e, _) => bad e

section Results

variable {m : Mutation ε σ α} {next : α → Mutation ε σ β} {s : σ} {good mild : α → σ → Prop}
  {after : β → σ → Prop} {bad : ε → Prop}

/-- An operation after another starts from what the first ends in. -/
theorem Results.bind (first : m.Results s good bad)
    (rest : ∀ a t, good a t → (next a).Results t after bad) : (m >>= next).Results s after bad := by
  unfold Results at first ⊢
  change match (match m s with
    | (.ok a, mid) => next a mid
    | (.error e, mid) => (.error e, mid)) with
    | (.ok a, t) => after a t
    | (.error e, _) => bad e
  rcases run : m s with ⟨result, mid⟩
  rw [run] at first
  cases result with
  | error e => exact first
  | ok a => exact rest a mid first

theorem Results.imp (results : m.Results s good bad) (weaker : ∀ a t, good a t → mild a t) :
    m.Results s mild bad := by
  unfold Results at results ⊢
  rcases run : m s with ⟨result, t⟩
  rw [run] at results
  cases result with
  | error e => exact results
  | ok a => exact weaker a t results

theorem results_read : (read : Mutation ε σ σ).Results s (fun a t => a = s ∧ t = s) bad := ⟨rfl, rfl⟩

theorem results_update {f : σ → σ} :
    (update f : Mutation ε σ Unit).Results s (fun _ t => t = f s) bad := rfl

/-- A check hands on what it accepts, in the state it was made in. -/
theorem results_check {result : Except ε α} (refusal : ∀ e, result = .error e → bad e) :
    (check result : Mutation ε σ α).Results s (fun a t => result = .ok a ∧ t = s) bad := by
  cases result with
  | error e => exact refusal e rfl
  | ok a => exact ⟨rfl, rfl⟩

end Results

/-- A refusal leaves the state as it was. -/
def Atomic (m : Mutation ε σ α) : Prop := ∀ s e, (m s).1 = .error e → (m s).2 = s

/-- Nothing is written. -/
def ReadOnly (m : Mutation ε σ α) : Prop := ∀ s, (m s).2 = s

/-- Nothing is refused. -/
def Total (m : Mutation ε σ α) : Prop := ∀ s, ∃ a, (m s).1 = .ok a

theorem readOnly_read : ReadOnly (read : Mutation ε σ σ) := fun _ => rfl

theorem readOnly_check {result : Except ε α} : ReadOnly (check result : Mutation ε σ α) :=
  fun _ => rfl

theorem total_update {f : σ → σ} : Total (update f : Mutation ε σ Unit) := fun _ => ⟨(), rfl⟩

theorem total_pure {a : α} : Total (pure a : Mutation ε σ α) := fun _ => ⟨a, rfl⟩

theorem Total.bind {m : Mutation ε σ α} {next : α → Mutation ε σ β} (total : m.Total)
    (rest : ∀ a, (next a).Total) : (m >>= next).Total := by
  intro s
  obtain ⟨a, done⟩ := total s
  obtain ⟨b, finished⟩ := rest a (m s).2
  have ran : m s = (.ok a, (m s).2) := Prod.ext done rfl
  refine ⟨b, ?_⟩
  rw [← finished]
  exact congrArg Prod.fst ((bind_eq_ok (t := (next a (m s).2).2)).mpr
    ⟨a, (m s).2, ran, Prod.ext finished rfl⟩) |>.trans finished.symm

theorem Total.when {p : Prop} [Decidable p] {m : Mutation ε σ Unit} (total : m.Total) :
    (when p m).Total := by
  unfold Mutation.when
  split
  · exact total
  · exact total_pure

theorem Total.atomic {m : Mutation ε σ α} (total : m.Total) : m.Atomic := by
  intro s e refused
  obtain ⟨a, done⟩ := total s
  rw [refused] at done
  cases done

/-- A check before an atomic operation. -/
theorem ReadOnly.bind {m : Mutation ε σ α} {next : α → Mutation ε σ β} (readOnly : m.ReadOnly)
    (atomic : ∀ a, (next a).Atomic) : (m >>= next).Atomic := by
  intro s e
  have same := readOnly s
  change (match m s with
    | (.ok a, mid) => next a mid
    | (.error e, mid) => (.error e, mid)).1 = _ → (match m s with
    | (.ok a, mid) => next a mid
    | (.error e, mid) => (.error e, mid)).2 = s
  rcases run : m s with ⟨result, mid⟩
  rw [run] at same
  obtain rfl : mid = s := same
  cases result with
  | error _ => exact fun _ => rfl
  | ok a => exact atomic a mid e

/-- A write that cannot refuse after an atomic operation. -/
theorem Atomic.bind {m : Mutation ε σ α} {next : α → Mutation ε σ β} (atomic : m.Atomic)
    (total : ∀ a, (next a).Total) : (m >>= next).Atomic := by
  intro s e
  have same := atomic s
  change (match m s with
    | (.ok a, mid) => next a mid
    | (.error e, mid) => (.error e, mid)).1 = _ → (match m s with
    | (.ok a, mid) => next a mid
    | (.error e, mid) => (.error e, mid)).2 = s
  rcases run : m s with ⟨result, mid⟩
  rw [run] at same
  cases result with
  | error refusal => exact fun _ => same refusal rfl
  | ok a =>
    intro refused
    obtain ⟨b, done⟩ := total a mid
    rw [done] at refused
    cases refused

theorem Atomic.focus {view : σ → τ} {put : τ → σ → σ} {m : Mutation ε τ α} (atomic : m.Atomic)
    (restore : ∀ s, put (view s) s = s) : (focus view put m).Atomic := by
  intro s e refused
  change put (m (view s)).2 s = s
  rw [atomic (view s) e refused, restore]

section Beside

variable {δ : Type} {R : σ → τ → Prop} {T : σ → σ → Prop}

/-- Where the first operation succeeds, the other does with the same value, and related states come out. -/
def FollowsAt (R : σ → τ → Prop) (s : σ) (t : τ) (m : Mutation ε σ α) (other : Mutation δ τ α) : Prop :=
  ∀ a mid, m s = (.ok a, mid) → ∃ far, other t = (.ok a, far) ∧ R mid far

theorem FollowsAt.bind {s : σ} {t : τ} {m : Mutation ε σ α} {other : Mutation δ τ α}
    {next : α → Mutation ε σ β} {more : α → Mutation δ τ β} (first : FollowsAt R s t m other)
    (rest : ∀ a mid far, R mid far → FollowsAt R mid far (next a) (more a)) :
    FollowsAt R s t (m >>= next) (other >>= more) := by
  intro b last done
  obtain ⟨a, mid, begun, ended⟩ := bind_eq_ok.mp done
  obtain ⟨far, other_, related⟩ := first a mid begun
  obtain ⟨final, finished, same⟩ := rest a mid far related b last ended
  exact ⟨final, bind_eq_ok.mpr ⟨a, far, other_, finished⟩, same⟩

/-- Each side goes on with the state it reads. -/
theorem FollowsAt.read_bind {s : σ} {t : τ} {next : σ → Mutation ε σ β} {more : τ → Mutation δ τ β}
    (rest : FollowsAt R s t (next s) (more t)) : FollowsAt R s t (read >>= next) (read >>= more) :=
  rest

theorem FollowsAt.pure {s : σ} {t : τ} (related : R s t) (a : α) :
    FollowsAt R s t (Pure.pure a : Mutation ε σ α) (Pure.pure a : Mutation δ τ α) := by
  intro b mid done
  obtain ⟨rfl, rfl⟩ := pure_eq_ok.mp done
  exact ⟨t, rfl, related⟩

theorem FollowsAt.update {s : σ} {t : τ} {f : σ → σ} {g : τ → τ} (related : R (f s) (g t)) :
    FollowsAt R s t (Mutation.update f : Mutation ε σ Unit) (Mutation.update g : Mutation δ τ Unit) := by
  intro b mid done
  obtain rfl := update_eq_ok.mp done
  exact ⟨g t, rfl, related⟩

/-- Operations on parts of two states. -/
theorem FollowsAt.focus {σ' τ' : Type} {R' : σ' → τ' → Prop} {s : σ'} {t : τ'} {view : σ' → σ}
    {put : σ → σ' → σ'} {see : τ' → τ} {set : τ → τ' → τ'} {m : Mutation ε σ α} {other : Mutation δ τ α}
    (part : FollowsAt R (view s) (see t) m other) (whole : ∀ a b, R a b → R' (put a s) (set b t)) :
    FollowsAt R' s t (Mutation.focus view put m) (Mutation.focus see set other) := by
  intro a mid done
  obtain ⟨near, moved, rfl⟩ := focus_eq_ok.mp done
  obtain ⟨far, followed, related⟩ := part a near moved
  exact ⟨_, focus_eq_ok.mpr ⟨far, followed, rfl⟩, whole near far related⟩

/-- Whether it succeeds or not, an operation only moves a state as the relation says. -/
def Moves (T : σ → σ → Prop) (m : Mutation ε σ α) : Prop := ∀ s, T s (m s).2

theorem Moves.bind (trans : ∀ a b c, T a b → T b c → T a c) {m : Mutation ε σ α}
    {next : α → Mutation ε σ β} (first : m.Moves T) (rest : ∀ a, (next a).Moves T) :
    (m >>= next).Moves T := by
  intro s
  have moved := first s
  change T s (match m s with
    | (.ok a, mid) => next a mid
    | (.error e, mid) => (.error e, mid)).2
  rcases run : m s with ⟨result, mid⟩
  rw [run] at moved
  cases result with
  | error _ => exact moved
  | ok a => exact trans _ _ _ moved (rest a mid)

end Beside

section Sequences

variable {Op : Type} (apply : Op → Mutation ε σ Unit)

/-- The state after a sequence of operations, refused ones included. -/
def after (s : σ) (ops : List Op) : σ := ops.foldl (fun s op => (apply op s).2) s

theorem after_cons (s : σ) (op : Op) (ops : List Op) :
    after apply s (op :: ops) = after apply (apply op s).2 ops := rfl

/-- What every accepted operation keeps, a sequence of atomic operations keeps. -/
theorem after_invariant {P : σ → Prop} (atomic : ∀ op, (apply op).Atomic)
    (kept : ∀ op s t, P s → apply op s = (.ok (), t) → P t) {s : σ} (start : P s)
    (ops : List Op) : P (after apply s ops) := by
  induction ops generalizing s with
  | nil => exact start
  | cons op ops ih =>
    rw [after_cons]
    apply ih
    rcases result : apply op s with ⟨outcome, t⟩
    cases outcome with
    | error e =>
      have same := atomic op s e (by rw [result])
      rw [result] at same
      exact same ▸ start
    | ok _ => exact kept op s t start result

/-- A property of every state a sequence of operations goes through. -/
def Throughout (P : σ → Prop) (s : σ) (ops : List Op) : Prop :=
  ∀ before rest, ops = before ++ rest → P (after apply s before)

/-- A condition on every operation of a sequence that is accepted, in the state it is made in. -/
def EachAccepted (R : σ → Op → Prop) (s : σ) (ops : List Op) : Prop :=
  ∀ before op rest, ops = before ++ op :: rest →
    (apply op (after apply s before)).1 = .ok () → R (after apply s before) op

theorem throughout_cons {P : σ → Prop} {s : σ} {op : Op} {ops : List Op} :
    Throughout apply P s (op :: ops) ↔ P s ∧ Throughout apply P (apply op s).2 ops := by
  constructor
  · intro throughout
    refine ⟨throughout [] (op :: ops) rfl, fun before rest same => ?_⟩
    exact throughout (op :: before) rest (by rw [same]; rfl)
  · rintro ⟨here, throughout⟩ before rest same
    cases before with
    | nil => exact here
    | cons first before =>
      obtain ⟨rfl, tails⟩ := List.cons_eq_cons.mp same
      exact throughout before rest tails

theorem eachAccepted_cons {R : σ → Op → Prop} {s : σ} {op : Op} {ops : List Op} :
    EachAccepted apply R s (op :: ops) ↔
      ((apply op s).1 = .ok () → R s op) ∧ EachAccepted apply R (apply op s).2 ops := by
  constructor
  · intro each
    refine ⟨each [] op ops rfl, fun before next rest same => ?_⟩
    exact each (op :: before) next rest (by rw [same]; rfl)
  · rintro ⟨here, each⟩ before next rest same
    cases before with
    | nil =>
      obtain ⟨rfl, -⟩ := List.cons_eq_cons.mp same
      exact here
    | cons first before =>
      obtain ⟨rfl, tails⟩ := List.cons_eq_cons.mp same
      exact each before next rest tails

/-- Where one accepted operation keeps an invariant under a condition, and breaks the property
without it, the property holds throughout exactly when every accepted operation meets the
condition. -/
theorem throughout_iff {I P : σ → Prop} {R : σ → Op → Prop} (atomic : ∀ op, (apply op).Atomic)
    (holds : ∀ s, I s → P s)
    (kept : ∀ s op t, I s → R s op → apply op s = (.ok (), t) → I t)
    (broken : ∀ s op t, I s → ¬R s op → apply op s = (.ok (), t) → ¬P t) {s : σ} (start : I s)
    (ops : List Op) : Throughout apply P s ops ↔ EachAccepted apply R s ops := by
  induction ops generalizing s with
  | nil =>
    constructor
    · exact fun _ before op rest same => by cases before <;> cases same
    · intro _ before rest same
      obtain ⟨rfl, -⟩ := List.append_eq_nil_iff.mp same.symm
      exact holds s start
  | cons op ops ih =>
    rw [throughout_cons, eachAccepted_cons, and_iff_right (holds s start)]
    rcases result : apply op s with ⟨outcome, t⟩
    cases outcome with
    | error e =>
      have same := atomic op s e (by rw [result])
      rw [result] at same
      obtain rfl : t = s := same
      rw [ih start]
      simp
    | ok _ =>
      by_cases condition : R s op
      · rw [ih (kept s op t start condition result)]
        simp [condition]
      · have gone := broken s op t start condition result
        constructor
        · exact fun throughout => absurd (throughout [] ops rfl) gone
        · exact fun each => absurd (each.1 rfl) condition

end Sequences

end Mutation

end Harkness
