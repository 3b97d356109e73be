import Mathlib.Data.List.Forall2

/-! # When a sequence of fallible steps succeeds -/

namespace Except

variable {ε ε' α β : Type}

theorem bind_eq_ok {first : Except ε α} {rest : α → Except ε β} {value : β} :
    first >>= rest = .ok value ↔ ∃ middle, first = .ok middle ∧ rest middle = .ok value := by
  cases first with
  | error error => simp only [bind, Except.bind, reduceCtorEq, false_and, exists_false]
  | ok middle => simp only [bind, Except.bind, Except.ok.injEq, exists_eq_left']

/-- A check in front of a step. -/
theorem bind_unit_eq_ok {first : Except ε Unit} {rest : Except ε β} {value : β} :
    (first >>= fun _ => rest) = .ok value ↔ first = .ok () ∧ rest = .ok value := by
  rw [bind_eq_ok]
  exact ⟨fun ⟨_, passed, done⟩ => ⟨passed, done⟩, fun ⟨passed, done⟩ => ⟨(), passed, done⟩⟩

theorem bind_eq_error {first : Except ε α} {rest : α → Except ε β} {error : ε} :
    first >>= rest = .error error ↔
      first = .error error ∨ ∃ middle, first = .ok middle ∧ rest middle = .error error := by
  cases first with
  | error other => simp only [bind, Except.bind, Except.error.injEq, reduceCtorEq, false_and, exists_false, or_false]
  | ok middle => simp only [bind, Except.bind, reduceCtorEq, Except.ok.injEq, exists_eq_left', false_or]

theorem map_eq_ok {first : Except ε α} {f : α → β} {value : β} :
    f <$> first = .ok value ↔ ∃ middle, first = .ok middle ∧ f middle = value := by
  cases first with
  | error error => simp only [Functor.map, Except.map, reduceCtorEq, false_and, exists_false]
  | ok middle => simp only [Functor.map, Except.map, Except.ok.injEq, exists_eq_left']

theorem mapError_eq_ok {first : Except ε α} {f : ε → ε'} {value : α} :
    first.mapError f = .ok value ↔ first = .ok value := by
  cases first with
  | error error => simp only [Except.mapError, reduceCtorEq]
  | ok middle => simp only [Except.mapError, Except.ok.injEq]

theorem mapError_eq_error {first : Except ε α} {f : ε → ε'} {error : ε'} :
    first.mapError f = .error error ↔ ∃ reason, first = .error reason ∧ f reason = error := by
  cases first with
  | error reason => simp only [Except.mapError, Except.error.injEq, exists_eq_left']
  | ok middle => simp only [Except.mapError, reduceCtorEq, false_and, exists_false]

/-- A guard that refuses is passed when its condition fails. -/
theorem ite_error_eq_ok {p : Prop} [Decidable p] {e : ε} {x : Except ε α} {a : α} :
    (if p then .error e else x) = .ok a ↔ ¬p ∧ x = .ok a := by
  split <;> simp [*]

theorem ite_error_eq_error {p : Prop} [Decidable p] {e error : ε} {x : Except ε α} :
    (if p then .error e else x) = .error error ↔ p ∧ e = error ∨ ¬p ∧ x = .error error := by
  split <;> simp [*]

/-- A step that succeeds on every item succeeds on the list. -/
theorem mapM_eq_ok_of_forall₂ {f : α → Except ε β} {items : List α} {values : List β}
    (each : List.Forall₂ (fun item value => f item = .ok value) items values) :
    items.mapM f = .ok values := by
  induction each with
  | nil => rfl
  | cons here _ ih => rw [List.mapM_cons, here, ih]; rfl

/-- A step that is refused on a list is refused on one of its items. -/
theorem exists_of_mapM_eq_error {f : α → Except ε β} {items : List α} {error : ε}
    (refused : items.mapM f = .error error) : ∃ item ∈ items, f item = .error error := by
  induction items with
  | nil => cases refused
  | cons first items ih =>
    rw [List.mapM_cons] at refused
    rcases bind_eq_error.mp refused with here | ⟨value, -, refused⟩
    · exact ⟨first, List.mem_cons_self, here⟩
    · rcases bind_eq_error.mp refused with there | ⟨values, -, refused⟩
      · obtain ⟨item, member, there⟩ := ih there
        exact ⟨item, List.mem_cons_of_mem _ member, there⟩
      · cases refused

/-- Where a step gives back what it is given, what is read of a list is the list. -/
theorem eq_of_mapM_eq_ok {f : α → Except ε α} {items values : List α}
    (same : ∀ item value, f item = .ok value → value = item) (read : items.mapM f = .ok values) :
    values = items ∧ ∀ item ∈ items, f item = .ok item := by
  induction items generalizing values with
  | nil => exact ⟨(Except.ok.inj read).symm, fun _ member => by cases member⟩
  | cons first items ih =>
    rw [List.mapM_cons] at read
    obtain ⟨value, here, read⟩ := bind_eq_ok.mp read
    obtain ⟨rest, there, last⟩ := bind_eq_ok.mp read
    obtain rfl := same first value here
    obtain ⟨rfl, each⟩ := ih there
    exact ⟨(Except.ok.inj last).symm, List.forall_mem_cons.mpr ⟨here, each⟩⟩

end Except

namespace List

variable {α β : Type*} {f : β → α → Option β} {items : List α} {last : α} {start stop : β}

/-- A fold of partial steps succeeds up to its last item and then on it. -/
theorem foldlM_concat_eq_some : (items ++ [last]).foldlM f start = some stop ↔
    ∃ mid, items.foldlM f start = some mid ∧ f mid last = some stop := by
  rw [foldlM_append]
  simp only [Option.bind_eq_bind, Option.bind_eq_some_iff, foldlM_cons, foldlM_nil, Option.pure_def,
    Option.some.injEq, exists_eq_right]

/-- A partial step that answers on every item answers on the list. -/
theorem mapM_eq_some {items : List α} {f : α → Option β} {g : α → β}
    (each : ∀ item ∈ items, f item = some (g item)) : items.mapM f = some (items.map g) := by
  induction items with
  | nil => rfl
  | cons first items ih =>
    rw [mapM_cons, each first mem_cons_self,
      ih fun item member => each item (mem_cons_of_mem _ member)]
    rfl

/-- What is read of a list is read of its elements in turn. -/
theorem mapM_eq_some_iff {items : List α} {values : List β} {f : α → Option β} :
    items.mapM f = some values ↔ Forall₂ (fun item value => f item = some value) items values := by
  induction items generalizing values with
  | nil => simp [eq_comm]
  | cons first items ih =>
    rw [mapM_cons]
    simp only [Option.bind_eq_bind, Option.bind_eq_some_iff, Option.pure_def, Option.some.injEq, ih]
    constructor
    · rintro ⟨value, here, rest, there, rfl⟩
      exact .cons here there
    · rintro (_ | ⟨here, there⟩)
      exact ⟨_, here, _, there, rfl⟩

/-- A list is read where its elements are. -/
theorem exists_mapM_eq_some {items : List α} {f : α → Option β}
    (each : ∀ item ∈ items, (f item).isSome = true) : ∃ values, items.mapM f = some values := by
  induction items with
  | nil => exact ⟨[], rfl⟩
  | cons first items ih =>
    obtain ⟨value, here⟩ := Option.isSome_iff_exists.mp (each first mem_cons_self)
    obtain ⟨values, rest⟩ := ih fun item member => each item (mem_cons_of_mem _ member)
    exact ⟨value :: values, by rw [mapM_cons, here, rest]; rfl⟩

theorem isSome_of_mapM_eq_some {items : List α} {values : List β} {f : α → Option β} {item : α}
    (read : items.mapM f = some values) (member : item ∈ items) : (f item).isSome = true := by
  induction mapM_eq_some_iff.mp read with
  | nil => cases member
  | cons here _ ih =>
    rcases mem_cons.mp member with rfl | behind
    · exact Option.isSome_iff_exists.mpr ⟨_, here⟩
    · exact ih (mapM_eq_some_iff.mpr ‹_›) behind

/-- What every step keeps, a fold of partial steps keeps. -/
theorem foldlM_preserves {P : β → Prop}
    (kept : ∀ item ∈ items, ∀ before after, P before → f before item = some after → P after)
    (success : items.foldlM f start = some stop) (holds : P start) : P stop := by
  induction items generalizing start with
  | nil =>
    obtain rfl := Option.some.inj success
    exact holds
  | cons first items ih =>
    obtain ⟨mid, here, rest⟩ := Option.bind_eq_some_iff.mp success
    exact ih (fun item member => kept item (mem_cons_of_mem _ member)) rest
      (kept first mem_cons_self start mid holds here)

end List
