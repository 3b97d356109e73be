import Mathlib.Data.List.Sort

/-! # JSON values, their equality and their sorted form

`Value ν` is the syntax of JSON over any type of numbers, with the fields of an object in the order
they came in. `Same` is equality up to that order. With no key repeated, sorting the keys of every
object gives one form to each value: two values are the same exactly when these forms are equal.
-/

namespace Json

inductive Value (ν : Type*) where
  | null
  | bool (value : Bool)
  | number (value : ν)
  | string (text : String)
  | array (items : List (Value ν))
  | object (fields : List (String × Value ν))

namespace Value

variable {ν : Type*}

/-- Induction with the hypothesis on every item of an array and every field of an object. -/
@[elab_as_elim, induction_eliminator]
theorem induct {P : Value ν → Prop} (null : P null) (bool : ∀ value, P (bool value))
    (number : ∀ value, P (number value)) (string : ∀ text, P (string text))
    (array : ∀ items, (∀ item ∈ items, P item) → P (array items))
    (object : ∀ fields, (∀ field ∈ fields, P field.2) → P (object fields)) (value : Value ν) :
    P value := by
  refine @Value.rec ν P (fun items => ∀ item ∈ items, P item)
    (fun fields => ∀ field ∈ fields, P field.2) (fun field => P field.2)
    null bool number string array object ?_ ?_ ?_ ?_ ?_ value
  · exact fun _ member => absurd member List.not_mem_nil
  · exact fun _ _ here there => List.forall_mem_cons.mpr ⟨here, there⟩
  · exact fun _ member => absurd member List.not_mem_nil
  · exact fun _ _ here there => List.forall_mem_cons.mpr ⟨here, there⟩
  · exact fun _ _ here => here

mutual

/-- No object of the value, at any depth, names one key twice. -/
def UniqueKeys : Value ν → Prop
  | .array items => UniqueItems items
  | .object fields => (fields.map Prod.fst).Nodup ∧ UniqueFields fields
  | _ => True

def UniqueItems : List (Value ν) → Prop
  | [] => True
  | item :: items => UniqueKeys item ∧ UniqueItems items

def UniqueFields : List (String × Value ν) → Prop
  | [] => True
  | (_, value) :: fields => UniqueKeys value ∧ UniqueFields fields

end

theorem uniqueItems_iff {items : List (Value ν)} :
    UniqueItems items ↔ ∀ item ∈ items, UniqueKeys item := by
  induction items with
  | nil => simp [UniqueItems]
  | cons item items ih => rw [UniqueItems, ih, List.forall_mem_cons]

theorem uniqueFields_iff {fields : List (String × Value ν)} :
    UniqueFields fields ↔ ∀ field ∈ fields, UniqueKeys field.2 := by
  induction fields with
  | nil => simp [UniqueFields]
  | cons field fields ih => rw [UniqueFields, ih, List.forall_mem_cons]

mutual

/-- The same value over other numbers. -/
@[simp] def map {μ : Type*} (f : ν → μ) : Value ν → Value μ
  | .null => .null
  | .bool value => .bool value
  | .number value => .number (f value)
  | .string text => .string text
  | .array items => .array (mapItems f items)
  | .object fields => .object (mapFields f fields)

@[simp] def mapItems {μ : Type*} (f : ν → μ) : List (Value ν) → List (Value μ)
  | [] => []
  | item :: items => map f item :: mapItems f items

@[simp] def mapFields {μ : Type*} (f : ν → μ) : List (String × Value ν) → List (String × Value μ)
  | [] => []
  | (key, value) :: fields => (key, map f value) :: mapFields f fields

end

mutual

/-- How many arrays and objects are open at once. -/
def nesting : Value ν → ℕ
  | .array items => nestingItems items + 1
  | .object fields => nestingFields fields + 1
  | _ => 0

def nestingItems : List (Value ν) → ℕ
  | [] => 0
  | item :: items => max (nesting item) (nestingItems items)

def nestingFields : List (String × Value ν) → ℕ
  | [] => 0
  | (_, value) :: fields => max (nesting value) (nestingFields fields)

end

theorem nestingItems_le {items : List (Value ν)} {levels : ℕ} :
    nestingItems items ≤ levels ↔ ∀ item ∈ items, nesting item ≤ levels := by
  induction items with
  | nil => simp [nestingItems]
  | cons item items ih => rw [nestingItems, Nat.max_le, ih, List.forall_mem_cons]

theorem nestingFields_le {fields : List (String × Value ν)} {levels : ℕ} :
    nestingFields fields ≤ levels ↔ ∀ field ∈ fields, nesting field.2 ≤ levels := by
  induction fields with
  | nil => simp [nestingFields]
  | cons field fields ih => rw [nestingFields, Nat.max_le, ih, List.forall_mem_cons]

theorem keys_mapFields {μ : Type*} (f : ν → μ) (fields : List (String × Value ν)) :
    (mapFields f fields).map Prod.fst = fields.map Prod.fst := by
  induction fields with
  | nil => rfl
  | cons field fields ih => rw [mapFields, List.map_cons, List.map_cons, ih]

mutual

/-- The same value, whatever the order of the keys of its objects. -/
def Same : Value ν → Value ν → Prop
  | .null, other => other = .null
  | .bool value, other => other = .bool value
  | .number value, other => other = .number value
  | .string text, other => other = .string text
  | .array items, other => ∃ others, other = .array others ∧ SameItems items others
  | .object fields, other =>
    ∃ others, other = .object others ∧ fields.length = others.length ∧ SameFields fields others

def SameItems : List (Value ν) → List (Value ν) → Prop
  | [], others => others = []
  | item :: items, others =>
    ∃ first rest, others = first :: rest ∧ Same item first ∧ SameItems items rest

/-- Every field is found under its key among the others. -/
def SameFields : List (String × Value ν) → List (String × Value ν) → Prop
  | [], _ => True
  | (key, value) :: fields, others =>
    (∃ other, (key, other) ∈ others ∧ Same value other) ∧ SameFields fields others

end

theorem sameItems_iff {items others : List (Value ν)} :
    SameItems items others ↔ List.Forall₂ Same items others := by
  induction items generalizing others with
  | nil => simp [SameItems]
  | cons item items ih =>
    rw [SameItems, List.forall₂_cons_left_iff]
    simp only [ih]
    constructor
    · rintro ⟨first, rest, rfl, here, there⟩
      exact ⟨first, rest, here, there, rfl⟩
    · rintro ⟨first, rest, here, there, rfl⟩
      exact ⟨first, rest, rfl, here, there⟩

theorem sameFields_iff {fields others : List (String × Value ν)} :
    SameFields fields others ↔
      ∀ field ∈ fields, ∃ other, (field.1, other) ∈ others ∧ Same field.2 other := by
  induction fields with
  | nil => simp [SameFields]
  | cons field fields ih => rw [SameFields, ih, List.forall_mem_cons]

section Sorted

variable (r : String → String → Prop) [DecidableRel r]

mutual

/-- The value with the fields of every object sorted by key. -/
def sortKeys : Value ν → Value ν
  | .array items => .array (sortItems items)
  | .object fields =>
    .object ((sortFields fields).insertionSort fun left right => r left.1 right.1)
  | value => value

def sortItems : List (Value ν) → List (Value ν)
  | [] => []
  | item :: items => sortKeys item :: sortItems items

def sortFields : List (String × Value ν) → List (String × Value ν)
  | [] => []
  | (key, value) :: fields => (key, sortKeys value) :: sortFields fields

end

theorem sortItems_eq_map (items : List (Value ν)) : sortItems r items = items.map (sortKeys r) := by
  induction items with
  | nil => rfl
  | cons item items ih => rw [sortItems, ih, List.map_cons]

theorem sortFields_eq_map (fields : List (String × Value ν)) :
    sortFields r fields = fields.map fun field => (field.1, sortKeys r field.2) := by
  induction fields with
  | nil => rfl
  | cons field fields ih => rw [sortFields, ih, List.map_cons]

variable [Std.Total r] [IsTrans String r] [Std.Antisymm r]

omit [DecidableRel r] [Std.Total r] [IsTrans String r] in
/-- Of two fields under one key, a list that names no key twice holds at most one. -/
private theorem eq_of_key_eq {fields : List (String × Value ν)} {left right : String × Value ν}
    (unique : (fields.map Prod.fst).Nodup) (here : left ∈ fields) (there : right ∈ fields)
    (below : r left.1 right.1) (above : r right.1 left.1) : left = right :=
  List.inj_on_of_nodup_map unique here there (antisymm_of r below above)

/-- Fields that are a rearrangement of one another are sorted alike. -/
theorem insertionSort_eq_iff {fields others : List (String × Value ν)}
    (unique : (fields.map Prod.fst).Nodup) :
    fields.insertionSort (fun left right => r left.1 right.1) =
      others.insertionSort (fun left right => r left.1 right.1) ↔ fields.Perm others := by
  let byKey : String × Value ν → String × Value ν → Prop := fun left right => r left.1 right.1
  have total : Std.Total byKey := ⟨fun left right => Std.Total.total (r := r) left.1 right.1⟩
  have trans : IsTrans _ byKey :=
    ⟨fun _ _ _ first second => IsTrans.trans (r := r) _ _ _ first second⟩
  change fields.insertionSort byKey = others.insertionSort byKey ↔ _
  constructor
  · intro same
    exact (List.perm_insertionSort byKey fields).symm.trans
      (same ▸ List.perm_insertionSort byKey others)
  · intro perm
    have sorted : (fields.insertionSort byKey).Perm (others.insertionSort byKey) :=
      (List.perm_insertionSort byKey fields).trans
        (perm.trans (List.perm_insertionSort byKey others).symm)
    refine sorted.eq_of_pairwise ?_ (List.pairwise_insertionSort byKey fields)
      (List.pairwise_insertionSort byKey others)
    intro left right here there below above
    refine eq_of_key_eq r unique ((List.mem_insertionSort byKey).mp here) ?_ below above
    exact perm.mem_iff.mpr ((List.mem_insertionSort byKey).mp there)

/-- A list with no repetition rearranges another as long that holds all of it. -/
private theorem perm_iff {α : Type*} {items others : List α} (unique : items.Nodup) :
    items.Perm others ↔ items.length = others.length ∧ ∀ item ∈ items, item ∈ others := by
  constructor
  · exact fun perm => ⟨perm.length_eq, fun _ => perm.mem_iff.mp⟩
  · rintro ⟨length, within⟩
    exact (List.subperm_of_subset unique within).perm_of_length_le length.ge

/-- Two values are the same exactly when their sorted forms are equal. -/
theorem sortKeys_eq_iff {value other : Value ν} (unique : value.UniqueKeys)
    (otherUnique : other.UniqueKeys) : sortKeys r value = sortKeys r other ↔ Same value other := by
  induction value generalizing other with
  | null => cases other <;> simp [sortKeys, Same]
  | bool value => cases other <;> simp [sortKeys, Same, eq_comm]
  | number value => cases other <;> simp [sortKeys, Same, eq_comm]
  | string text => cases other <;> simp [sortKeys, Same, eq_comm]
  | array items ih =>
    cases other
    case array others =>
      rw [UniqueKeys, uniqueItems_iff] at unique otherUnique
      simp only [sortKeys, Same, array.injEq, sortItems_eq_map, sameItems_iff, exists_eq_left']
      rw [← List.forall₂_eq_eq_eq, List.forall₂_map_left_iff, List.forall₂_map_right_iff]
      induction items generalizing others with
      | nil => simp
      | cons item items rest =>
        cases others with
        | nil => simp
        | cons first others =>
          have here := ih item List.mem_cons_self (unique item List.mem_cons_self)
            (otherUnique first List.mem_cons_self)
          have there := rest (fun item member => ih item (List.mem_cons_of_mem _ member))
            (fun item member => unique item (List.mem_cons_of_mem _ member))
            others (fun item member => otherUnique item (List.mem_cons_of_mem _ member))
          rw [List.forall₂_cons, List.forall₂_cons, here, there]
    all_goals simp [sortKeys, Same]
  | object fields ih =>
    cases other
    case object others =>
      rw [UniqueKeys, uniqueFields_iff] at unique otherUnique
      simp only [sortKeys, Same, object.injEq, exists_eq_left', sortFields_eq_map, sameFields_iff]
      have keys : ((fields.map fun field => (field.1, sortKeys r field.2)).map Prod.fst).Nodup := by
        rw [List.map_map]
        exact unique.1
      rw [insertionSort_eq_iff r keys, perm_iff keys.of_map, List.length_map, List.length_map,
        List.forall_mem_map]
      simp only [List.mem_map]
      refine and_congr_right fun _ => forall₂_congr fun field member => ?_
      constructor
      · rintro ⟨found, there, same⟩
        obtain ⟨key, value⟩ := Prod.ext_iff.mp same
        refine ⟨found.2, ?_, (ih field member (unique.2 field member)
          (otherUnique.2 found there)).mp value.symm⟩
        exact key ▸ there
      · rintro ⟨found, there, same⟩
        exact ⟨_, there, Prod.ext rfl
          ((ih field member (unique.2 field member) (otherUnique.2 _ there)).mpr same).symm⟩
    all_goals simp [sortKeys, Same]

end Sorted

end Value

end Json
