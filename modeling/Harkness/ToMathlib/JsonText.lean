import Harkness.ToMathlib.Json

/-! # Compact JSON text reads in one way only

`Spelling.text` writes a value with no space in it, given how numbers and strings are spelled. When
a string shows where it ends, and a number is an injective run of numeral characters, a text can be
followed by a separator or a bracket, or by nothing, in one way only. In particular two values with
one text are equal.
-/

namespace Json

variable {ν : Type*}

/-- How numbers and strings are spelled. -/
structure Spelling (ν : Type*) where
  number : ν → List Char
  string : String → List Char

/-- The characters decimal numbers are made of. -/
def isNumeral (character : Char) : Bool :=
  character.isDigit || character == '-' || character == '.' || character == 'e'

namespace Spelling

structure Lawful (spelling : Spelling ν) : Prop where
  number_ne_nil : ∀ value, spelling.number value ≠ []
  number_numeral : ∀ value, ∀ character ∈ spelling.number value, isNumeral character
  number_injective : Function.Injective spelling.number
  string_quote : ∀ text, ∃ rest, spelling.string text = '"' :: rest
  string_append : ∀ {text other rest otherRest},
    spelling.string text ++ rest = spelling.string other ++ otherRest →
      text = other ∧ rest = otherRest

variable (spelling : Spelling ν)

/-- The comma before every item but the first. -/
def comma (first : Bool) : List Char := if first then [] else [',']

mutual

/-- The compact text of a value. -/
def text : Value ν → List Char
  | .null => ['n', 'u', 'l', 'l']
  | .bool true => ['t', 'r', 'u', 'e']
  | .bool false => ['f', 'a', 'l', 's', 'e']
  | .number value => spelling.number value
  | .string value => spelling.string value
  | .array items => '[' :: textItems true items ++ [']']
  | .object fields => '{' :: textFields true fields ++ ['}']

def textItems : Bool → List (Value ν) → List Char
  | _, [] => []
  | first, item :: items => comma first ++ text item ++ textItems false items

def textFields : Bool → List (String × Value ν) → List Char
  | _, [] => []
  | first, (key, value) :: fields =>
    comma first ++ spelling.string key ++ ':' :: text value ++ textFields false fields

end

section Characters

variable {spelling} {P : Char → Prop}

private theorem forall_mem_textItems (comma_ : P ',') {items : List (Value ν)}
    (each : ∀ item ∈ items, ∀ character ∈ spelling.text item, P character) (first : Bool) :
    ∀ character ∈ spelling.textItems first items, P character := by
  induction items generalizing first with
  | nil => exact fun _ member => absurd member List.not_mem_nil
  | cons item items ih =>
    obtain ⟨here, others⟩ := List.forall_mem_cons.mp each
    intro character member
    rw [textItems, List.mem_append, List.mem_append] at member
    rcases member with (separator | member) | member
    · cases first
      · exact List.mem_singleton.mp separator ▸ comma_
      · exact absurd separator List.not_mem_nil
    · exact here character member
    · exact ih others false character member

private theorem forall_mem_textFields (comma_ : P ',') (colon : P ':')
    (string : ∀ key, ∀ character ∈ spelling.string key, P character)
    {fields : List (String × Value ν)}
    (each : ∀ field ∈ fields, ∀ character ∈ spelling.text field.2, P character) (first : Bool) :
    ∀ character ∈ spelling.textFields first fields, P character := by
  induction fields generalizing first with
  | nil => exact fun _ member => absurd member List.not_mem_nil
  | cons field fields ih =>
    obtain ⟨here, others⟩ := List.forall_mem_cons.mp each
    intro character member
    rw [textFields, List.mem_append, List.mem_append, List.mem_append, List.mem_cons] at member
    rcases member with ((separator | member) | rfl | member) | member
    · cases first
      · exact List.mem_singleton.mp separator ▸ comma_
      · exact absurd separator List.not_mem_nil
    · exact string _ character member
    · exact colon
    · exact here character member
    · exact ih others false character member

/-- What holds of the punctuation, of numbers and of strings holds of all of a text. -/
theorem forall_mem_text
    (punctuation : ∀ character ∈ "nulltruefalse,:[]\x7b\x7d".toList, P character)
    (number : ∀ value, ∀ character ∈ spelling.number value, P character)
    (string : ∀ text, ∀ character ∈ spelling.string text, P character) (value : Value ν) :
    ∀ character ∈ spelling.text value, P character := by
  induction value with
  | null =>
    have within : ['n', 'u', 'l', 'l'] ⊆ "nulltruefalse,:[]\x7b\x7d".toList := by decide
    exact fun character member => punctuation character (within member)
  | bool value =>
    have within (value : Bool) : spelling.text (.bool value) ⊆ "nulltruefalse,:[]\x7b\x7d".toList := by
      cases value
      · exact (by decide : ['f', 'a', 'l', 's', 'e'] ⊆ "nulltruefalse,:[]\x7b\x7d".toList)
      · exact (by decide : ['t', 'r', 'u', 'e'] ⊆ "nulltruefalse,:[]\x7b\x7d".toList)
    exact fun character member => punctuation character (within value member)
  | number value => exact number value
  | string text => exact string text
  | array items ih =>
    intro character member
    rw [text, List.mem_append, List.mem_cons, List.mem_singleton] at member
    rcases member with (rfl | member) | rfl
    · exact punctuation '[' (by decide)
    · exact forall_mem_textItems (punctuation ',' (by decide)) ih true character member
    · exact punctuation ']' (by decide)
  | object fields ih =>
    intro character member
    rw [text, List.mem_append, List.mem_cons, List.mem_singleton] at member
    rcases member with (rfl | member) | rfl
    · exact punctuation '\x7b' (by decide)
    · exact forall_mem_textFields (punctuation ',' (by decide)) (punctuation ':' (by decide)) string
        ih true character member
    · exact punctuation '\x7d' (by decide)

end Characters

/-- What may follow a value: nothing, a comma, or the end of an array or an object. -/
def Ends (rest : List Char) : Prop := ∀ character ∈ rest.head?, character ∈ [',', ']', '}']

theorem ends_nil : Ends [] := by simp [Ends]

theorem ends_cons {character : Char} {rest : List Char} (stop : character ∈ [',', ']', '}']) :
    Ends (character :: rest) := by
  simpa [Ends] using stop

theorem ends_textItems {items : List (Value ν)} {rest : List Char} :
    Ends (spelling.textItems false items ++ ']' :: rest) := by
  cases items with
  | nil => exact ends_cons (by simp)
  | cons item items => exact ends_cons (by simp)

theorem ends_textFields {fields : List (String × Value ν)} {rest : List Char} :
    Ends (spelling.textFields false fields ++ '}' :: rest) := by
  cases fields with
  | nil => exact ends_cons (by simp)
  | cons field fields => exact ends_cons (by simp)

/-- The kind of a value, as the character it opens with tells it. -/
def opening : Value ν → Char
  | .null => 'n'
  | .bool _ => 't'
  | .number _ => '0'
  | .string _ => '"'
  | .array _ => '['
  | .object _ => '{'

def openingOf (character : Char) : Char :=
  if isNumeral character then '0' else if character = 'f' then 't' else character

variable {spelling}

theorem Lawful.text_eq_cons (lawful : spelling.Lawful) (value : Value ν) :
    ∃ character rest,
      spelling.text value = character :: rest ∧ openingOf character = opening value := by
  cases value with
  | null => exact ⟨_, _, rfl, rfl⟩
  | bool value => cases value <;> exact ⟨_, _, rfl, rfl⟩
  | number value =>
    obtain ⟨character, rest, spelled⟩ := List.exists_cons_of_ne_nil (lawful.number_ne_nil value)
    refine ⟨character, rest, spelled, if_pos (lawful.number_numeral value character ?_)⟩
    rw [spelled]
    exact List.mem_cons_self
  | string value =>
    obtain ⟨rest, spelled⟩ := lawful.string_quote value
    exact ⟨_, rest, spelled, rfl⟩
  | array items => exact ⟨_, _, rfl, rfl⟩
  | object fields => exact ⟨_, _, rfl, rfl⟩

/-- Texts that start alike are of values of one kind. -/
theorem Lawful.opening_eq (lawful : spelling.Lawful) {value other : Value ν}
    {rest otherRest : List Char}
    (same : spelling.text value ++ rest = spelling.text other ++ otherRest) :
    opening value = opening other := by
  obtain ⟨_, _, spelled, here⟩ := lawful.text_eq_cons value
  obtain ⟨_, _, otherSpelled, there⟩ := lawful.text_eq_cons other
  rw [spelled, otherSpelled, List.cons_append, List.cons_append] at same
  rw [← here, ← there, (List.cons_eq_cons.mp same).1]

/-- A value does not start with what can follow one. -/
theorem Lawful.cons_ne_text (lawful : spelling.Lawful) (value : Value ν) {rest other : List Char}
    {character : Char} (stop : character ∈ [',', ']', '}']) :
    character :: rest ≠ spelling.text value ++ other := by
  obtain ⟨_, _, spelled, opens⟩ := lawful.text_eq_cons value
  rw [spelled, List.cons_append]
  intro same
  rw [← (List.cons_eq_cons.mp same).1] at opens
  have possible : opening value ∈ ['n', 't', '0', '"', '[', '{'] := by
    cases value <;> simp [opening]
  rw [← opens] at possible
  revert possible
  simp only [List.mem_cons, List.not_mem_nil, or_false] at stop
  rcases stop with rfl | rfl | rfl <;> decide

theorem isNumeral_of_ends {rest : List Char} (ends : Ends rest) :
    ∀ character ∈ rest.head?, ¬ isNumeral character := by
  intro character member
  have stop := ends character member
  simp only [List.mem_cons, List.not_mem_nil, or_false] at stop
  rcases stop with rfl | rfl | rfl <;> decide

theorem takeWhile_isNumeral {numeral rest : List Char}
    (numerals : ∀ character ∈ numeral, isNumeral character) (ends : Ends rest) :
    (numeral ++ rest).takeWhile isNumeral = numeral := by
  rw [List.takeWhile_append_of_pos numerals]
  cases rest with
  | nil => rw [List.takeWhile_nil, List.append_nil]
  | cons character rest =>
    rw [List.takeWhile_cons_of_neg (isNumeral_of_ends ends character rfl), List.append_nil]

theorem Lawful.number_append (lawful : spelling.Lawful) {value other : ν}
    {rest otherRest : List Char} (ends : Ends rest) (otherEnds : Ends otherRest)
    (same : spelling.number value ++ rest = spelling.number other ++ otherRest) :
    value = other ∧ rest = otherRest := by
  have spelled : spelling.number value = spelling.number other := by
    rw [← takeWhile_isNumeral (lawful.number_numeral value) ends, same,
      takeWhile_isNumeral (lawful.number_numeral other) otherEnds]
  rw [spelled] at same
  exact ⟨lawful.number_injective spelled, List.append_cancel_left same⟩

/-- What is to be shown of a value, its own text being part of a longer one. -/
def ReadsBack (spelling : Spelling ν) (value : Value ν) : Prop :=
  ∀ {other rest otherRest}, Ends rest → Ends otherRest →
    spelling.text value ++ rest = spelling.text other ++ otherRest →
      value = other ∧ rest = otherRest

theorem Lawful.textItems_append (lawful : spelling.Lawful) {items others : List (Value ν)}
    {first : Bool} {rest otherRest : List Char}
    (each : ∀ item ∈ items, ReadsBack spelling item)
    (same : spelling.textItems first items ++ ']' :: rest =
      spelling.textItems first others ++ ']' :: otherRest) :
    items = others ∧ rest = otherRest := by
  induction items generalizing others first with
  | nil =>
    cases others with
    | nil => exact ⟨rfl, (List.cons_eq_cons.mp same).2⟩
    | cons other others =>
      cases first with
      | true =>
        simp only [textItems, comma, if_true, List.nil_append, List.append_assoc] at same
        exact absurd same (lawful.cons_ne_text other (by decide))
      | false => simp [textItems, comma] at same
  | cons item items ih =>
    cases others with
    | nil =>
      cases first with
      | true =>
        simp only [textItems, comma, if_true, List.nil_append, List.append_assoc] at same
        exact absurd same.symm (lawful.cons_ne_text item (by decide))
      | false => simp [textItems, comma] at same
    | cons other others =>
      simp only [textItems, List.append_assoc, List.append_cancel_left_eq] at same
      obtain ⟨rfl, tails⟩ := each item List.mem_cons_self (ends_textItems _) (ends_textItems _) same
      obtain ⟨rfl, rests⟩ := ih (fun item member => each item (List.mem_cons_of_mem _ member)) tails
      exact ⟨rfl, rests⟩

/-- Neither a comma nor a quote can be taken for the end of an object. -/
private theorem Lawful.brace_ne_textFields (lawful : spelling.Lawful) {first : Bool}
    {field : String × Value ν} {fields : List (String × Value ν)} {rest other : List Char} :
    '}' :: rest ≠ spelling.textFields first (field :: fields) ++ other := by
  obtain ⟨_, quoted⟩ := lawful.string_quote field.1
  cases first <;> simp [textFields, comma, quoted]

theorem Lawful.textFields_append (lawful : spelling.Lawful)
    {fields others : List (String × Value ν)} {first : Bool} {rest otherRest : List Char}
    (each : ∀ field ∈ fields, ReadsBack spelling field.2)
    (same : spelling.textFields first fields ++ '}' :: rest =
      spelling.textFields first others ++ '}' :: otherRest) :
    fields = others ∧ rest = otherRest := by
  induction fields generalizing others first with
  | nil =>
    cases others with
    | nil => exact ⟨rfl, (List.cons_eq_cons.mp same).2⟩
    | cons other others => exact absurd same lawful.brace_ne_textFields
  | cons field fields ih =>
    obtain ⟨key, value⟩ := field
    cases others with
    | nil => exact absurd same.symm lawful.brace_ne_textFields
    | cons other others =>
      obtain ⟨otherKey, otherValue⟩ := other
      simp only [textFields, List.append_assoc, List.append_cancel_left_eq, List.cons_append] at same
      obtain ⟨rfl, values⟩ := lawful.string_append same
      obtain ⟨rfl, tails⟩ := each _ List.mem_cons_self (ends_textFields _) (ends_textFields _)
        (List.cons_eq_cons.mp values).2
      obtain ⟨rfl, rests⟩ := ih (fun field member => each field (List.mem_cons_of_mem _ member))
        tails
      exact ⟨rfl, rests⟩

/-- One text, followed by what may follow a value, is the text of one value only. -/
theorem Lawful.text_append (lawful : spelling.Lawful) (value : Value ν) :
    ReadsBack spelling value := by
  intro other rest otherRest ends otherEnds same
  have kinds := lawful.opening_eq same
  induction value generalizing other rest otherRest with
  | null =>
    cases other
    case null => exact ⟨rfl, List.append_cancel_left same⟩
    all_goals simp [opening] at kinds
  | bool flag =>
    cases other
    case bool otherFlag =>
      cases flag <;> cases otherFlag <;> simp_all [text]
    all_goals simp [opening] at kinds
  | number value =>
    cases other
    case number otherValue =>
      obtain ⟨rfl, rests⟩ := lawful.number_append ends otherEnds same
      exact ⟨rfl, rests⟩
    all_goals simp [opening] at kinds
  | string text =>
    cases other
    case string otherText =>
      obtain ⟨rfl, rests⟩ := lawful.string_append same
      exact ⟨rfl, rests⟩
    all_goals simp [opening] at kinds
  | array items ih =>
    cases other
    case array others =>
      simp only [text, List.cons_append, List.append_assoc, List.nil_append] at same
      obtain ⟨rfl, rests⟩ := lawful.textItems_append
        (fun item member _ _ _ ends otherEnds same =>
          ih item member ends otherEnds same (lawful.opening_eq same)) (List.cons_eq_cons.mp same).2
      exact ⟨rfl, rests⟩
    all_goals simp [opening] at kinds
  | object fields ih =>
    cases other
    case object others =>
      simp only [text, List.cons_append, List.append_assoc, List.nil_append] at same
      obtain ⟨rfl, rests⟩ := lawful.textFields_append
        (fun field member _ _ _ ends otherEnds same =>
          ih field member ends otherEnds same (lawful.opening_eq same))
        (List.cons_eq_cons.mp same).2
      exact ⟨rfl, rests⟩
    all_goals simp [opening] at kinds

/-- Two values with one text are equal. -/
theorem Lawful.text_injective (lawful : spelling.Lawful) :
    Function.Injective spelling.text := by
  intro value other same
  refine (lawful.text_append value ends_nil ends_nil ?_).1
  rw [same]

end Spelling

end Json
