import Harkness.Runtime.Approval.Record
import Harkness.ToMathlib.Hex
import Harkness.ToMathlib.JsonText
import Harkness.ToMathlib.LengthFrame
import Mathlib.Data.String.Basic

/-! # The canonical encoding of a tool input

A grant for one call is bound to the hash of the call's input, taken over one spelling of each JSON
value: no space, keys sorted by their bytes, integers in decimal, other numbers as the shortest
decimal with a point or an exponent. What is hashed is a domain constant and this text, each behind
its length. How a double is printed is left to `Doubles`.
-/

namespace Harkness.Runtime.Approval.Canonical

open Json (Value Spelling)

/-- Domain constant naming the hash and the version of its encoding. -/
def canonicalInputDomain : String := "harkness.approval.canonical-input.v1"

/-- Double-precision numbers, as far as the encoding uses them. -/
structure Doubles (φ : Type) where
  ofInteger : ℤ → φ
  isFinite : φ → Bool
  debug : φ → String

/-- What is relied on of the shortest decimal that round-trips. -/
structure Doubles.Lawful {φ : Type} (doubles : Doubles φ) : Prop where
  debug_injective : ∀ {value other}, doubles.isFinite value → doubles.isFinite other →
    doubles.debug value = doubles.debug other → value = other
  debug_numeral : ∀ {value}, doubles.isFinite value →
    ∀ character ∈ (doubles.debug value).toList, Json.isNumeral character
  debug_fraction : ∀ {value}, doubles.isFinite value →
    '.' ∈ (doubles.debug value).toList ∨ 'e' ∈ (doubles.debug value).toList

section

variable {φ : Type} (doubles : Doubles φ)

/-- A JSON number: an unsigned or a negative 64-bit integer, or a double that is always finite. -/
inductive Number where
  | posInt (value : Fin (2 ^ 64))
  | negInt (value : {value : ℤ // -2 ^ 63 ≤ value ∧ value < 0})
  | float (value : {value : φ // doubles.isFinite value})

/-- A JSON value: no object names a key twice. -/
def Input : Type := {value : Value (Number doubles) // value.UniqueKeys}

variable {doubles}

def Number.asU64 : Number doubles → Option ℕ
  | .posInt value => some value
  | _ => none

def Number.asI64 : Number doubles → Option ℤ
  | .posInt value => if value.val < 2 ^ 63 then some value.val else none
  | .negInt value => some value.val
  | .float _ => none

def Number.asF64 : Number doubles → Option φ
  | .posInt value => some (doubles.ofInteger value.val)
  | .negInt value => some (doubles.ofInteger value.val)
  | .float value => some value.val

abbrev noRepresentableValue : String := "it is a number with no representable value"

abbrev notFinite : String :=
  "it is not finite, and a non-finite number has no canonical JSON spelling"

/-- Encodes a double, or refuses one with no JSON spelling. -/
def encodeDouble (doubles : Doubles φ) (value : φ) : Option String :=
  if doubles.isFinite value then some (doubles.debug value) else none

def writeNumber (number : Number doubles) (pointer : String) : Except ApprovalError (List Char) :=
  match number.asU64 with
  | some value => .ok (toString value).toList
  | none =>
    match number.asI64 with
    | some value => .ok (toString value).toList
    | none =>
      match number.asF64 with
      | none => .error (.uncanonicalizableInput pointer noRepresentableValue)
      | some value =>
        match encodeDouble doubles value with
        | none => .error (.uncanonicalizableInput pointer notFinite)
        | some text => .ok text.toList

def writeCharacter : Char → List Char
  | '"' => ['\\', '"']
  | '\\' => ['\\', '\\']
  | '\x08' => ['\\', 'b']
  | '\x0c' => ['\\', 'f']
  | '\n' => ['\\', 'n']
  | '\r' => ['\\', 'r']
  | '\t' => ['\\', 't']
  | other => if other < '\x20' then '\\' :: 'u' :: Hex.digits 4 other.toNat else [other]

def writeString (value : String) : List Char := '"' :: value.toList.flatMap writeCharacter ++ ['"']

/-- Escapes an object key into one pointer token. -/
def escapePointerToken (key : String) : String :=
  (key.replace "~" "~0").replace "/" "~1"

def asBytes (value : String) : List UInt8 := value.toByteArray.data.toList

/-- The order of keys: that of their bytes. -/
def KeyLe (left right : String) : Prop :=
  (asBytes left).map UInt8.toNat ≤ (asBytes right).map UInt8.toNat

instance : DecidableRel KeyLe := fun left right =>
  inferInstanceAs (Decidable ((asBytes left).map UInt8.toNat ≤ (asBytes right).map UInt8.toNat))

/-- The written fields of an object, one after the other; the first refusal stands. -/
def joinFields : ℕ → List (String × Except ApprovalError (List Char)) →
    Except ApprovalError (List Char)
  | _, [] => .ok []
  | index, (key, written) :: fields => do
    let text ← written
    let rest ← joinFields (index + 1) fields
    return (if index > 0 then [','] else []) ++ writeString key ++ ':' :: text ++ rest

mutual

/-- What is pushed to the canonical text for one value found at `pointer`. -/
def writeValue : Value (Number doubles) → String → Except ApprovalError (List Char)
  | .null, _ => .ok "null".toList
  | .bool true, _ => .ok "true".toList
  | .bool false, _ => .ok "false".toList
  | .number number, pointer => writeNumber number pointer
  | .string text, _ => .ok (writeString text)
  | .array items, pointer => do
    let text ← writeItems items pointer 0
    return '[' :: text ++ [']']
  | .object fields, pointer => do
    -- the order is a property of the value and not of the map that holds it
    let written := (writeFields fields pointer).insertionSort fun left right => KeyLe left.1 right.1
    let text ← joinFields 0 written
    return '{' :: text ++ ['}']

def writeItems : List (Value (Number doubles)) → String → ℕ → Except ApprovalError (List Char)
  | [], _, _ => .ok []
  | item :: items, pointer, index => do
    let text ← writeValue item (pointer ++ "/" ++ toString index)
    let rest ← writeItems items pointer (index + 1)
    return (if index > 0 then [','] else []) ++ text ++ rest

/-- Every value of an object under its key, in the order of the fields. -/
def writeFields : List (String × Value (Number doubles)) → String →
    List (String × Except ApprovalError (List Char))
  | [], _ => []
  | (key, value) :: fields, pointer =>
    (key, writeValue value (pointer ++ "/" ++ escapePointerToken key)) :: writeFields fields pointer

end

/-- Renders a value in its canonical form. -/
def canonicalInput (input : Input doubles) : Except ApprovalError String :=
  (writeValue input.val "").map String.ofList

/-- Absorbs one length-framed component. -/
def absorb (hasher bytes : List UInt8) : List UInt8 := hasher ++ LengthFrame.frame 8 bytes

/-- The bytes that are hashed. -/
def preimage (domain canonical : String) : List UInt8 :=
  absorb (absorb [] (asBytes domain)) (asBytes canonical)

/-- Hashes a validated tool input. -/
def canonicalInputHash (sha256 : List UInt8 → InputHash) (input : Input doubles) :
    Except ApprovalError InputHash := do
  let canonical ← canonicalInput input
  return sha256 (preimage canonicalInputDomain canonical)

/-- Reads one character of a string back. -/
@[simp] def readCharacter : List Char → Option (Char × List Char)
  | '\\' :: 'b' :: rest => some ('\x08', rest)
  | '\\' :: 'f' :: rest => some ('\x0c', rest)
  | '\\' :: 'n' :: rest => some ('\n', rest)
  | '\\' :: 'r' :: rest => some ('\r', rest)
  | '\\' :: 't' :: rest => some ('\t', rest)
  | '\\' :: 'u' :: rest =>
    (Hex.readFrom 0 (rest.take 4)).map fun value => (Char.ofNat value, rest.drop 4)
  | '\\' :: other :: rest => some (other, rest)
  | '"' :: _ => none
  | other :: rest => some (other, rest)
  | [] => none

theorem readCharacter_write (character : Char) (rest : List Char) :
    readCharacter (writeCharacter character ++ rest) = some (character, rest) := by
  unfold writeCharacter
  split
  case h_8 quote backslash _ _ _ _ _ =>
    split
    case isTrue control =>
      have small : character.toNat < 16 ^ 4 := by
        have below := UInt32.lt_iff_toNat_lt.mp (Char.lt_def.mp control)
        exact below.trans (by decide)
      simp only [List.cons_append, readCharacter]
      rw [List.take_left' (Hex.length_digits 4 _), List.drop_left' (Hex.length_digits 4 _),
        Hex.read_digits small, Option.map_some, Char.ofNat_toNat]
    case isFalse =>
      simp only [List.cons_append, List.nil_append]
      rw [readCharacter]
      all_goals grind
  all_goals rfl

/-- No character of a string is written as the quote that ends it. -/
theorem writeCharacter_append_ne (character : Char) (rest other : List Char) :
    writeCharacter character ++ rest ≠ '"' :: other := by
  intro same
  have read := readCharacter_write character rest
  rw [same] at read
  exact absurd read (by simp [readCharacter])

theorem writeString_append {text other : String} {rest otherRest : List Char}
    (same : writeString text ++ rest = writeString other ++ otherRest) :
    text = other ∧ rest = otherRest := by
  simp only [writeString, List.cons_append, List.append_assoc, List.nil_append, List.cons.injEq,
    true_and] at same
  rw [← String.toList_inj]
  generalize text.toList = characters at same ⊢
  generalize other.toList = others at same ⊢
  induction characters generalizing others with
  | nil =>
    cases others with
    | nil => exact ⟨rfl, (List.cons_eq_cons.mp same).2⟩
    | cons other others =>
      rw [List.flatMap_cons, List.append_assoc] at same
      exact absurd same.symm (writeCharacter_append_ne _ _ _)
  | cons character characters ih =>
    rw [List.flatMap_cons, List.append_assoc] at same
    cases others with
    | nil => exact absurd same (writeCharacter_append_ne _ _ _)
    | cons other others =>
      rw [List.flatMap_cons, List.append_assoc] at same
      have read := congrArg readCharacter same
      rw [readCharacter_write, readCharacter_write] at read
      obtain ⟨rfl, tails⟩ := Prod.mk.inj (Option.some.inj read)
      obtain ⟨rfl, rests⟩ := ih others tails
      exact ⟨rfl, rests⟩

/-- The text of a number. -/
def numberText : Number doubles → List Char
  | .posInt value => Nat.toDigits 10 value
  | .negInt value => '-' :: Nat.toDigits 10 value.val.natAbs
  | .float value => (doubles.debug value.val).toList

private theorem toList_toString_of_neg {value : ℤ} (negative : value < 0) :
    (toString value).toList = '-' :: Nat.toDigits 10 value.natAbs := by
  obtain ⟨below, rfl⟩ := Int.eq_negSucc_of_lt_zero negative
  change ("-" ++ Nat.repr (below + 1)).toList = _
  rw [String.toList_append, Nat.toList_repr]
  rfl

theorem writeNumber_eq (number : Number doubles) (pointer : String) :
    writeNumber number pointer = .ok (numberText number) := by
  cases number with
  | posInt value => simp [writeNumber, Number.asU64, numberText]
  | negInt value =>
    simp only [writeNumber, Number.asU64, Number.asI64, numberText]
    rw [toList_toString_of_neg value.property.2]
  | float value =>
    simp [writeNumber, Number.asU64, Number.asI64, Number.asF64, encodeDouble, numberText,
      value.property]

theorem isDigit_of_mem_toDigits {value : ℕ} {character : Char}
    (member : character ∈ Nat.toDigits 10 value) : character.isDigit :=
  Nat.isDigit_of_mem_toDigits (by decide) (by decide) member

theorem toDigits_injective {value other : ℕ}
    (same : Nat.toDigits 10 value = Nat.toDigits 10 other) : value = other := by
  rw [← Nat.ofDigitChars_ten_toDigits (n := value), same, Nat.ofDigitChars_ten_toDigits]

/-- Which of the three kinds a number is, and how its text tells. -/
def Number.kind : Number doubles → ℕ
  | .posInt _ => 0
  | .negInt _ => 1
  | .float _ => 2

def kindOf (text : List Char) : ℕ :=
  if '.' ∈ text ∨ 'e' ∈ text then 2 else if '-' ∈ text then 1 else 0

theorem Doubles.Lawful.kindOf_numberText (printed : doubles.Lawful) (number : Number doubles) :
    kindOf (numberText number) = number.kind := by
  have integer : ∀ {value : ℕ} {character : Char}, ¬ character.isDigit →
      character ∉ Nat.toDigits 10 value := fun other member => other (isDigit_of_mem_toDigits member)
  cases number with
  | posInt value =>
    have fraction : ¬ ('.' ∈ Nat.toDigits 10 value ∨ 'e' ∈ Nat.toDigits 10 value) :=
      not_or.mpr ⟨integer (by decide), integer (by decide)⟩
    rw [numberText, kindOf, if_neg fraction, if_neg (integer (by decide))]
    rfl
  | negInt value =>
    have fraction : ¬ ('.' ∈ '-' :: Nat.toDigits 10 value.val.natAbs ∨
        'e' ∈ '-' :: Nat.toDigits 10 value.val.natAbs) := by
      simp only [List.mem_cons, not_or]
      exact ⟨⟨by decide, integer (by decide)⟩, by decide, integer (by decide)⟩
    rw [numberText, kindOf, if_neg fraction, if_pos List.mem_cons_self]
    rfl
  | float value =>
    rw [numberText, kindOf, if_pos (printed.debug_fraction value.property)]
    rfl

theorem Doubles.Lawful.numberText_injective (printed : doubles.Lawful) :
    Function.Injective (numberText : Number doubles → List Char) := by
  intro number other same
  have kinds : number.kind = other.kind := by
    rw [← printed.kindOf_numberText, same, printed.kindOf_numberText]
  cases number with
  | posInt value =>
    cases other
    case posInt other => rw [Fin.ext (toDigits_injective same)]
    all_goals simp [Number.kind] at kinds
  | negInt value =>
    cases other
    case negInt other =>
      have sizes := toDigits_injective (List.cons_eq_cons.mp same).2
      have values : value.val = other.val := by
        have negative := value.property.2
        have otherNegative := other.property.2
        omega
      rw [Subtype.ext values]
    all_goals simp [Number.kind] at kinds
  | float value =>
    cases other
    case float other =>
      have values := printed.debug_injective value.property other.property
        (String.toList_inj.mp same)
      rw [Subtype.ext values]
    all_goals simp [Number.kind] at kinds

/-- How the canonical text spells numbers and strings. -/
def spelling (doubles : Doubles φ) : Spelling (Number doubles) where
  number := numberText
  string := writeString

theorem Doubles.Lawful.spelling (printed : doubles.Lawful) : (spelling doubles).Lawful where
  number_ne_nil number := by
    cases number with
    | posInt value => exact Nat.toDigits_ne_nil
    | negInt value => exact List.cons_ne_nil _ _
    | float value =>
      rcases printed.debug_fraction value.property with point | exponent
      · exact List.ne_nil_of_mem point
      · exact List.ne_nil_of_mem exponent
  number_numeral number character member := by
    have digit : character.isDigit → Json.isNumeral character := by
      intro digit
      simp [Json.isNumeral, digit]
    cases number with
    | posInt value => exact digit (isDigit_of_mem_toDigits member)
    | negInt value =>
      rcases List.mem_cons.mp member with rfl | member
      · decide
      · exact digit (isDigit_of_mem_toDigits member)
    | float value => exact printed.debug_numeral value.property character member
  number_injective := printed.numberText_injective
  string_quote _ := ⟨_, rfl⟩
  string_append := writeString_append

theorem joinFields_map_ok (fields : List (String × Value (Number doubles))) (index : ℕ) :
    joinFields index
        (fields.map fun field => (field.1, Except.ok ((spelling doubles).text field.2))) =
      .ok ((spelling doubles).textFields (index = 0) fields) := by
  induction fields generalizing index with
  | nil => rfl
  | cons field fields ih =>
    simp only [List.map_cons, joinFields, ih (index + 1), Spelling.textFields, bind, Except.bind,
      pure, Except.pure]
    cases index <;> simp [Spelling.comma, spelling]

theorem writeItems_eq {items : List (Value (Number doubles))}
    (each : ∀ item ∈ items, ∀ pointer,
      writeValue item pointer = .ok ((spelling doubles).text (item.sortKeys KeyLe)))
    (pointer : String) (index : ℕ) :
    writeItems items pointer index =
      .ok ((spelling doubles).textItems (index = 0) (Value.sortItems KeyLe items)) := by
  induction items generalizing index with
  | nil => rfl
  | cons item items ih =>
    have rest := ih (fun item member => each item (List.mem_cons_of_mem _ member)) (index + 1)
    simp only [writeItems, each item List.mem_cons_self, rest, Value.sortItems, Spelling.textItems,
      bind, Except.bind, pure, Except.pure]
    cases index <;> simp [Spelling.comma]

theorem writeFields_eq {fields : List (String × Value (Number doubles))}
    (each : ∀ field ∈ fields, ∀ pointer,
      writeValue field.2 pointer = .ok ((spelling doubles).text (field.2.sortKeys KeyLe)))
    (pointer : String) :
    writeFields fields pointer = (Value.sortFields KeyLe fields).map fun field =>
      (field.1, Except.ok ((spelling doubles).text field.2)) := by
  induction fields with
  | nil => rfl
  | cons field fields ih =>
    rw [writeFields, ih fun field member => each field (List.mem_cons_of_mem _ member),
      each field List.mem_cons_self]
    rfl

theorem writeValue_eq (value : Value (Number doubles)) (pointer : String) :
    writeValue value pointer = .ok ((spelling doubles).text (value.sortKeys KeyLe)) := by
  induction value generalizing pointer with
  | null => rfl
  | bool value => cases value <;> rfl
  | number number => exact writeNumber_eq number pointer
  | string text => rfl
  | array items ih =>
    rw [writeValue, writeItems_eq ih pointer 0]
    rfl
  | object fields ih =>
    simp only [writeValue, writeFields_eq ih pointer]
    rw [← List.map_insertionSort (fun left right => KeyLe left.1 right.1) _ _ _
      fun _ _ _ _ => Iff.rfl, joinFields_map_ok]
    rfl

/-- Every input has a canonical text: no number of it can be refused. -/
theorem canonicalInput_eq (input : Input doubles) :
    canonicalInput input =
      .ok (String.ofList ((spelling doubles).text (input.val.sortKeys KeyLe))) := by
  rw [canonicalInput, writeValue_eq]
  rfl

theorem asBytes_injective : Function.Injective asBytes := by
  intro text other same
  exact String.toByteArray_inj.mp (ByteArray.ext (Array.toList_inj.mp same))

instance : Std.Total KeyLe := ⟨fun _ _ => le_total (α := List ℕ) _ _⟩

instance : IsTrans String KeyLe := ⟨fun _ _ _ first second => le_trans (α := List ℕ) first second⟩

instance : Std.Antisymm KeyLe :=
  ⟨fun _ _ below above => asBytes_injective <|
    List.map_injective_iff.mpr (fun _ _ => UInt8.toNat_inj.mp) (le_antisymm (α := List ℕ) below above)⟩

/-- The bytes hashed for a call of a tool. -/
def callPreimage (_ : ToolIdentity) (input : Input doubles) : Except ApprovalError (List UInt8) :=
  (canonicalInput input).map (preimage canonicalInputDomain)

theorem canonicalInputHash_eq (sha256 : List UInt8 → InputHash) (tool : ToolIdentity)
    (input : Input doubles) :
    canonicalInputHash sha256 input = (callPreimage tool input).map sha256 := by
  rw [canonicalInputHash, callPreimage, canonicalInput_eq]
  rfl

/-- The canonical text of an input shows the value it is of. -/
theorem Doubles.Lawful.canonicalInput_eq_iff (printed : doubles.Lawful) {input other : Input doubles} :
    canonicalInput input = canonicalInput other ↔ Value.Same input.val other.val := by
  rw [canonicalInput_eq, canonicalInput_eq, Except.ok.injEq, String.ofList_inj,
    printed.spelling.text_injective.eq_iff, Value.sortKeys_eq_iff KeyLe input.property
      other.property]

/-- The hashed bytes show the domain constant and the canonical text. -/
theorem preimage_inj {domain other canonical otherCanonical : String}
    (fits : (asBytes domain).length < 2 ^ 64) (otherFits : (asBytes other).length < 2 ^ 64) :
    preimage domain canonical = preimage other otherCanonical ↔
      domain = other ∧ canonical = otherCanonical := by
  constructor
  · intro same
    simp only [preimage, absorb, List.nil_append] at same
    obtain ⟨domains, texts⟩ := LengthFrame.frame_append_inj
      (fits.trans_le (by norm_num)) (otherFits.trans_le (by norm_num)) same
    exact ⟨asBytes_injective domains, asBytes_injective (LengthFrame.frame_inj texts)⟩
  · rintro ⟨rfl, rfl⟩
    rfl

/-- The canonical text is one spelling of a value: every input has one, two inputs have the same
bytes exactly when they are the same value up to the order of keys, and so have the bytes that are
hashed. A domain constant and a text are both read off what is hashed of them. -/
theorem canonical_encoding_injective (printed : doubles.Lawful) :
    (∀ input : Input doubles, ∃ text, canonicalInput input = .ok text) ∧
      (∀ (input other : Input doubles) (text otherText : String),
        canonicalInput input = .ok text → canonicalInput other = .ok otherText →
          (asBytes text = asBytes otherText ↔ Value.Same input.val other.val) ∧
          (preimage canonicalInputDomain text = preimage canonicalInputDomain otherText ↔
            Value.Same input.val other.val)) ∧
      ∀ domain other text otherText : String, (asBytes domain).length < 2 ^ 64 →
        (asBytes other).length < 2 ^ 64 →
          (preimage domain text = preimage other otherText ↔ domain = other ∧ text = otherText) := by
  refine ⟨fun input => ⟨_, canonicalInput_eq input⟩, ?_, fun _ _ _ _ => preimage_inj⟩
  intro input other text otherText here there
  have texts : text = otherText ↔ Value.Same input.val other.val := by
    rw [← printed.canonicalInput_eq_iff, here, there, Except.ok.injEq]
  have short : (asBytes canonicalInputDomain).length < 2 ^ 64 := by decide
  rw [asBytes_injective.eq_iff, preimage_inj short short, texts]
  exact ⟨Iff.rfl, and_iff_right rfl⟩

end

/-- Small whole doubles, as they are printed. -/
def wholeDoubles : Doubles (Fin 1000) where
  ofInteger value := Fin.ofNat 1000 value.toNat
  isFinite _ := true
  debug value := toString value.val ++ ".0"

theorem wholeDoubles_lawful : wholeDoubles.Lawful where
  debug_injective {value other} _ _ same := by
    have digits := (String.append_left_inj ".0").mp same
    have lists := congrArg String.toList digits
    exact Fin.ext (toDigits_injective (by simpa using lists))
  debug_numeral {value} _ character member := by
    have spelled : character ∈ Nat.toDigits 10 value.val ++ ['.', '0'] := by
      simpa [wholeDoubles] using member
    rcases List.mem_append.mp spelled with digit | point
    · simp [Json.isNumeral, isDigit_of_mem_toDigits digit]
    · revert point
      simp only [List.mem_cons, List.not_mem_nil, or_false]
      rintro (rfl | rfl) <;> decide
  debug_fraction {value} _ := by
    left
    simp [wholeDoubles]

/-- One object with its keys in two orders. -/
private def sampleInput : Input wholeDoubles :=
  ⟨.object [("path", .string "src/lib.rs"), ("end", .number (.float ⟨2, rfl⟩))], by
    simp [Value.UniqueKeys, Value.UniqueFields]⟩

private def reorderedInput : Input wholeDoubles :=
  ⟨.object [("end", .number (.float ⟨2, rfl⟩)), ("path", .string "src/lib.rs")], by
    simp [Value.UniqueKeys, Value.UniqueFields]⟩

theorem canonical_encoding_injective_sample :
    ∃ text otherText, canonicalInput sampleInput = .ok text ∧
      canonicalInput reorderedInput = .ok otherText ∧ asBytes text = asBytes otherText := by
  obtain ⟨total, unique, -⟩ := canonical_encoding_injective wholeDoubles_lawful
  obtain ⟨text, here⟩ := total sampleInput
  obtain ⟨otherText, there⟩ := total reorderedInput
  refine ⟨text, otherText, here, there, (unique _ _ _ _ here there).1.mpr ?_⟩
  simp [sampleInput, reorderedInput, Value.Same, Value.SameFields]

/-- What is hashed for a call does not name its tool: two tools given one input hash alike. -/
theorem preimage_names_no_tool :
    ¬ ∀ (tool other : ToolIdentity) (input otherInput : Input wholeDoubles),
      callPreimage tool input = callPreimage other otherInput →
        tool = other ∧ Value.Same input.val otherInput.val := by
  intro injective
  have same := injective ⟨"fs.read", "1.0.0"⟩ ⟨"fs.write", "1.0.0"⟩ sampleInput sampleInput rfl
  exact absurd same.1 (by decide)

end Harkness.Runtime.Approval.Canonical
