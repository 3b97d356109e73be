import Harkness.Runtime.Approval.Canonical
import Harkness.Transport.MessageWire
import Mathlib

/-! # What survives the way to the peer and back

A value is read back as it was unless it nests too deep, or the library itself takes one of its
numbers or objects for another. From that follows what a message decodes to: itself, but for members
that are null where absence is meant.
-/

namespace Harkness.Transport

open Json (Value)

variable {ν : Type}

theorem keys_insertField (key : String) (value : Value ν) (fields : List (String × Value ν)) :
    (insertField key value fields).map Prod.fst =
      if key ∈ fields.map Prod.fst then fields.map Prod.fst else fields.map Prod.fst ++ [key] := by
  induction fields with
  | nil => rfl
  | cons field fields ih =>
    rw [insertField]
    by_cases same : field.1 = key
    · simp [same]
    · simp only [if_neg same, List.map_cons, ih, List.mem_cons, Ne.symm same, false_or]
      split_ifs <;> rfl

theorem insertField_of_notMem {key : String} {fields : List (String × Value ν)}
    (fresh : key ∉ fields.map Prod.fst) (value : Value ν) :
    insertField key value fields = fields ++ [(key, value)] := by
  induction fields with
  | nil => rfl
  | cons field fields ih =>
    rw [List.map_cons, List.mem_cons, not_or] at fresh
    rw [insertField, if_neg (Ne.symm fresh.1), ih fresh.2, List.cons_append]

/-- A map names no key twice. -/
theorem nodup_collect (fields : List (String × Value ν)) : ((collect fields).map Prod.fst).Nodup := by
  have general : ∀ map : List (String × Value ν), (map.map Prod.fst).Nodup →
      ((fields.foldl (fun map field => insertField field.1 field.2 map) map).map Prod.fst).Nodup := by
    induction fields with
    | nil => exact fun _ unique => unique
    | cons field fields ih =>
      intro map unique
      refine ih _ ?_
      rw [keys_insertField]
      split_ifs with known
      · exact unique
      · exact unique.append (List.nodup_singleton _) (List.disjoint_singleton.mpr known)
  exact general [] List.nodup_nil

/-- Fields that name no key twice are their map. -/
theorem collect_of_nodup {fields : List (String × Value ν)} (unique : (fields.map Prod.fst).Nodup) :
    collect fields = fields := by
  have general : ∀ map : List (String × Value ν), ((map ++ fields).map Prod.fst).Nodup →
      fields.foldl (fun map field => insertField field.1 field.2 map) map = map ++ fields := by
    clear unique
    induction fields with
    | nil => exact fun map _ => (List.append_nil map).symm
    | cons field fields ih =>
      intro map unique
      have fresh : field.1 ∉ map.map Prod.fst := by
        rw [List.map_append, List.map_cons, List.nodup_append] at unique
        exact fun known => unique.2.2 _ known _ List.mem_cons_self rfl
      rw [List.append_cons] at unique ⊢
      rw [List.foldl_cons, insertField_of_notMem fresh, ih _ unique]
  exact general [] unique

namespace Library

variable (library : Library ν)

mutual

/-- The library takes no part of the value for another: it reads every number as it was, and no object
names a key twice or begins with the key of a raw value. -/
def Restored : Value ν → Prop
  | .number value => library.readNumber (library.spelling.number value) = some value
  | .array items => RestoredItems items
  | .object fields =>
    ((fields.map Prod.fst).Nodup ∧ fields.head?.map Prod.fst ≠ some rawToken) ∧ RestoredFields fields
  | _ => True

def RestoredItems : List (Value ν) → Prop
  | [] => True
  | item :: items => Restored item ∧ RestoredItems items

def RestoredFields : List (String × Value ν) → Prop
  | [] => True
  | (_, value) :: fields => Restored value ∧ RestoredFields fields

end

theorem restoredItems_iff {items : List (Value ν)} :
    library.RestoredItems items ↔ ∀ item ∈ items, library.Restored item := by
  induction items with
  | nil => simp [RestoredItems]
  | cons item items ih => rw [RestoredItems, ih, List.forall_mem_cons]

theorem restoredFields_iff {fields : List (String × Value ν)} :
    library.RestoredFields fields ↔ ∀ field ∈ fields, library.Restored field.2 := by
  induction fields with
  | nil => simp [RestoredFields]
  | cons field fields ih => rw [RestoredFields, ih, List.forall_mem_cons]

/-- What is relied on of the library: it parses what it spells, escapes control characters in strings
and keeps integers. The text of a raw value is shorter than the object that holds it. -/
structure Lawful : Prop where
  parse_text : ∀ value,
    library.parse (library.spelling.text value) = some (value.map library.spelling.number)
  number_numeral : ∀ value, ∀ character ∈ library.spelling.number value, Json.isNumeral character
  string_escaped : ∀ text, ∀ character ∈ library.spelling.string text, ' ' ≤ character
  readNumber_ofI64 : ∀ value,
    library.readNumber (library.spelling.number (library.ofI64 value)) = some (library.ofI64 value)
  asI64_ofI64 : ∀ value, library.asI64 (library.ofI64 value) = some value
  readRaw_ne : ∀ text, library.readRaw text ≠ some (.object [(rawToken, .string text)])

variable {library} {levels : ℕ}

/-- The tree of the text of a value. -/
abbrev spelled (library : Library ν) (value : Value ν) : Value (List Char) :=
  value.map library.spelling.number

theorem readItems_spelled {items : List (Value ν)} :
    library.readItems levels (Value.mapItems library.spelling.number items) = some items ↔
      ∀ item ∈ items, library.readValue levels (library.spelled item) = some item := by
  induction items with
  | nil => simp [Value.mapItems, readItems]
  | cons item items ih =>
    rw [Value.mapItems, readItems, List.forall_mem_cons, ← ih]
    simp only [Option.bind_eq_bind, Option.bind_eq_some_iff, Option.some.injEq, List.cons.injEq]
    constructor
    · rintro ⟨value, first, values, rest, rfl, rfl⟩
      exact ⟨first, rest⟩
    · rintro ⟨first, rest⟩
      exact ⟨item, first, items, rest, rfl, rfl⟩

theorem readFields_spelled {fields : List (String × Value ν)} :
    library.readFields levels (Value.mapFields library.spelling.number fields) = some fields ↔
      ∀ field ∈ fields, library.readValue levels (library.spelled field.2) = some field.2 := by
  induction fields with
  | nil => simp [Value.mapFields, readFields]
  | cons field fields ih =>
    obtain ⟨key, here⟩ := field
    rw [Value.mapFields, readFields, List.forall_mem_cons, ← ih]
    simp only [Option.bind_eq_bind, Option.bind_eq_some_iff, Option.some.injEq, List.cons.injEq,
      Prod.mk.injEq, true_and]
    constructor
    · rintro ⟨value, first, values, rest, rfl, rfl⟩
      exact ⟨first, rest⟩
    · rintro ⟨first, rest⟩
      exact ⟨here, first, fields, rest, rfl, rfl⟩

theorem keys_readFields {fields : List (String × Value (List Char))} {read : List (String × Value ν)}
    (success : library.readFields levels fields = some read) :
    read.map Prod.fst = fields.map Prod.fst := by
  induction fields generalizing read with
  | nil => rw [← Option.some.inj success]; rfl
  | cons field fields ih =>
    rw [readFields] at success
    simp only [Option.bind_eq_bind, Option.bind_eq_some_iff, Option.some.injEq] at success
    obtain ⟨value, _, values, rest, rfl⟩ := success
    rw [List.map_cons, List.map_cons, ih rest]

/-- An object that begins with the key of a raw value is not read back. -/
theorem Lawful.readRawFields_ne (lawful : library.Lawful) {fields : List (String × Value ν)}
    (raw : fields.head?.map Prod.fst = some rawToken) :
    library.readRawFields (Value.mapFields library.spelling.number fields) ≠ some (.object fields) := by
  match fields, raw with
  | [(key, .string text)], raw =>
    obtain rfl : key = rawToken := Option.some.inj raw
    exact lawful.readRaw_ne text
  | [(_, .null)], _ | [(_, .bool _)], _ | [(_, .number _)], _ | [(_, .array _)], _
  | [(_, .object _)], _ => exact fun same => nomatch same
  | (_, value) :: _ :: _, _ =>
    cases value <;> exact fun same => nomatch same

/-- A value is read back as it was exactly when it fits the levels left and is no other's text. -/
theorem Lawful.readValue_spelled (lawful : library.Lawful) (value : Value ν) :
    library.readValue levels (library.spelled value) = some value ↔
      value.nesting ≤ levels ∧ library.Restored value := by
  induction value generalizing levels with
  | null => simp [spelled, Value.map, readValue, Value.nesting, Restored]
  | bool value => simp [spelled, Value.map, readValue, Value.nesting, Restored]
  | string text => simp [spelled, Value.map, readValue, Value.nesting, Restored]
  | number value => simp [spelled, Value.map, readValue, Value.nesting, Restored]
  | array items ih =>
    cases levels with
    | zero => simp [spelled, Value.map, readValue, Value.nesting]
    | succ levels =>
      rw [spelled, Value.map, readValue, Value.nesting, Restored, Nat.add_le_add_iff_right,
        Value.nestingItems_le, restoredItems_iff, ← forall₂_and]
      simp only [Option.map_eq_some_iff, Value.array.injEq, exists_eq_right, readItems_spelled]
      exact forall₂_congr fun item among => ih item among
  | object fields ih =>
    cases levels with
    | zero => simp [spelled, Value.map, readValue, Value.nesting]
    | succ levels =>
      have head : (Value.mapFields library.spelling.number fields).head?.map Prod.fst =
          fields.head?.map Prod.fst := by
        rw [← List.head?_map, Value.keys_mapFields, List.head?_map]
      rw [spelled, Value.map, readValue, Value.nesting, Restored, Nat.add_le_add_iff_right,
        Value.nestingFields_le, restoredFields_iff, head]
      by_cases raw : fields.head?.map Prod.fst = some rawToken
      · rw [if_pos raw]
        exact ⟨fun same => absurd same (lawful.readRawFields_ne raw), fun both =>
          absurd raw both.2.1.2⟩
      · have fieldwise : (∀ field ∈ fields,
            library.readValue levels (library.spelled field.2) = some field.2) ↔
            (∀ field ∈ fields, field.2.nesting ≤ levels) ∧ ∀ field ∈ fields, library.Restored field.2 := by
          rw [← forall₂_and]
          exact forall₂_congr fun field among => ih field among
        rw [if_neg raw, Option.map_eq_some_iff]
        constructor
        · rintro ⟨read, success, same⟩
          have collected : collect read = fields := Value.object.inj same
          have unique : (fields.map Prod.fst).Nodup := collected ▸ nodup_collect read
          have keys : read.map Prod.fst = fields.map Prod.fst :=
            (keys_readFields success).trans (Value.keys_mapFields _ fields)
          rw [collect_of_nodup (keys ▸ unique)] at collected
          rw [collected, readFields_spelled, fieldwise] at success
          exact ⟨success.1, ⟨unique, raw⟩, success.2⟩
        · rintro ⟨shallow, ⟨unique, -⟩, restored⟩
          exact ⟨fields, readFields_spelled.mpr (fieldwise.mpr ⟨shallow, restored⟩),
            congrArg Value.object (collect_of_nodup unique)⟩

/-- No character of a text is a control character. -/
theorem Lawful.text_escaped (lawful : library.Lawful) (value : Value ν) :
    ∀ character ∈ library.spelling.text value, ' ' ≤ character := by
  have numeral : ∀ character, Json.isNumeral character → ' ' ≤ character := by
    intro character numeral
    simp only [Json.isNumeral, Bool.or_eq_true, beq_iff_eq, Char.isDigit, Bool.and_eq_true,
      decide_eq_true_eq] at numeral
    rcases numeral with ((⟨above, -⟩ | rfl) | rfl) | rfl
    · have below : ' '.val ≤ '0'.val := by decide
      exact UInt32.le_trans below above
    all_goals decide
  have punctuation : "nulltruefalse,:[]\x7b\x7d".toList.all (' ' ≤ ·) = true := by decide
  exact Json.Spelling.forall_mem_text
    (fun character member => of_decide_eq_true (List.all_eq_true.mp punctuation character member))
    (fun value character member => numeral character (lawful.number_numeral value character member))
    lawful.string_escaped value

/-- An optional member as it is read back. -/
def reread (library : Library ν) (levels : ℕ) : Option (Value ν) → Option (Option (Value ν))
  | none => some none
  | some value => orNull (library.readValue levels) (library.spelled value)

/-- What is read back as it was, in a place with so many levels of nesting left. -/
def Restores (library : Library ν) (levels : ℕ) (value : Value ν) : Prop :=
  value.nesting ≤ levels ∧ library.Restored value

/-- A member that is null is read as one that is absent. -/
theorem Lawful.reread_eq_iff (lawful : library.Lawful) {member : Option (Value ν)} :
    library.reread levels member = some member ↔
      member ≠ some .null ∧ ∀ value ∈ member, library.Restores levels value := by
  cases member with
  | none => simp [reread]
  | some value =>
    have present : value ≠ .null → library.reread levels (some value) =
        (library.readValue levels (library.spelled value)).map some := by
      intro filled
      cases value
      case null => exact absurd rfl filled
      all_goals rfl
    by_cases null : value = .null
    · subst null
      exact ⟨fun same => absurd same (by simp [reread, spelled, Value.map, orNull]),
        fun both => absurd rfl both.1⟩
    · have other : some value ≠ some .null := fun same => null (Option.some.inj same)
      rw [present null, Option.map_eq_some_iff]
      simp only [Option.some.injEq, exists_eq_right, lawful.readValue_spelled, Option.mem_def,
        forall_eq', ne_eq, null, not_false_eq_true, true_and, Restores]

theorem Lawful.readPeerError_spelled (lawful : library.Lawful) (levels : ℕ) (error : PeerError ν) :
    library.readPeerError (levels + 1) (library.spelled (library.ofPeerError error)) =
      (library.reread levels error.data).map fun data => ⟨error.code, error.message, data⟩ := by
  obtain ⟨code, message, data⟩ := error
  cases data <;> simp [spelled, ofPeerError, skippingNone, Value.map, Value.mapFields, readPeerError,
    members, required, defaulted, member, readString, readI64, reread, lawful.readNumber_ofI64,
    lawful.asI64_ofI64, Option.map_eq_bind]

theorem Lawful.readValue_requestId (lawful : library.Lawful) (levels : ℕ) (id : RequestId) :
    orNull (library.readValue levels) (library.spelled (library.ofRequestId id)) =
      some (some (library.ofRequestId id)) := by
  cases id <;> simp [spelled, ofRequestId, Value.map, orNull, readValue, lawful.readNumber_ofI64]

theorem Lawful.presentId_ofRequestId (lawful : library.Lawful) (id : Option RequestId) :
    library.presentId (id.map library.ofRequestId) = .ok id := by
  rcases id with _ | (value | text)
  · rfl
  · simp [presentId, ofRequestId, requestId, lawful.asI64_ofI64, Except.map]
  · rfl

theorem orNull_readString (text : String) : orNull readString (.string text) = some (some text) := rfl

/-- A call as it is read, given what its parameters are read as. -/
theorem Lawful.readWire_call (lawful : library.Lawful) (id : Option RequestId) (method : String)
    (params : Option (Value ν)) :
    library.readWire (library.spelled (library.ofWire ⟨id, some method, params, none, none⟩)) =
      (library.reread 126 params).map fun params =>
        ⟨some jsonrpcVersion, id.map library.ofRequestId, some method, params, none, none⟩ := by
  have known (id : RequestId) := lawful.readValue_requestId 126 id
  cases id <;> cases params <;>
    simp [spelled, ofWire, skippingNone, Value.map, Value.mapFields, readWire, members, recursionLimit,
      defaulted, member, orNull_readString, reread, Option.map_eq_bind, known]

/-- A successful response as it is read, given what its result is read as. -/
theorem Lawful.readWire_result (lawful : library.Lawful) (id : RequestId) (result : Value ν) :
    library.readWire (library.spelled (library.ofWire ⟨some id, none, none, some result, none⟩)) =
      (library.readValue 126 (library.spelled result)).map fun result =>
        ⟨some jsonrpcVersion, some (library.ofRequestId id), none, none, some result, none⟩ := by
  have known := lawful.readValue_requestId 126 id
  simp [spelled, ofWire, skippingNone, Value.map, Value.mapFields, readWire, members, recursionLimit,
    defaulted, member, orNull_readString, presentValue, Option.map_eq_bind, Option.bind_assoc, known]

/-- A failed response as it is read, given what the data of its error is read as. -/
theorem Lawful.readWire_error (lawful : library.Lawful) (id : RequestId) (error : PeerError ν) :
    library.readWire (library.spelled (library.ofWire ⟨some id, none, none, none, some error⟩)) =
      (library.reread 125 error.data).map fun data =>
        ⟨some jsonrpcVersion, some (library.ofRequestId id), none, none, none,
          some ⟨error.code, error.message, data⟩⟩ := by
  have known := lawful.readValue_requestId 126 id
  have failure := lawful.readPeerError_spelled 125 error
  have present : orNull (library.readPeerError 126) (library.spelled (library.ofPeerError error)) =
      (library.readPeerError 126 (library.spelled (library.ofPeerError error))).map some := rfl
  rw [failure] at present
  simp [spelled, ofWire, skippingNone, Value.map, Value.mapFields, readWire, members, recursionLimit,
    defaulted, member, orNull_readString, Option.map_eq_bind, Option.bind_assoc, known, present]

theorem Lawful.decode_text (lawful : library.Lawful) (value : Value ν) :
    library.decode (String.ofList (library.spelling.text value)) =
      match library.readWire (library.spelled value) with
      | none => .error (.desynchronized (.nonJsonLine (library.failure (library.spelling.text value))))
      | some wire => library.intoMessage wire := by
  rw [decode, String.toList_ofList, lawful.parse_text]
  rfl

/-- The encoding of the message is one line, and it decodes to the message. -/
def RoundTrips (library : Library ν) (message : Message ν) : Prop :=
  ∃ line, library.encode message = .ok line ∧ ('\n' ∉ line.toList ∧ '\r' ∉ line.toList) ∧
    library.decode line = .ok message

end Library

/-- No optional member of the message is null, and the library restores its values from their places.
-/
def Message.Restored (library : Library ν) : Message ν → Prop
  | .request ⟨_, _, params⟩ | .notification ⟨_, params⟩ =>
    params ≠ some .null ∧ ∀ value ∈ params, library.Restores 126 value
  | .response ⟨_, .ok result⟩ => library.Restores 126 result
  | .response ⟨_, .error error⟩ =>
    error.data ≠ some .null ∧ ∀ value ∈ error.data, library.Restores 125 value

namespace Library

variable {library : Library ν}

theorem Lawful.decode_encode_iff (lawful : library.Lawful) (message : Message ν) :
    library.decode (String.ofList (library.spelling.text (library.ofWire (wireOf message)))) =
      .ok message ↔ message.Restored library := by
  have known (id : RequestId) : library.presentId (some (library.ofRequestId id)) = .ok (some id) :=
    lawful.presentId_ofRequestId (some id)
  rw [lawful.decode_text]
  match message with
  | .request ⟨id, method, params⟩ =>
    rw [wireOf, lawful.readWire_call, Message.Restored, ← lawful.reread_eq_iff]
    cases library.reread 126 params with
    | none => exact ⟨fun same => (nomatch same), fun same => (nomatch same)⟩
    | some read =>
      simp [intoMessage, known id, bind, Except.bind]
  | .notification ⟨method, params⟩ =>
    rw [wireOf, lawful.readWire_call, Message.Restored, ← lawful.reread_eq_iff]
    cases library.reread 126 params with
    | none => exact ⟨fun same => (nomatch same), fun same => (nomatch same)⟩
    | some read => simp [intoMessage, presentId, bind, Except.bind]
  | .response ⟨id, .ok result⟩ =>
    rw [wireOf, lawful.readWire_result, Message.Restored, Restores, ← lawful.readValue_spelled]
    cases library.readValue 126 (library.spelled result) with
    | none => exact ⟨fun same => (nomatch same), fun same => (nomatch same)⟩
    | some read =>
      simp [intoMessage, known id, bind, Except.bind]
  | .response ⟨id, .error ⟨code, text, data⟩⟩ =>
    rw [wireOf, lawful.readWire_error, Message.Restored, ← lawful.reread_eq_iff]
    cases library.reread 125 data with
    | none => exact ⟨fun same => (nomatch same), fun same => (nomatch same)⟩
    | some read =>
      simp [intoMessage, known id, bind, Except.bind]

/-- A message comes back as it was exactly when none of its optional members is null, and its values are
ones that the library restores. -/
theorem round_trips_iff (lawful : library.Lawful) (message : Message ν) :
    library.RoundTrips message ↔ message.Restored library := by
  have plain : ∀ value : Value ν, ∀ stop < ' ',
      stop ∉ (String.ofList (library.spelling.text value)).toList := by
    intro value stop control member
    rw [String.toList_ofList] at member
    exact absurd (lawful.text_escaped value stop member) (Char.not_le.mpr control)
  rw [← lawful.decode_encode_iff, RoundTrips, encode]
  constructor
  · rintro ⟨line, same, -, decoded⟩
    rw [Except.ok.inj same]
    exact decoded
  · intro decoded
    exact ⟨_, rfl, ⟨plain _ _ (by decide), plain _ _ (by decide)⟩, decoded⟩

end Library

open Runtime.Approval.Canonical (Number wholeDoubles)

/-- The numbers and strings of the sample, as the canonical encoding spells them. -/
private abbrev sampleSpelling : Json.Spelling (Number wholeDoubles) :=
  Runtime.Approval.Canonical.spelling wholeDoubles

private theorem sampleSpelling_lawful : sampleSpelling.Lawful :=
  Runtime.Approval.Canonical.wholeDoubles_lawful.spelling

private theorem neZero_words : NeZero (2 ^ 64) := ⟨by decide⟩

private noncomputable def sampleLibrary : Library (Number wholeDoubles) where
  spelling := sampleSpelling
  parse line := (Function.partialInv sampleSpelling.text line).map fun value =>
    value.map sampleSpelling.number
  readNumber := Function.partialInv sampleSpelling.number
  readRaw _ := none
  ofI64 value :=
    if negative : value.toInt < 0 then .negInt ⟨value.toInt, Int64.le_toInt value, negative⟩
    else .posInt (@Fin.ofNat _ neZero_words value.toInt.toNat)
  asI64 number := number.asI64.map Int64.ofInt
  failure _ := "expected value"

/-- Control characters in a string are escaped. -/
private theorem sampleSpelling_escaped (text : String) :
    ∀ character ∈ sampleSpelling.string text, ' ' ≤ character := by
  intro character member
  change character ∈ '"' :: text.toList.flatMap Runtime.Approval.Canonical.writeCharacter ++ ['"'] at member
  rw [List.mem_append, List.mem_cons, List.mem_flatMap, List.mem_singleton] at member
  rcases member with (rfl | ⟨written, -, member⟩) | rfl
  · decide
  · unfold Runtime.Approval.Canonical.writeCharacter at member
    split at member
    iterate 7
      rw [List.mem_cons, List.mem_singleton] at member
      rcases member with rfl | rfl <;> decide
    split_ifs at member with control
    · rw [List.mem_cons, List.mem_cons] at member
      rcases member with rfl | rfl | digit
      · decide
      · decide
      · exact Hex.forall_mem_digits (by decide) _ _ character digit
    · rw [List.mem_singleton.mp member]
      exact Char.not_lt.mp control
  · decide

private theorem sampleLibrary_lawful : sampleLibrary.Lawful where
  parse_text value := by
    have found := Function.partialInv_left sampleSpelling_lawful.text_injective value
    simp [sampleLibrary, found]
  number_numeral := sampleSpelling_lawful.number_numeral
  string_escaped := sampleSpelling_escaped
  readNumber_ofI64 value :=
    Function.partialInv_left sampleSpelling_lawful.number_injective (sampleLibrary.ofI64 value)
  asI64_ofI64 value := by
    have above := Int64.toInt_lt value
    change (Number.asI64 (if negative : value.toInt < 0 then _ else _)).map Int64.ofInt = some value
    split_ifs with negative
    · exact congrArg some (Int64.ofInt_toInt value)
    · have size : value.toInt.toNat % 2 ^ 64 = value.toInt.toNat := by omega
      have small : value.toInt.toNat < 2 ^ 63 := by omega
      have same : (value.toInt.toNat : ℤ) = value.toInt := by omega
      rw [Number.asI64, Fin.val_ofNat, size, if_pos small, Option.map_some, same, Int64.ofInt_toInt]
  readRaw_ne _ same := nomatch same

/-- A request with parameters, and one whose parameters are null. -/
private noncomputable def sampleRequest (null : Bool) : Message (Number wholeDoubles) :=
  .request ⟨.number 1, "ping",
    some (if null then .null else .object [("v", .number (sampleLibrary.ofI64 1))])⟩

theorem round_trips_iff_sample : sampleLibrary.RoundTrips (sampleRequest false) := by
  refine (Library.round_trips_iff sampleLibrary_lawful _).mpr ⟨nofun, ?_⟩
  rintro _ ⟨⟩
  refine ⟨by decide, ⟨by decide, by decide⟩, ?_, trivial⟩
  exact sampleLibrary_lawful.readNumber_ofI64 1

/-- Null parameters do not come back. -/
theorem null_params_lost : ¬ sampleLibrary.RoundTrips (sampleRequest true) := by
  rintro ⟨line, encoded, -, decoded⟩
  rw [← Except.ok.inj encoded, sampleLibrary_lawful.decode_encode_iff] at decoded
  exact decoded.1 rfl

end Harkness.Transport
