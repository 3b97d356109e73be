import Harkness.ToMathlib.JsonText
import Harkness.Transport.Error

/-! # Messages as lines of JSON

A message is written as one object: members it lacks are skipped on the way out and defaulted on the
way in. The JSON library spells values and parses a line to a tree whose numbers are still digits;
how a value and the two structures are read from such a tree is written out below.
-/

namespace Harkness.Transport

open Json (Value Spelling)

variable {ν α : Type}

/-- The JSON library, as far as messages are written and read with it. -/
structure Library (ν : Type) where
  spelling : Spelling ν
  /-- The one value a line spells. -/
  parse : List Char → Option (Value (List Char))
  /-- What a spelled number is read as. -/
  readNumber : List Char → Option ν
  /-- What the text of a raw value is read as. -/
  readRaw : String → Option (Value ν)
  ofI64 : Int64 → ν
  asI64 : ν → Option Int64
  /-- The text of the failure to read a line. -/
  failure : List Char → String

/-- The `jsonrpc` member every message on this transport carries. -/
def jsonrpcVersion : String := "2.0"

/-- How many arrays and objects may be open at once while a line is read. -/
def recursionLimit : ℕ := 127

/-- The key that marks an object as a raw value, when it comes first. -/
def rawToken : String := "$serde_json::private::RawValue"

/-- The serialization shape. -/
structure WireMessage (ν : Type) where
  id : Option RequestId
  method : Option String
  params : Option (Value ν)
  result : Option (Value ν)
  error : Option (PeerError ν)

/-- A member that is skipped when there is none. -/
def skippingNone (name : String) (member : Option (Value ν)) : List (String × Value ν) :=
  match member with
  | none => []
  | some value => [(name, value)]

namespace Library

variable (library : Library ν)

def ofRequestId : RequestId → Value ν
  | .number value => .number (library.ofI64 value)
  | .text value => .string value

def ofPeerError (error : PeerError ν) : Value ν :=
  .object ([("code", .number (library.ofI64 error.code)), ("message", .string error.message)] ++
    skippingNone "data" error.data)

def ofWire (wire : WireMessage ν) : Value ν :=
  .object ([("jsonrpc", .string jsonrpcVersion)] ++
    skippingNone "id" (wire.id.map library.ofRequestId) ++
    skippingNone "method" (wire.method.map .string) ++ skippingNone "params" wire.params ++
    skippingNone "result" wire.result ++ skippingNone "error" (wire.error.map library.ofPeerError))

def wireOf : Message ν → WireMessage ν
  | .request call => ⟨some call.id, some call.method, call.params, none, none⟩
  | .notification call => ⟨none, some call.method, call.params, none, none⟩
  | .response ⟨id, .ok result⟩ => ⟨some id, none, none, some result, none⟩
  | .response ⟨id, .error error⟩ => ⟨some id, none, none, none, some error⟩

/-- The encoding of a message, without a line terminator; a value has finite numbers only. -/
def encode (message : Message ν) : Except TransportError String :=
  .ok (String.ofList (library.spelling.text (library.ofWire (wireOf message))))

end Library

/-- `Map::insert`: a key stays where it came first, with the value that came last. -/
def insertField (key : String) (value : Value ν) : List (String × Value ν) → List (String × Value ν)
  | [] => [(key, value)]
  | field :: fields =>
    if field.1 = key then (key, value) :: fields else field :: insertField key value fields

/-- The map of the fields of an object. -/
def collect (fields : List (String × Value ν)) : List (String × Value ν) :=
  fields.foldl (fun map field => insertField field.1 field.2 map) []

namespace Library

variable (library : Library ν)

/-- An object that begins with the key of a raw value is one, and holds its text alone. -/
def readRawFields : List (String × Value (List Char)) → Option (Value ν)
  | [(_, .string text)] => library.readRaw text
  | _ => none

mutual

/-- Reads a value, with the levels of nesting that are left. -/
@[simp] def readValue : ℕ → Value (List Char) → Option (Value ν)
  | _, .null => some .null
  | _, .bool value => some (.bool value)
  | _, .number digits => (library.readNumber digits).map .number
  | _, .string text => some (.string text)
  | 0, .array _ => none
  | levels + 1, .array items => (readItems levels items).map .array
  | 0, .object _ => none
  | levels + 1, .object fields =>
    if fields.head?.map Prod.fst = some rawToken then library.readRawFields fields
    else (readFields levels fields).map fun fields => .object (collect fields)

@[simp] def readItems : ℕ → List (Value (List Char)) → Option (List (Value ν))
  | _, [] => some []
  | levels, item :: items => do
    let value ← readValue levels item
    let values ← readItems levels items
    some (value :: values)

@[simp] def readFields : ℕ → List (String × Value (List Char)) → Option (List (String × Value ν))
  | _, [] => some []
  | levels, (key, field) :: fields => do
    let value ← readValue levels field
    let values ← readFields levels fields
    some ((key, value) :: values)

end

def readString : Value (List Char) → Option String
  | .string text => some text
  | _ => none

def readI64 : Value (List Char) → Option Int64
  | .number digits => library.readNumber digits >>= library.asI64
  | _ => none

/-- `Option::deserialize`: null is none. -/
def orNull (read : Value (List Char) → Option α) : Value (List Char) → Option (Option α)
  | .null => some none
  | value => (read value).map some

/-- Reads a member that is present, whatever its value. -/
def presentValue (levels : ℕ) (value : Value (List Char)) : Option (Option (Value ν)) :=
  (library.readValue levels value).map some

/-- The members of a structure, which come by name or in the order of their declaration, and the
levels of nesting left in them. -/
def members (names : List String) :
    ℕ → Value (List Char) → Option (ℕ × List (String × Value (List Char)))
  | levels + 1, .object fields => some (levels, fields)
  | levels + 1, .array items =>
    if items.length ≤ names.length then some (levels, names.zip items) else none
  | _, _ => none

/-- A member that is read comes at most once. -/
def member (name : String) (fields : List (String × Value (List Char))) :
    Option (Option (Value (List Char))) :=
  match fields.filter fun field => field.1 = name with
  | [] => some none
  | [field] => some (some field.2)
  | _ => none

/-- Reads a member with a default. -/
def defaulted (name : String) (read : Value (List Char) → Option (Option α))
    (fields : List (String × Value (List Char))) : Option (Option α) := do
  match ← member name fields with
  | none => some none
  | some value => read value

/-- Reads a member without a default. -/
def required (name : String) (read : Value (List Char) → Option α)
    (fields : List (String × Value (List Char))) : Option α := do
  match ← member name fields with
  | none => none
  | some value => read value

def readPeerError (levels : ℕ) (value : Value (List Char)) : Option (PeerError ν) := do
  let (levels, fields) ← members ["code", "message", "data"] levels value
  let code ← required "code" library.readI64 fields
  let message ← required "message" readString fields
  let data ← defaulted "data" (orNull (library.readValue levels)) fields
  some ⟨code, message, data⟩

end Library

/-- The deserialization shape. -/
structure InboundWire (ν : Type) where
  jsonrpc : Option String
  id : Option (Value ν)
  method : Option String
  params : Option (Value ν)
  result : Option (Value ν)
  error : Option (PeerError ν)

namespace Library

variable (library : Library ν)

/-- Members of any other name are ignored. -/
def readWire (value : Value (List Char)) : Option (InboundWire ν) := do
  let names := ["jsonrpc", "id", "method", "params", "result", "error"]
  let (levels, fields) ← members names recursionLimit value
  let jsonrpc ← defaulted "jsonrpc" (orNull readString) fields
  let id ← defaulted "id" (orNull (library.readValue levels)) fields
  let method ← defaulted "method" (orNull readString) fields
  let params ← defaulted "params" (orNull (library.readValue levels)) fields
  let result ← defaulted "result" (library.presentValue levels) fields
  let error ← defaulted "error" (orNull (library.readPeerError levels)) fields
  some ⟨jsonrpc, id, method, params, result, error⟩

def requestId : Value ν → Except TransportError RequestId
  | .string text => .ok (.text text)
  | .number number =>
    match library.asI64 number with
    | some value => .ok (.number value)
    | none =>
      let spelled := String.ofList (library.spelling.number number)
      .error (.desynchronized (.notJsonRpc ("id " ++ spelled ++ " is not an integer")))
  | other =>
    let spelled := String.ofList (library.spelling.text other)
    .error (.desynchronized (.notJsonRpc ("id " ++ spelled ++ " is neither a string nor a number")))

/-- A null id correlates with nothing and counts as absent. -/
def presentId : Option (Value ν) → Except TransportError (Option RequestId)
  | none | some .null => .ok none
  | some value => (library.requestId value).map some

def notVersion : Option String → String
  | some version => "jsonrpc is '" ++ version ++ "', not '" ++ jsonrpcVersion ++ "'"
  | none => "the message has no jsonrpc member"

def intoMessage (wire : InboundWire ν) : Except TransportError (Message ν) :=
  if wire.jsonrpc ≠ some jsonrpcVersion then
    .error (.desynchronized (.notJsonRpc (notVersion wire.jsonrpc)))
  else do
    let id ← library.presentId wire.id
    match id, wire.method with
    | some id, some method => .ok (.request ⟨id, method, wire.params⟩)
    | none, some method => .ok (.notification ⟨method, wire.params⟩)
    | some id, none =>
      match wire.result, wire.error with
      | some result, none => .ok (.response ⟨id, .ok result⟩)
      | none, some error => .ok (.response ⟨id, .error error⟩)
      | some _, some _ =>
        .error (.desynchronized (.notJsonRpc "a response carries both result and error"))
      | none, none =>
        .error (.desynchronized (.notJsonRpc "a response carries neither result nor error"))
    | none, none =>
      .error (.desynchronized (.notJsonRpc "the message has neither a method nor an id"))

/-- Reads one message from one complete line. -/
def decode (line : String) : Except TransportError (Message ν) :=
  match library.parse line.toList >>= library.readWire with
  | none => .error (.desynchronized (.nonJsonLine (library.failure line.toList)))
  | some wire => library.intoMessage wire

end Library

end Harkness.Transport
