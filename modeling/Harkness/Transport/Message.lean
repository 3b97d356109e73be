import Harkness.ToMathlib.Json

/-! # The vocabulary of a correlated conversation

A message is a request, a notification or a response, in either direction. Payloads are JSON values,
read by nobody here; `ν` is the type of their numbers.
-/

namespace Harkness.Transport

open Json

/-- A request identifier. Every id this side allocates is a number. -/
inductive RequestId where
  | number (value : Int64)
  | text (value : String)
deriving DecidableEq

/-- A call that expects exactly one response. -/
structure Request (ν : Type) where
  id : RequestId
  method : String
  params : Option (Value ν)

/-- A call that expects no response. -/
structure Notification (ν : Type) where
  method : String
  params : Option (Value ν)

/-- An error a peer reported for one request. -/
structure PeerError (ν : Type) where
  code : Int64
  message : String
  data : Option (Value ν)

/-- What a peer answers: the result, or its own error. -/
abbrev Outcome (ν : Type) := Except (PeerError ν) (Value ν)

/-- The single answer to one request. -/
structure Response (ν : Type) where
  id : RequestId
  outcome : Outcome ν

inductive Message (ν : Type) where
  | request (request : Request ν)
  | notification (notification : Notification ν)
  | response (response : Response ν)

/-- A peer-initiated message, which no correlation table can answer. -/
inductive PeerMessage (ν : Type) where
  | request (request : Request ν)
  | notification (notification : Notification ν)

namespace Message

variable {ν : Type}

/-- The message as one that its peer initiated. -/
def peer? : Message ν → Option (PeerMessage ν)
  | request call => some (.request call)
  | notification call => some (.notification call)
  | response _ => none

end Message

mutual

/-- Roughly what a parsed value costs to keep. -/
def retainedBytes {ν : Type} : Value ν → ℕ
  | .null | .bool _ | .number _ => 16
  | .string text => 16 + text.utf8ByteSize
  | .array items => 16 + retainedItems items
  | .object fields => 16 + retainedFields fields

def retainedItems {ν : Type} : List (Value ν) → ℕ
  | [] => 0
  | item :: items => retainedBytes item + retainedItems items

def retainedFields {ν : Type} : List (String × Value ν) → ℕ
  | [] => 0
  | (name, value) :: fields => 16 + name.utf8ByteSize + retainedBytes value + retainedFields fields

end

/-- Roughly what holding a message costs. -/
def PeerMessage.retainedBytes {ν : Type} : PeerMessage ν → ℕ
  | request ⟨_, method, params⟩ | notification ⟨method, params⟩ =>
    method.utf8ByteSize + (params.map Transport.retainedBytes).getD 0

end Harkness.Transport
