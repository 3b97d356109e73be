import Harkness.Machine.Mutation
import Mathlib

/-! # Assembling a turn from its events

The events of a provider's stream are read into one assistant turn: text is appended, tool calls are
opened, extended and readied by index, usage reports are merged, and completion closes every call
still open. What a stream may accumulate is bounded, and an event that cannot be part of the turn is
refused. How JSON is read is a parameter, as another library reads it.
-/

namespace Harkness.Provider

/-- The characters of a text that fit in a number of bytes. -/
def charactersWithin : ℕ → List Char → List Char
  | _, [] => []
  | limit, character :: rest =>
    if character.utf8Size ≤ limit then
      character :: charactersWithin (limit - character.utf8Size) rest
    else []

/-- Clamps a text to a number of bytes, naming what was dropped. -/
def clamp (text : String) (limit : ℕ) : String :=
  if text.utf8ByteSize ≤ limit then text
  else
    let clamped := String.ofList (charactersWithin limit text.toList)
    clamped ++ "… (+" ++ toString (text.utf8ByteSize - clamped.utf8ByteSize) ++ " bytes)"

def maxErrorDetailBytes : ℕ := 2048

structure ErrorDetail where
  text : String
deriving DecidableEq

def ErrorDetail.new (text : String) : ErrorDetail := ⟨clamp text maxErrorDetailBytes⟩

/-- Tokens as a provider reports them. -/
structure TokenUsage where
  inputTokens : Option ℕ
  outputTokens : Option ℕ
  exact_ : Bool
deriving DecidableEq

/-- Absorbs a later report. -/
def TokenUsage.absorb (usage later : TokenUsage) : TokenUsage where
  inputTokens := later.inputTokens.or usage.inputTokens
  outputTokens := later.outputTokens.or usage.outputTokens
  exact_ := usage.exact_ && later.exact_

/-- Why a turn ended. -/
inductive StopReason where
  | endTurn
  | toolUse
  | maxOutput
  | refusal
  | abortedBySink
  | other (spelling : String)
deriving DecidableEq

/-- One event of a provider's stream. -/
inductive ModelEvent where
  | turnStarted (providerRequestId : Option String)
  | textDelta (text : String)
  | toolCallStarted (index : ℕ) (id name : Option String)
  | toolCallArgumentsDelta (index : ℕ) (fragment : String)
  | toolCallReady (index : ℕ)
  | usage (inputTokens outputTokens : Option ℕ) (exact_ : Bool)
  | turnCompleted (stop : StopReason)
deriving DecidableEq

/-- Where a tool call's identity came from. -/
inductive IdProvenance where
  | provider
  | synthesized
deriving DecidableEq

def synthesizedToolCallIdPrefix : String := "harkness-synth-"

/-- The identity of the call a provider left unnamed. -/
def synthesizedId (counter : ℕ) : String := synthesizedToolCallIdPrefix ++ toString counter

/-- Why an assembled call cannot be executed. -/
inductive ToolCallDefect where
  | unparsableArguments (detail : ErrorDetail)
  | missingName
  | truncated
deriving DecidableEq

/-- One tool call the model asked for. -/
inductive AssembledToolCall (ν : Type) where
  | ready (index : ℕ) (id : String) (idProvenance : IdProvenance) (duplicateOf : Option String)
      (name : String) (arguments : ν)
  | invalid (index : ℕ) (id : String) (idProvenance : IdProvenance) (duplicateOf : Option String)
      (name : Option String) (rawArguments : String) (defect : ToolCallDefect)
deriving DecidableEq

namespace AssembledToolCall

variable {ν : Type}

def index : AssembledToolCall ν → ℕ
  | ready index .. | invalid index .. => index

def id : AssembledToolCall ν → String
  | ready _ id .. | invalid _ id .. => id

def duplicateOf : AssembledToolCall ν → Option String
  | ready _ _ _ duplicateOf .. | invalid _ _ _ duplicateOf .. => duplicateOf

end AssembledToolCall

/-- What assembly had to work around while reading a turn. -/
structure AssemblyDiagnostics where
  ignoredAfterCompletion : ℕ
  synthesizedIds : ℕ
  duplicateIds : ℕ
deriving DecidableEq

/-- One assistant turn, its calls in index order. -/
structure AssistantTurn (ν : Type) where
  text : String
  toolCalls : List (AssembledToolCall ν)
  usage : Option TokenUsage
  stop : Option StopReason
deriving DecidableEq

/-- A completed turn and what the stream said beside it. -/
structure TurnOutcome (ν : Type) where
  turn : AssistantTurn ν
  stop : StopReason
  usage : Option TokenUsage
  providerRequestId : Option String
  eventCount : ℕ
  diagnostics : AssemblyDiagnostics
deriving DecidableEq

inductive ProviderError (ν : Type) where
  | malformedResponse (detail : ErrorDetail)
  | emptyResponse
  | disconnected (detail : ErrorDetail) (partialTurn : Option (AssistantTurn ν))
deriving DecidableEq

/-- What an assembler will hold for one turn. -/
structure AssemblyLimits where
  maxToolCallArgumentBytes : ℕ
  maxTurnTextBytes : ℕ
  maxToolCalls : ℕ

def AssemblyLimits.default : AssemblyLimits where
  maxToolCallArgumentBytes := 1024 * 1024
  maxTurnTextBytes := 8 * 1024 * 1024
  maxToolCalls := 256

/-- What the assembler did with one event. -/
inductive Absorbed where
  | recorded
  | ignoredAfterCompletion
deriving DecidableEq

/-- A tool call still accumulating. -/
structure OpenCall where
  index : ℕ
  id : String
  idProvenance : IdProvenance
  duplicateOf : Option String
  name : Option String
  rawArguments : String
deriving DecidableEq

/-- One index's state within a turn. -/
inductive CallSlot (ν : Type) where
  | opened (call : OpenCall)
  | finalized (call : AssembledToolCall ν)
deriving DecidableEq

/-- How a JSON text is read, and the empty object. -/
structure JsonReader (ν : Type) where
  fromStr : String → Except String ν
  emptyObject : ν

structure TurnAssembler (ν : Type) where
  limits : AssemblyLimits
  started : Bool
  completed : Bool
  text : String
  calls : Std.ExtTreeMap ℕ (CallSlot ν)
  seenIds : List String
  synthesized : ℕ
  usage : Option TokenUsage
  stop : Option StopReason
  providerRequestId : Option String
  diagnostics : AssemblyDiagnostics
  eventCount : ℕ

/-- One more, up to the largest 32-bit number. -/
def saturatingSucc (count : ℕ) : ℕ := min (count + 1) (2 ^ 32 - 1)

/-- The characters trimmed from either end of a text: Unicode's white space. -/
def isWhitespace (character : Char) : Bool :=
  let code := character.toNat
  (9 ≤ code && code ≤ 13) || code == 32 || code == 0x85 || code == 0xA0 || code == 0x1680 ||
    (0x2000 ≤ code && code ≤ 0x200A) || code == 0x2028 || code == 0x2029 || code == 0x202F ||
    code == 0x205F || code == 0x3000

/-- Turns one accumulated call into its record. -/
def finalize {ν : Type} (json : JsonReader ν) (call : OpenCall) (truncated : Bool) :
    AssembledToolCall ν :=
  if truncated then
    .invalid call.index call.id call.idProvenance call.duplicateOf call.name call.rawArguments
      .truncated
  else match call.name with
    | none => .invalid call.index call.id call.idProvenance call.duplicateOf none call.rawArguments
        .missingName
    | some named =>
      let parsed := if call.rawArguments.toList.all isWhitespace then .ok json.emptyObject
        else json.fromStr call.rawArguments
      match parsed with
      | .ok arguments =>
        .ready call.index call.id call.idProvenance call.duplicateOf named arguments
      | .error error => .invalid call.index call.id call.idProvenance call.duplicateOf (some named)
          call.rawArguments (.unparsableArguments (ErrorDetail.new error))

namespace TurnAssembler

variable {ν : Type} (json : JsonReader ν)

open Mutation

def new (limits : AssemblyLimits) : TurnAssembler ν where
  limits := limits
  started := false
  completed := false
  text := ""
  calls := ∅
  seenIds := []
  synthesized := 0
  usage := none
  stop := none
  providerRequestId := none
  diagnostics := ⟨0, 0, 0⟩
  eventCount := 0

def malformedResponse {α : Type} (detail : String) :
    Mutation (ProviderError ν) (TurnAssembler ν) α :=
  check (.error (.malformedResponse (ErrorDetail.new detail)))

/-- The identity of a call that starts, whose own is `id`: its provenance and, when an earlier call
presented it, that it repeats one. -/
def identify (seenIds : List String) (synthesized : ℕ) (index : ℕ) (id name : Option String) :
    OpenCall :=
  let identity := match id with
    | some id => (id, IdProvenance.provider)
    | none => (synthesizedId (saturatingSucc synthesized), IdProvenance.synthesized)
  { index
    id := identity.1
    idProvenance := identity.2
    duplicateOf := if identity.1 ∈ seenIds then some identity.1 else none
    name
    rawArguments := "" }

def startCall (index : ℕ) (id name : Option String) :
    Mutation (ProviderError ν) (TurnAssembler ν) Unit := do
  let current ← read
  if current.calls.contains index then
    malformedResponse ("the provider started a second tool call at index " ++ toString index)
  else if current.limits.maxToolCalls ≤ current.calls.size then
    malformedResponse ("the turn exceeds the " ++ toString current.limits.maxToolCalls ++
      " tool call cap")
  else
    let call := identify current.seenIds current.synthesized index id name
    update fun assembler => { assembler with
      synthesized := if id.isNone then saturatingSucc assembler.synthesized
        else assembler.synthesized
      seenIds := call.id :: assembler.seenIds
      diagnostics := { assembler.diagnostics with
        synthesizedIds := if id.isNone then saturatingSucc assembler.diagnostics.synthesizedIds
          else assembler.diagnostics.synthesizedIds
        duplicateIds := if call.duplicateOf.isSome then
          saturatingSucc assembler.diagnostics.duplicateIds
          else assembler.diagnostics.duplicateIds }
      calls := assembler.calls.insert index (.opened call) }

def extendCall (index : ℕ) (fragment : String) :
    Mutation (ProviderError ν) (TurnAssembler ν) Unit := do
  let current ← read
  let limit := current.limits.maxToolCallArgumentBytes
  match current.calls[index]? with
  | some (.opened call) =>
    if limit < call.rawArguments.utf8ByteSize + fragment.utf8ByteSize then
      malformedResponse ("tool call " ++ toString index ++ " exceeds the " ++ toString limit ++
        " byte argument cap")
    else update fun assembler => { assembler with
      calls := assembler.calls.insert index
        (.opened { call with rawArguments := call.rawArguments ++ fragment }) }
  | some (.finalized _) => malformedResponse ("the provider sent arguments for tool call " ++
      toString index ++ " after it was ready")
  | none => malformedResponse ("the provider sent arguments for tool call " ++ toString index ++
      ", which no call started")

def readyCall (index : ℕ) : Mutation (ProviderError ν) (TurnAssembler ν) Unit := do
  let current ← read
  match current.calls[index]? with
  | some (.opened call) => update fun assembler => { assembler with
      calls := (assembler.calls.erase index).insert index
        (.finalized (finalize json call false)) }
  | some (.finalized call) => do
    update fun assembler => { assembler with
      calls := (assembler.calls.erase index).insert index (.finalized call) }
    malformedResponse ("the provider readied tool call " ++ toString index ++ " twice")
  | none => malformedResponse ("the provider readied tool call " ++ toString index ++
      ", which no call started")

/-- The indices of the calls still accumulating. -/
def openIndices (calls : Std.ExtTreeMap ℕ (CallSlot ν)) : List ℕ :=
  calls.toList.filterMap fun entry => match entry.2 with
    | .opened _ => some entry.1
    | .finalized _ => none

/-- Closes one call still accumulating. -/
def finalizeCall (truncated : Bool) (calls : Std.ExtTreeMap ℕ (CallSlot ν)) (index : ℕ) :
    Std.ExtTreeMap ℕ (CallSlot ν) :=
  match calls[index]? with
  | some (.opened call) =>
    (calls.erase index).insert index (.finalized (finalize json call truncated))
  | _ => calls.erase index

/-- Closes every call still accumulating; `truncated` says whether the stream ended under them. -/
def finalizeOpenCalls (truncated : Bool) (assembler : TurnAssembler ν) : TurnAssembler ν :=
  { assembler with
    calls := (openIndices assembler.calls).foldl (finalizeCall json truncated) assembler.calls }

/-- The event's part in the turn. -/
def record (event : ModelEvent) : Mutation (ProviderError ν) (TurnAssembler ν) Unit := do
  let current ← read
  match event with
  | .turnStarted providerRequestId =>
    if current.started then malformedResponse "the provider started one turn twice"
    else update fun assembler => { assembler with started := true, providerRequestId }
  | .textDelta text =>
    if current.limits.maxTurnTextBytes < current.text.utf8ByteSize + text.utf8ByteSize then
      malformedResponse ("the turn's text exceeds the " ++
        toString current.limits.maxTurnTextBytes ++ " byte cap")
    else update fun assembler => { assembler with text := assembler.text ++ text }
  | .toolCallStarted index id name => startCall index id name
  | .toolCallArgumentsDelta index fragment => extendCall index fragment
  | .toolCallReady index => readyCall json index
  | .usage inputTokens outputTokens exact_ =>
    let reported : TokenUsage := { inputTokens, outputTokens, exact_ }
    update fun assembler => { assembler with
      usage := match assembler.usage with
        | some usage => some (usage.absorb reported)
        | none => some reported }
  | .turnCompleted stop => update fun assembler =>
    { finalizeOpenCalls json false assembler with stop := some stop, completed := true }

/-- Absorbs one event. -/
def observe (event : ModelEvent) : Mutation (ProviderError ν) (TurnAssembler ν) Absorbed := do
  update fun assembler => { assembler with eventCount := saturatingSucc assembler.eventCount }
  let current ← read
  if current.completed then do
    update fun assembler => { assembler with
      diagnostics := { assembler.diagnostics with
        ignoredAfterCompletion := saturatingSucc assembler.diagnostics.ignoredAfterCompletion } }
    return .ignoredAfterCompletion
  else do
    record json event
    return .recorded

def takeTurn (truncated : Bool) (assembler : TurnAssembler ν) : AssistantTurn ν where
  text := assembler.text
  toolCalls := (finalizeOpenCalls json truncated assembler).calls.toList.map fun entry =>
    match entry.2 with
    | .finalized call => call
    | .opened call => finalize json call truncated
  usage := assembler.usage
  stop := assembler.stop

def intoOutcome (assembler : TurnAssembler ν) (stop : StopReason) (truncated : Bool) :
    TurnOutcome ν where
  turn := takeTurn json truncated assembler
  stop := stop
  usage := assembler.usage
  providerRequestId := assembler.providerRequestId
  eventCount := assembler.eventCount
  diagnostics := assembler.diagnostics

/-- Ends the turn. -/
def finish (assembler : TurnAssembler ν) : Except (ProviderError ν) (TurnOutcome ν) :=
  if assembler.completed then
    .ok (intoOutcome json assembler (assembler.stop.getD .endTurn) false)
  else if assembler.eventCount = 0 then .error .emptyResponse
  else .error (.disconnected (ErrorDetail.new "the stream ended before the turn completed")
    (some (takeTurn json true assembler)))

/-- Ends the turn because the sink asked it to. -/
def abortBySink (assembler : TurnAssembler ν) : TurnOutcome ν :=
  intoOutcome json assembler .abortedBySink true

/-- The turn as far as it went, for attaching to a failure. -/
def intoPartial (assembler : TurnAssembler ν) : AssistantTurn ν := takeTurn json true assembler

end TurnAssembler

end Harkness.Provider
