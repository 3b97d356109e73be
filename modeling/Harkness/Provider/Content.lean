import Harkness.Provider.Assembler
import Harkness.ToMathlib.TreeMap
import Mathlib.Data.List.Induction

/-! # What a stream says

The content of a stream of events apart from its fragments and their order: the text, the calls as
they start, each call's arguments, the usage and the stop reason. `Represents` says that an assembler
holds exactly that content, and every event a well-formed stream may hold next keeps it so.
-/

namespace Harkness.Provider

/-- A tool call as it starts. -/
structure CallStart where
  index : ℕ
  id : Option String
  name : Option String
deriving DecidableEq

namespace ModelEvent

def said : ModelEvent → String
  | textDelta text => text
  | _ => ""

def fragmentAt (index : ℕ) : ModelEvent → String
  | toolCallArgumentsDelta at_ fragment => if at_ = index then fragment else ""
  | _ => ""

def begins? : ModelEvent → Option CallStart
  | toolCallStarted index id name => some { index, id, name }
  | _ => none

def readies? : ModelEvent → Option ℕ
  | toolCallReady index => some index
  | _ => none

def reports? : ModelEvent → Option TokenUsage
  | usage inputTokens outputTokens exact_ => some { inputTokens, outputTokens, exact_ }
  | _ => none

def stops? : ModelEvent → Option StopReason
  | turnCompleted stop => some stop
  | _ => none

def opens : ModelEvent → Bool
  | turnStarted _ => true
  | _ => false

end ModelEvent

/-- The events up to the one that completes the turn. -/
def heard : List ModelEvent → List ModelEvent
  | [] => []
  | event :: rest => event :: if event.stops?.isSome then [] else heard rest

/-- One usage report after those merged so far. -/
def mergeReport (usage : Option TokenUsage) (report : TokenUsage) : Option TokenUsage :=
  match usage with
  | some usage => some (usage.absorb report)
  | none => some report

section Content

variable (events : List ModelEvent)

/-- The text of a stream. -/
def spoken : String := String.join (events.map ModelEvent.said)

/-- The calls in the order they start. -/
def starts : List CallStart := events.filterMap ModelEvent.begins?

/-- All the argument fragments of one call. -/
def arguments (index : ℕ) : String := String.join (events.map (ModelEvent.fragmentAt index))

/-- The calls said to be ready. -/
def readied : List ℕ := events.filterMap ModelEvent.readies?

/-- The usage reports, merged. -/
def usage : Option TokenUsage := (events.filterMap ModelEvent.reports?).foldl mergeReport none

/-- The stop reason a stream gives. -/
def stop : Option StopReason := events.findSome? ModelEvent.stops?

end Content

/-- Two streams with the same content: they may differ in their fragments and in the order of
events of different kinds or of different calls. Where no stop reason is given, they also ready the
same calls. -/
structure SameContent (left right : List ModelEvent) : Prop where
  spoken : spoken left = spoken right
  starts : starts left = starts right
  arguments : ∀ index, arguments left index = arguments right index
  usage : usage left = usage right
  stop : stop left = stop right
  readied : Provider.stop left = none → ∀ index, index ∈ Provider.readied left ↔ index ∈ Provider.readied right

/-- The indices of the calls that start. -/
def startedIndices (events : List ModelEvent) : List ℕ := (starts events).map CallStart.index

/-- What may follow the events heard so far, within the caps. -/
def Admissible (limits : AssemblyLimits) (before : List ModelEvent) : ModelEvent → Prop
  | .turnStarted _ => before.any ModelEvent.opens = false
  | .textDelta text =>
    (spoken before).utf8ByteSize + text.utf8ByteSize ≤ limits.maxTurnTextBytes
  | .toolCallStarted index _ _ =>
    index ∉ startedIndices before ∧ (starts before).length < limits.maxToolCalls
  | .toolCallArgumentsDelta index fragment =>
    index ∈ startedIndices before ∧ index ∉ readied before ∧
      (arguments before index).utf8ByteSize + fragment.utf8ByteSize ≤
        limits.maxToolCallArgumentBytes
  | .toolCallReady index => index ∈ startedIndices before ∧ index ∉ readied before
  | .usage .. => True
  | .turnCompleted _ => True

instance (limits : AssemblyLimits) (before : List ModelEvent) (event : ModelEvent) :
    Decidable (Admissible limits before event) :=
  match event with
  | .turnStarted _ => inferInstanceAs (Decidable (before.any ModelEvent.opens = false))
  | .textDelta text => inferInstanceAs (Decidable
    ((spoken before).utf8ByteSize + text.utf8ByteSize ≤ limits.maxTurnTextBytes))
  | .toolCallStarted index _ _ => inferInstanceAs (Decidable
    (index ∉ startedIndices before ∧ (starts before).length < limits.maxToolCalls))
  | .toolCallArgumentsDelta index fragment => inferInstanceAs (Decidable
    (index ∈ startedIndices before ∧ index ∉ readied before ∧
      (arguments before index).utf8ByteSize + fragment.utf8ByteSize ≤
        limits.maxToolCallArgumentBytes))
  | .toolCallReady index => inferInstanceAs (Decidable
    (index ∈ startedIndices before ∧ index ∉ readied before))
  | .usage .. | .turnCompleted _ => .isTrue trivial

/-- Each event of a stream, up to the one that completes it, may follow those before it. -/
def WellFormedAfter (limits : AssemblyLimits) : List ModelEvent → List ModelEvent → Prop
  | _, [] => True
  | before, event :: rest => Admissible limits before event ∧
      (event.stops?.isSome ∨ WellFormedAfter limits (before ++ [event]) rest)

instance decidableWellFormedAfter (limits : AssemblyLimits) :
    ∀ before events, Decidable (WellFormedAfter limits before events)
  | _, [] => .isTrue trivial
  | before, event :: rest =>
    have := decidableWellFormedAfter limits (before ++ [event]) rest
    inferInstanceAs (Decidable (Admissible limits before event ∧
      (event.stops?.isSome ∨ WellFormedAfter limits (before ++ [event]) rest)))

/-- A stream within the caps in which each event may follow those before it. -/
def WellFormed (limits : AssemblyLimits) (events : List ModelEvent) : Prop :=
  WellFormedAfter limits [] events

instance (limits : AssemblyLimits) (events : List ModelEvent) :
    Decidable (WellFormed limits events) :=
  inferInstanceAs (Decidable (WellFormedAfter limits [] events))

/-- The identities given to the calls that started. -/
structure Register where
  seenIds : List String
  synthesized : ℕ
  opened : List OpenCall

def Register.start (known : Register) (begun : CallStart) : Register :=
  let call := TurnAssembler.identify known.seenIds known.synthesized begun.index begun.id begun.name
  { seenIds := call.id :: known.seenIds
    synthesized := if begun.id.isNone then saturatingSucc known.synthesized else known.synthesized
    opened := known.opened ++ [call] }

/-- The identities of calls that start in this order. -/
def register (starts : List CallStart) : Register := starts.foldl Register.start ⟨[], 0, []⟩

variable {begun : CallStart} {rest : List CallStart}

theorem register_concat : register (rest ++ [begun]) = (register rest).start begun := by
  rw [register, List.foldl_append]
  rfl

/-- Each call is opened at the index it starts at. -/
theorem register_indices (starts : List CallStart) :
    (register starts).opened.map OpenCall.index = starts.map CallStart.index := by
  induction starts using List.reverseRecOn with
  | nil => rfl
  | append_singleton rest begun ih =>
    rw [register_concat, List.map_append, ← ih]
    simp [Register.start, TurnAssembler.identify]

/-- The call opened at an index. -/
def openedAt (events : List ModelEvent) (index : ℕ) : Option OpenCall :=
  (register (starts events)).opened.find? fun call => call.index == index

theorem openedAt_eq_none {events : List ModelEvent} {index : ℕ} :
    openedAt events index = none ↔ index ∉ startedIndices events := by
  rw [openedAt, startedIndices, ← register_indices]
  simp

section Concat

variable {events : List ModelEvent} {event : ModelEvent}

@[simp]
theorem spoken_concat : spoken (events ++ [event]) = spoken events ++ event.said := by
  simp [spoken, String.join_append]

@[simp]
theorem arguments_concat {index : ℕ} :
    arguments (events ++ [event]) index = arguments events index ++ event.fragmentAt index := by
  simp [arguments, String.join_append]

@[simp]
theorem starts_concat : starts (events ++ [event]) = starts events ++ event.begins?.toList := by
  cases event <;> simp [starts, ModelEvent.begins?]

@[simp]
theorem readied_concat : readied (events ++ [event]) = readied events ++ event.readies?.toList := by
  cases event <;> simp [readied, ModelEvent.readies?]

@[simp]
theorem stop_concat : stop (events ++ [event]) = (stop events).or event.stops? := by
  cases event <;> simp [stop, ModelEvent.stops?]

@[simp]
theorem usage_concat : usage (events ++ [event]) =
    event.reports?.elim (usage events) (mergeReport (usage events)) := by
  rw [usage, List.filterMap_append, List.foldl_append, ← usage]
  cases event <;> rfl

theorem openedAt_concat {index : ℕ} (quiet : event.begins? = none) :
    openedAt (events ++ [event]) index = openedAt events index := by
  simp [openedAt, quiet]

end Concat

section Represents

variable {ν : Type} (json : JsonReader ν)

/-- The slot of a call whose arguments so far are these. -/
def slotOf (closed : Bool) (arguments : String) (call : OpenCall) : CallSlot ν :=
  if closed then .finalized (finalize json { call with rawArguments := arguments } false)
  else .opened { call with rawArguments := arguments }

/-- What an index holds after these events. -/
def slotAt (events : List ModelEvent) (index : ℕ) : Option (CallSlot ν) :=
  (openedAt events index).map
    (slotOf json ((stop events).isSome || decide (index ∈ readied events)) (arguments events index))

/-- The assembler holds the content of these events. -/
structure Represents (limits : AssemblyLimits) (assembler : TurnAssembler ν)
    (events : List ModelEvent) : Prop where
  limits : assembler.limits = limits
  started : assembler.started = events.any ModelEvent.opens
  completed : assembler.completed = (stop events).isSome
  text : assembler.text = spoken events
  seenIds : assembler.seenIds = (register (starts events)).seenIds
  synthesized : assembler.synthesized = (register (starts events)).synthesized
  usage : assembler.usage = usage events
  stop : assembler.stop = stop events
  size : assembler.calls.size = (starts events).length
  calls : ∀ index : ℕ, assembler.calls[index]? = slotAt json events index
  unstarted : ∀ index, index ∉ startedIndices events →
    arguments events index = "" ∧ index ∉ readied events

end Represents

end Harkness.Provider
