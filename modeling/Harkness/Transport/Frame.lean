import Harkness.Machine.Mutation
import Harkness.ToMathlib.Utf8
import Harkness.Transport.Error

/-! # Newline-delimited framing

One JSON message a line, with no embedded newline. The splitter takes the peer's output in reads that
may fall anywhere and refuses a line as soon as it crosses the bound. A carriage return is held back
in case a newline follows it, so that a terminator is never charged against the bound.
-/

namespace Harkness.Transport

variable {ν : Type}

def newline : UInt8 := 10

def carriageReturn : UInt8 := 13

/-- Splits a byte stream into lines under a hard size bound. -/
structure LineSplitter where
  limit : ℕ
  pending : List UInt8
  /-- A carriage return that may be the first half of a terminator. -/
  deferredCarriageReturn : Bool
deriving DecidableEq

namespace LineSplitter

def new (limit : ℕ) : LineSplitter := ⟨limit, [], false⟩

/-- Appends `run` to the pending line, or refuses the line and keeps none of it. -/
def extend (run : List UInt8) : Mutation TransportError LineSplitter Unit := fun self =>
  if self.limit < self.pending.length + run.length then
    (.error (.messageTooLarge (self.limit + 1) self.limit), { self with pending := [] })
  else (.ok (), { self with pending := self.pending ++ run })

/-- What is held back was content after all. -/
def settle : Mutation TransportError LineSplitter Unit := fun self =>
  if self.deferredCarriageReturn then
    extend [carriageReturn] { self with deferredCarriageReturn := false }
  else (.ok (), self)

/-- Appends a run that is not empty, holding back a carriage return at its end. -/
def holdBack (run : List UInt8) : Mutation TransportError LineSplitter Unit :=
  if run.getLast? = some carriageReturn then do
    extend run.dropLast
    .update fun self => { self with deferredCarriageReturn := true }
  else extend run

def absorb (run : List UInt8) : Mutation TransportError LineSplitter Unit :=
  if run = [] then pure ()
  else do
    settle
    holdBack run

/-- Whether the stream ended part-way through a line. -/
def hasPartialLine (self : LineSplitter) : Bool :=
  self.pending ≠ [] || self.deferredCarriageReturn

end LineSplitter

/-- A splitter and the lines it has handed on. -/
structure Feeding where
  splitter : LineSplitter
  lines : List (List UInt8)
deriving DecidableEq

namespace Feeding

def onSplitter (operation : Mutation TransportError LineSplitter Unit) :
    Mutation TransportError Feeding Unit :=
  .focus Feeding.splitter (fun splitter feeding => { feeding with splitter }) operation

/-- A newline hands the pending line on, unless it is blank. -/
def endLine : Mutation TransportError Feeding Unit := .update fun feeding =>
  let pending := feeding.splitter.pending
  { splitter := { feeding.splitter with pending := [], deferredCarriageReturn := false }
    lines := if pending = [] then feeding.lines else feeding.lines ++ [pending] }

/-- Feeds what is left of a chunk, of which `run` is read and holds no newline. -/
def feedFrom (run : List UInt8) : List UInt8 → Mutation TransportError Feeding Unit
  | [] => onSplitter (LineSplitter.absorb run)
  | byte :: chunk =>
    if byte = newline then do
      onSplitter (LineSplitter.absorb run)
      endLine
      feedFrom [] chunk
    else feedFrom (run ++ [byte]) chunk

def feed (chunk : List UInt8) : Mutation TransportError Feeding Unit := feedFrom [] chunk

/-- Feeds one read after another, until one is refused. -/
def feedAll : List (List UInt8) → Mutation TransportError Feeding Unit
  | [] => pure ()
  | chunk :: chunks => do
    feed chunk
    feedAll chunks

end Feeding

/-- `str::find` of a line terminator, as a byte offset -/
def findTerminator : List Char → Option ℕ
  | [] => none
  | character :: rest =>
    if character = '\n' ∨ character = '\r' then some 0
    else (findTerminator rest).map (character.utf8Size + ·)

/-- Frames an encoding as one line. -/
def frame (encoded : String) : Except TransportError String :=
  match findTerminator encoded.toList with
  | some offset =>
    .error (.unencodableMessage ("the encoding contains a line terminator at byte " ++
      toString offset ++ ", which newline-delimited framing would deliver as two messages"))
  | none => .ok (encoded ++ "\n")

/-- What one read gives. A signal is none of the peer's doing; any other error means that its end of
the pipe is gone. -/
inductive Read where
  | data (bytes : List UInt8)
  | interrupted
  | ended

/-- The bytes of a read. -/
def Read.data? : Read → Option (List UInt8)
  | data bytes => some bytes
  | _ => none

inductive ReaderEvent (ν : Type) where
  | message (message : Message ν)
  | fault (error : TransportError)
  | closed (part : Bool)

variable (decode : List UInt8 → Except TransportError (Message ν))

/-- The events of some lines, and whether one of them was the last. -/
def decodeLines : List (List UInt8) → List (ReaderEvent ν) × Bool
  | [] => ([], false)
  | line :: lines =>
    match decode line with
    | .ok message => (.message message :: (decodeLines lines).1, (decodeLines lines).2)
    | .error fault => ([.fault fault], true)

/-- Frames the peer's standard output into messages. -/
def readMessages : List Read → LineSplitter → List (ReaderEvent ν)
  | [], _ => []
  | .ended :: _, splitter => [.closed splitter.hasPartialLine]
  | .interrupted :: reads, splitter => readMessages reads splitter
  | .data bytes :: reads, splitter =>
    let (result, feeding) := Feeding.feed bytes ⟨splitter, []⟩
    let (events, last) := decodeLines decode feeding.lines
    if last then events
    else
      match result with
      | .error fault => events ++ [.fault fault]
      | .ok () => events ++ readMessages reads feeding.splitter

end Harkness.Transport
