import Harkness.Machine.Path
import Harkness.Runtime.Store.Approval
import Harkness.Runtime.Store.ArtifactStream

/-! # The artifact store

An artifact's bytes are written under a temporary name, synced, renamed and only then recorded in a row.
Every file operation and every transaction may fail, a process may end between any two steps, and a loss
of power may take what was not yet durable. A sink that is given up removes what it wrote, wherever it
is by then.
-/

namespace Harkness.Runtime.Store

open Observe

inductive Availability where
  | available
  | missing
  | sizeMismatch
deriving DecidableEq, Repr

def Availability.asStr : Availability → String
  | .available => "available"
  | .missing => "missing"
  | .sizeMismatch => "size_mismatch"

/-- What a caller says of an artifact. -/
structure ArtifactLabels where
  runId : ℕ
  stepId : Option ℕ
  toolCallId : Option ℕ
  name : String
  mediaType : String
  createdAt : Instant

/-- An artifact whose bytes are durable but whose row has not been written. -/
structure SealedArtifact where
  id : ℕ
  labels : ArtifactLabels
  byteSize : ℕ
  sha256 : String

/-- The columns of one artifact. -/
structure ArtifactRow where
  schemaVersion : ℤ
  id : String
  runId : String
  stepId : Option String
  toolCallId : Option String
  name : String
  mediaType : String
  byteSize : ℤ
  sha256 : String
  storagePath : String
  createdAt : String
  availability : String
deriving DecidableEq

/-- A recorded artifact. -/
structure ArtifactRecord where
  id : ℕ
  labels : ArtifactLabels
  byteSize : ℕ
  sha256 : String
  availability : Availability

def artifactRecord : String := "artifact"

def artifactsDirectory : String := "artifacts"

/-- The relative location an artifact's bytes are stored at. -/
def relativePath (codecs : Codecs) (runId id : ℕ) : String :=
  artifactsDirectory ++ "/" ++ codecs.formatId runId ++ "/" ++ codecs.formatId id

/-- A size as a signed 64-bit column holds it. -/
def encodeByteSize (byteSize : ℕ) : Except StoreError ℤ :=
  if byteSize < 2 ^ 63 then .ok byteSize
  else .error (.columnEncoding artifactRecord "byte_size"
    (toString byteSize ++ " is beyond the storable size range"))

/-- The row a sealed artifact is recorded in. Whether it can be inserted is the database's to say. -/
def insertArtifact (codecs : Codecs) (artifact : SealedArtifact) : Except StoreError ArtifactRow := do
  let byteSize ← encodeByteSize artifact.byteSize
  let name ← encodeText artifactRecord "name" artifact.labels.name
  let mediaType ← encodeText artifactRecord "media_type" artifact.labels.mediaType
  let createdAt ← encodeTimestamp codecs artifactRecord "created_at" artifact.labels.createdAt
  return {
    schemaVersion := Domain.runtimeRecordSchemaVersion
    id := codecs.formatId artifact.id
    runId := codecs.formatId artifact.labels.runId
    stepId := artifact.labels.stepId.map codecs.formatId
    toolCallId := artifact.labels.toolCallId.map codecs.formatId
    name
    mediaType
    byteSize
    sha256 := artifact.sha256
    storagePath := relativePath codecs artifact.labels.runId artifact.id
    createdAt
    availability := Availability.available.asStr }

/-- Failures of a read. -/
inductive ArtifactError where
  | store (error : StoreError)
  | notFound
  | forbiddenPath (id path : String)
  | io
deriving DecidableEq

/-- Refines the recorded availability against what is on disk. -/
def probe (recorded : Availability) (length : Option ℕ) (byteSize : ℕ) : Availability :=
  if recorded ≠ .available then recorded
  else
    match length with
    | some length => if length = byteSize then .available else .sizeMismatch
    | none => .missing

def decodeAvailability (stored : String) : Except StoreError Availability :=
  match [Availability.available, .missing, .sizeMismatch].find? (·.asStr = stored) with
  | some availability => .ok availability
  | none => .error (.columnEncoding artifactRecord "availability"
      (stored ++ " is not an availability this build understands"))

/-- Decodes a row. A row that names somewhere other than its own location is refused before anything else
touches the file system. -/
def artifactFromRow (codecs : Codecs) (length : ℕ → ℕ → Option ℕ) (row : ArtifactRow) :
    Except ArtifactError ArtifactRecord := do
  let idOf (field stored : String) : Except StoreError ℕ :=
    text artifactRecord field stored >>= decodeId codecs artifactRecord field
  let optionalIdOf (field : String) (stored : Option String) : Except StoreError (Option ℕ) := do
    (← optionalText artifactRecord field stored).mapM (decodeId codecs artifactRecord field)
  let _ ← (schemaVersion artifactRecord row.schemaVersion).mapError .store
  let id ← (idOf "id" row.id).mapError .store
  let runId ← (idOf "run_id" row.runId).mapError .store
  let storedPath ← (text artifactRecord "storage_path" row.storagePath).mapError .store
  if storedPath ≠ relativePath codecs runId id then
    throw (.forbiddenPath (codecs.formatId id) storedPath)
  if row.byteSize < 0 then
    throw (.store (.columnEncoding artifactRecord "byte_size"
      (toString row.byteSize ++ " is not a representable size")))
  let recorded ← (text artifactRecord "availability" row.availability >>= decodeAvailability).mapError .store
  let stepId ← (optionalIdOf "step_id" row.stepId).mapError .store
  let toolCallId ← (optionalIdOf "tool_call_id" row.toolCallId).mapError .store
  let name ← (text artifactRecord "name" row.name).mapError .store
  let mediaType ← (text artifactRecord "media_type" row.mediaType).mapError .store
  let sha256 ← (text artifactRecord "sha256" row.sha256).mapError .store
  let createdAt ← (text artifactRecord "created_at" row.createdAt >>=
    decodeTimestamp codecs artifactRecord "created_at").mapError .store
  return {
    id
    labels := { runId, stepId, toolCallId, name, mediaType, createdAt }
    byteSize := row.byteSize.toNat
    sha256
    availability := probe recorded (length runId id) row.byteSize.toNat }

/-- Where a sink's bytes are, and so what giving it up must clean up. -/
inductive Staging where
  | temporary
  | final
  /-- A sealed record owns the bytes now. -/
  | released
deriving DecidableEq, Repr

/-- How far an artifact is. -/
inductive Place where
  | unopened
  | writing
  /-- Its stream is flushed and gone; its file is synced next. -/
  | flushed
  /-- Its file is synced and closed; it is renamed next. -/
  | synced
  /-- It has its final name; the directory is synced next. -/
  | renamed
  /-- A transaction that inserts its row is next. -/
  | sealed (artifact : SealedArtifact)
  | recorded
  /-- The transaction failed; the file is removed next. -/
  | refused
  /-- The sink was given up or its seal failed; what it wrote is removed next. -/
  | dropping
  /-- Over without a row, and whether what it wrote could be removed. -/
  | over_ (removed : Bool)
  /-- Its process ended. -/
  | killed

/-- The files of one artifact, and how much of them outlives a loss of power. -/
structure Disk where
  temporary : Option (List UInt8)
  final : Option (List UInt8)
  /-- The bytes are durable. -/
  synced : Bool
  /-- The final name is durable. -/
  entered : Bool
deriving DecidableEq

/-- What a loss of power leaves of what was not durable. -/
structure Fate where
  bytes : List UInt8
  temporary : Bool
  final : Bool

def Disk.restored (disk : Disk) (fate : Fate) : Disk :=
  let bytes (old : List UInt8) := if disk.synced then old else fate.bytes
  if disk.entered then
    { disk with temporary := disk.temporary.map bytes, final := disk.final.map bytes }
  else
    match disk.temporary <|> disk.final with
    | none => disk
    | some old =>
      { disk with
        temporary := if fate.temporary then some (bytes old) else none
        final := if fate.final then some (bytes old) else none }

/-- One artifact: the sink that writes it, its files and its row. -/
structure Slot where
  labels : ArtifactLabels
  rule : Rule
  stream : Stream
  staging : Staging
  place : Place
  disk : Disk
  row : Option ArtifactRow
  /-- What its writer was told had succeeded. -/
  accepted : List Stream.Accepted
  /-- A failed write or flush has changed what the stream holds. -/
  damaged : Bool

/-- What the store redacts with. -/
structure Redactor where
  redactText : String → String
  wrapStream : Rule

/-- Whether an artifact's bytes still owe the redactor a pass. -/
inductive Redaction where
  | pending
  | applied
deriving DecidableEq, Repr

inductive SlotMove where
  /-- Opens a sink, given whether the run is stored and whether the file can be created. -/
  | openSink (labels : ArtifactLabels) (redaction : Redaction) (stored created : Bool)
  | write (buffer : List UInt8) (answers : List FileAnswer)
  | flush (answers : List FileAnswer)
  /-- The sink is dropped unfinished. -/
  | abandon
  /-- Starts to finish the sink: takes the stream, flushes and drops it. -/
  | finish (answers : List FileAnswer)
  | syncFile (done : Bool)
  | rename (done : Bool)
  | syncDirectory (done : Bool)
  | remove (done : Bool)
  | kill

namespace Slot

/-- A sink is opened on caller text that is redacted and fits its columns, for a run that is stored. -/
def openSink (redactor : Redactor) (slot : Slot) (labels : ArtifactLabels) (redaction : Redaction)
    (stored created : Bool) : Except ArtifactError Slot := do
  let labels : ArtifactLabels :=
    match redaction with
    | .pending =>
      { labels with
        name := redactor.redactText labels.name
        mediaType := redactor.redactText labels.mediaType }
    | .applied => labels
  let _ ← (encodeText artifactRecord "name" labels.name).mapError .store
  let _ ← (encodeText artifactRecord "media_type" labels.mediaType).mapError .store
  let _ ← (if stored then .ok ()
    else .error (.store (.missingParent artifactRecord (toString labels.runId) "run")))
  let _ ← (if created then .ok () else .error .io)
  return { slot with
    labels
    rule := match redaction with
      | .pending => redactor.wrapStream
      | .applied => none
    stream := Stream.create
    staging := .temporary
    place := .writing
    disk := ⟨some [], none, false, false⟩
    accepted := []
    damaged := false }

/-- The stream before an operation on it, given what becomes of the writes to its file. -/
def armed (slot : Slot) (answers : List FileAnswer) : Stream :=
  { slot.stream with sink := { slot.stream.sink with inner := { slot.stream.sink.inner with answers } } }

/-- The slot after an operation on its stream: the file is what the stream has made of it. -/
def streamed (slot : Slot) (stream : Stream) : Slot :=
  { slot with
    stream
    disk := { slot.disk with temporary := some stream.sink.inner.bytes, synced := false } }

/-- The slot after an operation that was reported to its caller. -/
def reported (slot : Slot) (accepted : Except IoError Stream.Accepted) (stream : Stream) : Slot :=
  match accepted with
  | .ok accepted => { slot.streamed stream with accepted := slot.accepted ++ [accepted] }
  | .error _ =>
    { slot.streamed stream with damaged := slot.damaged || decide (stream.held ≠ slot.stream.held) }

/-- The process no longer writes the file. -/
def closed (slot : Slot) : Slot :=
  { slot with
    stream := { slot.stream with
      sink := { slot.stream.sink with inner := { slot.stream.sink.inner with isOpen := false } } } }

/-- What a sink that is sealed hands on. -/
def sealedArtifact (sha256 : List UInt8 → BitVec 256) (id : ℕ) (slot : Slot) : SealedArtifact where
  id
  labels := slot.labels
  byteSize := slot.stream.sink.inner.byteSize
  sha256 := hashToHex (sha256 slot.stream.sink.inner.hashed)

/-- Removes what the slot owes, and is over. -/
def removed (slot : Slot) (done : Bool) : Slot :=
  let disk : Disk :=
    if done then
      match slot.staging with
      | .temporary => { slot.disk with temporary := none }
      | _ => { slot.disk with final := none }
    else slot.disk
  { slot.closed with disk, place := .over_ done }

def step (redactor : Redactor) (sha256 : List UInt8 → BitVec 256) (id : ℕ) (slot : Slot) :
    SlotMove → Option Slot
  | .openSink labels redaction stored created =>
    match slot.place, slot.openSink redactor labels redaction stored created with
    | .unopened, .ok slot => some slot
    | .unopened, .error _ => some slot
    | _, _ => none
  | .write buffer answers =>
    match slot.place, Stream.write slot.rule buffer (slot.armed answers) with
    | .writing, (result, stream) =>
      some (slot.reported (result.map fun count => .wrote (buffer.take count)) stream)
    | _, _ => none
  | .flush answers =>
    match slot.place, Stream.flush slot.rule (slot.armed answers) with
    | .writing, (result, stream) => some (slot.reported (result.map fun _ => .flushed) stream)
    | _, _ => none
  | .abandon =>
    match slot.place with
    | .writing => some { slot with place := .dropping }
    | _ => none
  | .finish answers =>
    match slot.place, Stream.flush slot.rule (slot.armed answers) with
    | .writing, (.ok _, stream) =>
      some { slot.streamed (stream.drop slot.rule) with place := .flushed }
    | .writing, (.error _, stream) =>
      some { slot.streamed (stream.drop slot.rule) with place := .dropping }
    | _, _ => none
  | .syncFile done =>
    match slot.place with
    | .flushed =>
      if done then some { slot.closed with disk := { slot.disk with synced := true }, place := .synced }
      else some { slot with place := .dropping }
    | _ => none
  | .rename done =>
    match slot.place with
    | .synced =>
      if done then
        some { slot with
          disk := { slot.disk with temporary := none, final := slot.disk.temporary, entered := false }
          staging := .final
          place := .renamed }
      else some { slot with place := .dropping }
    | _ => none
  | .syncDirectory done =>
    match slot.place with
    | .renamed =>
      if done then
        some { slot with
          disk := { slot.disk with entered := true }
          staging := .released
          place := .sealed (slot.sealedArtifact sha256 id) }
      else some { slot with place := .dropping }
    | _ => none
  | .remove done =>
    match slot.place with
    | .dropping => some (slot.removed done)
    | .refused => some (slot.removed done)
    | _ => none
  | .kill =>
    match slot.place with
    | .unopened | .recorded | .over_ _ | .killed => none
    | _ => some { slot.closed with place := .killed }

/-- The slot after its transaction, given whether the database takes it. -/
def transacted (codecs : Codecs) (granted : Bool) (slot : Slot) : Slot :=
  match slot.place with
  | .sealed artifact =>
    match granted, insertArtifact codecs artifact with
    | true, .ok row => { slot with row := some row, place := .recorded }
    | _, _ => { slot with place := .refused }
  | _ => slot

/-- Whether the slot's row can be inserted, for one that is sealed. -/
def insertable (codecs : Codecs) (slot : Slot) : Option Bool :=
  match slot.place with
  | .sealed artifact => some (insertArtifact codecs artifact).isOk
  | _ => none

/-- The slot after a loss of power. -/
def restarted (slot : Slot) (fate : Fate) : Slot :=
  match slot.place with
  | .unopened => slot
  | .recorded | .over_ _ => { slot.closed with disk := slot.disk.restored fate }
  | _ => { slot.closed with disk := slot.disk.restored fate, place := .killed }

end Slot

/-- The artifacts by their identities, each fresh when its sink is opened. -/
abbrev Shelf := ℕ → Slot

inductive ShelfMove where
  | at_ (id : ℕ) (move : SlotMove)
  /-- One transaction inserts the rows of sealed artifacts: a sink's own, or those spilled for the events
  it appends. Events that are given up before it count as refused. -/
  | transact (ids : List ℕ) (granted : Bool)
  | powerLoss (fates : ℕ → Fate)

namespace Shelf

def step (codecs : Codecs) (redactor : Redactor) (sha256 : List UInt8 → BitVec 256) (shelf : Shelf) :
    ShelfMove → Option Shelf
  | .at_ id move => (Slot.step redactor sha256 id (shelf id) move).map (Function.update shelf id)
  | .transact ids granted =>
    (ids.mapM fun id => (shelf id).insertable codecs).map fun each =>
      fun id => if id ∈ ids then (shelf id).transacted codecs (granted && each.all (·)) else shelf id
  | .powerLoss fates => some fun id => (shelf id).restarted (fates id)

/-- The file under the final name of an artifact of a run. -/
def finalAt (shelf : Shelf) (runId id : ℕ) : Option (List UInt8) :=
  if (shelf id).labels.runId = runId then (shelf id).disk.final else none

def loadArtifact (codecs : Codecs) (shelf : Shelf) (id : ℕ) : Except ArtifactError ArtifactRecord :=
  match (shelf id).row with
  | none => .error .notFound
  | some row => artifactFromRow codecs (fun runId id => (shelf.finalAt runId id).map List.length) row

/-- What a reader of an artifact's content gets to read. -/
def openArtifact (codecs : Codecs) (shelf : Shelf) (id : ℕ) : Except ArtifactError (ℕ × List UInt8) := do
  let artifact ← shelf.loadArtifact codecs id
  match shelf.finalAt artifact.labels.runId artifact.id with
  | some bytes => return (artifact.id, bytes)
  | none => throw .io

/-- No sink has been opened, and there is neither a file nor a row. -/
def Empty (shelf : Shelf) : Prop := ∀ id, (shelf id).place = .unopened ∧
  (shelf id).disk.temporary = none ∧ (shelf id).disk.final = none ∧ (shelf id).row = none

end Shelf

/-- Sinks, transactions and crashes in any order. -/
def shelving (codecs : Codecs) (redactor : Redactor) (sha256 : List UInt8 → BitVec 256) :
    Machine Shelf ShelfMove where
  Initial := Shelf.Empty
  step := Shelf.step codecs redactor sha256

/-- No sink is finished after a write or flush of it failed and changed what its stream holds: it left a
part of its bytes in the file, handed some of its lines on or gave up a line carried over. -/
def Careful (shelf : Shelf) (move : ShelfMove) : Prop :=
  ∀ id answers, move = .at_ id (.finish answers) → (shelf id).damaged = false

/-- Rows and bytes are kept together. -/
structure Shelf.Kept (codecs : Codecs) (sha256 : List UInt8 → BitVec 256) (shelf : Shelf) : Prop where
  /-- Every row names a final file that holds what its writer was told had been written. -/
  rows : ∀ id row, (shelf id).row = some row → ∃ bytes, (shelf id).disk.final = some bytes ∧
    bytes = Stream.content (shelf id).rule (shelf id).accepted ∧ row.byteSize = bytes.length ∧
      row.sha256 = hashToHex (sha256 bytes) ∧
        row.storagePath = relativePath codecs (shelf id).labels.runId id
  /-- A sink that was given up, refused or failed leaves nothing. -/
  clean : ∀ id removed, (shelf id).place = .over_ removed → (shelf id).row = none ∧
    (removed = true → (shelf id).disk.temporary = none ∧ (shelf id).disk.final = none)
  /-- Nor does a sink that could not be opened. -/
  unopened : ∀ id, (shelf id).place = .unopened → (shelf id).row = none ∧
    (shelf id).disk.temporary = none ∧ (shelf id).disk.final = none
  /-- What a reader opens is not being written. -/
  read : ∀ id file bytes, shelf.openArtifact codecs id = .ok (file, bytes) →
    (shelf file).disk.final = some bytes ∧ (shelf file).stream.sink.inner.isOpen = false
  /-- A process that ended leaves files without a row at most. -/
  killed : ∀ id, (shelf id).place = .killed → (shelf id).row = none

namespace Slot

variable {codecs : Codecs} {redactor : Redactor} {sha256 : List UInt8 → BitVec 256} {id : ℕ}
  {slot next : Slot}

/-- The content accepted, which the sink's record describes. -/
def Filled (slot : Slot) (bytes : List UInt8) : Prop :=
  bytes = Stream.content slot.rule slot.accepted ∧ slot.stream.sink.inner.hashed = bytes ∧
    slot.stream.sink.inner.byteSize = bytes.length

/-- What a sealed record says of the slot's final file. -/
def Sealed (sha256 : List UInt8 → BitVec 256) (id : ℕ) (slot : Slot) (artifact : SealedArtifact) : Prop :=
  slot.disk.synced = true ∧ slot.disk.entered = true ∧ artifact.id = id ∧ artifact.labels = slot.labels ∧
    ∃ bytes, slot.disk.final = some bytes ∧ bytes = Stream.content slot.rule slot.accepted ∧
      artifact.byteSize = bytes.length ∧ artifact.sha256 = hashToHex (sha256 bytes)

/-- What holds of a slot that is so far. -/
def Stands (codecs : Codecs) (sha256 : List UInt8 → BitVec 256) (id : ℕ) (slot : Slot) : Place → Prop
  | .unopened => slot.row = none ∧ slot.disk.temporary = none ∧ slot.disk.final = none
  | .writing => slot.row = none ∧ slot.disk.final = none ∧ slot.staging = .temporary ∧
    (slot.damaged = false → Stream.Holds slot.rule slot.stream slot.accepted)
  | .flushed => slot.row = none ∧ slot.disk.final = none ∧ slot.staging = .temporary ∧
    ∃ bytes, slot.disk.temporary = some bytes ∧ slot.Filled bytes
  | .synced => slot.row = none ∧ slot.disk.final = none ∧ slot.staging = .temporary ∧
    slot.disk.synced = true ∧ slot.stream.sink.inner.isOpen = false ∧
      ∃ bytes, slot.disk.temporary = some bytes ∧ slot.Filled bytes
  | .renamed => slot.row = none ∧ slot.disk.temporary = none ∧ slot.staging = .final ∧
    slot.disk.synced = true ∧ ∃ bytes, slot.disk.final = some bytes ∧ slot.Filled bytes
  | .sealed artifact => slot.row = none ∧ slot.disk.temporary = none ∧ slot.staging = .released ∧
    slot.Sealed sha256 id artifact
  | .recorded => ∃ artifact row, slot.row = some row ∧ insertArtifact codecs artifact = .ok row ∧
    slot.Sealed sha256 id artifact
  | .refused => slot.row = none ∧ slot.disk.temporary = none ∧ slot.staging = .released
  | .dropping => slot.row = none ∧
    (slot.staging = .temporary ∧ slot.disk.final = none ∨ slot.staging = .final ∧ slot.disk.temporary = none)
  | .over_ removed => slot.row = none ∧
    (removed = true → slot.disk.temporary = none ∧ slot.disk.final = none)
  | .killed => slot.row = none

/-- A file has its final name only once its handle is closed. -/
structure Good (codecs : Codecs) (sha256 : List UInt8 → BitVec 256) (id : ℕ) (slot : Slot) : Prop where
  shut : slot.disk.final = none ∨ slot.stream.sink.inner.isOpen = false
  stands : slot.Stands codecs sha256 id slot.place

/-- The row of a sealed artifact spells what the record says. -/
theorem insertArtifact_ok {artifact : SealedArtifact} {row : ArtifactRow}
    (inserted : insertArtifact codecs artifact = .ok row) :
    row.byteSize = artifact.byteSize ∧ row.sha256 = artifact.sha256 ∧
      row.storagePath = relativePath codecs artifact.labels.runId artifact.id := by
  unfold insertArtifact at inserted
  obtain ⟨byteSize, sized, inserted⟩ := Except.bind_eq_ok.mp inserted
  obtain ⟨name, -, inserted⟩ := Except.bind_eq_ok.mp inserted
  obtain ⟨mediaType, -, inserted⟩ := Except.bind_eq_ok.mp inserted
  obtain ⟨createdAt, -, inserted⟩ := Except.bind_eq_ok.mp inserted
  cases inserted
  unfold encodeByteSize at sized
  split_ifs at sized
  cases sized
  exact ⟨rfl, rfl, rfl⟩

theorem good_openSink {labels : ArtifactLabels} {redaction : Redaction} {stored created : Bool}
    (opened : slot.openSink redactor labels redaction stored created = .ok next) (fresh : slot.row = none) :
    next.Good codecs sha256 id := by
  unfold openSink at opened
  obtain ⟨name, -, opened⟩ := Except.bind_eq_ok.mp opened
  obtain ⟨mediaType, -, opened⟩ := Except.bind_eq_ok.mp opened
  obtain ⟨_, -, opened⟩ := Except.bind_eq_ok.mp opened
  obtain ⟨_, -, opened⟩ := Except.bind_eq_ok.mp opened
  cases opened
  exact ⟨.inl rfl, fresh, rfl, rfl, fun _ => Stream.create_holds⟩

/-- An operation on the stream leaves what a writing slot stands for, or damages it. -/
theorem good_reported {result : Except IoError Stream.Accepted} {stream : Stream}
    (answers : List FileAnswer) (good : slot.Good codecs sha256 id) (place : slot.place = .writing)
    (accepted : ∀ more, result = .ok more → ∀ before, Stream.Holds slot.rule (slot.armed answers) before →
      Stream.Holds slot.rule stream (before ++ [more]))
    (moved : LineFilter.OnSink BufWriter.Grows (slot.armed answers) stream) :
    (slot.reported result stream).Good codecs sha256 id := by
  have stands := good.stands
  rw [place] at stands
  obtain ⟨row, final, staging, holds⟩ := stands
  have holds : slot.damaged = false → Stream.Holds slot.rule (slot.armed answers) slot.accepted := holds
  cases result with
  | ok more =>
    refine ⟨.inl final, ?_⟩
    change Stands codecs sha256 id (slot.reported (.ok more) stream) slot.place
    rw [place]
    exact ⟨row, final, staging, fun sound => accepted more rfl _ (holds sound)⟩
  | error error =>
    refine ⟨.inl final, ?_⟩
    change Stands codecs sha256 id (slot.reported (.error error) stream) slot.place
    rw [place]
    refine ⟨row, final, staging, fun sound => ?_⟩
    obtain ⟨sound, same⟩ := Bool.or_eq_false_iff.mp sound
    exact Stream.holds_of_held moved (not_not.mp (of_decide_eq_false same)) (holds sound)

theorem good_seal {stream : Stream} {answers : List FileAnswer}
    (good : slot.Good codecs sha256 id) (place : slot.place = .writing) (sound : slot.damaged = false)
    (flushed : Stream.flush slot.rule (slot.armed answers) = (.ok (), stream)) :
    Good codecs sha256 id { slot.streamed (stream.drop slot.rule) with place := .flushed } := by
  have stands := good.stands
  rw [place] at stands
  obtain ⟨row, final, staging, holds⟩ := stands
  have holds : Stream.Holds slot.rule (slot.armed answers) slot.accepted := holds sound
  obtain ⟨carried, empty⟩ := Stream.flush_empties flushed holds
  obtain ⟨⟨hashed, size⟩, content⟩ := Stream.flush_content flushed holds
  rw [Stream.drop_of_empty carried empty]
  exact ⟨.inl final, row, final, staging, _, rfl, content, hashed, size⟩

/-- What a slot whose record is about its file hands on when the directory is synced. -/
theorem good_syncDirectory (good : slot.Good codecs sha256 id) (place : slot.place = .renamed) :
    Good codecs sha256 id { slot with
      disk := { slot.disk with entered := true }
      staging := .released
      place := .sealed (slot.sealedArtifact sha256 id) } := by
  have stands := good.stands
  rw [place] at stands
  obtain ⟨row, temporary, -, synced, bytes, final, content, hashed, size⟩ := stands
  exact ⟨good.shut, row, temporary, rfl, synced, rfl, rfl, rfl, bytes, final, content, size,
    congrArg (fun bytes => hashToHex (sha256 bytes)) hashed⟩

/-- A slot that is not recorded has no row. -/
theorem row_none (good : slot.Good codecs sha256 id) (other : slot.place = .recorded → False) :
    slot.row = none := by
  have stands := good.stands
  cases place : slot.place with
  | recorded => exact (other place).elim
  | killed =>
    rw [place] at stands
    exact stands
  | _ =>
    rw [place] at stands
    exact stands.1

theorem good_removed_dropping {done : Bool}
    (stands : slot.Stands codecs sha256 id .dropping) : (slot.removed done).Good codecs sha256 id := by
  obtain ⟨row, owed⟩ := stands
  refine ⟨.inr rfl, row, fun gone => ?_⟩
  cases done with
  | false => cases gone
  | true =>
    rcases owed with ⟨staging, final⟩ | ⟨staging, temporary⟩
    · simp only [removed, if_true, staging]
      exact ⟨trivial, final⟩
    · simp only [removed, if_true, staging]
      exact ⟨temporary, trivial⟩

theorem good_removed_refused {done : Bool} (stands : slot.Stands codecs sha256 id .refused) :
    (slot.removed done).Good codecs sha256 id := by
  obtain ⟨row, temporary, staging⟩ := stands
  refine ⟨.inr rfl, row, fun gone => ?_⟩
  cases done with
  | false => cases gone
  | true =>
    simp only [removed, if_true, staging]
    exact ⟨temporary, trivial⟩

theorem Good.good_step {move : SlotMove} (good : slot.Good codecs sha256 id)
    (careful : ∀ answers, move = .finish answers → slot.damaged = false)
    (step : slot.step redactor sha256 id move = some next) : next.Good codecs sha256 id := by
  have stands := good.stands
  cases move with
  | openSink labels redaction stored created =>
    simp only [Slot.step] at step
    split at step
    next place opened =>
      cases step
      rw [place] at stands
      exact good_openSink opened stands.1
    next place opened =>
      cases step
      exact good
    next => cases step
  | write buffer answers =>
    simp only [Slot.step] at step
    split at step
    next result stream place wrote =>
      cases step
      refine good_reported answers good place (fun more ok before holds => ?_) ?_
      · cases result with
        | error error => cases ok
        | ok count =>
          cases ok
          have taken : buffer.take count = buffer := Stream.write_count wrote ▸ List.take_length
          dsimp only
          rw [taken]
          exact Stream.write_accepted wrote holds
      · have moved := Stream.write_moves slot.rule buffer (slot.armed answers)
        rw [wrote] at moved
        exact moved
    next => cases step
  | flush answers =>
    simp only [Slot.step] at step
    split at step
    next result stream place flushed =>
      cases step
      refine good_reported answers good place (fun more ok before holds => ?_) ?_
      · cases result with
        | error error => cases ok
        | ok done =>
          cases ok
          exact Stream.flush_accepted flushed holds
      · have moved := Stream.flush_moves slot.rule (slot.armed answers)
        rw [flushed] at moved
        exact moved
    next => cases step
  | abandon =>
    simp only [Slot.step] at step
    split at step
    next place =>
      cases step
      rw [place] at stands
      exact ⟨good.shut, stands.1, .inl ⟨stands.2.2.1, stands.2.1⟩⟩
    next => cases step
  | finish answers =>
    simp only [Slot.step] at step
    split at step
    next stream place flushed =>
      cases step
      exact good_seal good place (careful answers rfl) flushed
    next stream place flushed =>
      cases step
      rw [place] at stands
      exact ⟨.inl stands.2.1, stands.1, .inl ⟨stands.2.2.1, stands.2.1⟩⟩
    next => cases step
  | syncFile done =>
    simp only [Slot.step] at step
    split at step
    next place =>
      rw [place] at stands
      obtain ⟨row, final, staging, filled⟩ := stands
      split_ifs at step
      · cases step
        exact ⟨.inl final, row, final, staging, rfl, rfl, filled⟩
      · cases step
        exact ⟨good.shut, row, .inl ⟨staging, final⟩⟩
    next => cases step
  | rename done =>
    simp only [Slot.step] at step
    split at step
    next place =>
      rw [place] at stands
      obtain ⟨row, final, staging, synced, shut, filled⟩ := stands
      split_ifs at step
      · cases step
        exact ⟨.inr shut, row, rfl, rfl, synced, filled⟩
      · cases step
        exact ⟨good.shut, row, .inl ⟨staging, final⟩⟩
    next => cases step
  | syncDirectory done =>
    simp only [Slot.step] at step
    split at step
    next place =>
      split_ifs at step
      · cases step
        exact good_syncDirectory good place
      · cases step
        rw [place] at stands
        exact ⟨good.shut, stands.1, .inr ⟨stands.2.2.1, stands.2.1⟩⟩
    next => cases step
  | remove done =>
    simp only [Slot.step] at step
    split at step
    next place =>
      cases step
      rw [place] at stands
      exact good_removed_dropping stands
    next place =>
      cases step
      rw [place] at stands
      exact good_removed_refused stands
    next => cases step
  | kill =>
    simp only [Slot.step] at step
    split at step
    · cases step
    · cases step
    · cases step
    · cases step
    next unopened recorded over_ killed =>
      cases step
      exact ⟨.inr rfl, show slot.row = none from row_none good recorded⟩

theorem good_transacted {granted : Bool} (good : slot.Good codecs sha256 id) :
    (slot.transacted codecs granted).Good codecs sha256 id := by
  have stands := good.stands
  unfold transacted
  split
  next artifact place =>
    rw [place] at stands
    obtain ⟨row, temporary, staging, sealed_⟩ := stands
    split
    next written inserted => exact ⟨good.shut, artifact, written, rfl, inserted, sealed_⟩
    next => exact ⟨good.shut, row, temporary, staging⟩
  next => exact good

/-- What is durable outlives a loss of power. -/
theorem restored_of_durable {disk : Disk} (synced : disk.synced = true) (entered : disk.entered = true)
    (fate : Fate) : disk.restored fate = disk := by
  obtain ⟨temporary, final, _, _⟩ := disk
  cases synced
  cases entered
  simp [Disk.restored]

theorem restored_of_none {disk : Disk} (temporary : disk.temporary = none) (final : disk.final = none)
    (fate : Fate) : disk.restored fate = disk := by
  obtain ⟨_, _, synced, entered⟩ := disk
  cases temporary
  cases final
  cases entered <;> rfl

theorem good_restarted (good : slot.Good codecs sha256 id) (fate : Fate) :
    (slot.restarted fate).Good codecs sha256 id := by
  have stands := good.stands
  unfold restarted
  split
  next => exact good
  next place =>
    rw [place] at stands
    obtain ⟨artifact, row, written, inserted, synced, entered, rest⟩ := stands
    rw [restored_of_durable synced entered]
    refine ⟨.inr rfl, ?_⟩
    change Stands codecs sha256 id _ slot.place
    rw [place]
    exact ⟨artifact, row, written, inserted, synced, entered, rest⟩
  next removed place =>
    rw [place] at stands
    refine ⟨.inr rfl, ?_⟩
    change Stands codecs sha256 id _ slot.place
    rw [place]
    refine ⟨stands.1, fun gone => ?_⟩
    obtain ⟨temporary, final⟩ := stands.2 gone
    change (slot.disk.restored fate).temporary = none ∧ (slot.disk.restored fate).final = none
    rw [restored_of_none temporary final]
    exact ⟨temporary, final⟩
  next unopened recorded over_ =>
    exact ⟨.inr rfl, show slot.row = none from row_none good recorded⟩

/-- What is asked of one artifact follows from where its slot stands. -/
theorem Good.row_kept {row : ArtifactRow} (good : slot.Good codecs sha256 id) (written : slot.row = some row) :
    ∃ bytes, slot.disk.final = some bytes ∧ bytes = Stream.content slot.rule slot.accepted ∧
      row.byteSize = bytes.length ∧ row.sha256 = hashToHex (sha256 bytes) ∧
        row.storagePath = relativePath codecs slot.labels.runId id := by
  by_cases place : slot.place = .recorded
  · have stands := good.stands
    rw [place] at stands
    obtain ⟨artifact, stored, same, inserted, -, -, rfl, labels, bytes, final, content, size, digest⟩ := stands
    obtain rfl := Option.some.inj (written.symm.trans same)
    obtain ⟨sized, hashed, path⟩ := insertArtifact_ok inserted
    exact ⟨bytes, final, content, by rw [sized, size], hashed.trans digest, by rw [path, labels]⟩
  · rw [row_none good place] at written
    cases written

end Slot

section Shelf

variable {codecs : Codecs} {redactor : Redactor} {sha256 : List UInt8 → BitVec 256} {shelf next : Shelf}

theorem good_of_empty (empty : shelf.Empty) (id : ℕ) : (shelf id).Good codecs sha256 id := by
  obtain ⟨place, temporary, final, row⟩ := empty id
  refine ⟨.inl final, ?_⟩
  rw [place]
  exact ⟨row, temporary, final⟩

theorem good_move {move : ShelfMove} (good : ∀ id, (shelf id).Good codecs sha256 id)
    (careful : Careful shelf move) (step : shelf.step codecs redactor sha256 move = some next) (id : ℕ) :
    (next id).Good codecs sha256 id := by
  cases move with
  | at_ owner move =>
    obtain ⟨slot, moved, rfl⟩ := Option.map_eq_some_iff.mp step
    by_cases same : id = owner
    · subst same
      rw [Function.update_self]
      exact (good id).good_step (fun answers ends => careful id answers (by rw [ends])) moved
    · rw [Function.update_of_ne same]
      exact good id
  | transact ids granted =>
    obtain ⟨each, -, rfl⟩ := Option.map_eq_some_iff.mp step
    dsimp only
    split_ifs
    · exact Slot.good_transacted (good id)
    · exact good id
  | powerLoss fates =>
    cases step
    exact Slot.good_restarted (good id) (fates id)

theorem kept_of_good (good : ∀ id, (shelf id).Good codecs sha256 id) : shelf.Kept codecs sha256 where
  rows id row written := (good id).row_kept written
  clean id removed place := by
    have stands := (good id).stands
    rw [place] at stands
    exact stands
  unopened id place := by
    have stands := (good id).stands
    rw [place] at stands
    exact stands
  read id file bytes opened := by
    obtain ⟨artifact, -, opened⟩ := Except.bind_eq_ok.mp opened
    split at opened
    next content found =>
      cases opened
      unfold Shelf.finalAt at found
      split_ifs at found
      refine ⟨found, (good _).shut.resolve_left fun none_ => ?_⟩
      rw [found] at none_
      cases none_
    next => cases opened
  killed id place := by
    have stands := (good id).stands
    rw [place] at stands
    exact stands

/-- In every interleaving of sinks, transactions and crashes in which no sink is finished after a failure
that changed what its stream holds, rows and bytes are kept together. -/
theorem artifacts_kept (reached : (shelving codecs redactor sha256).ReachedBy Careful shelf) :
    shelf.Kept codecs sha256 := by
  refine kept_of_good (reached.invariant (P := fun shelf => ∀ id, (shelf id).Good codecs sha256 id)
    (fun shelf empty => good_of_empty empty) ?_)
  exact fun shelf move next good careful step => good_move good careful step

def emptySlot : Slot :=
  ⟨⟨0, none, none, "", "", 0⟩, none, Stream.create, .temporary, .unopened, ⟨none, none, false, false⟩, none,
    [], false⟩

/-- An artifact of two bytes, whose first flush gets so many answers. -/
def logRun (answers : List FileAnswer) : List ShelfMove :=
  [.at_ 0 (.openSink ⟨7, none, none, "build.log", "text/plain", 0⟩ .applied true true),
    .at_ 0 (.write [97, 98] []), .at_ 0 (.flush answers), .at_ 0 (.finish []), .at_ 0 (.syncFile true),
    .at_ 0 (.rename true), .at_ 0 (.syncDirectory true), .transact [0] true]

def logShelving : Machine Shelf ShelfMove := shelving sampleCodecs ⟨id, none⟩ fun bytes => bytes.length

/-- A flush fails with one byte in the file; the buffer is written again when the sink is finished, and the
row describes two of three bytes. -/
theorem part_written_twice : ∃ shelf, logShelving.Reachable shelf ∧
    ¬ shelf.Kept sampleCodecs (fun bytes => bytes.length) := by
  have size : (logShelving.run? (fun _ => emptySlot) (logRun [.failed 1])).map (fun shelf =>
      ((shelf 0).row.map (·.byteSize), (shelf 0).disk.final)) = some (some 2, some [97, 97, 98]) := rfl
  obtain ⟨shelf, ran, shown⟩ := Option.map_eq_some_iff.mp size
  refine ⟨shelf, .of_run? (fun _ => ⟨rfl, rfl, rfl, rfl⟩) ran, fun kept => ?_⟩
  obtain ⟨row, file⟩ := Prod.mk.inj shown
  obtain ⟨row, written, two⟩ := Option.map_eq_some_iff.mp row
  obtain ⟨bytes, final, -, length, -⟩ := kept.rows 0 row written
  obtain rfl := Option.some.inj (file.symm.trans final)
  rw [two] at length
  exact absurd length (by decide)

theorem artifacts_kept_sample : ∃ shelf : Shelf,
    (shelf 0).disk.final = some [97, 98] ∧ shelf.Kept sampleCodecs (fun bytes => bytes.length) := by
  have start : logShelving.ReachedBy Careful fun _ => emptySlot := .start fun _ => ⟨rfl, rfl, rfl, rfl⟩
  have reached := start.walks (logRun [])
    ⟨_, rfl, fun _ _ => nofun, _, rfl, fun _ _ => nofun, _, rfl, fun _ _ => nofun,
      _, rfl, fun _ _ same => by cases same; rfl, _, rfl, fun _ _ => nofun, _, rfl, fun _ _ => nofun,
      _, rfl, fun _ _ => nofun, _, rfl, fun _ _ => nofun, rfl⟩
  exact ⟨_, rfl, artifacts_kept reached⟩

end Shelf

end Harkness.Runtime.Store
