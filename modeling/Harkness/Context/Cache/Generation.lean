import Mathlib

/-! # Processes sharing one cache file

A cache file is an inode that the path names until it is set aside or removed. Processes open, refresh
and dispose of it in steps between which others take theirs. Each life of its contents, from a creation
or a disposal on, is counted and carries the generation it was given; searches and snapshots carry the
generation their process last saw.
-/

namespace Harkness.Context.Cache

/-- What a build expects of a cache. -/
structure Build where
  schemaVersion : ℕ
  componentVersions : String
  repositoryIdentity : String
deriving DecidableEq

/-- The `index_meta` row, and which life of the contents it belongs to. -/
structure IndexMeta where
  schemaVersion : ℕ
  componentVersions : String
  repositoryIdentity : String
  indexGeneration : ℕ
  life : ℕ
deriving DecidableEq

/-- Whether a file has become unreadable, as a whole or beyond the two oldest columns. -/
inductive Damage where
  | none
  | row
  | file
deriving DecidableEq

structure Inode where
  row : Option IndexMeta
  damage : Damage
deriving DecidableEq

/-- The columns every layout has carried, when they can be read. -/
def Inode.stamp (inode : Inode) : Option IndexMeta := if inode.damage = .file then none else inode.row

/-- The whole row, when it can be read. -/
def Inode.readMeta (inode : Inode) : Option IndexMeta := if inode.damage = .none then inode.row else none

/-- The microseconds of a clock reading in nanoseconds, where they fit. -/
def clockMicroseconds (nanoseconds : ℤ) : ℕ :=
  let microseconds := nanoseconds.tdiv 1000
  if 0 ≤ microseconds ∧ microseconds < 2 ^ 64 then microseconds.toNat else 0

/-- The generation a newly created cache takes, unless none is left. -/
def nextGeneration (previous : Option ℕ) (clock : ℤ) : Option ℕ :=
  match previous with
  | none => some (clockMicroseconds clock)
  | some previous =>
    if previous + 1 < 2 ^ 64 then some (max (clockMicroseconds clock) (previous + 1)) else none

/-- The generations a column of signed integers can hold. -/
def Representable (generation : ℕ) : Prop := generation < 2 ^ 63

instance (generation : ℕ) : Decidable (Representable generation) := inferInstanceAs (Decidable (_ < _))

inductive CursorRefusal where
  | generationChanged
  | differentWorktree
  | differentQuery
deriving DecidableEq

structure SearchCursor where
  generation : ℕ
  worktree : String
  query : String
deriving DecidableEq

def SearchCursor.admits (cursor : SearchCursor) (generation : ℕ) (worktree query : String) :
    Except CursorRefusal Unit :=
  if cursor.generation ≠ generation then .error .generationChanged
  else if cursor.worktree ≠ worktree then .error .differentWorktree
  else if cursor.query ≠ query then .error .differentQuery
  else .ok ()

/-- Which call a process is in. -/
inductive Purpose where
  | open_
  | refresh
deriving DecidableEq

/-- How far a process is in its call. -/
inductive Phase where
  | idle
  | probing (purpose : Purpose) (inode : ℕ)
  | stamped (purpose : Purpose) (inode : ℕ) (stamp : IndexMeta)
  | replacing (purpose : Purpose) (previous : Option ℕ)
  | minting (purpose : Purpose) (previous : Option ℕ)
  | creating (purpose : Purpose) (previous : Option ℕ) (clock : ℤ)
  | inserting (purpose : Purpose) (inode : ℕ) (previous : Option ℕ) (clock : ℤ)
  | readingBack (inode : ℕ)
  | adopting (purpose : Purpose) (found : IndexMeta)
  | reconciling (found : IndexMeta)
  | rereading (found : IndexMeta)
  | disposing (previous : ℕ) (clock : ℤ)
deriving DecidableEq

/-- A process: the connection it holds, whether it says that it is ready, and the row it last saw. -/
structure Process where
  build : Build
  connection : Option ℕ
  ready : Bool
  cached : Option IndexMeta
  phase : Phase
deriving DecidableEq

/-- The generation a process reports, zero when it holds no cache. -/
def Process.generation (process : Process) : ℕ :=
  if process.ready then process.cached.elim 0 (·.indexGeneration) else 0

/-- One life of the contents: the generation it was given and the inode it is in. -/
structure Life where
  generation : ℕ
  inode : ℕ
deriving DecidableEq

/-- What a search or a capture hands out, and a life of the rows it was taken from. -/
structure Token where
  cursor : SearchCursor
  life : ℕ
deriving DecidableEq

/-- A search that has read its generation, and the lives of the rows in the pages it has read. -/
structure Search where
  process : ℕ
  asked : SearchCursor
  continued : Option Token
  read : List ℕ
deriving DecidableEq

structure State where
  inodes : List Inode
  path : Option ℕ
  lives : List Life
  processes : ℕ → Process
  searches : List Search
  tokens : List Token
  accepted : List (Token × ℕ)

/-- Nothing is there and no process has opened the cache. -/
def State.start (builds : ℕ → Build) : State where
  inodes := []
  path := none
  lives := []
  processes number := ⟨builds number, none, false, none, .idle⟩
  searches := []
  tokens := []
  accepted := []

namespace State

def setProcess (state : State) (number : ℕ) (process : Process) : State :=
  { state with processes := Function.update state.processes number process }

def setInode (state : State) (number : ℕ) (inode : Inode) : State :=
  { state with inodes := state.inodes.set number inode }

/-- Opens the file at the path, making an empty one where there is none. -/
def openPath (state : State) : State × ℕ :=
  match state.path with
  | some inode => (state, inode)
  | none =>
    ({ state with inodes := state.inodes ++ [⟨none, .none⟩], path := some state.inodes.length },
      state.inodes.length)

/-- Starts a life of the contents of an inode. -/
def beginLife (state : State) (inode : ℕ) (build : Build) (generation : ℕ) : State × IndexMeta :=
  let row : IndexMeta :=
    ⟨build.schemaVersion, build.componentVersions, build.repositoryIdentity, generation, state.lives.length⟩
  ({ state.setInode inode ⟨some row, .none⟩ with lives := state.lives ++ [⟨generation, inode⟩] }, row)

/-- The file has to be set aside; a refresh closes the cache and floors itself at what it last saw. -/
def replace (state : State) (number : ℕ) (purpose : Purpose) (previous : Option ℕ) : State :=
  let process := state.processes number
  match purpose with
  | .open_ => state.setProcess number { process with phase := .replacing .open_ previous }
  | .refresh =>
    let last := process.cached.elim 0 (·.indexGeneration)
    state.setProcess number { process with
      connection := none
      ready := false
      phase := .replacing .refresh (some (max last (previous.getD 0))) }

/-- A call ends with a row that it saw. -/
def finish (state : State) (number : ℕ) (inode : ℕ) (row : IndexMeta) : State :=
  state.setProcess number { state.processes number with
    connection := some inode, ready := true, cached := some row, phase := .idle }

/-- A call ends without having done what it was asked. -/
def abandon (state : State) (number : ℕ) : State :=
  state.setProcess number { state.processes number with phase := .idle }

def goTo (state : State) (number : ℕ) (phase : Phase) : State :=
  state.setProcess number { state.processes number with phase }

/-- The version is read before the rest of the row. -/
def probe (state : State) (number : ℕ) (purpose : Purpose) (inode : ℕ) : Option State := do
  let stamp ← (← state.inodes[inode]?).stamp
  let expected := (state.processes number).build.schemaVersion
  if stamp.schemaVersion > expected then some (state.abandon number)
  else if stamp.schemaVersion < expected then
    some (state.replace number purpose (some stamp.indexGeneration))
  else some (state.goTo number (.stamped purpose inode stamp))

/-- The rest of the row decides whether the cache can be used, and a refresh whether to reopen it. -/
def address (state : State) (number : ℕ) (purpose : Purpose) (inode : ℕ) (stamp : IndexMeta) :
    Option State := do
  let process := state.processes number
  match (← state.inodes[inode]?).readMeta with
  | none => some (state.replace number purpose (some stamp.indexGeneration))
  | some found =>
    if found.repositoryIdentity ≠ process.build.repositoryIdentity then
      some (state.replace number purpose (some found.indexGeneration))
    else
      match purpose with
      | .open_ => some (state.goTo number (.adopting .open_ found))
      | .refresh =>
        if process.connection = none ∨ process.cached.map (·.indexGeneration) ≠ some found.indexGeneration then
          some (state.setProcess number { process with
            connection := none, ready := false, phase := .adopting .refresh found })
        else some (state.goTo number (.reconciling found))

/-- The transaction of a creation, which yields to a row that is already there. -/
def insert (state : State) (number : ℕ) (inode : ℕ) (previous : Option ℕ) (clock : ℤ) : Option State := do
  let file ← state.inodes[inode]?
  let generation ← nextGeneration previous clock
  if file.damage = .file ∨ ¬ Representable generation then some (state.abandon number)
  else
    match file.row with
    | some _ => some (state.goTo number (.readingBack inode))
    | none =>
      some ((state.beginLife inode (state.processes number).build generation).1.goTo number (.readingBack inode))

/-- The row that is actually there is adopted if it describes the same cache. -/
def readBack (state : State) (number : ℕ) (inode : ℕ) : Option State := do
  let build := (state.processes number).build
  match (← state.inodes[inode]?).readMeta with
  | none => some (state.abandon number)
  | some stored =>
    if stored.repositoryIdentity ≠ build.repositoryIdentity ∨ stored.schemaVersion ≠ build.schemaVersion then
      some (state.abandon number)
    else some (state.finish number inode stored)

/-- The file at the path is opened for writing, whatever it is by now. -/
def adopt (state : State) (number : ℕ) (purpose : Purpose) (found : IndexMeta) : State :=
  let (state, inode) := state.openPath
  match purpose with
  | .open_ => state.finish number inode found
  | .refresh =>
    state.setProcess number { state.processes number with
      connection := some inode, phase := .reconciling found }

/-- Skewed components are emptied and restamped through the connection. -/
def reconcile (state : State) (number : ℕ) (found : IndexMeta) : Option State := do
  let process := state.processes number
  let inode ← process.connection
  if found.componentVersions = process.build.componentVersions then
    some (state.finish number inode found)
  else
    let file ← state.inodes[inode]?
    if file.damage = .file then some (state.abandon number)
    else
      some ((state.setInode inode { file with
        row := file.row.map fun row => { row with componentVersions := process.build.componentVersions } }).goTo
          number (.rereading found))

/-- The row as it stands afterwards is what a refresh keeps. -/
def reread (state : State) (number : ℕ) (found : IndexMeta) : Option State := do
  let inode ← (state.processes number).connection
  let file ← state.inodes[inode]?
  if file.damage ≠ .none then some (state.abandon number)
  else some (state.finish number inode (file.row.getD found))

/-- A disposal opens the cache where it is closed, and empties it in place. -/
def empty (state : State) (number : ℕ) (previous : ℕ) (clock : ℤ) : Option State :=
  let process := state.processes number
  match process.connection with
  | none =>
    let (opened, inode) := state.openPath
    some (opened.setProcess number { process with connection := some inode })
  | some inode => do
    let file ← state.inodes[inode]?
    let generation ← nextGeneration (some previous) clock
    if file.damage = .file ∨ ¬ Representable generation then some (state.abandon number)
    else
      let (emptied, row) := state.beginLife inode process.build generation
      some (emptied.finish number inode row)

end State

inductive Step where
  | begin_ (process : ℕ) (purpose : Purpose)
  | dispose (process : ℕ) (clock : ℤ)
  | advance (process : ℕ) (clock : ℤ)
  | giveUp (process : ℕ)
  | fail (process : ℕ)
  | damage (inode : ℕ) (damage : Damage)
  | unlink
  | search (process : ℕ) (worktree query : String) (cursor : Option ℕ)
  | read (search : ℕ)
  | answer (search : ℕ)
  | capture (process : ℕ)
  | verify (process : ℕ) (snapshot : ℕ)

namespace State

/-- The next step of the call a process is in. -/
def advance (state : State) (number : ℕ) (clock : ℤ) : Option State :=
  match (state.processes number).phase with
  | .idle => none
  | .probing purpose inode => state.probe number purpose inode
  | .stamped purpose inode stamp => state.address number purpose inode stamp
  | .replacing purpose previous => some ({ state with path := none }.goTo number (.minting purpose previous))
  | .minting purpose previous =>
    match nextGeneration previous clock with
    | none => some (state.abandon number)
    | some _ => some (state.goTo number (.creating purpose previous clock))
  | .creating purpose previous clock =>
    let (opened, inode) := state.openPath
    some (opened.goTo number (.inserting purpose inode previous clock))
  | .inserting _ inode previous clock => state.insert number inode previous clock
  | .readingBack inode => state.readBack number inode
  | .adopting purpose found => some (state.adopt number purpose found)
  | .reconciling found => state.reconcile number found
  | .rereading found => state.reread number found
  | .disposing previous clock => state.empty number previous clock

/-- A call begins by looking whether the file is there. -/
def begin_ (state : State) (number : ℕ) (purpose : Purpose) : Option State :=
  let process := state.processes number
  if process.phase ≠ .idle ∨ (purpose = .open_ ↔ process.cached ≠ none) then none
  else
    match state.path, purpose with
    | some inode, purpose => some (state.goTo number (.probing purpose inode))
    | none, .open_ => some (state.goTo number (.minting .open_ none))
    | none, .refresh => some (state.replace number .refresh none)

/-- A disposal takes its generation above the one its process last saw. -/
def dispose (state : State) (number : ℕ) (clock : ℤ) : Option State :=
  let process := state.processes number
  match process.phase, process.cached with
  | .idle, some last =>
    match nextGeneration (some last.indexGeneration) clock with
    | none => some state
    | some _ => some (state.goTo number (.disposing last.indexGeneration clock))
  | _, _ => none

/-- The life of the rows a process reads. -/
def rows (state : State) (number : ℕ) : Option IndexMeta := do
  let inode ← (state.processes number).connection
  (← state.inodes[inode]?).stamp

def step (state : State) : Step → Option State
  | .begin_ number purpose => state.begin_ number purpose
  | .dispose number clock => state.dispose number clock
  | .advance number clock => state.advance number clock
  | .giveUp number =>
    match (state.processes number).phase with
    | .probing purpose inode => do
      match (← state.inodes[inode]?).stamp with
      | none => some (state.replace number purpose none)
      | some _ => none
    | _ => none
  | .fail number => some (state.abandon number)
  | .damage inode damage => do
    let file ← state.inodes[inode]?
    some (state.setInode inode { file with damage })
  | .unlink => some { state with path := none }
  | .search number worktree query cursor =>
    let asked : SearchCursor := ⟨(state.processes number).generation, worktree, query⟩
    match cursor with
    | none => some { state with searches := state.searches ++ [⟨number, asked, none, []⟩] }
    | some index => do
      let token ← state.tokens[index]?
      match token.cursor.admits asked.generation worktree query with
      | .error _ => none
      | .ok () => some { state with searches := state.searches ++ [⟨number, asked, some token, []⟩] }
  | .read index => do
    let search ← state.searches[index]?
    let row ← state.rows search.process
    some { state with searches := state.searches.set index { search with read := search.read ++ [row.life] } }
  | .answer index => do
    let search ← state.searches[index]?
    if search.read = [] then none
    else
      some { state with
        searches := state.searches.eraseIdx index
        tokens := state.tokens ++ search.read.map fun life => ⟨search.asked, life⟩
        accepted := state.accepted ++ search.continued.toList.flatMap fun token =>
          search.read.map fun life => (token, life) }
  | .capture number => do
    let row ← state.rows number
    some { state with
      tokens := state.tokens ++ [⟨⟨(state.processes number).generation, "", ""⟩, row.life⟩] }
  | .verify number index => do
    let token ← state.tokens[index]?
    let row ← state.rows number
    if token.cursor.generation = (state.processes number).generation then
      some { state with accepted := state.accepted ++ [(token, row.life)] }
    else none

end State

/-- The states that interleavings of the processes reach. -/
inductive Reached (builds : ℕ → Build) : State → Prop where
  | start : Reached builds (.start builds)
  | step {state next : State} {step : Step} (reached : Reached builds state)
      (taken : state.step step = some next) : Reached builds next

end Harkness.Context.Cache
