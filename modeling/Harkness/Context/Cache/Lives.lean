import Harkness.Context.Cache.Generation
import Mathlib.Data.List.Nodup
import Mathlib.Data.List.Infix

/-! # When a generation tells the lives of a cache apart

A generation is floored at what the process that gives it has seen, which may be less than what other
processes have given. As long as every creation and every disposal either knows the newest generation or
reads a clock past it, and rows are read under the generation of the file they are read from, a
generation names one life: whoever holds it looks at the life it was taken from.
-/

namespace Harkness.Context.Cache

/-- A phase in which nothing is remembered of a row. -/
def Phase.Plain : Phase → Prop
  | .adopting .. | .reconciling _ | .rereading _ => False
  | _ => True

namespace State

variable {state next : State} {row : IndexMeta} {connection : Option ℕ} {process : Process}
  {home inode number : ℕ}

/-- The life of a row carries its generation and is in a given inode. -/
def Holds (state : State) (row : IndexMeta) (home : ℕ) : Prop :=
  state.lives[row.life]? = some ⟨row.indexGeneration, home⟩

/-- A connection is to an inode, unless the path has left that inode for good. -/
def Facing (state : State) (connection : Option ℕ) (home : ℕ) : Prop :=
  ∀ inode, connection = some inode → inode = home ∨ state.path ≠ some home

/-- What a process has seen is a row of some life, and its connection faces that life. -/
structure ProcessSound (state : State) (process : Process) : Prop where
  cached : ∀ row, process.cached = some row →
    ∃ home, state.Holds row home ∧ state.Facing process.connection home
  connected : process.ready = true → process.connection ≠ none
  adopting : ∀ purpose found, process.phase = .adopting purpose found → ∃ home, state.Holds found home
  reconciling : ∀ found, process.phase = .reconciling found ∨ process.phase = .rereading found →
    ∃ home, state.Holds found home ∧ state.Facing process.connection home

/-- The cursor a search continues and the rows it has read are of its own generation. -/
structure SearchSound (state : State) (search : Search) : Prop where
  continued : ∀ token, search.continued = some token →
    token ∈ state.tokens ∧ token.cursor.generation = search.asked.generation
  read : ∀ life ∈ search.read, ∃ home, state.lives[life]? = some ⟨search.asked.generation, home⟩

/-- Every row and every token is of a life that carries its generation, and no two lives share one. -/
structure Sound (state : State) : Prop where
  rows : ∀ inode file, state.inodes[inode]? = some file → ∀ row, file.row = some row → state.Holds row inode
  homes : ∀ life ∈ state.lives, life.inode < state.inodes.length
  path : ∀ inode, state.path = some inode → inode < state.inodes.length
  distinct : (state.lives.map Life.generation).Nodup
  processes : ∀ number, state.ProcessSound (state.processes number)
  tokens : ∀ token ∈ state.tokens, ∃ home, state.lives[token.life]? = some ⟨token.cursor.generation, home⟩
  searches : ∀ search ∈ state.searches, state.SearchSound search
  accepted : ∀ use ∈ state.accepted, use.1.life = use.2

/-- Lives are only added, and the path is left or moves to an inode that was not there. -/
structure Grows (state next : State) : Prop where
  lives : state.lives <+: next.lives
  inodes : state.inodes.length ≤ next.inodes.length
  path : next.path = state.path ∨ next.path = none ∨
    ∃ inode, next.path = some inode ∧ state.inodes.length ≤ inode

theorem Grows.refl (state : State) : state.Grows state := ⟨List.prefix_refl _, le_refl _, .inl rfl⟩

theorem Grows.life (grows : Grows state next) {index : ℕ} {life : Life}
    (there : state.lives[index]? = some life) : next.lives[index]? = some life := by
  obtain ⟨more, same⟩ := grows.lives
  obtain ⟨bound, found⟩ := List.getElem?_eq_some_iff.mp there
  rw [← same, List.getElem?_append_left bound, there]

theorem Grows.facing (grows : Grows state next) (sound : state.Sound) (holds : state.Holds row home)
    (facing : state.Facing connection home) : next.Facing connection home := by
  intro inode connected
  rcases facing inode connected with same | left
  · exact .inl same
  · right
    have bound := sound.homes _ (List.mem_of_getElem? holds)
    rcases grows.path with path | path | ⟨new, path, above⟩
    · rw [path]
      exact left
    · simp [path]
    · intro back
      obtain rfl := Option.some.inj (path.symm.trans back)
      exact absurd bound (Nat.not_lt.mpr above)

theorem ProcessSound.grow (grows : Grows state next) (sound : state.Sound)
    (kept : state.ProcessSound process) : next.ProcessSound process where
  cached row seen := by
    obtain ⟨home, holds, facing⟩ := kept.cached row seen
    exact ⟨home, grows.life holds, grows.facing sound holds facing⟩
  connected := kept.connected
  adopting purpose found phase := by
    obtain ⟨home, holds⟩ := kept.adopting purpose found phase
    exact ⟨home, grows.life holds⟩
  reconciling found phase := by
    obtain ⟨home, holds, facing⟩ := kept.reconciling found phase
    exact ⟨home, grows.life holds, grows.facing sound holds facing⟩

theorem SearchSound.grow {search : Search} (kept : state.SearchSound search) (grows : Grows state next)
    (tokens : ∀ token ∈ state.tokens, token ∈ next.tokens) : next.SearchSound search where
  continued token same := ⟨tokens token (kept.continued token same).1, (kept.continued token same).2⟩
  read life held := by
    obtain ⟨home, there⟩ := kept.read life held
    exact ⟨home, grows.life there⟩

/-- A change of the file alone keeps what the processes know. -/
theorem Sound.grow (sound : state.Sound) (grows : Grows state next)
    (processes : next.processes = state.processes) (tokens : next.tokens = state.tokens)
    (searches : next.searches = state.searches) (accepted : next.accepted = state.accepted)
    (rows : ∀ inode file, next.inodes[inode]? = some file → ∀ row, file.row = some row →
      next.Holds row inode)
    (homes : ∀ life ∈ next.lives, life.inode < next.inodes.length)
    (path : ∀ inode, next.path = some inode → inode < next.inodes.length)
    (distinct : (next.lives.map Life.generation).Nodup) : next.Sound where
  rows := rows
  homes := homes
  path := path
  distinct := distinct
  processes number := by
    rw [processes]
    exact (sound.processes number).grow grows sound
  tokens token member := by
    rw [tokens] at member
    obtain ⟨home, life⟩ := sound.tokens token member
    exact ⟨home, grows.life life⟩
  searches search member := by
    rw [searches] at member
    exact (sound.searches search member).grow grows fun token held => tokens ▸ held
  accepted use member := sound.accepted use (accepted ▸ member)

theorem Sound.unlink (sound : state.Sound) : { state with path := none }.Sound :=
  sound.grow ⟨List.prefix_refl _, le_refl _, .inr (.inl rfl)⟩ rfl rfl rfl rfl sound.rows sound.homes
    nofun sound.distinct

theorem openPath_path (state : State) : state.openPath.1.path = some state.openPath.2 := by
  unfold openPath
  split <;> simp_all

theorem grows_openPath (state : State) : state.Grows state.openPath.1 := by
  unfold openPath
  split
  · exact .refl state
  · exact ⟨List.prefix_refl _, by simp, .inr (.inr ⟨_, rfl, le_refl _⟩)⟩

theorem Sound.openPath (sound : state.Sound) : state.openPath.1.Sound := by
  have grows := state.grows_openPath
  unfold State.openPath at grows ⊢
  split at grows
  · exact sound
  · refine sound.grow grows rfl rfl rfl rfl (fun inode file there row seen => ?_)
      (fun life member => ?_) (fun inode path => ?_) sound.distinct
    · dsimp only at there
      rw [List.getElem?_append] at there
      split at there
      · exact sound.rows inode file there row seen
      · obtain rfl := List.mem_singleton.mp (List.mem_of_getElem? there)
        cases seen
    · have bound := sound.homes life member
      simp only [List.length_append, List.length_singleton]
      omega
    · obtain rfl := Option.some.inj path
      simp

/-- A file whose row says the same of its life may change otherwise. -/
theorem Sound.setInode (sound : state.Sound) {file : Inode}
    (same : ∀ row, file.row = some row → state.Holds row inode) : (state.setInode inode file).Sound := by
  have grows : state.Grows (state.setInode inode file) :=
    ⟨List.prefix_refl _, by simp [State.setInode], .inl rfl⟩
  refine sound.grow grows rfl rfl rfl rfl (fun other stored there row seen => ?_) (fun life member => ?_)
    (fun other path => ?_) sound.distinct
  · simp only [State.setInode, List.getElem?_set] at there
    split at there
    · subst inode
      split at there
      · obtain rfl := Option.some.inj there
        exact same row seen
      · cases there
    · exact sound.rows other stored there row seen
  · simpa [State.setInode] using sound.homes life member
  · simpa [State.setInode] using sound.path other path

/-- A life that is given a new generation keeps the lives apart. -/
theorem Sound.beginLife (sound : state.Sound) {build : Build} {generation : ℕ}
    (there : inode < state.inodes.length) (fresh : ∀ life ∈ state.lives, life.generation ≠ generation) :
    (state.beginLife inode build generation).1.Sound ∧
      (state.beginLife inode build generation).1.Holds (state.beginLife inode build generation).2 inode := by
  have grows : state.Grows (state.beginLife inode build generation).1 :=
    ⟨List.prefix_append _ _, by simp [State.beginLife, State.setInode], .inl rfl⟩
  have holds : (state.beginLife inode build generation).1.Holds
      (state.beginLife inode build generation).2 inode := by
    simp [State.beginLife, Holds]
  refine ⟨sound.grow grows rfl rfl rfl rfl (fun other stored found row seen => ?_) (fun life member => ?_)
    (fun other path => ?_) ?_, holds⟩
  · simp only [State.beginLife, State.setInode, List.getElem?_set] at found
    split at found
    · subst inode
      obtain rfl := Option.some.inj found
      obtain rfl := Option.some.inj seen
      exact holds
    · exact grows.life (sound.rows other stored found row seen)
  · simp only [State.beginLife, State.setInode, List.length_set]
    rcases List.mem_append.mp member with old | new
    · exact sound.homes life old
    · obtain rfl := List.mem_singleton.mp new
      exact there
  · simpa [State.beginLife, State.setInode] using sound.path other path
  · simp only [State.beginLife, List.map_append, List.map_cons, List.map_nil]
    refine List.nodup_append.mpr ⟨sound.distinct, List.nodup_singleton _, fun known member other given => ?_⟩
    obtain ⟨life, listed, rfl⟩ := List.mem_map.mp member
    obtain rfl := List.mem_singleton.mp given
    exact fresh life listed

theorem grows_setProcess (state : State) (number : ℕ) (process : Process) :
    state.Grows (state.setProcess number process) := ⟨List.prefix_refl _, le_refl _, .inl rfl⟩

theorem Sound.setProcess (sound : state.Sound) (kept : state.ProcessSound process) :
    (state.setProcess number process).Sound :=
  { sound with
    processes := fun other => by
      refine ProcessSound.grow (state.grows_setProcess number process) sound ?_
      by_cases same : other = number
      · subst same
        simpa [State.setProcess] using kept
      · simpa [State.setProcess, Function.update_of_ne same] using sound.processes other
    searches := fun search member =>
      (sound.searches search member).grow (state.grows_setProcess number process) fun _ => id }

theorem ProcessSound.goTo (kept : state.ProcessSound process) {phase : Phase} (plain : phase.Plain) :
    state.ProcessSound { process with phase } where
  cached := kept.cached
  connected := kept.connected
  adopting purpose found same := by
    obtain rfl : phase = _ := same
    exact plain.elim
  reconciling found same := by
    obtain rfl | rfl : phase = _ ∨ phase = _ := same <;> exact plain.elim

theorem Sound.goTo (sound : state.Sound) (phase : Phase) (plain : phase.Plain) :
    (state.goTo number phase).Sound :=
  sound.setProcess ((sound.processes number).goTo plain)

theorem Sound.abandon (sound : state.Sound) : (state.abandon number).Sound := sound.goTo .idle trivial

/-- A closed cache faces every life. -/
theorem Sound.close (sound : state.Sound) {phase : Phase}
    (adopting : ∀ purpose found, phase = .adopting purpose found → ∃ home, state.Holds found home)
    (plain : ∀ found, phase ≠ .reconciling found ∧ phase ≠ .rereading found) :
    (state.setProcess number { state.processes number with
      connection := none, ready := false, phase }).Sound :=
  sound.setProcess
    { cached := fun row seen => by
        obtain ⟨home, holds, -⟩ := (sound.processes number).cached row seen
        exact ⟨home, holds, nofun⟩
      connected := nofun
      adopting
      reconciling := fun found same => by
        rcases same with same | same
        · exact absurd same (plain found).1
        · exact absurd same (plain found).2 }

theorem Sound.replace (sound : state.Sound) {purpose : Purpose} {previous : Option ℕ} :
    (state.replace number purpose previous).Sound := by
  cases purpose with
  | open_ => exact sound.goTo (.replacing .open_ previous) trivial
  | refresh => exact sound.close nofun fun _ => ⟨nofun, nofun⟩

/-- A call ends with a row whose life its connection faces. -/
theorem Sound.finish (sound : state.Sound) (holds : state.Holds row home)
    (facing : state.Facing (some inode) home) : (state.finish number inode row).Sound :=
  sound.setProcess
    { cached := fun seen same => by
        obtain rfl := Option.some.inj same
        exact ⟨home, holds, facing⟩
      connected := fun _ => Option.some_ne_none inode
      adopting := nofun
      reconciling := fun _ same => by rcases same with same | same <;> cases same }

theorem ProcessSound.adopts (kept : state.ProcessSound process) {purpose : Purpose}
    (holds : state.Holds row home) : state.ProcessSound { process with phase := .adopting purpose row } where
  cached := kept.cached
  connected := kept.connected
  adopting _ found same := by
    obtain ⟨-, rfl⟩ := Phase.adopting.inj same
    exact ⟨home, holds⟩
  reconciling found same := by rcases same with same | same <;> cases same

/-- Lives of one generation are the same life. -/
theorem Sound.life_eq (sound : state.Sound) {first second : ℕ} {one other : Life}
    (here : state.lives[first]? = some one) (there : state.lives[second]? = some other)
    (same : one.generation = other.generation) : first = second := by
  have bound : first < (state.lives.map Life.generation).length := by
    rw [List.length_map]
    exact (List.getElem?_eq_some_iff.mp here).1
  refine (List.getElem?_inj bound sound.distinct).mp ?_
  rw [List.getElem?_map, List.getElem?_map, here, there, Option.map_some, Option.map_some, same]

theorem readMeta_row {file : Inode} (read : file.readMeta = some row) : file.row = some row := by
  unfold Inode.readMeta at read
  split at read
  · exact read
  · cases read

theorem stamp_row {file : Inode} (read : file.stamp = some row) : file.row = some row := by
  unfold Inode.stamp at read
  split at read
  · cases read
  · exact read

theorem Sound.probe (sound : state.Sound) {purpose : Purpose}
    (taken : state.probe number purpose inode = some next) : next.Sound := by
  simp only [State.probe, Option.bind_eq_bind, Option.bind_eq_some_iff] at taken
  obtain ⟨file, _, stamp, _, taken⟩ := taken
  split_ifs at taken <;> obtain rfl := Option.some.inj taken
  · exact sound.abandon
  · exact sound.replace
  · exact sound.goTo _ trivial

theorem Sound.address (sound : state.Sound) {purpose : Purpose} {stamp : IndexMeta}
    (taken : state.address number purpose inode stamp = some next) : next.Sound := by
  simp only [State.address, Option.bind_eq_bind, Option.bind_eq_some_iff] at taken
  obtain ⟨file, there, taken⟩ := taken
  cases read : file.readMeta with
  | none =>
    rw [read] at taken
    obtain rfl := Option.some.inj taken
    exact sound.replace
  | some found =>
    have holds := sound.rows inode file there found (readMeta_row read)
    rw [read] at taken
    dsimp only at taken
    split at taken
    · obtain rfl := Option.some.inj taken
      exact sound.replace
    · cases purpose with
      | open_ =>
        obtain rfl := Option.some.inj taken
        exact sound.setProcess ((sound.processes number).adopts holds)
      | refresh =>
        dsimp only at taken
        split at taken
        · obtain rfl := Option.some.inj taken
          exact sound.close (by rintro _ _ ⟨⟩; exact ⟨inode, holds⟩) fun _ => ⟨nofun, nofun⟩
        · rename_i same
          obtain ⟨-, seen⟩ := not_or.mp same
          obtain rfl := Option.some.inj taken
          obtain ⟨last, cached, generation⟩ := Option.map_eq_some_iff.mp (not_not.mp seen)
          have kept := sound.processes number
          obtain ⟨home, known, facing⟩ := kept.cached last cached
          -- the same generation is the same life, so the connection faces the inode that was probed
          have life : last.life = found.life := sound.life_eq known holds generation
          rw [Holds, life, holds] at known
          obtain rfl : inode = home := (Life.mk.inj (Option.some.inj known)).2
          exact sound.setProcess
            { kept with
              adopting := nofun
              reconciling := fun other phase => by
                rcases phase with phase | phase
                · obtain rfl := Phase.reconciling.inj phase
                  exact ⟨inode, holds, facing⟩
                · cases phase }

theorem Sound.insert (sound : state.Sound) {previous : Option ℕ} {clock : ℤ}
    (taken : state.insert number inode previous clock = some next)
    (ahead : ∀ generation, nextGeneration previous clock = some generation →
      (∃ file, state.inodes[inode]? = some file ∧ file.row = none) →
      ∀ life ∈ state.lives, life.generation ≠ generation) : next.Sound := by
  simp only [State.insert, Option.bind_eq_bind, Option.bind_eq_some_iff] at taken
  obtain ⟨file, there, generation, minted, taken⟩ := taken
  split at taken
  · obtain rfl := Option.some.inj taken
    exact sound.abandon
  · cases row : file.row with
    | some row =>
      rw [row] at taken
      obtain rfl := Option.some.inj taken
      exact sound.goTo _ trivial
    | none =>
      rw [row] at taken
      obtain rfl := Option.some.inj taken
      have bound := (List.getElem?_eq_some_iff.mp there).1
      exact (sound.beginLife bound (ahead generation minted ⟨file, there, row⟩)).1.goTo _ trivial

theorem Sound.readBack (sound : state.Sound) (taken : state.readBack number inode = some next) :
    next.Sound := by
  simp only [State.readBack, Option.bind_eq_bind, Option.bind_eq_some_iff] at taken
  obtain ⟨file, there, taken⟩ := taken
  cases read : file.readMeta with
  | none =>
    rw [read] at taken
    obtain rfl := Option.some.inj taken
    exact sound.abandon
  | some stored =>
    rw [read] at taken
    dsimp only at taken
    split at taken <;> obtain rfl := Option.some.inj taken
    · exact sound.abandon
    · refine sound.finish (sound.rows inode file there stored (readMeta_row read)) ?_
      rintro _ ⟨⟩
      exact .inl rfl

theorem facing_path {home : ℕ} (path : state.path = some inode) : state.Facing (some inode) home := by
  rintro _ ⟨⟩
  by_cases same : inode = home
  · exact .inl same
  · exact .inr fun back => same (Option.some.inj (path.symm.trans back))

theorem Sound.adopt (sound : state.Sound) {purpose : Purpose} {found : IndexMeta}
    (phase : (state.processes number).phase = .adopting purpose found) :
    (state.adopt number purpose found).Sound := by
  have opened := sound.openPath
  obtain ⟨home, holds⟩ := ((sound.processes number).grow state.grows_openPath sound).adopting _ _ phase
  have facing : state.openPath.1.Facing (some state.openPath.2) home := facing_path state.openPath_path
  cases purpose with
  | open_ => exact opened.finish holds facing
  | refresh =>
    refine opened.setProcess
      { cached := fun row seen => ?_
        connected := fun _ => Option.some_ne_none _
        adopting := nofun
        reconciling := fun row same => ?_ }
    · obtain ⟨life, known, -⟩ := (opened.processes number).cached row seen
      exact ⟨life, known, facing_path state.openPath_path⟩
    · rcases same with same | same
      · obtain rfl := Phase.reconciling.inj same
        exact ⟨home, holds, facing⟩
      · cases same

theorem Sound.reconcile (sound : state.Sound) {found : IndexMeta}
    (phase : (state.processes number).phase = .reconciling found)
    (taken : state.reconcile number found = some next) : next.Sound := by
  obtain ⟨home, holds, facing⟩ := (sound.processes number).reconciling found (.inl phase)
  simp only [State.reconcile, Option.bind_eq_bind, Option.bind_eq_some_iff] at taken
  obtain ⟨inode, connected, taken⟩ := taken
  rw [connected] at facing
  split at taken
  · obtain rfl := Option.some.inj taken
    exact sound.finish holds facing
  · obtain ⟨file, there, taken⟩ := Option.bind_eq_some_iff.mp taken
    split at taken <;> obtain rfl := Option.some.inj taken
    · exact sound.abandon
    · have restamped : (state.setInode inode { file with
          row := file.row.map fun row => { row with
            componentVersions := (state.processes number).build.componentVersions } }).Sound := by
        refine sound.setInode fun row seen => ?_
        obtain ⟨stored, old, rfl⟩ := Option.map_eq_some_iff.mp seen
        exact sound.rows inode file there stored old
      refine restamped.setProcess
        { (restamped.processes number) with
          adopting := nofun
          reconciling := fun row same => ?_ }
      rcases same with same | same
      · cases same
      · obtain rfl := Phase.rereading.inj same
        refine ⟨home, holds, ?_⟩
        change State.Facing _ (state.processes number).connection home
        rw [connected]
        exact facing

theorem Sound.reread (sound : state.Sound) {found : IndexMeta}
    (phase : (state.processes number).phase = .rereading found)
    (taken : state.reread number found = some next) : next.Sound := by
  obtain ⟨home, holds, facing⟩ := (sound.processes number).reconciling found (.inr phase)
  simp only [State.reread, Option.bind_eq_bind, Option.bind_eq_some_iff] at taken
  obtain ⟨inode, connected, file, there, taken⟩ := taken
  rw [connected] at facing
  split at taken <;> obtain rfl := Option.some.inj taken
  · exact sound.abandon
  · cases seen : file.row with
    | none => exact sound.finish holds facing
    | some row =>
      refine sound.finish (sound.rows inode file there row seen) ?_
      rintro _ ⟨⟩
      exact .inl rfl

theorem Sound.empty (sound : state.Sound) {previous : ℕ} {clock : ℤ}
    (phase : (state.processes number).phase = .disposing previous clock)
    (taken : state.empty number previous clock = some next)
    (ahead : ∀ generation, nextGeneration (some previous) clock = some generation →
      (state.processes number).connection ≠ none →
      ∀ life ∈ state.lives, life.generation ≠ generation) : next.Sound := by
  unfold State.empty at taken
  dsimp only at taken
  cases connected : (state.processes number).connection with
  | none =>
    rw [connected] at taken
    obtain rfl := Option.some.inj taken
    have opened := sound.openPath
    have kept := (sound.processes number).grow state.grows_openPath sound
    refine opened.setProcess
      { cached := fun row seen => ?_
        connected := fun _ => Option.some_ne_none _
        adopting := fun _ _ same => by cases phase.symm.trans same
        reconciling := fun _ same => by rcases same with same | same <;> cases phase.symm.trans same }
    obtain ⟨home, holds, -⟩ := kept.cached row seen
    exact ⟨home, holds, facing_path state.openPath_path⟩
  | some inode =>
    rw [connected] at taken
    simp only [Option.bind_eq_bind, Option.bind_eq_some_iff] at taken
    obtain ⟨file, there, generation, minted, taken⟩ := taken
    split at taken <;> obtain rfl := Option.some.inj taken
    · exact sound.abandon
    · have bound := (List.getElem?_eq_some_iff.mp there).1
      obtain ⟨begun, holds⟩ :
          (state.beginLife inode (state.processes number).build generation).1.Sound ∧ _ :=
        sound.beginLife bound (ahead generation minted (connected ▸ Option.some_ne_none inode))
      refine begun.finish holds ?_
      rintro _ ⟨⟩
      exact .inl rfl

/-- Every generation given so far is one that was known, or lies before the reading of the clock. -/
def Ahead (state : State) (previous : Option ℕ) (clock : ℤ) : Prop :=
  ∀ life ∈ state.lives, life.generation < clockMicroseconds clock ∨
    ∃ known ∈ previous, life.generation ≤ known

/-- What a process reads lies under the generation it goes by. -/
def Current (state : State) (number generation : ℕ) : Prop :=
  ∀ row, state.rows number = some row → row.indexGeneration = generation

/-- A life begins ahead of all others, and rows are read under the generation of their file. -/
def Steady (state : State) : Step → Prop
  | .advance number _ =>
    match (state.processes number).phase with
    | .inserting _ inode previous clock =>
      (∃ file, state.inodes[inode]? = some file ∧ file.row = none) → state.Ahead previous clock
    | .disposing previous clock =>
      (state.processes number).connection ≠ none → state.Ahead (some previous) clock
    | _ => True
  | .read index =>
    ∀ search, state.searches[index]? = some search → state.Current search.process search.asked.generation
  | .capture number | .verify number _ =>
    state.Current number (state.processes number).generation
  | _ => True

theorem Ahead.ne {previous : Option ℕ} {clock : ℤ} (ahead : state.Ahead previous clock) {generation : ℕ}
    (minted : nextGeneration previous clock = some generation) (life : Life) (member : life ∈ state.lives) :
    life.generation ≠ generation := by
  cases previous with
  | none =>
    obtain rfl := Option.some.inj minted
    rcases ahead life member with below | ⟨_, ⟨⟩, _⟩
    omega
  | some previous =>
    unfold nextGeneration at minted
    dsimp only at minted
    split at minted
    · obtain rfl := Option.some.inj minted
      rcases ahead life member with below | ⟨_, ⟨⟩, known⟩ <;> omega
    · cases minted

theorem Sound.advance (sound : state.Sound) {clock : ℤ} (steady : state.Steady (.advance number clock))
    (taken : state.advance number clock = some next) : next.Sound := by
  unfold State.advance at taken
  dsimp only [Steady] at steady
  cases phase : (state.processes number).phase with
  | idle => rw [phase] at taken; cases taken
  | probing purpose inode => rw [phase] at taken; exact sound.probe taken
  | stamped purpose inode stamp => rw [phase] at taken; exact sound.address taken
  | replacing purpose previous =>
    rw [phase] at taken
    obtain rfl := Option.some.inj taken
    exact sound.unlink.goTo _ trivial
  | minting purpose previous =>
    rw [phase] at taken
    dsimp only at taken
    split at taken <;> obtain rfl := Option.some.inj taken
    · exact sound.abandon
    · exact sound.goTo _ trivial
  | creating purpose previous clock =>
    rw [phase] at taken
    obtain rfl := Option.some.inj taken
    exact sound.openPath.goTo _ trivial
  | inserting purpose inode previous clock =>
    rw [phase] at taken steady
    exact sound.insert taken fun generation minted blank => (steady blank).ne minted
  | readingBack inode => rw [phase] at taken; exact sound.readBack taken
  | adopting purpose found =>
    rw [phase] at taken
    obtain rfl := Option.some.inj taken
    exact sound.adopt phase
  | reconciling found => rw [phase] at taken; exact sound.reconcile phase taken
  | rereading found => rw [phase] at taken; exact sound.reread phase taken
  | disposing previous clock =>
    rw [phase] at taken steady
    exact sound.empty phase taken fun generation minted connected => (steady connected).ne minted

theorem Sound.begin_ (sound : state.Sound) {purpose : Purpose}
    (taken : state.begin_ number purpose = some next) : next.Sound := by
  unfold State.begin_ at taken
  dsimp only at taken
  split at taken
  · cases taken
  · split at taken <;> obtain rfl := Option.some.inj taken
    · exact sound.goTo _ trivial
    · exact sound.goTo _ trivial
    · exact sound.replace

theorem Sound.dispose (sound : state.Sound) {clock : ℤ} (taken : state.dispose number clock = some next) :
    next.Sound := by
  unfold State.dispose at taken
  dsimp only at taken
  split at taken
  · split at taken <;> obtain rfl := Option.some.inj taken
    · exact sound
    · exact sound.goTo _ trivial
  · cases taken

/-- The rows a process reads are of a life that carries their generation. -/
theorem Sound.rows_holds (sound : state.Sound) (read : state.rows number = some row) :
    ∃ home, state.Holds row home := by
  simp only [State.rows, Option.bind_eq_bind, Option.bind_eq_some_iff] at read
  obtain ⟨inode, -, file, there, stamp⟩ := read
  exact ⟨inode, sound.rows inode file there row (stamp_row stamp)⟩

/-- Searches, tokens and uses change beside everything else. -/
theorem grows_handOut (state : State) (searches : List Search) (tokens : List Token)
    (accepted : List (Token × ℕ)) : state.Grows { state with searches, tokens, accepted } :=
  ⟨List.prefix_refl _, le_refl _, .inl rfl⟩

theorem Sound.handOut (sound : state.Sound) {searches : List Search} {tokens : List Token}
    {accepted : List (Token × ℕ)}
    (issued : ∀ token ∈ tokens, ∃ home, state.lives[token.life]? = some ⟨token.cursor.generation, home⟩)
    (asked : ∀ search ∈ searches, { state with searches, tokens, accepted }.SearchSound search)
    (used : ∀ use ∈ accepted, use.1.life = use.2) :
    { state with searches, tokens, accepted }.Sound :=
  { sound with
    processes := fun number => (sound.processes number).grow (state.grows_handOut _ _ _) sound
    tokens := issued
    searches := asked
    accepted := used }

/-- A token that goes by the generation of a row is of that row's life. -/
theorem Sound.token_life (sound : state.Sound) {token : Token} (issued : token ∈ state.tokens)
    (read : state.rows number = some row) (same : token.cursor.generation = row.indexGeneration) :
    token.life = row.life := by
  obtain ⟨_, life⟩ := sound.tokens token issued
  obtain ⟨_, holds⟩ := sound.rows_holds read
  exact sound.life_eq life holds same

theorem admits_eq_ok {cursor : SearchCursor} {generation : ℕ} {worktree query : String}
    (admitted : cursor.admits generation worktree query = .ok ()) : cursor.generation = generation := by
  unfold SearchCursor.admits at admitted
  split at admitted
  · cases admitted
  · exact not_not.mp ‹_›

theorem Sound.giveUp (sound : state.Sound) (taken : state.step (.giveUp number) = some next) :
    next.Sound := by
  simp only [State.step] at taken
  split at taken
  · obtain ⟨file, -, taken⟩ := Option.bind_eq_some_iff.mp taken
    split at taken
    · obtain rfl := Option.some.inj taken
      exact sound.replace
    · cases taken
  · cases taken

/-- A search begins unread, and a cursor it goes on behind is of the generation it asks for. -/
theorem Sound.search (sound : state.Sound) {worktree query : String} {cursor : Option ℕ}
    (taken : state.step (.search number worktree query cursor) = some next) : next.Sound := by
  have more : ∀ search : Search, (∀ token, search.continued = some token →
      token ∈ state.tokens ∧ token.cursor.generation = search.asked.generation) → search.read = [] →
      { state with searches := state.searches ++ [search] }.Sound := by
    intro search asked unread
    refine sound.handOut sound.tokens (fun other member => ?_) sound.accepted
    rcases List.mem_append.mp member with old | new
    · exact (sound.searches other old).grow (state.grows_handOut _ _ _) fun _ => id
    · obtain rfl := List.mem_singleton.mp new
      refine ⟨asked, fun life held => ?_⟩
      rw [unread] at held
      cases held
  cases cursor with
  | none =>
    obtain rfl := Option.some.inj taken
    refine more _ (fun token same => ?_) rfl
    cases same
  | some index =>
    obtain ⟨token, there, taken⟩ := Option.bind_eq_some_iff.mp taken
    split at taken
    · cases taken
    · rename_i admitted
      obtain rfl := Option.some.inj taken
      refine more _ (fun other same => ?_) rfl
      obtain rfl := Option.some.inj same
      exact ⟨List.mem_of_getElem? there, admits_eq_ok admitted⟩

/-- The row that a steady search reads is of the generation it asks for. -/
theorem Sound.read (sound : state.Sound) {index : ℕ} (steady : state.Steady (.read index))
    (taken : state.step (.read index) = some next) : next.Sound := by
  obtain ⟨search, there, taken⟩ := Option.bind_eq_some_iff.mp taken
  obtain ⟨row, read, taken⟩ := Option.bind_eq_some_iff.mp taken
  obtain rfl := Option.some.inj taken
  have current := steady search there row read
  obtain ⟨home, holds⟩ := sound.rows_holds read
  refine sound.handOut sound.tokens (fun other member => ?_) sound.accepted
  rcases List.mem_or_eq_of_mem_set member with old | rfl
  · exact (sound.searches other old).grow (state.grows_handOut _ _ _) fun _ => id
  · have before := sound.searches search (List.mem_of_getElem? there)
    refine ⟨before.continued, fun life held => ?_⟩
    rcases List.mem_append.mp held with old | new
    · exact before.read life old
    · obtain rfl := List.mem_singleton.mp new
      exact ⟨home, current ▸ holds⟩

/-- What a search has read is of one life, that of the token it went on behind. -/
theorem Sound.answer (sound : state.Sound) {index : ℕ} (taken : state.step (.answer index) = some next) :
    next.Sound := by
  obtain ⟨search, there, taken⟩ := Option.bind_eq_some_iff.mp taken
  split at taken
  · cases taken
  obtain rfl := Option.some.inj taken
  obtain ⟨continued, read⟩ := sound.searches search (List.mem_of_getElem? there)
  refine sound.handOut (fun token member => ?_) (fun other member => ?_) fun use member => ?_
  · rcases List.mem_append.mp member with old | new
    · exact sound.tokens token old
    · obtain ⟨life, held, rfl⟩ := List.mem_map.mp new
      exact read life held
  · exact (sound.searches other (List.mem_of_mem_eraseIdx member)).grow (state.grows_handOut _ _ _)
      fun _ => List.mem_append_left _
  · rcases List.mem_append.mp member with old | new
    · exact sound.accepted use old
    · obtain ⟨token, same, new⟩ := List.mem_flatMap.mp new
      obtain ⟨life, held, rfl⟩ := List.mem_map.mp new
      obtain ⟨issued, goes⟩ := continued token (Option.mem_toList.mp same)
      obtain ⟨_, here⟩ := sound.tokens token issued
      obtain ⟨_, found⟩ := read life held
      exact sound.life_eq here found goes

theorem Sound.capture (sound : state.Sound) (steady : state.Steady (.capture number))
    (taken : state.step (.capture number) = some next) : next.Sound := by
  obtain ⟨row, read, taken⟩ := Option.bind_eq_some_iff.mp taken
  obtain rfl := Option.some.inj taken
  obtain ⟨home, holds⟩ := sound.rows_holds read
  refine sound.handOut (fun token member => ?_) (fun other member => ?_) sound.accepted
  · rcases List.mem_append.mp member with old | new
    · exact sound.tokens token old
    · obtain rfl := List.mem_singleton.mp new
      exact ⟨home, steady row read ▸ holds⟩
  · exact (sound.searches other member).grow (state.grows_handOut _ _ _) fun _ => List.mem_append_left _

theorem Sound.verify (sound : state.Sound) {index : ℕ} (steady : state.Steady (.verify number index))
    (taken : state.step (.verify number index) = some next) : next.Sound := by
  obtain ⟨token, there, taken⟩ := Option.bind_eq_some_iff.mp taken
  obtain ⟨row, read, taken⟩ := Option.bind_eq_some_iff.mp taken
  split at taken
  · rename_i same
    obtain rfl := Option.some.inj taken
    refine sound.handOut sound.tokens (fun other member => ?_) fun use member => ?_
    · exact (sound.searches other member).grow (state.grows_handOut _ _ _) fun _ => id
    rcases List.mem_append.mp member with old | new
    · exact sound.accepted use old
    · obtain rfl := List.mem_singleton.mp new
      exact sound.token_life (List.mem_of_getElem? there) read (same.trans (steady row read).symm)
  · cases taken

theorem Sound.step (sound : state.Sound) {step : Step} (steady : state.Steady step)
    (taken : state.step step = some next) : next.Sound := by
  cases step with
  | begin_ number purpose => exact sound.begin_ taken
  | dispose number clock => exact sound.dispose taken
  | advance number clock => exact sound.advance steady taken
  | giveUp number => exact sound.giveUp taken
  | fail number =>
    obtain rfl := Option.some.inj taken
    exact sound.abandon
  | damage inode damage =>
    obtain ⟨file, there, taken⟩ := Option.bind_eq_some_iff.mp taken
    obtain rfl := Option.some.inj taken
    exact sound.setInode fun row seen => sound.rows inode file there row seen
  | unlink =>
    obtain rfl := Option.some.inj taken
    exact sound.unlink
  | search number worktree query cursor => exact sound.search taken
  | read index => exact sound.read steady taken
  | answer index => exact sound.answer taken
  | capture number => exact sound.capture steady taken
  | verify number index => exact sound.verify steady taken

end State

/-- A generation names one life: no two lives have the same, a process that goes by the generation of the
file looks at the life it saw, and what was taken from one life is accepted only against it. -/
structure TellsApart (state : State) : Prop where
  distinct : (state.lives.map Life.generation).Nodup
  cached : ∀ number last inode file row, (state.processes number).ready = true →
    (state.processes number).cached = some last → state.path = some inode →
    state.inodes[inode]? = some file → file.row = some row → last.indexGeneration = row.indexGeneration →
    (state.processes number).connection = some inode ∧ last.life = row.life
  accepted : ∀ use ∈ state.accepted, use.1.life = use.2

/-- The states that interleavings of steady steps reach. -/
inductive SteadilyReached (builds : ℕ → Build) : State → Prop where
  | start : SteadilyReached builds (.start builds)
  | step {state next : State} {step : Step} (reached : SteadilyReached builds state)
      (steady : state.Steady step) (taken : state.step step = some next) : SteadilyReached builds next

theorem State.Sound.start (builds : ℕ → Build) : (State.start builds).Sound where
  rows := nofun
  homes := nofun
  path := nofun
  distinct := List.nodup_nil
  processes _ := ⟨nofun, nofun, nofun, fun _ same => by rcases same with same | same <;> cases same⟩
  tokens := nofun
  searches := nofun
  accepted := nofun

theorem SteadilyReached.sound {builds : ℕ → Build} {state : State} (reached : SteadilyReached builds state) :
    state.Sound := by
  induction reached with
  | start => exact .start builds
  | step _ steady taken ih => exact ih.step steady taken

/-- In every run of steady steps a generation names one life. -/
theorem tells_apart {builds : ℕ → Build} {state : State} (reached : SteadilyReached builds state) :
    TellsApart state where
  distinct := reached.sound.distinct
  cached number last inode file row ready seen path there read same := by
    have sound := reached.sound
    have kept := sound.processes number
    obtain ⟨home, known, facing⟩ := kept.cached last seen
    have holds := sound.rows inode file there row read
    have life := sound.life_eq known holds same
    rw [State.Holds, life, holds] at known
    obtain rfl : inode = home := (Life.mk.inj (Option.some.inj known)).2
    obtain ⟨other, connected⟩ := Option.ne_none_iff_exists'.mp (kept.connected ready)
    rcases facing other connected with rfl | left
    · exact ⟨connected, life⟩
    · exact absurd path left
  accepted := reached.sound.accepted

/-- One process opens a cache and disposes of it as the clock goes on. -/
theorem tells_apart_disposed : ∃ state, SteadilyReached (fun _ => ⟨1, "1", "repository"⟩) state ∧
    state.lives = [⟨100, 0⟩, ⟨200, 0⟩] ∧ TellsApart state := by
  have blank : SteadilyReached (fun _ => ⟨1, "1", "repository"⟩) _ := .start
  have probed := @SteadilyReached.step _ _ _ (.begin_ 0 .open_) blank trivial rfl
  have minted := @SteadilyReached.step _ _ _ (.advance 0 100000) probed trivial rfl
  have created := @SteadilyReached.step _ _ _ (.advance 0 0) minted trivial rfl
  have inserted := @SteadilyReached.step _ _ _ (.advance 0 0) created (fun _ => nofun) rfl
  have opened := @SteadilyReached.step _ _ _ (.advance 0 0) inserted trivial rfl
  have disposing := @SteadilyReached.step _ _ _ (.dispose 0 200000) opened trivial rfl
  have ahead (state : State) (lives : state.lives = [⟨100, 0⟩]) : state.Ahead (some 100) 200000 := by
    intro life member
    obtain rfl := List.mem_singleton.mp (lives ▸ member)
    exact .inl (by decide)
  have disposed := @SteadilyReached.step _ _ _ (.advance 0 0) disposing (fun _ => ahead _ rfl) rfl
  exact ⟨_, disposed, rfl, tells_apart disposed⟩

/-- Steps one after the other. -/
def State.run (state : State) : List Step → Option State
  | [] => some state
  | step :: rest => (state.step step).bind (·.run rest)

theorem Reached.run {builds : ℕ → Build} {steps : List Step} {state next : State}
    (reached : Reached builds state) (ran : state.run steps = some next) : Reached builds next := by
  induction steps generalizing state with
  | nil =>
    obtain rfl := Option.some.inj ran
    exact reached
  | cons step rest ih =>
    obtain ⟨middle, taken, ran⟩ := Option.bind_eq_some_iff.mp ran
    exact ih (reached.step taken) ran

def sampleBuild : Build := ⟨1, "1", "repository"⟩

/-- Two processes open one cache and dispose of it in turn while the clock stands still; between the two
disposals the first takes a search cursor, and continues it afterwards. -/
def sampleSteps : List Step :=
  [.begin_ 0 .open_, .advance 0 100000, .advance 0 100000, .advance 0 100000, .advance 0 100000,
    .begin_ 1 .open_, .advance 1 100000, .advance 1 100000, .advance 1 100000,
    .dispose 0 100000, .advance 0 100000, .search 0 "main" "query" none, .read 0, .answer 0,
    .dispose 1 100000, .advance 1 100000, .search 0 "main" "query" (some 0), .read 0, .answer 0]

theorem sampleSteps_accepted : ((State.start fun _ => sampleBuild).run sampleSteps).map State.accepted =
    some [(⟨⟨101, "main", "query"⟩, 1⟩, 2)] := by
  decide

theorem tells_apart_standing_clock : ¬ ∀ builds state, Reached builds state → TellsApart state := by
  intro always
  obtain ⟨state, ran, accepted⟩ := Option.map_eq_some_iff.mp sampleSteps_accepted
  have apart := (always _ state (Reached.start.run ran)).accepted (⟨⟨101, "main", "query"⟩, 1⟩, 2)
    (accepted ▸ List.mem_singleton_self _)
  exact absurd apart (by decide)

end Harkness.Context.Cache
