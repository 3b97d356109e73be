import Harkness.Git.Provenance.Attribution

/-! # Narrowing an attribution

Numbers mean something in their own answer only: one that was narrowed to some paths lists fewer commits and
fewer producers. What the numbers of a file stand for is not touched by it. A path has the same commits and
the same producers in a narrowed answer as in the answer about all paths.
-/

namespace Harkness.Git.Provenance

open History (ErrorCode)

variable {Oid : Type} {paths : ProvenancePaths} {course : Course Oid}

/-- The commits that the numbers of a file stand for. -/
def ChangeProvenance.idsOf (answer : ChangeProvenance Oid) (file : FileProvenance) : List Oid :=
  file.commits.filterMap fun number => answer.commits[number]?.map (·.id)

/-- The keys of the producers that the numbers of a file stand for. -/
def ChangeProvenance.keysNamed (answer : ChangeProvenance Oid) (file : FileProvenance) : List Bytes :=
  file.producers.filterMap fun number =>
    answer.producers[number]?.map fun producer => identityKey producer.identity

/-- The commits of a course that name a path. -/
def Course.naming (course : Course Oid) (components : List Platform.Component) : List (Visited Oid) :=
  course.compared.filter fun visited => visited.names components

section Exact

variable {answer : ChangeProvenance Oid} {file : FileProvenance}

theorem ChangeProvenance.Exact.idsOf (exact_ : answer.Exact paths course) (listed : file ∈ answer.files) :
    answer.idsOf file = (course.naming file.path.components).map (·.id) := by
  obtain ⟨-, named⟩ := (exact_.files file listed).commits
  rw [ChangeProvenance.idsOf, Course.naming, ← named, List.map_filterMap, exact_.commits]
  refine List.filterMap_congr fun number _ => ?_
  rw [List.getElem?_map, Option.map_map]
  rfl

theorem ChangeProvenance.Exact.keysNamed (exact_ : answer.Exact paths course)
    (listed : file ∈ answer.files) : answer.keysNamed file =
      (keysOf (mentionsOf (course.naming file.path.components))).eraseDups := by
  obtain ⟨-, named⟩ := (exact_.files file listed).commits
  have inside : ∀ key ∈ (keysOf (mentionsOf (course.naming file.path.components))).eraseDups,
      key ∈ (keysOf (mentionsOf (course.recorded paths))).eraseDups := by
    intro key member
    rw [List.mem_eraseDups] at member ⊢
    obtain ⟨mention, mentioned, rfl⟩ := List.mem_map.mp member
    obtain ⟨visited, naming, mentions⟩ := List.mem_flatMap.mp mentioned
    rw [Course.naming, ← named] at naming
    obtain ⟨number, -, here⟩ := List.mem_filterMap.mp naming
    exact Builder.key_mem_mentionsOf (List.mem_of_getElem? here) (List.mem_map_of_mem mentions)
  have producers := (exact_.files file listed).producers
  rw [ChangeProvenance.keysNamed, producers]
  simp only [← List.getElem?_map, exact_.keys]
  exact List.filterMap_getElem?_idxOf inside

end Exact

section Unique

variable {repository : Repository Oid}

theorem reads_unique : Relator.RightUnique (Reads repository) := by
  rintro item (_ | first) (_ | second) one two
  · rfl
  · obtain ⟨id, commit, here, found, merge⟩ := one
    obtain ⟨here', found', single, -⟩ := two
    obtain rfl := Except.ok.inj (here.symm.trans here')
    obtain rfl := Except.ok.inj (found.symm.trans found')
    omega
  · obtain ⟨here, found, single, -⟩ := one
    obtain ⟨id, commit, here', found', merge⟩ := two
    obtain rfl := Except.ok.inj (here.symm.trans here')
    obtain rfl := Except.ok.inj (found.symm.trans found')
    omega
  · obtain ⟨id, commit, deltas⟩ := first
    obtain ⟨id', commit', deltas'⟩ := second
    obtain ⟨here, found, -, compared⟩ := one
    obtain ⟨here', found', -, compared'⟩ := two
    obtain rfl := Except.ok.inj (here.symm.trans here')
    obtain rfl := Except.ok.inj (found.symm.trans found')
    obtain rfl := Except.ok.inj (compared.symm.trans compared')
    rfl

variable [DecidableEq Oid]

/-- What a walk comes to compare is decided by the repository and the budget. -/
theorem takes_unique {maxCommits : ℕ} {walk : Walk Oid} {first second : Course Oid}
    (one : Takes repository maxCommits walk first) (two : Takes repository maxCommits walk second) :
    first = second := by
  cases one with
  | uncommitted => cases two; rfl
  | budgetless none_ =>
    cases two with
    | budgetless => rfl
    | single room => exact absurd none_ room
  | single room found compared =>
    cases two with
    | budgetless none_ => exact absurd none_ room
    | single _ found' compared' =>
      obtain rfl := Except.ok.inj (found.symm.trans found')
      obtain rfl := Except.ok.inj (compared.symm.trans compared')
      rfl
  | range opened started each =>
    cases two with
    | range opened' started' each' =>
      obtain rfl := Except.ok.inj (opened.symm.trans opened')
      obtain rfl := Except.ok.inj (started.symm.trans started')
      rw [List.right_unique_forall₂' reads_unique each each']

end Unique

variable [DecidableEq Oid]

/-- An answer narrowed to some paths says of each of them what the answer about all paths says, and
nothing of one that is not there. -/
theorem narrowed_agrees {opened : Except ErrorCode (Repository Oid)} {cancelled cancelled' : ℕ → Bool}
    {target : DiffTarget} {requested : List PathBuf} {maxCommits : ℕ} {reference : Option String}
    {whole part : ChangeProvenance Oid}
    (full : resolve opened cancelled target ⟨.all, maxCommits, reference⟩ = .ok whole)
    (narrow : resolve opened cancelled' target ⟨.only requested, maxCommits, reference⟩ = .ok part)
    {file : FileProvenance} (listed : file ∈ part.files) :
    (∀ other ∈ whole.files, other.path.components = file.path.components →
      part.idsOf file = whole.idsOf other ∧ part.keysNamed file = whole.keysNamed other) ∧
    ((∀ other ∈ whole.files, other.path.components ≠ file.path.components) →
      part.idsOf file = [] ∧ part.keysNamed file = []) := by
  obtain ⟨repository, walk, course, rfl, planned, -, takes, exact_⟩ := resolve_exact full
  obtain ⟨_, walk', course', ⟨⟩, planned', -, takes', exact'⟩ := resolve_exact narrow
  obtain ⟨rfl, -⟩ := Prod.mk.inj (Except.ok.inj (planned.symm.trans planned'))
  have some_ : (ProvenancePaths.only requested) ≠ .only [] := by
    rintro ⟨⟩
    have paths := exact'.requested [] rfl
    rw [List.map_eq_nil_iff.mp paths] at listed
    exact List.not_mem_nil listed
  rw [if_neg nofun] at takes
  rw [if_neg some_] at takes'
  obtain rfl := takes_unique takes takes'
  rw [exact'.idsOf listed, exact'.keysNamed listed]
  refine ⟨fun other member same => ?_, fun missing => ?_⟩
  · rw [exact_.idsOf member, exact_.keysNamed member, same]
    exact ⟨rfl, rfl⟩
  · have none_ : course.naming file.path.components = [] := by
      refine List.filter_eq_nil_iff.mpr fun visited compared named => ?_
      obtain ⟨other, member, same⟩ :=
        List.mem_map.mp (((exact_.all rfl).2.2 _).mpr ⟨visited, compared, named⟩)
      exact missing other member same
    rw [none_]
    exact ⟨rfl, rfl⟩

/-- The author of a commit, and of nothing else. -/
def soleAuthor (id : ℕ) : History.CommitSignature := ⟨[], [UInt8.ofNat (96 + id)], ⟨0, 0, '+'⟩⟩

/-- A root and two commits on it, each with an author of its own and of a file of its own. -/
def twoFiles : Repository ℕ where
  toRepository := { sampleHistory.toRepository with
    findCommit id := .ok ⟨if id = 0 then [] else [id - 1], soleAuthor id, soleAuthor id, []⟩ }
  deltas id _ := .ok [⟨.modified, some ⟨[Fin.ofNat 256 (96 + id)]⟩, none⟩]

def twoFilesWhole : ChangeProvenance ℕ where
  target := .revisions "" "aa"
  range := some ⟨2, some 0, "aa", none, none⟩
  producers := [⟨.author, ⟨[], [98]⟩⟩, ⟨.author, ⟨[], [97]⟩⟩]
  commits := [⟨2, soleAuthor 2, soleAuthor 2, [], [0]⟩, ⟨1, soleAuthor 1, soleAuthor 1, [], [1]⟩]
  files := [⟨⟨[97]⟩, [1], [1], none⟩, ⟨⟨[98]⟩, [0], [0], none⟩]
  walkedCommits := 2
  skippedMerges := 0
  truncation := none

/-- The same about the first file: its commit and its author have other numbers. -/
def twoFilesPart : ChangeProvenance ℕ where
  target := .revisions "" "aa"
  range := some ⟨2, some 0, "aa", none, none⟩
  producers := [⟨.author, ⟨[], [97]⟩⟩]
  commits := [⟨1, soleAuthor 1, soleAuthor 1, [], [0]⟩]
  files := [⟨⟨[97]⟩, [0], [0], none⟩]
  walkedCommits := 2
  skippedMerges := 0
  truncation := none

theorem narrowed_agrees_sample :
    (∀ other ∈ twoFilesWhole.files, other.path.components = (⟨[97]⟩ : PathBuf).components →
      twoFilesPart.idsOf ⟨⟨[97]⟩, [0], [0], none⟩ = twoFilesWhole.idsOf other ∧
        twoFilesPart.keysNamed ⟨⟨[97]⟩, [0], [0], none⟩ = twoFilesWhole.keysNamed other) ∧
      ((∀ other ∈ twoFilesWhole.files, other.path.components ≠ (⟨[97]⟩ : PathBuf).components) →
        twoFilesPart.idsOf ⟨⟨[97]⟩, [0], [0], none⟩ = [] ∧
          twoFilesPart.keysNamed ⟨⟨[97]⟩, [0], [0], none⟩ = []) := by
  have full : resolve (.ok twoFiles) (fun _ => false) (.revisions "" "aa") ⟨.all, 10, none⟩ =
    .ok twoFilesWhole := rfl
  have narrow : resolve (.ok twoFiles) (fun _ => false) (.revisions "" "aa")
    ⟨.only [⟨[97]⟩], 10, none⟩ = .ok twoFilesPart := rfl
  exact narrowed_agrees full narrow List.mem_cons_self

end Harkness.Git.Provenance
