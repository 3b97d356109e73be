import Harkness.Git.Provenance.Recorded
import Harkness.ToMathlib.Except

/-! # Attribution is exact

Whatever the range and the paths asked for, an answer names for each path exactly the commits among those
compared whose comparison names it on either side, in the order of the walk, and exactly the identities
these commits record. A path without commits says why, and an answer that stops at the budget says so.
-/

namespace Harkness.Git.Provenance

open History (ErrorCode Commit refuseCancelled)

variable {Oid : Type}

/-- What one step of a walk finds: a merge, which is passed over, or a commit and its comparison with its
first parent. -/
def Reads (repository : Repository Oid) (item : Except ErrorCode Oid) : Option (Visited Oid) → Prop
  | none => ∃ id commit, item = .ok id ∧ repository.findCommit id = .ok commit ∧
    1 < commit.parentIds.length
  | some visited => item = .ok visited.id ∧ repository.findCommit visited.id = .ok visited.commit ∧
    visited.commit.parentIds.length ≤ 1 ∧
    repository.deltas visited.id visited.commit.parentIds.head? = .ok visited.deltas

/-- What an attribution comes to compare: the commits, how many were walked and how many were merges, and
what is said of a path that none of them names. -/
structure Course (Oid : Type) where
  compared : List (Visited Oid)
  walkedCommits : ℕ
  skippedMerges : ℕ
  truncation : Option ProvenanceTruncation
  gap : ProvenanceGap

/-- The course of a walk along a range: the first commits of it, as many as the budget allows. -/
def Course.ofRange (maxCommits : ℕ) (walk : List (Except ErrorCode Oid))
    (reads : List (Option (Visited Oid))) : Course Oid where
  compared := reads.reduceOption
  walkedCommits := reads.length
  skippedMerges := reads.countP Option.isNone
  truncation := if maxCommits < walk.length then some (.commitBudgetExhausted maxCommits) else none
  gap :=
    if maxCommits < walk.length then .commitBudgetExhausted maxCommits
    else if walk = [] then .emptyRange
    else .notInRange

/-- The courses that the walk of a target can take. -/
inductive Takes [DecidableEq Oid] (repository : Repository Oid) (maxCommits : ℕ) :
    Walk Oid → Course Oid → Prop
  | uncommitted : Takes repository maxCommits .uncommitted ⟨[], 0, 0, none, .uncommitted⟩
  | budgetless {commit : Oid} {parent : Option Oid} (none_ : maxCommits = 0) :
    Takes repository maxCommits (.single commit parent)
      ⟨[], 0, 0, some (.commitBudgetExhausted 0), .commitBudgetExhausted 0⟩
  | single {id : Oid} {parent : Option Oid} {commit : Commit Oid} {deltas : List Delta}
    (room : maxCommits ≠ 0) (found : repository.findCommit id = .ok commit)
    (compared : repository.deltas id parent = .ok deltas) :
    Takes repository maxCommits (.single id parent) ⟨[⟨id, commit, deltas⟩], 1, 0, none, .notInRange⟩
  | range {head : Oid} {base : Option Oid} {revwalk : History.Revwalk Oid}
    {walk : List (Except ErrorCode Oid)} {reads : List (Option (Visited Oid))}
    (opened : repository.revwalk = .ok revwalk) (started : revwalk.start [head] none base = .ok walk)
    (each : List.Forall₂ (Reads repository) (walk.take maxCommits) reads) :
    Takes repository maxCommits (.range head base) (Course.ofRange maxCommits walk reads)

namespace Builder

variable {self next final : Builder Oid} {recorded : List (Visited Oid)} {repository : Repository Oid}
  {cancelled : ℕ → Bool}

theorem Records.of_eq (records : self.Records recorded) (options : next.options = self.options)
    (index : next.producerIndex = self.producerIndex) (producers : next.producers = self.producers)
    (commits : next.commits = self.commits) (perPath : next.perPath = self.perPath)
    (discovered : next.discovered = self.discovered) : next.Records recorded where
  interns := by
    have interns := records.interns
    exact ⟨producers ▸ interns.keys, index ▸ interns.index, producers ▸ interns.first,
      producers ▸ interns.authors⟩
  commits := commits.trans records.commits
  perPath := by rw [perPath, options]; exact records.perPath
  found := by rw [discovered, options]; exact records.found

theorem filter_contributes (paths : ProvenancePaths) (visited : Visited Oid) :
    [visited].filter (·.contributes paths) = if visited.contributes paths then [visited] else [] := by
  rw [List.filter_singleton]
  cases visited.contributes paths <;> rfl

/-- What a step of the walk has to do with the commits recorded. -/
theorem Records.take (records : self.Records recorded) {item : Except ErrorCode Oid}
    (taken : self.take repository item = .ok next) :
    ∃ read, Reads repository item read ∧ next.options = self.options ∧
      next.Records (recorded ++ read.toList.filter (·.contributes self.options.paths)) ∧
      next.walkedCommits = self.walkedCommits + 1 ∧
      next.skippedMerges = self.skippedMerges + (if read.isNone then 1 else 0) ∧
      next.truncation = self.truncation ∧ next.defaultGap = self.defaultGap := by
  unfold Builder.take at taken
  obtain ⟨id, found, taken⟩ := Except.bind_eq_ok.mp taken
  have item_ := Except.mapError_eq_ok.mp found
  obtain ⟨commit, read, taken⟩ := Except.bind_eq_ok.mp taken
  have commit_ := Except.mapError_eq_ok.mp read
  dsimp only at taken
  split_ifs at taken with merge
  · obtain rfl := Except.ok.inj taken
    refine ⟨none, ⟨id, commit, item_, commit_, merge⟩, rfl, ?_, rfl, rfl, rfl, rfl⟩
    rw [Option.toList_none, List.filter_nil, List.append_nil]
    exact records.of_eq rfl rfl rfl rfl rfl rfl
  · unfold Builder.record at taken
    obtain ⟨deltas, compared, taken⟩ := Except.bind_eq_ok.mp taken
    have deltas_ := Except.mapError_eq_ok.mp compared
    obtain rfl := Except.ok.inj taken
    have walked : Records { self with walkedCommits := self.walkedCommits + 1 } recorded :=
      records.of_eq rfl rfl rfl rfl rfl rfl
    obtain ⟨after, _, _, _, _, _, only⟩ := walked.recordDeltas ⟨id, commit, deltas⟩
    refine ⟨some ⟨id, commit, deltas⟩, ⟨item_, commit_, Nat.not_lt.mp merge, deltas_⟩, ?_⟩
    rw [Option.toList_some, filter_contributes]
    dsimp only at only after
    refine ⟨?_, after, ?_, ?_, ?_, ?_⟩
    all_goals rw [only]
    rfl

/-- What a walk has recorded when it ends well. -/
theorem Records.walkFrom (records : self.Records recorded) {empty : Bool}
    {walk : List (Except ErrorCode Oid)} (within : self.walkedCommits ≤ self.options.maxCommits)
    (walked : walkFrom repository cancelled empty walk self = .ok final) :
    ∃ reads, List.Forall₂ (Reads repository)
        (walk.take (self.options.maxCommits - self.walkedCommits)) reads ∧
      final.options = self.options ∧
      final.Records (recorded ++ reads.reduceOption.filter (·.contributes self.options.paths)) ∧
      final.walkedCommits = self.walkedCommits + reads.length ∧
      final.skippedMerges = self.skippedMerges + reads.countP Option.isNone ∧
      if self.options.maxCommits - self.walkedCommits < walk.length then
        final.truncation = some (.commitBudgetExhausted self.options.maxCommits) ∧
          final.defaultGap = .commitBudgetExhausted self.options.maxCommits
      else
        final.truncation = self.truncation ∧
          final.defaultGap = if empty ∧ walk = [] then .emptyRange else self.defaultGap := by
  induction walk generalizing self recorded empty with
  | nil =>
    unfold Builder.walkFrom at walked
    obtain ⟨-, walked⟩ := Except.bind_unit_eq_ok.mp walked
    obtain rfl := Except.ok.inj walked
    refine ⟨[], by rw [List.take_nil]; exact .nil, ?_⟩
    have short : ¬self.options.maxCommits - self.walkedCommits <
        ([] : List (Except ErrorCode Oid)).length := Nat.not_lt_zero _
    rw [List.reduceOption_nil, List.filter_nil, List.append_nil, if_neg short]
    cases empty with
    | true => exact ⟨rfl, records.of_eq rfl rfl rfl rfl rfl rfl, rfl, rfl, rfl, rfl⟩
    | false => exact ⟨rfl, records, rfl, rfl, rfl, rfl⟩
  | cons item walk ih =>
    unfold Builder.walkFrom at walked
    obtain ⟨-, walked⟩ := Except.bind_unit_eq_ok.mp walked
    split_ifs at walked with room
    · obtain ⟨next, taken, walked⟩ := Except.bind_eq_ok.mp walked
      obtain ⟨read, reads_, options, after, count, merges, truncation, gap⟩ := records.take taken
      have still : next.walkedCommits ≤ next.options.maxCommits := by
        rw [options, count]
        omega
      obtain ⟨reads, each, options', records', count', merges', ends⟩ := ih after still walked
      rw [options, count] at each ends
      have budget : self.options.maxCommits - self.walkedCommits =
          self.options.maxCommits - (self.walkedCommits + 1) + 1 := by omega
      refine ⟨read :: reads, ?_, options'.trans options, ?_, ?_, ?_, ?_⟩
      · rw [budget, List.take_succ_cons]
        exact .cons reads_ each
      · have both : (read :: reads).reduceOption = read.toList ++ reads.reduceOption := by
          cases read <;> rfl
        rw [both, List.filter_append, ← List.append_assoc]
        rw [options] at records'
        exact records'
      · rw [count', count, List.length_cons]
        omega
      · rw [merges', merges, List.countP_cons]
        omega
      · rw [truncation, gap, if_neg fun both : false = true ∧ _ => Bool.false_ne_true both.1] at ends
        rw [List.length_cons, budget, if_neg fun both : _ ∧ item :: walk = [] => List.cons_ne_nil _ _ both.2]
        simp only [Nat.add_lt_add_iff_right]
        exact ends
    · obtain rfl := Except.ok.inj walked
      have full : self.options.maxCommits - self.walkedCommits = 0 := by omega
      rw [full]
      refine ⟨[], .nil, rfl, ?_, rfl, rfl, ?_⟩
      · rw [List.reduceOption_nil, List.filter_nil, List.append_nil]
        exact records.of_eq rfl rfl rfl rfl rfl rfl
      · have cut : 0 < (item :: walk).length := Nat.succ_pos _
        rw [if_pos cut]
        exact ⟨rfl, rfl⟩

/-- A builder that has run a course to its end. -/
structure Ran (builder : Builder Oid) (options : ProvenanceOptions) (course : Course Oid) : Prop where
  options_eq : builder.options = options
  records : builder.Records (course.compared.filter (·.contributes options.paths))
  walkedCommits : builder.walkedCommits = course.walkedCommits
  skippedMerges : builder.skippedMerges = course.skippedMerges
  truncation : builder.truncation = course.truncation
  gap : builder.defaultGap = course.gap

variable [DecidableEq Oid]

theorem ran_walkRange {options : ProvenanceOptions} {head : Oid} {base : Option Oid}
    (walked : (Builder.new options).walkRange repository cancelled head base = .ok final) :
    ∃ course, Takes repository options.maxCommits (.range head base) course ∧ final.Ran options course := by
  unfold walkRange at walked
  obtain ⟨revwalk, opened, walked⟩ := Except.bind_eq_ok.mp walked
  obtain ⟨walk, started, walked⟩ := Except.bind_eq_ok.mp walked
  obtain ⟨reads, each, options_, records, count, merges, ends⟩ :=
    (records_new options).walkFrom (Nat.zero_le _) walked
  rw [List.nil_append] at records
  refine ⟨_, .range (Except.mapError_eq_ok.mp opened) started each, options_, records,
    count.trans (Nat.zero_add _), merges.trans (Nat.zero_add _), ?_, ?_⟩
  · change final.truncation = if options.maxCommits < walk.length then _ else none
    change if options.maxCommits - 0 < walk.length then _ else _ at ends
    rw [Nat.sub_zero] at ends
    by_cases cut : options.maxCommits < walk.length
    · rw [if_pos cut] at ends ⊢
      exact ends.1
    · rw [if_neg cut] at ends ⊢
      exact ends.1
  · change final.defaultGap = if options.maxCommits < walk.length then _ else _
    change if options.maxCommits - 0 < walk.length then _ else _ at ends
    rw [Nat.sub_zero] at ends
    by_cases cut : options.maxCommits < walk.length
    · rw [if_pos cut] at ends ⊢
      exact ends.2
    · rw [if_neg cut] at ends ⊢
      rw [ends.2]
      exact if_congr (and_iff_right rfl) rfl rfl

theorem ran_visit {options : ProvenanceOptions} {id : Oid} {parent : Option Oid}
    (visited : (Builder.new options).visit repository cancelled id parent = .ok final) :
    ∃ course, Takes repository options.maxCommits (.single id parent) course ∧ final.Ran options course := by
  unfold visit at visited
  obtain ⟨-, visited⟩ := Except.bind_unit_eq_ok.mp visited
  split_ifs at visited with none_
  · obtain rfl := Except.ok.inj visited
    exact ⟨_, .budgetless none_, rfl, (records_new options).of_eq rfl rfl rfl rfl rfl rfl, rfl, rfl, rfl, rfl⟩
  · obtain ⟨commit, read, visited⟩ := Except.bind_eq_ok.mp visited
    unfold Builder.record at visited
    obtain ⟨deltas, compared, visited⟩ := Except.bind_eq_ok.mp visited
    obtain rfl := Except.ok.inj visited
    have walked : Records { (Builder.new options : Builder Oid) with
        walkedCommits := (Builder.new options : Builder Oid).walkedCommits + 1 } [] :=
      (records_new options).of_eq rfl rfl rfl rfl rfl rfl
    obtain ⟨after, _, _, _, _, _, only⟩ := walked.recordDeltas ⟨id, commit, deltas⟩
    refine ⟨_, .single none_ (Except.mapError_eq_ok.mp read) (Except.mapError_eq_ok.mp compared), ?_⟩
    dsimp only at only after
    rw [List.nil_append, ← filter_contributes] at after
    refine ⟨?_, after, ?_, ?_, ?_, ?_⟩
    all_goals rw [only]
    all_goals rfl

theorem ran_walk {options : ProvenanceOptions} {walk : Walk Oid}
    (walked : (Builder.new options).walk repository cancelled walk = .ok final) :
    ∃ course, Takes repository options.maxCommits walk course ∧ final.Ran options course := by
  cases walk with
  | uncommitted =>
    obtain rfl := Except.ok.inj walked
    exact ⟨_, .uncommitted, rfl, (records_new options).of_eq rfl rfl rfl rfl rfl rfl, rfl, rfl, rfl, rfl⟩
  | single commit parent => exact ran_visit walked
  | range head base => exact ran_walkRange walked

end Builder

/-- The commits of a course that the answer lists. -/
def Course.recorded (course : Course Oid) (paths : ProvenancePaths) : List (Visited Oid) :=
  course.compared.filter (·.contributes paths)

/-- What one entry of an answer says of its path. -/
structure FileProvenance.Exact (file : FileProvenance) (paths : ProvenancePaths) (course : Course Oid) :
    Prop where
  /-- Its numbers are those of all commits compared that name the path, as the answer lists them. -/
  commits : file.commits = numbersOf (course.recorded paths) file.path.components ∧
    file.commits.filterMap ((course.recorded paths)[·]?) =
      course.compared.filter fun visited => visited.names file.path.components
  /-- Its producers are the identities these commits record, each once. -/
  producers : file.producers = (keysOf (mentionsOf (course.compared.filter fun visited =>
    visited.names file.path.components))).eraseDups.map (numberOf (mentionsOf (course.recorded paths)))
  gap : file.gap =
    if (course.compared.any fun visited => visited.names file.path.components) then none
    else some course.gap

/-- What an answer says, in terms of the commits that were compared. -/
structure ChangeProvenance.Exact (answer : ChangeProvenance Oid) (paths : ProvenancePaths)
    (course : Course Oid) : Prop where
  commits : answer.commits = (course.recorded paths).map fun visited =>
    Builder.attributionOf (mentionsOf (course.recorded paths)) visited.id visited.commit
  /-- The producers are the distinct identities of these commits, numbered as they first appear. -/
  keys : answer.producers.map (fun producer => identityKey producer.identity) =
    (keysOf (mentionsOf (course.recorded paths))).eraseDups
  spelled : ∀ producer ∈ answer.producers,
    (((mentionsOf (course.recorded paths)).map Prod.snd).find? fun identity =>
      identityKey identity = identityKey producer.identity) = some producer.identity
  authors : ∀ producer ∈ answer.producers, producer.kind = .author ↔
    ∃ visited ∈ course.recorded paths, identityKey producer.identity =
      identityKey ⟨visited.commit.author.name, visited.commit.author.email⟩
  /-- One entry for each path asked for, in that order. -/
  requested : ∀ requested, paths = .only requested → answer.files.map (·.path) = requested
  /-- Or one for each path that any commit names, ordered by bytes. -/
  all : paths = .all → (answer.files.map (·.path.bytes)).Pairwise (· ≤ ·) ∧
    (answer.files.map (·.path.components)).Nodup ∧
    ∀ components, components ∈ answer.files.map (·.path.components) ↔
      ∃ visited ∈ course.compared, visited.names components = true
  files : ∀ file ∈ answer.files, file.Exact paths course
  counts : answer.walkedCommits = course.walkedCommits ∧ answer.skippedMerges = course.skippedMerges
  truncation : answer.truncation = course.truncation

theorem filter_names_of_wanted {paths : ProvenancePaths} {components : List Platform.Component}
    (wanted : paths.wanted components = true) (compared : List (Visited Oid)) :
    (compared.filter (·.contributes paths)).filter (fun visited => visited.names components) =
      compared.filter fun visited => visited.names components := by
  rw [List.filter_filter]
  refine List.filter_congr fun visited _ => ?_
  cases named : visited.names components with
  | false => rfl
  | true =>
    obtain ⟨path, listed, same⟩ := List.mem_map.mp (names_iff.mp named)
    exact List.any_eq_true.mpr ⟨path, listed, same ▸ wanted⟩

theorem numbersOf_eq_nil {recorded : List (Visited Oid)} {components : List Platform.Component} :
    numbersOf recorded components = [] ↔
      recorded.filter (fun visited => visited.names components) = [] := by
  rw [← filterMap_numbersOf]
  refine ⟨fun none_ => by rw [none_, List.filterMap_nil], fun none_ => ?_⟩
  refine List.eq_nil_iff_forall_not_mem.mpr fun number member => ?_
  obtain ⟨visited, here, -⟩ := mem_numbersOf.mp member
  exact Option.some_ne_none _ (here.symm.trans (List.filterMap_eq_nil_iff.mp none_ number member))

namespace Builder

variable {self : Builder Oid} {recorded : List (Visited Oid)}

/-- The producers of the commits with some numbers, one after the other. -/
theorem foldl_pushMissing (commits : List (CommitAttribution Oid)) (numbers known : List ℕ) :
    numbers.foldl (fun producers number =>
        pushMissing producers ((commits[number]?.map (·.producers)).getD [])) known.eraseDups =
      (known ++ (numbers.filterMap (commits[·]?)).flatMap (·.producers)).eraseDups := by
  induction numbers generalizing known with
  | nil => rw [List.filterMap_nil, List.flatMap_nil, List.append_nil, List.foldl_nil]
  | cons number numbers ih =>
    rw [List.foldl_cons, pushMissing, List.foldl_eraseDups, ih, List.append_assoc]
    congr 2
    cases here : commits[number]? with
    | none => rw [List.filterMap_cons_none here]; rfl
    | some commit => rw [List.filterMap_cons_some here]; rfl

/-- The table of the numbers of some keys is the numbers of their table. -/
theorem eraseDups_map_numberOf {mentioned : List (ProducerKind × Identity)} {keys : List Bytes}
    (inside : ∀ key ∈ keys, key ∈ keysOf mentioned) :
    (keys.map (numberOf mentioned)).eraseDups = keys.eraseDups.map (numberOf mentioned) :=
  List.eraseDups_map fun key listed _ _ same => numberOf_inj (inside key listed) same

/-- The entry of a wanted path, from the commits that are recorded. -/
theorem Records.file (records : self.Records recorded) {path : PathBuf}
    (wanted : self.options.paths.wanted path.components = true) :
    self.file path = ⟨path, numbersOf recorded path.components,
      (keysOf (mentionsOf (recorded.filter fun visited => visited.names path.components))).eraseDups.map
        (numberOf (mentionsOf recorded)),
      if numbersOf recorded path.components = [] then some self.defaultGap else none⟩ := by
  generalize named : (recorded.filter fun visited => visited.names path.components) = naming
  have numbers : (self.perPath path.components).getD [] = numbersOf recorded path.components := by
    rw [records.perPath]
    split_ifs with held
    · rfl
    · exact (not_not.mp fun numbered => held ⟨wanted, numbered⟩).symm
  have listed : (numbersOf recorded path.components).filterMap (self.commits[·]?) =
      naming.map fun visited => attributionOf (mentionsOf recorded) visited.id visited.commit := by
    rw [← named, ← filterMap_numbersOf recorded path.components, List.map_filterMap, records.commits]
    exact List.filterMap_congr fun number _ => List.getElem?_map
  have inside : ∀ key ∈ naming.flatMap (fun visited => (keysOf (mentions visited.commit)).eraseDups),
      key ∈ keysOf (mentionsOf recorded) := by
    intro key member
    obtain ⟨visited, member, mentioned⟩ := List.mem_flatMap.mp member
    rw [← named] at member
    exact key_mem_mentionsOf (List.mem_of_mem_filter member) (List.mem_eraseDups.mp mentioned)
  have producers : (naming.map fun visited =>
        attributionOf (mentionsOf recorded) visited.id visited.commit).flatMap (·.producers) =
      (naming.flatMap fun visited => (keysOf (mentions visited.commit)).eraseDups).map
        (numberOf (mentionsOf recorded)) := by
    rw [List.flatMap_map, List.map_flatMap]
    rfl
  have keys : naming.flatMap (fun visited => keysOf (mentions visited.commit)) =
      keysOf (mentionsOf naming) := (List.map_flatMap ..).symm
  have start := foldl_pushMissing self.commits (numbersOf recorded path.components) []
  rw [listed, List.nil_append, producers, eraseDups_map_numberOf inside,
    List.eraseDups_flatMap_eraseDups, keys] at start
  unfold Builder.file
  rw [numbers]
  dsimp only
  rw [← start]
  rfl

theorem author_mem_mentionsOf {identity : Identity} :
    (ProducerKind.author, identity) ∈ mentionsOf recorded ↔
      ∃ visited ∈ recorded, identity = ⟨visited.commit.author.name, visited.commit.author.email⟩ := by
  rw [mentionsOf, List.mem_flatMap]
  refine exists_congr fun visited => and_congr_right fun _ => ?_
  rw [mentions, List.mem_cons, Prod.mk.injEq, eq_self_iff_true, true_and, or_iff_left]
  intro listed
  obtain ⟨coAuthor, -, same⟩ := List.mem_map.mp listed
  cases same

/-- Every path of the answer is one that was asked for. -/
theorem wanted_of_mem_paths {path : PathBuf} (member : path ∈ self.paths) :
    self.options.paths.wanted path.components = true := by
  unfold Builder.paths at member
  unfold ProvenancePaths.wanted
  cases asked : self.options.paths.requested with
  | none => rfl
  | some requested =>
    rw [asked, Option.getD_some] at member
    exact List.contains_iff_mem.mpr (List.mem_map_of_mem member)

/-- Where every path is wanted, the answer is about those that any commit names. -/
theorem Records.paths_all (records : self.Records recorded) (all : self.options.paths = .all) :
    (self.paths.map (·.bytes)).Pairwise (· ≤ ·) ∧ (self.paths.map PathBuf.components).Nodup ∧
      ∀ components, components ∈ self.paths.map PathBuf.components ↔
        ∃ visited ∈ recorded, visited.names components = true := by
  have asked : self.options.paths.requested = none := by rw [all]; rfl
  have sorted : self.paths =
      self.discovered.insertionSort fun left right => left.bytes ≤ right.bytes := by
    rw [Builder.paths, asked, Option.getD_none]
  have perm : (self.paths.map PathBuf.components).Perm (self.discovered.map PathBuf.components) := by
    rw [sorted]
    exact (List.perm_insertionSort ..).map _
  have found := (records.found asked).1
  refine ⟨?_, ?_, fun components => ?_⟩
  · rw [sorted, List.pairwise_map]
    exact List.pairwise_insertionSort ..
  · rw [perm.nodup_iff, found]
    exact List.nodup_eraseDups _
  · rw [perm.mem_iff, found, List.mem_eraseDups, touchedOf, List.map_flatMap, List.mem_flatMap]
    exact exists_congr fun visited => and_congr_right fun _ => names_iff.symm

/-- An answer says of a course what it should, whatever its target and range are described as. -/
theorem Ran.exact {options : ProvenanceOptions} {course : Course Oid} (ran : self.Ran options course)
    (target : DiffTarget) (range : Option (ProvenanceRange Oid)) :
    (self.finish target range).Exact options.paths course := by
  have paths := congrArg ProvenanceOptions.paths ran.options_eq
  have records := ran.records
  refine ⟨records.commits, records.interns.keys, records.interns.first, fun producer member => ?_,
    fun requested asked => ?_, fun all => ?_, fun file member => ?_,
    ⟨ran.walkedCommits, ran.skippedMerges⟩, ran.truncation⟩
  · rw [records.interns.authors producer member]
    constructor
    · rintro ⟨identity, author, same⟩
      obtain ⟨visited, recorded, rfl⟩ := author_mem_mentionsOf.mp author
      exact ⟨visited, recorded, same.symm⟩
    · rintro ⟨visited, recorded, same⟩
      exact ⟨_, author_mem_mentionsOf.mpr ⟨visited, recorded, rfl⟩, same.symm⟩
  · change (self.paths.map self.file).map (·.path) = requested
    rw [List.map_map, Builder.paths, paths, asked]
    exact List.map_id _
  · rw [all] at paths records
    obtain ⟨sorted, nodup, found⟩ := records.paths_all paths
    change ((self.paths.map self.file).map _).Pairwise _ ∧ ((self.paths.map self.file).map _).Nodup ∧
      ∀ components, components ∈ (self.paths.map self.file).map _ ↔ _
    rw [List.map_map, List.map_map]
    refine ⟨sorted, nodup, fun components => (found components).trans ?_⟩
    constructor
    · rintro ⟨visited, recorded, named⟩
      exact ⟨visited, List.mem_of_mem_filter recorded, named⟩
    · rintro ⟨visited, compared, named⟩
      refine ⟨visited, List.mem_filter.mpr ⟨compared, ?_⟩, named⟩
      obtain ⟨path, touched, -⟩ := List.any_eq_true.mp named
      exact List.any_eq_true.mpr ⟨path, touched, rfl⟩
  · obtain ⟨path, listed, rfl⟩ := List.mem_map.mp member
    have wanted := wanted_of_mem_paths listed
    have naming := filter_names_of_wanted (paths ▸ wanted) course.compared
    rw [records.file wanted, naming]
    refine ⟨⟨rfl, ?_⟩, rfl, ?_⟩
    · exact (filterMap_numbersOf _ _).trans naming
    · rw [ran.gap]
      by_cases named : course.compared.any fun visited => visited.names path.components
      · rw [if_pos named, if_neg]
        rw [numbersOf_eq_nil, naming, List.filter_eq_nil_iff]
        intro none_
        obtain ⟨visited, compared, names⟩ := List.any_eq_true.mp named
        exact none_ visited compared names
      · rw [if_neg named, if_pos]
        rw [numbersOf_eq_nil, naming, List.filter_eq_nil_iff]
        exact fun visited compared names => named (List.any_eq_true.mpr ⟨visited, compared, names⟩)

end Builder

theorem openRepository_eq_ok {opened : Except ErrorCode (Repository Oid)} {repository : Repository Oid}
    (open_ : openRepository opened = .ok repository) : opened = .ok repository := by
  unfold openRepository at open_
  split at open_
  · split_ifs at open_
    rw [Except.ok.inj open_]
  · cases open_
  · cases open_

/-- The course on which nothing is read. -/
def Course.unread : Course Oid := ⟨[], 0, 0, none, .notInRange⟩

/-- An attribution that resolves says exactly what the commits it compared say: those of the walk its
target plans, up to the budget, or none where no path was asked for. -/
theorem resolve_exact [DecidableEq Oid] {opened : Except ErrorCode (Repository Oid)} {cancelled : ℕ → Bool}
    {target : DiffTarget} {options : ProvenanceOptions} {answer : ChangeProvenance Oid}
    (resolved : resolve opened cancelled target options = .ok answer) :
    ∃ repository walk course, opened = .ok repository ∧
      plan repository target options.headReference = .ok (walk, answer.range) ∧
      answer.target = target ∧
      (if options.paths = .only [] then course = Course.unread
        else Takes repository options.maxCommits walk course) ∧
      answer.Exact options.paths course := by
  unfold resolve at resolved
  obtain ⟨-, resolved⟩ := Except.bind_unit_eq_ok.mp resolved
  obtain ⟨repository, open_, resolved⟩ := Except.bind_eq_ok.mp resolved
  obtain ⟨⟨walk, range⟩, planned, resolved⟩ := Except.bind_eq_ok.mp resolved
  have repository_ : opened = .ok repository := openRepository_eq_ok (Except.mapError_eq_ok.mp open_)
  dsimp only at resolved
  split_ifs at resolved with narrowed
  · obtain rfl := Except.ok.inj resolved
    have unread : (Builder.new options : Builder Oid).Ran options Course.unread :=
      ⟨rfl, Builder.records_new options, rfl, rfl, rfl, rfl⟩
    exact ⟨repository, walk, .unread, repository_, planned, rfl, if_pos narrowed ▸ rfl,
      unread.exact target range⟩
  · obtain ⟨builder, walked, resolved⟩ := Except.bind_eq_ok.mp resolved
    obtain rfl := Except.ok.inj resolved
    obtain ⟨course, takes, ran⟩ := Builder.ran_walk (Except.mapError_eq_ok.mp walked)
    refine ⟨repository, walk, course, repository_, planned, rfl, ?_, ran.exact target range⟩
    rw [if_neg narrowed]
    exact takes

/-- Two commits on a root, the later one a merge; each commit changes the same file. -/
def sampleHistory : Repository ℕ where
  hasWorkdir := true
  revparseSingle revision := .ok revision.length
  peelToCommit id := .ok id
  headFailure := none
  mergeBase one two := .ok (min one two)
  findCommit id := .ok ⟨List.range id, ⟨[], [], ⟨0, 0, '+'⟩⟩, ⟨[], [], ⟨0, 0, '+'⟩⟩, []⟩
  revwalk := .ok ⟨fun _ => none, fun _ => none, fun starts hidden =>
    ((List.range (starts.foldr max 0 + 1)).reverse.filter fun id =>
      starts.any (id ≤ ·) && hidden.all (· < id)).map .ok⟩
  deltas _ _ := .ok [⟨.modified, some ⟨[97]⟩, none⟩]

def sampleOptions : ProvenanceOptions := ⟨.only [⟨[97]⟩], 10, none⟩

def sampleAnswer : ChangeProvenance ℕ where
  target := .revisions "" "aa"
  range := some ⟨2, some 0, "aa", none, none⟩
  producers := [⟨.author, ⟨[], []⟩⟩]
  commits := [⟨1, ⟨[], [], ⟨0, 0, '+'⟩⟩, ⟨[], [], ⟨0, 0, '+'⟩⟩, [], [0]⟩]
  files := [⟨⟨[97]⟩, [0], [0], none⟩]
  walkedCommits := 2
  skippedMerges := 1
  truncation := none

theorem resolve_sample :
    resolve (.ok sampleHistory) (fun _ => false) (.revisions "" "aa") sampleOptions = .ok sampleAnswer := rfl

theorem resolve_exact_sample :
    ∃ repository walk course, (.ok sampleHistory : Except ErrorCode _) = .ok repository ∧
      plan repository (.revisions "" "aa") sampleOptions.headReference = .ok (walk, sampleAnswer.range) ∧
      sampleAnswer.target = .revisions "" "aa" ∧
      (if sampleOptions.paths = .only [] then course = Course.unread
        else Takes repository sampleOptions.maxCommits walk course) ∧
      sampleAnswer.Exact sampleOptions.paths course :=
  resolve_exact resolve_sample

end Harkness.Git.Provenance
