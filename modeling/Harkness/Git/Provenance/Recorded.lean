import Harkness.Git.Provenance.Interning

/-! # What an attribution holds of the commits it recorded

A builder that was given commits one after the other holds those whose comparison names a wanted path,
numbered in that order. A wanted path has the numbers of the commits that name it, on either side, each
once; and where every path is wanted, the paths found are those named by any commit.
-/

namespace Harkness.Git.Provenance

open History (Commit)

variable {Oid : Type}

/-- A commit with what its comparison says. -/
structure Visited (Oid : Type) where
  id : Oid
  commit : Commit Oid
  deltas : List Delta

/-- Whether the comparison of a commit names a path with these components, on either side. -/
def Visited.names (visited : Visited Oid) (components : List Platform.Component) : Bool :=
  (Builder.touched visited.deltas).any fun path => path.components = components

/-- Whether the comparison of a commit names any path that is wanted. -/
def Visited.contributes (paths : ProvenancePaths) (visited : Visited Oid) : Bool :=
  (Builder.touched visited.deltas).any fun path => paths.wanted path.components

/-- The numbers of the commits that name a path. -/
def numbersOf (recorded : List (Visited Oid)) (components : List Platform.Component) : List ℕ :=
  (recorded.zipIdx.filter fun entry => entry.1.names components).map Prod.snd

/-- Whom the recorded commits name. -/
def mentionsOf (recorded : List (Visited Oid)) : List (ProducerKind × Identity) :=
  recorded.flatMap fun visited => mentions visited.commit

/-- The paths the recorded commits touch. -/
def touchedOf (recorded : List (Visited Oid)) : List PathBuf :=
  recorded.flatMap fun visited => Builder.touched visited.deltas

variable {recorded : List (Visited Oid)} {visited : Visited Oid} {components : List Platform.Component}

theorem numbersOf_concat (recorded : List (Visited Oid)) (visited : Visited Oid)
    (components : List Platform.Component) : numbersOf (recorded ++ [visited]) components =
      numbersOf recorded components ++ if visited.names components then [recorded.length] else [] := by
  rw [numbersOf, numbersOf, List.zipIdx_append, List.filter_append, List.map_append]
  congr 1
  rw [List.zipIdx_singleton, Nat.zero_add]
  cases named : visited.names components <;> simp [List.filter, named]

theorem mem_numbersOf {number : ℕ} : number ∈ numbersOf recorded components ↔
    ∃ visited, recorded[number]? = some visited ∧ visited.names components = true := by
  rw [numbersOf, List.mem_map]
  constructor
  · rintro ⟨⟨visited, place⟩, member, rfl⟩
    obtain ⟨listed, named⟩ := List.mem_filter.mp member
    exact ⟨visited, List.mk_mem_zipIdx_iff_getElem?.mp listed, named⟩
  · rintro ⟨visited, here, named⟩
    exact ⟨(visited, number),
      List.mem_filter.mpr ⟨List.mk_mem_zipIdx_iff_getElem?.mpr here, named⟩, rfl⟩

/-- The numbers stand for the commits that name the path. -/
theorem filterMap_numbersOf (recorded : List (Visited Oid)) (components : List Platform.Component) :
    (numbersOf recorded components).filterMap (recorded[·]?) =
      recorded.filter fun visited => visited.names components := by
  induction recorded using List.reverseRecOn with
  | nil => rfl
  | append_singleton recorded visited ih =>
    have early : (numbersOf recorded components).filterMap ((recorded ++ [visited])[·]?) =
        (numbersOf recorded components).filterMap (recorded[·]?) := by
      refine List.filterMap_congr fun number member => ?_
      obtain ⟨found, here, -⟩ := mem_numbersOf.mp member
      exact List.getElem?_append_left (List.getElem?_eq_some_iff.mp here).1
    rw [numbersOf_concat, List.filterMap_append, early, ih, List.filter_append]
    congr 1
    cases named : visited.names components <;> simp [List.filter, named]

theorem names_iff : visited.names components = true ↔
    components ∈ (Builder.touched visited.deltas).map PathBuf.components := by
  rw [Visited.names, List.any_eq_true, List.mem_map]
  exact exists_congr fun path => and_congr_right fun _ => decide_eq_true_iff

theorem numbersOf_ne_nil : numbersOf recorded components ≠ [] ↔
    components ∈ (touchedOf recorded).map PathBuf.components := by
  rw [touchedOf, List.map_flatMap, List.mem_flatMap]
  constructor
  · intro filled
    obtain ⟨number, member⟩ := List.exists_mem_of_ne_nil _ filled
    obtain ⟨visited, here, named⟩ := mem_numbersOf.mp member
    exact ⟨visited, List.mem_of_getElem? here, names_iff.mp named⟩
  · rintro ⟨visited, member, named⟩
    obtain ⟨number, here⟩ := List.mem_iff_getElem?.mp member
    exact List.ne_nil_of_mem (mem_numbersOf.mpr ⟨visited, here, names_iff.mpr named⟩)

theorem mentionsOf_concat (recorded : List (Visited Oid)) (visited : Visited Oid) :
    mentionsOf (recorded ++ [visited]) = mentionsOf recorded ++ mentions visited.commit := by
  rw [mentionsOf, List.flatMap_append, List.flatMap_singleton]
  rfl

theorem touchedOf_concat (recorded : List (Visited Oid)) (visited : Visited Oid) :
    touchedOf (recorded ++ [visited]) = touchedOf recorded ++ Builder.touched visited.deltas := by
  rw [touchedOf, List.flatMap_append, List.flatMap_singleton]
  rfl

namespace Builder

/-- A path that is not wanted, or has the number of the commit already, changes nothing. -/
theorem attribute_of_nothing {self : Builder Oid} {commit : ℕ} {path : PathBuf}
    (nothing : self.options.paths.wanted path.components = true →
      ∃ entry, self.perPath path.components = some entry ∧ entry.getLast? = some commit) :
    self.attribute_ commit path = self := by
  unfold attribute_
  by_cases wanted : self.options.paths.wanted path.components = true
  · obtain ⟨entry, here, last⟩ := nothing wanted
    rw [if_pos wanted, here]
    exact if_pos last
  · exact if_neg wanted

/-- A wanted path gets the number of the commit, and is found where it had none. -/
theorem attribute_of_wanted {self : Builder Oid} {commit : ℕ} {path : PathBuf}
    (wanted : self.options.paths.wanted path.components = true)
    (old : ∀ entry, self.perPath path.components = some entry → entry.getLast? ≠ some commit) :
    self.attribute_ commit path = { self with
      perPath := Function.update self.perPath path.components
        (some ((self.perPath path.components).getD [] ++ [commit]))
      discovered :=
        if self.options.paths.requested = none ∧ self.perPath path.components = none then
          self.discovered ++ [path]
        else self.discovered } := by
  unfold attribute_
  rw [if_pos wanted]
  cases entry : self.perPath path.components with
  | none =>
    rw [Option.getD_none, List.nil_append]
    simp only [and_true]
  | some numbers =>
    have kept : ¬(self.options.paths.requested = none ∧ some numbers = none) :=
      fun both => Option.some_ne_none _ both.2
    dsimp only
    rw [if_neg (old numbers entry), if_neg kept]
    rfl

/-- What a builder has recorded of the first paths of one comparison, after the paths seen before. -/
structure Touching (builder next : Builder Oid) (commit : ℕ) (seen paths : List PathBuf) : Prop where
  only : next = { builder with perPath := next.perPath, discovered := next.discovered }
  perPath : ∀ components, next.perPath components =
    if builder.options.paths.wanted components ∧ components ∈ paths.map PathBuf.components then
      some ((builder.perPath components).getD [] ++ [commit])
    else builder.perPath components
  found : builder.options.paths.requested = none →
    next.discovered.map PathBuf.components = ((seen ++ paths).map PathBuf.components).eraseDups ∧
      ∀ path ∈ next.discovered, path ∈ seen ++ paths

/-- One path more is recorded, once. -/
theorem Touching.attribute {self next : Builder Oid} {commit : ℕ} {seen paths : List PathBuf}
    (touching : self.Touching next commit seen paths)
    (old : ∀ components entry, self.perPath components = some entry → entry.getLast? ≠ some commit)
    (unseen : self.options.paths.requested = none →
      ∀ components, self.perPath components = none ↔ components ∉ seen.map PathBuf.components)
    (path : PathBuf) : self.Touching (next.attribute_ commit path) commit seen (paths ++ [path]) := by
  have options : next.options = self.options := by rw [touching.only]
  have here := touching.perPath path.components
  have grown (components : List Platform.Component) :
      components ∈ (paths ++ [path]).map PathBuf.components ↔
        components ∈ paths.map PathBuf.components ∨ components = path.components := by
    rw [List.map_append, List.mem_append, List.map_singleton, List.mem_singleton]
  have keys : (seen ++ (paths ++ [path])).map PathBuf.components =
      (seen ++ paths).map PathBuf.components ++ [path.components] := by
    rw [← List.append_assoc, List.map_append, List.map_singleton]
  by_cases nothing : self.options.paths.wanted path.components = true →
      path.components ∈ paths.map PathBuf.components
  · have same : next.attribute_ commit path = next := by
      refine attribute_of_nothing fun wanted => ?_
      rw [options] at wanted
      rw [if_pos ⟨wanted, nothing wanted⟩] at here
      exact ⟨_, here, List.getLast?_concat⟩
    rw [same]
    refine ⟨touching.only, fun components => ?_, fun all => ?_⟩
    · rw [touching.perPath components]
      refine if_congr (and_congr_right fun wanted => ?_) rfl rfl
      rw [grown, or_iff_left_of_imp]
      rintro rfl
      exact nothing wanted
    · obtain ⟨table, listed⟩ := touching.found all
      have wanted : self.options.paths.wanted path.components = true := by
        rw [ProvenancePaths.wanted, all]
      have inside : path.components ∈ (seen ++ paths).map PathBuf.components := by
        rw [List.map_append]
        exact List.mem_append_right _ (nothing wanted)
      rw [keys, List.eraseDups_concat_of_mem inside, ← List.append_assoc]
      exact ⟨table, fun found member => List.mem_append_left _ (listed found member)⟩
  · obtain ⟨wanted, again⟩ := Classical.not_imp.mp nothing
    rw [if_neg fun both => again both.2] at here
    have last : ∀ entry, next.perPath path.components = some entry → entry.getLast? ≠ some commit :=
      fun entry held => old _ entry (here.symm.trans held)
    rw [attribute_of_wanted (options ▸ wanted) last, here, options]
    refine ⟨?_, fun components => ?_, fun all => ?_⟩
    · conv_lhs => rw [touching.only]
    · dsimp only
      rw [Function.update_apply]
      split_ifs with same both both
      · rw [same]
      · exact absurd ⟨same ▸ wanted, (grown components).mpr (.inr same)⟩ both
      · rw [touching.perPath components, if_pos ⟨both.1, ((grown components).mp both.2).resolve_right same⟩]
      · rw [touching.perPath components, if_neg fun old => both ⟨old.1, (grown components).mpr (.inl old.2)⟩]
    · obtain ⟨table, listed⟩ := touching.found all
      rw [keys, ← List.append_assoc]
      dsimp only
      by_cases missing : self.perPath path.components = none
      · have new : path.components ∉ (seen ++ paths).map PathBuf.components := by
          rw [List.map_append, List.mem_append, not_or]
          exact ⟨(unseen all path.components).mp missing, again⟩
        rw [if_pos ⟨all, missing⟩, List.map_append, List.map_singleton, table,
          List.eraseDups_concat_of_notMem new]
        refine ⟨rfl, fun found member => ?_⟩
        rw [List.mem_append] at member ⊢
        exact member.imp_left (listed found)
      · have inside : path.components ∈ (seen ++ paths).map PathBuf.components := by
          rw [List.map_append]
          exact List.mem_append_left _ (not_not.mp (mt (unseen all path.components).mpr missing))
        rw [if_neg fun both => missing both.2, List.eraseDups_concat_of_mem inside]
        exact ⟨table, fun found member => List.mem_append_left _ (listed found member)⟩

/-- The paths of one comparison are recorded with the number of their commit, once each. -/
theorem foldl_attribute (self : Builder Oid) (commit : ℕ) {seen : List PathBuf}
    (old : ∀ components entry, self.perPath components = some entry → entry.getLast? ≠ some commit)
    (found : self.options.paths.requested = none →
      self.discovered.map PathBuf.components = (seen.map PathBuf.components).eraseDups ∧
        (∀ path ∈ self.discovered, path ∈ seen) ∧
        ∀ components, self.perPath components = none ↔ components ∉ seen.map PathBuf.components)
    (paths : List PathBuf) :
    self.Touching (paths.foldl (fun builder path => builder.attribute_ commit path) self) commit seen
      paths := by
  induction paths using List.reverseRecOn with
  | nil =>
    refine ⟨rfl, fun components => ?_, fun all => ?_⟩
    · rw [List.map_nil, if_neg fun both => List.not_mem_nil both.2]
      rfl
    · rw [List.append_nil]
      exact ⟨(found all).1, (found all).2.1⟩
  | append_singleton paths path ih =>
    rw [List.foldl_append]
    exact ih.attribute old (fun all => (found all).2.2) path

/-- What a builder holds of the commits it has recorded. -/
structure Records (builder : Builder Oid) (recorded : List (Visited Oid)) : Prop where
  interns : builder.Interns (mentionsOf recorded)
  commits : builder.commits = recorded.map fun visited =>
    attributionOf (mentionsOf recorded) visited.id visited.commit
  perPath : ∀ components, builder.perPath components =
    if builder.options.paths.wanted components ∧ numbersOf recorded components ≠ [] then
      some (numbersOf recorded components) else none
  found : builder.options.paths.requested = none →
    builder.discovered.map PathBuf.components =
      ((touchedOf recorded).map PathBuf.components).eraseDups ∧
    ∀ path ∈ builder.discovered, path ∈ touchedOf recorded

theorem records_new (options : ProvenanceOptions) : (new options : Builder Oid).Records [] where
  interns := interns_new options
  commits := rfl
  perPath _ := (if_neg fun both => both.2 rfl).symm
  found _ := ⟨rfl, List.forall_mem_nil _⟩

/-- What is listed for a commit does not change as more are recorded. -/
theorem attributionOf_append {mentioned : List (ProducerKind × Identity)} {id : Oid} {commit : Commit Oid}
    (inside : ∀ key ∈ keysOf (mentions commit), key ∈ keysOf mentioned)
    (more : List (ProducerKind × Identity)) :
    attributionOf (mentioned ++ more) id commit = attributionOf mentioned id commit := by
  rw [attributionOf, attributionOf]
  congr 1
  refine List.map_congr_left fun key listed => ?_
  exact numberOf_append (inside key (List.mem_eraseDups.mp listed)) more

theorem key_mem_mentionsOf (member : visited ∈ recorded) {key : Bytes}
    (mentioned : key ∈ keysOf (mentions visited.commit)) : key ∈ keysOf (mentionsOf recorded) := by
  obtain ⟨mention, listed, rfl⟩ := List.mem_map.mp mentioned
  exact List.mem_map.mpr ⟨mention, List.mem_flatMap.mpr ⟨visited, member, listed⟩, rfl⟩

variable {self : Builder Oid}

/-- No path has the number that the next commit will get. -/
theorem Records.getLast?_ne (records : self.Records recorded) {components : List Platform.Component}
    {entry : List ℕ} (held : self.perPath components = some entry) :
    entry.getLast? ≠ some self.commits.length := by
  intro last
  have length : self.commits.length = recorded.length := by rw [records.commits, List.length_map]
  rw [records.perPath] at held
  split_ifs at held
  obtain rfl := Option.some.inj held
  obtain ⟨found, here, -⟩ := mem_numbersOf.mp (List.mem_of_getLast? last)
  have below := (List.getElem?_eq_some_iff.mp here).1
  omega

/-- Where every path is wanted, the paths without numbers are those no commit touched. -/
theorem Records.perPath_eq_none (records : self.Records recorded)
    (all : self.options.paths.requested = none) (components : List Platform.Component) :
    self.perPath components = none ↔ components ∉ (touchedOf recorded).map PathBuf.components := by
  have wanted : self.options.paths.wanted components = true := by rw [ProvenancePaths.wanted, all]
  rw [records.perPath, ← numbersOf_ne_nil, not_not]
  by_cases none_ : numbersOf recorded components = []
  · rw [if_neg fun both => both.2 none_]
    exact iff_of_true rfl none_
  · rw [if_pos ⟨wanted, none_⟩]
    exact iff_of_false (Option.some_ne_none _) none_

/-- A commit that names no wanted path is not recorded, and any other is. -/
theorem Records.recordDeltas (records : self.Records recorded) (visited : Visited Oid) :
    (self.recordDeltas visited.id visited.commit visited.deltas).Records
        (recorded ++ if visited.contributes self.options.paths then [visited] else []) ∧
      ∃ producers index commits perPath discovered,
        self.recordDeltas visited.id visited.commit visited.deltas = { self with
          producers := producers
          producerIndex := index
          commits := commits
          perPath := perPath
          discovered := discovered } := by
  have decided : ((touched visited.deltas).any fun path => self.options.paths.wanted path.components) =
      visited.contributes self.options.paths := rfl
  unfold Builder.recordDeltas
  rw [decided]
  split_ifs with contributes
  swap
  · rw [List.append_nil]
    exact ⟨records, _, _, _, _, _, rfl⟩
  have length : self.commits.length = recorded.length := by rw [records.commits, List.length_map]
  obtain ⟨interns, producers, index, pushed⟩ := records.interns.pushCommit visited.id visited.commit
  obtain ⟨only, entries, found⟩ :=
    foldl_attribute (self.pushCommit visited.id visited.commit) self.commits.length
      (by rw [pushed]; exact fun _ _ => records.getLast?_ne)
      (by
        rw [pushed]
        exact fun all => ⟨(records.found all).1, (records.found all).2, records.perPath_eq_none all⟩)
      (touched visited.deltas)
  generalize (touched visited.deltas).foldl (fun builder path =>
    builder.attribute_ self.commits.length path) (self.pushCommit visited.id visited.commit) = next
      at only entries found ⊢
  obtain ⟨perPath, discovered, same⟩ : ∃ perPath discovered, next =
      { self.pushCommit visited.id visited.commit with perPath := perPath, discovered := discovered } :=
    ⟨_, _, only⟩
  rw [same, pushed] at entries found
  dsimp only at entries found
  rw [same]
  refine ⟨⟨?_, ?_, fun components => ?_, fun all => ?_⟩, producers, index,
    (self.pushCommit visited.id visited.commit).commits, perPath, discovered, ?_⟩
  · rw [mentionsOf_concat]
    exact ⟨interns.keys, interns.index, interns.first, interns.authors⟩
  · have kept : self.commits = recorded.map fun visited' => attributionOf
        (mentionsOf recorded ++ mentions visited.commit) visited'.id visited'.commit := by
      rw [records.commits]
      exact List.map_congr_left fun other member =>
        (attributionOf_append (fun _ => key_mem_mentionsOf member) _).symm
    rw [mentionsOf_concat, List.map_append, ← kept]
    change (self.pushCommit visited.id visited.commit).commits = _
    rw [pushed]
    rfl
  · change perPath components = if (self.pushCommit visited.id visited.commit).options.paths.wanted
      components = true ∧ _ then _ else none
    have before := records.perPath components
    rw [entries components, numbersOf_concat, pushed, length]
    dsimp only
    by_cases wanted : self.options.paths.wanted components = true
    · by_cases named : visited.names components = true
      · have filled : numbersOf recorded components ++ [recorded.length] ≠ [] := by simp
        rw [if_pos ⟨wanted, names_iff.mp named⟩, if_pos named, if_pos ⟨wanted, filled⟩, before]
        split_ifs with held
        · rfl
        · rw [not_not.mp fun numbered => held ⟨wanted, numbered⟩]
          rfl
      · rw [if_neg fun both => named (names_iff.mpr both.2), if_neg named, List.append_nil, before]
    · rw [if_neg fun both => wanted both.1, before, if_neg fun both => wanted both.1,
        if_neg fun both => wanted both.1]
  · rw [touchedOf_concat]
    rw [pushed] at all
    exact found all
  · rw [pushed]

end Builder

end Harkness.Git.Provenance
