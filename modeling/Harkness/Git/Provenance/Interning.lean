import Harkness.Git.Provenance.Builder
import Harkness.ToMathlib.Interned

/-! # What the numbers of an attribution stand for

The producers of an answer are the distinct keys of the identities the recorded commits name, numbered
as they first appear: an author before the co-authors of the same commit. A later mention of a key
changes no number and no spelling; only an author's own commit makes a co-author an author.
-/

namespace Harkness.Git.Provenance

open History (Commit)

variable {Oid : Type}

/-- The identities of a commit, each as what it was named. -/
def mentions (commit : Commit Oid) : List (ProducerKind × Identity) :=
  (.author, ⟨commit.author.name, commit.author.email⟩) ::
    (coAuthors commit.message).map (Prod.mk .coAuthor)

/-- The keys of the identities that are mentioned. -/
def keysOf (mentioned : List (ProducerKind × Identity)) : List Bytes :=
  mentioned.map fun mention => identityKey mention.2

/-- The number of a key among those that are mentioned. -/
def numberOf (mentioned : List (ProducerKind × Identity)) (key : Bytes) : ℕ :=
  (keysOf mentioned).eraseDups.idxOf key

theorem keysOf_append (first second : List (ProducerKind × Identity)) :
    keysOf (first ++ second) = keysOf first ++ keysOf second := List.map_append

theorem numberOf_append {first : List (ProducerKind × Identity)} {key : Bytes}
    (inside : key ∈ keysOf first) (second : List (ProducerKind × Identity)) :
    numberOf (first ++ second) key = numberOf first key := by
  rw [numberOf, keysOf_append]
  exact List.idxOf_eraseDups_append inside _

theorem numberOf_inj {mentioned : List (ProducerKind × Identity)} {key other : Bytes}
    (inside : key ∈ keysOf mentioned) (same : numberOf mentioned key = numberOf mentioned other) :
    key = other :=
  (List.idxOf_inj (List.mem_eraseDups.mpr inside)).mp same

namespace Builder

/-- The producers are the identities mentioned so far, numbered as they first appear. -/
structure Interns (builder : Builder Oid) (mentioned : List (ProducerKind × Identity)) : Prop where
  keys : builder.producers.map (fun producer => identityKey producer.identity) = (keysOf mentioned).eraseDups
  index : ∀ key, builder.producerIndex key = (keysOf mentioned).eraseDups.idxOf? key
  first : ∀ producer ∈ builder.producers, ((mentioned.map Prod.snd).find? fun identity =>
    identityKey identity = identityKey producer.identity) = some producer.identity
  authors : ∀ producer ∈ builder.producers, producer.kind = .author ↔
    ∃ identity, (.author, identity) ∈ mentioned ∧ identityKey identity = identityKey producer.identity

theorem interns_new (options : ProvenanceOptions) : (new options : Builder Oid).Interns [] where
  keys := rfl
  index _ := rfl
  first _ member := absurd member List.not_mem_nil
  authors _ member := absurd member List.not_mem_nil

variable {self : Builder Oid} {mentioned : List (ProducerKind × Identity)}

/-- A key that was mentioned has its number, and another mention of it changes at most what its
producer is. -/
theorem Interns.again (interns : self.Interns mentioned) {kind : ProducerKind} {identity : Identity}
    (known : identityKey identity ∈ keysOf mentioned) :
    self.producer kind identity =
      (if kind = .author then
        { self with
          producers := self.producers.modify (numberOf mentioned (identityKey identity))
            fun producer => { producer with kind := .author } }
      else self, numberOf mentioned (identityKey identity)) := by
  have found : self.producerIndex (identityKey identity) =
      some (numberOf mentioned (identityKey identity)) := by
    rw [interns.index, numberOf]
    refine List.idxOf?_eq_some_iff.mpr ⟨List.idxOf_lt_length_of_mem (List.mem_eraseDups.mpr known),
      List.getElem_idxOf _, fun place below same => ?_⟩
    have number := (List.nodup_eraseDups (keysOf mentioned)).idxOf_getElem place
      (below.trans (List.idxOf_lt_length_of_mem (List.mem_eraseDups.mpr known)))
    rw [same] at number
    omega
  unfold producer
  rw [found]
  dsimp only
  split_ifs <;> rfl

theorem Interns.anew (interns : self.Interns mentioned) {kind : ProducerKind} {identity : Identity}
    (new : identityKey identity ∉ keysOf mentioned) :
    self.producer kind identity = ({ self with
      producers := self.producers ++ [⟨kind, identity⟩]
      producerIndex :=
        Function.update self.producerIndex (identityKey identity) (some self.producers.length) },
      self.producers.length) := by
  have missing : self.producerIndex (identityKey identity) = none := by
    rw [interns.index, List.idxOf?_eq_none_iff]
    exact mt List.mem_eraseDups.mp new
  unfold producer
  rw [missing]

/-- A producer's place is the number of its key. -/
theorem Interns.number_of_getElem? (interns : self.Interns mentioned) {place : ℕ} {producer : Producer}
    (here : self.producers[place]? = some producer) :
    identityKey producer.identity ∈ keysOf mentioned ∧
      numberOf mentioned (identityKey producer.identity) = place := by
  have key : (keysOf mentioned).eraseDups[place]? = some (identityKey producer.identity) := by
    rw [← interns.keys, List.getElem?_map, here, Option.map_some]
  obtain ⟨below, same⟩ := List.getElem?_eq_some_iff.mp key
  refine ⟨List.mem_eraseDups.mp (same ▸ List.getElem_mem below), ?_⟩
  rw [numberOf, ← same]
  exact (List.nodup_eraseDups (keysOf mentioned)).idxOf_getElem place below

theorem Interns.key_mem (interns : self.Interns mentioned) {producer : Producer}
    (member : producer ∈ self.producers) : identityKey producer.identity ∈ keysOf mentioned := by
  obtain ⟨place, here⟩ := List.mem_iff_getElem?.mp member
  exact (interns.number_of_getElem? here).1

/-- A mention of another key decides nothing about a producer. -/
theorem mention_concat {mention : ProducerKind × Identity} {key : Bytes} (other : identityKey mention.2 ≠ key) :
    (∃ identity, (ProducerKind.author, identity) ∈ mentioned ++ [mention] ∧ identityKey identity = key) ↔
      ∃ identity, (ProducerKind.author, identity) ∈ mentioned ∧ identityKey identity = key := by
  constructor
  · rintro ⟨identity, listed, same⟩
    rcases List.mem_append.mp listed with listed | last
    · exact ⟨identity, listed, same⟩
    · obtain rfl := List.mem_singleton.mp last
      exact absurd same other
  · rintro ⟨identity, listed, same⟩
    exact ⟨identity, List.mem_append_left _ listed, same⟩

private theorem find?_concat {key : Bytes} {mention : ProducerKind × Identity} {found : Identity}
    (first : ((mentioned.map Prod.snd).find? fun identity => identityKey identity = key) = some found) :
    (((mentioned ++ [mention]).map Prod.snd).find? fun identity => identityKey identity = key) =
      some found := by
  rw [List.map_append, List.find?_append, first, Option.some_or]

theorem Interns.promote (interns : self.Interns mentioned) {identity : Identity}
    (known : identityKey identity ∈ keysOf mentioned) :
    Interns { self with
      producers := self.producers.modify (numberOf mentioned (identityKey identity))
        fun producer => { producer with kind := .author } } (mentioned ++ [(.author, identity)]) := by
  have table : (keysOf (mentioned ++ [(.author, identity)])).eraseDups = (keysOf mentioned).eraseDups := by
    rw [keysOf_append]
    exact List.eraseDups_concat_of_mem known
  -- Whoever is there after the promotion was there before, with the same identity.
  have before : ∀ producer ∈ self.producers.modify (numberOf mentioned (identityKey identity))
      (fun producer => { producer with kind := .author }),
      ∃ place old, self.producers[place]? = some old ∧ old.identity = producer.identity ∧
        if numberOf mentioned (identityKey identity) = place then producer.kind = .author
        else producer = old := by
    intro producer member
    obtain ⟨place, here⟩ := List.mem_iff_getElem?.mp member
    rw [List.getElem?_modify] at here
    split_ifs at here with promoted
    · obtain ⟨old, found, rfl⟩ := Option.map_eq_some_iff.mp here
      exact ⟨place, old, found, rfl, by rw [if_pos promoted]⟩
    · rw [id_map'] at here
      exact ⟨place, producer, here, rfl, by rw [if_neg promoted]⟩
  refine ⟨?_, fun key => ?_, fun producer member => ?_, fun producer member => ?_⟩
  · rw [table, ← interns.keys]
    refine List.ext_getElem? fun place => ?_
    rw [List.getElem?_map, List.getElem?_map, List.getElem?_modify]
    cases self.producers[place]? with
    | none => rfl
    | some producer => split_ifs <;> rfl
  · rw [table]
    exact interns.index key
  · obtain ⟨place, old, found, same, -⟩ := before producer member
    rw [← same]
    exact find?_concat (interns.first old (List.mem_of_getElem? found))
  · obtain ⟨place, old, found, same, kind⟩ := before producer member
    obtain ⟨-, number⟩ := interns.number_of_getElem? found
    split_ifs at kind with promoted
    · refine ⟨fun _ => ⟨identity, List.mem_append_right _ (List.mem_singleton_self _), ?_⟩, fun _ => kind⟩
      rw [← same]
      exact numberOf_inj known (promoted.trans number.symm)
    · subst kind
      rw [mention_concat]
      · exact interns.authors producer (List.mem_of_getElem? found)
      · rintro key
        exact promoted (key ▸ number)

theorem Interns.repeat_ (interns : self.Interns mentioned) {identity : Identity}
    (known : identityKey identity ∈ keysOf mentioned) :
    self.Interns (mentioned ++ [(.coAuthor, identity)]) := by
  have table : (keysOf (mentioned ++ [(.coAuthor, identity)])).eraseDups =
      (keysOf mentioned).eraseDups := by
    rw [keysOf_append]
    exact List.eraseDups_concat_of_mem known
  refine ⟨by rw [table, interns.keys], fun key => by rw [table, interns.index], fun producer member =>
    find?_concat (interns.first producer member), fun producer member => ?_⟩
  rw [interns.authors producer member]
  constructor
  · rintro ⟨author, listed, same⟩
    exact ⟨author, List.mem_append_left _ listed, same⟩
  · rintro ⟨author, listed, same⟩
    rcases List.mem_append.mp listed with listed | last
    · exact ⟨author, listed, same⟩
    · cases List.mem_singleton.mp last

theorem Interns.append (interns : self.Interns mentioned) {kind : ProducerKind} {identity : Identity}
    (new : identityKey identity ∉ keysOf mentioned) :
    Interns { self with
      producers := self.producers ++ [⟨kind, identity⟩]
      producerIndex :=
        Function.update self.producerIndex (identityKey identity) (some self.producers.length) }
      (mentioned ++ [(kind, identity)]) := by
  have table : (keysOf (mentioned ++ [(kind, identity)])).eraseDups =
      (keysOf mentioned).eraseDups ++ [identityKey identity] := by
    rw [keysOf_append]
    exact List.eraseDups_concat_of_notMem new
  have absent : identityKey identity ∉ (keysOf mentioned).eraseDups := mt List.mem_eraseDups.mp new
  have length : self.producers.length = (keysOf mentioned).eraseDups.length := by
    rw [← interns.keys, List.length_map]
  have other : ∀ producer ∈ self.producers, identityKey identity ≠ identityKey producer.identity :=
    fun producer member same => new (same ▸ interns.key_mem member)
  refine ⟨?_, fun key => ?_, fun producer member => ?_, fun producer member => ?_⟩
  · rw [table, List.map_append, interns.keys]
    rfl
  · rw [table]
    change Function.update self.producerIndex _ _ key = _
    rw [Function.update_apply, interns.index, length]
    split_ifs with same
    · subst same
      refine (List.idxOf?_eq_some_iff.mpr ⟨by simp, by simp, fun place below inside => absent ?_⟩).symm
      rw [List.getElem_append_left below] at inside
      exact inside ▸ List.getElem_mem below
    · cases found : (keysOf mentioned).eraseDups.idxOf? key with
      | none =>
        refine (List.idxOf?_eq_none_iff.mpr fun inside => ?_).symm
        rcases List.mem_append.mp inside with inside | last
        · exact List.idxOf?_eq_none_iff.mp found inside
        · exact same (List.mem_singleton.mp last)
      | some place =>
        obtain ⟨below, here, first⟩ := List.idxOf?_eq_some_iff.mp found
        refine (List.idxOf?_eq_some_iff.mpr ⟨by simp; omega, ?_, fun earlier less => ?_⟩).symm
        · rw [List.getElem_append_left below, here]
        · rw [List.getElem_append_left (less.trans below)]
          exact first earlier less
  · rcases List.mem_append.mp member with member | last
    · exact find?_concat (interns.first producer member)
    · obtain rfl := List.mem_singleton.mp last
      have unknown : ((mentioned.map Prod.snd).find? fun other => identityKey other =
          identityKey identity) = none := by
        rw [List.find?_eq_none]
        intro known listed same
        obtain ⟨mention, inside, rfl⟩ := List.mem_map.mp listed
        exact new (of_decide_eq_true same ▸ List.mem_map_of_mem (f := fun m => identityKey m.2) inside)
      rw [List.map_append, List.find?_append, unknown, Option.none_or]
      simp
  · rcases List.mem_append.mp member with member | last
    · rw [mention_concat (other producer member)]
      exact interns.authors producer member
    · obtain rfl := List.mem_singleton.mp last
      constructor
      · rintro rfl
        exact ⟨identity, List.mem_append_right _ (List.mem_singleton_self _), rfl⟩
      · rintro ⟨author, listed, same⟩
        rcases List.mem_append.mp listed with listed | last
        · exact absurd (same ▸ List.mem_map_of_mem (f := fun m => identityKey m.2) listed) new
        · exact (congrArg Prod.fst (List.mem_singleton.mp last)).symm

/-- What interning does: the mention is recorded, and the answer is the number of its key. -/
theorem Interns.producer (interns : self.Interns mentioned) (kind : ProducerKind) (identity : Identity) :
    (self.producer kind identity).1.Interns (mentioned ++ [(kind, identity)]) ∧
      (self.producer kind identity).2 =
        numberOf (mentioned ++ [(kind, identity)]) (identityKey identity) := by
  by_cases known : identityKey identity ∈ keysOf mentioned
  · rw [interns.again known, numberOf_append known]
    refine ⟨?_, rfl⟩
    cases kind with
    | author => exact interns.promote known
    | coAuthor => exact interns.repeat_ known
  · have number : numberOf (mentioned ++ [(kind, identity)]) (identityKey identity) =
        self.producers.length := by
      rw [numberOf, keysOf_append, ← List.length_map (f := fun producer => identityKey producer.identity),
        interns.keys]
      exact List.idxOf_eraseDups_concat known
    rw [interns.anew known, number]
    exact ⟨interns.append known, rfl⟩

/-- Interning touches the producers only. -/
theorem producer_only (self : Builder Oid) (kind : ProducerKind) (identity : Identity) :
    ∃ producers index, (self.producer kind identity).1 =
      { self with producers := producers, producerIndex := index } := by
  unfold Builder.producer
  split
  · split_ifs
    · exact ⟨_, _, rfl⟩
    · exact ⟨_, _, rfl⟩
  · exact ⟨_, _, rfl⟩

theorem foldl_coProducer_only (identities : List Identity) (self : Builder Oid) (numbers : List ℕ) :
    ∃ producers index, (identities.foldl coProducer (self, numbers)).1 =
      { self with producers := producers, producerIndex := index } := by
  induction identities generalizing self numbers with
  | nil => exact ⟨_, _, rfl⟩
  | cons identity identities ih =>
    obtain ⟨producers, index, same⟩ := self.producer_only .coAuthor identity
    obtain ⟨after, last, rest⟩ := ih (self.producer .coAuthor identity).1
      (coProducer (self, numbers) identity).2
    refine ⟨after, last, ?_⟩
    rw [List.foldl_cons]
    exact rest.trans (by rw [same])

/-- The numbers of a commit's producers stand for the keys it mentions, each once. -/
theorem Interns.coProducers (interns : self.Interns mentioned) {keys : List Bytes} {numbers : List ℕ}
    (inside : ∀ key ∈ keys, key ∈ keysOf mentioned)
    (numbered : numbers = keys.eraseDups.map (numberOf mentioned)) (identities : List Identity) :
    (identities.foldl coProducer (self, numbers)).1.Interns
        (mentioned ++ identities.map (Prod.mk .coAuthor)) ∧
      (identities.foldl coProducer (self, numbers)).2 =
        (keys ++ identities.map identityKey).eraseDups.map
          (numberOf (mentioned ++ identities.map (Prod.mk .coAuthor))) := by
  induction identities generalizing self mentioned keys numbers with
  | nil =>
    rw [List.map_nil, List.map_nil, List.append_nil, List.append_nil]
    exact ⟨interns, numbered⟩
  | cons identity identities ih =>
    obtain ⟨after, number⟩ := interns.producer .coAuthor identity
    have grown : ∀ key ∈ keys ++ [identityKey identity],
        key ∈ keysOf (mentioned ++ [(.coAuthor, identity)]) := by
      intro key member
      rw [keysOf_append, List.mem_append]
      exact (List.mem_append.mp member).imp (inside key) id
    have kept : numbers = keys.eraseDups.map (numberOf (mentioned ++ [(.coAuthor, identity)])) := by
      rw [numbered]
      refine List.map_congr_left fun key listed => ?_
      exact (numberOf_append (inside key (List.mem_eraseDups.mp listed)) _).symm
    have pushed : (coProducer (self, numbers) identity).2 =
        (keys ++ [identityKey identity]).eraseDups.map
          (numberOf (mentioned ++ [(.coAuthor, identity)])) := by
      change (if numbers.contains (self.producer .coAuthor identity).2 then numbers
        else numbers ++ [(self.producer .coAuthor identity).2]) = _
      rw [number, kept]
      by_cases old : identityKey identity ∈ keys
      · rw [List.eraseDups_concat_of_mem old, if_pos]
        exact List.contains_iff_mem.mpr (List.mem_map_of_mem (List.mem_eraseDups.mpr old))
      · rw [List.eraseDups_concat_of_notMem old, List.map_append, List.map_singleton, if_neg]
        intro listed
        obtain ⟨key, member, same⟩ := List.mem_map.mp (List.contains_iff_mem.mp listed)
        have known := List.mem_eraseDups.mp member
        exact old (numberOf_inj (grown key (List.mem_append_left _ known)) same ▸ known)
    have rest := ih after grown pushed
    rw [List.append_assoc, List.append_assoc, List.singleton_append, List.singleton_append] at rest
    exact rest

/-- The numbers of a commit's producers stand for the keys it mentions, each once and the author's
first, and nothing but the producers has changed. -/
theorem Interns.producersOf (interns : self.Interns mentioned) (commit : Commit Oid) :
    (self.producersOf commit).1.Interns (mentioned ++ mentions commit) ∧
      (self.producersOf commit).2 =
        (keysOf (mentions commit)).eraseDups.map (numberOf (mentioned ++ mentions commit)) ∧
      ∃ producers index, (self.producersOf commit).1 =
        { self with producers := producers, producerIndex := index } := by
  let author : Identity := ⟨commit.author.name, commit.author.email⟩
  obtain ⟨authored, number⟩ := interns.producer .author author
  have alone : [(self.producer .author author).2] =
      [identityKey author].eraseDups.map (numberOf (mentioned ++ [(.author, author)])) := by
    rw [number, List.eraseDups_cons]
    rfl
  have known : ∀ key ∈ [identityKey author], key ∈ keysOf (mentioned ++ [(.author, author)]) := by
    intro key member
    rw [keysOf_append]
    exact List.mem_append_right _ member
  obtain ⟨named, numbers⟩ := authored.coProducers known alone (coAuthors commit.message)
  have keys : [identityKey author] ++ (coAuthors commit.message).map identityKey =
      keysOf (mentions commit) := by
    rw [keysOf, mentions, List.map_cons, List.map_map]
    rfl
  rw [keys] at numbers
  rw [List.append_assoc, List.singleton_append] at named numbers
  refine ⟨named, numbers, ?_⟩
  obtain ⟨first, firstIndex, one⟩ := self.producer_only .author author
  obtain ⟨producers, index, two⟩ := foldl_coProducer_only (coAuthors commit.message)
    (self.producer .author author).1 [(self.producer .author author).2]
  refine ⟨producers, index, two.trans ?_⟩
  rw [one]

/-- What a recorded commit is listed as. -/
def attributionOf (mentioned : List (ProducerKind × Identity)) (id : Oid) (commit : Commit Oid) :
    CommitAttribution Oid where
  id := id
  author := commit.author
  committer := commit.committer
  summary := summary commit.message
  producers := (keysOf (mentions commit)).eraseDups.map (numberOf mentioned)

theorem Interns.pushCommit (interns : self.Interns mentioned) (id : Oid) (commit : Commit Oid) :
    (self.pushCommit id commit).Interns (mentioned ++ mentions commit) ∧
      ∃ producers index, self.pushCommit id commit = { self with
        producers := producers
        producerIndex := index
        commits := self.commits ++ [attributionOf (mentioned ++ mentions commit) id commit] } := by
  obtain ⟨named, numbers, producers, index, only⟩ := interns.producersOf commit
  refine ⟨⟨named.keys, named.index, named.first, named.authors⟩, producers, index, ?_⟩
  have pushed : self.pushCommit id commit = { (self.producersOf commit).1 with
      commits := (self.producersOf commit).1.commits ++ [⟨id, commit.author, commit.committer,
        summary commit.message, (self.producersOf commit).2⟩] } := rfl
  rw [pushed, numbers, only]
  rfl

end Builder

end Harkness.Git.Provenance
