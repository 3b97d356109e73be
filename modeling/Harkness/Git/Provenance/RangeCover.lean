import Harkness.Git.HistoryPaging
import Harkness.Git.Provenance.Attribution

/-! # What an attribution covers of its range

Where the commits found are those of one graph and a walk lists what its start reaches and the base does
not, an attribution of a range leaves out nothing: a path has every commit of the range that is no merge
and names it, children before parents, up to the budget it says it has stopped at.
-/

namespace Harkness.Git.Provenance

open History (ErrorCode Commit Yields)
open Ancestry

variable {Oid : Type} {repository : Repository Oid} {parents : Oid → List Oid}

/-- Whether a commit is no merge and its comparison with its parent names a path. -/
def Repository.touches (repository : Repository Oid) (parents : Oid → List Oid)
    (components : List Platform.Component) (id : Oid) : Bool :=
  decide ((parents id).length ≤ 1) &&
    match repository.deltas id (parents id).head? with
    | .ok deltas => (Builder.touched deltas).any fun path => path.components = components
    | .error _ => false

/-- What is read of a walk is read of the commits it lists. -/
theorem reads_of_yields {walk : List (Except ErrorCode Oid)} {nodes : List Oid}
    {reads : List (Option (Visited Oid))} (yields : Yields walk nodes) {budget : ℕ}
    (each : List.Forall₂ (Reads repository) (walk.take budget) reads) :
    List.Forall₂ (fun id read => Reads repository (.ok id) read) (nodes.take budget) reads := by
  induction walk generalizing nodes reads budget with
  | nil =>
    obtain rfl : nodes = [] := yields
    rw [List.take_nil] at each ⊢
    cases each
    exact .nil
  | cons item walk ih =>
    cases budget with
    | zero =>
      cases each
      exact .nil
    | succ budget =>
      rw [List.take_succ_cons] at each
      cases each with
      | @cons _ read _ reads first rest =>
        cases item with
        | error source =>
          cases read with
          | none =>
            obtain ⟨id, commit, found, -⟩ := first
            cases found
          | some visited => cases first.1
        | ok id =>
          obtain ⟨tail, rfl, yields⟩ := yields
          exact .cons first (ih yields rest)

/-- The commits compared that name a path are those listed that touch it. -/
theorem filter_touches_of_reads (lawful : repository.toRepository.Lawful parents) {nodes : List Oid}
    {reads : List (Option (Visited Oid))} (components : List Platform.Component)
    (each : List.Forall₂ (fun id read => Reads repository (.ok id) read) nodes reads) :
    (reads.reduceOption.filter fun visited => visited.names components).map (·.id) =
      nodes.filter (repository.touches parents components) := by
  induction each with
  | nil => rfl
  | @cons id read nodes reads first _ ih =>
    cases read with
    | none =>
      obtain ⟨_, commit, ⟨⟩, found, merge⟩ := first
      rw [lawful.findCommit _ _ found] at merge
      have skipped : repository.touches parents components id = false := by
        rw [Repository.touches, decide_eq_false (Nat.not_le.mpr merge), Bool.false_and]
      rw [List.reduceOption_cons_of_none, ih, List.filter_cons, skipped]
      rfl
    | some visited =>
      obtain ⟨⟨⟩, found, single, compared⟩ := first
      rw [lawful.findCommit _ _ found] at single compared
      have named : repository.touches parents components visited.id = visited.names components := by
        rw [Repository.touches, decide_eq_true single, Bool.true_and, compared]
        rfl
      rw [List.reduceOption_cons_of_some, List.filter_cons, List.filter_cons, named, ← ih]
      cases visited.names components <;> rfl

theorem countP_merges_of_reads (lawful : repository.toRepository.Lawful parents) {nodes : List Oid}
    {reads : List (Option (Visited Oid))}
    (each : List.Forall₂ (fun id read => Reads repository (.ok id) read) nodes reads) :
    reads.countP Option.isNone = nodes.countP fun id => 1 < (parents id).length := by
  induction each with
  | nil => rfl
  | @cons id read nodes reads first _ ih =>
    have same : read.isNone = decide (1 < (parents id).length) := by
      cases read with
      | none =>
        obtain ⟨_, commit, ⟨⟩, found, merge⟩ := first
        rw [lawful.findCommit _ _ found] at merge
        exact (decide_eq_true merge).symm
      | some visited =>
        obtain ⟨⟨⟩, found, single, -⟩ := first
        rw [lawful.findCommit _ _ found] at single
        exact (decide_eq_false (Nat.not_lt.mpr single)).symm
    rw [List.countP_cons, List.countP_cons, ih, same]

/-- A walk that is not cut short lists no more commits than the budget allows. -/
theorem length_le_of_yields {walk : List (Except ErrorCode Oid)} {nodes : List Oid} {budget : ℕ}
    {reads : List (Option (Visited Oid))} (yields : Yields walk nodes)
    (each : List.Forall₂ (Reads repository) (walk.take budget) reads) (short : walk.length ≤ budget) :
    nodes.length ≤ budget := by
  have all : List.Forall₂ (fun id read => Reads repository (.ok id) read)
      (nodes.take (walk.length + nodes.length)) reads := by
    refine reads_of_yields yields ?_
    rw [List.take_of_length_le (Nat.le_add_right _ _)]
    rwa [List.take_of_length_le short] at each
  rw [List.take_of_length_le (Nat.le_add_left _ _)] at all
  rw [all.length_eq, ← each.length_eq, List.length_take]
  exact Nat.min_le_left _ _

variable [DecidableEq Oid]

/-- An attribution of a range is about its first commits, as many as the budget allows and all of them
where it was not cut short, and gives each path those of them that touch it. -/
theorem resolve_covers_range (lawful : repository.toRepository.Lawful parents) {cancelled : ℕ → Bool}
    {target : DiffTarget} {options : ProvenanceOptions} {answer : ChangeProvenance Oid} {head : Oid}
    {base : Option Oid} {described : Option (ProvenanceRange Oid)}
    (resolved : resolve (.ok repository) cancelled target options = .ok answer)
    (planned : plan repository target options.headReference = .ok (.range head base, described))
    (asked : options.paths ≠ .only []) :
    ∃ nodes, Listing parents [head] base nodes ∧
      answer.walkedCommits = min options.maxCommits nodes.length ∧
      answer.skippedMerges =
        (nodes.take options.maxCommits).countP (fun id => 1 < (parents id).length) ∧
      (answer.truncation = none → nodes.length ≤ options.maxCommits) ∧
      ∀ file ∈ answer.files, file.commits.filterMap (fun number => answer.commits[number]?.map (·.id)) =
        (nodes.take options.maxCommits).filter (repository.touches parents file.path.components) := by
  obtain ⟨_, walk, course, ⟨⟩, plan_, -, takes, exact_⟩ := resolve_exact resolved
  obtain ⟨rfl, -⟩ := Prod.mk.inj (Except.ok.inj (plan_.symm.trans planned))
  rw [if_neg asked] at takes
  cases takes with
  | @range _ _ revwalk walk reads opened started each =>
    obtain ⟨nodes, listing, yields⟩ := History.Revwalk.start_sound lawful opened
      (fun _ member => absurd member (Option.not_mem_none _)) started
    have read := reads_of_yields yields each
    refine ⟨nodes, listing, ?_, ?_, fun whole => ?_, fun file listed => ?_⟩
    · rw [exact_.counts.1]
      change reads.length = _
      rw [← read.length_eq, List.length_take]
    · exact exact_.counts.2.trans (countP_merges_of_reads lawful read)
    · rw [exact_.truncation] at whole
      change (if options.maxCommits < walk.length then _ else none) = none at whole
      split_ifs at whole with cut
      exact length_le_of_yields yields each (Nat.not_lt.mp cut)
    · obtain ⟨-, named⟩ := (exact_.files file listed).commits
      rw [← filter_touches_of_reads lawful file.path.components read]
      change _ = List.map _ (((Course.ofRange options.maxCommits walk reads).compared).filter _)
      rw [← named, List.map_filterMap, exact_.commits]
      refine List.filterMap_congr fun number _ => ?_
      rw [List.getElem?_map, Option.map_map]
      rfl

theorem sampleHistory_lawful : sampleHistory.toRepository.Lawful List.range where
  findCommit := (History.sampleRepository_lawful 2).findCommit
  walk := (History.sampleRepository_lawful 2).walk

theorem resolve_covers_range_sample :
    ∃ nodes, Listing List.range [2] (some 0) nodes ∧
      sampleAnswer.walkedCommits = min sampleOptions.maxCommits nodes.length ∧
      sampleAnswer.skippedMerges =
        (nodes.take sampleOptions.maxCommits).countP (fun id => 1 < (List.range id).length) ∧
      (sampleAnswer.truncation = none → nodes.length ≤ sampleOptions.maxCommits) ∧
      ∀ file ∈ sampleAnswer.files,
        file.commits.filterMap (fun number => sampleAnswer.commits[number]?.map (·.id)) =
          (nodes.take sampleOptions.maxCommits).filter
            (sampleHistory.touches List.range file.path.components) :=
  resolve_covers_range sampleHistory_lawful resolve_sample rfl (by decide)

end Harkness.Git.Provenance
