import Harkness.Git.FileContext
import Harkness.Git.History
import Harkness.Git.Provenance.Message
import Harkness.Git.UnifiedPatch
import Harkness.Platform.PathBuf

/-! # Attributing a comparison to its commits

A range is walked once. Each commit that is no merge is compared with its first parent, and recorded
against the paths the comparison names on either side, as far as they were asked for. Commits and the
identities behind them are numbered as they are first recorded, and the files of the answer name them by
number.
-/

namespace Harkness.Git.Provenance

open History (ErrorCode CommitSignature Commit refuseCancelled)

variable {Oid : Type} [DecidableEq Oid]

/-- A platform path, compared by its components. -/
structure PathBuf where
  bytes : List (Fin 256)
deriving DecidableEq

def PathBuf.components (path : PathBuf) : List Platform.Component := Platform.components path.bytes

/-- How one identity was named by the commits it appears in. -/
inductive ProducerKind where
  | author
  | coAuthor
deriving DecidableEq

/-- One distinct identity that contributed to a comparison. -/
structure Producer where
  kind : ProducerKind
  identity : Identity
deriving DecidableEq

/-- One commit that contributed content; its producers are numbers, the author's first. -/
structure CommitAttribution (Oid : Type) where
  id : Oid
  author : CommitSignature
  committer : CommitSignature
  summary : Bytes
  producers : List ℕ

/-- Why a changed file carries no commit. -/
inductive ProvenanceGap where
  | uncommitted
  | emptyRange
  | notInRange
  | commitBudgetExhausted (limit : ℕ)
deriving DecidableEq

structure FileProvenance where
  path : PathBuf
  commits : List ℕ
  producers : List ℕ
  gap : Option ProvenanceGap
deriving DecidableEq

/-- Why an attribution describes less of its range than the range holds. -/
inductive ProvenanceTruncation where
  | commitBudgetExhausted (limit : ℕ)
deriving DecidableEq

/-- Which paths an attribution is about. -/
inductive ProvenancePaths where
  | all
  | only (paths : List PathBuf)
deriving DecidableEq

structure ProvenanceOptions where
  paths : ProvenancePaths
  maxCommits : ℕ
  headReference : Option String

/-- The paths asked for, when not every path is. -/
def ProvenancePaths.requested : ProvenancePaths → Option (List PathBuf)
  | all => none
  | only paths => some paths

/-- Whether a path with these components is one the attribution is about. -/
def ProvenancePaths.wanted (paths : ProvenancePaths) (components : List Platform.Component) : Bool :=
  match paths.requested with
  | none => true
  | some requested => (requested.map PathBuf.components).contains components

/-- What a comparison says of one file. -/
structure Delta where
  status : DeltaStatus
  newPath : Option PathBuf
  oldPath : Option PathBuf

namespace Delta

/-- Whether a delta stands for a change at all. -/
def recorded (delta : Delta) : Bool := !(delta.status = .unmodified || delta.status = .ignored)

/-- The paths a delta names, the new side first. -/
def sides (delta : Delta) : List PathBuf := delta.newPath.toList ++ delta.oldPath.toList

end Delta

/-- A repository that also compares the trees of a commit and of a parent. -/
structure Repository (Oid : Type) extends History.Repository Oid where
  deltas : Oid → Option Oid → Except ErrorCode (List Delta)

/-- What has been attributed so far. -/
structure Builder (Oid : Type) where
  options : ProvenanceOptions
  producerIndex : Bytes → Option ℕ
  producers : List Producer
  commits : List (CommitAttribution Oid)
  perPath : List Platform.Component → Option (List ℕ)
  discovered : List PathBuf
  walkedCommits : ℕ
  skippedMerges : ℕ
  truncation : Option ProvenanceTruncation
  defaultGap : ProvenanceGap

namespace Builder

def new (options : ProvenanceOptions) : Builder Oid where
  options := options
  producerIndex _ := none
  producers := []
  commits := []
  perPath _ := none
  discovered := []
  walkedCommits := 0
  skippedMerges := 0
  truncation := none
  defaultGap := .notInRange

variable (self : Builder Oid)

/-- Interns one identity, promoting a co-author who turns out to have written a commit. -/
def producer (kind : ProducerKind) (identity : Identity) : Builder Oid × ℕ :=
  match self.producerIndex (identityKey identity) with
  | some index =>
    if kind = .author then
      ({ self with producers := self.producers.modify index fun known => { known with kind := .author } },
        index)
    else (self, index)
  | none =>
    ({ self with
        producers := self.producers ++ [⟨kind, identity⟩]
        producerIndex :=
          Function.update self.producerIndex (identityKey identity) (some self.producers.length) },
      self.producers.length)

/-- Interns the next co-author of a commit. -/
def coProducer : Builder Oid × List ℕ → Identity → Builder Oid × List ℕ
  | (self, producers), identity =>
    let (next, index) := self.producer .coAuthor identity
    (next, if producers.contains index then producers else producers ++ [index])

/-- Interns the author of a commit and then its co-authors. -/
def producersOf (commit : Commit Oid) : Builder Oid × List ℕ :=
  let (authored, author) := self.producer .author ⟨commit.author.name, commit.author.email⟩
  (coAuthors commit.message).foldl coProducer (authored, [author])

/-- Records a commit, whose number is the last one then. -/
def pushCommit (id : Oid) (commit : Commit Oid) : Builder Oid :=
  let (named, producers) := self.producersOf commit
  { named with commits := named.commits ++
      [⟨id, commit.author, commit.committer, summary commit.message, producers⟩] }

/-- Records one path as touched by one commit. -/
def attribute_ (commit : ℕ) (path : PathBuf) : Builder Oid :=
  if self.options.paths.wanted path.components then
    match self.perPath path.components with
    | some entry =>
      if entry.getLast? = some commit then self
      else { self with perPath := Function.update self.perPath path.components (some (entry ++ [commit])) }
    | none =>
      { self with
        discovered :=
          if self.options.paths.requested = none then self.discovered ++ [path] else self.discovered
        perPath := Function.update self.perPath path.components (some [commit]) }
  else self

/-- The paths that count as named by a comparison. -/
def touched (deltas : List Delta) : List PathBuf := (deltas.filter Delta.recorded).flatMap Delta.sides

/-- Records one commit against the paths its comparison names, if any was asked for. -/
def recordDeltas (id : Oid) (commit : Commit Oid) (deltas : List Delta) : Builder Oid :=
  if (touched deltas).any fun path => self.options.paths.wanted path.components then
    (touched deltas).foldl (fun builder path => builder.attribute_ self.commits.length path)
      (self.pushCommit id commit)
  else self

/-- Compares one commit with one parent and records the paths it names. -/
def record (repository : Repository Oid) (id : Oid) (commit : Commit Oid) (parent : Option Oid) :
    Except (History.GitError Oid) (Builder Oid) := do
  let deltas ← (repository.deltas id parent).mapError .inspection
  .ok (self.recordDeltas id commit deltas)

end Builder

namespace Builder

/-- What is done with the next commit of a walk. -/
def take (self : Builder Oid) (repository : Repository Oid) (id : Except ErrorCode Oid) :
    Except (History.GitError Oid) (Builder Oid) := do
  let id ← id.mapError .inspection
  let walked := { self with walkedCommits := self.walkedCommits + 1 }
  let commit ← (repository.findCommit id).mapError .inspection
  if commit.parentIds.length > 1 then .ok { walked with skippedMerges := self.skippedMerges + 1 }
  else walked.record repository id commit commit.parentIds.head?

/-- The walk, up to the budget; one commit further says whether the budget cut it short. -/
def walkFrom (repository : Repository Oid) (cancelled : ℕ → Bool) :
    Bool → List (Except ErrorCode Oid) → Builder Oid → Except (History.GitError Oid) (Builder Oid)
  | empty, [], self => do
    refuseCancelled cancelled (self.walkedCommits + 1)
    .ok (if empty then { self with defaultGap := .emptyRange } else self)
  | _, id :: walk, self => do
    refuseCancelled cancelled (self.walkedCommits + 1)
    if self.walkedCommits < self.options.maxCommits then
      let next ← self.take repository id
      walkFrom repository cancelled false walk next
    else
      .ok { self with
        truncation := some (.commitBudgetExhausted self.options.maxCommits)
        defaultGap := .commitBudgetExhausted self.options.maxCommits }

def walkRange (self : Builder Oid) (repository : Repository Oid) (cancelled : ℕ → Bool) (head : Oid)
    (base : Option Oid) : Except (History.GitError Oid) (Builder Oid) := do
  let revwalk ← repository.revwalk.mapError .inspection
  let walk ← revwalk.start [head] none base
  walkFrom repository cancelled true walk self

/-- Attributes exactly one commit, also a merge: it is compared as the caller asked. -/
def visit (self : Builder Oid) (repository : Repository Oid) (cancelled : ℕ → Bool) (id : Oid)
    (parent : Option Oid) : Except (History.GitError Oid) (Builder Oid) := do
  refuseCancelled cancelled 1
  if self.options.maxCommits = 0 then
    .ok { self with
      truncation := some (.commitBudgetExhausted 0)
      defaultGap := .commitBudgetExhausted 0 }
  else
    let commit ← (repository.findCommit id).mapError .inspection
    { self with walkedCommits := self.walkedCommits + 1 }.record repository id commit parent

end Builder

/-- The commit range one attribution was resolved over. -/
structure ProvenanceRange (Oid : Type) where
  head : Oid
  base : Option Oid
  headRevision : String
  headReference : Option String
  agentSlug : Option String

/-- What produced each file of one comparison. -/
structure ChangeProvenance (Oid : Type) where
  target : DiffTarget
  range : Option (ProvenanceRange Oid)
  producers : List Producer
  commits : List (CommitAttribution Oid)
  files : List FileProvenance
  walkedCommits : ℕ
  skippedMerges : ℕ
  truncation : Option ProvenanceTruncation

/-- Appends the numbers that are not there yet. -/
def pushMissing (known numbers : List ℕ) : List ℕ :=
  numbers.foldl (fun known number => if known.contains number then known else known ++ [number]) known

namespace Builder

variable (self : Builder Oid)

/-- The paths of the answer: those asked for, as they were, or all that were found by their bytes. -/
def paths : List PathBuf :=
  self.options.paths.requested.getD
    (self.discovered.insertionSort fun left right => left.bytes ≤ right.bytes)

/-- The entry of one path. -/
def file (path : PathBuf) : FileProvenance :=
  let commits := (self.perPath path.components).getD []
  { path, commits
    producers := commits.foldl (fun producers commit =>
      pushMissing producers ((self.commits[commit]?.map (·.producers)).getD [])) []
    gap := if commits = [] then some self.defaultGap else none }

def finish (target : DiffTarget) (range : Option (ProvenanceRange Oid)) : ChangeProvenance Oid where
  target := target
  range := range
  producers := self.producers
  commits := self.commits
  files := self.paths.map self.file
  walkedCommits := self.walkedCommits
  skippedMerges := self.skippedMerges
  truncation := self.truncation

end Builder

/-- Reads the `agent/<slug>` convention off a reference name. -/
def agentSlug (revision : String) : Option String :=
  let name := revision.toList
  let short :=
    match name.dropPrefix? "refs/heads/".toList with
    | some rest => rest
    | none =>
      match (name.dropPrefix? "refs/remotes/".toList).map (List.dropWhile (· ≠ '/')) with
      | some (_ :: rest) => rest
      | some [] | none => name
  match short.dropPrefix? "agent/".toList with
  | some slug => if slug = [] then none else some (String.ofList slug)
  | none => none

def describeRange (head : Oid) (base : Option Oid) (headRevision : String)
    (headReference : Option String) : ProvenanceRange Oid where
  head := head
  base := base
  headRevision := headRevision
  headReference := headReference
  agentSlug := agentSlug (headReference.getD headRevision)

/-- The commit walk one target implies. -/
inductive Walk (Oid : Type) where
  | uncommitted
  | single (commit : Oid) (parent : Option Oid)
  | range (head : Oid) (base : Option Oid)

inductive ResolveError (Oid : Type) where
  | git (error : History.GitError Oid)
  | revisionNotParent (revision parent : String)

/-- The parent a commit is compared with: the one named, if it is one, and else the first. -/
def comparedParent (repository : Repository Oid) (commit : Commit Oid) (revision : String) :
    Option String → Except (ResolveError Oid) (Option Oid)
  | some parent => do
    let id ← (repository.requireCommit parent).mapError .git
    if id ∈ commit.parentIds then .ok (some id) else .error (.revisionNotParent revision parent)
  | none => .ok commit.parentIds.head?

/-- Resolves the range a target implies, without walking it. -/
def plan (repository : Repository Oid) (target : DiffTarget) (headReference : Option String) :
    Except (ResolveError Oid) (Walk Oid × Option (ProvenanceRange Oid)) :=
  match target with
  | .staged | .unstaged | .revisionAgainstWorktree _ => .ok (.uncommitted, none)
  | .commit revision parent => do
    let head ← (repository.requireCommit revision).mapError .git
    let commit ← (repository.findCommit head).mapError fun source => .git (.inspection source)
    let base ← comparedParent repository commit revision parent
    .ok (.single head base, some (describeRange head base revision headReference))
  | .revisions oldRevision newRevision => do
    let head ← (repository.requireCommit newRevision).mapError .git
    let base ← (repository.requireCommit oldRevision).mapError .git
    .ok (.range head (some base), some (describeRange head (some base) newRevision headReference))
  | .branchAgainstBase branch baseBranch => do
    let head ← (repository.requireCommit branch).mapError .git
    let baseId ← (repository.requireCommit baseBranch).mapError .git
    let base ← (repository.mergeBaseIds head baseId branch baseBranch).mapError .git
    .ok (.range head (some base), some (describeRange head (some base) branch headReference))

def openRepository (opened : Except ErrorCode (Repository Oid)) : Except (History.GitError Oid) (Repository Oid) :=
  match opened with
  | .ok repository => if repository.hasWorkdir then .ok repository else .error .notARepository
  | .error .notFound => .error .notARepository
  | .error source => .error (.inspection source)

/-- The walk a plan asks for. -/
def Builder.walk (self : Builder Oid) (repository : Repository Oid) (cancelled : ℕ → Bool) :
    Walk Oid → Except (History.GitError Oid) (Builder Oid)
  | .uncommitted => .ok { self with defaultGap := .uncommitted }
  | .single commit parent => self.visit repository cancelled commit parent
  | .range head base => self.walkRange repository cancelled head base

def resolve (opened : Except ErrorCode (Repository Oid)) (cancelled : ℕ → Bool) (target : DiffTarget)
    (options : ProvenanceOptions) : Except (ResolveError Oid) (ChangeProvenance Oid) := do
  (refuseCancelled cancelled 0).mapError .git
  let repository ← (openRepository opened).mapError .git
  let (walk, range) ← plan repository target options.headReference
  -- Nothing is walked for a request that was narrowed to no paths.
  if options.paths = .only [] then .ok ((Builder.new options).finish target range)
  else
    let builder ← ((Builder.new options).walk repository cancelled walk).mapError .git
    .ok (builder.finish target range)

end Harkness.Git.Provenance
