import Harkness.Git.Diff
import Harkness.ToMathlib.Ancestry
import Harkness.ToMathlib.Except
import Mathlib.Data.Int.Notation

/-! # Commit history in bounded pages

A page of the log walks the commits of a range, newest first, up to a limit. Its continuation keeps
the ancestry frontier of what is listed, from which the next page builds a walk of its own: the refs
are resolved for the first page only. The repository and its walk answer for themselves; a page is
refused as an invalid cursor when the rebuilt walk starts elsewhere or misses an object.
-/

namespace Harkness.Git.History

variable {Oid : Type} [DecidableEq Oid]

/-- The revision set a commit log page walks. -/
inductive LogRange where
  /-- Every commit reachable from one revision. -/
  | revision (revision : String)
  /-- Commits reachable from one revision but not from another. -/
  | excluding (reachableFrom notFrom : String)
  /-- Commits on a branch since its merge-base with another. -/
  | branchAgainstBase (branch baseBranch : String)
deriving DecidableEq

/-- The continuation of a log page; the anchor is the first commit the next page will return. -/
structure LogCursor (Oid : Type) where
  anchor : Oid
  frontier : List Oid
  hidden : Option Oid
  range : LogRange
deriving DecidableEq

structure LogCursorWire where
  v : ℕ
  anchor : String
  frontier : List String
  hidden : Option String
  range : LogRange

inductive WireError where
  | unsupportedVersion (v : ℕ)
  | invalidId (text : String)
deriving DecidableEq

/-- The text of an object id, which libgit2 reads back. -/
structure OidText (Oid : Type) where
  spell : Oid → String
  fromStr : String → Option Oid
  fromStr_spell : ∀ id, fromStr (spell id) = some id

namespace OidText

variable (text : OidText Oid)

def serialize (cursor : LogCursor Oid) : LogCursorWire where
  v := 1
  anchor := text.spell cursor.anchor
  frontier := cursor.frontier.map text.spell
  hidden := cursor.hidden.map text.spell
  range := cursor.range

def parseId (id : String) : Except WireError Oid :=
  match text.fromStr id with
  | some id => .ok id
  | none => .error (.invalidId id)

def deserialize (wire : LogCursorWire) : Except WireError (LogCursor Oid) := do
  if wire.v ≠ 1 then
    .error (.unsupportedVersion wire.v)
  else
    let anchor ← text.parseId wire.anchor
    let frontier ← wire.frontier.mapM text.parseId
    match wire.hidden with
    | none => .ok ⟨anchor, frontier, none, wire.range⟩
    | some hidden => do
      let hidden ← text.parseId hidden
      .ok ⟨anchor, frontier, some hidden, wire.range⟩

omit [DecidableEq Oid] in
@[simp] theorem parseId_spell (id : Oid) : text.parseId (text.spell id) = .ok id := by
  simp [parseId, text.fromStr_spell]

omit [DecidableEq Oid] in
@[simp] theorem deserialize_serialize (cursor : LogCursor Oid) :
    text.deserialize (text.serialize cursor) = .ok cursor := by
  obtain ⟨anchor, frontier, hidden, range⟩ := cursor
  have ids : (frontier.map text.spell).mapM text.parseId = .ok frontier := by
    apply Except.mapM_eq_ok_of_forall₂
    induction frontier with
    | nil => exact .nil
    | cons id frontier ih => exact .cons (text.parseId_spell id) ih
  cases hidden <;> simp [deserialize, serialize, ids, bind, Except.bind]

end OidText

inductive ErrorCode where
  | ambiguous
  | notFound
  | unbornBranch
  | invalidSpec
  | peel
  | other
deriving DecidableEq

/-- The failures of this file; the path of the working tree is fixed. -/
inductive GitError (Oid : Type) where
  | invalidLogLimit
  | invalidLogCursor (cursor : Oid)
  | cancelled
  | ambiguousRevision (revision : String)
  | revisionNotFound (revision : String)
  | revisionNotCommit (revision : String) (id : Oid)
  | noMergeBase (one two : String)
  | notARepository
  | inspection (source : ErrorCode)
deriving DecidableEq

/-- Epoch seconds, timezone offset and its sign. -/
structure Time where
  seconds : ℤ
  offsetMinutes : ℤ
  sign : Char
deriving DecidableEq

structure CommitSignature where
  name : Bytes
  email : Bytes
  time : Time
deriving DecidableEq

/-- A commit object. -/
structure Commit (Oid : Type) where
  parentIds : List Oid
  author : CommitSignature
  committer : CommitSignature
  message : Bytes

/-- A revision walk: whether an id can be pushed or hidden, and what it yields from the ids pushed, in
the order they were, and the one hidden. -/
structure Revwalk (Oid : Type) where
  push : Oid → Option ErrorCode
  hide : Oid → Option ErrorCode
  yields : List Oid → Option Oid → List (Except ErrorCode Oid)

/-- What a page asks of the repository. -/
structure Repository (Oid : Type) where
  hasWorkdir : Bool
  revparseSingle : String → Except ErrorCode Oid
  peelToCommit : Oid → Except ErrorCode Oid
  headFailure : Option ErrorCode
  mergeBase : Oid → Oid → Except ErrorCode Oid
  findCommit : Oid → Except ErrorCode (Commit Oid)
  revwalk : Except ErrorCode (Revwalk Oid)

structure ResolvedRange (Oid : Type) where
  start : Oid
  hidden : Option Oid

namespace Repository

variable (repository : Repository Oid)

def resolve (revision : String) : Except (GitError Oid) Oid :=
  match repository.revparseSingle revision with
  | .ok id => .ok id
  | .error .ambiguous => .error (.ambiguousRevision revision)
  | .error .notFound | .error .unbornBranch => .error (.revisionNotFound revision)
  | .error code => .error (.inspection code)

def requireCommit (revision : String) : Except (GitError Oid) Oid := do
  let id ← repository.resolve revision
  match repository.peelToCommit id with
  | .ok commit => .ok commit
  | .error .notFound | .error .invalidSpec | .error .peel =>
    .error (.revisionNotCommit revision id)
  | .error code => .error (.inspection code)

def isUnborn : Bool :=
  repository.headFailure = some .unbornBranch || repository.headFailure = some .notFound

/-- A range that starts at the head of an unborn branch is empty. -/
def resolveLogStart (revision : String) : Except (GitError Oid) (Option Oid) :=
  match repository.requireCommit revision with
  | .ok id => .ok (some id)
  | .error (.revisionNotFound missing) =>
    if (revision = "HEAD" ∨ revision = "@") ∧ repository.isUnborn then
      .ok none
    else
      .error (.revisionNotFound missing)
  | .error error => .error error

def mergeBaseIds (oneId twoId : Oid) (one two : String) : Except (GitError Oid) Oid :=
  match repository.mergeBase oneId twoId with
  | .ok id => .ok id
  | .error .notFound => .error (.noMergeBase one two)
  | .error code => .error (.inspection code)

def resolveRange : LogRange → Except (GitError Oid) (Option (ResolvedRange Oid))
  | .revision revision => do
    match ← repository.resolveLogStart revision with
    | none => .ok none
    | some start => .ok (some ⟨start, none⟩)
  | .excluding reachableFrom notFrom => do
    match ← repository.resolveLogStart reachableFrom with
    | none => .ok none
    | some start =>
      let hidden ← repository.requireCommit notFrom
      .ok (some ⟨start, some hidden⟩)
  | .branchAgainstBase branch baseBranch => do
    match ← repository.resolveLogStart branch with
    | none => .ok none
    | some start =>
      let base ← repository.requireCommit baseBranch
      let hidden ← repository.mergeBaseIds start base branch baseBranch
      .ok (some ⟨start, some hidden⟩)

end Repository

/-- Bounds and positions one commit log page. -/
structure LogOptions (Oid : Type) where
  range : LogRange
  limit : ℕ
  cursor : Option (LogCursor Oid)

/-- One commit in a history page. -/
structure CommitInfo (Oid : Type) where
  id : Oid
  parentIds : List Oid
  author : CommitSignature
  committer : CommitSignature
  /-- First line of the message. -/
  summary : Bytes
  message : Bytes

structure LogPage (Oid : Type) where
  commits : List (CommitInfo Oid)
  nextCursor : Option (LogCursor Oid)

def commitInfo (id : Oid) (commit : Commit Oid) : CommitInfo Oid where
  id := id
  parentIds := commit.parentIds
  author := commit.author
  committer := commit.committer
  summary := commit.message.takeWhile (· ≠ 10)
  message := commit.message

/-- The commit leaves the frontier and its parents join it, those pending already aside. -/
def advanceFrontier (frontier : List Oid) (id : Oid) (commit : Commit Oid) : Option (List Oid) :=
  if id ∈ frontier then
    some (Ancestry.pushNew (frontier.erase id) commit.parentIds)
  else
    none

/-- An object missing on the way of a continuation makes its cursor invalid. -/
def cursorOrInspection (cursor : Option Oid) (source : ErrorCode) : GitError Oid :=
  match cursor, source with
  | some cursor, .notFound => .invalidLogCursor cursor
  | _, source => .inspection source

/-- The request to stop is looked at again and again; each look has its own answer. -/
def refuseCancelled (cancelled : ℕ → Bool) (look : ℕ) : Except (GitError Oid) Unit :=
  if cancelled look then .error .cancelled else .ok ()

/-- A page being filled. -/
structure Filling (Oid : Type) where
  walk : List (Except ErrorCode Oid)
  frontier : List Oid
  expectedAnchor : Option Oid
  commits : List (CommitInfo Oid)
  looks : ℕ

/-- The first commit of a continuation must be its anchor. -/
def expectAnchor (expected : Option Oid) (id : Oid) : Except (GitError Oid) Unit :=
  match expected with
  | some anchor => if anchor ≠ id then .error (.invalidLogCursor anchor) else .ok ()
  | none => .ok ()

/-- The next commit of the walk goes to the page. -/
def Filling.take (filling : Filling Oid) (repository : Repository Oid) (cursor : Option Oid) (id : Oid)
    (walk : List (Except ErrorCode Oid)) : Except (GitError Oid) (Filling Oid) := do
  expectAnchor filling.expectedAnchor id
  let commit ← (repository.findCommit id).mapError (cursorOrInspection cursor)
  match advanceFrontier filling.frontier id commit with
  | none => .error (.invalidLogCursor (cursor.getD id))
  | some frontier =>
    .ok ⟨walk, frontier, none, filling.commits ++ [commitInfo id commit], filling.looks + 1⟩

/-- The turns of the loop that fills a page, at most as many as there is room for. -/
def Filling.fill (repository : Repository Oid) (cancelled : ℕ → Bool) (cursor : Option Oid) :
    ℕ → Filling Oid → Except (GitError Oid) (Filling Oid)
  | 0, filling => .ok filling
  | room + 1, filling => do
    refuseCancelled cancelled filling.looks
    match filling.walk with
    | [] => .ok { filling with looks := filling.looks + 1 }
    | .error source :: _ => .error (cursorOrInspection cursor source)
    | .ok id :: walk =>
      let filling ← filling.take repository cursor id walk
      fill repository cancelled cursor room filling

/-- The most recently pushed start is walked first when commit times tie: the anchor is last. -/
def pushes (frontier : List Oid) (anchor : Option Oid) : List Oid :=
  frontier.reverse.filter (fun start => some start ≠ anchor) ++ anchor.toList

/-- The first failure to push or hide, if any, fails the page. -/
def Revwalk.start (revwalk : Revwalk Oid) (frontier : List Oid) (anchor hidden : Option Oid) :
    Except (GitError Oid) (List (Except ErrorCode Oid)) :=
  match ((pushes frontier anchor).findSome? revwalk.push).or (hidden.bind revwalk.hide) with
  | some source => .error (cursorOrInspection anchor source)
  | none => .ok (revwalk.yields (pushes frontier anchor) hidden)

def openRepository (opened : Except ErrorCode (Repository Oid)) :
    Except (GitError Oid) (Repository Oid) :=
  match opened with
  | .ok repository => if repository.hasWorkdir then .ok repository else .error .notARepository
  | .error .notFound => .error .notARepository
  | .error source => .error (.inspection source)

/-- The walk from a frontier, cut at the limit. -/
def logFrom (repository : Repository Oid) (cancelled : ℕ → Bool) (options : LogOptions Oid)
    (frontier : List Oid) (hidden anchor : Option Oid) : Except (GitError Oid) (LogPage Oid) := do
  let revwalk ← repository.revwalk.mapError .inspection
  let walk ← revwalk.start frontier anchor hidden
  let filled ← Filling.fill repository cancelled anchor options.limit ⟨walk, frontier, anchor, [], 1⟩
  match filled.expectedAnchor with
  | some anchor => .error (.invalidLogCursor anchor)
  | none =>
    refuseCancelled cancelled filled.looks
    match filled.walk with
    | [] => .ok ⟨filled.commits, none⟩
    | .error source :: _ => .error (cursorOrInspection anchor source)
    | .ok next :: _ => .ok ⟨filled.commits, some ⟨next, filled.frontier, hidden, options.range⟩⟩

/-- One bounded page of newest-first history. -/
def log (opened : Except ErrorCode (Repository Oid)) (cancelled : ℕ → Bool)
    (options : LogOptions Oid) : Except (GitError Oid) (LogPage Oid) := do
  if options.limit = 0 then
    .error .invalidLogLimit
  else
    refuseCancelled cancelled 0
    let repository ← openRepository opened
    match options.cursor with
    | some cursor =>
      if cursor.range = options.range ∧ cursor.frontier ≠ [] ∧ cursor.anchor ∈ cursor.frontier then
        logFrom repository cancelled options cursor.frontier cursor.hidden (some cursor.anchor)
      else
        .error (.invalidLogCursor cursor.anchor)
    | none =>
      match ← repository.resolveRange options.range with
      | none => .ok ⟨[], none⟩
      | some range => logFrom repository cancelled options [range.start] range.hidden none

end Harkness.Git.History
