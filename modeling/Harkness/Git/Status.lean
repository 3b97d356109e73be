import Harkness.Git.Diff
import Harkness.ToMathlib.SplitN
import Harkness.ToMathlib.Utf8Lossy

/-! # Reading a detailed status

Git reports a status as records that are terminated by a NUL each. Headers say what is checked out and
how far it is from its upstream; every other record is about one path, its kind told by its first byte.
-/

namespace Harkness.Git.Status

open SplitN (splitn splitWhitespace parseUnsigned)
open Utf8 (decodeLossy)

/-- Where a branch stands relative to the branch it tracks. -/
structure UpstreamStatus where
  name : String
  ahead : ℕ
  behind : ℕ
deriving DecidableEq

/-- Where the checked-out commit sits relative to the branch namespace. -/
inductive HeadState where
  | unborn (branch : Option String)
  | branch (name : String)
  | detached (commit : String)
deriving DecidableEq

/-- A multi-step operation a repository is in the middle of. -/
inductive PendingOperation where
  | merge
  | rebase
  | cherryPick
  | revert
  | bisect
  | applyMailbox
  | other
deriving DecidableEq

/-- How one path changed, on one side of the index. -/
inductive FileChange where
  | added
  | modified
  | deleted
  | renamed
  | copied
  | typeChanged
  | untracked
  | unmerged
deriving DecidableEq

/-- One path reported by a detailed status, as its bytes. -/
structure StatusEntry where
  path : Bytes
  staged : Option FileChange
  unstaged : Option FileChange
  renameSource : Option Bytes
  conflicted : Bool
deriving DecidableEq

structure DetailedStatus where
  head : HeadState
  upstream : Option UpstreamStatus
  pending : Option PendingOperation
  entries : List StatusEntry
deriving DecidableEq

/-- A status output that is refused. -/
structure MalformedStatus where
  detail : String
deriving DecidableEq

def malformed {α : Type} (detail : String) : Except MalformedStatus α := .error ⟨detail⟩

/-- Bytes as a message shows them. -/
def shown (bytes : Bytes) : String := String.ofList (decodeLossy bytes)

def nul : UInt8 := 0

def space : UInt8 := 0x20

/-- What is reported of the commit before the first one. -/
def initialCommit : String := "(initial)"

/-- What is reported of the branch when there is none. -/
def detachedHead : String := "(detached)"

def ordinaryFields : ℕ := 9

def renameFields : ℕ := 10

def unmergedFields : ℕ := 11

def untrackedFields : ℕ := 2

/-- What the headers have said so far. -/
structure Headers where
  oid : Option (List Char)
  headName : Option (List Char)
  upstreamName : Option (List Char)
  aheadBehind : Option (ℕ × ℕ)

/-- A count behind its sign, a machine word. -/
def parseCount (sign : Char) : Option (List Char) → Option ℕ
  | some (first :: count) => if first = sign then parseUnsigned (2 ^ 64) count else none
  | _ => none

def parseAheadBehind (value : List Char) : Except MalformedStatus (ℕ × ℕ) :=
  let counts := splitWhitespace value
  match parseCount '+' counts[0]?, parseCount '-' counts[1]? with
  | some ahead, some behind => .ok (ahead, behind)
  | _, _ => malformed ("'# branch.ab " ++ String.ofList value ++ "' is not a divergence pair")

def parseHeader (record : Bytes) (headers : Headers) : Except MalformedStatus Headers :=
  match splitn ' ' 3 (decodeLossy record) with
  | hash :: key :: rest =>
    if hash ≠ "#".toList then .ok headers
    else
      let value := rest.head?.getD []
      if key = "branch.oid".toList then .ok { headers with oid := some value }
      else if key = "branch.head".toList then .ok { headers with headName := some value }
      else if key = "branch.upstream".toList then .ok { headers with upstreamName := some value }
      else if key = "branch.ab".toList then do
        let counts ← parseAheadBehind value
        .ok { headers with aheadBehind := some counts }
      else .ok headers
  | _ => .ok headers

/-- Splits a record into exactly that many fields, the last of which keeps its spaces. -/
def splitRecord (record : Bytes) (fields : ℕ) : Except MalformedStatus (List Bytes) :=
  let split := splitn space fields record
  if split.length ≠ fields ∨ split.getLastD [] = [] then
    malformed ("status record '" ++ shown record ++ "' does not have " ++ toString fields ++ " fields")
  else .ok split

def changeKind (code : UInt8) : Except MalformedStatus (Option FileChange) :=
  if code = '.'.toUInt8 then .ok none
  else if code = 'A'.toUInt8 then .ok (some .added)
  else if code = 'M'.toUInt8 then .ok (some .modified)
  else if code = 'D'.toUInt8 then .ok (some .deleted)
  else if code = 'R'.toUInt8 then .ok (some .renamed)
  else if code = 'C'.toUInt8 then .ok (some .copied)
  else if code = 'T'.toUInt8 then .ok (some .typeChanged)
  else if code = 'U'.toUInt8 then .ok (some .unmerged)
  else malformed ("unknown change code '" ++ String.singleton (Char.ofNat code.toNat) ++ "'")

/-- Splits the two-letter field into its staged and unstaged halves. -/
def changeKinds (field : Bytes) : Except MalformedStatus (Option FileChange × Option FileChange) :=
  match field with
  | [staged, unstaged] => do
    let staged ← changeKind staged
    let unstaged ← changeKind unstaged
    .ok (staged, unstaged)
  | _ => malformed ("'" ++ shown field ++ "' is not a two-letter change field")

/-- An ordinary or a rename record, which differ in their number of fields and in a source. -/
def parseChanged (record : Bytes) (fields : ℕ) (renameSource : Option Bytes) :
    Except MalformedStatus StatusEntry := do
  let fields ← splitRecord record fields
  let (staged, unstaged) ← changeKinds (fields.getD 1 [])
  .ok { path := fields.getLastD [], staged, unstaged, renameSource, conflicted := false }

def parseUnmerged (record : Bytes) : Except MalformedStatus StatusEntry := do
  let fields ← splitRecord record unmergedFields
  let (staged, unstaged) ← changeKinds (fields.getD 1 [])
  .ok { path := fields.getD (unmergedFields - 1) [], staged, unstaged, renameSource := none
        conflicted := true }

def parseUntracked (record : Bytes) : Except MalformedStatus StatusEntry := do
  let fields ← splitRecord record untrackedFields
  .ok { path := fields.getD (untrackedFields - 1) [], staged := none, unstaged := some .untracked
        renameSource := none, conflicted := false }

/-- What the records read so far have given. -/
structure Parsed where
  headers : Headers
  entries : List StatusEntry

def Parsed.push (parsed : Parsed) (entry : StatusEntry) : Parsed :=
  { parsed with entries := parsed.entries ++ [entry] }

def parseRecords (parsed : Parsed) : List Bytes → Except MalformedStatus Parsed
  | [] => .ok parsed
  -- The output ends with a terminator, so the final split is empty.
  | [] :: records => parseRecords parsed records
  | (tag :: fields) :: records =>
    let record := tag :: fields
    if tag = '#'.toUInt8 then do
      let headers ← parseHeader record parsed.headers
      parseRecords { parsed with headers } records
    else if tag = '1'.toUInt8 then do
      let entry ← parseChanged record ordinaryFields none
      parseRecords (parsed.push entry) records
    else if tag = '2'.toUInt8 then
      match records with
      | (first :: source) :: records => do
        let entry ← parseChanged record renameFields (some (first :: source))
        parseRecords (parsed.push entry) records
      | _ => malformed "a rename record is missing its source path"
    else if tag = 'u'.toUInt8 then do
      let entry ← parseUnmerged record
      parseRecords (parsed.push entry) records
    else if tag = '?'.toUInt8 then do
      let entry ← parseUntracked record
      parseRecords (parsed.push entry) records
    else if tag = '!'.toUInt8 then parseRecords parsed records
    else malformed ("unknown status record '" ++ shown record ++ "'")

/-- What is checked out, from what the headers say of it. -/
def headState (oid headName : String) : HeadState :=
  if oid = initialCommit then .unborn (if headName ≠ detachedHead then some headName else none)
  else if headName = detachedHead then .detached oid
  else .branch headName

def Parsed.status (parsed : Parsed) : Except MalformedStatus DetailedStatus :=
  match parsed.headers.oid, parsed.headers.headName with
  | some oid, some headName =>
    let upstream := parsed.headers.upstreamName.map fun name =>
      let counts := parsed.headers.aheadBehind.getD (0, 0)
      { name := String.ofList name, ahead := counts.1, behind := counts.2 : UpstreamStatus }
    .ok { head := headState (String.ofList oid) (String.ofList headName), upstream, pending := none
          entries := parsed.entries }
  | _, _ => malformed "the status output carries no '# branch.oid' and '# branch.head' pair"

/-- Parses a porcelain status. -/
def parsePorcelainV2 (output : Bytes) : Except MalformedStatus DetailedStatus := do
  let parsed ← parseRecords ⟨⟨none, none, none, none⟩, []⟩ (output.splitOn nul)
  parsed.status

end Harkness.Git.Status
