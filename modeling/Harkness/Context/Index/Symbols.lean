import Harkness.Context.Index.Store
import Harkness.Context.Symbol.Naming

/-! # Storing and reading an extraction

The index checks the symbols of a file before it stores them, and once more when it reads them. Both
derive every identity again from the names beside it, and both look at the row of an enclosing symbol.
-/

namespace Harkness.Context.Index

/-- Buffers what was extracted from a version, within the budgets of one file. -/
def recordExtraction (fileVersion : String) (extracted : FileSymbols) : Option PendingSymbols :=
  if maxSymbolsPerFile < extracted.symbols.length then none
  else if maxReferencesPerFile < extracted.references.length then none
  else some
    { fileVersion
      parserVersion := extracted.grammarVersion
      symbols := extracted.symbols.map (·.record)
      references := extracted.references.map (·.record)
      health := extracted.health }

/-- Whether a range lies in its file and its line hints, where there are two, are in order. -/
def boundedRange (range : ByteRange) (byteSize : ℕ) : Bool :=
  range.start ≤ range.stop && range.stop ≤ byteSize && range.firstLine ≠ some 0 &&
    range.lastLine ≠ some 0 &&
    match range.firstLine, range.lastLine with
    | some first, some last => first ≤ last
    | _, _ => true

/-- Whether a qualified name goes on behind that of a parent. -/
def qualifiedWithin (parent qualified : String) : Bool :=
  ((parent.toList.isPrefixOf? qualified.toList).bind ("::".toList.isPrefixOf? ·)).any (· ≠ [])

/-- The identity that a row has to have. -/
def expectedId (sha256 : List UInt8 → String) (path : RepoPath) (language : Language)
    (symbol : SymbolRecord) (kind : SymbolKind) : String :=
  SymbolId.derive sha256 path language.value (identityName symbol.qualifiedPath symbol.ordinal) kind.asStr

/-- Whether one symbol of a version may be stored. -/
def validSymbol (sha256 : List UInt8 → String) (symbols : List SymbolRecord) (path : RepoPath)
    (language : Option Language) (byteSize : ℕ) (symbol : SymbolRecord) : Bool :=
  match language with
  | none => false
  | some language =>
    boundedRange symbol.byteRange byteSize &&
      match SymbolKind.parse symbol.kind with
      | none => false
      | some kind =>
        symbol.id = expectedId sha256 path language symbol kind &&
          match symbol.parent with
          | none => true
          | some parentId =>
            match symbols.find? (·.id = parentId) with
            | none => false
            | some parent =>
              parent.byteRange.start ≤ symbol.byteRange.start &&
                qualifiedWithin parent.qualifiedPath symbol.qualifiedPath

/-- Whether the symbols of a version may be stored. -/
def validatePendingSymbols (sha256 : List UInt8 → String) : SymbolCheck :=
  fun attached path language byteSize =>
    language.all (fun text => (Language.new text).isSome) &&
      decide (attached.symbols.map (·.id)).Nodup &&
      attached.symbols.all
        (validSymbol sha256 attached.symbols path (language.bind Language.new) byteSize) &&
      attached.references.all (fun reference => boundedRange reference.byteRange byteSize) &&
      attached.health.errorRanges.all (boundedRange · byteSize)

structure IndexedSymbol where
  id : String
  fileVersion : String
  path : RepoPath
  name : String
  qualifiedPath : String
  kind : SymbolKind
  ordinal : ℕ
  byteRange : ByteRange
  parent : Option String
  isTest : Bool
  nameIsLossy : Bool
  parserVersion : String
deriving DecidableEq

structure IndexedSymbolReference where
  fileVersion : String
  path : RepoPath
  name : String
  byteRange : ByteRange
  nameIsLossy : Bool
deriving DecidableEq

structure IndexedParseHealth where
  fileVersion : String
  path : RepoPath
  language : Option Language
  grammarVersion : String
  health : ParseHealth
deriving DecidableEq

/-- Whether the row of a symbol's parent is one that can enclose it. -/
def parentAgrees (sha256 : List UInt8 → String) (path : RepoPath) (language : Language) (byteSize : ℕ)
    (symbol parent : SymbolRecord) : Bool :=
  match SymbolKind.parse parent.kind with
  | none => false
  | some kind =>
    symbol.parent = some (expectedId sha256 path language parent kind) &&
      parent.byteRange.start ≤ symbol.byteRange.start && parent.byteRange.start ≤ parent.byteRange.stop &&
      parent.byteRange.stop ≤ byteSize && qualifiedWithin parent.qualifiedPath symbol.qualifiedPath

/-- Reads one row of a symbol, joined with its version and the row of its parent. -/
def readSymbol (sha256 : List UInt8 → String) (fileVersion : String) (row : VersionRow) (byteSize : ℕ)
    (symbol : SymbolRecord) : Option IndexedSymbol :=
  match SymbolKind.parse symbol.kind, row.language.bind Language.new with
  | some kind, some language =>
    if boundedRange symbol.byteRange byteSize && symbol.id = expectedId sha256 row.path language symbol kind &&
        symbol.parent.all fun parentId =>
          (row.symbols.find? (·.id = parentId)).any
            (parentAgrees sha256 row.path language byteSize symbol) then
      some
        { id := symbol.id
          fileVersion
          path := row.path
          name := symbol.name
          qualifiedPath := symbol.qualifiedPath
          kind
          ordinal := symbol.ordinal
          byteRange := symbol.byteRange
          parent := symbol.parent
          isTest := symbol.isTest
          nameIsLossy := symbol.nameIsLossy
          parserVersion := row.parserVersion.getD "" }
    else none
  | _, _ => none

/-- Reads one row of a mention. -/
def readSymbolReference (fileVersion : String) (row : VersionRow) (byteSize : ℕ)
    (reference : SymbolReferenceRecord) : Option IndexedSymbolReference :=
  if boundedRange reference.byteRange byteSize then
    some ⟨fileVersion, row.path, reference.name, reference.byteRange, reference.nameIsLossy⟩
  else none

/-- The health that the columns of a row spell. -/
def HealthRow.decode (self : HealthRow) : Option ParseHealth :=
  match self.status with
  | "complete" => if self.reason = none ∧ self.errorRanges = [] then some .complete else none
  | "partial" =>
    if self.reason = none ∧ self.errorRanges ≠ [] then some (.partial_ self.errorRanges) else none
  | "failed" => if self.errorRanges = [] then self.reason.map .failed else none
  | "skipped" =>
    if self.errorRanges ≠ [] then none
    else
      match self.reason with
      | some "unsupported_language" => some (.skipped .unsupportedLanguage)
      | some "unknown_language" => some (.skipped .unknownLanguage)
      | some "transcoded_input" => some (.skipped .transcodedInput)
      | _ => none
  | _ => none

/-- Reads the health of a version. -/
def readParseHealth (fileVersion : String) (row : VersionRow) (byteSize : ℕ) (health : HealthRow) :
    Option IndexedParseHealth :=
  if row.language.all (fun text => (Language.new text).isSome) &&
      health.errorRanges.all (boundedRange · byteSize) then
    health.decode.map fun decoded =>
      ⟨fileVersion, row.path, row.language.bind Language.new, row.parserVersion.getD "", decoded⟩
  else none

/-- What the queries of a file answer from the rows of its version. -/
structure ReadBack where
  symbols : List IndexedSymbol
  references : List IndexedSymbolReference
  health : IndexedParseHealth
deriving DecidableEq

/-- Reads every row of a version; one that is refused fails the whole. -/
def readBack (sha256 : List UInt8 → String) (db : Database) (fileVersion : String) : Option ReadBack := do
  let row ← db.versions.get fileVersion
  let byteSize ← db.contents.get row.contentSha256
  let symbols ← row.symbols.mapM (readSymbol sha256 fileVersion row byteSize)
  let references ← row.references.mapM (readSymbolReference fileVersion row byteSize)
  let health ← row.health.bind (readParseHealth fileVersion row byteSize)
  some ⟨symbols, references, health⟩

/-- What a declaration reads back as. -/
def IndexedSymbol.ofSymbol (fileVersion : String) (path : RepoPath) (parserVersion : String)
    (symbol : Symbol) : IndexedSymbol where
  id := symbol.id
  fileVersion := fileVersion
  path := path
  name := symbol.name
  qualifiedPath := symbol.qualifiedName
  kind := symbol.kind
  ordinal := symbol.ordinal
  byteRange := symbol.byteRange
  parent := symbol.parent
  isTest := symbol.isTest
  nameIsLossy := symbol.nameIsLossy
  parserVersion := parserVersion

/-- What an extraction reads back as. -/
def ReadBack.ofExtraction (fileVersion : String) (path : RepoPath) (extracted : FileSymbols) : ReadBack where
  symbols := extracted.symbols.map (.ofSymbol fileVersion path extracted.grammarVersion)
  references := extracted.references.map fun reference =>
    ⟨fileVersion, path, reference.name, reference.byteRange, reference.nameIsLossy⟩
  health := ⟨fileVersion, path, extracted.language, extracted.grammarVersion, extracted.health⟩

end Harkness.Context.Index
