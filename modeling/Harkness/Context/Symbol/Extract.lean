import Harkness.ToMathlib.LengthFrame
import Harkness.ToMathlib.Utf8
import Harkness.Context.Symbol.Language
import Harkness.Context.Symbol.Record

/-! # Extracting the symbols of a file

An adapter turns the bytes of a file into declarations and mentions. The registry takes nothing it says
on trust: it checks ranges, parents and budgets, and then gives every declaration its qualified name,
its ordinal among equals and its identity.
-/

namespace Harkness.Context

/-- The digest of some parts in a domain. -/
def digestOf (sha256 : List UInt8 → String) (domain : String) (parts : List (List UInt8)) : String :=
  sha256 (LengthFrame.frames 8 (Utf8.encode domain.toList :: parts))

/-- The identity of a symbol declared in a path. -/
def SymbolId.derive (sha256 : List UInt8 → String) (path : RepoPath)
    (language qualifiedName kind : String) : String :=
  digestOf sha256 "harkness.context.symbol.v1"
    [path.map UInt8.ofFin, Utf8.encode language.toList, Utf8.encode qualifiedName.toList,
      Utf8.encode kind.toList]

/-- A declaration with the place of the earlier one that encloses it. -/
structure RawSymbol where
  name : List (Fin 256)
  kind : SymbolKind
  byteRange : ByteRange
  parent : Option ℕ
  isTest : Bool
deriving DecidableEq

structure RawReference where
  name : List (Fin 256)
  byteRange : ByteRange
deriving DecidableEq

structure ExtractionResult where
  health : ParseHealth
  symbols : List RawSymbol
  references : List RawReference
deriving DecidableEq

def ExtractionResult.failed (reason : String) : ExtractionResult := ⟨.failed reason, [], []⟩

/-- The extraction of one language; none where it panics. -/
structure LanguageAdapter where
  grammarVersion : String
  extract : List (Fin 256) → Option ExtractionResult

def maxSymbolsPerFile : ℕ := 16384

def maxReferencesPerFile : ℕ := 65536

def maxParseErrorRanges : ℕ := 1024

def maxFailureReasonBytes : ℕ := 256

/-- A failure reason within its bound, cut between characters. -/
def boundedFailureReason (reason : String) : String :=
  if reason.utf8ByteSize ≤ maxFailureReasonBytes then reason
  else String.ofList (Utf8.within (maxFailureReasonBytes - "...[truncated]".utf8ByteSize) reason.toList) ++
    "...[truncated]"

/-- Whether a range lies in the source, with both lines known and in order or neither known. -/
def validRange (range : ByteRange) (sourceLen : ℕ) : Bool :=
  range.start ≤ range.stop && range.stop ≤ sourceLen &&
    match range.firstLine, range.lastLine with
    | none, none => true
    | some first, some last => 0 < first && first ≤ last
    | none, some _ | some _, none => false

/-- What is wrong with one declaration. -/
def symbolFault (sourceLen : ℕ) (symbols : List RawSymbol) (index : ℕ) (symbol : RawSymbol) :
    Option String :=
  if !validRange symbol.byteRange sourceLen then some "invalid_symbol_range"
  else
    match symbol.parent with
    | none => none
    | some parent =>
      match symbols[parent]? with
      | none => some "invalid_symbol_parent"
      | some parentSymbol =>
        if index ≤ parent || symbol.byteRange.start < parentSymbol.byteRange.start then
          some "invalid_symbol_parent"
        else none

/-- The first fault of the records of a file. -/
def recordsFault (sourceLen : ℕ) (extracted : ExtractionResult) : Option String :=
  if maxSymbolsPerFile < extracted.symbols.length then some "symbol_budget_exhausted"
  else if maxReferencesPerFile < extracted.references.length then some "reference_budget_exhausted"
  else
    match extracted.symbols.zipIdx.findSome? fun entry =>
        symbolFault sourceLen extracted.symbols entry.2 entry.1 with
    | some fault => some fault
    | none =>
      if extracted.references.any (!validRange ·.byteRange sourceLen) then
        some "invalid_reference_range"
      else none

/-- Makes every record that is let through a sound one, or lets none through. -/
def validateExtraction (source : List (Fin 256)) (extracted : ExtractionResult) : ExtractionResult :=
  match extracted.health with
  | .failed reason => .failed (boundedFailureReason reason)
  | .skipped reason => ⟨.skipped reason, [], []⟩
  | .partial_ errorRanges =>
    if errorRanges = [] || maxParseErrorRanges < errorRanges.length ||
        errorRanges.any (!validRange · source.length) then
      .failed "invalid_parse_health"
    else ((recordsFault source.length extracted).map ExtractionResult.failed).getD extracted
  | .complete => ((recordsFault source.length extracted).map ExtractionResult.failed).getD extracted

/-- Ranges lie in the source, and every declaration behind and within the one that encloses it. -/
structure ExtractionResult.Sound (sourceLen : ℕ) (extracted : ExtractionResult) : Prop where
  fewSymbols : extracted.symbols.length ≤ maxSymbolsPerFile
  fewReferences : extracted.references.length ≤ maxReferencesPerFile
  symbols : ∀ first raw rest, extracted.symbols = first ++ raw :: rest →
    validRange raw.byteRange sourceLen = true ∧ ∀ parent, raw.parent = some parent →
      ∃ enclosing, first[parent]? = some enclosing ∧ enclosing.byteRange.start ≤ raw.byteRange.start
  references : ∀ raw ∈ extracted.references, validRange raw.byteRange sourceLen = true
  errorRanges : ∀ range ∈ extracted.health.errorRanges, validRange range sourceLen = true
  partial_ : ∀ errorRanges, extracted.health = .partial_ errorRanges → errorRanges ≠ []

theorem symbolFault_eq_none {sourceLen index : ℕ} {symbols : List RawSymbol} {symbol : RawSymbol} :
    symbolFault sourceLen symbols index symbol = none ↔
      validRange symbol.byteRange sourceLen = true ∧ ∀ parent, symbol.parent = some parent →
        ∃ enclosing, symbols[parent]? = some enclosing ∧ parent < index ∧
          enclosing.byteRange.start ≤ symbol.byteRange.start := by
  unfold symbolFault
  cases valid : validRange symbol.byteRange sourceLen with
  | false => simp
  | true =>
    cases symbol.parent with
    | none => simp
    | some parent => cases found : symbols[parent]? <;> simp [found]

theorem recordsFault_eq_none {sourceLen : ℕ} {extracted : ExtractionResult}
    (clean : recordsFault sourceLen extracted = none) :
    extracted.symbols.length ≤ maxSymbolsPerFile ∧ extracted.references.length ≤ maxReferencesPerFile ∧
      (∀ first raw rest, extracted.symbols = first ++ raw :: rest →
        validRange raw.byteRange sourceLen = true ∧ ∀ parent, raw.parent = some parent →
          ∃ enclosing, first[parent]? = some enclosing ∧
            enclosing.byteRange.start ≤ raw.byteRange.start) ∧
      ∀ raw ∈ extracted.references, validRange raw.byteRange sourceLen = true := by
  unfold recordsFault at clean
  cases faults : extracted.symbols.zipIdx.findSome? fun entry =>
      symbolFault sourceLen extracted.symbols entry.2 entry.1 with
  | some fault =>
    rw [faults] at clean
    split_ifs at clean
  | none =>
    rw [faults] at clean
    split_ifs at clean with many more outside
    refine ⟨Nat.not_lt.mp many, Nat.not_lt.mp more, fun first raw rest split => ?_, ?_⟩
    · have listed : (raw, first.length) ∈ extracted.symbols.zipIdx := by
        rw [List.mem_zipIdx_iff_getElem?, split]
        simp
      obtain ⟨valid, encloses⟩ := symbolFault_eq_none.mp (List.findSome?_eq_none_iff.mp faults _ listed)
      refine ⟨valid, fun parent named => ?_⟩
      obtain ⟨enclosing, found, earlier, before⟩ := encloses parent named
      rw [split, List.getElem?_append_left earlier] at found
      exact ⟨enclosing, found, before⟩
    · simpa using outside

/-- What an adapter says is let through as it is, or nothing of it is. -/
theorem validateExtraction_cases (source : List (Fin 256)) (extracted : ExtractionResult) :
    ((validateExtraction source extracted).symbols = [] ∧
      (validateExtraction source extracted).references = [] ∧
      ∀ errorRanges, (validateExtraction source extracted).health ≠ .partial_ errorRanges) ∨
    (validateExtraction source extracted = extracted ∧ extracted.Sound source.length) := by
  have failed : ∀ reason, (ExtractionResult.failed reason).symbols = [] ∧
      (ExtractionResult.failed reason).references = [] ∧
      ∀ errorRanges, (ExtractionResult.failed reason).health ≠ .partial_ errorRanges :=
    fun reason => ⟨rfl, rfl, nofun⟩
  unfold validateExtraction
  cases health : extracted.health with
  | failed reason => exact .inl (failed _)
  | skipped reason => exact .inl ⟨rfl, rfl, nofun⟩
  | complete =>
    cases fault : recordsFault source.length extracted with
    | some reason => exact .inl (failed reason)
    | none =>
      obtain ⟨symbols, references, ordered, ranges⟩ := recordsFault_eq_none fault
      exact .inr ⟨rfl, symbols, references, ordered, ranges, by simp [health, ParseHealth.errorRanges],
        by simp [health]⟩
  | partial_ errorRanges =>
    dsimp only
    split_ifs with unsound
    · exact .inl (failed _)
    · cases fault : recordsFault source.length extracted with
      | some reason => exact .inl (failed reason)
      | none =>
        obtain ⟨symbols, references, ordered, ranges⟩ := recordsFault_eq_none fault
        simp only [Bool.or_eq_true, decide_eq_true_eq, List.any_eq_true, not_or, not_exists, not_and,
          Bool.not_eq_true', Bool.not_eq_false] at unsound
        refine .inr ⟨rfl, symbols, references, ordered, ranges, ?_, ?_⟩
        · rw [health]
          exact unsound.2
        · rw [health]
          rintro _ ⟨⟩
          exact unsound.1.1

theorem sound_validateExtraction (source : List (Fin 256)) (extracted : ExtractionResult) :
    (validateExtraction source extracted).Sound source.length := by
  rcases validateExtraction_cases source extracted with ⟨symbols, references, health⟩ | ⟨same, sound⟩
  · refine ⟨by simp [symbols], by simp [references], by simp [symbols], by simp [references], ?_,
      fun ranges some_ => absurd some_ (health ranges)⟩
    cases healths : (validateExtraction source extracted).health with
    | partial_ ranges => exact absurd healths (health ranges)
    | complete | failed | skipped => simp [ParseHealth.errorRanges]
  · rwa [same]

/-- The text of some bytes, and whether a part of them had to be replaced. -/
def lossy (bytes : List (Fin 256)) : String × Bool :=
  match Utf8.decode? (bytes.map UInt8.ofFin) with
  | some text => (String.ofList text, false)
  | none => (String.ofList (Utf8.decodeLossy (bytes.map UInt8.ofFin)), true)

theorem lossy_eq_empty {bytes : List (Fin 256)} : (lossy bytes).1 = "" ↔ bytes = [] := by
  unfold lossy
  cases decoded : Utf8.decode? (bytes.map UInt8.ofFin) with
  | none => simp
  | some text =>
    have encoded := Utf8.decode?_eq_some_iff.mp decoded
    have lengths := congrArg List.length encoded
    rw [List.length_map, Utf8.length_encode] at lengths
    rw [← List.length_eq_zero_iff, lengths, String.utf8Len_eq_zero]
    simp

structure Symbol where
  id : String
  kind : SymbolKind
  name : String
  qualifiedName : String
  ordinal : ℕ
  byteRange : ByteRange
  parent : Option String
  isTest : Bool
  nameIsLossy : Bool
deriving DecidableEq

structure SymbolReference where
  name : String
  byteRange : ByteRange
  nameIsLossy : Bool
deriving DecidableEq

/-- The record that a batch stores for a declaration. -/
def Symbol.record (self : Symbol) : SymbolRecord where
  id := self.id
  name := self.name
  qualifiedPath := self.qualifiedName
  kind := self.kind.asStr
  ordinal := self.ordinal
  byteRange := self.byteRange
  parent := self.parent
  isTest := self.isTest
  nameIsLossy := self.nameIsLossy

/-- The record that a batch stores for a mention. -/
def SymbolReference.record (self : SymbolReference) : SymbolReferenceRecord :=
  ⟨self.name, self.byteRange, self.nameIsLossy⟩

/-- The name that an identity is derived from: duplicates are told apart by their ordinal. -/
def identityName (qualifiedName : String) (ordinal : ℕ) : String :=
  if ordinal = 0 then qualifiedName else qualifiedName ++ "#duplicate:" ++ toString ordinal

/-- A name within the declaration that encloses it. -/
def qualify (parent : Option String) (name : String) : String :=
  match parent with
  | none => name
  | some parent => parent ++ "::" ++ name

def u32Max : ℕ := 2 ^ 32 - 1

/-- The declarations named so far, and the last ordinal of every name and kind. -/
structure Identified where
  symbols : List Symbol
  duplicates : String × SymbolKind → Option ℕ

namespace Identified

def start : Identified := ⟨[], fun _ => none⟩

/-- The symbol that a declaration becomes behind those already named. -/
def symbol (derive : String → String → String) (self : Identified) (raw : RawSymbol) : Symbol :=
  let parent := raw.parent.bind (self.symbols[·]?)
  let qualifiedName := qualify (parent.map (·.qualifiedName)) (lossy raw.name).1
  let ordinal :=
    match self.duplicates (qualifiedName, raw.kind) with
    | some ordinal => min (ordinal + 1) u32Max
    | none => 0
  { id := derive (identityName qualifiedName ordinal) raw.kind.asStr
    kind := raw.kind
    name := (lossy raw.name).1
    qualifiedName
    ordinal
    byteRange := raw.byteRange
    parent := parent.map (·.id)
    isTest := raw.isTest
    nameIsLossy := (lossy raw.name).2 }

def next (derive : String → String → String) (self : Identified) (raw : RawSymbol) : Identified :=
  let symbol := self.symbol derive raw
  ⟨self.symbols ++ [symbol],
    Function.update self.duplicates (symbol.qualifiedName, symbol.kind) (some symbol.ordinal)⟩

end Identified

/-- Names declarations in turn; those that enclose others come before them. -/
def identify (derive : String → String → String) (raws : List RawSymbol) : Identified :=
  raws.foldl (Identified.next derive) .start

/-- Mentions in byte order. -/
def identifyReferences (raws : List RawReference) : List SymbolReference :=
  let sorted := raws.mergeSort fun first second =>
    first.byteRange.start < second.byteRange.start ||
      first.byteRange.start = second.byteRange.start && first.byteRange.stop ≤ second.byteRange.stop
  sorted.map fun raw => ⟨(lossy raw.name).1, raw.byteRange, (lossy raw.name).2⟩

def oversizedFileThreshold : ℕ := 1024 * 1024

def unsupportedVersion : String := "unsupported-1"

/-- What was extracted from one file. -/
structure FileSymbols where
  language : Option Language
  grammarVersion : String
  health : ParseHealth
  symbols : List Symbol
  references : List SymbolReference
deriving DecidableEq

/-- The adapters by their language. -/
structure LanguageRegistry where
  adapters : Language → Option LanguageAdapter

namespace LanguageRegistry

/-- The marker that a file of a language is expected to carry. -/
def expectedVersion (self : LanguageRegistry) (language : Option Language) : String :=
  match language.bind self.adapters with
  | some adapter => adapter.grammarVersion
  | none => unsupportedVersion

/-- What an adapter says, where a panic is a failure of its file alone. -/
def ask (adapter : LanguageAdapter) (source : List (Fin 256)) : ExtractionResult :=
  (adapter.extract source).getD (.failed "adapter_panicked")

/-- What an adapter says of a file, when one is asked. -/
def said (self : LanguageRegistry) (path : RepoPath) (source : List (Fin 256)) :
    Option ExtractionResult :=
  if oversizedFileThreshold < source.length then none
  else ((detectLanguage path source).bind self.adapters).map (ask · source)

/-- Detects the language of a file and extracts it. -/
def extract (sha256 : List UInt8 → String) (self : LanguageRegistry) (path : RepoPath)
    (source : List (Fin 256)) : FileSymbols :=
  let detected := detectLanguage path source
  if oversizedFileThreshold < source.length then
    ⟨detected, self.expectedVersion detected, .failed "source_budget_exhausted", [], []⟩
  else
    match detected with
    | none => ⟨detected, unsupportedVersion, .skipped .unknownLanguage, [], []⟩
    | some language =>
      match self.adapters language with
      | none => ⟨detected, unsupportedVersion, .skipped .unsupportedLanguage, [], []⟩
      | some adapter =>
        let extracted := validateExtraction source (ask adapter source)
        { language := detected
          grammarVersion := adapter.grammarVersion
          health := extracted.health
          symbols := (identify (SymbolId.derive sha256 path language.value) extracted.symbols).symbols
          references := identifyReferences extracted.references }

end LanguageRegistry

end Harkness.Context
