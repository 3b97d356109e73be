import Mathlib.Data.List.Basic

/-! # What is stored about the symbols of a file

Ranges of bytes with line hints, the declarations and mentions found in one version of a file, and how
far the parser came with it.
-/

namespace Harkness.Context

/-- Half-open bytes of a file and the lines they start and end on, when known. -/
structure ByteRange where
  start : ℕ
  stop : ℕ
  firstLine : Option ℕ
  lastLine : Option ℕ
deriving DecidableEq, Repr

inductive SymbolKind where
  | function | method | struct | enum | trait | impl | module | constant | static | typeAlias
  | import_ | export_ | section_
deriving DecidableEq, Repr

namespace SymbolKind

/-- The stable cache spelling. -/
def asStr : SymbolKind → String
  | function => "function"
  | method => "method"
  | struct => "struct"
  | enum => "enum"
  | trait => "trait"
  | impl => "impl"
  | module => "module"
  | constant => "constant"
  | static => "static"
  | typeAlias => "type_alias"
  | import_ => "import"
  | export_ => "export"
  | section_ => "section"

/-- Parses a stable cache spelling. -/
def parse : String → Option SymbolKind
  | "function" => some function
  | "method" => some method
  | "struct" => some struct
  | "enum" => some enum
  | "trait" => some trait
  | "impl" => some impl
  | "module" => some module
  | "constant" => some constant
  | "static" => some static
  | "type_alias" => some typeAlias
  | "import" => some import_
  | "export" => some export_
  | "section" => some section_
  | _ => none

@[simp] theorem parse_asStr (kind : SymbolKind) : parse kind.asStr = some kind := by
  cases kind <;> rfl

theorem asStr_injective : Function.Injective asStr := by
  intro first second same
  have parsed := congrArg parse same
  rw [parse_asStr, parse_asStr] at parsed
  exact Option.some.inj parsed

end SymbolKind

/-- Why extraction did not run for an otherwise eligible file. -/
inductive ExtractionSkipReason where
  | unsupportedLanguage
  | unknownLanguage
  | transcodedInput
deriving DecidableEq, Repr

/-- The stable cache spelling. -/
def ExtractionSkipReason.asStr : ExtractionSkipReason → String
  | unsupportedLanguage => "unsupported_language"
  | unknownLanguage => "unknown_language"
  | transcodedInput => "transcoded_input"

/-- Honest parser result for one exact file version. -/
inductive ParseHealth where
  | complete
  | partial_ (errorRanges : List ByteRange)
  | failed (reason : String)
  | skipped (reason : ExtractionSkipReason)
deriving DecidableEq, Repr

/-- The ranges of the errors that a parser went on behind. -/
def ParseHealth.errorRanges : ParseHealth → List ByteRange
  | .partial_ errorRanges => errorRanges
  | .complete | .failed _ | .skipped _ => []

/-- One declaration as a batch stores it. -/
structure SymbolRecord where
  id : String
  name : String
  qualifiedPath : String
  kind : String
  ordinal : ℕ
  byteRange : ByteRange
  parent : Option String
  isTest : Bool
  nameIsLossy : Bool
deriving DecidableEq, Repr

/-- One mention as a batch stores it. -/
structure SymbolReferenceRecord where
  name : String
  byteRange : ByteRange
  nameIsLossy : Bool
deriving DecidableEq, Repr

end Harkness.Context
