import Harkness.Runtime.Tool.Descriptor
import Mathlib.Data.List.Sort

/-! # The grammar of identifiers

Tool identifiers and capability names are dot-separated segments of lower-case ASCII letters, digits
and underscores, each starting with a letter. A version is a semantic version without build
metadata. What parses is spelled as it was given, so a parsed identifier parses again to itself.
-/

namespace Harkness.Runtime

/-- Longest accepted tool identifier, version or capability name, in characters. -/
def maxIdentifierLength : ℕ := 64

def minimumToolIdSegments : ℕ := 2

def minimumCapabilitySegments : ℕ := 1

def tooLong : String := "it is longer than 64 characters"

def buildMetadata : String :=
  "build metadata is ignored for semantic-version precedence, so it cannot "
    ++ "distinguish one tool version from another; bump the patch version instead"

inductive RegistryError where
  | invalidToolId (value reason : String)
  | invalidToolVersion (value reason : String)
  | invalidCapability (value reason : String)
deriving DecidableEq, Repr

/-- How a refusal reads; `debug` quotes the refused value. -/
def RegistryError.display (debug : String → String) : RegistryError → String
  | .invalidToolId value reason => debug value ++ " is not a valid tool id: " ++ reason
  | .invalidToolVersion value reason => debug value ++ " is not a valid tool version: " ++ reason
  | .invalidCapability value reason => debug value ++ " is not a valid capability: " ++ reason

def isAsciiLowercase (character : Char) : Bool := 'a' ≤ character && character ≤ 'z'

def isAsciiDigit (character : Char) : Bool := '0' ≤ character && character ≤ '9'

def validateSegment : List Char → Except String Unit
  | [] => .error "every dot-separated segment must be non-empty"
  | first :: characters =>
    if !isAsciiLowercase first then
      .error "every segment must start with a lowercase ASCII letter"
    else if !characters.all fun character =>
        isAsciiLowercase character || isAsciiDigit character || character == '_' then
      .error "segments accept only lowercase ASCII letters, digits, and underscores"
    else .ok ()

/-- Checks a value against the shared identifier grammar. -/
def validateIdentifier (value : String) (minimumSegments : ℕ) : Except String Unit :=
  if value.isEmpty then .error "it must not be empty"
  else if maxIdentifierLength < value.length then .error tooLong
  else
    let segments := value.toList.splitOn '.'
    match segments.forM validateSegment with
    | .error reason => .error reason
    | .ok () =>
      if segments.length < minimumSegments then
        .error "it must name at least a namespace and a verb, as in fs.read"
      else .ok ()

/-- Parses a dotted tool identifier. -/
def ToolId.new (value : String) : Except RegistryError String :=
  match validateIdentifier value minimumToolIdSegments with
  | .error reason => .error (.invalidToolId value reason)
  | .ok () => .ok value

/-- Parses a capability name. -/
def Capability.new (value : String) : Except RegistryError Capability :=
  match validateIdentifier value minimumCapabilitySegments with
  | .error reason => .error (.invalidCapability value reason)
  | .ok () => .ok ⟨value⟩

/-- A semantic version: how it is displayed, and its build metadata. -/
structure SemanticVersion where
  text : String
  build : String
deriving DecidableEq, Repr

/-- Parses a tool version; `semver` is the parser of semantic versions. -/
def ToolVersion.new (semver : String → Except String SemanticVersion) (value : String) :
    Except RegistryError String :=
  if maxIdentifierLength < value.length then .error (.invalidToolVersion value tooLong)
  else match semver value with
    | .error reason => .error (.invalidToolVersion value reason)
    | .ok version =>
      if version.build.isEmpty then .ok version.text
      else .error (.invalidToolVersion value buildMetadata)

/-- Parses both halves from their string spellings. -/
def ToolIdentity.parse (semver : String → Except String SemanticVersion) (id version : String) :
    Except RegistryError ToolIdentity := do
  return ⟨← ToolId.new id, ← ToolVersion.new semver version⟩

theorem validateIdentifier_length {value : String} {minimumSegments : ℕ}
    (valid : validateIdentifier value minimumSegments = .ok ()) :
    value.length ≤ maxIdentifierLength := by
  unfold validateIdentifier at valid
  split_ifs at valid with empty long
  exact not_lt.mp long

theorem ToolId.new_eq_ok {value id : String} :
    ToolId.new value = .ok id ↔ validateIdentifier value minimumToolIdSegments = .ok () ∧
      id = value := by
  unfold ToolId.new
  cases validateIdentifier value minimumToolIdSegments with
  | error reason => simp only [reduceCtorEq, false_and]
  | ok _ => simp only [Except.ok.injEq, true_and, eq_comm]

theorem Capability.new_eq_ok {value : String} {capability : Capability} :
    Capability.new value = .ok capability ↔
      validateIdentifier value minimumCapabilitySegments = .ok () ∧ capability = ⟨value⟩ := by
  unfold Capability.new
  cases validateIdentifier value minimumCapabilitySegments with
  | error reason => simp only [reduceCtorEq, false_and]
  | ok _ => simp only [Except.ok.injEq, true_and, eq_comm]

/-- A capability that parses is spelled as it was given. -/
theorem Capability.new_asStr {value : String} {capability : Capability}
    (parsed : Capability.new value = .ok capability) :
    Capability.new capability.asStr = .ok capability := by
  obtain ⟨valid, rfl⟩ := Capability.new_eq_ok.mp parsed
  exact Capability.new_eq_ok.mpr ⟨valid, rfl⟩

section Versions

variable {semver : String → Except String SemanticVersion}

theorem ToolVersion.new_eq_ok {value version : String} :
    ToolVersion.new semver value = .ok version ↔ value.length ≤ maxIdentifierLength ∧
      semver value = .ok ⟨version, ""⟩ := by
  unfold ToolVersion.new
  split_ifs with long
  · simp only [false_iff, not_and]
    exact fun short => absurd short (not_le.mpr long)
  · cases semver value with
    | error reason => simp only [reduceCtorEq, and_false]
    | ok parsed =>
      obtain ⟨text, build⟩ := parsed
      dsimp only
      split_ifs with none
      · obtain rfl := String.isEmpty_iff.mp none
        simp only [Except.ok.injEq, SemanticVersion.mk.injEq, and_true, not_lt.mp long, true_and]
      · simp only [Except.ok.injEq, SemanticVersion.mk.injEq, false_iff, not_and]
        rintro - rfl rfl
        exact none rfl

theorem ToolIdentity.parse_eq_ok {id version : String} {tool : ToolIdentity} :
    ToolIdentity.parse semver id version = .ok tool ↔
      ToolId.new id = .ok tool.id ∧ ToolVersion.new semver version = .ok tool.version := by
  obtain ⟨toolId, toolVersion⟩ := tool
  unfold ToolIdentity.parse
  cases ToolId.new id with
  | error error => simp only [bind, Except.bind, reduceCtorEq, false_and]
  | ok parsed =>
    cases ToolVersion.new semver version with
    | error error => simp only [bind, Except.bind, reduceCtorEq, and_false]
    | ok other =>
      simp only [bind, Except.bind, pure, Except.pure, Except.ok.injEq, ToolIdentity.mk.injEq]

/-- Whether a tool identity is one that parsing can give. -/
def ToolIdentity.Parsed (semver : String → Except String SemanticVersion) (tool : ToolIdentity) :
    Prop :=
  ∃ id version, ToolIdentity.parse semver id version = .ok tool

/-- Where versions display as they were spelled, a parsed identity parses again to itself, and both
halves are short. -/
theorem ToolIdentity.Parsed.parse_self {tool : ToolIdentity} (parsed : tool.Parsed semver)
    (display : ∀ value version, semver value = .ok version → version.text = value) :
    ToolIdentity.parse semver tool.id tool.version = .ok tool ∧
      tool.id.length ≤ maxIdentifierLength ∧ tool.version.length ≤ maxIdentifierLength := by
  obtain ⟨id, version, parsed⟩ := parsed
  obtain ⟨named, versioned⟩ := ToolIdentity.parse_eq_ok.mp parsed
  obtain ⟨valid, same⟩ := ToolId.new_eq_ok.mp named
  obtain ⟨short, read⟩ := ToolVersion.new_eq_ok.mp versioned
  have displayed : tool.version = version := display _ _ read
  rw [same, displayed]
  refine ⟨ToolIdentity.parse_eq_ok.mpr ⟨?_, ?_⟩, validateIdentifier_length valid, short⟩
  · rw [named]
  · rw [versioned]

end Versions

end Harkness.Runtime
