import Harkness.Platform.PathBuf
import Harkness.Runtime.Policy.Decision
import Harkness.ToMathlib.Except
import Harkness.ToMathlib.Utf8
import Mathlib

/-! # The identity a trust grant is bound to

Whoever observes an external subject reports its paths, digests, versions and capabilities as plain
data. Every text of it keeps a grammar, hosts are spelled in lowercase, and an executable is named from
a filesystem root. What is stored of an identity is read back through the same checks.
-/

namespace Harkness.Runtime.Integration

open Policy (isWhiteSpace)

/-- A kind of externally controlled thing a user can decide to trust. -/
inductive SubjectKind where
  | agentExecutable
  | mcpServer
  | mcpToolSchema
  | recipe
  | forgeAccount
  | forgeRepository
  | workspace
deriving DecidableEq, Repr

/-- Where the configuration that introduced a subject came from. -/
inductive ConfigurationSource where
  | builtin
  | user
  | repository
  | imported
deriving DecidableEq, Repr

inductive TrustState where
  | untrusted
  | trusted
  | revoked
  | invalidated
deriving DecidableEq, Repr

inductive IntegrationDomainError where
  | invalidTrustTransition (source target : TrustState)
  | schemaVersionTooOld (record : String) (found minimum : ℕ)
  | schemaVersionTooNew (record : String) (found maximum : ℕ)
  | invalidIdentity (field reason : String)
  | missingIdentityEvidence (subjectKind : SubjectKind) (required : String)
  | invalidRecord (record reason : String)
  | invalidTimestamp (record field reason : String)
deriving DecidableEq

def maxIdentityFieldLength : ℕ := 512

def maxExecutablePathLength : ℕ := 4096

def maxCapabilities : ℕ := 64

/-- The control characters. -/
def isControl (character : Char) : Bool :=
  character.toNat < 32 || (127 ≤ character.toNat && character.toNat ≤ 159)

/-- Without the white space around it. -/
def trim (text : List Char) : List Char :=
  ((text.dropWhile isWhiteSpace).reverse.dropWhile isWhiteSpace).reverse

/-- The bytes of a text. -/
def byteLength (value : String) : ℕ := String.utf8Len value.toList

/-- The shared grammar every identity text field is held to. -/
def validateText (field value : String) : Except IntegrationDomainError Unit :=
  if value = "" then .error (.invalidIdentity field "it cannot be empty")
  else if byteLength value > maxIdentityFieldLength then
    .error (.invalidIdentity field "it is longer than the maximum identity field length")
  else if trim value.toList ≠ value.toList then
    .error (.invalidIdentity field "it cannot begin or end with whitespace")
  else if value.toList.any isControl then
    .error (.invalidIdentity field "it cannot carry a control character")
  else .ok ()

/-- A text within the grammar. -/
def ValidText (value : String) : Prop :=
  value ≠ "" ∧ byteLength value ≤ maxIdentityFieldLength ∧ trim value.toList = value.toList ∧
    value.toList.any isControl = false

instance (value : String) : Decidable (ValidText value) :=
  inferInstanceAs (Decidable (_ ∧ _ ∧ _ ∧ _))

theorem validText_none : ∀ value ∈ (none : Option String), ValidText value := nofun

theorem validateText_eq_ok {field value : String} : validateText field value = .ok () ↔ ValidText value := by
  rw [validateText]
  simp only [Except.ite_error_eq_ok, ValidText, not_lt, not_not, Bool.not_eq_true, and_true]

/-- ASCII letters in lowercase. -/
def toAsciiLowercase (value : String) : String := String.ofList (value.toList.map Char.toLower)

theorem toLower_cases (character : Char) : character.toLower = character ∨
    (65 ≤ character.toNat ∧ character.toNat ≤ 90 ∧
      character.toLower.toNat = character.toNat + 32) := by
  by_cases upper : character.val ≥ 'A'.val ∧ character.val ≤ 'Z'.val
  · right
    have low : 65 ≤ character.toNat := UInt32.le_iff_toNat_le.mp upper.1
    have high : character.toNat ≤ 90 := UInt32.le_iff_toNat_le.mp upper.2
    refine ⟨low, high, ?_⟩
    have lowered : character.toLower.toNat = (character.val + ('a'.val - 'A'.val)).toNat := by
      rw [Char.toLower, dif_pos upper]
      rfl
    have step : ('a'.val - 'A'.val).toNat = 32 := by decide
    rw [lowered, UInt32.toNat_add, step]
    change (character.toNat + 32) % 2 ^ 32 = character.toNat + 32
    omega
  · left
    rw [Char.toLower, dif_neg upper]

theorem utf8Size_toLower (character : Char) : character.toLower.utf8Size = character.utf8Size := by
  have single : ∀ ascii : Char, ascii.toNat ≤ 127 → ascii.utf8Size = 1 := by
    intro ascii small
    rw [Char.utf8Size_eq_one_iff]
    exact UInt32.le_iff_toNat_le.mpr small
  rcases toLower_cases character with same | ⟨low, high, up⟩
  · rw [same]
  · rw [single character (by omega), single character.toLower (by omega)]

theorem isWhiteSpace_toLower (character : Char) :
    isWhiteSpace character.toLower = isWhiteSpace character := by
  have letter : ∀ ascii : Char, 65 ≤ ascii.toNat → ascii.toNat ≤ 122 → isWhiteSpace ascii = false := by
    intro ascii low high
    simp only [isWhiteSpace, Bool.or_eq_false_iff, Bool.and_eq_false_iff, decide_eq_false_iff_not,
      beq_eq_false_iff_ne]
    omega
  rcases toLower_cases character with same | ⟨low, high, up⟩
  · rw [same]
  · rw [letter character (by omega) (by omega), letter character.toLower (by omega) (by omega)]

theorem isControl_toLower (character : Char) : isControl character.toLower = isControl character := by
  have letter : ∀ ascii : Char, 65 ≤ ascii.toNat → ascii.toNat ≤ 122 → isControl ascii = false := by
    intro ascii low high
    simp only [isControl, Bool.or_eq_false_iff, Bool.and_eq_false_iff, decide_eq_false_iff_not]
    omega
  rcases toLower_cases character with same | ⟨low, high, up⟩
  · rw [same]
  · rw [letter character (by omega) (by omega), letter character.toLower (by omega) (by omega)]

theorem toAsciiLowercase_idem (value : String) :
    toAsciiLowercase (toAsciiLowercase value) = toAsciiLowercase value := by
  simp [toAsciiLowercase, Function.comp_def]

/-- Lowercase keeps the grammar. -/
theorem ValidText.toAsciiLowercase {value : String} (valid : ValidText value) :
    ValidText (toAsciiLowercase value) := by
  obtain ⟨filled, short, trimmed, printable⟩ := valid
  have length : ∀ text : List Char, String.utf8Len (text.map Char.toLower) = String.utf8Len text := by
    intro text
    induction text with
    | nil => rfl
    | cons character text ih => simp [ih, utf8Size_toLower]
  have outside : (isWhiteSpace ∘ Char.toLower) = isWhiteSpace := funext isWhiteSpace_toLower
  refine ⟨?_, ?_, ?_, ?_⟩
  · simpa [Integration.toAsciiLowercase] using filled
  · simpa [Integration.toAsciiLowercase, byteLength, length] using short
  · simp only [Integration.toAsciiLowercase, String.toList_ofList, trim, List.dropWhile_map,
      ← List.map_reverse, outside]
    rw [← trim, trimmed]
  · simpa [Integration.toAsciiLowercase, Function.comp_def, isControl_toLower] using printable

/-- A SHA-256 digest identifying content a trust grant is bound to. -/
abbrev Sha256Hash := Vector (Fin 256) 32

/-- Whether a path starts from a filesystem root under either convention. -/
def isRootedAnywhere (path : List (Fin 256)) : Bool :=
  path.head? = some 47 ||
    (match Utf8.decode? (path.map UInt8.ofFin) with
    | none => false
    | some ('\\' :: '\\' :: _) => true
    | some (drive :: ':' :: separator :: _) =>
      drive.isAlpha && (separator = '/' || separator = '\\')
    | some _ => false)

/-- A path an executable may be recorded at. -/
def ValidExecutablePath (path : List (Fin 256)) : Prop :=
  path ≠ [] ∧ isRootedAnywhere path = true ∧ path.length ≤ maxExecutablePathLength

/-- The identity of a local subprocess subject: where it lives, and what it is. -/
structure ExecutableIdentity where
  path : List (Fin 256)
  sha256 : Sha256Hash
  valid : ValidExecutablePath path
deriving DecidableEq

def ExecutableIdentity.new (path : List (Fin 256)) (sha256 : Sha256Hash) :
    Except IntegrationDomainError ExecutableIdentity :=
  if empty : path = [] then .error (.invalidIdentity "executable.path" "it cannot be empty")
  else if rooted : isRootedAnywhere path = false then
    .error (.invalidIdentity "executable.path" "it must start from a filesystem root")
  else if long : path.length > maxExecutablePathLength then
    .error (.invalidIdentity "executable.path" "it is longer than the maximum executable path length")
  else .ok ⟨path, sha256, empty, by simpa using rooted, Nat.le_of_not_gt long⟩

/-- The identity of a remote subject: the host it is reached at, and what on it. -/
structure EndpointIdentity where
  host : String
  resource : Option String
  host_valid : ValidText host
  host_lowercase : toAsciiLowercase host = host
  resource_valid : ∀ value ∈ resource, ValidText value
deriving DecidableEq

def EndpointIdentity.new (host : String) (resource : Option String) :
    Except IntegrationDomainError EndpointIdentity :=
  match checked : validateText "endpoint.host" host with
  | .error error => .error error
  | .ok () =>
    have valid := (validateText_eq_ok.mp checked).toAsciiLowercase
    match resource with
    | none => .ok ⟨toAsciiLowercase host, none, valid, toAsciiLowercase_idem host, nofun⟩
    | some resource =>
      match named : validateText "endpoint.resource" resource with
      | .error error => .error error
      | .ok () => .ok ⟨toAsciiLowercase host, some resource, valid, toAsciiLowercase_idem host,
          fun _ same => Option.some.inj same ▸ validateText_eq_ok.mp named⟩

instance isTrans_string : IsTrans String (· ≤ ·) := inferInstance

instance antisymm_string : Std.Antisymm ((· ≤ ·) : String → String → Prop) := inferInstance

/-- The declared capabilities of a subject. -/
abbrev CapabilitySet :=
  { set : Finset String // (∀ capability ∈ set, ValidText capability) ∧ set.card ≤ maxCapabilities }

def CapabilitySet.empty : CapabilitySet := ⟨∅, by simp, by simp⟩

/-- The exact facts a trust grant is bound to. -/
structure IdentityBasis where
  displayName : String
  subjectVersion : Option String
  protocolVersion : Option String
  executable : Option ExecutableIdentity
  endpoint : Option EndpointIdentity
  schemaFingerprint : Option Sha256Hash
  contentHash : Option Sha256Hash
  capabilities : CapabilitySet
  configurationSource : ConfigurationSource
  displayName_valid : ValidText displayName
  subjectVersion_valid : ∀ value ∈ subjectVersion, ValidText value
  protocolVersion_valid : ∀ value ∈ protocolVersion, ValidText value
deriving DecidableEq

namespace IdentityBasis

/-- Begins a basis from the two facts every subject has. -/
def new (displayName : String) (configurationSource : ConfigurationSource) :
    Except IntegrationDomainError IdentityBasis :=
  match checked : validateText "display_name" displayName with
  | .error error => .error error
  | .ok () => .ok ⟨displayName, none, none, none, none, none, none, .empty, configurationSource,
      validateText_eq_ok.mp checked, nofun, nofun⟩

/-- Records the version the subject reports for itself. -/
def versioned (basis : IdentityBasis) (version : String) :
    Except IntegrationDomainError IdentityBasis :=
  match checked : validateText "subject_version" version with
  | .error error => .error error
  | .ok () => .ok { basis with
      subjectVersion := some version
      subjectVersion_valid := fun _ same => Option.some.inj same ▸ validateText_eq_ok.mp checked }

/-- Records the protocol revision the subject speaks. -/
def speaking (basis : IdentityBasis) (protocol : String) :
    Except IntegrationDomainError IdentityBasis :=
  match checked : validateText "protocol_version" protocol with
  | .error error => .error error
  | .ok () => .ok { basis with
      protocolVersion := some protocol
      protocolVersion_valid := fun _ same => Option.some.inj same ▸ validateText_eq_ok.mp checked }

def launchedFrom (basis : IdentityBasis) (executable : ExecutableIdentity) : IdentityBasis :=
  { basis with executable := some executable }

def reachedAt (basis : IdentityBasis) (endpoint : EndpointIdentity) : IdentityBasis :=
  { basis with endpoint := some endpoint }

def fingerprinted (basis : IdentityBasis) (schemaFingerprint : Sha256Hash) : IdentityBasis :=
  { basis with schemaFingerprint := some schemaFingerprint }

def hashing (basis : IdentityBasis) (contentHash : Sha256Hash) : IdentityBasis :=
  { basis with contentHash := some contentHash }

end IdentityBasis

/-- Adds declared capabilities one by one, refusing them the moment they pass their bound. -/
def CapabilitySet.declare (declared : CapabilitySet) : List String →
    Except IntegrationDomainError CapabilitySet
  | [] => .ok declared
  | capability :: rest =>
    match checked : validateText "capabilities" capability with
    | .error error => .error error
    | .ok () =>
      if few : (insert capability declared.val).card ≤ maxCapabilities then
        CapabilitySet.declare ⟨insert capability declared.val,
          Finset.forall_mem_insert _ _ _ |>.mpr ⟨validateText_eq_ok.mp checked, declared.property.1⟩, few⟩
          rest
      else
        .error (.invalidIdentity "capabilities"
          "more capabilities are declared than an identity may carry")

/-- Records the capabilities the subject declares. -/
def IdentityBasis.declaring (basis : IdentityBasis) (capabilities : List String) :
    Except IntegrationDomainError IdentityBasis := do
  let declared ← CapabilitySet.empty.declare capabilities
  .ok { basis with capabilities := declared }

end Harkness.Runtime.Integration
