import Harkness.Runtime.Approval.Record
import Harkness.Runtime.Domain.State
import Harkness.Runtime.Tool.Identifier
import Harkness.ToMathlib.DateTimeFormat
import Harkness.ToMathlib.Except
import Harkness.ToMathlib.Hex

/-! # Conversions between stored columns and record fields

Every conversion is fallible and names the record and column it failed on. A text wider than the
inline limit is refused on the way in and on the way out. The texts of identifiers, timestamps,
paths, JSON arrays and semantic versions come from other libraries, so they are parameters with what those
libraries promise: timestamps are written and read by a format description, and the others are read back.
-/

namespace Harkness.Runtime.Store

open Approval Domain DateTime

/-- Largest value stored in a column, in bytes. -/
def maxInlinePayloadBytes : ℕ := 64 * 1024

/-- Failures of the run store that columns, rows and pages can raise. -/
inductive StoreError where
  | payloadTooLarge (record field : String) (bytes : ℕ)
  | nonUtf8Path (record field : String)
  | columnEncoding (record field reason : String)
  | invalidRecord (record : String) (error : RunDomainError)
  | approval (error : ApprovalError)
  | missingParent (record id parent : String)
  | invalidPageLimit (limit maximum : ℕ)
deriving DecidableEq

/-- Texts that other libraries write and read. -/
structure Codecs where
  formatTimestamp : Instant → Except String String
  parseTimestamp : String → Option Instant
  formatId : ℕ → String
  parseId : String → Except String ℕ
  pathText : List String → Option String
  pathOf : String → List String
  serializeTexts : List String → Except String String
  deserializeCapabilities : (String → Except RegistryError Capability) → String →
    Except String (List Capability)
  semver : String → Except String SemanticVersion
  debug : String → String

/-- The library formats and parses timestamps by the description, item by item. -/
structure Codecs.Describes (codecs : Codecs) : Prop where
  format : ∀ at_, Representable at_ → codecs.formatTimestamp at_ =
    .ok (String.ofList (timestampFormat.flatMap (FormatItem.text (.of at_))))
  parse : ∀ text parts, readItems timestampFormat .unset text.toList = some parts → parts.Valid →
    codecs.parseTimestamp text = some parts.instant

/-- What those libraries promise. -/
structure Codecs.Lawful (codecs : Codecs) : Prop where
  timestamps : codecs.Describes
  id : ∀ id < 2 ^ 128, codecs.parseId (codecs.formatId id) = .ok id ∧
    (codecs.formatId id).utf8ByteSize = 36
  path : ∀ root text, codecs.pathText root = some text → codecs.pathOf text = root
  capabilities : ∀ (capabilities : List Capability) (text : String),
    (∀ capability ∈ capabilities, Capability.new capability.asStr = .ok capability) →
      codecs.serializeTexts (capabilities.map Capability.asStr) = .ok text →
        codecs.deserializeCapabilities Capability.new text = .ok capabilities
  semver : ∀ value version, codecs.semver value = .ok version → version.text = value

/-- Refuses caller data above the inline threshold. -/
def withinInlineLimit (record field : String) (bytes : ℕ) : Except StoreError Unit :=
  if maxInlinePayloadBytes < bytes then .error (.payloadTooLarge record field bytes) else .ok ()

/-- Passes caller text on after proving it fits in a column. -/
def encodeText (record field value : String) : Except StoreError String := do
  withinInlineLimit record field value.utf8ByteSize
  return value

/-- Reads a text column and holds it to the bound its writer was held to. -/
def text (record field stored : String) : Except StoreError String := do
  withinInlineLimit record field stored.utf8ByteSize
  return stored

def optionalText (record field : String) : Option String → Except StoreError (Option String)
  | none => .ok none
  | some stored => some <$> text record field stored

/-- A platform path as the text a column can hold. -/
def encodePath (codecs : Codecs) (record field : String) (path : List String) :
    Except StoreError String :=
  match codecs.pathText path with
  | none => .error (.nonUtf8Path record field)
  | some text => encodeText record field text

def encodeTimestamp (codecs : Codecs) (record field : String) (at_ : Instant) :
    Except StoreError String :=
  (codecs.formatTimestamp at_).mapError (.columnEncoding record field)

def encodeOptionalTimestamp (codecs : Codecs) (record field : String) :
    Option Instant → Except StoreError (Option String)
  | none => .ok none
  | some at_ => some <$> encodeTimestamp codecs record field at_

/-- The canonical spelling, for refusals that need to name it. -/
def timestampShape : String := "YYYY-MM-DDThh:mm:ss.nnnnnnnnnZ"

/-- Parses a stored timestamp, accepting only the canonical spelling. -/
def decodeTimestamp (codecs : Codecs) (record field stored : String) : Except StoreError Instant :=
  match codecs.parseTimestamp stored with
  | some at_ => .ok at_
  | none => .error (.columnEncoding record field
      (stored ++ " is not a stored timestamp of the form " ++ timestampShape))

def decodeOptionalTimestamp (codecs : Codecs) (record field : String) :
    Option String → Except StoreError (Option Instant)
  | none => .ok none
  | some stored => some <$> decodeTimestamp codecs record field stored

def decodeId (codecs : Codecs) (record field stored : String) : Except StoreError ℕ :=
  (codecs.parseId stored).mapError (.columnEncoding record field)

/-- Reads and validates a row's schema version before anything else is decoded. -/
def schemaVersion (record : String) (stored : ℤ) : Except StoreError ℕ :=
  if stored < 0 ∨ 2 ^ 32 ≤ stored then
    .error (.columnEncoding record "schema_version"
      (toString stored ++ " is not a representable schema version"))
  else do
    (validateSchemaVersion record stored.toNat).mapError (.invalidRecord record)
    return stored.toNat

/-- The lower-case hexadecimal spelling of a digest, first byte first. -/
def hashToHex (hash : BitVec 256) : String := String.ofList (Hex.digits 64 hash.toNat)

/-- Parses the lower-case hexadecimal spelling of a digest. -/
def parseHash (value : String) : Except String (BitVec 256) :=
  if value.utf8ByteSize ≠ 64 then .error "it is not 64 hexadecimal characters long"
  else match Hex.readFrom 0 value.toList with
    | some hash => .ok (BitVec.ofNat 256 hash)
    | none => .error "it is not spelled in lowercase hexadecimal"

def InputHash.parse (codecs : Codecs) (value : String) : Except String InputHash :=
  (parseHash value).mapError
    fun reason => codecs.debug value ++ " is not a canonical input hash: " ++ reason

def Sha256Hash.parse (value : String) : Except String Sha256Hash :=
  (parseHash value).mapError fun reason => value ++ " is not a SHA-256 digest: " ++ reason

@[simp] theorem withinInlineLimit_eq_ok {record field : String} {bytes : ℕ} :
    withinInlineLimit record field bytes = .ok () ↔ bytes ≤ maxInlinePayloadBytes := by
  unfold withinInlineLimit
  split_ifs with wide
  · simp only [false_iff, not_le]
    exact wide
  · simp only [true_iff]
    exact not_lt.mp wide

theorem encodeText_eq_ok {record field value stored : String} :
    encodeText record field value = .ok stored ↔
      value.utf8ByteSize ≤ maxInlinePayloadBytes ∧ stored = value := by
  have fits : withinInlineLimit record field value.utf8ByteSize = .ok () ↔ _ :=
    withinInlineLimit_eq_ok
  unfold encodeText
  rw [← fits]
  cases withinInlineLimit record field value.utf8ByteSize with
  | error error => simp only [bind, Except.bind, reduceCtorEq, false_and]
  | ok _ => simp only [bind, Except.bind, pure, Except.pure, Except.ok.injEq, true_and, eq_comm]

theorem text_of_le {record field stored : String}
    (fits : stored.utf8ByteSize ≤ maxInlinePayloadBytes) : text record field stored = .ok stored :=
  encodeText_eq_ok.mpr ⟨fits, rfl⟩

theorem optionalText_of_le {record field : String} {stored : Option String}
    (fits : ∀ text, stored = some text → text.utf8ByteSize ≤ maxInlinePayloadBytes) :
    optionalText record field stored = .ok stored := by
  cases stored with
  | none => rfl
  | some stored => rw [optionalText, text_of_le (fits stored rfl)]; rfl

/-- A character takes at most four bytes. -/
theorem utf8ByteSize_le (value : String) : value.utf8ByteSize ≤ 4 * value.length := by
  rw [← String.utf8Len_toList, ← String.length_toList]
  induction value.toList with
  | nil => exact le_refl _
  | cons character rest ih =>
    rw [String.utf8Len_cons, List.length_cons]
    have size := character.utf8Size_le_four
    omega

section Codecs

variable {codecs : Codecs}

theorem text_id (lawful : codecs.Lawful) {record field : String} {id : ℕ} (small : id < 2 ^ 128) :
    text record field (codecs.formatId id) = .ok (codecs.formatId id) :=
  text_of_le (by rw [(lawful.id id small).2]; decide)

theorem decodeId_formatId (lawful : codecs.Lawful) {record field : String} {id : ℕ}
    (small : id < 2 ^ 128) : decodeId codecs record field (codecs.formatId id) = .ok id := by
  rw [decodeId, (lawful.id id small).1]
  rfl

/-- An instant in UTC is encoded, and read back. -/
theorem decodeTimestamp_encodeTimestamp (describes : codecs.Describes) (record field : String)
    {at_ : Instant} (known : Representable at_) :
    encodeTimestamp codecs record field at_ = .ok (String.ofList (timestampText at_)) ∧
      decodeTimestamp codecs record field (String.ofList (timestampText at_)) = .ok at_ := by
  have valid := valid_of known
  constructor
  · rw [encodeTimestamp, describes.format at_ known, flatMap_timestampFormat]
    rfl
  · have read : readItems timestampFormat .unset (String.ofList (timestampText at_)).toList =
        some (.of at_) := by
      rw [String.toList_ofList, ← flatMap_timestampFormat, readItems_timestampFormat valid]
    rw [decodeTimestamp, describes.parse _ _ read valid, instant_of known]

/-- A timestamp column reads back the instant it was written from. -/
theorem decodeTimestamp_of_encode (describes : codecs.Describes) {record field stored : String}
    {at_ : Instant} (representable : Representable at_)
    (encoded : encodeTimestamp codecs record field at_ = .ok stored) :
    text record field stored = .ok stored ∧
      decodeTimestamp codecs record field stored = .ok at_ := by
  obtain ⟨written, read⟩ := decodeTimestamp_encodeTimestamp describes record field representable
  rw [written] at encoded
  obtain rfl := Except.ok.inj encoded
  refine ⟨text_of_le ((utf8ByteSize_le _).trans ?_), read⟩
  have short := length_timestampText_le at_
  rw [← String.length_toList, String.toList_ofList, maxInlinePayloadBytes]
  omega

theorem decodeOptionalTimestamp_of_encode (describes : codecs.Describes) {record field : String}
    {at_ : Option Instant} {stored : Option String}
    (representable : ∀ instant, at_ = some instant → Representable instant)
    (encoded : encodeOptionalTimestamp codecs record field at_ = .ok stored) :
    optionalText record field stored = .ok stored ∧
      decodeOptionalTimestamp codecs record field stored = .ok at_ := by
  cases at_ with
  | none => cases encoded; exact ⟨rfl, rfl⟩
  | some at_ =>
    obtain ⟨spelled, formatted, rfl⟩ := Except.map_eq_ok.mp encoded
    obtain ⟨fits, read⟩ := decodeTimestamp_of_encode describes (representable at_ rfl) formatted
    rw [optionalText, fits, decodeOptionalTimestamp, read]
    exact ⟨rfl, rfl⟩

end Codecs

/-- An identifier always fits in a column. -/
theorem identifier_fits {value : String} (short : value.length ≤ maxIdentifierLength) :
    value.utf8ByteSize ≤ maxInlinePayloadBytes := by
  have size := utf8ByteSize_le value
  simp only [maxIdentifierLength, maxInlinePayloadBytes] at short ⊢
  omega

end Harkness.Runtime.Store
