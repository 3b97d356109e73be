import Harkness.Runtime.Integration.Subject

/-! # Identities as they are stored

A path is stored as text, so an identity whose executable lies at other bytes is refused by the
serializer. Reading goes through the builders, and gives back every identity that was written.
-/

namespace Harkness.Runtime.Integration

/-- The strict body of a stored identity. -/
structure IdentityWire where
  displayName : String
  subjectVersion : Option String
  protocolVersion : Option String
  executable : Option (String × Sha256Hash)
  endpoint : Option (String × Option String)
  schemaFingerprint : Option Sha256Hash
  contentHash : Option Sha256Hash
  capabilities : List String
  configurationSource : ConfigurationSource
deriving DecidableEq

/-- The text of a path that is valid UTF-8. -/
def pathText (path : List (Fin 256)) : Option String :=
  (Utf8.decode? (path.map UInt8.ofFin)).map String.ofList

def textPath (text : String) : List (Fin 256) := (Utf8.encode text.toList).map UInt8.toFin

theorem textPath_pathText {path : List (Fin 256)} {text : String} (readable : pathText path = some text) :
    textPath text = path := by
  obtain ⟨characters, decoded, rfl⟩ := Option.map_eq_some_iff.mp readable
  have bytes := Utf8.decode?_eq_some_iff.mp decoded
  rw [textPath, String.toList_ofList, ← bytes, List.map_map]
  exact List.map_id _

/-- An executable, unless its path has no text. -/
def ExecutableIdentity.serialize (executable : ExecutableIdentity) : Option (String × Sha256Hash) :=
  (pathText executable.path).map fun text => (text, executable.sha256)

def IdentityBasis.serialize (basis : IdentityBasis) : Option IdentityWire :=
  (match basis.executable with
    | none => some none
    | some executable => executable.serialize.map some).map fun executable =>
    { displayName := basis.displayName
      subjectVersion := basis.subjectVersion
      protocolVersion := basis.protocolVersion
      executable
      endpoint := basis.endpoint.map fun (endpoint : EndpointIdentity) => (endpoint.host, endpoint.resource)
      schemaFingerprint := basis.schemaFingerprint
      contentHash := basis.contentHash
      capabilities := basis.capabilities.val.sort (· ≤ ·)
      configurationSource := basis.configurationSource }

/-- A field read only where it is present. -/
def readOptional {α β : Type} (read : α → Except IntegrationDomainError β) :
    Option α → Except IntegrationDomainError (Option β)
  | none => .ok none
  | some value => (read value).map some

/-- A basis on which a present field is recorded. -/
def IdentityBasis.recording {α : Type} (basis : IdentityBasis) (value : Option α)
    (record : IdentityBasis → α → Except IntegrationDomainError IdentityBasis) :
    Except IntegrationDomainError IdentityBasis :=
  match value with
  | none => .ok basis
  | some value => record basis value

open IdentityBasis (versioned speaking) in
def IdentityBasis.deserialize (wire : IdentityWire) : Except IntegrationDomainError IdentityBasis := do
  let executable ← readOptional (fun stored => ExecutableIdentity.new (textPath stored.1) stored.2)
    wire.executable
  let endpoint ← readOptional (fun stored => EndpointIdentity.new stored.1 stored.2) wire.endpoint
  let capabilities ← CapabilitySet.empty.declare wire.capabilities
  let basis ← IdentityBasis.new wire.displayName wire.configurationSource
  let basis ← basis.recording wire.subjectVersion versioned
  let basis ← basis.recording wire.protocolVersion speaking
  let basis ← basis.recording executable fun basis executable => .ok (basis.launchedFrom executable)
  let basis ← basis.recording endpoint fun basis endpoint => .ok (basis.reachedAt endpoint)
  let basis ← basis.recording wire.schemaFingerprint fun basis hash => .ok (basis.fingerprinted hash)
  let basis ← basis.recording wire.contentHash fun basis hash => .ok (basis.hashing hash)
  basis.declaring (capabilities.val.sort (· ≤ ·))

theorem ExecutableIdentity.new_self (executable : ExecutableIdentity) :
    ExecutableIdentity.new executable.path executable.sha256 = .ok executable := by
  obtain ⟨path, sha256, filled, rooted, short⟩ := executable
  rw [ExecutableIdentity.new, dif_neg filled, dif_neg (by simp [rooted]), dif_neg (Nat.not_lt.mpr short)]

theorem EndpointIdentity.new_self (endpoint : EndpointIdentity) :
    EndpointIdentity.new endpoint.host endpoint.resource = .ok endpoint := by
  obtain ⟨host, resource, host_valid, lowercase, resource_valid⟩ := endpoint
  have checked : ∀ field, validateText field host = .ok () := fun _ => validateText_eq_ok.mpr host_valid
  unfold EndpointIdentity.new
  split
  · simp_all
  · cases resource with
    | none => simp only [lowercase]
    | some resource =>
      have named : ∀ field, validateText field resource = .ok () := fun _ =>
        validateText_eq_ok.mpr (resource_valid resource rfl)
      dsimp only
      split
      · simp_all
      · simp only [lowercase]

namespace IdentityBasis

variable {basis : IdentityBasis} {text : String}

theorem new_eq_ok {source : ConfigurationSource} (valid : ValidText text) :
    IdentityBasis.new text source = .ok ⟨text, none, none, none, none, none, none, .empty, source, valid,
      nofun, nofun⟩ := by
  have checked : validateText "display_name" text = .ok () := validateText_eq_ok.mpr valid
  unfold IdentityBasis.new
  split
  · simp_all
  · rfl

theorem versioned_eq_ok (valid : ValidText text) : basis.versioned text = .ok { basis with
    subjectVersion := some text
    subjectVersion_valid := fun _ same => Option.some.inj same ▸ valid } := by
  have checked : validateText "subject_version" text = .ok () := validateText_eq_ok.mpr valid
  unfold versioned
  split
  · simp_all
  · rfl

theorem speaking_eq_ok (valid : ValidText text) : basis.speaking text = .ok { basis with
    protocolVersion := some text
    protocolVersion_valid := fun _ same => Option.some.inj same ▸ valid } := by
  have checked : validateText "protocol_version" text = .ok () := validateText_eq_ok.mpr valid
  unfold speaking
  split
  · simp_all
  · rfl

end IdentityBasis

theorem IdentityBasis.recording_versioned {basis : IdentityBasis} {version : Option String}
    (blank : basis.subjectVersion = none) (valid : ∀ value ∈ version, ValidText value) :
    basis.recording version IdentityBasis.versioned =
      .ok { basis with subjectVersion := version, subjectVersion_valid := valid } := by
  cases version with
  | none =>
    obtain ⟨⟩ := basis
    cases blank
    rfl
  | some version => exact versioned_eq_ok (valid version rfl)

theorem IdentityBasis.recording_speaking {basis : IdentityBasis} {protocol : Option String}
    (blank : basis.protocolVersion = none) (valid : ∀ value ∈ protocol, ValidText value) :
    basis.recording protocol IdentityBasis.speaking =
      .ok { basis with protocolVersion := protocol, protocolVersion_valid := valid } := by
  cases protocol with
  | none =>
    obtain ⟨⟩ := basis
    cases blank
    rfl
  | some protocol => exact speaking_eq_ok (valid protocol rfl)

/-- Recording a field that cannot be refused is setting it. -/
theorem IdentityBasis.recording_ok {α : Type} {basis : IdentityBasis} {value : Option α}
    {record : IdentityBasis → α → IdentityBasis} (set : Option α → IdentityBasis)
    (absent : set none = basis) (present : ∀ value, set (some value) = record basis value) :
    basis.recording value (fun basis value => .ok (record basis value)) = .ok (set value) := by
  cases value with
  | none => exact congrArg _ absent.symm
  | some value => exact congrArg _ (present value).symm

/-- Valid capabilities within the bound are all declared. -/
theorem CapabilitySet.declare_eq_ok {capabilities : List String} :
    ∀ (declared : CapabilitySet), (∀ capability ∈ capabilities, ValidText capability) →
    (declared.val ∪ capabilities.toFinset).card ≤ maxCapabilities →
    ∃ all, declared.declare capabilities = .ok all ∧ all.val = declared.val ∪ capabilities.toFinset := by
  induction capabilities with
  | nil =>
    intro declared _ _
    exact ⟨declared, rfl, by simp⟩
  | cons capability rest ih =>
    intro declared valid few
    have checked : validateText "capabilities" capability = .ok () :=
      validateText_eq_ok.mpr (valid capability List.mem_cons_self)
    have union : insert capability declared.val ∪ rest.toFinset =
        declared.val ∪ (capability :: rest).toFinset := by
      rw [List.toFinset_cons, Finset.insert_union, Finset.union_insert]
    have first : (insert capability declared.val).card ≤ maxCapabilities :=
      le_trans (Finset.card_le_card (union ▸ Finset.subset_union_left)) few
    unfold CapabilitySet.declare
    split
    · simp_all
    · rw [dif_pos first]
      rw [← union] at few ⊢
      exact ih _ (fun other member => valid other (List.mem_cons_of_mem _ member)) few

/-- A set of capabilities is declared by its own list. -/
theorem CapabilitySet.declare_sort (capabilities : CapabilitySet) :
    CapabilitySet.empty.declare (capabilities.val.sort (· ≤ ·)) = .ok capabilities := by
  have listed : (capabilities.val.sort (· ≤ ·)).toFinset = capabilities.val := Finset.sort_toFinset _ _
  have union : CapabilitySet.empty.val ∪ (capabilities.val.sort (· ≤ ·)).toFinset = capabilities.val := by
    rw [listed]
    exact Finset.empty_union _
  obtain ⟨all, done, same⟩ := CapabilitySet.declare_eq_ok .empty
    (fun capability member => capabilities.property.1 capability ((Finset.mem_sort _).mp member))
    (union ▸ capabilities.property.2)
  rw [done]
  exact congrArg _ (Subtype.ext (same.trans union))

/-- Whatever could be written is read back. -/
theorem IdentityBasis.deserialize_serialize {basis : IdentityBasis} {wire : IdentityWire}
    (written : basis.serialize = some wire) : IdentityBasis.deserialize wire = .ok basis := by
  obtain ⟨name, version, protocol, executable, endpoint, fingerprint, contentHash, capabilities, source,
    nameValid, versionValid, protocolValid⟩ := basis
  obtain ⟨stored, ran, rfl⟩ := Option.map_eq_some_iff.mp written
  have executableRead : readOptional (fun stored => ExecutableIdentity.new (textPath stored.1) stored.2)
      stored = .ok executable := by
    cases executable with
    | none =>
      obtain rfl := Option.some.inj ran
      rfl
    | some executable =>
      obtain ⟨pair, serialized, rfl⟩ := Option.map_eq_some_iff.mp ran
      obtain ⟨text, readable, rfl⟩ := Option.map_eq_some_iff.mp serialized
      simp only [readOptional, textPath_pathText readable, ExecutableIdentity.new_self, Except.map]
  have endpointRead : readOptional (fun stored => EndpointIdentity.new stored.1 stored.2)
      (endpoint.map fun endpoint => (endpoint.host, endpoint.resource)) = .ok endpoint := by
    cases endpoint with
    | none => rfl
    | some endpoint => simp only [Option.map_some, readOptional, EndpointIdentity.new_self, Except.map]
  have declared := CapabilitySet.declare_sort capabilities
  refine Except.bind_eq_ok.mpr ⟨_, executableRead, Except.bind_eq_ok.mpr ⟨_, endpointRead,
    Except.bind_eq_ok.mpr ⟨_, declared, Except.bind_eq_ok.mpr ⟨_, IdentityBasis.new_eq_ok nameValid, ?_⟩⟩⟩⟩
  refine Except.bind_eq_ok.mpr ⟨_, IdentityBasis.recording_versioned rfl versionValid,
    Except.bind_eq_ok.mpr ⟨_, IdentityBasis.recording_speaking rfl protocolValid, ?_⟩⟩
  -- each remaining field is set on the basis that the ones before it have been set on
  refine Except.bind_eq_ok.mpr ⟨_, IdentityBasis.recording_ok (fun executable => ⟨name, version, protocol,
    executable, none, none, none, .empty, source, nameValid, versionValid, protocolValid⟩) rfl fun _ => rfl, ?_⟩
  refine Except.bind_eq_ok.mpr ⟨_, IdentityBasis.recording_ok (fun endpoint => ⟨name, version, protocol,
    executable, endpoint, none, none, .empty, source, nameValid, versionValid, protocolValid⟩) rfl fun _ => rfl, ?_⟩
  refine Except.bind_eq_ok.mpr ⟨_, IdentityBasis.recording_ok (fun fingerprint => ⟨name, version, protocol,
    executable, endpoint, fingerprint, none, .empty, source, nameValid, versionValid, protocolValid⟩)
    rfl fun _ => rfl, ?_⟩
  refine Except.bind_eq_ok.mpr ⟨_, IdentityBasis.recording_ok (fun contentHash => ⟨name, version, protocol,
    executable, endpoint, fingerprint, contentHash, .empty, source, nameValid, versionValid, protocolValid⟩)
    rfl fun _ => rfl, ?_⟩
  exact Except.bind_eq_ok.mpr ⟨_, declared, rfl⟩

end Harkness.Runtime.Integration
