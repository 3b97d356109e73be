import Harkness.Context.Index.Symbols

/-! # Every extraction against the checks of the store

Whatever an adapter says, what the registry makes of it lies within its source, is identified by its
names and encloses in order. The store takes it exactly when the identities differ and nothing within
another is without a name, and what it takes it reads back.
-/

namespace Harkness.Context.Index

/-- What holds of an extraction, whatever its adapter said. -/
structure Extracted (sha256 : List UInt8 → String) (path : RepoPath) (byteSize : ℕ)
    (extracted : FileSymbols) : Prop where
  fewSymbols : extracted.symbols.length ≤ maxSymbolsPerFile
  fewReferences : extracted.references.length ≤ maxReferencesPerFile
  ranges : ∀ symbol ∈ extracted.symbols, validRange symbol.byteRange byteSize = true
  identities : ∀ symbol ∈ extracted.symbols, ∃ language, extracted.language = some language ∧
    symbol.id = SymbolId.derive sha256 path language.value
      (identityName symbol.qualifiedName symbol.ordinal) symbol.kind.asStr
  parents : ∀ before symbol behind, extracted.symbols = before ++ symbol :: behind →
    ∀ parentId, symbol.parent = some parentId → ∃ parent ∈ before, parent.id = parentId ∧
      parent.byteRange.start ≤ symbol.byteRange.start ∧
      symbol.qualifiedName = parent.qualifiedName ++ "::" ++ symbol.name
  references : ∀ reference ∈ extracted.references, validRange reference.byteRange byteSize = true
  errorRanges : ∀ range ∈ extracted.health.errorRanges, validRange range byteSize = true
  partial_ : ∀ errorRanges, extracted.health = .partial_ errorRanges → errorRanges ≠ []

section Identified

variable {sourceLen : ℕ} {extracted : ExtractionResult}

/-- The symbol that a sound declaration becomes stands within the one that encloses it. -/
theorem identify_parent (derive : String → String → String) (sound : extracted.Sound sourceLen)
    {first rest : List RawSymbol}
    {raw : RawSymbol} (split : extracted.symbols = first ++ raw :: rest) {place : ℕ}
    (named : raw.parent = some place) : ∃ parent ∈ (identify derive first).symbols,
      ((identify derive first).symbol derive raw).parent = some parent.id ∧
      parent.byteRange.start ≤ raw.byteRange.start ∧
      ((identify derive first).symbol derive raw).qualifiedName =
        parent.qualifiedName ++ "::" ++ (lossy raw.name).1 := by
  obtain ⟨enclosing, found, before⟩ := (sound.symbols first raw rest split).2 place named
  have ranges := congrArg (·[place]?) (map_byteRange_identify derive first)
  simp only [List.getElem?_map, found, Option.map_some] at ranges
  obtain ⟨parent, stored, range⟩ := Option.map_eq_some_iff.mp ranges
  refine ⟨parent, List.mem_of_getElem? stored, ?_, by rw [range]; exact before, ?_⟩
  · simp only [Identified.symbol, named, Option.bind_some, stored, Option.map_some]
  · simp only [Identified.symbol, named, Option.bind_some, stored, Option.map_some, qualify]

theorem identify_parent_isSome (derive : String → String → String) (sound : extracted.Sound sourceLen)
    {first rest : List RawSymbol}
    {raw : RawSymbol} (split : extracted.symbols = first ++ raw :: rest) :
    ((identify derive first).symbol derive raw).parent.isSome = raw.parent.isSome := by
  cases named : raw.parent with
  | none =>
    simp only [Identified.symbol, named, Option.bind_none, Option.map_none]
    rfl
  | some place =>
    obtain ⟨parent, -, stored, -⟩ := identify_parent derive sound split named
    rw [stored]
    rfl

/-- Every symbol within another has a name exactly when every declaration within another has one. -/
theorem named_identify_iff (derive : String → String → String) (sound : extracted.Sound sourceLen) :
    (∀ symbol ∈ (identify derive extracted.symbols).symbols, symbol.parent.isSome → symbol.name ≠ "") ↔
      ∀ raw ∈ extracted.symbols, raw.parent.isSome → raw.name ≠ [] := by
  constructor
  · intro named raw member within
    obtain ⟨first, rest, split⟩ := List.append_of_mem member
    obtain ⟨more, symbols⟩ := identify_append_cons derive first raw rest
    have name := named ((identify derive first).symbol derive raw)
      (by rw [split, symbols]; exact List.mem_append_right _ List.mem_cons_self)
      (by rwa [identify_parent_isSome derive sound split])
    exact fun empty => name (lossy_eq_empty.mpr empty)
  · intro named symbol member within
    obtain ⟨before, behind, split⟩ := List.append_of_mem member
    obtain ⟨first, raw, rest, raws, -, rfl⟩ := identify_split split
    rw [identify_parent_isSome derive sound raws] at within
    have listed : raw ∈ extracted.symbols := by
      rw [raws]
      exact List.mem_append_right _ List.mem_cons_self
    exact fun empty => named raw listed within (lossy_eq_empty.mp empty)

end Identified

variable {sha256 : List UInt8 → String} {path : RepoPath} {byteSize : ℕ}

/-- An extraction without declarations and mentions. -/
theorem Extracted.bare {extracted : FileSymbols} (symbols : extracted.symbols = [])
    (references : extracted.references = [])
    (health : ∀ errorRanges, extracted.health ≠ .partial_ errorRanges) :
    Extracted sha256 path byteSize extracted := by
  refine ⟨by simp [symbols], by simp [references], by simp [symbols], by simp [symbols],
    by simp [symbols], by simp [references], ?_, fun ranges some_ => absurd some_ (health ranges)⟩
  cases healths : extracted.health with
  | partial_ ranges => exact absurd healths (health ranges)
  | complete | failed | skipped => simp [ParseHealth.errorRanges]

/-- Whatever an adapter says, the registry's answer is ordered, within its source and identified. -/
theorem extracted_extract (sha256 : List UInt8 → String) (registry : LanguageRegistry) (path : RepoPath)
    (source : List (Fin 256)) :
    Extracted sha256 path (i64OrMax source.length) (registry.extract sha256 path source) := by
  rw [LanguageRegistry.extract]
  split_ifs with oversized
  · exact .bare rfl rfl nofun
  cases detected : detectLanguage path source with
  | none => exact .bare rfl rfl nofun
  | some language =>
    dsimp only
    cases registry.adapters language with
    | none => exact .bare rfl rfl nofun
    | some adapter =>
      have size : i64OrMax source.length = source.length := by
        rw [i64OrMax, oversizedFileThreshold] at *
        omega
      rw [size]
      have sound := sound_validateExtraction source (LanguageRegistry.ask adapter source)
      set validated := validateExtraction source (LanguageRegistry.ask adapter source)
      refine ⟨by simpa using sound.fewSymbols, by simpa [identifyReferences] using sound.fewReferences,
        ?_, ?_, ?_, ?_, sound.errorRanges, sound.partial_⟩
      · intro symbol member
        obtain ⟨before, behind, split⟩ := List.append_of_mem member
        obtain ⟨first, raw, rest, raws, -, rfl⟩ := identify_split split
        exact (sound.symbols first raw rest raws).1
      · intro symbol member
        obtain ⟨before, behind, split⟩ := List.append_of_mem member
        obtain ⟨first, raw, rest, -, -, rfl⟩ := identify_split split
        exact ⟨language, rfl, rfl⟩
      · intro before symbol behind split parentId named
        obtain ⟨first, raw, rest, raws, rfl, rfl⟩ := identify_split split
        cases place : raw.parent with
        | none =>
          have stored := identify_parent_isSome (SymbolId.derive sha256 path language.value) sound raws
          rw [named, place] at stored
          cases stored
        | some place =>
          obtain ⟨parent, member, stored, earlier, qualified⟩ :=
            identify_parent (SymbolId.derive sha256 path language.value) sound raws place
          exact ⟨parent, member, Option.some.inj (stored.symm.trans named), earlier, qualified⟩
      · intro reference member
        simp only [identifyReferences, List.mem_map, List.mem_mergeSort] at member
        obtain ⟨raw, member, rfl⟩ := member
        exact sound.references raw member

theorem boundedRange_of_validRange {range : ByteRange} (valid : validRange range byteSize = true) :
    boundedRange range byteSize = true := by
  obtain ⟨start, stop, first, last⟩ := range
  cases first <;> cases last <;>
    simp only [validRange, Bool.and_eq_true, decide_eq_true_eq, Bool.and_false, Bool.false_eq_true,
      boundedRange, Option.some.injEq, ne_eq] at valid ⊢
  · simpa using valid
  · obtain ⟨bytes, positive, ordered⟩ := valid
    simp only [bytes, and_self, ordered, true_and]
    exact ⟨⟨by omega, by omega⟩, trivial⟩

@[simp] theorem qualifiedWithin_qualified (parent name : String) :
    qualifiedWithin parent (parent ++ "::" ++ name) = decide (name ≠ "") := by
  have first : parent.toList.isPrefixOf? (parent ++ "::" ++ name).toList = some ("::" ++ name).toList := by
    rw [List.isPrefixOf?_eq_some_iff_append_eq, String.append_assoc, String.toList_append,
      String.toList_append, String.toList_append]
  have second : "::".toList.isPrefixOf? ("::" ++ name).toList = some name.toList := by
    rw [List.isPrefixOf?_eq_some_iff_append_eq, String.toList_append]
  rw [qualifiedWithin, first, Option.bind_some, second, Option.any_some]
  simp

/-- The record of a symbol is found by its identity. -/
theorem find_record {symbols : List Symbol} {symbol : Symbol} (distinct : (symbols.map (·.id)).Nodup)
    (member : symbol ∈ symbols) :
    (symbols.map (·.record)).find? (·.id = symbol.id) = some symbol.record := by
  induction symbols with
  | nil => cases member
  | cons first symbols ih =>
    obtain ⟨fresh, distinct⟩ := List.nodup_cons.mp distinct
    rw [List.map_cons]
    rcases List.mem_cons.mp member with rfl | later
    · exact List.find?_cons_of_pos (by simp [Symbol.record])
    · have other : first.id ≠ symbol.id := fun same => fresh (List.mem_map.mpr ⟨symbol, later, same.symm⟩)
      rw [List.find?_cons_of_neg (by simp [Symbol.record, other])]
      exact ih distinct later

section Stored

variable {extracted : FileSymbols} (facts : Extracted sha256 path byteSize extracted)
include facts

/-- With identities of their own, what keeps a symbol from being stored is a parent and no name. -/
theorem validSymbol_iff (distinct : (extracted.symbols.map (·.id)).Nodup) {symbol : Symbol}
    (member : symbol ∈ extracted.symbols) :
    validSymbol sha256 (extracted.symbols.map (·.record)) path extracted.language byteSize
      symbol.record = true ↔ (symbol.parent.isSome → symbol.name ≠ "") := by
  obtain ⟨language, spoken, identity⟩ := facts.identities symbol member
  have range : boundedRange symbol.record.byteRange byteSize = true :=
    boundedRange_of_validRange (facts.ranges symbol member)
  have known : symbol.record.id = expectedId sha256 path language symbol.record symbol.kind := identity
  have spelled : SymbolKind.parse symbol.record.kind = some symbol.kind := SymbolKind.parse_asStr _
  simp only [validSymbol, spoken, spelled, known, decide_true, Bool.true_and, Bool.and_eq_true]
  rw [and_iff_right range]
  cases named : symbol.parent with
  | none => simp [Symbol.record, named]
  | some parentId =>
    obtain ⟨before, behind, split⟩ := List.append_of_mem member
    obtain ⟨parent, earlier, rfl, start, qualified⟩ := facts.parents before symbol behind split _ named
    have found := find_record distinct (show parent ∈ extracted.symbols by
      rw [split]
      exact List.mem_append_left _ earlier)
    have stored : symbol.record.parent = some parent.id := named
    simp only [stored, found]
    simp [Symbol.record, qualified, start]

theorem readSymbol_eq_some (distinct : (extracted.symbols.map (·.id)).Nodup)
    (named : ∀ symbol ∈ extracted.symbols, symbol.parent.isSome → symbol.name ≠ "") (row : VersionRow)
    (placed : row.path = path) (spoken : row.language = extracted.language.map (·.value))
    (rows : row.symbols = extracted.symbols.map (·.record)) {symbol : Symbol}
    (member : symbol ∈ extracted.symbols) (version : String) :
    readSymbol sha256 version row byteSize symbol.record =
      some (.ofSymbol version path (row.parserVersion.getD "") symbol) := by
  obtain ⟨language, tongue, identity⟩ := facts.identities symbol member
  have range : boundedRange symbol.record.byteRange byteSize = true :=
    boundedRange_of_validRange (facts.ranges symbol member)
  have known : symbol.record.id = expectedId sha256 path language symbol.record symbol.kind := identity
  have spelled : SymbolKind.parse symbol.record.kind = some symbol.kind := SymbolKind.parse_asStr _
  have agrees : (symbol.record.parent.all fun parentId =>
      (row.symbols.find? (·.id = parentId)).any
        (parentAgrees sha256 path language byteSize symbol.record)) = true := by
    cases stored : symbol.parent with
    | none => simp [Symbol.record, stored]
    | some parentId =>
      obtain ⟨before, behind, split⟩ := List.append_of_mem member
      obtain ⟨parent, earlier, rfl, start, qualified⟩ := facts.parents before symbol behind split _ stored
      have inside : parent ∈ extracted.symbols := by
        rw [split]
        exact List.mem_append_left _ earlier
      obtain ⟨other, shared, enclosing⟩ := facts.identities parent inside
      obtain rfl : language = other := Option.some.inj (tongue.symm.trans shared)
      have bounded := facts.ranges parent inside
      have kept : symbol.record.parent = some parent.id := stored
      have kind : SymbolKind.parse parent.record.kind = some parent.kind := SymbolKind.parse_asStr _
      have expected : parent.id = expectedId sha256 path language parent.record parent.kind := enclosing
      have name := named symbol member (by rw [stored]; rfl)
      simp only [validRange, Bool.and_eq_true, decide_eq_true_eq] at bounded
      rw [kept, Option.all_some, rows, find_record distinct inside, Option.any_some, parentAgrees, kind]
      simp only [kept, ← expected]
      simp [Symbol.record, qualified, start, name, bounded.1]
  rw [readSymbol, spelled, spoken, tongue]
  simp only [Option.map_some, Option.bind_some, Language.new_value, placed]
  rw [if_pos (by simp only [range, ← known, decide_true, agrees, Bool.and_self])]
  rfl

/-- The rows of a batch go in one after the other, every parent before what it encloses. -/
theorem insertSymbols_records (distinct : (extracted.symbols.map (·.id)).Nodup) :
    insertSymbols (extracted.symbols.map (·.record)) = some (extracted.symbols.map (·.record)) := by
  have parents := facts.parents
  clear facts
  generalize extracted.symbols = symbols at distinct parents
  unfold insertSymbols
  induction symbols using List.reverseRecOn with
  | nil => rfl
  | append_singleton symbols last ih =>
    rw [List.map_append, List.nodup_append] at distinct
    obtain ⟨earlier, -, fresh⟩ := distinct
    have inserted := ih earlier fun before symbol behind split =>
      parents before symbol (behind ++ [last]) (by rw [split]; simp)
    rw [List.map_append, List.map_singleton, List.foldlM_concat_eq_some]
    refine ⟨_, inserted, ?_⟩
    rw [if_neg, if_pos]
    · cases stored : last.parent with
      | none => simp [Symbol.record, stored]
      | some parentId =>
        obtain ⟨parent, member, rfl, -⟩ := parents symbols last [] rfl parentId stored
        have kept : last.record.parent = some parent.id := stored
        rw [kept, Option.all_some, Bool.or_eq_true]
        exact .inr (List.any_eq_true.mpr ⟨parent.record, List.mem_map_of_mem member, by simp [Symbol.record]⟩)
    · simp only [List.any_map, List.any_eq_true, Function.comp_apply, decide_eq_true_eq, not_exists, not_and]
      intro symbol member same
      exact fresh _ (List.mem_map_of_mem member) _ List.mem_cons_self same

variable {version : String}

theorem validatePendingSymbols_iff (version : String) :
    validatePendingSymbols sha256
        ⟨version, extracted.grammarVersion, extracted.symbols.map (·.record),
          extracted.references.map (·.record), extracted.health⟩ path
        (extracted.language.map (·.value)) byteSize = true ↔
      (extracted.symbols.map (·.id)).Nodup ∧
        ∀ symbol ∈ extracted.symbols, symbol.parent.isSome → symbol.name ≠ "" := by
  have references : (extracted.references.map (·.record)).all
      (fun reference => boundedRange reference.byteRange byteSize) = true := by
    simp only [List.all_map, List.all_eq_true, Function.comp_apply]
    exact fun reference member => boundedRange_of_validRange (facts.references reference member)
  have errors : extracted.health.errorRanges.all (boundedRange · byteSize) = true := by
    rw [List.all_eq_true]
    exact fun range member => boundedRange_of_validRange (facts.errorRanges range member)
  have ids : (extracted.symbols.map (·.record)).map (·.id) = extracted.symbols.map (·.id) := by
    rw [List.map_map]
    rfl
  simp only [validatePendingSymbols, Language.bind_new, Language.all_new, references, errors, ids, Bool.true_and,
    Bool.and_true, Bool.and_eq_true, decide_eq_true_eq, List.all_map, List.all_eq_true,
    Function.comp_apply]
  constructor
  · rintro ⟨distinct, valid⟩
    exact ⟨distinct, fun symbol member => (validSymbol_iff facts distinct member).mp (valid symbol member)⟩
  · rintro ⟨distinct, named⟩
    exact ⟨distinct, fun symbol member => (validSymbol_iff facts distinct member).mpr (named symbol member)⟩

omit facts in
theorem errorRanges_encodeParseHealth (health : ParseHealth) :
    (encodeParseHealth health).errorRanges = health.errorRanges := by
  cases health <;> rfl

/-- The columns of a health spell it. -/
theorem decode_encodeParseHealth : (encodeParseHealth extracted.health).decode = some extracted.health := by
  cases health : extracted.health with
  | complete => rfl
  | partial_ ranges => simp [encodeParseHealth, HealthRow.decode, facts.partial_ ranges health]
  | failed reason => rfl
  | skipped reason => cases reason <;> rfl

variable {db : Database} {row : VersionRow}

/-- An extraction is within the budgets of a batch. -/
theorem recordExtraction_eq_some : recordExtraction version extracted = some
    ⟨version, extracted.grammarVersion, extracted.symbols.map (·.record),
      extracted.references.map (·.record), extracted.health⟩ := by
  rw [recordExtraction, if_neg (Nat.not_lt.mpr facts.fewSymbols),
    if_neg (Nat.not_lt.mpr facts.fewReferences)]

/-- What is written was valid. -/
theorem valid_of_written (found : db.versions.get version = some row) (placed : row.path = path)
    (spoken : row.language = extracted.language.map (·.value))
    (sized : db.contents.get row.contentSha256 = some byteSize) {pending : PendingSymbols}
    {after : Database} (recorded : recordExtraction version extracted = some pending)
    (written : writeSymbols (validatePendingSymbols sha256) db pending = some after) :
    (extracted.symbols.map (·.id)).Nodup ∧
      ∀ symbol ∈ extracted.symbols, symbol.parent.isSome → symbol.name ≠ "" := by
  rw [recordExtraction_eq_some facts] at recorded
  obtain rfl := Option.some.inj recorded
  obtain ⟨stored, size, symbols, same, sizes, valid, -⟩ := writeSymbols_eq_some.mp written
  obtain rfl := Option.some.inj (found.symm.trans same)
  obtain rfl := Option.some.inj (sized.symm.trans sizes)
  rw [placed, spoken] at valid
  exact (validatePendingSymbols_iff facts version).mp valid

/-- An extraction goes into the row of its version and comes back as it was, or is refused. -/
theorem stored_iff_valid (found : db.versions.get version = some row) (placed : row.path = path)
    (spoken : row.language = extracted.language.map (·.value))
    (sized : db.contents.get row.contentSha256 = some byteSize) :
    (∃ pending after, recordExtraction version extracted = some pending ∧
      writeSymbols (validatePendingSymbols sha256) db pending = some after ∧
      readBack sha256 after version = some (.ofExtraction version path extracted)) ↔
    (extracted.symbols.map (·.id)).Nodup ∧
      ∀ symbol ∈ extracted.symbols, symbol.parent.isSome → symbol.name ≠ "" := by
  constructor
  · rintro ⟨pending, after, recorded, written, -⟩
    exact valid_of_written facts found placed spoken sized recorded written
  · rintro ⟨distinct, named⟩
    have valid := (validatePendingSymbols_iff facts version).mpr ⟨distinct, named⟩
    refine ⟨_, _, recordExtraction_eq_some facts, writeSymbols_eq_some.mpr
      ⟨row, byteSize, _, found, sized, by rwa [placed, spoken], insertSymbols_records facts distinct, rfl⟩, ?_⟩
    set stored : VersionRow := { row with
      parserVersion := some extracted.grammarVersion
      symbols := extracted.symbols.map (·.record)
      references := extracted.references.map (·.record)
      health := some (encodeParseHealth extracted.health) }
    have symbols : stored.symbols.mapM (readSymbol sha256 version stored byteSize) =
        some (extracted.symbols.map (.ofSymbol version path extracted.grammarVersion)) := by
      rw [List.mapM_map]
      exact List.mapM_eq_some fun symbol member =>
        readSymbol_eq_some facts distinct named stored placed spoken rfl member version
    have references : stored.references.mapM (readSymbolReference version stored byteSize) =
        some (extracted.references.map fun reference =>
          ⟨version, path, reference.name, reference.byteRange, reference.nameIsLossy⟩) := by
      rw [List.mapM_map]
      apply List.mapM_eq_some
      intro reference member
      have range : boundedRange reference.record.byteRange byteSize = true :=
        boundedRange_of_validRange (facts.references reference member)
      rw [Function.comp_apply, readSymbolReference, if_pos range, ← placed]
      rfl
    have health : stored.health.bind (readParseHealth version stored byteSize) = some
        ⟨version, path, extracted.language, extracted.grammarVersion, extracted.health⟩ := by
      have errors : (encodeParseHealth extracted.health).errorRanges.all (boundedRange · byteSize) = true := by
        rw [errorRanges_encodeParseHealth, List.all_eq_true]
        exact fun range member => boundedRange_of_validRange (facts.errorRanges range member)
      have language : stored.language = extracted.language.map (·.value) := spoken
      have here : stored.path = path := placed
      simp only [stored, Option.bind_some]
      rw [readParseHealth, if_pos (by rw [language, Language.all_new, errors]; rfl),
        decode_encodeParseHealth facts, Option.map_some, language, Language.bind_new, here]
      rfl
    simp only [readBack, Keyed.get_set_self, Option.bind_eq_bind, Option.bind_some]
    have size : db.contents.get stored.contentSha256 = some byteSize := sized
    rw [size, Option.bind_some, symbols, Option.bind_some, references, Option.bind_some, health,
      Option.bind_some]
    rfl

end Stored

/-- The symbols of a file are those that its adapter's declarations become. -/
theorem extract_symbols (sha256 : List UInt8 → String) (registry : LanguageRegistry) (path : RepoPath)
    (source : List (Fin 256)) :
    match registry.said path source with
    | none => (registry.extract sha256 path source).symbols = []
    | some raw => ∃ language : Language, (registry.extract sha256 path source).symbols =
        (identify (SymbolId.derive sha256 path language.value) (validateExtraction source raw).symbols).symbols := by
  rw [LanguageRegistry.said, LanguageRegistry.extract]
  split_ifs with oversized
  · rfl
  · cases detectLanguage path source with
    | none => rfl
    | some language =>
      rw [Option.bind_some]
      cases adapted : registry.adapters language with
      | none => simp only [Option.map_none, adapted]
      | some adapter => simp only [Option.map_some, adapted]; exact ⟨language, rfl⟩

/-- What lets the symbols of a file be stored: none within another is without a name, and none is named
as the duplicate of another that is there. -/
def Storable (raws : List RawSymbol) : Prop :=
  Unspelled (symbolKeys raws) ∧ ∀ raw ∈ raws, raw.parent.isSome → raw.name ≠ []

theorem storable_nil : Storable [] := by
  constructor
  · intro name kind ordinal member
    cases member
  · intro raw member
    cases member

/-- The name of an identity takes little more room than the qualified name. -/
theorem utf8ByteSize_identityName {name : String} {ordinal : ℕ} (fits : name.utf8ByteSize < 2 ^ 63)
    (few : ordinal ≤ maxSymbolsPerFile) : (identityName name ordinal).utf8ByteSize < 2 ^ 64 := by
  have digits : ∀ text : List Char, String.utf8Len text ≤ 4 * text.length := by
    intro text
    induction text with
    | nil => rfl
    | cons character text ih =>
      have size := character.utf8Size_le_four
      rw [String.utf8Len_cons, List.length_cons]
      omega
  have short : (toString ordinal).utf8ByteSize ≤ 40 := by
    have ranks : (Nat.toDigits 10 ordinal).length ≤ 10 := by
      rw [Nat.length_toDigits_le_iff (by decide) (by decide)]
      exact few.trans_lt (by decide)
    have bytes := digits (toString ordinal).toList
    rw [String.utf8Len_toList] at bytes
    have spelled : (toString ordinal).toList = Nat.toDigits 10 ordinal := Nat.toList_repr ..
    rw [spelled] at bytes
    omega
  unfold identityName
  split_ifs
  · omega
  · have marker : "#duplicate:".utf8ByteSize = 11 := by decide
    rw [String.utf8ByteSize_append, String.utf8ByteSize_append, marker]
    omega

/-- The identities of the declarations of a file tell their names and kinds apart. -/
theorem apart_of_fits (apart : Function.Injective sha256) {raws : List RawSymbol}
    (few : raws.length ≤ maxSymbolsPerFile)
    (fits : ∀ name ∈ qualifiedNames raws, name.utf8ByteSize < 2 ^ 63) (language : String) :
    ∀ first ∈ (symbolKeys raws).occurrences, ∀ second ∈ (symbolKeys raws).occurrences,
      SymbolId.derive sha256 path language (identityName first.1.1 first.2) first.1.2.asStr =
        SymbolId.derive sha256 path language (identityName second.1.1 second.2) second.1.2.asStr →
      identityName first.1.1 first.2 = identityName second.1.1 second.2 ∧
        first.1.2.asStr = second.1.2.asStr := by
  have fit : ∀ entry ∈ (symbolKeys raws).occurrences,
      (identityName entry.1.1 entry.2).utf8ByteSize < 2 ^ 64 := by
    rintro ⟨⟨name, kind⟩, ordinal⟩ member
    have below := List.mem_occurrences.mp member
    have bounded := List.count_le_length (l := symbolKeys raws) (a := (name, kind))
    rw [length_symbolKeys] at bounded
    have known : (name, kind) ∈ symbolKeys raws := List.count_pos_iff.mp (by omega)
    exact utf8ByteSize_identityName (fits name (List.of_mem_zip known).1) (by omega)
  intro first inside second member same
  exact SymbolId.derive_inj apart (fit first inside) (fit second member) same

/-- An extraction is stored with the version of its file and read back as it was exactly when the
declarations that its adapter gave, and the registry let through, are named apart. -/
theorem extraction_stored_iff (apart : Function.Injective sha256) (registry : LanguageRegistry)
    (source : List (Fin 256)) {version : String} {db : Database} {row : VersionRow}
    (found : db.versions.get version = some row) (placed : row.path = path)
    (spoken : row.language = (registry.extract sha256 path source).language.map (·.value))
    (sized : db.contents.get row.contentSha256 = some (i64OrMax source.length))
    (fits : ∀ raw, registry.said path source = some raw →
      ∀ name ∈ qualifiedNames raw.symbols, name.utf8ByteSize < 2 ^ 63) :
    (∃ pending after, recordExtraction version (registry.extract sha256 path source) = some pending ∧
      writeSymbols (validatePendingSymbols sha256) db pending = some after ∧
      readBack sha256 after version =
        some (.ofExtraction version path (registry.extract sha256 path source))) ↔
    ∀ raw, registry.said path source = some raw → validateExtraction source raw = raw →
      Storable raw.symbols := by
  rw [stored_iff_valid (extracted_extract sha256 registry path source) found placed spoken sized]
  have symbols := extract_symbols sha256 registry path source
  cases said : registry.said path source with
  | none =>
    rw [said] at symbols
    rw [symbols]
    simp
  | some raw =>
    rw [said] at symbols
    obtain ⟨language, symbols⟩ := symbols
    rw [symbols]
    rcases validateExtraction_cases source raw with ⟨none_, -, -⟩ | ⟨same, sound⟩
    · rw [none_]
      refine iff_of_true ⟨List.nodup_nil, fun symbol member => by cases member⟩ ?_
      rintro _ ⟨⟩ same
      rw [← same, none_]
      exact storable_nil
    · have few : raw.symbols.length ≤ u32Max := sound.fewSymbols.trans (by decide)
      rw [same, nodup_id_identify few
        (apart_of_fits apart sound.fewSymbols (fits raw said) language.value),
        named_identify_iff _ sound]
      constructor
      · rintro storable _ ⟨⟩ -
        exact storable
      · intro storable
        exact storable raw rfl same

/-- A hash without collisions. -/
def sampleSha256 (bytes : List UInt8) : String :=
  String.ofList (bytes.map fun byte => Char.ofNat byte.toNat)

theorem sampleSha256_injective : Function.Injective sampleSha256 := by
  intro first second same
  have texts := String.ofList_injective same
  refine List.map_injective_iff.mpr ?_ texts
  intro byte other same
  have bytes : ∀ byte : UInt8, (Char.ofNat byte.toNat).toNat = byte.toNat := by
    intro byte
    have small := byte.toNat_lt
    have valid : byte.toNat.isValidChar := by left; omega
    rw [Char.ofNat, dif_pos valid]
    simp [Char.ofNatAux, Char.toNat]
  have values := congrArg Char.toNat same
  dsimp only at values
  rw [bytes, bytes] at values
  exact UInt8.toNat_inj.mp values

/-- `# A`. -/
def sampleHeading : RawSymbol := ⟨ascii "A", .section_, ⟨0, 4, some 1, some 1⟩, none, false⟩

/-- `##` beneath it. -/
def sampleNameless : RawSymbol := ⟨[], .section_, ⟨4, 7, some 2, some 2⟩, some 0, false⟩

/-- `## B` beneath it, twice. -/
def sampleNested : List RawSymbol :=
  [sampleHeading, ⟨ascii "B", .section_, ⟨4, 9, some 2, some 2⟩, some 0, false⟩,
    ⟨ascii "B", .section_, ⟨9, 14, some 3, some 3⟩, some 0, false⟩]

def samplePath : RepoPath := ascii "a.md"

def sampleSource : List (Fin 256) := ascii "# A\n##\n"

def sampleNestedSource : List (Fin 256) := ascii "# A\n## B\n## B\n"

/-- An adapter that answers with some declarations. -/
def sampleRegistry (raws : List RawSymbol) : LanguageRegistry where
  adapters _ := some ⟨"markdown-1", fun _ => some ⟨.complete, raws, []⟩⟩

/-- A cache that knows the version of the file and nothing of its symbols. -/
def sampleDatabase (source : List (Fin 256)) : Database :=
  { Database.empty with
    versions := Keyed.empty.set "v"
      ⟨"c", samplePath, some "markdown", false, false, none, none, [], [], [], none⟩
    contents := Keyed.empty.set "c" (i64OrMax source.length) }

section Sample

variable {source : List (Fin 256)}

theorem sample_found : (sampleDatabase source).versions.get "v" = some
    ⟨"c", samplePath, some "markdown", false, false, none, none, [], [], [], none⟩ := Keyed.get_set_self ..

theorem sample_sized : (sampleDatabase source).contents.get "c" = some (i64OrMax source.length) :=
  Keyed.get_set_self ..

theorem sample_said (raws : List RawSymbol) (short : ¬oversizedFileThreshold < source.length)
    (detected : (detectLanguage samplePath source).isSome) :
    (sampleRegistry raws).said samplePath source = some ⟨.complete, raws, []⟩ := by
  obtain ⟨language, detected⟩ := Option.isSome_iff_exists.mp detected
  rw [LanguageRegistry.said, if_neg short, detected]
  rfl

theorem sample_language (raws : List RawSymbol) (short : ¬oversizedFileThreshold < source.length)
    (detected : (detectLanguage samplePath source).map (·.value) = some "markdown") :
    some "markdown" =
      ((sampleRegistry raws).extract sampleSha256 samplePath source).language.map (·.value) := by
  rw [LanguageRegistry.extract, if_neg short]
  cases language : detectLanguage samplePath source with
  | none =>
    rw [language] at detected
    cases detected
  | some tongue =>
    rw [language] at detected
    exact detected.symm

end Sample

/-- A heading with two of one name beneath it is stored and read back. -/
theorem extraction_stored_iff_sample :
    ∃ pending after,
      recordExtraction "v" ((sampleRegistry sampleNested).extract sampleSha256 samplePath
        sampleNestedSource) = some pending ∧
      writeSymbols (validatePendingSymbols sampleSha256) (sampleDatabase sampleNestedSource) pending =
        some after ∧
      readBack sampleSha256 after "v" = some (.ofExtraction "v" samplePath
        ((sampleRegistry sampleNested).extract sampleSha256 samplePath sampleNestedSource)) := by
  have spelled : ∀ letter ∈ ['A', 'B'], (lossy (ascii (String.ofList [letter]))).1 =
      String.ofList [letter] := by
    intro letter member
    have bytes : (ascii (String.ofList [letter])).map UInt8.ofFin = Utf8.encode [letter] := by
      rcases List.mem_cons.mp member with rfl | member
      · decide
      · rw [List.mem_singleton.mp member]
        decide
    rw [lossy, bytes, Utf8.decode?_encode]
  have named : qualifiedNames sampleNested = ["A", "A::B", "A::B"] := by
    have a : (lossy (ascii "A")).1 = "A" := spelled 'A' List.mem_cons_self
    have b : (lossy (ascii "B")).1 = "B" := spelled 'B' (List.mem_cons_of_mem _ List.mem_cons_self)
    simp only [qualifiedNames, sampleNested, sampleHeading, List.foldl_cons, List.foldl_nil, a, b]
    rfl
  have said : (sampleRegistry sampleNested).said samplePath sampleNestedSource = _ :=
    sample_said sampleNested (by decide) (by decide)
  refine (extraction_stored_iff sampleSha256_injective (sampleRegistry sampleNested) sampleNestedSource
    sample_found rfl (sample_language _ (by decide) (by decide)) sample_sized ?_).mpr ?_
  · intro raw answered name member
    obtain rfl := Option.some.inj (said.symm.trans answered)
    rw [named] at member
    have short : ∀ name ∈ ["A", "A::B", "A::B"], name.utf8ByteSize < 2 ^ 63 := by decide
    exact short name member
  · intro raw answered _
    obtain rfl := Option.some.inj (said.symm.trans answered)
    constructor
    · intro name kind ordinal member
      have known := (List.of_mem_zip member).1
      rw [named] at known
      have short : ∀ name ∈ ["A", "A::B", "A::B"], name.length < "#duplicate:".length := by decide
      have longer := short _ known
      rw [String.length_append, String.length_append] at longer
      omega
    · intro raw member within
      have spelled : ∀ raw ∈ sampleNested, raw.name ≠ [] := by decide
      exact spelled raw member

/-- A heading without a text stands in another one, and nothing of the file can be stored. -/
theorem nameless_heading_refused :
    Function.Injective sampleSha256 ∧
      (sampleRegistry [sampleHeading, sampleNameless]).said samplePath sampleSource =
        some ⟨.complete, [sampleHeading, sampleNameless], []⟩ ∧
      some "markdown" = ((sampleRegistry [sampleHeading, sampleNameless]).extract sampleSha256 samplePath
        sampleSource).language.map (·.value) ∧
      ¬ ∃ pending after,
        recordExtraction "v" ((sampleRegistry [sampleHeading, sampleNameless]).extract sampleSha256
          samplePath sampleSource) = some pending ∧
        writeSymbols (validatePendingSymbols sampleSha256) (sampleDatabase sampleSource) pending =
          some after := by
  have said : (sampleRegistry [sampleHeading, sampleNameless]).said samplePath sampleSource = _ :=
    sample_said _ (by decide) (by decide)
  have spoken : some "markdown" = ((sampleRegistry [sampleHeading, sampleNameless]).extract sampleSha256
      samplePath sampleSource).language.map (·.value) := sample_language _ (by decide) (by decide)
  refine ⟨sampleSha256_injective, said, spoken, ?_⟩
  rintro ⟨pending, after, recorded, written⟩
  have valid := valid_of_written (extracted_extract ..) sample_found rfl spoken sample_sized recorded written
  have symbols := extract_symbols sampleSha256 (sampleRegistry [sampleHeading, sampleNameless]) samplePath
    sampleSource
  rw [said] at symbols
  obtain ⟨language, symbols⟩ := symbols
  rw [symbols] at valid
  rcases validateExtraction_cases sampleSource ⟨.complete, [sampleHeading, sampleNameless], []⟩ with
    ⟨none_, -, -⟩ | ⟨same, sound⟩
  · revert none_
    decide
  · rw [same] at valid
    exact (named_identify_iff _ sound).mp valid.2 _ (List.mem_cons_of_mem _ List.mem_cons_self) rfl rfl

end Harkness.Context.Index
