import Harkness.ToMathlib.Occurrences
import Harkness.Context.Symbol.Extract

/-! # The names and identities of declarations

Declarations that share a qualified name and a kind are numbered among each other, so a name, a kind and
an ordinal are one declaration. An identity spells the ordinal behind the name, and a name that ends in
such a spelling is all that two declarations can share an identity by.
-/

namespace Harkness.Context

/-- The qualified names of declarations, each within the earlier one that encloses it. -/
def qualifiedNames (raws : List RawSymbol) : List String :=
  raws.foldl (fun names raw => names ++ [qualify (raw.parent.bind (names[·]?)) (lossy raw.name).1]) []

/-- What declarations are told apart by, up to their ordinal. -/
def symbolKeys (raws : List RawSymbol) : List (String × SymbolKind) :=
  (qualifiedNames raws).zip (raws.map (·.kind))

variable {derive : String → String → String} {raws first rest : List RawSymbol} {raw : RawSymbol}

theorem qualifiedNames_concat : qualifiedNames (raws ++ [raw]) =
    qualifiedNames raws ++ [qualify (raw.parent.bind ((qualifiedNames raws)[·]?)) (lossy raw.name).1] := by
  rw [qualifiedNames, List.foldl_append]
  rfl

@[simp] theorem length_qualifiedNames (raws : List RawSymbol) :
    (qualifiedNames raws).length = raws.length := by
  induction raws using List.reverseRecOn with
  | nil => rfl
  | append_singleton raws raw ih =>
    rw [qualifiedNames_concat, List.length_append, List.length_append, ih]
    rfl

theorem symbolKeys_concat : symbolKeys (raws ++ [raw]) = symbolKeys raws ++
    [(qualify (raw.parent.bind ((qualifiedNames raws)[·]?)) (lossy raw.name).1, raw.kind)] := by
  rw [symbolKeys, qualifiedNames_concat, List.map_append, List.zip_append (by simp)]
  rfl

@[simp] theorem length_symbolKeys (raws : List RawSymbol) : (symbolKeys raws).length = raws.length := by
  simp [symbolKeys]

theorem identify_concat : identify derive (raws ++ [raw]) = (identify derive raws).next derive raw := by
  rw [identify, List.foldl_append]
  rfl

/-- Symbols that were named stay where they are. -/
theorem symbols_prefix (named : Identified) (rest : List RawSymbol) :
    named.symbols <+: (rest.foldl (Identified.next derive) named).symbols := by
  induction rest generalizing named with
  | nil => exact List.prefix_refl _
  | cons raw rest ih => exact (List.prefix_append _ _).trans (ih (named.next derive raw))

theorem identify_prefix :
    (identify derive first).symbols <+: (identify derive (first ++ rest)).symbols := by
  rw [identify, identify, List.foldl_append]
  exact symbols_prefix _ _

@[simp] theorem map_byteRange_identify (derive : String → String → String) (raws : List RawSymbol) :
    (identify derive raws).symbols.map (·.byteRange) = raws.map (·.byteRange) := by
  induction raws using List.reverseRecOn with
  | nil => rfl
  | append_singleton raws raw ih =>
    rw [identify_concat, Identified.next, List.map_append, List.map_append, ih]
    rfl

@[simp] theorem length_identify (derive : String → String → String) (raws : List RawSymbol) :
    (identify derive raws).symbols.length = raws.length := by
  rw [← List.length_map, map_byteRange_identify, List.length_map]

/-- A symbol stands behind those of the earlier declarations, and is what its declaration became there. -/
theorem identify_append_cons (derive : String → String → String) (first : List RawSymbol)
    (raw : RawSymbol) (rest : List RawSymbol) : ∃ more, (identify derive (first ++ raw :: rest)).symbols =
    (identify derive first).symbols ++ (identify derive first).symbol derive raw :: more := by
  obtain ⟨more, whole⟩ : (identify derive (first ++ [raw])).symbols <+:
      (identify derive ((first ++ [raw]) ++ rest)).symbols := identify_prefix
  rw [identify_concat, List.append_assoc, List.singleton_append] at whole
  exact ⟨more, whole.symm.trans (by rw [Identified.next, List.append_assoc, List.singleton_append])⟩

/-- Every symbol is what some declaration became behind those before it. -/
theorem identify_split {symbol : Symbol} {before behind : List Symbol}
    (split : (identify derive raws).symbols = before ++ symbol :: behind) :
    ∃ first raw rest, raws = first ++ raw :: rest ∧ (identify derive first).symbols = before ∧
      (identify derive first).symbol derive raw = symbol := by
  have many : raws.length = before.length + (behind.length + 1) := by
    rw [← length_identify derive, split, List.length_append, List.length_cons]
  have divided := List.take_append_drop before.length raws
  have first := List.length_take (i := before.length) (l := raws)
  cases dropped : raws.drop before.length with
  | nil =>
    rw [List.drop_eq_nil_iff] at dropped
    omega
  | cons raw rest =>
    rw [dropped] at divided
    obtain ⟨more, symbols⟩ := identify_append_cons derive (raws.take before.length) raw rest
    rw [divided, split] at symbols
    obtain ⟨firsts, same⟩ := List.append_inj symbols (by rw [length_identify, first]; omega)
    exact ⟨_, raw, rest, divided.symm, firsts.symm, (List.cons.inj same).1.symm⟩

/-- What is known of the names when some declarations have one. -/
structure Names (raws : List RawSymbol) (named : Identified) : Prop where
  qualified : named.symbols.map (·.qualifiedName) = qualifiedNames raws
  numbered : named.symbols.map (fun symbol => ((symbol.qualifiedName, symbol.kind), symbol.ordinal)) =
    (symbolKeys raws).occurrences
  counted : ∀ key, named.duplicates key =
    if key ∈ symbolKeys raws then some ((symbolKeys raws).count key - 1) else none

namespace Names

variable {named : Identified}

theorem qualifiedName (derive : String → String → String) (raw : RawSymbol)
    (names : Names raws named) : (named.symbol derive raw).qualifiedName =
    qualify (raw.parent.bind ((qualifiedNames raws)[·]?)) (lossy raw.name).1 := by
  rw [← names.qualified]
  simp only [Identified.symbol, List.getElem?_map]
  cases raw.parent <;> rfl

/-- The ordinal of a new symbol is the number of earlier ones of its name and kind. -/
theorem ordinal (derive : String → String → String) (raw : RawSymbol) (names : Names raws named)
    (few : raws.length ≤ u32Max) :
    (named.symbol derive raw).ordinal =
      (symbolKeys raws).count ((named.symbol derive raw).qualifiedName, raw.kind) := by
  simp only [Identified.symbol, names.counted]
  split_ifs with known
  · have positive := List.count_pos_iff.mpr known
    have bounded := List.count_le_length (l := symbolKeys raws)
      (a := (qualify ((raw.parent.bind (named.symbols[·]?)).map (·.qualifiedName)) (lossy raw.name).1,
        raw.kind))
    rw [length_symbolKeys] at bounded
    dsimp only
    rw [Nat.sub_add_cancel positive, Nat.min_eq_left (bounded.trans few)]
  · exact (List.count_eq_zero.mpr known).symm

theorem next (names : Names raws named) (few : raws.length ≤ u32Max) :
    Names (raws ++ [raw]) (named.next derive raw) := by
  have key : symbolKeys (raws ++ [raw]) =
      symbolKeys raws ++ [((named.symbol derive raw).qualifiedName, raw.kind)] := by
    rw [symbolKeys_concat, names.qualifiedName]
  constructor
  · rw [qualifiedNames_concat, ← names.qualifiedName derive, Identified.next,
      List.map_append, names.qualified]
    rfl
  · rw [key, List.occurrences_concat, ← names.ordinal derive raw few, Identified.next,
      List.map_append, names.numbered]
    rfl
  · intro other
    simp only [key, List.count_append, List.mem_append, List.mem_singleton, List.count_singleton]
    change Function.update named.duplicates ((named.symbol derive raw).qualifiedName, raw.kind)
      (some (named.symbol derive raw).ordinal) other = _
    by_cases same : other = ((named.symbol derive raw).qualifiedName, raw.kind)
    · subst same
      rw [Function.update_self, names.ordinal derive raw few]
      simp
    · rw [Function.update_of_ne same, names.counted]
      have distinct : ¬ ((named.symbol derive raw).qualifiedName, raw.kind) = other :=
        fun equal => same equal.symm
      simp [same, distinct]

end Names

theorem names_identify (derive : String → String → String) (few : raws.length ≤ u32Max) :
    Names raws (identify derive raws) := by
  induction raws using List.reverseRecOn with
  | nil => exact ⟨rfl, rfl, fun key => by simp [identify, Identified.start, symbolKeys]⟩
  | append_singleton raws raw ih =>
    rw [List.length_append, List.length_singleton] at few
    rw [identify_concat]
    exact (ih (by omega)).next (by omega)

/-- No spelling of an ordinal begins where another one ends. -/
theorem duplicate_inj {name other : String} {ordinal rank : ℕ}
    (same : name ++ "#duplicate:" ++ toString ordinal = other ++ "#duplicate:" ++ toString rank) :
    name = other ∧ ordinal = rank := by
  have digits : ∀ value : ℕ, ':' ∉ ((toString value).toList).reverse := by
    intro value member
    have digit : ':' ∈ Nat.toDigits 10 value := by
      simpa [Nat.toList_repr] using List.mem_reverse.mp member
    exact absurd (Nat.isDigit_of_mem_toDigits (by decide) (by decide) digit) (by decide)
  -- Read from its end, a spelling is digits up to the first colon.
  have spelled : "#duplicate:".toList.reverse = ':' :: "etacilpud#".toList := by decide
  have reversed := congrArg (fun text => text.toList.reverse) same
  simp only [String.toList_append, List.reverse_append, spelled, List.cons_append] at reversed
  obtain ⟨ranks, names⟩ := Separated.split_unique (digits ordinal) (digits rank) reversed
  constructor
  · exact String.toList_inj.mp (List.reverse_injective (List.append_cancel_left names))
  · have texts := congrArg (Nat.ofDigitChars 10 · 0) (List.reverse_injective ranks)
    simpa [Nat.toList_repr, Nat.ofDigitChars_ten_toDigits] using texts

theorem identityName_eq_iff {name other : String} {ordinal rank : ℕ} :
    identityName name ordinal = identityName other rank ↔
      (name = other ∧ ordinal = rank) ∨
        (ordinal = 0 ∧ rank ≠ 0 ∧ name = other ++ "#duplicate:" ++ toString rank) ∨
        (rank = 0 ∧ ordinal ≠ 0 ∧ other = name ++ "#duplicate:" ++ toString ordinal) := by
  unfold identityName
  split_ifs with first second second
  · simp [first, second]
  · constructor
    · exact fun same => .inr (.inl ⟨first, second, same⟩)
    · rintro (⟨-, rfl⟩ | ⟨-, -, same⟩ | ⟨none, -⟩)
      · exact absurd first second
      · exact same
      · exact absurd none second
  · constructor
    · exact fun same => .inr (.inr ⟨second, first, same.symm⟩)
    · rintro (⟨-, rfl⟩ | ⟨none, -⟩ | ⟨-, -, same⟩)
      · exact absurd second first
      · exact absurd none first
      · exact same.symm
  · constructor
    · exact fun same => .inl (duplicate_inj same)
    · rintro (⟨rfl, rfl⟩ | ⟨none, -⟩ | ⟨none, -⟩)
      · rfl
      · exact absurd none first
      · exact absurd none second

/-- No name is the spelling of a duplicate that is there. -/
def Unspelled (keys : List (String × SymbolKind)) : Prop :=
  ∀ name kind ordinal, (name ++ "#duplicate:" ++ toString (ordinal + 1), kind) ∈ keys →
    keys.count (name, kind) ≤ ordinal + 1

/-- The identities are those of the numbered names. -/
theorem map_id_identify (few : raws.length ≤ u32Max) : (identify derive raws).symbols.map (·.id) =
    (symbolKeys raws).occurrences.map fun entry =>
      derive (identityName entry.1.1 entry.2) entry.1.2.asStr := by
  rw [← (names_identify derive few).numbered, List.map_map]
  apply List.map_congr_left
  intro symbol member
  obtain ⟨before, behind, split⟩ := List.append_of_mem member
  obtain ⟨first, raw, rest, -, -, rfl⟩ := identify_split split
  rfl

/-- Declarations have identities of their own exactly when no name spells a duplicate. -/
theorem nodup_id_identify (few : raws.length ≤ u32Max)
    (apart : ∀ first ∈ (symbolKeys raws).occurrences, ∀ second ∈ (symbolKeys raws).occurrences,
      derive (identityName first.1.1 first.2) first.1.2.asStr =
        derive (identityName second.1.1 second.2) second.1.2.asStr →
      identityName first.1.1 first.2 = identityName second.1.1 second.2 ∧
        first.1.2.asStr = second.1.2.asStr) :
    ((identify derive raws).symbols.map (·.id)).Nodup ↔ Unspelled (symbolKeys raws) := by
  rw [map_id_identify few, List.nodup_map_iff_inj_on (List.nodup_occurrences _)]
  constructor
  · intro distinct name kind ordinal member
    by_contra more
    have spelled : ((name ++ "#duplicate:" ++ toString (ordinal + 1), kind), 0) ∈
        (symbolKeys raws).occurrences :=
      List.mem_occurrences.mpr (List.count_pos_iff.mpr member)
    have duplicate : ((name, kind), ordinal + 1) ∈ (symbolKeys raws).occurrences :=
      List.mem_occurrences.mpr (Nat.lt_of_not_le more)
    have same := distinct _ spelled _ duplicate (by simp [identityName])
    exact absurd (congrArg Prod.snd same) (Nat.succ_ne_zero ordinal).symm
  · rintro unspelled ⟨⟨name, kind⟩, ordinal⟩ first ⟨⟨other, otherKind⟩, rank⟩ second same
    obtain ⟨names, kinds⟩ := apart _ first _ second same
    obtain rfl := SymbolKind.asStr_injective kinds
    rw [List.mem_occurrences] at first second
    dsimp only at names second
    rcases identityName_eq_iff.mp names with ⟨rfl, rfl⟩ | ⟨rfl, positive, rfl⟩ | ⟨rfl, positive, rfl⟩
    · rfl
    · obtain ⟨lower, rfl⟩ := Nat.exists_eq_succ_of_ne_zero positive
      have bounded := unspelled other kind lower (List.count_pos_iff.mp first)
      omega
    · obtain ⟨lower, rfl⟩ := Nat.exists_eq_succ_of_ne_zero positive
      have bounded := unspelled name kind lower (List.count_pos_iff.mp second)
      omega

/-- The identities of symbols tell their names and kinds apart. -/
theorem SymbolId.derive_inj {sha256 : List UInt8 → String} (apart : Function.Injective sha256)
    {path : RepoPath} {language name other kind otherKind : String}
    (fits : name.utf8ByteSize < 2 ^ 64) (otherFits : other.utf8ByteSize < 2 ^ 64)
    (same : SymbolId.derive sha256 path language name kind =
      SymbolId.derive sha256 path language other otherKind) : name = other ∧ kind = otherKind := by
  have encoded : ∀ {text : String}, text.utf8ByteSize < 2 ^ 64 →
      (Utf8.encode text.toList).length < 256 ^ 8 := by
    intro text fits
    rw [Utf8.length_encode, String.utf8Len_toList]
    exact fits.trans_le (by norm_num)
  have frames := apart same
  simp only [LengthFrame.frames, List.flatMap_cons, List.flatMap_nil, List.append_nil,
    List.append_cancel_left_eq] at frames
  obtain ⟨names, kinds⟩ := LengthFrame.frame_append_inj (encoded fits) (encoded otherFits) frames
  exact ⟨String.toList_inj.mp (Utf8.encode_injective names),
    String.toList_inj.mp (Utf8.encode_injective (LengthFrame.frame_inj kinds))⟩

end Harkness.Context
