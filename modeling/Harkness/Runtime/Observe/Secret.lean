import Harkness.ToMathlib.Replace
import Harkness.ToMathlib.Utf8

/-! # Declared secrets

Values the process handed over are replaced by a marker in every text and byte stream it writes
down. They are replaced one after another, each in what the earlier ones left. That erases all of
them exactly when no value, and not the marker, meets another: otherwise the end of one value can
stay behind after another was replaced, or a value shows up again inside a marker.

An item of a text or stream may carry more than its letter, which `key` reads: with places for it,
the passes show which letters they keep.
-/

namespace Harkness.Runtime.Observe

open String (utf8Len)
open Replace (scan replaceEach placed unplaced Inside Separate)

variable {β : Type}

def minDeclaredSecretBytes : ℕ := 6

def declaredSecretMarker : List Char := "«redacted:declared_secret»".toList

/-- What a declaration did. -/
inductive Declared where
  | accepted
  | alreadyKnown
  | tooShort
  deriving DecidableEq, Repr

/-- Values that are never to be written down, in the order of their declaration. -/
structure SecretRegistry where
  values : List (List Char)
  distinct : values.Nodup
  long : ∀ value ∈ values, minDeclaredSecretBytes ≤ utf8Len value

namespace SecretRegistry

def new : SecretRegistry where
  values := []
  distinct := List.nodup_nil
  long := fun _ member => absurd member List.not_mem_nil

def declare (registry : SecretRegistry) (value : List Char) : SecretRegistry × Declared :=
  if short : utf8Len value < minDeclaredSecretBytes then (registry, .tooShort)
  else if known : value ∈ registry.values then (registry, .alreadyKnown)
  else
    ({ values := registry.values ++ [value]
       distinct := List.nodup_append.mpr ⟨registry.distinct, List.nodup_singleton value,
         fun one first other last same =>
           known (List.mem_singleton.mp last ▸ same ▸ first)⟩
       long := fun other member => by
         rcases List.mem_append.mp member with before | last
         · exact registry.long other before
         · exact List.mem_singleton.mp last ▸ Nat.not_lt.mp short }, .accepted)

end SecretRegistry

section Literal

variable {α : Type} [DecidableEq α] (key : β → α)

/-- `str::contains` -/
def contains (text : List β) (needle : List α) : Bool := decide (needle <:+: text.map key)

/-- `str::replace`: every match from the left that does not overlap an earlier one. -/
def replace (text : List β) (needle : List α) (marker : List β) : List β :=
  scan key [needle] marker text

/-- The loop of `replaceBytes`, with what is rewritten before the cursor. -/
def replaceLoop (haystack : List β) (needle : List α) (filled : needle ≠ [])
    (replacement : List β) (cursor : ℕ) (rewritten : Option (List β)) : Option (List β) :=
  if inside : cursor + needle.length ≤ haystack.length then
    have positive := List.length_pos_of_ne_nil filled
    if ((haystack.drop cursor).take needle.length).map key = needle then
      let output := rewritten.getD (haystack.take cursor)
      replaceLoop haystack needle filled replacement (cursor + needle.length)
        (some (output ++ replacement))
    else
      replaceLoop haystack needle filled replacement (cursor + 1)
        (rewritten.map fun output => output ++ [haystack[cursor]])
  else rewritten.map fun output => output ++ haystack.drop cursor
termination_by haystack.length - cursor

/-- Replaces every occurrence of `needle`, byte for byte. -/
def replaceBytes (haystack : List β) (needle : List α) (replacement : List β) :
    Option (List β) :=
  if empty : needle = [] then none
  else if needle.length > haystack.length then none
  else replaceLoop key haystack needle empty replacement 0 none

variable {key}

theorem replaceLoop_getD (haystack : List β) (needle : List α) (filled : needle ≠ [])
    (replacement : List β) (cursor : ℕ) (rewritten : Option (List β)) :
    (replaceLoop key haystack needle filled replacement cursor rewritten).getD haystack =
      rewritten.getD (haystack.take cursor) ++
        scan key [needle] replacement (haystack.drop cursor) := by
  fun_induction replaceLoop key haystack needle filled replacement cursor rewritten with
  | case1 cursor rewritten inside positive hit output ih =>
    have start : needle <+: (haystack.drop cursor).map key := by
      have begins := (List.take_prefix needle.length (haystack.drop cursor)).map key
      rwa [hit] at begins
    rw [ih, Option.getD_some, Replace.scan_some filled (Replace.starting_single key start),
      List.drop_drop, List.append_assoc]
  | case2 cursor rewritten inside positive miss ih =>
    have here : cursor < haystack.length := by omega
    have none : Replace.starting key [needle] (haystack.drop cursor) = none := by
      refine Replace.starting_eq_none.mpr fun word member start => ?_
      obtain rfl := List.mem_singleton.mp member
      exact miss (Replace.map_take_of_start start)
    rw [List.drop_eq_getElem_cons here] at none
    rw [ih, List.drop_eq_getElem_cons here, Replace.scan_none none]
    cases rewritten with
    | none =>
      rw [Option.map_none, Option.getD_none, Option.getD_none,
        List.take_succ_eq_append_getElem here, List.append_assoc, List.singleton_append]
    | some output =>
      rw [Option.map_some, Option.getD_some, Option.getD_some, List.append_assoc,
        List.singleton_append]
  | case3 cursor rewritten outside =>
    rw [Replace.scan_of_shorter]
    · cases rewritten with
      | none => exact (List.take_append_drop cursor haystack).symm
      | some output => rfl
    · rw [List.length_drop]
      have := List.length_pos_of_ne_nil filled
      omega

theorem replaceBytes_getD {needle : List α} (filled : needle ≠ []) (haystack replacement : List β) :
    (replaceBytes key haystack needle replacement).getD haystack =
      scan key [needle] replacement haystack := by
  rw [replaceBytes, dif_neg filled]
  split_ifs with long
  · exact (Replace.scan_of_shorter key replacement long).symm
  · rw [replaceLoop_getD]
    rfl

theorem replace_of_not_contains {text : List β} {needle : List α} (marker : List β)
    (absent : contains key text needle = false) : replace key text needle marker = text := by
  refine Replace.scan_eq_self fun word member => ?_
  obtain rfl := List.mem_singleton.mp member
  exact of_decide_eq_false absent

/-- Passes that each replace one value leave what replacing the values one after another leaves. -/
theorem foldl_getD (step : Option (List β) → List α → Option (List β)) {text marker : List β}
    {values : List (List α)}
    (each : ∀ rewritten, ∀ needle ∈ values,
      (step rewritten needle).getD text = scan key [needle] marker (rewritten.getD text))
    (rewritten : Option (List β)) :
    (values.foldl step rewritten).getD text =
      replaceEach key marker values (rewritten.getD text) := by
  induction values generalizing rewritten with
  | nil => rfl
  | cons needle values ih =>
    rw [List.foldl_cons, ih fun rewritten other member =>
      each rewritten other (List.mem_cons_of_mem _ member), each _ needle List.mem_cons_self]
    rfl

end Literal

namespace SecretRegistry

variable (registry : SecretRegistry)

/-- Replaces every declared value in `text`, or reports that none appeared. -/
def redact (key : β → Char) (text marker : List β) : Option (List β) :=
  if registry.values.isEmpty then none
  else registry.values.foldl (fun rewritten needle =>
    let current := rewritten.getD text
    if contains key current needle then some (replace key current needle marker)
    else rewritten) none

/-- The same rule against raw bytes. -/
def redactBytes (key : β → UInt8) (bytes marker : List β) : Option (List β) :=
  if registry.values.isEmpty then none
  else registry.values.foldl (fun rewritten secret =>
    let needle := Utf8.encode secret
    let current := rewritten.getD bytes
    match replaceBytes key current needle marker with
    | some next => some next
    | none => rewritten) none

theorem value_filled {value : List Char} (member : value ∈ registry.values) : value ≠ [] := by
  rintro rfl
  exact absurd (registry.long [] member) (by decide)

theorem encode_filled {value : List Char} (member : value ∈ registry.values) :
    Utf8.encode value ≠ [] := by
  have long := registry.long value member
  rw [← Utf8.length_encode] at long
  exact List.ne_nil_of_length_pos (Nat.lt_of_lt_of_le (by decide) long)

theorem redact_getD (key : β → Char) (text marker : List β) :
    (registry.redact key text marker).getD text =
      replaceEach key marker registry.values text := by
  rw [redact]
  split_ifs with empty
  · rw [List.isEmpty_iff.mp empty]
    rfl
  · refine foldl_getD _ (fun rewritten needle _ => ?_) none
    dsimp only
    split_ifs with present
    · rfl
    · exact (replace_of_not_contains marker (Bool.not_eq_true _ ▸ present)).symm

theorem redactBytes_getD (key : β → UInt8) (bytes marker : List β) :
    (registry.redactBytes key bytes marker).getD bytes =
      replaceEach key marker (registry.values.map Utf8.encode) bytes := by
  rw [redactBytes]
  split_ifs with empty
  · rw [List.isEmpty_iff.mp empty]
    rfl
  · refine Eq.trans ?_ (foldl_getD (fun rewritten needle =>
      match replaceBytes key (rewritten.getD bytes) needle marker with
      | some next => some next
      | none => rewritten) ?_ none)
    · rw [List.foldl_map]
    · intro rewritten needle member
      obtain ⟨secret, known, rfl⟩ := List.mem_map.mp member
      rw [← replaceBytes_getD (registry.encode_filled known)]
      rcases replaceBytes key (rewritten.getD bytes) (Utf8.encode secret) marker with _ | next
      · rfl
      · rfl

/-- The redacted text, unless nothing was to be replaced. -/
abbrev redacted (key : β → Char) (text marker : List β) : List β :=
  (registry.redact key text marker).getD text

abbrev redactedBytes (key : β → UInt8) (bytes marker : List β) : List β :=
  (registry.redactBytes key bytes marker).getD bytes

/-- A redacted text keeps nothing inside a value and has no value in it, whatever the order of the
values. -/
structure ErasesText (text : List Char) : Prop where
  unread : ∀ character place,
    (character, some place) ∈
      registry.redacted Prod.fst (placed 0 text) (unplaced declaredSecretMarker) →
    ¬Inside registry.values text place
  absent : ∀ value ∈ registry.values, ¬value <:+: registry.redacted id text declaredSecretMarker
  order : ∀ other : SecretRegistry, other.values.Perm registry.values →
    other.redacted id text declaredSecretMarker = registry.redacted id text declaredSecretMarker

/-- The same of a byte stream, for the values' bytes. -/
structure ErasesBytes (bytes : List UInt8) : Prop where
  unread : ∀ byte place,
    (byte, some place) ∈ registry.redactedBytes Prod.fst (placed 0 bytes)
      (unplaced (Utf8.encode declaredSecretMarker)) →
    ¬Inside (registry.values.map Utf8.encode) bytes place
  absent : ∀ value ∈ registry.values,
    ¬Utf8.encode value <:+: registry.redactedBytes id bytes (Utf8.encode declaredSecretMarker)
  order : ∀ other : SecretRegistry, other.values.Perm registry.values →
    other.redactedBytes id bytes (Utf8.encode declaredSecretMarker) =
      registry.redactedBytes id bytes (Utf8.encode declaredSecretMarker)

variable {registry}

theorem erasesText_of_separate (separate : Separate registry.values declaredSecretMarker)
    (text : List Char) : registry.ErasesText text := by
  have filled : [] ∉ registry.values := fun member => registry.value_filled member rfl
  have erased := Replace.erased_of_separate separate registry.distinct filled text
  obtain ⟨erases, -⟩ := erased registry.values (List.Perm.refl _)
  refine ⟨fun character place kept => ?_, fun value member => ?_, fun other perm => ?_⟩
  · rw [redacted, redact_getD] at kept
    exact erases.unread character place kept
  · rw [redacted, redact_getD]
    exact erases.absent value member
  · rw [redacted, redacted, redact_getD, redact_getD]
    exact (erased other.values perm).2

theorem erasesBytes_of_separate
    (separate : Separate (registry.values.map Utf8.encode) (Utf8.encode declaredSecretMarker))
    (bytes : List UInt8) : registry.ErasesBytes bytes := by
  have distinct : (registry.values.map Utf8.encode).Nodup :=
    registry.distinct.map Utf8.encode_injective
  have filled : [] ∉ registry.values.map Utf8.encode := by
    intro member
    obtain ⟨value, known, same⟩ := List.mem_map.mp member
    exact registry.encode_filled known same
  have erased := Replace.erased_of_separate separate distinct filled bytes
  obtain ⟨erases, -⟩ := erased _ (List.Perm.refl _)
  refine ⟨fun byte place kept => ?_, fun value member => ?_, fun other perm => ?_⟩
  · rw [redactedBytes, redactBytes_getD] at kept
    exact erases.unread byte place kept
  · rw [redactedBytes, redactBytes_getD]
    exact erases.absent _ (List.mem_map_of_mem member)
  · rw [redactedBytes, redactedBytes, redactBytes_getD, redactBytes_getD]
    exact (erased _ (perm.map Utf8.encode)).2

/-- Some bytes of values of a registry are the bytes of another one. -/
private theorem exists_part {part : List (List UInt8)} (known : part ⊆ registry.values.map Utf8.encode)
    (distinct : part.Nodup) :
    ∃ other : SecretRegistry, other.values ⊆ registry.values ∧
      other.values.map Utf8.encode = part := by
  obtain ⟨values, sub, rfl⟩ : ∃ values, values ⊆ registry.values ∧ values.map Utf8.encode = part := by
    induction part with
    | nil => exact ⟨[], List.nil_subset _, rfl⟩
    | cons bytes part ih =>
      obtain ⟨member, rest⟩ := List.cons_subset.mp known
      obtain ⟨value, one, rfl⟩ := List.mem_map.mp member
      obtain ⟨values, sub, rfl⟩ := ih rest (List.nodup_cons.mp distinct).2
      exact ⟨value :: values, List.cons_subset.mpr ⟨one, sub⟩, rfl⟩
  exact ⟨⟨values, distinct.of_map _, fun value member => registry.long value (sub member)⟩, sub, rfl⟩

theorem erased_of_erasesBytes {part : SecretRegistry}
    (erases : ∀ other : SecretRegistry, other.values.Perm part.values →
      ∀ bytes, other.ErasesBytes bytes) (bytes : List UInt8) :
    Replace.Erased (part.values.map Utf8.encode) (Utf8.encode declaredSecretMarker) bytes := by
  intro order perm
  have distinct : order.Nodup := perm.nodup_iff.mpr (part.distinct.map Utf8.encode_injective)
  obtain ⟨other, -, rfl⟩ := exists_part perm.subset distinct
  have same : other.values.Perm part.values :=
    (List.perm_ext_iff_of_nodup other.distinct part.distinct).mpr fun value => by
      rw [← List.mem_map_of_injective Utf8.encode_injective, perm.mem_iff,
        List.mem_map_of_injective Utf8.encode_injective]
  have whole := erases other same bytes
  refine ⟨⟨fun byte place kept => ?_, fun value member => ?_⟩, ?_⟩
  · refine whole.unread byte place ?_
    rwa [redactedBytes, redactBytes_getD]
  · obtain ⟨secret, known, rfl⟩ := List.mem_map.mp member
    rw [← redactBytes_getD]
    exact whole.absent secret known
  · rw [← redactBytes_getD, ← redactBytes_getD]
    exact (erases part (List.Perm.refl _) bytes).order other same

variable (registry)

/-- Whatever part of the values is declared, in whatever order, no text and no stream gives one away
exactly when no value and not the marker occurs in another one, and no end of a value or of the
marker begins another of them or, short of all of it, the same. -/
theorem erases_iff_separate :
    (∀ part : SecretRegistry, part.values ⊆ registry.values →
      (∀ text, part.ErasesText text) ∧ ∀ bytes, part.ErasesBytes bytes) ↔
    Separate (registry.values.map Utf8.encode) (Utf8.encode declaredSecretMarker) := by
  constructor
  · intro erases
    have filled : [] ∉ registry.values.map Utf8.encode := by
      intro member
      obtain ⟨value, known, same⟩ := List.mem_map.mp member
      exact registry.encode_filled known same
    refine Replace.separate_of_erased filled (by decide) fun part sub distinct bytes => ?_
    obtain ⟨part, known, rfl⟩ := exists_part sub distinct
    exact erased_of_erasesBytes
      (fun other perm => (erases other fun _ member => known (perm.subset member)).2) bytes
  · intro separate part known
    have apart : Separate (part.values.map Utf8.encode) (Utf8.encode declaredSecretMarker) :=
      separate.mono (List.map_subset _ known)
    exact ⟨erasesText_of_separate (apart.of_encode (fun _ _ => Utf8.encode_append)
      Utf8.encode_injective), erasesBytes_of_separate apart⟩

/-- A value declared after its beginning leaves its end behind. -/
theorem secret_key_leaks :
    ¬(⟨["secret".toList, "secret-key".toList], by decide, by decide⟩ : SecretRegistry).ErasesText
      "secret-key".toList := by
  intro erases
  exact erases.unread '-' 6 (by decide) ⟨"secret-key".toList, by decide, [], [], by decide⟩

end SecretRegistry

/-- The redactor a production store installs. -/
structure StandardRedactor where
  secrets : SecretRegistry

/-- Applies the declared-secret rule, then every shape rule. -/
def StandardRedactor.apply (redactShapes : List Char → Option (List Char))
    (redactor : StandardRedactor) (text : List Char) : Option (List Char) :=
  match redactor.secrets.redact id text declaredSecretMarker with
  | some rewritten => some ((redactShapes rewritten).getD rewritten)
  | none => redactShapes text

/-- The shape rules see what the declared-secret rule leaves. -/
theorem StandardRedactor.apply_getD (redactShapes : List Char → Option (List Char))
    (redactor : StandardRedactor) (text : List Char) :
    (redactor.apply redactShapes text).getD text =
      let left := replaceEach id declaredSecretMarker redactor.secrets.values text
      (redactShapes left).getD left := by
  rw [← redactor.secrets.redact_getD, apply]
  rcases redactor.secrets.redact id text declaredSecretMarker with _ | rewritten
  · rfl
  · rfl

end Harkness.Runtime.Observe
