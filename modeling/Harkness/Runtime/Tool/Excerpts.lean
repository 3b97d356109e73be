import Harkness.Runtime.Observe.Secret
import Harkness.Runtime.Tool.Capture

/-! # What excerpts of a child's output give away

The tail of a stream and the segments of it are cut from the stream first and redacted afterwards. Where an
excerpt quotes a declared value at all, it has to quote it whole: the tail's front, the length of a segment and
the trimming of its ends may each leave the rest of a value, in which no rule finds anything.

The bytes of a stream are numbered, so that what is left of an excerpt shows which of them it quotes.
-/

namespace Harkness.Runtime.Tool.Capture

open Observe (SecretRegistry declaredSecretMarker)
open Replace (Inside Separate placed unplaced scan replaceEach)
open Utf8 (encode lossyItems replacement)

/-- Characters with the numbered bytes they were read from. -/
abbrev Excerpt := List (Char × List (UInt8 × ℕ))

/-- The chunks of a stream, with their bytes numbered. -/
def numbered : ℕ → List (List UInt8) → List (List (UInt8 × ℕ))
  | _, [] => []
  | start, chunk :: chunks => chunk.zipIdx start :: numbered (start + chunk.length) chunks

/-- What a call quotes of a stream before it redacts it: the tail, and the segments it reports. -/
def excerpts (capacity : ℕ) (chunks : List (List UInt8)) : List Excerpt :=
  lossyItems Prod.fst (tailOf capacity (numbered 0 chunks)).retained ::
    messagesOf Prod.fst (numbered 0 chunks)

/-- The bytes an excerpt quotes. -/
def quoted (excerpt : Excerpt) : List (UInt8 × ℕ) := excerpt.flatMap Prod.snd

/-- The marker's characters quote nothing. -/
def sign : Excerpt := declaredSecretMarker.map fun character => (character, [])

/-- The texts of the excerpts. -/
def texts (capacity : ℕ) (chunks : List (List UInt8)) : List (List Char) :=
  Utf8.decodeLossy (tailOf capacity chunks).retained :: (messagesOf id chunks).map (List.map Prod.fst)

section Conditions

variable (registry : SecretRegistry) (stream : List UInt8) (excerpt : Excerpt)

/-- No byte of an occurrence of a declared value is left when the excerpt is redacted. -/
def Hidden : Prop :=
  ∀ char ∈ registry.redacted Prod.fst excerpt sign, ∀ byte ∈ char.2,
    ¬Inside (registry.values.map encode) stream byte.2

/-- An occurrence of which the excerpt quotes a byte is quoted whole. -/
def Whole : Prop :=
  ∀ value ∈ registry.values, ∀ before after, stream = before ++ encode value ++ after →
    ∀ byte ∈ quoted excerpt,
      before.length ≤ byte.2 → byte.2 < before.length + (encode value).length →
      ∀ place, before.length ≤ place → place < before.length + (encode value).length →
        place ∈ (quoted excerpt).map Prod.snd

/-- Redaction leaves nothing of an occurrence in this text. -/
def Cleans (text : List Char) : Prop :=
  ∀ character place, (character, some place) ∈
      registry.redacted Prod.fst (placed 0 text) (unplaced declaredSecretMarker) →
    ¬Inside registry.values text place

/-- The excerpt is part of what is read of a part of the stream. -/
def Quotes : Prop :=
  ∃ front piece back, stream = front ++ piece ++ back ∧
    excerpt <:+: lossyItems Prod.fst (piece.zipIdx front.length)

end Conditions

variable {registry : SecretRegistry} {stream : List UInt8} {excerpt : Excerpt}

theorem flatten_numbered (start : ℕ) (chunks : List (List UInt8)) :
    (numbered start chunks).flatten = chunks.flatten.zipIdx start := by
  induction chunks generalizing start with
  | nil => rfl
  | cons chunk chunks ih => rw [numbered, List.flatten_cons, List.flatten_cons, ih, List.zipIdx_append]

/-- A part of the numbered stream is a numbered part. -/
theorem exists_piece {part : List (UInt8 × ℕ)} (inside : part <:+: stream.zipIdx) :
    ∃ front piece back, stream = front ++ piece ++ back ∧ part = piece.zipIdx front.length := by
  obtain ⟨front, back, whole⟩ := inside
  obtain ⟨first, back', rfl, first_, -⟩ := List.zipIdx_eq_append_iff.mp whole.symm
  obtain ⟨front', piece, rfl, -, rfl⟩ := List.zipIdx_eq_append_iff.mp first_.symm
  exact ⟨front', piece, back', rfl, by rw [Nat.zero_add]⟩

theorem trim_infix {β : Type*} (text : List (Char × List β)) : trim text <:+: text :=
  (List.rdropWhile_prefix _ _).isInfix.trans (List.dropWhile_suffix _).isInfix

theorem message_infix {β : Type*} {key : β → UInt8} {segment : List β} {sent : List (Char × List β)}
    (message_ : message key segment = some sent) : sent <:+: lossyItems key segment := by
  unfold message at message_
  dsimp only at message_
  split_ifs at message_
  cases message_
  exact trim_infix _

theorem quotes_of_mem_excerpts {capacity : ℕ} {chunks : List (List UInt8)}
    (member : excerpt ∈ excerpts capacity chunks) : Quotes chunks.flatten excerpt := by
  have whole : (numbered 0 chunks).flatten = chunks.flatten.zipIdx := flatten_numbered 0 chunks
  rcases List.mem_cons.mp member with rfl | sent
  · have inside : (tailOf capacity (numbered 0 chunks)).retained <:+: chunks.flatten.zipIdx := by
      rw [(tailOf_holds capacity (numbered 0 chunks)).retained, whole]
      exact (List.drop_suffix _ _).isInfix
    obtain ⟨front, piece, back, split, same⟩ := exists_piece inside
    exact ⟨front, piece, back, split, same ▸ List.infix_rfl⟩
  · rw [messagesOf_eq, whole] at sent
    obtain ⟨segment, among, sent⟩ := List.mem_filterMap.mp sent
    obtain ⟨front, piece, back, split, rfl⟩ := exists_piece (infix_of_mem_segments among)
    exact ⟨front, piece, back, split, message_infix sent⟩

/-- The numbers do not matter to what is quoted. -/
theorem map_fst_excerpts (capacity : ℕ) (chunks : List (List UInt8)) :
    (excerpts capacity chunks).map (List.map Prod.fst) = texts capacity chunks := by
  have whole : (numbered 0 chunks).flatten = chunks.flatten.zipIdx := flatten_numbered 0 chunks
  have bytes : (chunks.flatten.zipIdx).map Prod.fst = chunks.flatten := List.zipIdx_map_fst _ _
  have retained : (tailOf capacity (numbered 0 chunks)).retained.map Prod.fst =
      (tailOf capacity chunks).retained := by
    rw [(tailOf_holds capacity _).retained, (tailOf_holds capacity _).retained, whole, List.map_drop,
      bytes, List.length_zipIdx]
  rw [excerpts, texts, List.map_cons, Utf8.map_fst_lossyItems, retained, messagesOf_eq, messagesOf_eq,
    whole, ← map_fst_messages, bytes]

/-- Nor to what is left. -/
theorem map_fst_redacted (registry : SecretRegistry) (excerpt : Excerpt) :
    (registry.redacted Prod.fst excerpt sign).map Prod.fst =
      registry.redacted id (excerpt.map Prod.fst) declaredSecretMarker := by
  have marker : sign.map Prod.fst = declaredSecretMarker := by
    rw [sign, List.map_map]
    exact List.map_id _
  rw [SecretRegistry.redacted, SecretRegistry.redacted, SecretRegistry.redact_getD,
    SecretRegistry.redact_getD, Replace.map_replaceEach, marker]

section Parts

variable {β : Type*} {total before middle after front read back : List (Char × List β)}

/-- A part whose every character is quoted within another part lies in it. -/
theorem exists_within (split : total = before ++ middle ++ after) (split' : total = front ++ read ++ back)
    (nodup : (total.flatMap Prod.snd).Nodup) (some_ : ∀ char ∈ read, char.2 ≠ [])
    (all : ∀ byte ∈ read.flatMap Prod.snd, byte ∈ middle.flatMap Prod.snd) :
    ∃ first last, middle = first ++ read ++ last := by
  have outside {char : Char × List β} (among : char ∈ read) : char ∉ before ∧ char ∉ after := by
    obtain ⟨byte, quoted⟩ := List.exists_mem_of_ne_nil _ (some_ char among)
    have inside := all byte (List.mem_flatMap.mpr ⟨char, among, quoted⟩)
    rw [split, List.flatMap_append, List.flatMap_append] at nodup
    obtain ⟨nodup, -, apart⟩ := List.nodup_append.mp nodup
    obtain ⟨-, -, apart'⟩ := List.nodup_append.mp nodup
    exact ⟨fun early => apart' byte (List.mem_flatMap.mpr ⟨char, early, quoted⟩) byte inside rfl,
      fun late => apart byte (List.mem_append_right _ inside) byte
        (List.mem_flatMap.mpr ⟨char, late, quoted⟩) rfl⟩
  by_cases none_ : read = []
  · exact ⟨[], middle, by rw [none_]; rfl⟩
  have same : before ++ (middle ++ after) = front ++ (read ++ back) := by
    rw [← List.append_assoc, ← split, split', List.append_assoc]
  obtain ⟨first, rest⟩ : ∃ first, middle ++ after = first ++ (read ++ back) := by
    rcases List.append_eq_append_iff.mp same with ⟨first, -, rest⟩ | ⟨first, rfl, rest⟩
    · exact ⟨first, rest⟩
    · cases first with
      | nil => exact ⟨[], rest.symm⟩
      | cons char first =>
        obtain ⟨head, read, rfl⟩ := List.exists_cons_of_ne_nil none_
        obtain ⟨rfl, -⟩ := List.cons.inj rest
        exact absurd (List.mem_append_right _ List.mem_cons_self) (outside List.mem_cons_self).1
  rw [← List.append_assoc] at rest
  rcases List.append_eq_append_iff.mp rest with ⟨last, whole, rfl⟩ | ⟨last, whole, -⟩
  · cases last using List.reverseRecOn with
    | nil => exact ⟨first, [], by rw [List.append_nil, whole, List.append_nil]⟩
    | append_singleton last char =>
      have ends := congrArg List.getLast? whole
      rw [List.getLast?_append_of_ne_nil _ none_, ← List.append_assoc, List.getLast?_concat] at ends
      have among : char ∈ read := List.mem_of_getLast? ends
      exact absurd (List.mem_append_left _ List.mem_concat_self) (outside among).2
  · exact ⟨first, last, whole⟩

end Parts

/-- The character of the excerpt at a place of its text. -/
def carried (excerpt : Excerpt) (item : Char × Option ℕ) : Char × List (UInt8 × ℕ) :=
  (item.1, item.2.elim [] fun place => excerpt[place]?.elim [] Prod.snd)

theorem map_carried (excerpt : Excerpt) :
    (placed 0 (excerpt.map Prod.fst)).map (carried excerpt) = excerpt := by
  refine List.ext_getElem ?_ fun place _ inside => ?_
  · rw [List.length_map, ← List.length_map (f := Prod.fst), Replace.map_fst_placed, List.length_map]
  · simp [placed, carried, List.getElem?_eq_getElem inside]

/-- What is left of the excerpt is what is left of its text. -/
theorem redacted_eq (registry : SecretRegistry) (excerpt : Excerpt) :
    registry.redacted Prod.fst excerpt sign =
      (registry.redacted Prod.fst (placed 0 (excerpt.map Prod.fst))
        (unplaced declaredSecretMarker)).map (carried excerpt) := by
  have marker : (unplaced declaredSecretMarker).map (carried excerpt) = sign := by
    rw [unplaced, List.map_map]
    rfl
  have letters (item : Char × Option ℕ) : (carried excerpt item).1 = item.1 := rfl
  have moved (text : List (Char × Option ℕ)) :
      (replaceEach Prod.fst (unplaced declaredSecretMarker) registry.values text).map (carried excerpt) =
        replaceEach Prod.fst ((unplaced declaredSecretMarker).map (carried excerpt)) registry.values
          (text.map (carried excerpt)) := Replace.map_replaceEach_of_key letters _ _ _
  rw [SecretRegistry.redacted, SecretRegistry.redacted, SecretRegistry.redact_getD,
    SecretRegistry.redact_getD, moved, map_carried, marker]

theorem nodup_zipIdx (piece : List UInt8) (start : ℕ) : (piece.zipIdx start).Nodup := by
  refine List.Nodup.of_map Prod.snd ?_
  rw [List.zipIdx_map_snd]
  exact List.nodup_range'

theorem eq_of_snd {piece : List UInt8} {start : ℕ} {one other : UInt8 × ℕ}
    (first : one ∈ piece.zipIdx start) (second : other ∈ piece.zipIdx start) (same : one.2 = other.2) :
    one = other := by
  have here := (List.mem_zipIdx_iff_le_and_getElem?_sub.mp first).2
  have there := (List.mem_zipIdx_iff_le_and_getElem?_sub.mp second).2
  rw [same, there] at here
  exact Prod.ext (Option.some.inj here).symm same

/-- Of two parts of a list, the one that lies within the bounds of the other is a part of it. -/
theorem exists_inner {α : Type*} {front piece back before middle after : List α}
    (split : front ++ piece ++ back = before ++ middle ++ after) (low : front.length ≤ before.length)
    (high : before.length + middle.length ≤ front.length + piece.length) :
    ∃ head tail, piece = head ++ middle ++ tail ∧ front.length + head.length = before.length := by
  rw [List.append_assoc, List.append_assoc] at split
  obtain ⟨head, rfl⟩ : front <+: before :=
    List.prefix_of_prefix_length_le (split ▸ List.prefix_append _ _) (List.prefix_append _ _) low
  rw [List.append_assoc, List.append_cancel_left_eq, ← List.append_assoc] at split
  rw [List.length_append] at high
  have begins : head ++ middle <+: piece ++ back := ⟨after, split.symm⟩
  obtain ⟨tail, same⟩ : head ++ middle <+: piece :=
    List.prefix_of_prefix_length_le begins (List.prefix_append _ _) (by
      rw [List.length_append]
      omega)
  exact ⟨head, tail, same.symm, (List.length_append).symm⟩

/-- An occurrence that is quoted whole is read as the value. -/
theorem exists_read {value : List Char} (filled : value ≠ []) {before after : List UInt8}
    (split : stream = before ++ encode value ++ after) (quotes : Quotes stream excerpt)
    (all : ∀ place, before.length ≤ place → place < before.length + (encode value).length →
      place ∈ (quoted excerpt).map Prod.snd) :
    ∃ first read last, excerpt = first ++ read ++ last ∧ read.map Prod.fst = value ∧
      (quoted excerpt).Nodup ∧
      ∀ byte ∈ quoted excerpt, before.length ≤ byte.2 →
        byte.2 < before.length + (encode value).length → byte ∈ quoted read := by
  obtain ⟨front, piece, back, rfl, early, late, parts⟩ := quotes
  have positive : 0 < (encode value).length := by
    rw [Utf8.length_encode]
    exact Nat.pos_of_ne_zero fun zero => filled (String.utf8Len_eq_zero.mp zero)
  have order := (Utf8.reads_lossyItems Prod.fst (piece.zipIdx front.length)).sublist
  have nodup : ((lossyItems Prod.fst (piece.zipIdx front.length)).flatMap Prod.snd).Nodup :=
    order.nodup (nodup_zipIdx piece front.length)
  have part : (quoted excerpt).Sublist
      ((lossyItems Prod.fst (piece.zipIdx front.length)).flatMap Prod.snd) := by
    rw [← parts, List.flatMap_append, List.flatMap_append]
    exact (List.sublist_append_right _ _).trans (List.sublist_append_left _ _)
  have bounds {place : ℕ} (low : before.length ≤ place)
      (high : place < before.length + (encode value).length) :
      front.length ≤ place ∧ place < front.length + piece.length := by
    obtain ⟨byte, member, rfl⟩ := List.mem_map.mp (all place low high)
    have numbered_ := (part.trans order).subset member
    exact ⟨List.le_snd_of_mem_zipIdx numbered_, List.snd_lt_add_of_mem_zipIdx numbered_⟩
  have lowest := bounds le_rfl (Nat.lt_add_of_pos_right positive)
  have highest := bounds (Nat.le_sub_one_of_lt (Nat.lt_add_of_pos_right positive))
    (Nat.sub_one_lt (by omega))
  obtain ⟨head, tail, rfl, place⟩ := exists_inner split lowest.1 (by omega)
  -- The bytes of the occurrence, among those of the piece.
  have bytes : ((encode value).zipIdx before.length).map Prod.fst = encode value :=
    List.zipIdx_map_fst _ _
  obtain ⟨read, whole, chars, items, some_⟩ := Utf8.lossyItems_text filled bytes
    (head.zipIdx front.length) (tail.zipIdx (before.length + (encode value).length))
  have cut : (head ++ encode value ++ tail).zipIdx front.length = head.zipIdx front.length ++
      (encode value).zipIdx before.length ++ tail.zipIdx (before.length + (encode value).length) := by
    rw [List.zipIdx_append, List.zipIdx_append, List.length_append, ← Nat.add_assoc, place]
  have inside {byte : UInt8 × ℕ} (member : byte ∈ quoted excerpt) (low : before.length ≤ byte.2)
      (high : byte.2 < before.length + (encode value).length) : byte ∈ quoted read := by
    have among := (part.trans order).subset member
    rw [cut, List.append_assoc, List.mem_append, List.mem_append] at among
    rcases among with early | here | late
    · have := List.snd_lt_add_of_mem_zipIdx early
      omega
    · rw [quoted, items]
      exact here
    · have := List.le_snd_of_mem_zipIdx late
      omega
  rw [cut] at parts nodup
  obtain ⟨first, last, same⟩ := exists_within parts.symm whole nodup some_ fun byte member => by
    rw [items] at member
    obtain ⟨other, among, same⟩ := List.mem_map.mp
      (all byte.2 (List.le_snd_of_mem_zipIdx member) (List.snd_lt_add_of_mem_zipIdx member))
    have there := inside among (same ▸ List.le_snd_of_mem_zipIdx member)
      (same ▸ List.snd_lt_add_of_mem_zipIdx member)
    rw [quoted, items] at there
    exact eq_of_snd there member same ▸ among
  exact ⟨first, read, last, same, chars, (part.trans (cut ▸ List.Sublist.refl _)).nodup nodup,
    fun byte member low high => inside member low high⟩

/-- Where redaction cleans the text and occurrences are quoted whole, nothing of them is left. -/
theorem hidden_of_whole (quotes : Quotes stream excerpt)
    (cleans : Cleans registry (excerpt.map Prod.fst)) (whole : Whole registry stream excerpt) :
    Hidden registry stream excerpt := by
  rintro char left byte within ⟨_, member, before, after, split, low, high⟩
  obtain ⟨value, declared, rfl⟩ := List.mem_map.mp member
  rw [redacted_eq] at left
  obtain ⟨⟨character, _ | place⟩, kept, rfl⟩ := List.mem_map.mp left
  · exact absurd within List.not_mem_nil
  have clean := cleans character place kept
  rcases there : excerpt[place]? with _ | char
  · rw [carried, Option.elim_some, there] at within
    exact absurd within List.not_mem_nil
  rw [carried, Option.elim_some, there, Option.elim_some] at within
  have among : byte ∈ quoted excerpt := List.mem_flatMap.mpr ⟨char, List.mem_of_getElem? there, within⟩
  obtain ⟨first, read, last, rfl, chars, nodup, inside⟩ := exists_read (registry.value_filled declared)
    split quotes (whole value declared before after split byte among low high)
  have own := inside byte among low high
  rw [quoted, List.flatMap_append, List.flatMap_append] at nodup
  obtain ⟨nodup, -, late⟩ := List.nodup_append.mp nodup
  obtain ⟨-, -, early⟩ := List.nodup_append.mp nodup
  -- The character's place is one of the value's.
  have low : first.length ≤ place := by
    by_contra before_
    refine early byte ?_ byte own rfl
    rw [List.append_assoc, List.getElem?_append_left (by omega)] at there
    exact List.mem_flatMap.mpr ⟨char, List.mem_of_getElem? there, within⟩
  have high : place < first.length + read.length := by
    by_contra behind
    refine late byte (List.mem_append_right _ own) byte ?_ rfl
    rw [List.getElem?_append_right (by rw [List.length_append]; omega)] at there
    exact List.mem_flatMap.mpr ⟨char, List.mem_of_getElem? there, within⟩
  refine clean ⟨value, declared, first.map Prod.fst, last.map Prod.fst, ?_, ?_, ?_⟩
  · rw [List.map_append, List.map_append, chars]
  · rwa [List.length_map]
  · rwa [List.length_map, ← chars, List.length_map]

/-- Where no value meets another, redaction cleans every text. -/
theorem cleans_of_separate (separate : Separate (registry.values.map encode) (encode declaredSecretMarker))
    (text : List Char) : Cleans registry text :=
  (SecretRegistry.erasesText_of_separate
    (separate.of_encode (fun _ _ => Utf8.encode_append) Utf8.encode_injective) text).unread

/-- Where no value meets another, an occurrence of which nothing is left was quoted whole or not at all. -/
theorem whole_of_hidden (quotes : Quotes stream excerpt)
    (separate : Separate (registry.values.map encode) (encode declaredSecretMarker))
    (plain : ∀ value ∈ registry.values, replacement ∉ value) (hidden : Hidden registry stream excerpt) :
    Whole registry stream excerpt := by
  rintro value declared before after split byte among low high place low' high'
  obtain ⟨char, member, within⟩ := List.mem_flatMap.mp among
  obtain ⟨front, back, rfl⟩ := List.append_of_mem member
  have apart := separate.of_encode (fun _ _ => Utf8.encode_append) Utf8.encode_injective
  have marked : sign.map Prod.fst = declaredSecretMarker := by
    rw [sign, List.map_map]
    exact List.map_id _
  have filled : [] ∉ registry.values := fun member => registry.value_filled member rfl
  have scanned : registry.redacted Prod.fst (front ++ char :: back) sign =
      scan Prod.fst registry.values.reverse sign (front ++ char :: back) := by
    rw [SecretRegistry.redacted, SecretRegistry.redact_getD,
      Replace.replaceEach_eq_scan (marked.symm ▸ apart) registry.distinct filled]
  have unfilled : [] ∉ registry.values.reverse := fun member => filled (List.mem_reverse.mp member)
  rcases Replace.mem_scan_or_covered Prod.fst unfilled sign front char back with kept | covered
  · exact absurd ⟨encode value, List.mem_map_of_mem declared, before, after, split, low, high⟩
      (hidden char (scanned ▸ kept) byte within)
  · obtain ⟨first, read, last, parts, known, start, stop⟩ := covered
    have known := List.mem_reverse.mp known
    have char_ : char ∈ read := by
      have here := congrArg (fun list => list[front.length]?) parts
      rw [List.getElem?_append_right le_rfl, Nat.sub_self, List.getElem?_cons_zero,
        List.getElem?_append_left (by rw [List.length_append]; exact stop),
        List.getElem?_append_right start] at here
      exact List.mem_of_getElem? here.symm
    -- The characters another value was found in are all bytes of it.
    obtain ⟨front', piece, back', rfl, early, late, whole⟩ := quotes
    have reads := Utf8.reads_lossyItems Prod.fst (piece.zipIdx front'.length)
    have shape : early ++ (front ++ char :: back) ++ late =
        (early ++ first) ++ (read ++ (last ++ late)) := by
      rw [parts]
      simp only [List.append_assoc]
    rw [← whole, shape] at reads
    obtain ⟨head, rest, cut, -, reads⟩ := reads.split
    obtain ⟨items, tail, rfl, reads, -⟩ := reads.split
    obtain ⟨same, bytes⟩ := reads.plain (plain _ known)
    obtain ⟨before', _, rfl, -, rest⟩ := List.zipIdx_eq_append_iff.mp cut
    obtain ⟨piece, after', rfl, rfl, -⟩ := List.zipIdx_eq_append_iff.mp rest.symm
    rw [List.zipIdx_map_fst] at bytes
    have there : byte ∈ piece.zipIdx (front'.length + before'.length) :=
      same ▸ List.mem_flatMap.mpr ⟨char, char_, within⟩
    have low_ := List.le_snd_of_mem_zipIdx there
    have high_ := List.snd_lt_add_of_mem_zipIdx there
    have occurs : before ++ encode value ++ after =
        (front' ++ before') ++ encode (read.map Prod.fst) ++ (after' ++ back') := by
      rw [← split, ← bytes]
      simp only [List.append_assoc]
    have unfilled' : [] ∉ registry.values.map encode := fun member => by
      obtain ⟨value, declared, empty⟩ := List.mem_map.mp member
      exact registry.encode_filled declared empty
    obtain ⟨rfl, whole_⟩ := separate.same_occurrence unfilled' (List.mem_map_of_mem declared)
      (List.mem_map_of_mem known) occurs ⟨low, high⟩
      (by rw [List.length_append, ← bytes]; exact ⟨low_, high_⟩)
    have place_ : place ∈ (piece.zipIdx (front'.length + before'.length)).map Prod.snd := by
      rw [whole_, ← bytes, List.length_append] at high'
      rw [List.length_append] at low'
      rw [List.zipIdx_map_snd, List.mem_range'_1]
      exact ⟨low', high'⟩
    rw [← same] at place_
    obtain ⟨other, among, rfl⟩ := List.mem_map.mp place_
    rw [parts]
    refine List.mem_map_of_mem ?_
    rw [quoted, List.flatMap_append, List.flatMap_append]
    exact List.mem_append_left _ (List.mem_append_right _ among)

/-- Where no value meets another, what is left of an excerpt of a stream shows no occurrence of a declared
value, if it quotes every occurrence whole that it quotes at all; where moreover no value has the character that
stands for broken bytes, it has to. Of other values it is enough that redaction cleans the text at hand. -/
theorem excerpts_hide (registry : SecretRegistry) (capacity : ℕ) (chunks : List (List UInt8)) :
    ∀ excerpt ∈ excerpts capacity chunks,
      (Separate (registry.values.map encode) (encode declaredSecretMarker) →
        Whole registry chunks.flatten excerpt → Hidden registry chunks.flatten excerpt) ∧
      (Separate (registry.values.map encode) (encode declaredSecretMarker) →
        (∀ value ∈ registry.values, replacement ∉ value) →
        (Hidden registry chunks.flatten excerpt ↔ Whole registry chunks.flatten excerpt)) ∧
      (Cleans registry (excerpt.map Prod.fst) → Whole registry chunks.flatten excerpt →
        Hidden registry chunks.flatten excerpt) := by
  intro excerpt member
  have quotes := quotes_of_mem_excerpts member
  have enough (separate : Separate (registry.values.map encode) (encode declaredSecretMarker)) :=
    hidden_of_whole quotes (cleans_of_separate separate _)
  exact ⟨enough, fun separate plain => ⟨whole_of_hidden quotes separate plain, enough separate⟩,
    hidden_of_whole quotes⟩

theorem excerpts_hide_sample :
    let registry : SecretRegistry := ⟨["secret-value".toList], by decide, by decide⟩
    let chunks := [encode "a secret-va".toList, encode "lue\n".toList]
    let excerpt := lossyItems Prod.fst (tailOf 1024 (numbered 0 chunks)).retained
    excerpt ∈ excerpts 1024 chunks ∧ Hidden registry chunks.flatten excerpt := by
  intro registry chunks excerpt
  have member : excerpt ∈ excerpts 1024 chunks := List.mem_cons_self
  have separate : Separate (registry.values.map encode) (encode declaredSecretMarker) :=
    ⟨by decide, by decide, by decide, by decide⟩
  have places : (quoted excerpt).map Prod.snd = List.range 15 := by decide
  refine ⟨member, (excerpts_hide registry 1024 chunks excerpt member).1
    separate fun value _ before after split byte _ _ _ place _ high => ?_⟩
  have sizes := congrArg List.length split
  rw [List.length_append, List.length_append] at sizes
  have whole : chunks.flatten.length = 15 := by decide
  rw [places, List.mem_range]
  omega

/-- The front of a tail of six bytes cuts through a value of twelve. -/
theorem secret_value_leaks : ¬∀ registry : SecretRegistry,
    (∀ value ∈ registry.values, '\n' ∉ value ∧ '\r' ∉ value) → ∀ capacity chunks,
      ∀ excerpt ∈ excerpts capacity chunks, Hidden registry chunks.flatten excerpt := by
  intro hidden
  refine hidden ⟨["secret-value".toList], by decide, by decide⟩ (by decide) 6
    [encode "secret-value".toList] _ List.mem_cons_self ('-', [(45, 6)]) (by decide) (45, 6)
    List.mem_cons_self ?_
  exact ⟨encode "secret-value".toList, List.mem_cons_self, [], [], by decide, by decide, by decide⟩

end Harkness.Runtime.Tool.Capture
