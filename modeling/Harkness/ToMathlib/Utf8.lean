import Mathlib.Data.String.Basic

/-! # Byte offsets in a text

A text is a list of characters, addressed by offsets in its UTF-8 bytes; what lies between two of them is
a part of the text. A text is read back from its bytes, and nothing else reads as it.
-/

namespace Utf8

open String (utf8Len)

variable {text first second rest : List Char} {offset : ℕ}

/-- The characters of a text that fit in a number of bytes. -/
@[simp] def within : ℕ → List Char → List Char
  | _, [] => []
  | limit, character :: rest =>
    if character.utf8Size ≤ limit then character :: within (limit - character.utf8Size) rest
    else []

/-- What is left of a text after a number of bytes. -/
def after : ℕ → List Char → List Char
  | _, [] => []
  | 0, text => text
  | count + 1, character :: rest => after (count + 1 - character.utf8Size) rest

/-- The part of a text between two offsets. -/
def slice (text : List Char) (start stop : ℕ) : List Char := within (stop - start) (after start text)

theorem within_prefix (limit : ℕ) (text : List Char) : within limit text <+: text := by
  induction text generalizing limit with
  | nil => exact List.nil_prefix
  | cons character rest ih =>
    rw [within]
    split_ifs
    · exact List.cons_prefix_cons.mpr ⟨rfl, ih _⟩
    · exact List.nil_prefix

theorem utf8Len_within_le (limit : ℕ) (text : List Char) : utf8Len (within limit text) ≤ limit := by
  induction text generalizing limit with
  | nil => exact Nat.zero_le _
  | cons character rest ih =>
    rw [within]
    split_ifs with fits
    · have shorter := ih (limit - character.utf8Size)
      rw [String.utf8Len_cons]
      omega
    · exact Nat.zero_le _

/-- The offset of the last occurrence of a character. -/
def rfind (wanted : Char) : List Char → Option ℕ
  | [] => none
  | character :: rest =>
    match rfind wanted rest with
    | some offset => some (character.utf8Size + offset)
    | none => if character = wanted then some 0 else none

theorem rfind_eq_some {wanted : Char} (found : rfind wanted text = some offset) :
    ∃ first second, text = first ++ wanted :: second ∧ utf8Len first = offset := by
  induction text generalizing offset with
  | nil => cases found
  | cons character text ih =>
    rw [rfind] at found
    rcases behind : rfind wanted text with _ | later <;> rw [behind] at found
    · dsimp only at found
      split_ifs at found with here
      obtain rfl := Option.some.inj found
      exact ⟨[], text, by rw [here, List.nil_append], rfl⟩
    · obtain rfl := Option.some.inj found
      obtain ⟨first, second, rfl, rfl⟩ := ih behind
      exact ⟨character :: first, second, rfl, by rw [String.utf8Len_cons, Nat.add_comm]⟩

/-- The bytes of a text. -/
def encode (text : List Char) : List UInt8 := text.flatMap String.utf8EncodeChar

/-- The text some bytes are, if they are one. -/
def decode? (bytes : List UInt8) : Option (List Char) :=
  bytes.toByteArray.utf8Decode?.map Array.toList

@[simp] theorem encode_append : encode (first ++ second) = encode first ++ encode second :=
  List.flatMap_append

@[simp] theorem length_encode (text : List Char) : (encode text).length = utf8Len text := by
  induction text with
  | nil => rfl
  | cons character rest ih =>
    change (String.utf8EncodeChar character ++ encode rest).length = _
    rw [List.length_append, ih, String.length_utf8EncodeChar, String.utf8Len_cons, Nat.add_comm]

theorem decode?_encode (text : List Char) : decode? (encode text) = some text := by
  change (Option.map Array.toList text.utf8Encode.utf8Decode?) = _
  rw [List.utf8Decode?_utf8Encode]
  rfl

theorem decode?_eq_some_iff {bytes : List UInt8} :
    decode? bytes = some text ↔ bytes = encode text := by
  constructor
  · intro decoded
    obtain ⟨characters, read, rfl⟩ := Option.map_eq_some_iff.mp decoded
    have valid : bytes.toByteArray.utf8Decode?.isSome := by rw [read]; rfl
    have same := ByteArray.utf8Encode_get_utf8Decode? (h := valid)
    simp only [read, Option.get_some] at same
    have lists := congrArg (fun array => array.data.toList) same
    simpa [List.utf8Encode, encode] using lists.symm
  · rintro rfl
    exact decode?_encode text

theorem encode_injective : Function.Injective encode := by
  intro text other same
  have read := decode?_encode text
  rw [same, decode?_encode] at read
  exact (Option.some.inj read).symm

/-- A byte below 128 is a character of its own. -/
private theorem toNat_of_mem_encodeChar {byte : UInt8} {character : Char}
    (member : byte ∈ String.utf8EncodeChar character) (ascii : byte.toNat < 128) :
    character.val.toNat = byte.toNat := by
  have bound : character.val.toNat < 0x110000 := by
    rcases character.valid with low | high
    · exact Nat.lt_trans low (by decide)
    · exact high.2
  unfold String.utf8EncodeChar at member
  dsimp only at member
  split_ifs at member
  all_goals
    simp only [List.mem_cons, List.not_mem_nil, or_false] at member
  · rw [member, UInt8.toNat_ofNat']
    omega
  all_goals
    exfalso
    rcases member with rfl | rfl | rfl | rfl
    all_goals
      rw [UInt8.toNat_ofNat'] at ascii
      omega

/-- An ASCII character is in a text when its byte is among those of the text. -/
theorem mem_of_byte_mem {character : Char} (ascii : character.toNat < 128)
    (member : UInt8.ofNat character.toNat ∈ encode text) : character ∈ text := by
  obtain ⟨other, listed, byte⟩ := List.mem_flatMap.mp member
  have small : (UInt8.ofNat character.toNat).toNat = character.toNat := by
    rw [UInt8.toNat_ofNat']
    omega
  have same := toNat_of_mem_encodeChar byte (by rw [small]; exact ascii)
  rw [small] at same
  have chars : other = character := Char.ext (UInt32.toNat_inj.mp same)
  exact chars ▸ listed

theorem encodeChar_of_ascii {character : Char} (ascii : character.toNat < 128) :
    String.utf8EncodeChar character = [UInt8.ofNat character.toNat] := by
  unfold String.utf8EncodeChar
  exact if_pos (Nat.le_of_lt_succ ascii)

/-- Texts of ASCII characters compare as their bytes do. -/
theorem encode_lt_encode (ascii : ∀ character ∈ first, character.toNat < 128)
    (ascii' : ∀ character ∈ second, character.toNat < 128) : encode first < encode second ↔ first < second := by
  induction first generalizing second with
  | nil =>
    cases second with
    | nil => exact iff_of_false (List.not_lt_nil _) (List.not_lt_nil _)
    | cons other rest =>
      rw [encode, encode, List.flatMap_cons, encodeChar_of_ascii (ascii' other List.mem_cons_self)]
      exact iff_of_true (List.nil_lt_cons _ _) (List.nil_lt_cons _ _)
  | cons character first ih =>
    have small := ascii character List.mem_cons_self
    cases second with
    | nil =>
      rw [encode, encode, List.flatMap_cons, encodeChar_of_ascii small]
      exact iff_of_false (List.not_lt_nil _) (List.not_lt_nil _)
    | cons other second =>
      have small' := ascii' other List.mem_cons_self
      have later := ih (fun character member => ascii character (List.mem_cons_of_mem _ member))
        (fun character member => ascii' character (List.mem_cons_of_mem _ member))
      have bytes : UInt8.ofNat character.toNat < UInt8.ofNat other.toNat ↔ character < other := by
        rw [UInt8.lt_iff_toNat_lt, UInt8.toNat_ofNat', UInt8.toNat_ofNat', Nat.mod_eq_of_lt (by omega),
          Nat.mod_eq_of_lt (by omega)]
        exact Iff.rfl
      have same : UInt8.ofNat character.toNat = UInt8.ofNat other.toNat ↔ character = other := by
        rw [← UInt8.toNat_inj, UInt8.toNat_ofNat', UInt8.toNat_ofNat', Nat.mod_eq_of_lt (by omega),
          Nat.mod_eq_of_lt (by omega)]
        exact Char.toNat_inj
      rw [encode, encode, List.flatMap_cons, List.flatMap_cons, encodeChar_of_ascii small,
        encodeChar_of_ascii small', List.singleton_append, List.singleton_append, List.cons_lt_cons_iff,
        List.cons_lt_cons_iff, bytes, same]
      exact or_congr_right (and_congr_right fun _ => later)

/-- The character that stands for bytes that are none. -/
def replacement : Char := Char.ofNat 0xFFFD

/-- A character of which some bytes are still owed: its value so far, and between which bytes each of
them may be. -/
abbrev Owed := ℕ × List (ℕ × ℕ)

/-- The character that a byte above the ASCII ones begins, if it begins one. -/
def lead (byte : ℕ) : Option Owed :=
  if 0xC2 ≤ byte ∧ byte ≤ 0xDF then some (byte % 32, [(0x80, 0xBF)])
  else if byte = 0xE0 then some (0, [(0xA0, 0xBF), (0x80, 0xBF)])
  else if byte = 0xED then some (13, [(0x80, 0x9F), (0x80, 0xBF)])
  else if 0xE1 ≤ byte ∧ byte ≤ 0xEF then some (byte % 16, [(0x80, 0xBF), (0x80, 0xBF)])
  else if byte = 0xF0 then some (0, [(0x90, 0xBF), (0x80, 0xBF), (0x80, 0xBF)])
  else if 0xF1 ≤ byte ∧ byte ≤ 0xF3 then some (byte % 8, [(0x80, 0xBF), (0x80, 0xBF), (0x80, 0xBF)])
  else if byte = 0xF4 then some (4, [(0x80, 0x8F), (0x80, 0xBF), (0x80, 0xBF)])
  else none

/-- What a byte between characters gives, and what is owed behind it. -/
def lossyStart (byte : ℕ) : List Char × Option Owed :=
  if byte < 0x80 then ([Char.ofNat byte], none)
  else
    match lead byte with
    | some owed => ([], some owed)
    | none => ([replacement], none)

/-- What one byte gives where a character may have been begun. -/
def lossyStep : Option Owed → ℕ → List Char × Option Owed
  | some (value, (low, high) :: ranges), byte =>
    if low ≤ byte ∧ byte ≤ high then
      let value := value * 64 + byte % 64
      if ranges = [] then ([Char.ofNat value], none) else ([], some (value, ranges))
    else
      -- The bytes so far are replaced together, and this one is looked at afresh.
      (replacement :: (lossyStart byte).1, (lossyStart byte).2)
  | _, byte => lossyStart byte

/-- Reads bytes behind a character that was begun, or between two. -/
def decodeLossyFrom : Option Owed → List UInt8 → List Char
  | none, [] => []
  | some _, [] => [replacement]
  | owed, byte :: rest =>
    (lossyStep owed byte.toNat).1 ++ decodeLossyFrom (lossyStep owed byte.toNat).2 rest

/-- The text of some bytes, in which every longest part that is no character is replaced. -/
def decodeLossy (bytes : List UInt8) : List Char := decodeLossyFrom none bytes

/-- A byte is read, or begins a character. -/
theorem lossyStep_progress (owed : Option Owed) (byte : ℕ) :
    (lossyStep owed byte).1 ≠ [] ∨ (lossyStep owed byte).2.isSome := by
  have start : (lossyStart byte).1 ≠ [] ∨ (lossyStart byte).2.isSome := by
    unfold lossyStart
    split_ifs
    · exact .inl (List.cons_ne_nil _ _)
    · cases lead byte with
      | none => exact .inl (List.cons_ne_nil _ _)
      | some owed => exact .inr rfl
  rcases owed with _ | ⟨value, _ | ⟨⟨low, high⟩, ranges⟩⟩
  · exact start
  · exact start
  · simp only [lossyStep]
    split_ifs
    · exact .inl (List.cons_ne_nil _ _)
    · exact .inr rfl
    · exact .inl (List.cons_ne_nil _ _)

theorem decodeLossyFrom_ne_nil {owed : Option Owed} {bytes : List UInt8}
    (pending : owed.isSome ∨ bytes ≠ []) : decodeLossyFrom owed bytes ≠ [] := by
  induction bytes generalizing owed with
  | nil =>
    cases owed with
    | none => simp at pending
    | some owed => exact List.cons_ne_nil _ _
  | cons byte rest ih =>
    have read : decodeLossyFrom owed (byte :: rest) =
        (lossyStep owed byte.toNat).1 ++ decodeLossyFrom (lossyStep owed byte.toNat).2 rest := by
      cases owed <;> rfl
    rw [read]
    rcases lossyStep_progress owed byte.toNat with given | begun
    · exact List.append_ne_nil_of_left_ne_nil given _
    · exact List.append_ne_nil_of_right_ne_nil _ (ih (.inl begun))

@[simp] theorem decodeLossy_eq_nil {bytes : List UInt8} : decodeLossy bytes = [] ↔ bytes = [] := by
  constructor
  · intro empty
    by_contra some_
    exact decodeLossyFrom_ne_nil (.inr some_) empty
  · rintro rfl
    rfl

/-- Two bytes of a longer character are one replacement, and a byte behind them is read. -/
example : decodeLossy [0xE2, 0x82, 0x41, 0xC3, 0xA9] = [replacement, 'A', 'é'] := by decide

end Utf8
