import Harkness.ToMathlib.Utf8Lossy
import Mathlib

/-! # Reading bytes strictly

The strict reader goes as far as the lossy one replaces nothing. It says how far the bytes are a text,
and tells bytes that end within a character from bytes that no character begins with.
-/

namespace Utf8

open String (utf8Len)

variable {text other : List Char} {bytes tail rest more : List UInt8}
  {state : Option (Owed × List UInt8)}

/-- How the reading of some bytes ends. -/
inductive Ending where
  | whole
  /-- The bytes end within a character. -/
  | short
  /-- That many bytes are refused together. -/
  | broken (length : ℕ)
deriving DecidableEq

/-- The characters read before the first bytes that would be replaced. -/
def strictFrom : Option (Owed × List UInt8) → List UInt8 → List Char × Ending
  | none, [] => ([], .whole)
  | some _, [] => ([], .short)
  | state, byte :: rest =>
    let read := itemStep id state byte
    if read.1.any (·.2 = []) then ([], .broken (max 1 (state.elim [] Prod.snd).length))
    else
      let behind := strictFrom read.2 rest
      (read.1.map Prod.fst ++ behind.1, behind.2)

/-- Why some bytes are no text: how many of the first ones are, and how many behind them are refused,
which is left open where the bytes merely end too early. -/
structure Utf8Error where
  validUpTo : ℕ
  errorLen : Option ℕ
deriving DecidableEq

/-- Reads some bytes as a text. -/
def fromUtf8 (bytes : List UInt8) : Except Utf8Error (List Char) :=
  match strictFrom none bytes with
  | (text, .whole) => .ok text
  | (text, .short) => .error ⟨utf8Len text, none⟩
  | (text, .broken length) => .error ⟨utf8Len text, some length⟩

/-- The bytes are the first ones of a character, and not all of it. -/
def Opens (tail : List UInt8) : Prop :=
  tail ≠ [] ∧ ∃ character more, more ≠ [] ∧ tail ++ more = String.utf8EncodeChar character

/-- Whatever follows the bytes, no character stands at their beginning. -/
def Broken (tail : List UInt8) : Prop :=
  ∀ character more rest, tail ++ more ≠ String.utf8EncodeChar character ++ rest

theorem Opens.length_le (opens : Opens tail) : tail.length ≤ 3 := by
  obtain ⟨-, character, more, some_, spelt⟩ := opens
  have whole := congrArg List.length spelt
  have bound := character.utf8Size_le_four
  have positive := List.length_pos_iff.mpr some_
  rw [List.length_append, String.length_utf8EncodeChar] at whole
  omega

theorem Broken.ne_nil (broken : Broken tail) : tail ≠ [] := by
  rintro rfl
  exact broken 'a' (String.utf8EncodeChar 'a') [] rfl

theorem Broken.append (broken : Broken tail) (more : List UInt8) : Broken (tail ++ more) := by
  intro character more' rest same
  rw [List.append_assoc] at same
  exact broken character _ rest same

/-- No character's bytes begin with those of another. -/
theorem encodeChar_append_inj {first second : Char}
    (same : String.utf8EncodeChar first ++ rest = String.utf8EncodeChar second ++ more) :
    first = second ∧ rest = more := by
  have here := lossyItems_character (List.map_id (String.utf8EncodeChar first)) rest
  rw [same, lossyItems_character (List.map_id _)] at here
  obtain rfl := congrArg Prod.fst (List.cons_eq_cons.mp here).1
  exact ⟨rfl, List.append_cancel_left same⟩

theorem not_character_of_opens (opens : Opens tail) (character : Char) (rest : List UInt8) :
    tail ≠ String.utf8EncodeChar character ++ rest := by
  rintro rfl
  obtain ⟨-, other, more, some_, spelt⟩ := opens
  rw [List.append_assoc, ← List.append_nil (String.utf8EncodeChar other)] at spelt
  exact some_ (List.append_eq_nil_iff.mp (encodeChar_append_inj spelt).2).2

/-- Of two texts that some bytes begin with, one begins with the other. -/
theorem encode_append_eq_append (same : encode text ++ rest = encode other ++ more) :
    (∃ behind, other = text ++ behind ∧ rest = encode behind ++ more) ∨
      ∃ behind, text = other ++ behind ∧ more = encode behind ++ rest := by
  induction text generalizing other with
  | nil => exact .inl ⟨other, rfl, same⟩
  | cons character text ih =>
    cases other with
    | nil => exact .inr ⟨character :: text, rfl, same.symm⟩
    | cons second other =>
      have parts : String.utf8EncodeChar character ++ (encode text ++ rest) =
          String.utf8EncodeChar second ++ (encode other ++ more) := by
        rw [← List.append_assoc, ← List.append_assoc]
        exact same
      obtain ⟨rfl, texts⟩ := encodeChar_append_inj parts
      rcases ih texts with ⟨behind, rfl, back⟩ | ⟨behind, rfl, back⟩
      · exact .inl ⟨behind, rfl, back⟩
      · exact .inr ⟨behind, rfl, back⟩

/-- A text is the longest one that some bytes begin with. -/
def LongestValid (bytes : List UInt8) (text : List Char) : Prop :=
  encode text <+: bytes ∧ ∀ other, encode other <+: bytes → other <+: text

/-- The text before bytes at whose beginning no character stands is the longest. -/
theorem longestValid_of_stuck (stuck : ∀ character rest, tail ≠ String.utf8EncodeChar character ++ rest) :
    LongestValid (encode text ++ tail) text := by
  refine ⟨⟨tail, rfl⟩, ?_⟩
  rintro other ⟨more, same⟩
  rcases encode_append_eq_append same with ⟨behind, rfl, -⟩ | ⟨behind, rfl, rest⟩
  · exact List.prefix_append other behind
  · cases behind with
    | nil => rw [List.append_nil]
    | cons character behind =>
      refine absurd ?_ (stuck character (encode behind ++ more))
      rw [rest, ← List.append_assoc]
      rfl

/-- The bytes of a text have nothing behind it at whose beginning no character stands. -/
theorem eq_of_stuck (stuck : ∀ character rest, tail ≠ String.utf8EncodeChar character ++ rest)
    (same : encode text = encode other ++ tail) : other = text ∧ tail = [] := by
  have longest : LongestValid (encode other ++ tail) other := longestValid_of_stuck stuck
  rw [← same] at longest
  obtain ⟨more, split⟩ := longest.2 text (List.prefix_refl _)
  rw [← split, encode_append, List.append_assoc] at same
  obtain ⟨bytes, none_⟩ := List.append_eq_nil_iff.mp (List.append_right_eq_self.mp same.symm)
  have empty : more = [] := encode_injective bytes
  rw [empty, List.append_nil] at split
  exact ⟨split.symm, none_⟩

theorem Broken.stuck (broken : Broken tail) (character : Char) (rest : List UInt8) :
    tail ≠ String.utf8EncodeChar character ++ rest := by
  have here := broken character [] rest
  rwa [List.append_nil] at here

theorem stuck_nil (character : Char) (rest : List UInt8) : [] ≠ String.utf8EncodeChar character ++ rest := by
  intro same
  exact String.utf8EncodeChar_ne_nil (List.append_eq_nil_iff.mp same.symm).1

/-- A state the lossy reader is in behind bytes of which it has given nothing. -/
structure Within (state : Option (Owed × List UInt8)) : Prop where
  begun : Begun id state
  begins : ∀ owed begun, state = some (owed, begun) → begun ≠ []
  ranges : ∀ owed begun, state = some (owed, begun) → ∀ range ∈ owed.2, range.1 ≤ range.2 ∧ range.2 < 256
  reached : ∀ bytes, lossyItems id (state.elim [] Prod.snd ++ bytes) = itemsFrom id state bytes

theorem within_none : Within none where
  begun := fun _ _ same => by cases same
  begins := fun _ _ same => by cases same
  ranges := fun _ _ same => by cases same
  reached := fun _ => rfl

theorem lead_inhabited {byte value : ℕ} {ranges : List (ℕ × ℕ)} (leads : lead byte = some (value, ranges)) :
    ∀ range ∈ ranges, range.1 ≤ range.2 ∧ range.2 < 256 := by
  unfold lead at leads
  split_ifs at leads
  all_goals
    cases leads
    simp

/-- One byte goes on with a character, ends one, or is of none. -/
theorem Within.step (within : Within state) (byte : UInt8) :
    (∃ owed, itemStep id state byte = ([], some (owed, state.elim [] Prod.snd ++ [byte])) ∧
        Within (some (owed, state.elim [] Prod.snd ++ [byte]))) ∨
      (∃ character, itemStep id state byte = ([(character, state.elim [] Prod.snd ++ [byte])], none) ∧
        state.elim [] Prod.snd ++ [byte] = String.utf8EncodeChar character) ∨
      ∃ chars next, itemStep id state byte = ((replacement, []) :: chars, next) := by
  have next {owed : Owed} (step : itemStep id state byte = ([], some (owed, state.elim [] Prod.snd ++ [byte])))
      (ranges : ∀ range ∈ owed.2, range.1 ≤ range.2 ∧ range.2 < 256) :
      Within (some (owed, state.elim [] Prod.snd ++ [byte])) := by
    refine ⟨?_, ?_, ?_, fun bytes => ?_⟩
    · have begun := (reads_itemStep within.begun byte).1
      rwa [step] at begun
    · rintro _ _ same
      cases same
      exact List.append_ne_nil_of_right_ne_nil _ (List.cons_ne_nil _ _)
    · rintro _ _ same
      cases same
      exact ranges
    · have here := within.reached (byte :: bytes)
      rw [itemsFrom_cons, step] at here
      simpa using here
  rcases state with _ | ⟨⟨value, _ | ⟨⟨low, high⟩, ranges⟩⟩, begun⟩
  · change _ ∨ (∃ _, itemStart id byte = _ ∧ _) ∨ ∃ _ _, itemStart id byte = _
    by_cases ascii : byte.toNat < 0x80
    · refine .inr (.inl ⟨Char.ofNat byte.toNat, if_pos ascii, ?_⟩)
      exact (utf8EncodeChar_ascii ascii).symm
    · rcases leads : lead byte.toNat with _ | owed
      · exact .inr (.inr ⟨[], none, itemStart_replaced ascii leads⟩)
      · have step : itemStep id none byte = ([], some (owed, [byte])) := itemStart_lead leads
        exact .inl ⟨owed, step, next step (lead_inhabited leads)⟩
  · exact absurd rfl (within.begun _ _ rfl).1
  · by_cases inside : low ≤ byte.toNat ∧ byte.toNat ≤ high
    · cases ranges with
      | nil =>
        refine .inr (.inl ⟨_, itemStep_last inside.1 inside.2, ?_⟩)
        have spelt := (within.begun _ _ rfl).2 [byte] ⟨byte, [], rfl, inside.1, inside.2, rfl⟩
        rwa [List.map_id] at spelt
      | cons range ranges =>
        have step : itemStep id (some ((value, (low, high) :: range :: ranges), begun)) byte = _ :=
          itemStep_more inside.1 inside.2
        refine .inl ⟨_, step, next step fun range member => ?_⟩
        exact within.ranges _ _ rfl range (List.mem_cons_of_mem _ member)
    · exact .inr (.inr ⟨_, _, if_neg inside⟩)

/-- Bytes that fit are there to be found. -/
theorem exists_fits {ranges : List (ℕ × ℕ)} (inhabited : ∀ range ∈ ranges, range.1 ≤ range.2 ∧ range.2 < 256) :
    ∃ bytes : List UInt8, Fits id ranges bytes ∧ bytes.length = ranges.length := by
  induction ranges with
  | nil => exact ⟨[], rfl, rfl⟩
  | cons range ranges ih =>
    obtain ⟨bytes, fits, length⟩ := ih fun other member => inhabited other (List.mem_cons_of_mem _ member)
    obtain ⟨ordered, bound⟩ := inhabited range List.mem_cons_self
    have low : (UInt8.ofNat range.1).toNat = range.1 := by
      rw [UInt8.toNat_ofNat']
      omega
    refine ⟨UInt8.ofNat range.1 :: bytes, ⟨_, _, rfl, ?_, ?_, fits⟩, congrArg (· + 1) length⟩
    · exact low.ge
    · exact low.le.trans ordered

/-- What is begun is the beginning of a character. -/
theorem Within.opens {owed : Owed} {begun : List UInt8} (within : Within (some (owed, begun))) :
    Opens begun := by
  obtain ⟨bytes, fits, length⟩ := exists_fits (within.ranges _ _ rfl)
  obtain ⟨filled, spelt⟩ := within.begun _ _ rfl
  have whole := spelt bytes fits
  rw [List.map_id] at whole
  refine ⟨within.begins _ _ rfl, _, bytes, ?_, whole⟩
  rintro rfl
  exact filled (List.length_eq_zero_iff.mp length.symm)

/-- A byte that makes the lossy reader replace those before it leaves no character at their beginning. -/
theorem Within.broken (within : Within state) {byte : UInt8} {chars : List (Char × List UInt8)}
    {next : Option (Owed × List UInt8)} (step : itemStep id state byte = ((replacement, []) :: chars, next))
    (rest : List UInt8) : Broken (state.elim [] Prod.snd ++ byte :: rest) := by
  intro character more others same
  have here := within.reached (byte :: (rest ++ more))
  rw [itemsFrom_cons, step] at here
  rw [List.append_assoc, List.cons_append] at same
  rw [same, lossyItems_character (List.map_id _)] at here
  have items := congrArg Prod.snd (List.cons_eq_cons.mp here).1
  exact String.utf8EncodeChar_ne_nil items

/-- What the bytes behind the text are, by how the reading of them ends. -/
def Ending.Fits (tail : List UInt8) : Ending → Prop
  | .whole => tail = []
  | .short => Opens tail
  | .broken _ => Broken tail

theorem strictFrom_fits (within : Within state) (bytes : List UInt8) :
    ∃ tail, state.elim [] Prod.snd ++ bytes = encode (strictFrom state bytes).1 ++ tail ∧
      (strictFrom state bytes).2.Fits tail := by
  induction bytes generalizing state with
  | nil =>
    rcases state with _ | ⟨owed, begun⟩
    · exact ⟨[], rfl, rfl⟩
    · exact ⟨begun, List.append_nil begun, within.opens⟩
  | cons byte rest ih =>
    have unfolded : strictFrom state (byte :: rest) =
        if (itemStep id state byte).1.any (·.2 = []) then
          ([], .broken (max 1 (state.elim [] Prod.snd).length))
        else ((itemStep id state byte).1.map Prod.fst ++ (strictFrom (itemStep id state byte).2 rest).1,
          (strictFrom (itemStep id state byte).2 rest).2) := by
      cases state <;> rfl
    rcases within.step byte with ⟨owed, step, next⟩ | ⟨character, step, spelt⟩ | ⟨chars, next, step⟩
    · obtain ⟨tail, same, fits⟩ := ih next
      rw [unfolded, step]
      refine ⟨tail, ?_, fits⟩
      rw [List.append_cons]
      exact same
    · obtain ⟨tail, same, fits⟩ := ih within_none
      rw [unfolded, step, spelt]
      have filled : String.utf8EncodeChar character ≠ [] := String.utf8EncodeChar_ne_nil
      simp only [List.any_cons, filled, decide_false, List.any_nil, Bool.or_self, Bool.false_eq_true, if_false]
      refine ⟨tail, ?_, fits⟩
      calc state.elim [] Prod.snd ++ byte :: rest = String.utf8EncodeChar character ++ rest := by
            rw [List.append_cons, spelt]
        _ = String.utf8EncodeChar character ++ (encode (strictFrom none rest).1 ++ tail) :=
          congrArg _ same
        _ = encode (character :: (strictFrom none rest).1) ++ tail := (List.append_assoc _ _ _).symm
    · rw [unfolded, step]
      exact ⟨_, rfl, within.broken step rest⟩

/-- The three ways in which bytes are read. -/
theorem fromUtf8_cases (bytes : List UInt8) : ∃ text tail, bytes = encode text ++ tail ∧
    ((tail = [] ∧ fromUtf8 bytes = .ok text) ∨
      (Opens tail ∧ fromUtf8 bytes = .error ⟨utf8Len text, none⟩) ∨
      (Broken tail ∧ ∃ length, fromUtf8 bytes = .error ⟨utf8Len text, some length⟩)) := by
  obtain ⟨tail, same, fits⟩ := strictFrom_fits within_none bytes
  refine ⟨(strictFrom none bytes).1, tail, same, ?_⟩
  unfold fromUtf8
  generalize strictFrom none bytes = read at fits ⊢
  rcases read with ⟨text, _ | _ | length⟩
  · exact .inl ⟨fits, rfl⟩
  · exact .inr (.inl ⟨fits, rfl⟩)
  · exact .inr (.inr ⟨fits, length, rfl⟩)

/-- The bytes of a text are read as it. -/
theorem fromUtf8_encode (text : List Char) : fromUtf8 (encode text) = .ok text := by
  obtain ⟨read, tail, same, kind⟩ := fromUtf8_cases (encode text)
  have stuck : ∀ character rest, tail ≠ String.utf8EncodeChar character ++ rest := by
    rcases kind with ⟨rfl, -⟩ | ⟨opens, -⟩ | ⟨broken, -⟩
    · exact stuck_nil
    · exact not_character_of_opens opens
    · exact broken.stuck
  obtain ⟨rfl, rfl⟩ := eq_of_stuck stuck same
  rcases kind with ⟨-, whole⟩ | ⟨opens, -⟩ | ⟨broken, -⟩
  · exact whole
  · exact absurd rfl opens.1
  · exact absurd rfl broken.ne_nil

/-- What is said to be valid is a text. -/
theorem fromUtf8_take : fromUtf8 ((encode text ++ tail).take (utf8Len text)) = .ok text := by
  rw [← length_encode, List.take_left, fromUtf8_encode]

end Utf8
