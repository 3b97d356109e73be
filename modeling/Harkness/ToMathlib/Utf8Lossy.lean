import Harkness.ToMathlib.Utf8

/-! # What the characters of a lossily read text stand for

The lossy reader is run on bytes that may carry more than themselves, and gives each character with the
bytes it was read from; a replacement stands for none. The bytes of a character are read as it wherever
they stand, since no other character and no broken one reaches into its first byte.
-/

namespace Utf8

variable {β : Type*} (key : β → UInt8)

/-- What an item between characters gives, and what is begun behind it. -/
def itemStart (item : β) : List (Char × List β) × Option (Owed × List β) :=
  if (key item).toNat < 0x80 then ([(Char.ofNat (key item).toNat, [item])], none)
  else
    match lead (key item).toNat with
    | some owed => ([], some (owed, [item]))
    | none => ([(replacement, [])], none)

/-- What one item gives where a character may have been begun with others. -/
def itemStep : Option (Owed × List β) → β → List (Char × List β) × Option (Owed × List β)
  | some ((value, (low, high) :: ranges), begun), item =>
    let byte := (key item).toNat
    if low ≤ byte ∧ byte ≤ high then
      let value := value * 64 + byte % 64
      if ranges = [] then ([(Char.ofNat value, begun ++ [item])], none)
      else ([], some ((value, ranges), begun ++ [item]))
    else ((replacement, []) :: (itemStart key item).1, (itemStart key item).2)
  | _, item => itemStart key item

def itemsFrom : Option (Owed × List β) → List β → List (Char × List β)
  | none, [] => []
  | some _, [] => [(replacement, [])]
  | state, item :: rest => (itemStep key state item).1 ++ itemsFrom (itemStep key state item).2 rest

/-- The characters of a text read lossily, each with the items it was read from. -/
def lossyItems (items : List β) : List (Char × List β) := itemsFrom key none items

variable {key} {state : Option (Owed × List β)} {item : β} {items front back : List β}

theorem itemsFrom_cons : itemsFrom key state (item :: items) =
    (itemStep key state item).1 ++ itemsFrom key (itemStep key state item).2 items := by
  cases state <;> rfl

theorem map_fst_itemStart : (itemStart key item).1.map Prod.fst = (lossyStart (key item).toNat).1 ∧
    (itemStart key item).2.map Prod.fst = (lossyStart (key item).toNat).2 := by
  unfold itemStart lossyStart
  split_ifs
  · exact ⟨rfl, rfl⟩
  · cases lead (key item).toNat <;> exact ⟨rfl, rfl⟩

theorem map_fst_itemStep (state : Option (Owed × List β)) (item : β) : (itemStep key state item).1.map Prod.fst =
      (lossyStep (state.map Prod.fst) (key item).toNat).1 ∧
    (itemStep key state item).2.map Prod.fst = (lossyStep (state.map Prod.fst) (key item).toNat).2 := by
  rcases state with _ | ⟨⟨value, _ | ⟨⟨low, high⟩, ranges⟩⟩, begun⟩
  · exact map_fst_itemStart
  · exact map_fst_itemStart
  · simp only [itemStep, lossyStep, Option.map_some]
    split_ifs
    · exact ⟨rfl, rfl⟩
    · exact ⟨rfl, rfl⟩
    · exact ⟨congrArg (replacement :: ·) map_fst_itemStart.1, map_fst_itemStart.2⟩

/-- What the items carry does not matter to the text. -/
theorem map_fst_itemsFrom (state : Option (Owed × List β)) (items : List β) :
    (itemsFrom key state items).map Prod.fst =
      decodeLossyFrom (state.map Prod.fst) (items.map key) := by
  induction items generalizing state with
  | nil => cases state <;> rfl
  | cons item items ih =>
    have read : decodeLossyFrom (state.map Prod.fst) (key item :: items.map key) =
        (lossyStep (state.map Prod.fst) (key item).toNat).1 ++
          decodeLossyFrom (lossyStep (state.map Prod.fst) (key item).toNat).2 (items.map key) := by
      cases state <;> rfl
    obtain ⟨given, next⟩ := (map_fst_itemStep state item :
      (itemStep key state item).1.map Prod.fst = _ ∧ _)
    rw [itemsFrom_cons, List.map_append, ih, given, next, List.map_cons, read]

theorem map_fst_lossyItems (items : List β) :
    (lossyItems key items).map Prod.fst = decodeLossy (items.map key) := map_fst_itemsFrom none items

/-- A byte that begins a character. -/
def Begins (byte : ℕ) : Prop := byte < 0x80 ∨ (lead byte).isSome

/-- Only bytes that begin no character are owed. -/
def Continued (state : Option (Owed × List β)) : Prop :=
  ∀ value ranges begun, state = some ((value, ranges), begun) →
    ranges ≠ [] ∧ ∀ range ∈ ranges, 0x80 ≤ range.1 ∧ range.2 ≤ 0xBF

theorem continued_none : Continued (none : Option (Owed × List β)) := nofun

theorem lead_ranges {byte value : ℕ} {ranges : List (ℕ × ℕ)} (leads : lead byte = some (value, ranges)) :
    0xC2 ≤ byte ∧ ranges ≠ [] ∧ ∀ range ∈ ranges, 0x80 ≤ range.1 ∧ range.2 ≤ 0xBF := by
  unfold lead at leads
  split_ifs at leads
  all_goals
    cases leads
    exact ⟨by omega, List.cons_ne_nil _ _, by simp⟩

theorem not_begins_of_range {byte : ℕ} {range : ℕ × ℕ} (bounds : 0x80 ≤ range.1 ∧ range.2 ≤ 0xBF)
    (inside : range.1 ≤ byte ∧ byte ≤ range.2) : ¬Begins byte := by
  rintro (ascii | leads)
  · omega
  · obtain ⟨⟨value, ranges⟩, leads⟩ := Option.isSome_iff_exists.mp leads
    have := (lead_ranges leads).1
    omega

theorem continued_itemStart : Continued (itemStart key item).2 := by
  unfold itemStart
  split_ifs
  · exact continued_none
  · rcases leads : lead (key item).toNat with _ | ⟨value, ranges⟩
    · exact continued_none
    · rintro _ _ _ same
      cases same
      exact (lead_ranges leads).2

theorem Continued.step (continued : Continued state) (item : β) : Continued (itemStep key state item).2 := by
  rcases state with _ | ⟨⟨value, _ | ⟨⟨low, high⟩, ranges⟩⟩, begun⟩
  · exact continued_itemStart
  · exact continued_itemStart
  · obtain ⟨-, bounds⟩ := continued _ _ _ rfl
    simp only [itemStep]
    split_ifs with inside last
    · exact continued_none
    · rintro _ _ _ same
      cases same
      exact ⟨last, fun range member => bounds range (List.mem_cons_of_mem _ member)⟩
    · exact continued_itemStart

/-- A byte that begins a character ends the one before it, whole or not. -/
theorem itemsFrom_begins (continued : Continued state) (begins : Begins (key item).toNat) :
    itemsFrom key state (item :: items) = itemsFrom key state [] ++ lossyItems key (item :: items) := by
  rcases state with _ | ⟨⟨value, ranges⟩, begun⟩
  · rfl
  · obtain ⟨filled, bounds⟩ := continued _ _ _ rfl
    obtain ⟨⟨low, high⟩, rest, rfl⟩ := List.exists_cons_of_ne_nil filled
    have outside : ¬(low ≤ (key item).toNat ∧ (key item).toNat ≤ high) :=
      fun inside => not_begins_of_range (bounds _ List.mem_cons_self) inside begins
    rw [lossyItems, itemsFrom_cons, itemsFrom_cons, itemStep, if_neg outside]
    rfl

/-- A text is read in two where a byte begins a character. -/
theorem itemsFrom_append (continued : Continued state) (front : List β)
    (begins : Begins (key item).toNat) : itemsFrom key state (front ++ item :: items) =
      itemsFrom key state front ++ lossyItems key (item :: items) := by
  induction front generalizing state with
  | nil => exact itemsFrom_begins continued begins
  | cons first front ih =>
    rw [List.cons_append, itemsFrom_cons, itemsFrom_cons, ih (continued.step first), List.append_assoc]

section Characters

variable {value : ℕ}

theorem lead_two (above : 0x80 ≤ value) (below : value ≤ 0x7FF) :
    lead (value / 64 % 32 + 192) = some (value / 64, [(0x80, 0xBF)]) := by
  have byte : 0xC2 ≤ value / 64 % 32 + 192 ∧ value / 64 % 32 + 192 ≤ 0xDF := by omega
  rw [lead, if_pos byte]
  congr 2
  omega

/-- Three bytes spell no surrogate and nothing that two spell. -/
theorem lead_three (above : 0x800 ≤ value) (below : value ≤ 0xFFFF)
    (valid : value < 0xD800 ∨ 0xDFFF < value) : ∃ low high,
    lead (value / 4096 % 16 + 224) = some (value / 4096, [(low, high), (0x80, 0xBF)]) ∧
      low ≤ value / 64 % 64 + 128 ∧ value / 64 % 64 + 128 ≤ high := by
  unfold lead
  rw [if_neg (by omega)]
  by_cases first : value / 4096 % 16 + 224 = 0xE0
  · refine ⟨0xA0, 0xBF, ?_, by omega, by omega⟩
    rw [if_pos first]
    congr 2
    omega
  · rw [if_neg first]
    by_cases surrogates : value / 4096 % 16 + 224 = 0xED
    · refine ⟨0x80, 0x9F, ?_, by omega, by omega⟩
      rw [if_pos surrogates]
      congr 2
      omega
    · refine ⟨0x80, 0xBF, ?_, by omega, by omega⟩
      rw [if_neg surrogates, if_pos (by omega)]
      congr 2
      omega

/-- Four bytes spell nothing that three spell and nothing beyond the last character. -/
theorem lead_four (above : 0xFFFF < value) (below : value ≤ 0x10FFFF) : ∃ low high,
    lead (value / 262144 % 8 + 240) = some (value / 262144, [(low, high), (0x80, 0xBF), (0x80, 0xBF)]) ∧
      low ≤ value / 4096 % 64 + 128 ∧ value / 4096 % 64 + 128 ≤ high := by
  unfold lead
  rw [if_neg (by omega), if_neg (by omega), if_neg (by omega), if_neg (by omega)]
  by_cases first : value / 262144 % 8 + 240 = 0xF0
  · refine ⟨0x90, 0xBF, ?_, by omega, by omega⟩
    rw [if_pos first]
    congr 2
    omega
  · rw [if_neg first]
    by_cases middle : 0xF1 ≤ value / 262144 % 8 + 240 ∧ value / 262144 % 8 + 240 ≤ 0xF3
    · refine ⟨0x80, 0xBF, ?_, by omega, by omega⟩
      rw [if_pos middle]
      congr 2
      omega
    · refine ⟨0x80, 0x8F, ?_, by omega, by omega⟩
      rw [if_neg middle, if_pos (by omega)]
      congr 2
      omega

theorem itemStep_none : itemStep key none item = itemStart key item := rfl

theorem itemStart_ascii (ascii : (key item).toNat < 0x80) :
    itemStart key item = ([(Char.ofNat (key item).toNat, [item])], none) := if_pos ascii

theorem itemStart_lead {owed : Owed} (leads : lead (key item).toNat = some owed) :
    itemStart key item = ([], some (owed, [item])) := by
  obtain ⟨value, ranges⟩ := owed
  have above := (lead_ranges leads).1
  rw [itemStart, if_neg (by omega), leads]

theorem itemStart_replaced (above : ¬(key item).toNat < 0x80) (leads : lead (key item).toNat = none) :
    itemStart key item = ([(replacement, [])], none) := by
  rw [itemStart, if_neg above, leads]

theorem itemStep_more {low high : ℕ} {range : ℕ × ℕ} {ranges : List (ℕ × ℕ)} {begun : List β}
    (above : low ≤ (key item).toNat) (below : (key item).toNat ≤ high) :
    itemStep key (some ((value, (low, high) :: range :: ranges), begun)) item =
      ([], some ((value * 64 + (key item).toNat % 64, range :: ranges), begun ++ [item])) := by
  rw [itemStep]
  exact (if_pos ⟨above, below⟩).trans (if_neg (List.cons_ne_nil _ _))

theorem itemStep_last {low high : ℕ} {begun : List β} (above : low ≤ (key item).toNat)
    (below : (key item).toNat ≤ high) : itemStep key (some ((value, [(low, high)]), begun)) item =
      ([(Char.ofNat (value * 64 + (key item).toNat % 64), begun ++ [item])], none) := by
  rw [itemStep]
  exact (if_pos ⟨above, below⟩).trans (if_pos rfl)

/-- The bytes of a character are read as it. -/
theorem lossyItems_character {character : Char} {items : List β}
    (bytes : items.map key = String.utf8EncodeChar character) (back : List β) :
    lossyItems key (items ++ back) = (character, items) :: lossyItems key back := by
  have same : Char.ofNat character.val.toNat = character := Char.ofNat_toNat character
  have bound : character.val.toNat ≤ 0x10FFFF ∧
      (character.val.toNat < 0xD800 ∨ 0xDFFF < character.val.toNat) := by
    rcases character.valid with low | high
    · change character.val.toNat < 0xD800 at low
      omega
    · change 0xDFFF < character.val.toNat ∧ character.val.toNat < 0x110000 at high
      omega
  obtain ⟨below, valid⟩ := bound
  unfold String.utf8EncodeChar at bytes
  dsimp only at bytes
  generalize character.val.toNat = value at *
  split_ifs at bytes with one two three
  · obtain ⟨first, rest, rfl, head, tail⟩ := List.map_eq_cons_iff.mp bytes
    obtain rfl := List.map_eq_nil_iff.mp tail
    have spelt : (key first).toNat = value := by rw [head, UInt8.toNat_ofNat']; omega
    rw [lossyItems, List.singleton_append, itemsFrom_cons, itemStep_none, itemStart_ascii (by omega), spelt, same]
    rfl
  · obtain ⟨first, rest, rfl, head, tail⟩ := List.map_eq_cons_iff.mp bytes
    obtain ⟨second, rest, rfl, next, tail⟩ := List.map_eq_cons_iff.mp tail
    obtain rfl := List.map_eq_nil_iff.mp tail
    have leads : lead (key first).toNat = some (value / 64, [(0x80, 0xBF)]) := by
      rw [head, UInt8.toNat_ofNat', ← lead_two (by omega) two]
      congr 1
      omega
    have spelt : (key second).toNat = value % 64 + 128 := by rw [next, UInt8.toNat_ofNat']; omega
    have whole : value / 64 * 64 + (value % 64 + 128) % 64 = value := by omega
    change lossyItems key (first :: second :: back) = _
    rw [lossyItems, itemsFrom_cons, itemStep_none, itemStart_lead leads, itemsFrom_cons,
      itemStep_last (by omega) (by omega), spelt, whole, same]
    rfl
  · obtain ⟨first, rest, rfl, head, tail⟩ := List.map_eq_cons_iff.mp bytes
    obtain ⟨second, rest, rfl, next, tail⟩ := List.map_eq_cons_iff.mp tail
    obtain ⟨third, rest, rfl, last, tail⟩ := List.map_eq_cons_iff.mp tail
    obtain rfl := List.map_eq_nil_iff.mp tail
    obtain ⟨low, high, leads, above, under⟩ := lead_three (by omega) three valid
    have leads : lead (key first).toNat = some (value / 4096, [(low, high), (0x80, 0xBF)]) := by
      rw [head, UInt8.toNat_ofNat', ← leads]
      congr 1
      omega
    have spelt : (key second).toNat = value / 64 % 64 + 128 := by rw [next, UInt8.toNat_ofNat']; omega
    have spelt' : (key third).toNat = value % 64 + 128 := by rw [last, UInt8.toNat_ofNat']; omega
    have whole : (value / 4096 * 64 + (value / 64 % 64 + 128) % 64) * 64 + (value % 64 + 128) % 64 = value := by
      omega
    change lossyItems key (first :: second :: third :: back) = _
    rw [lossyItems, itemsFrom_cons, itemStep_none, itemStart_lead leads, itemsFrom_cons,
      itemStep_more (by omega) (by omega), itemsFrom_cons, itemStep_last (by omega) (by omega), spelt,
      spelt', whole, same]
    rfl
  · obtain ⟨first, rest, rfl, head, tail⟩ := List.map_eq_cons_iff.mp bytes
    obtain ⟨second, rest, rfl, next, tail⟩ := List.map_eq_cons_iff.mp tail
    obtain ⟨third, rest, rfl, after_, tail⟩ := List.map_eq_cons_iff.mp tail
    obtain ⟨fourth, rest, rfl, last, tail⟩ := List.map_eq_cons_iff.mp tail
    obtain rfl := List.map_eq_nil_iff.mp tail
    obtain ⟨low, high, leads, above, under⟩ := lead_four (by omega) below
    have leads : lead (key first).toNat =
        some (value / 262144, [(low, high), (0x80, 0xBF), (0x80, 0xBF)]) := by
      rw [head, UInt8.toNat_ofNat', ← leads]
      congr 1
      omega
    have spelt : (key second).toNat = value / 4096 % 64 + 128 := by rw [next, UInt8.toNat_ofNat']; omega
    have spelt' : (key third).toNat = value / 64 % 64 + 128 := by rw [after_, UInt8.toNat_ofNat']; omega
    have spelt'' : (key fourth).toNat = value % 64 + 128 := by rw [last, UInt8.toNat_ofNat']; omega
    have whole : ((value / 262144 * 64 + (value / 4096 % 64 + 128) % 64) * 64 +
        (value / 64 % 64 + 128) % 64) * 64 + (value % 64 + 128) % 64 = value := by omega
    change lossyItems key (first :: second :: third :: fourth :: back) = _
    rw [lossyItems, itemsFrom_cons, itemStep_none, itemStart_lead leads, itemsFrom_cons,
      itemStep_more (by omega) (by omega), itemsFrom_cons, itemStep_more (by omega) (by omega),
      itemsFrom_cons, itemStep_last (by omega) (by omega), spelt, spelt', spelt'', whole, same]
    rfl

/-- A text is read as it is. -/
theorem decodeLossy_encode (text : List Char) : decodeLossy (encode text) = text := by
  have read : (lossyItems id (encode text)).map Prod.fst = text := by
    induction text with
    | nil => rfl
    | cons character text ih =>
      change (lossyItems id (String.utf8EncodeChar character ++ encode text)).map Prod.fst = _
      rw [lossyItems_character (List.map_id _), List.map_cons, ih]
  rwa [map_fst_lossyItems, List.map_id] at read

/-- The first byte of a character begins it. -/
theorem begins_of_character {character : Char} {items : List β}
    (bytes : (item :: items).map key = String.utf8EncodeChar character) : Begins (key item).toNat := by
  have read := lossyItems_character bytes []
  by_contra stuck
  obtain ⟨low, leads⟩ := not_or.mp stuck
  have none_ : lead (key item).toNat = none := Option.not_isSome_iff_eq_none.mp leads
  rw [List.append_nil, lossyItems, itemsFrom_cons, itemStep_none, itemStart_replaced low none_] at read
  cases read

/-- The bytes of a text are read as it wherever they stand. -/
theorem lossyItems_text {text : List Char} (filled : text ≠ []) {middle : List β}
    (bytes : middle.map key = encode text) (front back : List β) : ∃ read : List (Char × List β),
      lossyItems key (front ++ middle ++ back) =
        lossyItems key front ++ read ++ lossyItems key back ∧
      read.map Prod.fst = text ∧ read.flatMap Prod.snd = middle ∧ ∀ char ∈ read, char.2 ≠ [] := by
  have whole : ∃ read : List (Char × List β),
      lossyItems key (middle ++ back) = read ++ lossyItems key back ∧
        read.map Prod.fst = text ∧ read.flatMap Prod.snd = middle ∧ ∀ char ∈ read, char.2 ≠ [] := by
    clear filled
    induction text generalizing middle with
    | nil =>
      obtain rfl := List.map_eq_nil_iff.mp bytes
      exact ⟨[], rfl, rfl, rfl, nofun⟩
    | cons character text ih =>
      obtain ⟨first, rest, rfl, here, there⟩ := List.map_eq_append_iff.mp bytes
      obtain ⟨read, same, chars, items, some_⟩ := ih there
      have first_ : first ≠ [] := by
        rintro rfl
        exact String.utf8EncodeChar_ne_nil here.symm
      refine ⟨(character, first) :: read, ?_, ?_, ?_, List.forall_mem_cons.mpr ⟨first_, some_⟩⟩
      · rw [List.append_assoc, lossyItems_character here, same, List.cons_append]
      · rw [List.map_cons, chars]
      · rw [List.flatMap_cons, items]
  obtain ⟨read, same, chars, items, some_⟩ := whole
  refine ⟨read, ?_, chars, items, some_⟩
  obtain ⟨character, rest, rfl⟩ := List.exists_cons_of_ne_nil filled
  obtain ⟨first, others, rfl, here, there⟩ := List.map_eq_append_iff.mp bytes
  obtain ⟨lead_, first, rfl⟩ := List.exists_cons_of_ne_nil (l := first) (by
    rintro rfl
    exact String.utf8EncodeChar_ne_nil here.symm)
  have begins : Begins (key lead_).toNat := begins_of_character here
  rw [List.append_assoc (lossyItems key front), ← same, List.append_assoc front]
  exact itemsFrom_append continued_none front begins

end Characters

/-- One item lies in each range. -/
def Fits (key : β → UInt8) : List (ℕ × ℕ) → List β → Prop
  | [], items => items = []
  | range :: ranges, items => ∃ item rest, items = item :: rest ∧ range.1 ≤ (key item).toNat ∧
      (key item).toNat ≤ range.2 ∧ Fits key ranges rest

/-- The value that further items make of the one so far. -/
def extended (key : β → UInt8) (value : ℕ) (items : List β) : ℕ :=
  items.foldl (fun value item => value * 64 + (key item).toNat % 64) value

/-- Whatever items fit what is owed, they are the bytes of the character with those before them. -/
def Spelt (key : β → UInt8) (owed : Owed) (begun : List β) : Prop :=
  ∀ items, Fits key owed.2 items → (begun ++ items).map key =
    String.utf8EncodeChar (Char.ofNat (extended key owed.1 items))

section Spelling

variable {value : ℕ}

theorem toNat_ofNat (valid : value < 0xD800 ∨ 0xDFFF < value ∧ value < 0x110000) :
    (Char.ofNat value).val.toNat = value := by
  have whole : value.isValidChar := valid
  rw [Char.ofNat, dif_pos whole]
  rfl

theorem utf8EncodeChar_ascii {byte : UInt8} (ascii : byte.toNat < 0x80) :
    String.utf8EncodeChar (Char.ofNat byte.toNat) = [byte] := by
  unfold String.utf8EncodeChar
  dsimp only
  rw [toNat_ofNat (.inl (by omega)), if_pos (by omega), UInt8.ofNat_toNat]

theorem byte_eq (byte : UInt8) {number : ℕ} (same : number % 256 = byte.toNat) :
    UInt8.ofNat number = byte := UInt8.toNat_inj.mp (by rw [UInt8.toNat_ofNat', same])

theorem utf8EncodeChar_two {first second : UInt8}
    (lead : 0xC2 ≤ first.toNat ∧ first.toNat ≤ 0xDF)
    (more : 0x80 ≤ second.toNat ∧ second.toNat ≤ 0xBF) :
    String.utf8EncodeChar (Char.ofNat (first.toNat % 32 * 64 + second.toNat % 64)) =
      [first, second] := by
  unfold String.utf8EncodeChar
  dsimp only
  rw [toNat_ofNat (.inl (by omega)), if_neg (by omega), if_pos (by omega), byte_eq first (by omega),
    byte_eq second (by omega)]

theorem utf8EncodeChar_three (first second third : UInt8)
    (lead : 0xE0 ≤ first.toNat ∧ first.toNat ≤ 0xEF)
    (more : 0x80 ≤ second.toNat ∧ second.toNat ≤ 0xBF)
    (last : 0x80 ≤ third.toNat ∧ third.toNat ≤ 0xBF)
    (long : first.toNat = 0xE0 → 0xA0 ≤ second.toNat)
    (valid : first.toNat = 0xED → second.toNat ≤ 0x9F) :
    String.utf8EncodeChar (Char.ofNat
      ((first.toNat % 16 * 64 + second.toNat % 64) * 64 + third.toNat % 64)) =
      [first, second, third] := by
  unfold String.utf8EncodeChar
  dsimp only
  rw [toNat_ofNat (by omega), if_neg (by omega), if_neg (by omega), if_pos (by omega),
    byte_eq first (by omega), byte_eq second (by omega),
    byte_eq third (by omega)]

theorem utf8EncodeChar_four (first second third fourth : UInt8)
    (lead : 0xF0 ≤ first.toNat ∧ first.toNat ≤ 0xF4)
    (more : 0x80 ≤ second.toNat ∧ second.toNat ≤ 0xBF)
    (third_ : 0x80 ≤ third.toNat ∧ third.toNat ≤ 0xBF)
    (last : 0x80 ≤ fourth.toNat ∧ fourth.toNat ≤ 0xBF)
    (long : first.toNat = 0xF0 → 0x90 ≤ second.toNat)
    (valid : first.toNat = 0xF4 → second.toNat ≤ 0x8F) :
    String.utf8EncodeChar (Char.ofNat
      (((first.toNat % 8 * 64 + second.toNat % 64) * 64 + third.toNat % 64) * 64 +
        fourth.toNat % 64)) = [first, second, third, fourth] := by
  unfold String.utf8EncodeChar
  dsimp only
  rw [toNat_ofNat (by omega), if_neg (by omega), if_neg (by omega), if_neg (by omega),
    byte_eq first (by omega), byte_eq second (by omega),
    byte_eq third (by omega), byte_eq fourth (by omega)]

/-- What a byte begins is spelt by the bytes that fit. -/
theorem spelt_lead {owed : Owed} (leads : lead (key item).toNat = some owed) : Spelt key owed [item] := by
  have three {value low high : ℕ} (same : (key item).toNat % 16 = value)
      (lead : 0xE0 ≤ (key item).toNat ∧ (key item).toNat ≤ 0xEF) (within : 0x80 ≤ low ∧ high ≤ 0xBF)
      (long : (key item).toNat = 0xE0 → 0xA0 ≤ low) (valid : (key item).toNat = 0xED → high ≤ 0x9F) :
      Spelt key (value, [(low, high), (0x80, 0xBF)]) [item] := by
    rintro _ ⟨second, _, rfl, above, below, third, _, rfl, above_, below_, rfl⟩
    dsimp only at above below
    have spelt := utf8EncodeChar_three (key item) (key second) (key third) lead
      (by omega) ⟨above_, below_⟩ (by omega) (by omega)
    rw [same] at spelt
    exact spelt.symm
  have four {value low high : ℕ} (same : (key item).toNat % 8 = value)
      (lead : 0xF0 ≤ (key item).toNat ∧ (key item).toNat ≤ 0xF4) (within : 0x80 ≤ low ∧ high ≤ 0xBF)
      (long : (key item).toNat = 0xF0 → 0x90 ≤ low) (valid : (key item).toNat = 0xF4 → high ≤ 0x8F) :
      Spelt key (value, [(low, high), (0x80, 0xBF), (0x80, 0xBF)]) [item] := by
    rintro _ ⟨second, _, rfl, above, below, third, _, rfl, above_, below_, fourth, _, rfl, low', high',
      rfl⟩
    dsimp only at above below
    have spelt := utf8EncodeChar_four (key item) (key second) (key third) (key fourth) lead
      (by omega) ⟨above_, below_⟩ ⟨low', high'⟩ (by omega) (by omega)
    rw [same] at spelt
    exact spelt.symm
  unfold lead at leads
  split_ifs at leads with two
  all_goals cases leads
  · rintro _ ⟨second, _, rfl, above, below, rfl⟩
    exact (utf8EncodeChar_two two ⟨above, below⟩).symm
  · exact three (by omega) (by omega) (by omega) (by omega) (by omega)
  · exact three (by omega) (by omega) (by omega) (by omega) (by omega)
  · exact three rfl (by omega) (by omega) (by omega) (by omega)
  · exact four (by omega) (by omega) (by omega) (by omega) (by omega)
  · exact four rfl (by omega) (by omega) (by omega) (by omega)
  · exact four (by omega) (by omega) (by omega) (by omega) (by omega)

end Spelling

/-- Characters read from items in turn: each has the bytes it was read from, or replaces some. -/
inductive Reads (key : β → UInt8) : List (Char × List β) → List β → Prop
  | nil : Reads key [] []
  | spelt {character : Char} {items rest : List β} {chars : List (Char × List β)}
      (bytes : items.map key = String.utf8EncodeChar character) (reads : Reads key chars rest) :
      Reads key ((character, items) :: chars) (items ++ rest)
  | replaced (items : List β) {rest : List β} {chars : List (Char × List β)}
      (reads : Reads key chars rest) : Reads key ((replacement, []) :: chars) (items ++ rest)

/-- What was begun is spelt by the bytes that fit. -/
def Begun (key : β → UInt8) (state : Option (Owed × List β)) : Prop :=
  ∀ owed begun, state = some (owed, begun) → owed.2 ≠ [] ∧ Spelt key owed begun

section Reads

variable {chars : List (Char × List β)}

theorem reads_itemStart (item : β) : Begun key (itemStart key item).2 ∧ ∃ consumed,
    consumed ++ ((itemStart key item).2.elim [] Prod.snd) = [item] ∧
      ∀ chars rest, Reads key chars rest →
        Reads key ((itemStart key item).1 ++ chars) (consumed ++ rest) := by
  unfold itemStart
  split_ifs with ascii
  · exact ⟨nofun, [item], rfl, fun _ _ reads => .spelt (utf8EncodeChar_ascii ascii).symm reads⟩
  · rcases leads : lead (key item).toNat with _ | owed
    · exact ⟨nofun, [item], rfl, fun _ _ reads => .replaced [item] reads⟩
    · refine ⟨?_, [], rfl, fun _ _ reads => reads⟩
      rintro _ _ same
      cases same
      exact ⟨(lead_ranges leads).2.1, spelt_lead leads⟩

theorem reads_itemStep (start : Begun key state) (item : β) : Begun key (itemStep key state item).2 ∧
    ∃ consumed, consumed ++ ((itemStep key state item).2.elim [] Prod.snd) =
        state.elim [] Prod.snd ++ [item] ∧
      ∀ chars rest, Reads key chars rest →
        Reads key ((itemStep key state item).1 ++ chars) (consumed ++ rest) := by
  rcases state with _ | ⟨⟨value, _ | ⟨⟨low, high⟩, ranges⟩⟩, begun⟩
  · exact reads_itemStart item
  · exact absurd rfl (start _ _ rfl).1
  · obtain ⟨-, spelt⟩ := start _ _ rfl
    simp only [itemStep]
    split_ifs with inside last
    · subst last
      exact ⟨nofun, begun ++ [item], List.append_nil _, fun _ _ reads =>
        .spelt (spelt [item] ⟨item, [], rfl, inside.1, inside.2, rfl⟩) reads⟩
    · refine ⟨?_, [], rfl, fun _ _ reads => reads⟩
      rintro _ _ same
      cases same
      refine ⟨last, fun items fits => ?_⟩
      have whole := spelt (item :: items) ⟨item, items, rfl, inside.1, inside.2, fits⟩
      rwa [← List.append_cons]
    · obtain ⟨begins, consumed, same, read⟩ := (reads_itemStart item : Begun key _ ∧ _)
      refine ⟨begins, begun ++ consumed, ?_, fun chars rest reads => ?_⟩
      · rw [List.append_assoc, same]
        rfl
      · rw [List.append_assoc]
        exact .replaced begun (read chars rest reads)

theorem reads_itemsFrom (start : Begun key state) (items : List β) :
    Reads key (itemsFrom key state items) (state.elim [] Prod.snd ++ items) := by
  induction items generalizing state with
  | nil =>
    rcases state with _ | ⟨owed, begun⟩
    · exact .nil
    · exact .replaced begun .nil
  | cons item items ih =>
    obtain ⟨next, consumed, same, read⟩ := reads_itemStep start item
    rw [itemsFrom_cons, List.append_cons, ← same, List.append_assoc]
    exact read _ _ (ih next)

theorem reads_lossyItems (key : β → UInt8) (items : List β) :
    Reads key (lossyItems key items) items := by
  have start : Begun key none := nofun
  exact reads_itemsFrom start items

/-- The items of what is read stand in the order they were given. -/
theorem Reads.sublist (reads : Reads key chars items) : (chars.flatMap Prod.snd).Sublist items := by
  induction reads with
  | nil => exact List.Sublist.refl _
  | spelt _ _ ih => exact List.Sublist.append (List.Sublist.refl _) ih
  | replaced items _ ih => exact ih.trans (List.sublist_append_right items _)

theorem Reads.split {before after : List (Char × List β)} (reads : Reads key (before ++ after) items) :
    ∃ front back, items = front ++ back ∧ Reads key before front ∧ Reads key after back := by
  induction before generalizing items with
  | nil => exact ⟨[], items, rfl, .nil, reads⟩
  | cons char before ih =>
    cases reads with
    | spelt bytes reads =>
      obtain ⟨front, back, rfl, first, second⟩ := ih reads
      exact ⟨_, back, (List.append_assoc _ _ _).symm, .spelt bytes first, second⟩
    | replaced part reads =>
      obtain ⟨front, back, rfl, first, second⟩ := ih reads
      exact ⟨_, back, (List.append_assoc _ _ _).symm, .replaced part first, second⟩

/-- Where nothing is replaced, the characters have all the bytes. -/
theorem Reads.plain (reads : Reads key chars items) (plain : replacement ∉ chars.map Prod.fst) :
    chars.flatMap Prod.snd = items ∧ items.map key = encode (chars.map Prod.fst) := by
  induction reads with
  | nil => exact ⟨rfl, rfl⟩
  | spelt bytes _ ih =>
    obtain ⟨same, spelt⟩ := ih fun member => plain (List.mem_cons_of_mem _ member)
    rw [List.flatMap_cons, same, List.map_append, bytes, spelt]
    exact ⟨rfl, rfl⟩
  | replaced => exact absurd List.mem_cons_self plain

end Reads

end Utf8
