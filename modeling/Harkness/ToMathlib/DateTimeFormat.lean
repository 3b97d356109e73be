import Harkness.ToMathlib.DateTime

/-! # Dates and times by a format description

A format description is a list of items, and a library writes and reads a date and a time by it, one item
behind the other. A description that has every part in a fixed width, largest first, spells an instant so
that it is read back and that texts come in the order of the instants.
-/

namespace DateTime

open FixedWidth

/-- A part of a date and a time that a description names. -/
inductive Component where
  | year
  | month
  | day
  | hour
  | minute
  | second
  | subsecond (digits : ℕ)
deriving DecidableEq, Repr

inductive FormatItem where
  | literal (character : Char)
  | component (component : Component)
deriving DecidableEq, Repr

open FormatItem in
/-- `[year]-[month]-[day]T[hour]:[minute]:[second].[subsecond digits:9]Z` -/
def timestampFormat : List FormatItem :=
  [component .year, literal '-', component .month, literal '-', component .day, literal 'T',
    component .hour, literal ':', component .minute, literal ':', component .second, literal '.',
    component (.subsecond 9), literal 'Z']

/-- A date and a time in their parts. -/
structure Parts where
  year : ℤ
  month : ℕ
  day : ℕ
  hour : ℕ
  minute : ℕ
  second : ℕ
  nanosecond : ℕ
deriving DecidableEq, Repr

def daysInMonth (leap : Bool) (month : ℕ) : ℤ := monthStart leap month - monthStart leap (month - 1)

namespace Parts

def unset : Parts := ⟨0, 0, 0, 0, 0, 0, 0⟩

/-- The date and the time of an instant in UTC. -/
def of (at_ : ℤ) : Parts :=
  let leap := isLeap (yearOf at_)
  let month := lastMark (monthStart leap) 11 (dayOfYear at_)
  let time := timeOfDay at_
  { year := yearOf at_
    month := month + 1
    day := (dayOfYear at_ - monthStart leap month + 1).toNat
    hour := time / (3600 * 10 ^ 9)
    minute := time % (3600 * 10 ^ 9) / (60 * 10 ^ 9)
    second := time % (3600 * 10 ^ 9) % (60 * 10 ^ 9) / 10 ^ 9
    nanosecond := time % (3600 * 10 ^ 9) % (60 * 10 ^ 9) % 10 ^ 9 }

/-- The instant that a date and a time in UTC are. -/
def instant (parts : Parts) : ℤ :=
  (yearStart parts.year + monthStart (isLeap parts.year) (parts.month - 1) + (parts.day - 1) - 719528) *
      nanosPerDay +
    ((parts.hour * 3600 + parts.minute * 60 + parts.second) * 10 ^ 9 + parts.nanosecond : ℕ)

/-- There is such a date and such a time. -/
structure Valid (parts : Parts) : Prop where
  year : parts.year.natAbs ≤ 9999
  month : 1 ≤ parts.month ∧ parts.month ≤ 12
  day : 1 ≤ parts.day ∧ (parts.day : ℤ) ≤ daysInMonth (isLeap parts.year) parts.month
  hour : parts.hour < 24
  minute : parts.minute < 60
  second : parts.second < 60
  nanosecond : parts.nanosecond < 10 ^ 9

end Parts

namespace FormatItem

/-- Every number is padded with zeros to its width; a year before the year 0 has a sign. -/
def text (parts : Parts) : FormatItem → List Char
  | literal character => [character]
  | component .year => yearText parts.year
  | component .month => spell 10 2 parts.month
  | component .day => spell 10 2 parts.day
  | component .hour => spell 10 2 parts.hour
  | component .minute => spell 10 2 parts.minute
  | component .second => spell 10 2 parts.second
  | component (.subsecond digits) => spell 10 digits (parts.nanosecond / 10 ^ (9 - digits))

def readYear : List Char → Option (ℤ × List Char)
  | '-' :: rest => (read 4 rest).map fun (year, rest) => (-(year : ℤ), rest)
  | text => (read 4 text).map fun (year, rest) => (year, rest)

/-- Reads one item off a text, and what is left behind it. -/
def readOff (parts : Parts) (text : List Char) : FormatItem → Option (Parts × List Char)
  | literal character =>
    match text with
    | first :: rest => if first = character then some (parts, rest) else none
    | [] => none
  | component .year => (readYear text).map fun (year, rest) => ({ parts with year }, rest)
  | component .month => (read 2 text).map fun (month, rest) => ({ parts with month }, rest)
  | component .day => (read 2 text).map fun (day, rest) => ({ parts with day }, rest)
  | component .hour => (read 2 text).map fun (hour, rest) => ({ parts with hour }, rest)
  | component .minute => (read 2 text).map fun (minute, rest) => ({ parts with minute }, rest)
  | component .second => (read 2 text).map fun (second, rest) => ({ parts with second }, rest)
  | component (.subsecond digits) =>
    (read digits text).map fun (value, rest) =>
      ({ parts with nanosecond := value * 10 ^ (9 - digits) }, rest)

end FormatItem

/-- Reads all items off a text that ends with the last of them. -/
def readItems : List FormatItem → Parts → List Char → Option Parts
  | [], parts, [] => some parts
  | [], _, _ :: _ => none
  | item :: items, parts, text =>
    (item.readOff parts text).bind fun (parts, rest) => readItems items parts rest

section Parts

variable {at_ later : ℤ} {parts : Parts}

/-- A year has as many days as its months. -/
theorem yearStart_succ (year : ℤ) :
    yearStart (year + 1) = yearStart year + monthStart (isLeap year) 12 := by
  have leap : monthStart (isLeap year) 12 = 365 + if isLeap year then 1 else 0 := by
    cases isLeap year <;> rfl
  rw [leap]
  by_cases divides : isLeap year = true
  · rw [if_pos divides]
    simp only [isLeap, Bool.and_eq_true, Bool.or_eq_true, decide_eq_true_eq] at divides
    unfold yearStart
    omega
  · rw [if_neg divides]
    simp only [isLeap, Bool.and_eq_true, Bool.or_eq_true, decide_eq_true_eq] at divides
    unfold yearStart
    omega

theorem monthStart_le_dayOfYear (known : Representable at_) :
    monthStart (isLeap (yearOf at_)) (lastMark (monthStart (isLeap (yearOf at_))) 11 (dayOfYear at_)) ≤
      dayOfYear at_ := by
  have start : monthStart (isLeap (yearOf at_)) 0 = 0 := by cases isLeap (yearOf at_) <;> rfl
  exact mark_lastMark _ 11 (start ▸ (dayOfYear_bounds known).1)

/-- A day is before the next month. -/
theorem dayOfYear_lt_next (known : Representable at_) : dayOfYear at_ <
    monthStart (isLeap (yearOf at_)) (lastMark (monthStart (isLeap (yearOf at_))) 11
      (dayOfYear at_) + 1) := by
  have most : lastMark (monthStart (isLeap (yearOf at_))) 11 (dayOfYear at_) ≤ 11 := Nat.findGreatest_le 11
  rcases most.lt_or_eq with inside | end_
  · exact lt_mark_succ _ inside
  · have next := dayOf_lt_next known
    rw [yearStart_succ] at next
    rw [end_]
    change dayOf at_ - yearStart (yearOf at_) < monthStart (isLeap (yearOf at_)) 12
    omega

theorem valid_of (known : Representable at_) : (Parts.of at_).Valid where
  year := by
    have bounds := yearOf_bounds at_
    change (yearOf at_).natAbs ≤ 9999
    omega
  month := by
    have most : lastMark (monthStart (isLeap (yearOf at_))) 11 (dayOfYear at_) ≤ 11 :=
      Nat.findGreatest_le 11
    exact ⟨Nat.le_add_left _ _, Nat.succ_le_succ most⟩
  day := by
    have begun := monthStart_le_dayOfYear known
    have running := dayOfYear_lt_next known
    have same : daysInMonth (isLeap (yearOf at_)) (Parts.of at_).month = _ - _ := rfl
    change 1 ≤ (dayOfYear at_ - _ + 1).toNat ∧ ((dayOfYear at_ - _ + 1).toNat : ℤ) ≤ _
    rw [Parts.of, daysInMonth]
    dsimp only
    rw [Nat.add_sub_cancel]
    omega
  hour := by
    change timeOfDay at_ / (3600 * 10 ^ 9) < 24
    unfold timeOfDay nanosPerDay
    omega
  minute := by
    change timeOfDay at_ % (3600 * 10 ^ 9) / (60 * 10 ^ 9) < 60
    omega
  second := by
    change timeOfDay at_ % (3600 * 10 ^ 9) % (60 * 10 ^ 9) / 10 ^ 9 < 60
    omega
  nanosecond := Nat.mod_lt _ (by decide)

/-- A date and a time in UTC are one instant's. -/
theorem instant_of (known : Representable at_) : (Parts.of at_).instant = at_ := by
  have begun := monthStart_le_dayOfYear known
  have time : ((Parts.of at_).hour * 3600 + (Parts.of at_).minute * 60 +
      (Parts.of at_).second) * 10 ^ 9 + (Parts.of at_).nanosecond = timeOfDay at_ := by
    simp only [Parts.of]
    omega
  have day : yearStart (Parts.of at_).year +
      monthStart (isLeap (Parts.of at_).year) ((Parts.of at_).month - 1) +
      ((Parts.of at_).day - 1) = dayOf at_ := by
    simp only [Parts.of, Nat.add_sub_cancel]
    unfold dayOfYear at begun ⊢
    omega
  have within : (timeOfDay at_ : ℤ) = at_ % nanosPerDay :=
    Int.toNat_of_nonneg (Int.emod_nonneg at_ (by decide))
  calc (Parts.of at_).instant
    _ = (dayOf at_ - 719528) * nanosPerDay + (timeOfDay at_ : ℤ) := by rw [Parts.instant, time, day]
    _ = nanosPerDay * (at_ / nanosPerDay) + at_ % nanosPerDay := by rw [dayOf, within,
      Int.add_sub_cancel, Int.mul_comm]
    _ = at_ := Int.mul_ediv_add_emod at_ nanosPerDay

end Parts

section Reading

variable {parts other : Parts} {rest : List Char}

theorem readYear_yearText {year : ℤ} (known : year.natAbs ≤ 9999) :
    FormatItem.readYear (yearText year ++ rest) = some (year, rest) := by
  have back : read 4 (spell 10 4 year.natAbs ++ rest) = some (year.natAbs, rest) := read_spell (by omega)
  unfold yearText
  split_ifs with negative
  · have sign : -(year.natAbs : ℤ) = year := by omega
    rw [List.cons_append, FormatItem.readYear, back]
    exact congrArg (fun year => some (year, rest)) sign
  · have same : (year.natAbs : ℤ) = year := by omega
    obtain ⟨digit, digits, spelled⟩ := List.exists_cons_of_length_pos
      (by simp : 0 < (spell 10 4 year.natAbs).length)
    have behind : '-' < digit := forall_mem_spell (by decide) (by decide) digit
      (spelled ▸ List.mem_cons_self)
    rw [spelled, List.cons_append] at back ⊢
    rw [FormatItem.readYear, back]
    · exact congrArg (fun year => some (year, rest)) same
    · exact fun _ sign => absurd (List.cons.inj sign).1 behind.ne'

/-- The parts with the one that an item is about. -/
def FormatItem.take (parts other : Parts) : FormatItem → Parts
  | literal _ => other
  | component .year => { other with year := parts.year }
  | component .month => { other with month := parts.month }
  | component .day => { other with day := parts.day }
  | component .hour => { other with hour := parts.hour }
  | component .minute => { other with minute := parts.minute }
  | component .second => { other with second := parts.second }
  | component (.subsecond digits) =>
    { other with nanosecond := parts.nanosecond / 10 ^ (9 - digits) * 10 ^ (9 - digits) }

/-- An item reads off what it wrote. -/
theorem readOff_text (valid : parts.Valid) (item : FormatItem) :
    item.readOff other (item.text parts ++ rest) = some (item.take parts other, rest) := by
  have day : parts.day < 10 ^ 2 := by
    have few : daysInMonth (isLeap parts.year) parts.month ≤ 31 := by
      obtain ⟨first, last⟩ := valid.month
      generalize parts.month = month at first last
      cases isLeap parts.year <;> interval_cases month <;> decide
    have := valid.day.2
    omega
  have month := valid.month.2
  have hour := valid.hour
  have minute := valid.minute
  have second := valid.second
  cases item with
  | literal character => exact if_pos rfl
  | component component =>
    cases component with
    | year => rw [FormatItem.readOff, FormatItem.text, readYear_yearText valid.year]; rfl
    | month => rw [FormatItem.readOff, FormatItem.text, read_spell (by omega)]; rfl
    | day => rw [FormatItem.readOff, FormatItem.text, read_spell day]; rfl
    | hour => rw [FormatItem.readOff, FormatItem.text, read_spell (by omega)]; rfl
    | minute => rw [FormatItem.readOff, FormatItem.text, read_spell (by omega)]; rfl
    | second => rw [FormatItem.readOff, FormatItem.text, read_spell (by omega)]; rfl
    | subsecond digits =>
      have fits : parts.nanosecond / 10 ^ (9 - digits) < 10 ^ digits := by
        refine Nat.div_lt_of_lt_mul (valid.nanosecond.trans_le ?_)
        rw [← pow_add]
        exact Nat.pow_le_pow_right (by decide) (by omega)
      rw [FormatItem.readOff, FormatItem.text, read_spell fits]
      rfl

theorem readItems_text (valid : parts.Valid) (items : List FormatItem) :
    readItems items other (items.flatMap (FormatItem.text parts)) =
      some (items.foldl (fun other item => item.take parts other) other) := by
  induction items generalizing other with
  | nil => rfl
  | cons item items ih =>
    rw [readItems, List.flatMap_cons, readOff_text valid, Option.bind_some, List.foldl_cons]
    exact ih

/-- The store's description has every part. -/
theorem readItems_timestampFormat (valid : parts.Valid) :
    readItems timestampFormat .unset (timestampFormat.flatMap (FormatItem.text parts)) = some parts := by
  rw [readItems_text valid]
  simp only [timestampFormat, List.foldl_cons, List.foldl_nil, FormatItem.take, Nat.sub_self,
    pow_zero, Nat.div_one,
    mul_one]

theorem flatMap_timestampFormat (at_ : ℤ) :
    timestampFormat.flatMap (FormatItem.text (.of at_)) = timestampText at_ := by
  simp only [timestampFormat, List.flatMap_cons, List.flatMap_nil, FormatItem.text, Parts.of,
    timestampText,
    dateText, timeText, field, Nat.sub_self, pow_zero, Nat.div_one, List.cons_append, List.nil_append,
    List.append_assoc]

end Reading

section Texts

variable {at_ later : ℤ}

theorem spell_ascii {base width value : ℕ} (small : base ≤ 16) (positive : 0 < base) :
    ∀ character ∈ spell base width value, character.toNat < 128 := by
  induction width generalizing value with
  | zero => exact fun _ member => absurd member List.not_mem_nil
  | succ width ih =>
    intro character member
    rcases List.mem_append.mp member with earlier | last
    · exact ih character earlier
    · rw [List.mem_singleton.mp last]
      have digit := (Nat.mod_lt value positive).trans_le small
      generalize value % base = digit' at digit
      interval_cases digit' <;> decide

/-- A literal of a description is ASCII. -/
def FormatItem.ascii : FormatItem → Bool
  | literal character => character.toNat < 128
  | component _ => true

theorem text_ascii (parts : Parts) {item : FormatItem} (ascii : item.ascii = true) :
    ∀ character ∈ item.text parts, character.toNat < 128 := by
  have digits (width value : ℕ) : ∀ character ∈ spell 10 width value, character.toNat < 128 :=
    spell_ascii (by decide) (by decide)
  cases item with
  | literal one =>
    intro character member
    rw [List.mem_singleton.mp member]
    exact of_decide_eq_true ascii
  | component component =>
    cases component with
    | year =>
      change ∀ character ∈ yearText parts.year, _
      unfold yearText
      split_ifs
      · exact List.forall_mem_cons.mpr ⟨by decide, digits _ _⟩
      · exact digits _ _
    | month | day | hour | minute | second | subsecond => exact digits _ _

theorem timestampText_ascii (at_ : ℤ) :
    ∀ character ∈ timestampText at_, character.toNat < 128 := by
  have ascii : ∀ item ∈ timestampFormat, item.ascii = true := by decide
  rw [← flatMap_timestampFormat]
  intro character member
  obtain ⟨item, listed, inside⟩ := List.mem_flatMap.mp member
  exact text_ascii _ (ascii item listed) character inside

theorem length_timestampText_le (at_ : ℤ) : (timestampText at_).length ≤ 31 := by
  have year : (yearText (yearOf at_)).length ≤ 5 := by
    unfold yearText
    split_ifs <;> simp
  have rest : (dateText (isLeap (yearOf at_)) (dayOfYear at_) ++ timeText (timeOfDay at_)).length = 26 := by
    simp [dateText, timeText, field]
  rw [timestampText, List.length_append, rest]
  omega

/-- From the year -1 on, texts come in the order of the instants. -/
theorem timestampText_lt_iff (known : Representable at_) (known' : Representable later)
    (years : -1 ≤ yearOf at_) (years' : -1 ≤ yearOf later) :
    timestampText at_ < timestampText later ↔ at_ < later := by
  have forward {one other : ℤ} (known : Representable one) (known' : Representable other)
      (years : -1 ≤ yearOf one) (before : one < other) : timestampText one < timestampText other := by
    have mono := yearOf_mono before.le
    exact timestampText_lt known known' (by omega) before
  refine ⟨fun before => ?_, forward known known' years⟩
  by_contra behind
  rcases (not_lt.mp behind).lt_or_eq with behind | rfl
  · exact lt_asymm before (forward known' known years' behind)
  · exact lt_irrefl _ before

end Texts

end DateTime
