import Harkness.ToMathlib.FixedWidth
import Mathlib

/-! # The spelling of instants as dates and times

An instant is counted in nanoseconds from the start of 1970 in UTC. It is spelled by its UTC date and time in
fields of a fixed width, so that texts compare as the instants do. A year before the year 0 has a sign in
front of its digits, and such years compare the other way around.
-/

namespace DateTime

open FixedWidth

/-- The instants a UTC date between the years -9999 and 9999 names. -/
def Representable (at_ : ℤ) : Prop :=
  -377705116800 * 10 ^ 9 ≤ at_ ∧ at_ < 253402300800 * 10 ^ 9

instance (at_ : ℤ) : Decidable (Representable at_) :=
  inferInstanceAs (Decidable (_ ∧ _))

/-- Days from the first of January of the year 0 to that of a year. -/
def yearStart (year : ℤ) : ℤ := 365 * year + (year + 3) / 4 - (year + 99) / 100 + (year + 399) / 400

def isLeap (year : ℤ) : Bool := year % 4 = 0 && (year % 100 ≠ 0 || year % 400 = 0)

/-- Days from the first of January to the first of a month, which are counted from zero. -/
def monthStart (leap : Bool) (month : ℕ) : ℤ :=
  [0, 31, 59, 90, 120, 151, 181, 212, 243, 273, 304, 334].getD month 365 +
    if leap && 2 ≤ month then 1 else 0

def nanosPerDay : ℕ := 86400 * 10 ^ 9

/-- The days from the first of January of the year 0 to an instant. -/
def dayOf (at_ : ℤ) : ℤ := at_ / nanosPerDay + 719528

def timeOfDay (at_ : ℤ) : ℕ := (at_ % nanosPerDay).toNat

/-- Where years start, the earliest that a date can have first. -/
def yearMark (index : ℕ) : ℤ := yearStart (index - 9999)

def yearOf (at_ : ℤ) : ℤ := lastMark yearMark 19998 (dayOf at_) - 9999

def dayOfYear (at_ : ℤ) : ℤ := dayOf at_ - yearStart (yearOf at_)

def yearText (year : ℤ) : List Char :=
  if year < 0 then '-' :: spell 10 4 year.natAbs else spell 10 4 year.natAbs

/-- A separator and a field, counted in units, with what is left over behind it. -/
def field (separator : Char) (base width unit value : ℕ) (rest : ℕ → List Char) : List Char :=
  separator :: (spell base width (value / unit) ++ rest (value % unit))

def dateText (leap : Bool) (dayOfYear : ℤ) : List Char :=
  let month := lastMark (monthStart leap) 11 dayOfYear
  '-' :: (spell 10 2 (month + 1) ++ '-' :: spell 10 2 (dayOfYear - monthStart leap month + 1).toNat)

def timeText (time : ℕ) : List Char :=
  field 'T' 10 2 (3600 * 10 ^ 9) time fun time =>
    field ':' 10 2 (60 * 10 ^ 9) time fun time =>
      field ':' 10 2 (10 ^ 9) time fun nanos => '.' :: (spell 10 9 nanos ++ ['Z'])

/-- `[year]-[month]-[day]T[hour]:[minute]:[second].[subsecond digits:9]Z` -/
def timestampText (at_ : ℤ) : List Char :=
  yearText (yearOf at_) ++
    (dateText (isLeap (yearOf at_)) (dayOfYear at_) ++ timeText (timeOfDay at_))

section Order

variable {separator : Char} {base width unit value other : ℕ} {rest : ℕ → List Char}

theorem field_lt (positive : 0 < base) (small : base ≤ 16) (fits : other / unit < base ^ width)
    (before : value < other) (tail : value % unit < other % unit → rest (value % unit) < rest (other % unit)) :
    field separator base width unit value rest < field separator base width unit other rest := by
  refine List.cons_lt_cons_iff.mpr (.inr ⟨rfl, append_lt_append (by simp) ?_⟩)
  rcases (Nat.div_le_div_right (c := unit) before.le).lt_or_eq with lower | same
  · exact .inl (spell_lt positive small fits lower)
  · refine .inr ⟨by rw [same], tail ?_⟩
    have first := Nat.div_add_mod value unit
    have second := Nat.div_add_mod other unit
    rw [same] at first
    omega

theorem timeText_lt {time later : ℕ} (fits : later < nanosPerDay) (before : time < later) :
    timeText time < timeText later := by
  have day : nanosPerDay = 86400 * 10 ^ 9 := rfl
  refine field_lt (by decide) (by decide) (Nat.div_lt_of_lt_mul (by omega)) before fun before => ?_
  have hour := Nat.mod_lt later (by decide : 3600 * 10 ^ 9 > 0)
  refine field_lt (by decide) (by decide) (Nat.div_lt_of_lt_mul (by omega)) before fun before => ?_
  have minute := Nat.mod_lt (later % (3600 * 10 ^ 9)) (by decide : 60 * 10 ^ 9 > 0)
  refine field_lt (by decide) (by decide) (Nat.div_lt_of_lt_mul (by omega)) before fun before => ?_
  refine List.cons_lt_cons_iff.mpr (.inr ⟨rfl, append_lt_append (by simp) (.inl ?_)⟩)
  exact spell_lt (by decide) (by decide) (Nat.mod_lt _ (by decide)) before

/-- Every digit comes behind a sign. -/
theorem forall_mem_spell (small : base ≤ 16) (positive : 0 < base) :
    ∀ character ∈ spell base width value, '-' < character := by
  induction width generalizing value with
  | zero => exact fun _ member => absurd member List.not_mem_nil
  | succ width ih =>
    intro character member
    rcases List.mem_append.mp member with earlier | last
    · exact ih character earlier
    · rw [List.mem_singleton.mp last]
      have digit := (Nat.mod_lt value positive).trans_le small
      generalize value % base = digit' at digit
      interval_cases digit' <;> decide

end Order

section Dates

variable {at_ later : ℤ} {year : ℤ}

theorem yearStart_step (year : ℤ) :
    yearStart year < yearStart (year + 1) ∧ yearStart (year + 1) ≤ yearStart year + 366 := by
  unfold yearStart
  omega

theorem yearMark_strictMono : StrictMono yearMark := by
  refine strictMono_nat_of_lt_succ fun index => ?_
  have step := (yearStart_step (index - 9999)).1
  have next : ((index + 1 : ℕ) : ℤ) - 9999 = (index : ℤ) - 9999 + 1 := by omega
  rw [yearMark, yearMark, next]
  exact step

/-- An instant between the starts of a year and of the next one is of that year. -/
theorem yearOf_eq (first : -9999 ≤ year) (last : year ≤ 9999) (begun : yearStart year ≤ dayOf at_)
    (running : dayOf at_ < yearStart (year + 1)) : yearOf at_ = year := by
  obtain ⟨index, same⟩ := Int.eq_ofNat_of_zero_le (by omega : 0 ≤ year + 9999)
  have mark : yearMark index = yearStart year := by
    rw [yearMark]
    congr 1
    omega
  have next : yearMark (index + 1) = yearStart (year + 1) := by
    rw [yearMark]
    congr 1
    omega
  have reached : lastMark yearMark 19998 (dayOf at_) = index :=
    lastMark_eq yearMark_strictMono (by omega) (mark ▸ begun) (next ▸ running)
  rw [yearOf, reached]
  omega

theorem dayOf_bounds (known : Representable at_) :
    yearStart (-9999) ≤ dayOf at_ ∧ dayOf at_ < yearStart 10000 := by
  unfold Representable at known
  unfold dayOf yearStart nanosPerDay
  omega

theorem yearOf_bounds (at_ : ℤ) : -9999 ≤ yearOf at_ ∧ yearOf at_ ≤ 9999 := by
  have most : lastMark yearMark 19998 (dayOf at_) ≤ 19998 := Nat.findGreatest_le 19998
  unfold yearOf
  omega

/-- A day is before the next year. -/
theorem dayOf_lt_next (known : Representable at_) : dayOf at_ < yearStart (yearOf at_ + 1) := by
  have last := (dayOf_bounds known).2
  have most : lastMark yearMark 19998 (dayOf at_) ≤ 19998 := Nat.findGreatest_le 19998
  rcases most.lt_or_eq with inside | end_
  · have next := lt_mark_succ yearMark inside
    have same : ((lastMark yearMark 19998 (dayOf at_) + 1 : ℕ) : ℤ) - 9999 = yearOf at_ + 1 := by
      unfold yearOf
      omega
    rwa [yearMark, same] at next
  · have same : yearOf at_ + 1 = 10000 := by
      unfold yearOf
      omega
    rwa [same]

theorem dayOfYear_bounds (known : Representable at_) : 0 ≤ dayOfYear at_ ∧ dayOfYear at_ < 366 := by
  have reached : yearStart (yearOf at_) ≤ dayOf at_ := mark_lastMark yearMark 19998 (dayOf_bounds known).1
  have step := (yearStart_step (yearOf at_)).2
  have passed := dayOf_lt_next known
  unfold dayOfYear
  omega

theorem dateText_lt {leap : Bool} {day other : ℤ} (begun : 0 ≤ day) (within : other < 366)
    (before : day < other) : dateText leap day < dateText leap other := by
  have start : monthStart leap 0 = 0 := by cases leap <;> rfl
  have reached : monthStart leap (lastMark (monthStart leap) 11 other) ≤ other :=
    mark_lastMark (monthStart leap) 11 (by omega)
  have reached' : monthStart leap (lastMark (monthStart leap) 11 day) ≤ day :=
    mark_lastMark (monthStart leap) 11 (by omega)
  have most : lastMark (monthStart leap) 11 other ≤ 11 := Nat.findGreatest_le 11
  refine List.cons_lt_cons_iff.mpr (.inr ⟨rfl, append_lt_append (by simp) ?_⟩)
  rcases lastMark_lt_or (monthStart leap) 11 before with lower | ⟨same, nearer⟩
  · exact .inl (spell_lt (by decide) (by decide) (by omega) (by omega))
  · refine .inr ⟨by rw [same], List.cons_lt_cons_iff.mpr (.inr ⟨rfl, ?_⟩)⟩
    have few : other - monthStart leap (lastMark (monthStart leap) 11 other) < 99 := by
      rcases most.lt_or_eq with inside | end_
      · have next := lt_mark_succ (monthStart leap) inside
        have step : ∀ month < 11, monthStart leap (month + 1) ≤ monthStart leap month + 31 := by
          cases leap <;> decide
        have := step _ inside
        omega
      · have late : 334 ≤ monthStart leap 11 := by cases leap <;> decide
        rw [end_]
        omega
    exact spell_lt (by decide) (by decide) (by omega) (by omega)

theorem yearOf_mono (before : at_ ≤ later) : yearOf at_ ≤ yearOf later := by
  have days : dayOf at_ ≤ dayOf later := by
    have before : @LE.le ℤ _ at_ later := before
    unfold dayOf nanosPerDay
    omega
  have marks : lastMark yearMark 19998 (dayOf at_) ≤ lastMark yearMark 19998 (dayOf later) :=
    Nat.findGreatest_mono_left (fun _ reached => reached.trans days) 19998
  unfold yearOf
  omega

/-- Later instants are spelled later, but for years before the year 0 that differ. -/
theorem timestampText_lt (known : Representable at_) (known' : Representable later)
    (same : 0 ≤ yearOf later ∨ yearOf at_ = yearOf later) (before : at_ < later) :
    timestampText at_ < timestampText later := by
  have days : dayOf at_ < dayOf later ∨ dayOf at_ = dayOf later ∧ timeOfDay at_ < timeOfDay later := by
    have before : @LT.lt ℤ _ at_ later := before
    unfold dayOf timeOfDay nanosPerDay
    omega
  have time : timeOfDay later < nanosPerDay := by
    unfold timeOfDay nanosPerDay
    omega
  have bounds := yearOf_bounds at_
  have bounds' := yearOf_bounds later
  have inYear := dayOfYear_bounds known
  have inYear' := dayOfYear_bounds known'
  have years : yearOf at_ < yearOf later ∨ yearOf at_ = yearOf later ∧
      (dayOfYear at_ < dayOfYear later ∨ dayOfYear at_ = dayOfYear later ∧
        timeOfDay at_ < timeOfDay later) := by
    rcases days with lower | ⟨day, tail⟩
    · rcases lastMark_lt_or yearMark 19998 lower with year | ⟨year, nearer⟩
      · left
        unfold yearOf
        omega
      · refine .inr ⟨by unfold yearOf; omega, .inl ?_⟩
        exact nearer
    · have year : yearOf at_ = yearOf later := by
        unfold yearOf
        rw [day]
      exact .inr ⟨year, .inr ⟨by rw [dayOfYear, dayOfYear, day, year], tail⟩⟩
  unfold timestampText
  rcases years with lower | ⟨year, rest⟩
  · have positive : 0 ≤ yearOf later := same.resolve_right lower.ne
    have text : yearText (yearOf later) = spell 10 4 (yearOf later).natAbs := if_neg (not_lt.mpr positive)
    rw [text]
    by_cases negative : yearOf at_ < 0
    · rw [yearText, if_pos negative]
      obtain ⟨digit, digits, spelled⟩ := List.exists_cons_of_length_pos
        (by simp : 0 < (spell 10 4 (yearOf later).natAbs).length)
      have behind := forall_mem_spell (by decide) (by decide) digit (spelled ▸ List.mem_cons_self)
      rw [spelled]
      exact List.cons_lt_cons_iff.mpr (.inl behind)
    · rw [yearText, if_neg negative]
      exact append_lt_append (by simp) (.inl (spell_lt (by decide) (by decide) (by omega) (by omega)))
  · rw [year]
    refine append_lt_append rfl (.inr ⟨rfl, ?_⟩)
    rcases rest with lower | ⟨day, tail⟩
    · refine append_lt_append ?_ (.inl (dateText_lt inYear.1 inYear'.2 lower))
      simp [dateText]
    · rw [day]
      exact append_lt_append rfl (.inr ⟨rfl, timeText_lt time tail⟩)

end Dates

end DateTime
