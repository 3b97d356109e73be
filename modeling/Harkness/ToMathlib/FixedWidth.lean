import Harkness.ToMathlib.Hex
import Mathlib

/-! # Texts of a fixed width and their order

Numbers that are spelled with as many digits each come in the order of their spellings, and so do
sequences of parts that have one width each. A quantity that is measured from the last of some marks it
has passed comes in the order of the mark and the distance.
-/

namespace FixedWidth

section Parts

variable {α : Type*} [LinearOrder α] {first other rest later : List α}

/-- Of two texts that begin with parts of one width, the first difference decides. -/
theorem append_lt_append (width : first.length = other.length)
    (before : first < other ∨ first = other ∧ rest < later) : first ++ rest < other ++ later := by
  induction first generalizing other with
  | nil =>
    obtain rfl := List.eq_nil_of_length_eq_zero width.symm
    exact (before.resolve_left (lt_irrefl _)).2
  | cons a first ih =>
    cases other with
    | nil => cases width
    | cons b other =>
      rw [List.cons_append, List.cons_append, List.cons_lt_cons_iff]
      rcases before with before | ⟨same, before⟩
      · rcases List.cons_lt_cons_iff.mp before with lower | ⟨rfl, tails⟩
        · exact .inl lower
        · exact .inr ⟨rfl, ih (Nat.succ.inj width) (.inl tails)⟩
      · obtain ⟨rfl, rfl⟩ := List.cons.inj same
        exact .inr ⟨rfl, ih rfl (.inr ⟨rfl, before⟩)⟩

end Parts

/-- The last `width` digits of a number to a base. -/
def spell (base : ℕ) : ℕ → ℕ → List Char
  | 0, _ => []
  | width + 1, value => spell base width (value / base) ++ [Nat.digitChar (value % base)]

variable {base width value other : ℕ}

@[simp] theorem length_spell : (spell base width value).length = width := by
  induction width generalizing value with
  | zero => rfl
  | succ width ih => rw [spell, List.length_append, ih, List.length_singleton]

theorem digitChar_lt {digit other : ℕ} (small : other < 16) (before : digit < other) :
    Nat.digitChar digit < Nat.digitChar other := by
  interval_cases other <;> interval_cases digit <;> decide

theorem spell_lt (positive : 0 < base) (small : base ≤ 16) (fits : other < base ^ width)
    (before : value < other) : spell base width value < spell base width other := by
  induction width generalizing value other with
  | zero =>
    rw [pow_zero] at fits
    omega
  | succ width ih =>
    rw [spell, spell]
    have shorter : other / base < base ^ width := Nat.div_lt_of_lt_mul (by rwa [pow_succ'] at fits)
    refine append_lt_append (by simp) ?_
    rcases (Nat.div_le_div_right (c := base) before.le).lt_or_eq with lower | same
    · exact .inl (ih shorter lower)
    · refine .inr ⟨by rw [same], ?_⟩
      have digits : value % base < other % base := by
        have first := Nat.div_add_mod value base
        have second := Nat.div_add_mod other base
        rw [same] at first
        omega
      exact List.cons_lt_cons_iff.mpr
        (.inl (digitChar_lt ((Nat.mod_lt _ positive).trans_le small) digits))

/-- The number that decimal digits spell behind those already read. -/
def numberFrom (value : ℕ) (digits : List Char) : ℕ :=
  digits.foldl (fun value digit => 10 * value + (digit.toNat - 48)) value

/-- Reads a number of exactly so many digits, and what is left behind it. -/
def read (width : ℕ) (text : List Char) : Option (ℕ × List Char) :=
  if (text.take width).length = width ∧ (text.take width).all Char.isDigit then
    some (numberFrom 0 (text.take width), text.drop width)
  else none

theorem digitChar_decimal {digit : ℕ} (small : digit < 10) :
    (Nat.digitChar digit).isDigit ∧ (Nat.digitChar digit).toNat - 48 = digit := by
  interval_cases digit <;> decide

theorem forall_isDigit_spell : ∀ character ∈ spell 10 width value, character.isDigit := by
  induction width generalizing value with
  | zero => exact fun _ member => absurd member List.not_mem_nil
  | succ width ih =>
    intro character member
    rcases List.mem_append.mp member with earlier | last
    · exact ih character earlier
    · rw [List.mem_singleton.mp last]
      exact (digitChar_decimal (Nat.mod_lt value (by decide))).1

theorem numberFrom_spell (value : ℕ) : numberFrom 0 (spell 10 width value) = value % 10 ^ width := by
  induction width generalizing value with
  | zero => rw [pow_zero, Nat.mod_one]; rfl
  | succ width ih =>
    have last := (digitChar_decimal (Nat.mod_lt value (by decide : 0 < 10))).2
    calc numberFrom 0 (spell 10 (width + 1) value)
      _ = 10 * numberFrom 0 (spell 10 width (value / 10)) + ((value % 10).digitChar.toNat - 48) := by
        rw [spell, numberFrom, List.foldl_concat, numberFrom]
      _ = 10 * (value / 10 % 10 ^ width) + value % 10 := by rw [ih, last]
      _ = value % 10 ^ (width + 1) := by rw [pow_succ', Nat.mod_mul, Nat.add_comm]

/-- A spelled number is read back in front of any text. -/
theorem read_spell {rest : List Char} (fits : value < 10 ^ width) :
    read width (spell 10 width value ++ rest) = some (value, rest) := by
  have taken : (spell 10 width value ++ rest).take width = spell 10 width value := by
    rw [List.take_append_of_le_length length_spell.ge, List.take_of_length_le length_spell.le]
  have dropped : (spell 10 width value ++ rest).drop width = rest := by
    rw [List.drop_append_of_le_length length_spell.ge, List.drop_eq_nil_of_le length_spell.le,
      List.nil_append]
  rw [read, taken, dropped, numberFrom_spell, Nat.mod_eq_of_lt fits]
  exact if_pos ⟨length_spell, List.all_eq_true.mpr forall_isDigit_spell⟩

/-- The last of the first `count` marks behind the one at zero that a place has reached. -/
def lastMark (mark : ℕ → ℤ) (count : ℕ) (place : ℤ) : ℕ := Nat.findGreatest (fun i => mark i ≤ place) count

variable {mark : ℕ → ℤ} {count : ℕ} {place later : ℤ}

theorem mark_lastMark (mark : ℕ → ℤ) (count : ℕ) (begun : mark 0 ≤ place) :
    mark (lastMark mark count place) ≤ place :=
  Nat.findGreatest_spec (P := fun i => mark i ≤ place) (Nat.zero_le count) begun

theorem lt_mark_succ (mark : ℕ → ℤ) (inside : lastMark mark count place < count) :
    place < mark (lastMark mark count place + 1) :=
  not_le.mp (Nat.findGreatest_is_greatest (P := fun i => mark i ≤ place)
    (Nat.lt_succ_self (lastMark mark count place)) inside)

/-- A later place has reached a later mark, or it is farther from the same one. -/
theorem lastMark_lt_or (mark : ℕ → ℤ) (count : ℕ) (before : place < later) :
    lastMark mark count place < lastMark mark count later ∨
    lastMark mark count place = lastMark mark count later ∧
      place - mark (lastMark mark count place) < later - mark (lastMark mark count later) := by
  have mono : lastMark mark count place ≤ lastMark mark count later :=
    Nat.findGreatest_mono_left (fun i reached => reached.trans before.le) count
  rcases mono.lt_or_eq with lower | same
  · exact .inl lower
  · rw [same]
    exact .inr ⟨rfl, by omega⟩

theorem lastMark_eq {i : ℕ} (ascending : StrictMono mark) (inside : i ≤ count) (reached : mark i ≤ place)
    (passed : place < mark (i + 1)) : lastMark mark count place = i := by
  refine (Nat.findGreatest_eq_iff).mpr ⟨inside, fun _ => reached, fun j behind _ back => ?_⟩
  have := ascending.monotone (Nat.succ_le_of_lt behind)
  simp only [Nat.succ_eq_add_one] at this
  omega

end FixedWidth
