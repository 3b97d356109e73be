import Mathlib.Algebra.Order.Ring.Nat
import Mathlib.Tactic.Ring
import Mathlib.Tactic.IntervalCases
import Mathlib.Data.String.Basic

/-! # Fixed-width lower-case hexadecimal

A number is spelled most significant digit first, with as many digits as asked for. Reading accepts
lower-case digits only, so a number has one spelling at each width.
-/

namespace Hex

/-- The last `width` hexadecimal digits of `value`. -/
def digits : ℕ → ℕ → List Char
  | 0, _ => []
  | width + 1, value => digits width (value / 16) ++ [Nat.digitChar (value % 16)]

/-- The value of one lower-case digit. -/
def nibble (digit : Char) : Option ℕ :=
  if '0' ≤ digit ∧ digit ≤ '9' then some (digit.toNat - '0'.toNat)
  else if 'a' ≤ digit ∧ digit ≤ 'f' then some (digit.toNat - 'a'.toNat + 10)
  else none

/-- Reads digits after those that gave `value`. -/
def readFrom (value : ℕ) (text : List Char) : Option ℕ :=
  text.foldlM (fun value digit => (nibble digit).map (value * 16 + ·)) value

theorem nibble_digitChar {digit : ℕ} (small : digit < 16) :
    nibble (Nat.digitChar digit) = some digit := by
  interval_cases digit <;> rfl

@[simp] theorem length_digits (width value : ℕ) : (digits width value).length = width := by
  induction width generalizing value with
  | zero => rfl
  | succ width ih => rw [digits, List.length_append, ih, List.length_singleton]

/-- Every digit is one byte long. -/
@[simp] theorem utf8Len_digits (width value : ℕ) : String.utf8Len (digits width value) = width := by
  induction width generalizing value with
  | zero => rfl
  | succ width ih =>
    have small : value % 16 < 16 := Nat.mod_lt _ (by decide)
    have size : (Nat.digitChar (value % 16)).utf8Size = 1 := by
      generalize value % 16 = digit at small
      interval_cases digit <;> rfl
    rw [digits, String.utf8Len_append, ih, String.utf8Len_cons, String.utf8Len_nil, size]

/-- A number is spelled in two parts, split at any place. -/
theorem digits_add (width more value : ℕ) :
    digits (width + more) value = digits width (value / 16 ^ more) ++ digits more value := by
  induction more generalizing value with
  | zero => simp only [Nat.add_zero, pow_zero, Nat.div_one, digits, List.append_nil]
  | succ more ih =>
    rw [← Nat.add_assoc, digits, digits, ih, Nat.div_div_eq_div_mul, ← pow_succ', List.append_assoc]

/-- What holds of the sixteen digits holds of every digit of a number. -/
theorem forall_mem_digits {P : Char → Prop} (each : ∀ digit < 16, P (Nat.digitChar digit))
    (width value : ℕ) : ∀ character ∈ digits width value, P character := by
  induction width generalizing value with
  | zero => exact fun _ member => absurd member List.not_mem_nil
  | succ width ih =>
    intro character member
    rcases List.mem_append.mp member with earlier | last
    · exact ih _ character earlier
    · rw [List.mem_singleton.mp last]
      exact each _ (Nat.mod_lt _ (by decide))

/-- No separator can be taken for a digit. -/
theorem ne_hyphen_of_mem_digits {width value : ℕ} {digit : Char}
    (member : digit ∈ digits width value) : digit ≠ '-' :=
  forall_mem_digits (P := (· ≠ '-')) (by decide) width value digit member

theorem readFrom_digits (width value before : ℕ) :
    readFrom before (digits width value) = some (before * 16 ^ width + value % 16 ^ width) := by
  induction width generalizing value with
  | zero => simp only [digits, readFrom, List.foldlM_nil, pow_zero, mul_one, Nat.mod_one, add_zero,
      Option.pure_def]
  | succ width ih =>
    have step : value % 16 ^ (width + 1) = value / 16 % 16 ^ width * 16 + value % 16 := by
      rw [pow_succ', Nat.mod_mul]
      ring
    have earlier := ih (value / 16)
    unfold readFrom at earlier ⊢
    rw [digits, List.foldlM_append, earlier, step]
    simp only [bind, Option.bind_some, List.foldlM_cons, List.foldlM_nil, pure,
      nibble_digitChar (Nat.mod_lt value (by decide : 0 < 16)), Option.map_some, Option.some.injEq]
    ring

/-- A number that fits is read back from its digits. -/
theorem read_digits {width value : ℕ} (fits : value < 16 ^ width) :
    readFrom 0 (digits width value) = some value := by
  rw [readFrom_digits, zero_mul, zero_add, Nat.mod_eq_of_lt fits]

end Hex
