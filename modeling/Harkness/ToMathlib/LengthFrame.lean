import Mathlib.Algebra.Order.Ring.Nat
import Mathlib.Tactic.Ring

/-! # Length-framed parts

A part is framed by its length, in a fixed number of little-endian bytes, followed by its bytes.
Framed parts whose lengths fit can be put one after the other and told apart again.
-/

namespace LengthFrame

/-- The low `width` bytes of a number, least significant first. -/
def leBytes : ℕ → ℕ → List UInt8
  | 0, _ => []
  | width + 1, value => UInt8.ofNat value :: leBytes width (value / 256)

@[simp] theorem length_leBytes (width value : ℕ) : (leBytes width value).length = width := by
  induction width generalizing value with
  | zero => rfl
  | succ width ih => rw [leBytes, List.length_cons, ih]

/-- Numbers that fit have the same bytes only when they are equal. -/
theorem leBytes_inj {width value other : ℕ} (fits : value < 256 ^ width)
    (otherFits : other < 256 ^ width) (same : leBytes width value = leBytes width other) :
    value = other := by
  induction width generalizing value other with
  | zero => omega
  | succ width ih =>
    rw [pow_succ] at fits otherFits
    obtain ⟨low, high⟩ := List.cons_eq_cons.mp same
    have quotients := ih (by omega) (by omega) high
    have remainders : value % 256 = other % 256 := by
      simpa using congrArg UInt8.toNat low
    omega

/-- A part behind its length. -/
def frame (width : ℕ) (part : List UInt8) : List UInt8 := leBytes width part.length ++ part

theorem frame_append_inj {width : ℕ} {part other rest otherRest : List UInt8}
    (fits : part.length < 256 ^ width) (otherFits : other.length < 256 ^ width)
    (same : frame width part ++ rest = frame width other ++ otherRest) :
    part = other ∧ rest = otherRest := by
  simp only [frame, List.append_assoc] at same
  obtain ⟨lengths, parts⟩ := List.append_inj same (by simp)
  exact List.append_inj parts (leBytes_inj fits otherFits lengths)

/-- The last part is told whatever its length. -/
theorem frame_inj {width : ℕ} {part other : List UInt8} (same : frame width part = frame width other) :
    part = other :=
  (List.append_inj same (by simp)).2

/-- Parts behind their lengths, one after the other. -/
def frames (width : ℕ) (parts : List (List UInt8)) : List UInt8 := parts.flatMap (frame width)

theorem length_frames (width : ℕ) (parts : List (List UInt8)) :
    (frames width parts).length = (parts.map fun part => width + part.length).sum := by
  rw [frames, List.length_flatMap]
  simp [frame]

/-- Parts whose lengths fit are told apart, and so is their number. -/
theorem frames_inj {width : ℕ} (positive : 0 < width) {parts others : List (List UInt8)}
    (fit : ∀ part ∈ parts, part.length < 256 ^ width)
    (otherFit : ∀ part ∈ others, part.length < 256 ^ width)
    (same : frames width parts = frames width others) : parts = others := by
  have filled : ∀ (part : List UInt8) (rest : List (List UInt8)), frames width (part :: rest) ≠ [] := by
    intro part rest empty
    have bytes := congrArg List.length empty
    simp only [frames, List.flatMap_cons, frame, List.length_append, length_leBytes,
      List.length_nil] at bytes
    omega
  induction parts generalizing others with
  | nil =>
    cases others with
    | nil => rfl
    | cons part others => exact absurd same.symm (filled part others)
  | cons part parts ih =>
    cases others with
    | nil => exact absurd same (filled part parts)
    | cons other others =>
      obtain ⟨fits, restFit⟩ := List.forall_mem_cons.mp fit
      obtain ⟨otherFits, othersFit⟩ := List.forall_mem_cons.mp otherFit
      obtain ⟨first, rest⟩ := frame_append_inj fits otherFits same
      rw [first, ih restFit othersFit rest]

end LengthFrame
