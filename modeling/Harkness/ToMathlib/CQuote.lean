import Mathlib

/-! # Reading texts quoted as in C

A quoted text stands between quotation marks. A backslash in it announces a byte by a letter, by itself,
or by three octal digits of which the first is at most three. The reader goes on until the closing mark
and returns what is behind it, so quoted texts can stand in front of anything.
-/

namespace CQuote

/-- What a byte behind a backslash stands for when it is no digit. -/
def named (byte : UInt8) : Option UInt8 :=
  [(0x61, 0x07), (0x62, 0x08), (0x74, 0x09), (0x6e, 0x0a), (0x76, 0x0b), (0x66, 0x0c), (0x72, 0x0d),
    (0x22, 0x22), (0x5c, 0x5c)].lookup byte

/-- The value of a digit at most `most`. -/
def octalDigit (most : UInt8) (byte : UInt8) : Option UInt8 :=
  if 0x30 ≤ byte ∧ byte ≤ 0x30 + most then some (byte - 0x30) else none

/-- Where the reader is: at a byte, behind a backslash, or within octal digits of which it has read some. -/
inductive Reading where
  | plain
  | escaped
  | second (first : UInt8)
  | third (leading : UInt8)

/-- Reads behind the opening mark. -/
@[simp] def readFrom : Reading → List UInt8 → Option (List UInt8 × List UInt8)
  | _, [] => none
  | .plain, byte :: rest =>
    if byte = 0x22 then some ([], rest)
    else if byte = 0x5c then readFrom .escaped rest
    else (readFrom .plain rest).map (Prod.map (byte :: ·) id)
  | .escaped, byte :: rest =>
    match named byte with
    | some meant => (readFrom .plain rest).map (Prod.map (meant :: ·) id)
    | none => (octalDigit 3 byte).bind fun first => readFrom (.second first) rest
  | .second first, byte :: rest =>
    (octalDigit 7 byte).bind fun second => readFrom (.third (8 * first + second)) rest
  | .third leading, byte :: rest =>
    (octalDigit 7 byte).bind fun last =>
      (readFrom .plain rest).map (Prod.map ((8 * leading + last) :: ·) id)

/-- A quoted text and what is behind it. -/
def unquote : List UInt8 → Option (List UInt8 × List UInt8)
  | [] => none
  | byte :: rest => if byte = 0x22 then readFrom .plain rest else none

/-- A spelling of a byte is one that is read as it, whatever is behind. -/
def Spells (spelling : List UInt8) (byte : UInt8) : Prop :=
  ∀ rest, readFrom .plain (spelling ++ rest) = (readFrom .plain rest).map (Prod.map (byte :: ·) id)

theorem spells_self {byte : UInt8} (mark : byte ≠ 0x22) (backslash : byte ≠ 0x5c) : Spells [byte] byte := by
  intro rest
  rw [List.singleton_append, readFrom, if_neg mark, if_neg backslash]

theorem spells_named {letter byte : UInt8} (meant : named letter = some byte) :
    Spells [0x5c, letter] byte := by
  intro rest
  rw [List.cons_append, List.singleton_append, readFrom, if_neg (by decide), if_pos rfl, readFrom, meant]

/-- The three octal digits of a byte. -/
def octalText (byte : UInt8) : List UInt8 := [0x30 + byte / 64, 0x30 + byte / 8 % 8, 0x30 + byte % 8]

private theorem octalDigit_add {most digit : UInt8} (small : digit ≤ most) (bounded : most ≤ 7) :
    octalDigit most (0x30 + digit) = some digit := by
  have within : 0x30 ≤ 0x30 + digit ∧ 0x30 + digit ≤ 0x30 + most := by
    simp only [UInt8.le_iff_toNat_le, UInt8.toNat_add, UInt8.reduceToNat] at small bounded ⊢
    omega
  rw [octalDigit, if_pos within, add_sub_cancel_left]

private theorem named_add {digit : UInt8} (small : digit ≤ 3) : named (0x30 + digit) = none := by
  have few : digit = 0 ∨ digit = 1 ∨ digit = 2 ∨ digit = 3 := by
    simp only [UInt8.le_iff_toNat_le, ← UInt8.toNat_inj, UInt8.reduceToNat] at small ⊢
    omega
  rcases few with rfl | rfl | rfl | rfl <;> rfl

private theorem octalText_digits (byte : UInt8) : byte / 64 ≤ 3 ∧ byte / 8 % 8 ≤ 7 ∧ byte % 8 ≤ 7 ∧
    8 * (8 * (byte / 64) + byte / 8 % 8) + byte % 8 = byte := by
  have size := byte.toNat_lt
  refine ⟨?_, ?_, ?_, UInt8.toNat_inj.mp ?_⟩ <;>
    simp only [UInt8.le_iff_toNat_le, UInt8.toNat_add, UInt8.toNat_mul, UInt8.toNat_div, UInt8.toNat_mod,
      UInt8.reduceToNat] <;> omega

/-- Three digits are read as one byte, so that they do not run into digits behind them. -/
theorem spells_octal (byte : UInt8) : Spells (0x5c :: octalText byte) byte := by
  intro rest
  obtain ⟨first, second, last, whole⟩ := octalText_digits byte
  rw [octalText, List.cons_append, List.cons_append, List.cons_append, List.singleton_append, readFrom,
    if_neg (by decide), if_pos rfl, readFrom, named_add first]
  dsimp only
  rw [octalDigit_add first (by decide), Option.bind_some, readFrom, octalDigit_add second (by decide),
    Option.bind_some, readFrom, octalDigit_add last (by decide), Option.bind_some, whole]

/-- A text that is spelled byte by byte is read back up to the closing mark. -/
theorem readFrom_spelled {spell : UInt8 → List UInt8} (spells : ∀ byte, Spells (spell byte) byte)
    (text rest : List UInt8) :
    readFrom .plain (text.flatMap spell ++ 0x22 :: rest) = some (text, rest) := by
  induction text with
  | nil => rw [List.flatMap_nil, List.nil_append, readFrom, if_pos rfl]
  | cons byte text ih =>
    rw [List.flatMap_cons, List.append_assoc, spells byte, ih]
    rfl

end CQuote
