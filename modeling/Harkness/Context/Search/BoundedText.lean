import Harkness.ToMathlib.Utf8

/-! # Excerpts of repository text

An excerpt is clamped to a limit, at the end of a character where the whole is text, and says whether it
was clamped. What is no text travels in Base64, which another library writes and reads.
-/

namespace Harkness.Context.Search

open String (utf8Len)

inductive TextEncoding where
  | utf8
  | base64
deriving DecidableEq, Repr

/-- Texts that carry bytes. -/
structure Base64 where
  encode : List UInt8 → List Char
  decode : List Char → Option (List UInt8)

/-- What is written is read back. -/
def Base64.Lawful (base64 : Base64) : Prop := ∀ bytes, base64.decode (base64.encode bytes) = some bytes

structure BoundedText where
  text : List Char
  encoding : TextEncoding
  truncated : Bool
  sourceBytes : ℕ
deriving DecidableEq

namespace BoundedText

variable (base64 : Base64)

/-- Clamps bytes to a limit and spells them in whichever encoding is exact. -/
def clamped (bytes : List UInt8) (limit : ℕ) : BoundedText :=
  match Utf8.decode? bytes with
  | some text =>
    { text := Utf8.within limit text
      encoding := .utf8
      truncated := utf8Len (Utf8.within limit text) < utf8Len text
      sourceBytes := bytes.length }
  | none =>
    { text := base64.encode (bytes.take limit)
      encoding := .base64
      truncated := min bytes.length limit < bytes.length
      sourceBytes := bytes.length }

/-- The exact bytes this carries, whichever encoding it used. -/
def shownBytes (self : BoundedText) : List UInt8 :=
  match self.encoding with
  | .utf8 => Utf8.encode self.text
  | .base64 => (base64.decode self.text).getD []

variable {base64} {bytes : List UInt8} {limit : ℕ}

@[simp] theorem clamped_sourceBytes : (clamped base64 bytes limit).sourceBytes = bytes.length := by
  unfold clamped
  split <;> rfl

/-- An excerpt shows the front of its source, within the limit. -/
theorem shownBytes_clamped (bytes : List UInt8) (limit : ℕ) (lawful : base64.Lawful) :
    (clamped base64 bytes limit).shownBytes base64 <+: bytes ∧
      ((clamped base64 bytes limit).shownBytes base64).length ≤ limit := by
  unfold clamped
  split
  next text decoded =>
    obtain rfl := Utf8.decode?_eq_some_iff.mp decoded
    obtain ⟨rest, split⟩ := Utf8.within_prefix limit text
    refine ⟨⟨Utf8.encode rest, ?_⟩, ?_⟩
    · change Utf8.encode (Utf8.within limit text) ++ _ = _
      rw [← Utf8.encode_append, split]
    · change (Utf8.encode (Utf8.within limit text)).length ≤ limit
      rw [Utf8.length_encode]
      exact Utf8.utf8Len_within_le limit text
  next =>
    change (base64.decode (base64.encode (bytes.take limit))).getD [] <+: bytes ∧
      ((base64.decode (base64.encode (bytes.take limit))).getD []).length ≤ limit
    rw [lawful, Option.getD_some, List.length_take]
    exact ⟨List.take_prefix _ _, min_le_left _ _⟩

/-- An excerpt that is not clamped shows all of its source. -/
theorem shownBytes_of_untruncated (lawful : base64.Lawful)
    (whole : (clamped base64 bytes limit).truncated = false) :
    (clamped base64 bytes limit).shownBytes base64 = bytes := by
  have front := (shownBytes_clamped bytes limit lawful).1
  refine front.eq_of_length_le ?_
  revert whole
  unfold clamped
  split
  next text decoded =>
    obtain rfl := Utf8.decode?_eq_some_iff.mp decoded
    intro whole
    change (Utf8.encode text).length ≤ (Utf8.encode (Utf8.within limit text)).length
    rw [Utf8.length_encode, Utf8.length_encode]
    exact not_lt.mp (of_decide_eq_false whole)
  next =>
    intro whole
    have whole := not_lt.mp (of_decide_eq_false whole)
    change _ ≤ ((base64.decode (base64.encode (bytes.take limit))).getD []).length
    rw [lawful, Option.getD_some, List.length_take]
    omega

end BoundedText

end Harkness.Context.Search
