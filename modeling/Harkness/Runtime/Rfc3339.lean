import Harkness.ToMathlib.DateTimeFormat

/-! # Timestamps as RFC 3339 texts

The library writes a timestamp in UTC with four digits for its year, so it refuses a year outside 0 to 9999,
and it reads back what it wrote.
-/

namespace Harkness.Runtime

/-- How another library writes timestamps and reads them. -/
structure Rfc3339 (Time : Type) where
  format : Time → Option String
  parse : String → Option Time

/-- What that library promises of the timestamps that have a text. -/
structure Rfc3339.Lawful {Time : Type} (codec : Rfc3339 Time) (HasText : Time → Prop) : Prop where
  format : ∀ at_, (codec.format at_).isSome = true ↔ HasText at_
  parse : ∀ at_ text, codec.format at_ = some text → codec.parse text = some at_

/-- Why a record with timestamps is not read: one of them is no text of a timestamp, or a check refuses it. -/
inductive ReadError (ε : Type) where
  | timestamp
  | record (error : ε)
deriving DecidableEq

/-- An instant of the years 0 to 9999 in UTC. -/
def FourDigitYear (at_ : ℤ) : Prop := -62167219200 * 10 ^ 9 ≤ at_ ∧ at_ < 253402300800 * 10 ^ 9

instance (at_ : ℤ) : Decidable (FourDigitYear at_) := inferInstanceAs (Decidable (_ ∧ _))

open DateTime

theorem FourDigitYear.representable {at_ : ℤ} (short : FourDigitYear at_) : Representable at_ := by
  obtain ⟨first, last⟩ := short
  constructor <;> omega

/-- A library that spells all nine digits of the nanoseconds, which are all needed if the last is not zero. -/
def nanosecondTexts : Rfc3339 ℤ where
  format at_ := if FourDigitYear at_ then some (String.ofList (timestampText at_)) else none
  parse text := (readItems timestampFormat .unset text.toList).map Parts.instant

theorem nanosecondTexts_lawful : nanosecondTexts.Lawful FourDigitYear where
  format at_ := by
    simp only [nanosecondTexts]
    split_ifs with short
    · exact iff_of_true rfl short
    · exact iff_of_false nofun short
  parse at_ text written := by
    simp only [nanosecondTexts] at written ⊢
    split_ifs at written with short
    obtain rfl := Option.some.inj written
    have known := short.representable
    rw [String.toList_ofList, ← flatMap_timestampFormat, readItems_timestampFormat (valid_of known),
      Option.map_some, instant_of known]

end Harkness.Runtime
