import Harkness.Runtime.Store.Column
import Harkness.ToMathlib.Utf8
import Mathlib

/-! # The one spelling of instants and of identifiers in columns

The store's description of a timestamp has a fixed width for each of its parts, largest first, and is applied
in UTC. So the bytes of two stored timestamps compare as the instants do, and an instant is read back.
Identifiers are spelled in hyphenated fields of a fixed width and compare as their numbers do.
-/

namespace Harkness.Runtime.Store

open Approval Domain DateTime FixedWidth

/-- The hyphenated spelling of an identifier. -/
def formatId (id : ℕ) : List Char :=
  spell 16 8 (id / 16 ^ 24) ++
    field '-' 16 4 (16 ^ 20) (id % 16 ^ 24) fun rest =>
      field '-' 16 4 (16 ^ 16) rest fun rest =>
        field '-' 16 4 (16 ^ 12) rest fun rest => '-' :: spell 16 12 rest

theorem formatId_lt {id later : ℕ} (fits : later < 2 ^ 128) (before : id < later) :
    formatId id < formatId later := by
  refine append_lt_append (by simp) ?_
  rcases (Nat.div_le_div_right (c := 16 ^ 24) before.le).lt_or_eq with lower | same
  · exact .inl (spell_lt (by decide) (by decide) (Nat.div_lt_of_lt_mul (by omega)) lower)
  · refine .inr ⟨by rw [same], ?_⟩
    have before : id % 16 ^ 24 < later % 16 ^ 24 := by
      have first := Nat.div_add_mod id (16 ^ 24)
      have second := Nat.div_add_mod later (16 ^ 24)
      rw [same] at first
      omega
    have one := Nat.mod_lt later (by decide : 16 ^ 24 > 0)
    refine field_lt (by decide) (by decide) (Nat.div_lt_of_lt_mul (by omega)) before fun before => ?_
    have two := Nat.mod_lt (later % 16 ^ 24) (by decide : 16 ^ 20 > 0)
    refine field_lt (by decide) (by decide) (Nat.div_lt_of_lt_mul (by omega)) before fun before => ?_
    have three := Nat.mod_lt (later % 16 ^ 24 % 16 ^ 20) (by decide : 16 ^ 16 > 0)
    refine field_lt (by decide) (by decide) (Nat.div_lt_of_lt_mul (by omega)) before fun before => ?_
    refine List.cons_lt_cons_iff.mpr (.inr ⟨rfl, ?_⟩)
    exact spell_lt (by decide) (by decide) (Nat.mod_lt _ (by decide)) before

/-- An instant with the offset from UTC, in seconds, that its date and time are given at. -/
structure OffsetDateTime where
  instant : Instant
  offset : ℤ
  bounded : offset.natAbs < 26 * 3600
  representable : Representable (instant + offset * 10 ^ 9)
deriving DecidableEq

namespace OffsetDateTime

/-- The year of the date, at its own offset. -/
def year (at_ : OffsetDateTime) : ℤ := yearOf (at_.instant + at_.offset * 10 ^ 9)

/-- `to_offset(UTC)`: past the last date there is none, and the conversion panics. -/
def toUtc (at_ : OffsetDateTime) : Option Instant :=
  if Representable at_.instant then some at_.instant else none

end OffsetDateTime

/-- Formats a lifecycle instant into its stored spelling, if its date in UTC is representable. -/
def encodeOffsetTimestamp (codecs : Codecs) (record field : String) (at_ : OffsetDateTime) :
    Option (Except StoreError String) :=
  at_.toUtc.map (encodeTimestamp codecs record field)

section Stored

variable {codecs : Codecs} {at_ later : Instant}

namespace OffsetDateTime

/-- The year of the date, at its own offset or in UTC, is not before the year 0. -/
def FromYearZero (at_ : OffsetDateTime) : Prop := 0 ≤ at_.year ∨ 0 ≤ yearOf at_.instant

/-- An offset does not reach over a year. -/
theorem FromYearZero.neg_one_le {at_ : OffsetDateTime} (since : at_.FromYearZero)
    (known : Representable at_.instant) :
    -1 ≤ yearOf at_.instant := by
  rcases since with own | utc
  · have bounded := at_.bounded
    have known' := at_.representable
    have reached := (dayOfYear_bounds known').1
    have passed := dayOf_lt_next known
    have days : dayOf (at_.instant + at_.offset * 10 ^ 9) ≤ dayOf at_.instant + 2 := by
      unfold dayOf nanosPerDay
      omega
    unfold year at own
    unfold dayOfYear at reached
    by_contra before
    have early : yearStart (yearOf at_.instant + 1) ≤ yearStart (-1) := by
      unfold yearStart
      omega
    have start : yearStart 0 ≤ yearStart (yearOf (at_.instant + at_.offset * 10 ^ 9)) := by
      unfold yearStart
      omega
    have gap : yearStart 0 = yearStart (-1) + 365 := rfl
    omega
  · omega

end OffsetDateTime

/-- Of timestamps from the year 0 to the year 9999, every one that has a date in UTC is stored, and is read
back; and the bytes of two stored ones compare as the instants do. -/
theorem stored_timestamps (describes : codecs.Describes) (record field : String) :
    (∀ at_ : OffsetDateTime, Representable at_.instant →
      ∃ text, encodeOffsetTimestamp codecs record field at_ = some (.ok text)) ∧
    (∀ (at_ : OffsetDateTime) (text : String),
      encodeOffsetTimestamp codecs record field at_ = some (.ok text) →
      decodeTimestamp codecs record field text = .ok at_.instant) ∧
    ∀ (at_ later : OffsetDateTime) (text text' : String), at_.FromYearZero → later.FromYearZero →
      encodeOffsetTimestamp codecs record field at_ = some (.ok text) →
      encodeOffsetTimestamp codecs record field later = some (.ok text') →
      (Utf8.encode text.toList < Utf8.encode text'.toList ↔ at_.instant < later.instant) ∧
        (Utf8.encode text.toList = Utf8.encode text'.toList ↔ at_.instant = later.instant) := by
  have stored (at_ : OffsetDateTime) (text : String)
      (encoded : encodeOffsetTimestamp codecs record field at_ = some (.ok text)) :
      Representable at_.instant ∧ text = String.ofList (timestampText at_.instant) := by
    obtain ⟨utc, converted, encoded⟩ := Option.map_eq_some_iff.mp encoded
    rw [OffsetDateTime.toUtc] at converted
    split_ifs at converted with known
    obtain rfl := Option.some.inj converted
    rw [(decodeTimestamp_encodeTimestamp describes _ _ known).1] at encoded
    exact ⟨known, (Except.ok.inj encoded).symm⟩
  refine ⟨fun at_ known => ?_, fun at_ text encoded => ?_,
    fun at_ later text text' since since' encoded encoded' => ?_⟩
  · refine ⟨String.ofList (timestampText at_.instant), ?_⟩
    rw [encodeOffsetTimestamp, OffsetDateTime.toUtc, if_pos known, Option.map_some,
      (decodeTimestamp_encodeTimestamp describes _ _ known).1]
  · obtain ⟨known, rfl⟩ := stored at_ text encoded
    exact (decodeTimestamp_encodeTimestamp describes _ _ known).2
  · obtain ⟨known, rfl⟩ := stored at_ text encoded
    obtain ⟨known', rfl⟩ := stored later text' encoded'
    rw [String.toList_ofList, String.toList_ofList]
    constructor
    · rw [Utf8.encode_lt_encode (timestampText_ascii _) (timestampText_ascii _)]
      exact timestampText_lt_iff known known' (since.neg_one_le known) (since'.neg_one_le known')
    · constructor
      · intro same
        have read : decodeTimestamp codecs record field (String.ofList (timestampText at_.instant)) =
          .ok at_.instant :=
          (decodeTimestamp_encodeTimestamp describes _ _ known).2
        rw [Utf8.encode_injective same, (decodeTimestamp_encodeTimestamp describes _ _ known').2] at read
        exact (Except.ok.inj read).symm
      · exact fun same => by rw [same]

end Stored

/-- A library that formats and parses timestamps as they are described. -/
private def describingCodecs : Codecs where
  formatTimestamp at_ := .ok (String.ofList (timestampFormat.flatMap (FormatItem.text (.of at_))))
  parseTimestamp text := (readItems timestampFormat .unset text.toList).map Parts.instant
  formatId _ := ""
  parseId _ := .error "not an identifier"
  pathText _ := none
  pathOf _ := []
  serializeTexts _ := .error "not serialized"
  deserializeCapabilities _ _ := .error "not an array"
  semver _ := .error "not a version"
  debug text := text

private theorem describingCodecs_describes : describingCodecs.Describes where
  format _ _ := rfl
  parse _ _ read _ := congrArg (Option.map Parts.instant) read

private def epoch : OffsetDateTime := ⟨0, 0, by decide, by decide⟩

private def secondBehind : OffsetDateTime := ⟨10 ^ 9, -18000, by decide, by decide⟩

private theorem zero_le_yearOf {instant : ℤ} (since : 0 ≤ instant) (until_ : instant ≤ 10 ^ 9) :
    0 ≤ yearOf instant := by
  have begun : yearStart 1970 = 719528 := rfl
  have next : yearStart (1970 + 1) = 719893 := rfl
  have day : dayOf instant = 719528 := by
    unfold dayOf nanosPerDay
    omega
  rw [yearOf_eq (by decide : -9999 ≤ (1970 : ℤ)) (by decide) (by omega) (by omega)]
  decide

/-- The first second of 1970, and the next one as it is given five hours behind. -/
theorem stored_timestamps_sample : ∃ text text',
    encodeOffsetTimestamp describingCodecs "run" "created_at" epoch = some (.ok text) ∧
    encodeOffsetTimestamp describingCodecs "run" "created_at" secondBehind = some (.ok text') ∧
    decodeTimestamp describingCodecs "run" "created_at" text = .ok epoch.instant ∧
    Utf8.encode text.toList < Utf8.encode text'.toList := by
  obtain ⟨stored, decoded, ordered⟩ := stored_timestamps describingCodecs_describes "run" "created_at"
  obtain ⟨text, encoded⟩ := stored epoch (by decide)
  obtain ⟨text', encoded'⟩ := stored secondBehind (by decide)
  have since : epoch.FromYearZero := .inr (zero_le_yearOf (by decide) (by decide))
  have since' : secondBehind.FromYearZero := .inr (zero_le_yearOf (by decide) (by decide))
  have before : epoch.instant < secondBehind.instant := by decide
  exact ⟨text, text', encoded, encoded', decoded _ _ encoded,
    (ordered _ _ _ _ since since' encoded encoded').1.mpr before⟩

end Harkness.Runtime.Store
