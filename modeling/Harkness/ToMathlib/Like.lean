import Mathlib

/-! # Patterns of SQL's LIKE

In a pattern `%` stands for any text and `_` for any character; an escape character takes the one behind
it literally. Characters are compared without regard to the case of ASCII letters. Pattern and text are read
as C strings, up to their first NUL, and a pattern above a length in bytes is refused before it is read.
-/

namespace Like

/-- One piece of a pattern. -/
inductive Token where
  | anything
  | anyOne
  | literal (character : Char)
deriving DecidableEq

def token (character : Char) : Token :=
  if character = '%' then .anything else if character = '_' then .anyOne else .literal character

/-- The pieces of a pattern, or none where it ends in an escape character. -/
def tokens (escape : Char) : List Char → Option (List Token)
  | [] => some []
  | character :: rest =>
    if character = escape then
      match rest with
      | [] => none
      | escaped :: rest => (tokens escape rest).map (.literal escaped :: ·)
    else (tokens escape rest).map (token character :: ·)

def matchesTokens : List Token → List Char → Bool
  | [], text => text.isEmpty
  | .anything :: pieces, text => text.tails.any fun tail => matchesTokens pieces tail
  | .anyOne :: pieces, text =>
    match text with
    | [] => false
    | _ :: text => matchesTokens pieces text
  | .literal character :: pieces, text =>
    match text with
    | [] => false
    | other :: text => character.toLower = other.toLower && matchesTokens pieces text

/-- What is read of a text. -/
def untilNul (text : List Char) : List Char := text.takeWhile (· ≠ '\x00')

/-- `SQLITE_MAX_LIKE_PATTERN_LENGTH` -/
def maxPatternLength : ℕ := 50000

def byteLength (text : List Char) : ℕ := (text.map Char.utf8Size).sum

/-- Whether a text matches a pattern with an escape character; none where the pattern is refused. -/
def like (escape : Char) (pattern text : List Char) : Option Bool :=
  if maxPatternLength < byteLength pattern then none
  else some ((tokens escape (untilNul pattern)).any (matchesTokens · (untilNul text)))

/-- Equality up to the case of ASCII letters. -/
def FoldEq (one other : List Char) : Prop := one.map Char.toLower = other.map Char.toLower

instance (one other : List Char) : Decidable (FoldEq one other) := inferInstanceAs (Decidable (_ = _))

variable {escape : Char} {text rest : List Char} {pieces : List Token}

@[simp] theorem tokens_nil : tokens escape [] = some [] := rfl

@[simp] theorem matchesTokens_nil (text : List Char) : matchesTokens [] text = text.isEmpty := rfl

@[simp] theorem matchesTokens_literal_nil (character : Char) :
    matchesTokens (.literal character :: pieces) [] = false := rfl

@[simp] theorem matchesTokens_literal_cons (character other : Char) :
    matchesTokens (.literal character :: pieces) (other :: text) =
      (character.toLower = other.toLower && matchesTokens pieces text) := rfl

theorem matchesTokens_anything : matchesTokens (.anything :: pieces) text = true ↔
    ∃ front back, text = front ++ back ∧ matchesTokens pieces back = true := by
  rw [show matchesTokens (.anything :: pieces) text =
    text.tails.any fun tail => matchesTokens pieces tail from rfl, List.any_eq_true]
  constructor
  · rintro ⟨back, tail, meets⟩
    obtain ⟨front, rfl⟩ := (List.mem_tails ..).mp tail
    exact ⟨front, back, rfl, meets⟩
  · rintro ⟨front, back, rfl, meets⟩
    exact ⟨back, (List.mem_tails ..).mpr ⟨front, rfl⟩, meets⟩

theorem matchesTokens_literals (literals text : List Char) :
    matchesTokens (literals.map .literal) text = true ↔ FoldEq text literals := by
  induction literals generalizing text with
  | nil => cases text <;> simp [FoldEq]
  | cons character literals ih =>
    cases text with
    | nil => simp [FoldEq]
    | cons other text =>
      rw [List.map_cons, matchesTokens_literal_cons, Bool.and_eq_true, decide_eq_true_iff, ih, FoldEq, FoldEq,
        List.map_cons, List.map_cons, List.cons.injEq, eq_comm]

theorem tokens_cons {character : Char} (plain : character ≠ escape) :
    tokens escape (character :: rest) = (tokens escape rest).map (token character :: ·) := by
  rw [tokens.eq_def]
  exact if_neg plain

theorem tokens_escape (character : Char) :
    tokens escape (escape :: character :: rest) = (tokens escape rest).map (.literal character :: ·) := by
  rw [tokens.eq_def]
  exact if_pos rfl

/-- Puts an escape character before each one that would stand for something else. -/
def escaped (escape : Char) (text : List Char) : List Char :=
  text.flatMap fun character =>
    if character = escape ∨ character = '%' ∨ character = '_' then [escape, character] else [character]

theorem escaped_cons (character : Char) (text : List Char) : escaped escape (character :: text) =
    (if character = escape ∨ character = '%' ∨ character = '_' then [escape, character] else [character]) ++
      escaped escape text := List.flatMap_cons

/-- What is escaped is taken literally. -/
theorem tokens_escaped (text : List Char) :
    tokens escape (escaped escape text) = some (text.map .literal) := by
  induction text with
  | nil => rfl
  | cons character text ih =>
    rw [escaped_cons]
    by_cases special : character = escape ∨ character = '%' ∨ character = '_'
    · rw [if_pos special, List.cons_append, List.cons_append, List.nil_append, tokens_escape, ih]
      rfl
    · have plain := special
      simp only [not_or] at special
      rw [if_neg plain, List.cons_append, List.nil_append, tokens_cons special.1, ih, token,
        if_neg special.2.1, if_neg special.2.2]
      rfl

theorem untilNul_cons {character : Char} (read : character ≠ '\x00') :
    untilNul (character :: rest) = character :: untilNul rest :=
  List.takeWhile_cons_of_pos (decide_eq_true read)

/-- What is read of an escaped text is what is read of the text, escaped. -/
theorem untilNul_escaped (mark : escape ≠ '\x00') (text : List Char) :
    untilNul (escaped escape text) = escaped escape (untilNul text) := by
  induction text with
  | nil => rfl
  | cons character text ih =>
    rw [escaped_cons]
    by_cases end_ : character = '\x00'
    · subst end_
      rw [if_neg (by simpa using mark.symm)]
      rfl
    · rw [untilNul_cons end_, escaped_cons]
      split_ifs
      · rw [List.cons_append, List.singleton_append, untilNul_cons mark, untilNul_cons end_, ih]
        rfl
      · rw [List.singleton_append, untilNul_cons end_, ih]
        rfl

end Like
