import Mathlib

/-! # Reading texts in parts

A list is split at its first separators into a bounded number of parts, the last of which takes the
rest. A text is split at white space, and a number is read from its digits.
-/

namespace SplitN

variable {α : Type*} [DecidableEq α] {sep : α} {items first rest last : List α} {words : List (List α)}

/-- The parts of a list before its first separators, and what is behind them, at most that many. -/
@[simp] def splitn (sep : α) : ℕ → List α → List (List α)
  | 0, _ => []
  | 1, items => [items]
  | count + 2, items =>
    match items.dropWhile (· ≠ sep) with
    | [] => [items]
    | _ :: rest => items.takeWhile (· ≠ sep) :: splitn sep (count + 1) rest

/-- Words, each with a separator behind it, and what follows them. -/
def join (sep : α) (words : List (List α)) (last : List α) : List α := words.flatMap (· ++ [sep]) ++ last

theorem splitn_append_cons (clear : sep ∉ first) (count : ℕ) :
    splitn sep (count + 2) (first ++ sep :: rest) = first :: splitn sep (count + 1) rest := by
  have differs : ∀ item ∈ first, decide (item ≠ sep) = true := by
    rintro item member
    exact decide_eq_true fun same => clear (same ▸ member)
  have dropped : (first ++ sep :: rest).dropWhile (· ≠ sep) = sep :: rest := by
    rw [List.dropWhile_append_of_pos differs, List.dropWhile_cons_of_neg (by simp)]
  have taken : (first ++ sep :: rest).takeWhile (· ≠ sep) = first := by
    rw [List.takeWhile_append_of_pos differs, List.takeWhile_cons_of_neg (by simp), List.append_nil]
  rw [splitn, dropped, taken]

/-- Words that hold no separator are told apart. -/
theorem splitn_join (clear : ∀ word ∈ words, sep ∉ word) (last : List α) :
    splitn sep (words.length + 1) (join sep words last) = words ++ [last] := by
  induction words with
  | nil => rfl
  | cons word words ih =>
    have here := clear word List.mem_cons_self
    have there := ih fun other member => clear other (List.mem_cons_of_mem _ member)
    have shape : join sep (word :: words) last = word ++ sep :: join sep words last := by
      simp [join]
    rw [shape, List.length_cons, splitn_append_cons here, there, List.cons_append]

theorem length_splitn_le (count : ℕ) (items : List α) :
    (splitn sep count items).length ≤ items.count sep + 1 := by
  induction count using Nat.strong_induction_on generalizing items with
  | h count ih =>
    match count, ih with
    | 0, _ => exact Nat.zero_le _
    | 1, _ => exact Nat.le_add_left 1 _
    | count + 2, ih =>
      rw [splitn]
      rcases found : items.dropWhile (· ≠ sep) with _ | ⟨item, rest⟩
      · exact Nat.le_add_left 1 _
      · have shorter := ih (count + 1) (Nat.lt_succ_self _) rest
        have stop : item = sep := by
          have head := List.head?_dropWhile_not (· ≠ sep) items
          rw [found] at head
          simpa using head
        have whole := congrArg (List.count sep) (List.takeWhile_append_dropWhile (p := (· ≠ sep)) (l := items))
        rw [found, List.count_append, stop, List.count_cons_self] at whole
        rw [List.length_cons]
        omega

theorem count_join (clear : ∀ word ∈ words, sep ∉ word) : (words.flatMap (· ++ [sep])).count sep = words.length := by
  induction words with
  | nil => rfl
  | cons word words ih =>
    have here := List.count_eq_zero.mpr (clear word List.mem_cons_self)
    have there := ih fun other member => clear other (List.mem_cons_of_mem _ member)
    rw [List.flatMap_cons, List.count_append, List.count_append, here, there, List.count_singleton_self,
      List.length_cons]
    omega

/-- Words cut before their last separator are fewer. -/
theorem length_splitn_take_lt (clear : ∀ word ∈ words, sep ∉ word) {n : ℕ}
    (cut : n < (words.flatMap (· ++ [sep])).length) (last : List α) (count : ℕ) :
    (splitn sep count ((join sep words last).take n)).length < words.length + 1 := by
  have whole := count_join clear
  set front := words.flatMap (· ++ [sep])
  have begun : (join sep words last).take n = front.take n := List.take_append_of_le_length cut.le
  have ends : sep ∈ front.drop n := by
    have filled : words ≠ [] := by
      rintro rfl
      exact absurd cut (Nat.not_lt_zero n)
    have lastWord : front = (words.dropLast.flatMap (· ++ [sep]) ++ words.getLast filled) ++ [sep] := by
      have split := congrArg (List.flatMap (· ++ [sep])) (List.dropLast_append_getLast filled)
      rw [List.flatMap_append] at split
      simpa [front] using split.symm
    rw [lastWord] at cut ⊢
    rw [List.length_append, List.length_singleton] at cut
    rw [List.drop_append_of_le_length (by omega)]
    exact List.mem_append_right _ (List.mem_singleton_self sep)
  have parts : front.count sep = (front.take n).count sep + (front.drop n).count sep := by
    rw [← List.count_append, List.take_append_drop]
  have positive := List.count_pos_iff.mpr ends
  have bound : (splitn sep count (front.take n)).length ≤ _ := length_splitn_le count (front.take n)
  rw [begun]
  omega

/-- A list of terminated parts, cut anywhere, is split into the beginnings of them. -/
theorem splitOn_take_flatMap {parts : List (List α)} (clear : ∀ part ∈ parts, sep ∉ part) (n : ℕ) :
    ∀ piece ∈ ((parts.flatMap (· ++ [sep])).take n).splitOn sep, piece = [] ∨ ∃ part ∈ parts, piece <+: part := by
  induction parts generalizing n with
  | nil =>
    intro piece member
    rw [List.flatMap_nil, List.take_nil, List.splitOn_nil, List.mem_singleton] at member
    exact .inl member
  | cons part parts ih =>
    have here := clear part List.mem_cons_self
    have there := ih fun other member => clear other (List.mem_cons_of_mem _ member)
    intro piece member
    by_cases short : n ≤ part.length
    · have begun : ((part :: parts).flatMap (· ++ [sep])).take n = part.take n := by
        rw [List.flatMap_cons, List.append_assoc, List.take_append_of_le_length short]
      rw [begun, List.splitOn_eq_singleton (fun inside => here (List.mem_of_mem_take inside)),
        List.mem_singleton] at member
      exact .inr ⟨part, List.mem_cons_self, member ▸ List.take_prefix n part⟩
    · have whole : ((part :: parts).flatMap (· ++ [sep])).take n =
          part ++ sep :: (parts.flatMap (· ++ [sep])).take (n - (part.length + 1)) := by
        have fits : (part ++ [sep]).length ≤ n := by
          rw [List.length_append, List.length_singleton]
          omega
        rw [List.flatMap_cons, List.take_append, List.take_of_length_le fits, List.length_append,
          List.length_singleton, List.append_assoc, List.singleton_append]
      rw [whole, List.splitOn_append_cons_self_of_not_mem here, List.mem_cons] at member
      rcases member with rfl | member
      · exact .inr ⟨piece, List.mem_cons_self, List.prefix_refl piece⟩
      · rcases there _ piece member with empty | ⟨other, listed, begins⟩
        · exact .inl empty
        · exact .inr ⟨other, List.mem_cons_of_mem _ listed, begins⟩

/-- A character that is white space. -/
def isWhitespace (character : Char) : Bool :=
  let code := character.toNat
  (0x09 ≤ code && code ≤ 0x0D) || code == 0x20 || code == 0x85 || code == 0xA0 || code == 0x1680 ||
    (0x2000 ≤ code && code ≤ 0x200A) || code == 0x2028 || code == 0x2029 || code == 0x202F ||
    code == 0x205F || code == 0x3000

/-- The words of a text, as white space sets them apart. -/
def splitWhitespace (text : List Char) : List (List Char) :=
  (text.splitOnP isWhitespace).filter (· ≠ [])

theorem splitWhitespace_pair {one two : List Char} {space : Char} (blank : isWhitespace space = true)
    (first : ∀ character ∈ one, isWhitespace character = false)
    (second : ∀ character ∈ two, isWhitespace character = false) (some_ : one ≠ []) (filled : two ≠ []) :
    splitWhitespace (one ++ space :: two) = [one, two] := by
  rw [splitWhitespace, List.splitOnP_append_cons_of_forall_mem first space blank,
    List.splitOnP_eq_singleton second]
  simp [some_, filled]

/-- An unsigned number below a bound, which may have a plus sign before its digits. -/
def parseUnsigned (bound : ℕ) (text : List Char) : Option ℕ :=
  let digits := if text.head? = some '+' then text.tail else text
  if digits ≠ [] ∧ digits.all Char.isDigit ∧ Nat.ofDigitChars 10 digits 0 < bound then
    some (Nat.ofDigitChars 10 digits 0)
  else none

theorem isDigit_toDigits {number : ℕ} {character : Char} (member : character ∈ Nat.toDigits 10 number) :
    character.isDigit = true := Nat.isDigit_of_mem_toDigits (by decide) (by decide) member

/-- A number is read back from its digits. -/
theorem parseUnsigned_toDigits {bound number : ℕ} (below : number < bound) :
    parseUnsigned bound (Nat.toDigits 10 number) = some number := by
  have unsigned : (Nat.toDigits 10 number).head? ≠ some '+' := by
    intro plus
    have digit := isDigit_toDigits (List.mem_of_head? plus)
    exact absurd digit (by decide)
  have digits : (Nat.toDigits 10 number).all Char.isDigit = true :=
    List.all_eq_true.mpr fun _ member => isDigit_toDigits member
  have value : Nat.ofDigitChars 10 (Nat.toDigits 10 number) 0 = number := Nat.ofDigitChars_ten_toDigits
  rw [parseUnsigned, if_neg unsigned, value]
  exact if_pos ⟨Nat.toDigits_ne_nil, digits, below⟩

theorem isWhitespace_of_isDigit {character : Char} (digit : character.isDigit = true) :
    isWhitespace character = false := by
  have bounds : 48 ≤ character.toNat ∧ character.toNat ≤ 57 := by
    simpa [Char.isDigit, UInt32.le_iff_toNat_le] using digit
  simp only [isWhitespace, Bool.or_eq_false_iff, Bool.and_eq_false_iff, decide_eq_false_iff_not,
    beq_eq_false_iff_ne]
  omega

end SplitN
