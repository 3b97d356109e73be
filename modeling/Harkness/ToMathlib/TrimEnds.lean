import Mathlib.Data.List.DropRight

/-! # Lists without what is blank at their ends

A list is trimmed by dropping what is blank from both ends. The last block of a list of entries is
what follows the last blank entry before its blank end.
-/

namespace List

variable {α : Type*} {p : α → Bool} {l : List α}

/-- The list without what satisfies a predicate at either end. -/
def trimEnds (p : α → Bool) (l : List α) : List α := (l.dropWhile p).rdropWhile p

/-- A list that neither begins nor ends with what is dropped. -/
def Trimmed (p : α → Bool) (l : List α) : Prop :=
  (∀ a ∈ l.head?, p a = false) ∧ ∀ a ∈ l.getLast?, p a = false

theorem trimmed_nil : Trimmed p ([] : List α) := ⟨nofun, nofun⟩

theorem rdropWhile_append_of_forall {blank : List α} (ends : ∀ a ∈ blank, p a = true) :
    (l ++ blank).rdropWhile p = l.rdropWhile p := by
  induction blank using List.reverseRecOn with
  | nil => rw [List.append_nil]
  | append_singleton blank a ih =>
    have last := ends a (List.mem_append_right _ (List.mem_singleton_self a))
    rw [← List.append_assoc, List.rdropWhile_concat_pos p _ _ last]
    exact ih fun b member => ends b (List.mem_append_left _ member)

theorem rdropWhile_of_getLast? (last : ∀ a ∈ l.getLast?, p a = false) : l.rdropWhile p = l := by
  rw [List.rdropWhile_eq_self_iff]
  intro filled blank
  rw [last _ (List.getLast?_eq_some_getLast filled)] at blank
  exact Bool.false_ne_true blank

/-- What is trimmed already is what blank ends around it are trimmed to. -/
theorem trimEnds_append (trimmed : Trimmed p l) {before after : List α}
    (begins : ∀ a ∈ before, p a = true) (ends : ∀ a ∈ after, p a = true) :
    (before ++ l ++ after).trimEnds p = l := by
  rw [trimEnds, List.append_assoc, List.dropWhile_append_of_pos begins]
  cases l with
  | nil =>
    rw [List.nil_append, List.dropWhile_eq_nil_iff.mpr ends, List.rdropWhile_nil]
  | cons a l =>
    rw [List.cons_append, List.dropWhile_cons_of_neg (by rw [trimmed.1 a rfl]; exact Bool.false_ne_true),
      ← List.cons_append, rdropWhile_append_of_forall ends]
    exact rdropWhile_of_getLast? trimmed.2

theorem trimEnds_of_trimmed (trimmed : Trimmed p l) : l.trimEnds p = l := by
  have plain := trimEnds_append trimmed (List.forall_mem_nil _) (List.forall_mem_nil _)
  rwa [List.nil_append, List.append_nil] at plain

/-- The entries after the last blank one, before the blank ones at the end. -/
def lastBlock (p : α → Bool) (l : List α) : List α := (l.rdropWhile p).rtakeWhile fun a => !p a

/-- A block without blank entries, behind a blank one if there is any before it, is the last block. -/
theorem lastBlock_append {before block after : List α} (blank : ∀ gap ∈ before.getLast?, p gap = true)
    (filled : ∀ a ∈ block, p a = false) (some_ : block ≠ []) (ends : ∀ a ∈ after, p a = true) :
    (before ++ block ++ after).lastBlock p = block := by
  have last : ∀ a ∈ (before ++ block).getLast?, p a = false := by
    intro a last
    rw [List.getLast?_append, List.getLast?_eq_some_getLast some_] at last
    obtain rfl := Option.some.inj last
    exact filled _ (List.getLast_mem some_)
  rw [lastBlock, rdropWhile_append_of_forall ends, rdropWhile_of_getLast? last]
  clear last ends some_
  induction block using List.reverseRecOn with
  | nil =>
    rw [List.append_nil]
    rcases List.eq_nil_or_concat before with rfl | ⟨front, gap, rfl⟩
    · rfl
    · rw [List.concat_eq_append] at blank ⊢
      have gapped : p gap = true := blank gap (by rw [List.getLast?_concat]; rfl)
      rw [List.rtakeWhile_concat_neg]
      rw [gapped]
      exact Bool.false_ne_true
  | append_singleton block a ih =>
    have here := filled a (List.mem_append_right _ (List.mem_singleton_self a))
    rw [← List.append_assoc, List.rtakeWhile_concat_pos, ih]
    · exact fun b member => filled b (List.mem_append_left _ member)
    · rw [here]; rfl

end List
