import Mathlib.Data.List.Basic

/-! # Splitting a list into lines

A line ends with its terminator; only the last one may lack it, and no line is empty. A list is the
concatenation of exactly one such list of lines. One line moved past others leaves the same list
only when all of them are copies of it.
-/

namespace Lines

variable {α : Type*} {terminator : α}

/-- Lines of one list, in order: each is ended by the terminator, but for a last one that is not
empty. -/
inductive Proper (terminator : α) : List (List α) → Prop
  | nil : Proper terminator []
  | last {line : List α} (filled : line ≠ []) (plain : terminator ∉ line) : Proper terminator [line]
  | cons {line : List α} {lines : List (List α)} (plain : terminator ∉ line)
      (rest : Proper terminator lines) : Proper terminator ((line ++ [terminator]) :: lines)

theorem Proper.tail {line : List α} {lines : List (List α)}
    (proper : Proper terminator (line :: lines)) : Proper terminator lines := by
  cases proper with
  | last => exact .nil
  | cons _ rest => exact rest

theorem Proper.of_append {first second : List (List α)}
    (proper : Proper terminator (first ++ second)) : Proper terminator second := by
  induction first with
  | nil => exact proper
  | cons line first ih => exact ih proper.tail

/-- A line is ended by the terminator or is the last one. -/
theorem Proper.head {line : List α} {lines : List (List α)}
    (proper : Proper terminator (line :: lines)) :
    (∃ body, terminator ∉ body ∧ line = body ++ [terminator]) ∨
      line ≠ [] ∧ terminator ∉ line ∧ lines = [] := by
  cases proper with
  | last filled plain => exact .inr ⟨filled, plain, rfl⟩
  | cons plain _ => exact .inl ⟨_, plain, rfl⟩

/-- What precedes the first terminator of a list is determined, and so is what follows it. -/
theorem first_terminator {left right after rest : List α} (plain : terminator ∉ left)
    (other : terminator ∉ right) (same : left ++ terminator :: after = right ++ terminator :: rest) :
    left = right ∧ after = rest := by
  induction left generalizing right with
  | nil =>
    cases right with
    | nil => exact ⟨rfl, (List.cons.inj same).2⟩
    | cons item right => exact absurd ((List.cons.inj same).1 ▸ List.mem_cons_self) other
  | cons item left ih =>
    cases right with
    | nil => exact absurd ((List.cons.inj same).1 ▸ List.mem_cons_self) plain
    | cons _ right =>
      obtain ⟨rfl, others⟩ := List.cons.inj same
      obtain ⟨rfl, behind⟩ := ih (fun member => plain (List.mem_cons_of_mem _ member))
        (fun member => other (List.mem_cons_of_mem _ member)) others
      exact ⟨rfl, behind⟩

/-- Moving a line past those behind it changes nothing exactly when they are copies of it. -/
theorem Proper.append_comm_iff {line : List α} {moved rest : List (List α)}
    (proper : Proper terminator (line :: (moved ++ rest))) :
    moved.flatten ++ line = line ++ moved.flatten ↔ ∀ other ∈ moved, other = line := by
  constructor
  · intro same
    induction moved with
    | nil => exact fun _ member => absurd member List.not_mem_nil
    | cons first moved ih =>
      obtain ⟨body, plain, rfl⟩ := proper.head.resolve_right fun last => by
        cases last.2.2
      rw [List.flatten_cons] at same
      obtain ⟨ended, lacking, rfl⟩ | ⟨filled, lacking, none⟩ := proper.tail.head
      · simp only [List.append_assoc, List.singleton_append] at same
        obtain ⟨rfl, behind⟩ := first_terminator lacking plain same
        refine List.forall_mem_cons.mpr ⟨rfl, ih proper.tail ?_⟩
        rw [List.append_assoc]
        exact behind
      · -- A moved line without terminator would put the first one of the two lists apart.
        obtain ⟨rfl, _⟩ := List.append_eq_nil_iff.mp none
        simp only [List.flatten_nil, List.append_nil] at same
        rw [← List.append_assoc, List.append_assoc body] at same
        have apart : terminator ∉ first ++ body := by
          rw [List.mem_append, not_or]
          exact ⟨lacking, plain⟩
        obtain ⟨shift, _⟩ := first_terminator apart plain same
        exact absurd (List.append_left_eq_self.mp shift) filled
  · intro copies
    have all : moved = List.replicate moved.length line :=
      List.eq_replicate_of_mem copies
    rw [all, ← List.flatten_concat, ← List.replicate_succ', List.replicate_succ, List.flatten_cons]

section Split

variable [DecidableEq α]

/-- The lines of a list, given what is already read of the first. -/
@[simp] def splitFrom (terminator : α) : List α → List α → List (List α)
  | read, [] => if read = [] then [] else [read]
  | read, item :: rest =>
    if item = terminator then (read ++ [item]) :: splitFrom terminator [] rest
    else splitFrom terminator (read ++ [item]) rest

def split (terminator : α) (items : List α) : List (List α) := splitFrom terminator [] items

theorem splitFrom_flatten (read items : List α) :
    (splitFrom terminator read items).flatten = read ++ items := by
  induction items generalizing read with
  | nil =>
    rw [splitFrom]
    split_ifs with empty
    · rw [empty]; rfl
    · simp only [List.flatten_cons, List.flatten_nil]
  | cons item items ih =>
    rw [splitFrom]
    split_ifs
    · rw [List.flatten_cons, ih, List.nil_append, List.append_assoc, List.singleton_append]
    · rw [ih, List.append_assoc, List.singleton_append]

@[simp] theorem split_flatten (items : List α) : (split terminator items).flatten = items :=
  splitFrom_flatten [] items

private theorem splitFrom_proper {read : List α} (plain : terminator ∉ read) (items : List α) :
    Proper terminator (splitFrom terminator read items) := by
  induction items generalizing read with
  | nil =>
    rw [splitFrom]
    split_ifs with empty
    · exact .nil
    · exact .last empty plain
  | cons item items ih =>
    rw [splitFrom]
    split_ifs with ends
    · subst ends
      exact .cons plain (ih List.not_mem_nil)
    · refine ih ?_
      rw [List.mem_append, List.mem_singleton, not_or]
      exact ⟨plain, fun same => ends same.symm⟩

theorem split_proper (items : List α) : Proper terminator (split terminator items) :=
  splitFrom_proper List.not_mem_nil items

/-- The complete lines of a list and what follows them, given what is already read of the first. -/
@[simp] def cutFrom (terminator : α) : List α → List α → List (List α) × List α
  | read, [] => ([], read)
  | read, item :: rest =>
    if item = terminator then
      ((read ++ [item]) :: (cutFrom terminator [] rest).1, (cutFrom terminator [] rest).2)
    else cutFrom terminator (read ++ [item]) rest

theorem cutFrom_line {line : List α} (plain : terminator ∉ line) (read rest : List α) :
    cutFrom terminator read (line ++ terminator :: rest) =
      ((read ++ line ++ [terminator]) :: (cutFrom terminator [] rest).1,
        (cutFrom terminator [] rest).2) := by
  induction line generalizing read with
  | nil => rw [List.nil_append, cutFrom, if_pos rfl, List.append_nil]
  | cons item line ih =>
    rw [List.mem_cons, not_or] at plain
    rw [List.cons_append, cutFrom, if_neg (Ne.symm plain.1), ih plain.2, List.append_assoc read,
      List.singleton_append]

theorem cutFrom_plain {line : List α} (plain : terminator ∉ line) (read : List α) :
    cutFrom terminator read line = ([], read ++ line) := by
  induction line generalizing read with
  | nil => rw [cutFrom, List.append_nil]
  | cons item line ih =>
    rw [List.mem_cons, not_or] at plain
    rw [cutFrom, if_neg (Ne.symm plain.1), ih plain.2, List.append_assoc, List.singleton_append]

theorem getLast?_of_mem_cut {read items line : List α}
    (member : line ∈ (cutFrom terminator read items).1) : line.getLast? = some terminator := by
  induction items generalizing read with
  | nil => exact absurd member List.not_mem_nil
  | cons item items ih =>
    rw [cutFrom] at member
    split_ifs at member with ends
    · rcases List.mem_cons.mp member with rfl | later
      · rw [List.getLast?_concat, ends]
      · exact ih later
    · exact ih member

theorem cutFrom_rest_plain {read : List α} (plain : terminator ∉ read) (items : List α) :
    terminator ∉ (cutFrom terminator read items).2 := by
  induction items generalizing read with
  | nil => exact plain
  | cons item items ih =>
    rw [cutFrom]
    split_ifs with ends
    · exact ih List.not_mem_nil
    · refine ih ?_
      rw [List.mem_append, List.mem_singleton, not_or]
      exact ⟨plain, fun same => ends same.symm⟩

theorem cutFrom_flatten (read items : List α) :
    (cutFrom terminator read items).1.flatten ++ (cutFrom terminator read items).2 =
      read ++ items := by
  induction items generalizing read with
  | nil => rw [cutFrom, List.flatten_nil, List.nil_append, List.append_nil]
  | cons item items ih =>
    rw [cutFrom]
    split_ifs
    · rw [List.flatten_cons, List.append_assoc, ih, List.nil_append, List.append_assoc,
        List.singleton_append]
    · rw [ih, List.append_assoc, List.singleton_append]

/-- A list is cut like its first part, and then like what is left of it with the second. -/
theorem cutFrom_append (read first second : List α) :
    cutFrom terminator read (first ++ second) =
      ((cutFrom terminator read first).1 ++
          (cutFrom terminator (cutFrom terminator read first).2 second).1,
        (cutFrom terminator (cutFrom terminator read first).2 second).2) := by
  induction first generalizing read with
  | nil => rfl
  | cons item first ih =>
    rw [List.cons_append, cutFrom, cutFrom]
    split_ifs
    · rw [ih]
      rfl
    · exact ih _

/-- The lines of a list are those complete in its first part and those of what is left with the
second. -/
theorem splitFrom_append_cut (read first second : List α) :
    splitFrom terminator read (first ++ second) =
      (cutFrom terminator read first).1 ++
        splitFrom terminator (cutFrom terminator read first).2 second := by
  induction first generalizing read with
  | nil => rfl
  | cons item first ih =>
    rw [List.cons_append, splitFrom, cutFrom]
    split_ifs
    · rw [ih, List.cons_append]
    · rw [ih]

theorem splitFrom_nil (read : List α) :
    splitFrom terminator read [] = if read = [] then [] else [read] := rfl

theorem splitFrom_eq_cut (read items : List α) :
    splitFrom terminator read items = (cutFrom terminator read items).1 ++
      if (cutFrom terminator read items).2 = [] then [] else [(cutFrom terminator read items).2] := by
  calc splitFrom terminator read items
    _ = splitFrom terminator read (items ++ []) := by rw [List.append_nil]
    _ = _ := splitFrom_append_cut read items []

/-- What is read so far is not all of its line when more follows. -/
theorem exists_longer_line {items : List α} (filled : items ≠ []) (read : List α) :
    ∃ line ∈ splitFrom terminator read items, read.length < line.length := by
  induction items generalizing read with
  | nil => exact absurd rfl filled
  | cons item items ih =>
    have longer : read.length < (read ++ [item]).length := by
      rw [List.length_append, List.length_singleton]
      omega
    rw [splitFrom]
    split_ifs
    · exact ⟨_, List.mem_cons_self, longer⟩
    · by_cases empty : items = []
      · have some_ : read ++ [item] ≠ [] := List.append_ne_nil_of_right_ne_nil _ (List.cons_ne_nil _ _)
        rw [empty, splitFrom_nil, if_neg some_]
        exact ⟨_, List.mem_cons_self, longer⟩
      · obtain ⟨line, member, further⟩ := ih empty (read ++ [item])
        exact ⟨line, member, Nat.lt_trans longer further⟩

end Split

end Lines
