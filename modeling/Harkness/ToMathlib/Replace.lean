import Mathlib.Data.List.Induction
import Mathlib.Data.List.Infix
import Mathlib.Data.List.Nodup

/-! # Replacing words in a text

`scan` replaces every occurrence of some words, from the left, by a marker. Where no word meets
another, itself or the marker, replacing the words one after another on the already rewritten text is
the same as replacing them all at once. Then the order does not matter, no word is left, and nothing
inside an occurrence is kept. The items of a text may carry more than the letters words are made of.
-/

namespace Replace

variable {α β : Type*}

/-- An occurrence of the second word may start inside one of the first. -/
def Meets (first second : List α) : Prop :=
  ∃ tail, tail ≠ [] ∧ tail <:+ first ∧ (tail <+: second ∨ second <+: tail)

/-- An occurrence of a word may start inside another one of it. -/
def MeetsItself (word : List α) : Prop :=
  ∃ tail, tail ≠ [] ∧ tail ≠ word ∧ tail <:+ word ∧ tail <+: word

/-- No word meets another, itself or the marker. -/
structure Separate (words : List (List α)) (marker : List α) : Prop where
  apart : ∀ first ∈ words, ∀ second ∈ words, first ≠ second → ¬Meets first second
  single : ∀ word ∈ words, ¬MeetsItself word
  before : ∀ word ∈ words, ¬Meets word marker
  behind : ∀ word ∈ words, ¬Meets marker word

theorem Separate.mono {words some : List (List α)} {marker : List α}
    (separate : Separate words marker) (part : some ⊆ words) : Separate some marker where
  apart := fun first one second other => separate.apart first (part one) second (part other)
  single := fun word member => separate.single word (part member)
  before := fun word member => separate.before word (part member)
  behind := fun word member => separate.behind word (part member)

theorem Meets.of_suffix {first whole second : List α} (inside : first <:+ whole)
    (meets : Meets first second) : Meets whole second := by
  obtain ⟨tail, filled, suffix, same⟩ := meets
  exact ⟨tail, filled, suffix.trans inside, same⟩

/-- Of a beginning of a list put together and its first part, one begins the other. -/
theorem start_or_longer {first whole rest : List α} (start : first <+: whole ++ rest) :
    whole <+: first ∨ first <+: whole :=
  List.prefix_or_prefix_of_prefix (List.prefix_append whole rest) start

theorem meets_of_start {first second : List α} (filled : first ≠ [])
    (same : first <+: second ∨ second <+: first) : Meets first second :=
  ⟨first, filled, List.suffix_refl first, same⟩

theorem meets_iff_drop {first second : List α} : Meets first second ↔
    ∃ count < first.length, first.drop count <+: second ∨ second <+: first.drop count := by
  constructor
  · rintro ⟨tail, filled, ⟨front, rfl⟩, same⟩
    refine ⟨front.length, ?_, by rwa [List.drop_left]⟩
    rw [List.length_append]
    exact Nat.lt_add_of_pos_right (List.length_pos_of_ne_nil filled)
  · rintro ⟨count, short, same⟩
    exact ⟨first.drop count, by rwa [Ne, List.drop_eq_nil_iff, Nat.not_le], List.drop_suffix _ _, same⟩

theorem meetsItself_iff_drop {word : List α} : MeetsItself word ↔
    ∃ count < word.length, 0 < count ∧ word.drop count <+: word := by
  constructor
  · rintro ⟨tail, filled, proper, ⟨front, rfl⟩, start⟩
    refine ⟨front.length, ?_, ?_, by rwa [List.drop_left]⟩
    · rw [List.length_append]
      exact Nat.lt_add_of_pos_right (List.length_pos_of_ne_nil filled)
    · refine List.length_pos_of_ne_nil fun none => proper ?_
      rw [none, List.nil_append]
  · rintro ⟨count, short, positive, start⟩
    refine ⟨word.drop count, by rwa [Ne, List.drop_eq_nil_iff, Nat.not_le], fun same => ?_,
      List.drop_suffix _ _, start⟩
    have sizes := congrArg List.length same
    rw [List.length_drop] at sizes
    omega

instance [DecidableEq α] {first second : List α} : Decidable (Meets first second) :=
  decidable_of_iff _ meets_iff_drop.symm

instance [DecidableEq α] {word : List α} : Decidable (MeetsItself word) :=
  decidable_of_iff _ meetsItself_iff_drop.symm

section Encoding

variable {γ : Type*} {encode : List α → List γ} {first second word marker : List α}
  {words : List (List α)}
  (append : ∀ first second, encode (first ++ second) = encode first ++ encode second)
  (injective : Function.Injective encode)

include append

private theorem encode_filled (injective : Function.Injective encode) (filled : word ≠ []) :
    encode word ≠ [] := by
  have empty : encode [] = [] := List.append_right_eq_self.mp (append [] []).symm
  exact fun same => filled (injective (same.trans empty.symm))

private theorem encode_start (start : first <+: second) : encode first <+: encode second := by
  obtain ⟨rest, rfl⟩ := start
  exact ⟨encode rest, (append first rest).symm⟩

private theorem encode_suffix (final : first <:+ second) : encode first <:+ encode second := by
  obtain ⟨before, rfl⟩ := final
  exact ⟨encode before, (append before first).symm⟩

include injective

theorem Meets.encoded (meets : Meets first second) : Meets (encode first) (encode second) := by
  obtain ⟨tail, filled, suffix, same⟩ := meets
  exact ⟨encode tail, encode_filled append injective filled, encode_suffix append suffix,
    same.imp (encode_start append) (encode_start append)⟩

theorem MeetsItself.encoded (meets : MeetsItself word) : MeetsItself (encode word) := by
  obtain ⟨tail, filled, proper, suffix, start⟩ := meets
  exact ⟨encode tail, encode_filled append injective filled, fun same => proper (injective same),
    encode_suffix append suffix, encode_start append start⟩

/-- Words whose encodings are separate are separate. -/
theorem Separate.of_encode (separate : Separate (words.map encode) (encode marker)) :
    Separate words marker where
  apart := fun _ one _ two different meets =>
    separate.apart _ (List.mem_map_of_mem one) _ (List.mem_map_of_mem two)
      (fun same => different (injective same)) (meets.encoded append injective)
  single := fun _ member meets =>
    separate.single _ (List.mem_map_of_mem member) (meets.encoded append injective)
  before := fun _ member meets =>
    separate.before _ (List.mem_map_of_mem member) (meets.encoded append injective)
  behind := fun _ member meets =>
    separate.behind _ (List.mem_map_of_mem member) (meets.encoded append injective)

end Encoding

variable [DecidableEq α] (key : β → α) (words : List (List α)) (marker : List β)

/-- The word a text begins with. -/
def starting (text : List β) : Option (List α) :=
  words.find? fun word => word.isPrefixOf (text.map key)

/-- Replaces every occurrence of the words, from the left, after a number of items left out. -/
@[simp] def scanFrom : ℕ → List β → List β
  | _, [] => []
  | skip + 1, _ :: rest => scanFrom skip rest
  | 0, item :: rest =>
    match starting key words (item :: rest) with
    | some word => marker ++ scanFrom (word.length - 1) rest
    | none => item :: scanFrom 0 rest

/-- Replaces every occurrence of the words, from the left. -/
def scan (text : List β) : List β := scanFrom key words marker 0 text

section Steps

variable {key} {words} {marker} {text : List β} {item : β} {word : List α}

theorem starting_eq_some (found : starting key words text = some word) :
    word ∈ words ∧ word <+: text.map key := by
  unfold starting at found
  have holds := List.find?_some found
  exact ⟨List.mem_of_find?_eq_some found, List.isPrefixOf_iff_prefix.mp holds⟩

theorem starting_eq_none :
    starting key words text = none ↔ ∀ word ∈ words, ¬word <+: text.map key := by
  rw [starting, List.find?_eq_none]
  simp only [List.isPrefixOf_iff_prefix]

theorem scanFrom_eq (skip : ℕ) (text : List β) :
    scanFrom key words marker skip text = scan key words marker (text.drop skip) := by
  induction text generalizing skip with
  | nil => cases skip <;> rfl
  | cons item rest ih =>
    cases skip with
    | zero => rfl
    | succ skip => exact ih skip

@[simp] theorem scan_nil : scan key words marker [] = [] := rfl

theorem scan_none (none : starting key words (item :: text) = none) :
    scan key words marker (item :: text) = item :: scan key words marker text := by
  rw [scan, scanFrom, none]
  rfl

theorem scan_some (filled : word ≠ []) (found : starting key words text = some word) :
    scan key words marker text = marker ++ scan key words marker (text.drop word.length) := by
  cases text with
  | nil =>
    obtain ⟨_, start⟩ := starting_eq_some found
    exact absurd (List.prefix_nil.mp start) filled
  | cons item text =>
    obtain ⟨count, size⟩ := Nat.exists_eq_succ_of_ne_zero (mt List.length_eq_zero_iff.mp filled)
    rw [scan, scanFrom, found]
    dsimp only
    rw [scanFrom_eq, size]
    rfl

theorem mem_of_mem_scan (member : item ∈ scan key words marker text) :
    item ∈ marker ∨ item ∈ text := by
  suffices general : ∀ skip, item ∈ scanFrom key words marker skip text →
      item ∈ marker ∨ item ∈ text from general 0 member
  clear member
  intro skip
  induction text generalizing skip with
  | nil => cases skip <;> exact fun member => absurd member List.not_mem_nil
  | cons first text ih =>
    cases skip with
    | succ skip => exact fun member => (ih skip member).imp_right (List.mem_cons_of_mem _)
    | zero =>
      rw [scanFrom]
      split
      · intro member
        rcases List.mem_append.mp member with sign | later
        · exact Or.inl sign
        · exact (ih _ later).imp_right (List.mem_cons_of_mem _)
      · intro member
        rcases List.mem_cons.mp member with rfl | later
        · exact Or.inr List.mem_cons_self
        · exact (ih _ later).imp_right (List.mem_cons_of_mem _)

/-- What no word starts in is kept. -/
theorem scan_append_of_forall {first second : List β}
    (clear : ∀ tail, tail ≠ [] → tail <:+ first → ∀ word ∈ words,
      ¬word <+: (tail ++ second).map key) :
    scan key words marker (first ++ second) = first ++ scan key words marker second := by
  induction first with
  | nil => rfl
  | cons item first ih =>
    have none : starting key words (item :: (first ++ second)) = none :=
      starting_eq_none.mpr (clear _ (List.cons_ne_nil item first) (List.suffix_refl _))
    rw [List.cons_append, scan_none none, ih, List.cons_append]
    exact fun tail filled suffix => clear tail filled (suffix.trans (List.suffix_cons _ _))

/-- No word starts in what no word meets. -/
theorem scan_append {first : List β} (clear : ∀ word ∈ words, ¬Meets (first.map key) word)
    (second : List β) :
    scan key words marker (first ++ second) = first ++ scan key words marker second := by
  refine scan_append_of_forall fun tail filled suffix word member start => ?_
  rw [List.map_append] at start
  refine clear word member (Meets.of_suffix (suffix.map key) (meets_of_start ?_
    (start_or_longer start)))
  simpa using filled

/-- A text in which no word occurs stays as it is. -/
theorem scan_eq_self (absent : ∀ word ∈ words, ¬word <:+: text.map key) :
    scan key words marker text = text := by
  induction text with
  | nil => rfl
  | cons item text ih =>
    have none : starting key words (item :: text) = none :=
      starting_eq_none.mpr fun word member start => absent word member start.isInfix
    rw [scan_none none, ih]
    intro word member inside
    exact absent word member (inside.trans (List.suffix_cons _ _).isInfix)

/-- What a word not meeting the marker begins with, once others are replaced, was there before, and
no word was replaced inside it. -/
theorem prefix_scan {start : List α} (clear : ¬Meets start (marker.map key))
    (begins : start <+: (scan key words marker text).map key) (filled : [] ∉ words) :
    start <+: text.map key ∧ ∀ place < start.length, starting key words (text.drop place) = none := by
  induction text generalizing start with
  | nil =>
    obtain rfl := List.prefix_nil.mp begins
    exact ⟨List.nil_prefix, fun place inside => absurd inside (Nat.not_lt_zero place)⟩
  | cons item text ih =>
    cases start with
    | nil => exact ⟨List.nil_prefix, fun place inside => absurd inside (Nat.not_lt_zero place)⟩
    | cons letter start =>
      rcases found : starting key words (item :: text) with _ | word
      · rw [scan_none found, List.map_cons, List.cons_prefix_cons] at begins
        obtain ⟨rfl, begins⟩ := begins
        have behind : ¬Meets start (marker.map key) :=
          fun meets => clear (meets.of_suffix (List.suffix_cons _ _))
        obtain ⟨same, unmet⟩ := ih behind begins
        refine ⟨List.cons_prefix_cons.mpr ⟨rfl, same⟩, fun place inside => ?_⟩
        cases place with
        | zero => exact found
        | succ place => exact unmet place (Nat.lt_of_succ_lt_succ inside)
      · have some_ : word ≠ [] := fun empty => filled (empty ▸ (starting_eq_some found).1)
        rw [scan_some some_ found, List.map_append] at begins
        exact absurd (meets_of_start (List.cons_ne_nil letter start)
          (start_or_longer begins).symm) clear

omit [DecidableEq α] in
theorem map_take_of_start (start : word <+: text.map key) :
    (text.take word.length).map key = word := by
  rw [List.map_take]
  exact (List.prefix_iff_eq_take.mp start).symm

/-- A text begins with one word at most. -/
theorem starting_eq_some_iff {sign : List α} (separate : Separate words sign)
    (filled : [] ∉ words) :
    starting key words text = some word ↔ word ∈ words ∧ word <+: text.map key := by
  refine ⟨starting_eq_some, ?_⟩
  rintro ⟨member, start⟩
  rcases found : starting key words text with _ | other
  · exact absurd start (starting_eq_none.mp found word member)
  · obtain ⟨known, begins⟩ := starting_eq_some found
    by_contra different
    have apart : word ≠ other := fun same => different (same ▸ rfl)
    have some_ : word ≠ [] := fun empty => filled (empty ▸ member)
    have nested := List.prefix_or_prefix_of_prefix start begins
    exact separate.apart word member other known apart (meets_of_start some_ nested)

/-- One word replaced in what replacing others leaves is all of them replaced at once. -/
theorem scan_scan (separate : Separate (word :: words) (marker.map key)) (fresh : word ∉ words)
    (filled : [] ∉ word :: words) :
    scan key [word] marker (scan key words marker text) = scan key (word :: words) marker text := by
  have some_ : word ≠ [] := fun empty => filled (empty ▸ List.mem_cons_self)
  have others : [] ∉ words := fun member => filled (List.mem_cons_of_mem _ member)
  have alone : Separate [word] (marker.map key) :=
    separate.mono (List.cons_subset_cons _ (List.nil_subset _))
  have single : [] ∉ [word] := fun member => some_ (List.mem_singleton.mp member).symm
  have behind : ∀ other ∈ [word], ¬Meets (marker.map key) other := alone.behind
  induction total : text.length using Nat.strong_induction_on generalizing text with
  | _ count ih =>
    have shorter (other : List α) (member : other ∈ word :: words)
        (start : other <+: text.map key) : (text.drop other.length).length < count := by
      have positive := List.length_pos_of_ne_nil fun empty => filled (empty ▸ member)
      have within := start.length_le
      rw [List.length_map] at within
      rw [List.length_drop]
      omega
    rcases found : starting key words text with _ | other
    · by_cases start : word <+: text.map key
      · -- No other word starts inside the one the text begins with.
        have clear : ∀ other ∈ words, ¬Meets ((text.take word.length).map key) other := by
          intro other member
          rw [map_take_of_start start]
          exact separate.apart word List.mem_cons_self other (List.mem_cons_of_mem _ member)
            fun same => fresh (same ▸ member)
        have kept : scan key words marker text =
            text.take word.length ++ scan key words marker (text.drop word.length) := by
          rw [← scan_append clear, List.take_append_drop]
        have length : (text.take word.length).length = word.length := by
          rw [← List.length_map (f := key), map_take_of_start start]
        have here : starting key [word] (text.take word.length ++
            scan key words marker (text.drop word.length)) = some word := by
          refine (starting_eq_some_iff alone single).mpr ⟨List.mem_singleton_self word, ?_⟩
          rw [List.map_append, map_take_of_start start]
          exact List.prefix_append _ _
        have there : starting key (word :: words) text = some word :=
          (starting_eq_some_iff separate filled).mpr ⟨List.mem_cons_self, start⟩
        rw [kept, scan_some some_ here, scan_some some_ there, List.drop_left' length,
          ih _ (shorter word List.mem_cons_self start) rfl]
      · cases text with
        | nil => rfl
        | cons item text =>
          have there : starting key (word :: words) (item :: text) = none := by
            rw [starting_eq_none] at found ⊢
            exact List.forall_mem_cons.mpr ⟨start, found⟩
          have here : starting key [word] (item :: scan key words marker text) = none := by
            rw [starting_eq_none]
            intro other member begins
            obtain rfl := List.mem_singleton.mp member
            rw [← scan_none found] at begins
            exact start (prefix_scan (separate.before other List.mem_cons_self) begins others).1
          rw [scan_none found, scan_none here, scan_none there,
            ih _ (by rw [← total]; exact Nat.lt_succ_self _) rfl]
    · obtain ⟨member, start⟩ := starting_eq_some found
      have other_ : other ≠ [] := fun empty => others (empty ▸ member)
      have there : starting key (word :: words) text = some other :=
        (starting_eq_some_iff separate filled).mpr ⟨List.mem_cons_of_mem _ member, start⟩
      rw [scan_some other_ found, scan_append behind, scan_some other_ there,
        ih _ (shorter other (List.mem_cons_of_mem _ member) start) rfl]

/-- Words replaced one after another. -/
def replaceEach (key : β → α) (marker : List β) (order : List (List α)) (text : List β) : List β :=
  order.foldl (fun text word => scan key [word] marker text) text

theorem replaceEach_eq_scan {order : List (List α)} (separate : Separate order (marker.map key))
    (distinct : order.Nodup) (filled : [] ∉ order) :
    replaceEach key marker order text = scan key order.reverse marker text := by
  induction order using List.reverseRecOn with
  | nil => exact (scan_eq_self fun _ member => absurd member List.not_mem_nil).symm
  | append_singleton order word ih =>
    have part : order ⊆ order ++ [word] := List.subset_append_left _ _
    have back : (order ++ [word]).reverse = word :: order.reverse := List.reverse_append
    have fresh : word ∉ order.reverse := fun member =>
      (List.nodup_append.mp distinct).2.2 word (List.mem_reverse.mp member) word
        (List.mem_singleton_self word) rfl
    have earlier := ih (separate.mono part) (List.nodup_append.mp distinct).1
      fun member => filled (part member)
    have split : replaceEach key marker (order ++ [word]) text =
        scan key [word] marker (replaceEach key marker order text) := List.foldl_append
    have whole : word :: order.reverse ⊆ order ++ [word] := by
      rw [← back]
      exact fun _ member => List.mem_reverse.mp member
    rw [split, earlier, back]
    exact scan_scan (separate.mono whole) fresh fun member => filled (whole member)

/-- Which words are replaced matters, not their order. -/
theorem scan_eq_of_mem_iff {others : List (List α)} (separate : Separate words (marker.map key))
    (filled : [] ∉ words) (same : ∀ word, word ∈ others ↔ word ∈ words) :
    scan key others marker text = scan key words marker text := by
  have part : others ⊆ words := fun word member => (same word).mp member
  have filled' : [] ∉ others := fun member => filled (part member)
  have starts (text : List β) : starting key others text = starting key words text := by
    rcases found : starting key words text with _ | word
    · rw [starting_eq_none] at found ⊢
      exact fun word member => found word (part member)
    · rw [starting_eq_some_iff (separate.mono part) filled']
      obtain ⟨member, start⟩ := starting_eq_some found
      exact ⟨(same word).mpr member, start⟩
  have scans (skip : ℕ) (text : List β) :
      scanFrom key others marker skip text = scanFrom key words marker skip text := by
    induction text generalizing skip with
    | nil => cases skip <;> rfl
    | cons item text ih =>
      cases skip with
      | succ skip => exact ih skip
      | zero =>
        rw [scanFrom, scanFrom, starts]
        split
        · rw [ih]
        · rw [ih]
  exact scans 0 text

/-- What occurs once words are replaced, and does not start in a marker, begins the rest of the text
from some place on. -/
theorem infix_scan {part : List α} (some_ : part ≠ []) (clear : ¬Meets (marker.map key) part)
    (filled : [] ∉ words) (inside : part <:+: (scan key words marker text).map key) :
    ∃ rest, rest <:+ text ∧ part <+: (scan key words marker rest).map key := by
  induction total : text.length using Nat.strong_induction_on generalizing text with
  | _ count ih =>
    obtain ⟨before, after, same⟩ := inside
    rcases found : starting key words text with _ | other
    · cases text with
      | nil =>
        rw [scan_nil, List.map_nil, List.append_eq_nil_iff, List.append_eq_nil_iff] at same
        exact absurd same.1.2 some_
      | cons item text =>
        cases before with
        | nil =>
          exact ⟨item :: text, List.suffix_refl _, after, by rw [← same, List.nil_append]⟩
        | cons letter before =>
          rw [scan_none found, List.map_cons, List.cons_append, List.cons_append] at same
          obtain ⟨rest, suffix, begins⟩ := ih _ (by rw [← total]; exact Nat.lt_succ_self _)
            ⟨before, after, (List.cons.inj same).2⟩ rfl
          exact ⟨rest, suffix.trans (List.suffix_cons _ _), begins⟩
    · obtain ⟨known, start⟩ := starting_eq_some found
      have other_ : other ≠ [] := fun empty => filled (empty ▸ known)
      have within := start.length_le
      have positive := List.length_pos_of_ne_nil other_
      rw [List.length_map] at within
      have shorter : (text.drop other.length).length < count := by
        rw [List.length_drop]
        omega
      have later (before : List α)
          (split : before ++ part ++ after =
            (scan key words marker (text.drop other.length)).map key) :
          ∃ rest, rest <:+ text ∧ part <+: (scan key words marker rest).map key := by
        obtain ⟨rest, suffix, begins⟩ := ih _ shorter ⟨before, after, split⟩ rfl
        exact ⟨rest, suffix.trans (List.drop_suffix _ _), begins⟩
      rw [scan_some other_ found, List.map_append, List.append_assoc] at same
      rcases List.append_eq_append_iff.mp same with ⟨tail, split, rest⟩ | ⟨between, rfl, rest⟩
      · by_cases ended : tail = []
        · rw [ended, List.nil_append] at rest
          exact later [] (by rw [List.nil_append, rest])
        · -- The occurrence starts inside the marker.
          have begins : part <+: tail ++ (scan key words marker (text.drop other.length)).map key :=
            ⟨after, rest⟩
          exact absurd ⟨tail, ended, ⟨before, split.symm⟩, start_or_longer begins⟩ clear
      · exact later between (by rw [rest, List.append_assoc])

/-- No word is left where separate words are replaced. -/
theorem not_infix_scan (separate : Separate words (marker.map key)) (filled : [] ∉ words)
    (member : word ∈ words) : ¬word <:+: (scan key words marker text).map key := by
  intro inside
  have some_ : word ≠ [] := fun empty => filled (empty ▸ member)
  obtain ⟨rest, -, begins⟩ := infix_scan some_ (separate.behind word member) filled inside
  obtain ⟨start, unmet⟩ := prefix_scan (separate.before word member) begins filled
  exact starting_eq_none.mp (unmet 0 (List.length_pos_of_ne_nil some_)) word member start

end Steps

/-- The letters of a text with their places. -/
def placed (place : ℕ) (text : List α) : List (α × Option ℕ) :=
  (text.zipIdx place).map fun item => (item.1, some item.2)

/-- The place lies in an occurrence of a word. -/
def Inside (words : List (List α)) (text : List α) (place : ℕ) : Prop :=
  ∃ word ∈ words, ∃ before after, text = before ++ word ++ after ∧ before.length ≤ place ∧
    place < before.length + word.length

section Kept

variable {words} {text : List α} {sign : List (α × Option ℕ)}

omit [DecidableEq α] in
@[simp] theorem map_fst_placed (place : ℕ) : (placed place text).map Prod.fst = text := by
  rw [placed, List.map_map]
  exact List.zipIdx_map_fst place text

omit [DecidableEq α] in
theorem drop_placed (place count : ℕ) :
    (placed place text).drop count = placed (place + count) (text.drop count) := by
  induction count generalizing place text with
  | zero => rfl
  | succ count ih =>
    cases text with
    | nil => rfl
    | cons first text =>
      change (placed (place + 1) text).drop count = _
      rw [ih, Nat.add_right_comm, Nat.add_assoc]
      rfl

/-- An occurrence that begins in a word the text begins with is that word. -/
private theorem occurrence_of_starting {marker word other : List α} {before after : List α}
    (separate : Separate words marker) (member : word ∈ words) (known : other ∈ words)
    (some_ : word ≠ []) (start : other <+: text) (split : text = before ++ word ++ after)
    (inside : before.length < other.length) : before = [] ∧ word = other := by
  obtain ⟨behind, whole⟩ := start
  rw [split, List.append_assoc] at whole
  rcases List.append_eq_append_iff.mp whole with ⟨tail, rest, _⟩ | ⟨tail, here, rest⟩
  · rw [rest, List.length_append] at inside
    omega
  · have filled : tail ≠ [] := by
      rintro rfl
      rw [here, List.append_nil] at inside
      exact Nat.lt_irrefl _ inside
    have suffix : tail <:+ other := ⟨before, here.symm⟩
    have overlap : tail <+: word ∨ word <+: tail :=
      (start_or_longer ⟨after, rest⟩ : tail <+: word ∨ word <+: tail)
    by_cases same : other = word
    · subst same
      by_cases whole : tail = other
      · subst whole
        have lengths := congrArg List.length here
        rw [List.length_append] at lengths
        exact ⟨List.length_eq_zero_iff.mp (by omega), rfl⟩
      · rcases overlap with begins | begins
        · exact absurd ⟨tail, filled, whole, suffix, begins⟩ (separate.single other known)
        · exact absurd (suffix.eq_of_length_le begins.length_le) whole
    · exact absurd ⟨tail, filled, suffix, overlap⟩ (separate.apart other known word member same)

/-- Nothing inside an occurrence of a word is kept. -/
theorem not_inside_of_mem_scan (separate : Separate words (sign.map Prod.fst))
    (filled : [] ∉ words) (unplaced : ∀ item ∈ sign, item.2 = none) {place at_ : ℕ} {letter : α}
    (kept : (letter, some at_) ∈ scan Prod.fst words sign (placed place text)) :
    place ≤ at_ ∧ ¬Inside words text (at_ - place) := by
  induction total : text.length using Nat.strong_induction_on generalizing text place with
  | _ count ih =>
    rcases found : starting Prod.fst words (placed place text) with _ | other
    · cases text with
      | nil => exact absurd kept List.not_mem_nil
      | cons first text =>
        have unfolded : placed place (first :: text) =
            (first, some place) :: placed (place + 1) text := rfl
        rw [unfolded] at kept found
        rw [scan_none found, List.mem_cons] at kept
        have none := starting_eq_none.mp found
        rw [← unfolded, map_fst_placed] at none
        rcases kept with here | later
        · obtain rfl : at_ = place := Option.some.inj (congrArg Prod.snd here)
          refine ⟨Nat.le_refl _, ?_⟩
          rintro ⟨word, member, before, after, split, below, -⟩
          rw [Nat.sub_self, Nat.le_zero, List.length_eq_zero_iff] at below
          subst below
          exact none word member ⟨after, split.symm⟩
        · obtain ⟨above, outside⟩ := ih _ (by rw [← total]; exact Nat.lt_succ_self _) later rfl
          refine ⟨by omega, ?_⟩
          rintro ⟨word, member, before, after, split, below, within⟩
          cases before with
          | nil => exact none word member ⟨after, split.symm⟩
          | cons letter before =>
            refine outside ⟨word, member, before, after, (List.cons.inj split).2, ?_, ?_⟩
            · rw [List.length_cons] at below
              omega
            · rw [List.length_cons] at within
              omega
    · obtain ⟨known, start⟩ := starting_eq_some found
      rw [map_fst_placed] at start
      have other_ : other ≠ [] := fun empty => filled (empty ▸ known)
      have positive := List.length_pos_of_ne_nil other_
      have size := start.length_le
      rw [scan_some other_ found, List.mem_append, drop_placed] at kept
      rcases kept with marked | later
      · cases unplaced _ marked
      · obtain ⟨above, outside⟩ := ih _ (by rw [List.length_drop]; omega) later rfl
        refine ⟨by omega, ?_⟩
        rintro ⟨word, member, before, after, split, below, within⟩
        have some_ : word ≠ [] := fun empty => filled (empty ▸ member)
        by_cases inside : before.length < other.length
        · obtain ⟨rfl, rfl⟩ :=
            occurrence_of_starting separate member known some_ start split inside
          rw [List.length_nil] at within
          omega
        · refine outside ⟨word, member, before.drop other.length, after, ?_, ?_, ?_⟩
          · rw [split, List.append_assoc, List.drop_append_of_le_length (by omega),
              List.append_assoc]
          · rw [List.length_drop]
            omega
          · rw [List.length_drop]
            omega

end Kept

section Erasing

variable {words} {text : List α} {word other sign : List α}

/-- A marker's letters come from no place of the text. -/
def unplaced (sign : List α) : List (α × Option ℕ) := sign.map fun letter => (letter, none)

omit [DecidableEq α] in
@[simp] theorem map_fst_unplaced (sign : List α) : (unplaced sign).map Prod.fst = sign := by
  simp [unplaced, Function.comp_def]

omit [DecidableEq α] in
theorem snd_of_mem_unplaced {item : α × Option ℕ} (member : item ∈ unplaced sign) :
    item.2 = none := by
  obtain ⟨letter, -, rfl⟩ := List.mem_map.mp member
  rfl

section Naturality

variable {key} {γ : Type*} {other_ : γ → α} {carry : β → γ}

/-- Items may be changed before or after words are replaced, if their letters stay. -/
theorem map_scan_of_key (same : ∀ item, other_ (carry item) = key item) (marker text : List β) :
    (scan key words marker text).map carry =
      scan other_ words (marker.map carry) (text.map carry) := by
  have starts (text : List β) : starting key words text = starting other_ words (text.map carry) := by
    rw [starting, starting, List.map_map, funext same (f := other_ ∘ carry)]
  suffices general : ∀ skip, (scanFrom key words marker skip text).map carry =
      scanFrom other_ words (marker.map carry) skip (text.map carry) from general 0
  intro skip
  induction text generalizing skip with
  | nil => cases skip <;> rfl
  | cons item text ih =>
    cases skip with
    | succ skip => exact ih skip
    | zero =>
      rw [scanFrom, starts, List.map_cons, scanFrom]
      split
      · rw [List.map_append, ih]
      · rw [List.map_cons, ih]

theorem map_replaceEach_of_key (same : ∀ item, other_ (carry item) = key item) (order : List (List α))
    (marker text : List β) : (replaceEach key marker order text).map carry =
      replaceEach other_ (marker.map carry) order (text.map carry) := by
  induction order generalizing text with
  | nil => rfl
  | cons word order ih =>
    change (replaceEach key marker order (scan key [word] marker text)).map carry = _
    rw [ih, map_scan_of_key same]
    rfl

end Naturality

/-- What the letters carry does not matter to what is replaced. -/
theorem map_scan (marker : List β) (text : List β) :
    (scan key words marker text).map key = scan id words (marker.map key) (text.map key) :=
  map_scan_of_key (fun item => (rfl : id (key item) = key item)) marker text

theorem map_replaceEach (order : List (List α)) (marker : List β) (text : List β) :
    (replaceEach key marker order text).map key =
      replaceEach id (marker.map key) order (text.map key) :=
  map_replaceEach_of_key (fun item => (rfl : id (key item) = key item)) order marker text

/-- An item is kept, or lies in an occurrence of a word. -/
theorem mem_scan_or_covered (filled : [] ∉ words) (marker front : List β) (item : β) (back : List β) :
    item ∈ scan key words marker (front ++ item :: back) ∨
      ∃ before middle after, front ++ item :: back = before ++ middle ++ after ∧
        middle.map key ∈ words ∧ before.length ≤ front.length ∧
        front.length < before.length + middle.length := by
  induction size : front.length using Nat.strong_induction_on generalizing front with
  | _ count ih =>
    rcases found : starting key words (front ++ item :: back) with _ | word
    · cases front with
      | nil => exact .inl (by rw [List.nil_append, scan_none found]; exact List.mem_cons_self)
      | cons first front =>
        rw [List.cons_append] at found ⊢
        rw [scan_none found]
        rcases ih front.length (by rw [← size, List.length_cons]; omega) front rfl with kept | covered
        · exact .inl (List.mem_cons_of_mem _ kept)
        · obtain ⟨before, middle, after, split, member, low, high⟩ := covered
          refine .inr ⟨first :: before, middle, after, by rw [split]; rfl, member, ?_, ?_⟩
          · rw [List.length_cons, ← size, List.length_cons]
            omega
          · rw [List.length_cons, ← size, List.length_cons]
            omega
    · obtain ⟨member, start⟩ := starting_eq_some found
      have some_ : word ≠ [] := fun empty => filled (empty ▸ member)
      have whole : word.length ≤ (front ++ item :: back).length := by
        have := start.length_le
        rwa [List.length_map] at this
      have positive := List.length_pos_of_ne_nil some_
      by_cases inside : front.length < word.length
      · refine .inr ⟨[], (front ++ item :: back).take word.length, (front ++ item :: back).drop word.length,
          (List.take_append_drop _ _).symm, ?_, Nat.zero_le _, ?_⟩
        · rwa [map_take_of_start start]
        · rw [List.length_take_of_le whole, List.length_nil, Nat.zero_add, ← size]
          exact inside
      · have later : word.length ≤ front.length := Nat.not_lt.mp inside
        have rest : (front ++ item :: back).drop word.length = front.drop word.length ++ item :: back :=
          List.drop_append_of_le_length later
        rw [scan_some some_ found, rest]
        rcases ih (front.drop word.length).length (by rw [List.length_drop]; omega) _ rfl with
          kept | covered
        · exact .inl (List.mem_append_right _ kept)
        · obtain ⟨before, middle, after, split, member, low, high⟩ := covered
          rw [List.length_drop] at low high
          refine .inr ⟨front.take word.length ++ before, middle, after, ?_, member, ?_, ?_⟩
          · rw [List.append_assoc, List.append_assoc, ← List.append_assoc before, ← split,
              ← List.append_assoc, List.take_append_drop]
          · rw [List.length_append, List.length_take_of_le later]
            omega
          · rw [List.length_append, List.length_take_of_le later]
            omega

/-- Occurrences of words that share a place are the same. -/
theorem Separate.same_occurrence {first second before after before' after' : List α}
    (separate : Separate words sign) (filled : [] ∉ words) (one : first ∈ words) (two : second ∈ words)
    (same : before ++ first ++ after = before' ++ second ++ after') {place : ℕ}
    (here : before.length ≤ place ∧ place < before.length + first.length)
    (there : before'.length ≤ place ∧ place < before'.length + second.length) :
    before = before' ∧ first = second := by
  have some_ {word : List α} (member : word ∈ words) : word ≠ [] := fun empty =>
    filled (empty ▸ member)
  rw [List.append_assoc, List.append_assoc] at same
  rcases List.append_eq_append_iff.mp same with ⟨between, rfl, split⟩ | ⟨between, rfl, split⟩
  · rw [List.length_append] at there
    obtain ⟨rfl, rfl⟩ := occurrence_of_starting separate two one (some_ two) ⟨after, rfl⟩
      (split.trans (List.append_assoc _ _ _).symm) (by omega)
    exact ⟨(List.append_nil _).symm, rfl⟩
  · rw [List.length_append] at here
    obtain ⟨rfl, rfl⟩ := occurrence_of_starting separate one two (some_ one) ⟨after', rfl⟩
      (split.trans (List.append_assoc _ _ _).symm) (by omega)
    exact ⟨List.append_nil _, rfl⟩

/-- Replacing the words in this order keeps nothing inside an occurrence and leaves no word. -/
structure Erases (order : List (List α)) (sign text : List α) : Prop where
  unread : ∀ letter place,
    (letter, some place) ∈ replaceEach Prod.fst (unplaced sign) order (placed 0 text) →
      ¬Inside order text place
  absent : ∀ word ∈ order, ¬word <:+: replaceEach id sign order text

/-- Replacing the words in any order erases them, with one result. -/
def Erased (words : List (List α)) (sign text : List α) : Prop :=
  ∀ order, order.Perm words →
    Erases order sign text ∧ replaceEach id sign order text = replaceEach id sign words text

theorem erased_of_separate (separate : Separate words sign) (distinct : words.Nodup)
    (filled : [] ∉ words) (text : List α) : Erased words sign text := by
  intro order perm
  have apart : Separate order sign := separate.mono perm.subset
  have some_ : [] ∉ order := fun member => filled (perm.subset member)
  have nodup : order.Nodup := perm.nodup_iff.mpr distinct
  have back : Separate order.reverse sign := apart.mono fun _ => List.mem_reverse.mp
  have none : [] ∉ order.reverse := fun member => some_ (List.mem_reverse.mp member)
  refine ⟨⟨fun letter place kept => ?_, fun word member => ?_⟩, ?_⟩
  · rw [replaceEach_eq_scan (by rwa [map_fst_unplaced]) nodup some_] at kept
    obtain ⟨-, outside⟩ := not_inside_of_mem_scan (by rwa [map_fst_unplaced]) none
      (fun _ => snd_of_mem_unplaced) kept
    rw [Nat.sub_zero] at outside
    rintro ⟨word, member, inside⟩
    exact outside ⟨word, List.mem_reverse.mpr member, inside⟩
  · rw [replaceEach_eq_scan (by rwa [List.map_id]) nodup some_]
    have left : ¬word <:+: (scan id order.reverse sign text).map id :=
      not_infix_scan (by rwa [List.map_id]) none (List.mem_reverse.mpr member)
    rwa [List.map_id] at left
  · rw [replaceEach_eq_scan (by rwa [List.map_id]) nodup some_,
      replaceEach_eq_scan (by rwa [List.map_id]) distinct filled]
    refine scan_eq_of_mem_iff ?_ (fun member => filled (List.mem_reverse.mp member)) fun word => ?_
    · rw [List.map_id]
      exact separate.mono fun _ => List.mem_reverse.mp
    · rw [List.mem_reverse, List.mem_reverse]
      exact perm.mem_iff

theorem starting_single {text : List β} (start : word <+: text.map key) :
    starting key [word] text = some word := by
  have begins := List.isPrefixOf_iff_prefix.mpr start
  simp only [starting, List.find?_cons, begins]

theorem scan_word {first : List β} (marker : List β) (filled : word ≠ [])
    (same : first.map key = word) (second : List β) :
    scan key [word] marker (first ++ second) = marker ++ scan key [word] marker second := by
  have size : first.length = word.length := by rw [← same, List.length_map]
  rw [scan_some filled (starting_single key (by
    rw [List.map_append, same]
    exact List.prefix_append _ _)), List.drop_left' size]

theorem scan_of_shorter {text : List β} (marker : List β) (short : text.length < word.length) :
    scan key [word] marker text = text := by
  apply scan_eq_self
  intro other member inside
  obtain rfl := List.mem_singleton.mp member
  have within := inside.length_le
  rw [List.length_map] at within
  omega

omit [DecidableEq α] in
theorem placed_append (place : ℕ) (first second : List α) :
    placed place (first ++ second) = placed place first ++ placed (place + first.length) second := by
  rw [placed, List.zipIdx_append, List.map_append, placed, placed, Nat.add_comm]

omit [DecidableEq α] in
theorem lt_of_mem_placed {letter : α} {place at_ : ℕ} (member : (letter, some at_) ∈ placed place text) :
    at_ < place + text.length := by
  obtain ⟨⟨first, found⟩, inside, same⟩ := List.mem_map.mp member
  obtain rfl := Option.some.inj (congrArg Prod.snd same)
  exact List.snd_lt_add_of_mem_zipIdx inside

omit [DecidableEq α] in
theorem mem_placed_head {letter : α} (place : ℕ) (rest : List α) :
    (letter, some place) ∈ placed place (letter :: rest) := List.mem_cons_self

theorem not_infix_of_erased (erased : Erased [word] sign word) (filled : word ≠ []) :
    ¬word <:+: sign := by
  have absent := (erased [word] (List.Perm.refl _)).1.absent word (List.mem_singleton_self word)
  have output : replaceEach id sign [word] word = sign := by
    have whole := scan_word id sign filled (List.map_id word) []
    rwa [List.append_nil, scan_nil, List.append_nil] at whole
  rwa [output] at absent

theorem not_meetsItself_of_erased (erased : ∀ text, Erased [word] sign text) :
    ¬MeetsItself word := by
  rintro ⟨tail, filled, proper, ⟨before, rfl⟩, ⟨after, same⟩⟩
  have some_ : before ++ tail ≠ [] := fun empty => filled (List.append_eq_nil_iff.mp empty).2
  have sizes := congrArg List.length same
  rw [List.length_append, List.length_append] at sizes
  have positive := List.length_pos_of_ne_nil filled
  cases before with
  | nil => exact proper (List.nil_append tail).symm
  | cons first before =>
    cases after with
    | nil =>
      rw [List.length_nil, List.length_cons] at sizes
      omega
    | cons letter after =>
      set word := first :: before ++ tail with known
      have unread := (erased (word ++ letter :: after) [word] (List.Perm.refl _)).1.unread
      refine unread letter word.length ?_ ⟨word, List.mem_singleton_self word, first :: before, [],
        ?_, ?_, ?_⟩
      · change _ ∈ scan Prod.fst [word] (unplaced sign) (placed 0 (word ++ letter :: after))
        rw [placed_append, scan_word Prod.fst (unplaced sign) some_ (map_fst_placed 0), Nat.zero_add,
          scan_of_shorter]
        · exact List.mem_append_right _ (mem_placed_head _ _)
        · rw [← List.length_map (f := Prod.fst), map_fst_placed, known, List.length_append]
          omega
      · calc word ++ letter :: after
          _ = first :: before ++ (tail ++ letter :: after) := by rw [known, List.append_assoc]
          _ = first :: before ++ word ++ [] := by rw [same, List.append_nil]
      · rw [known, List.length_append]
        omega
      · rw [List.length_cons, known, List.length_append, List.length_cons]
        omega

/-- A word starts nowhere before itself when it does not meet itself. -/
private theorem scan_before {before : List α} (alone : ¬MeetsItself word)
    (short : before.length < word.length) (rest : List α) :
    scan id [word] sign (before ++ (word ++ rest)) = before ++ sign ++ scan id [word] sign rest := by
  rw [scan_append_of_forall, scan_word id sign _ (List.map_id word), List.append_assoc]
  · rintro rfl
    exact Nat.not_lt_zero _ short
  · intro tail filled suffix other member start
    obtain rfl := List.mem_singleton.mp member
    rw [List.map_id, ← List.append_assoc] at start
    have within := suffix.length_le
    have positive := List.length_pos_of_ne_nil filled
    have begins : other <+: tail ++ other := by
      refine List.prefix_of_prefix_length_le start (List.prefix_append _ _) ?_
      rw [List.length_append]
      omega
    have opening : tail <+: other := List.prefix_of_prefix_length_le (List.prefix_append _ _) begins
      (by omega)
    obtain ⟨remaining, rfl⟩ := opening
    have behind : remaining <+: tail ++ remaining := (List.prefix_append_right_inj tail).mp begins
    refine alone ⟨remaining, ?_, ?_, List.suffix_append _ _, behind⟩
    · rintro rfl
      rw [List.append_nil] at short
      omega
    · intro same
      have sizes := congrArg List.length same
      rw [List.length_append] at sizes
      omega

theorem not_meets_sign_of_erased (erased : ∀ text, Erased [word] sign text) (filled : word ≠ [])
    (marked : sign ≠ []) : ¬Meets word sign := by
  have alone := not_meetsItself_of_erased erased
  have absent (text : List α) : ¬word <:+: scan id [word] sign text :=
    (erased text [word] (List.Perm.refl _)).1.absent word (List.mem_singleton_self word)
  rintro ⟨tail, some_, ⟨before, rfl⟩, ⟨after, rfl⟩ | ⟨after, rfl⟩⟩
  · have short : before.length < (before ++ tail).length := by
      have positive := List.length_pos_of_ne_nil some_
      rw [List.length_append]
      omega
    refine absent (before ++ (before ++ tail ++ [])) ⟨[], after, ?_⟩
    rw [scan_before alone short, scan_nil, List.append_nil, List.nil_append, List.append_assoc]
  · have positive := List.length_pos_of_ne_nil marked
    have short : before.length < (before ++ (sign ++ after)).length := by
      rw [List.length_append, List.length_append]
      omega
    refine absent (before ++ (before ++ (sign ++ after) ++ after)) ⟨[], [], ?_⟩
    rw [scan_before alone short, scan_of_shorter]
    · simp
    · rw [List.length_append, List.length_append]
      omega

theorem not_sign_meets_of_erased (erased : ∀ text, Erased [word] sign text) (filled : word ≠ []) :
    ¬Meets sign word := by
  have inside := not_infix_of_erased (erased word) filled
  rintro ⟨tail, some_, ⟨before, rfl⟩, ⟨after, rfl⟩ | start⟩
  · have positive := List.length_pos_of_ne_nil some_
    refine (erased (tail ++ after ++ after) [tail ++ after] (List.Perm.refl _)).1.absent _
      (List.mem_singleton_self _) ?_
    change _ <:+: scan id [tail ++ after] (before ++ tail) (tail ++ after ++ after)
    rw [scan_word id _ filled (List.map_id _), scan_of_shorter]
    · exact ⟨before, [], by simp⟩
    · rw [List.length_append]
      omega
  · exact inside (start.isInfix.trans (List.suffix_append _ _).isInfix)

/-- Where nothing of a text is kept, the text is the word some number of times. -/
private theorem repeats_of_unread (filled : word ≠ []) (place : ℕ)
    (unread : ∀ letter at_, (letter, some at_) ∉
      scan Prod.fst [word] (unplaced sign) (placed place text)) :
    ∃ count, text = (List.replicate count word).flatten ∧
      scan id [word] sign text = (List.replicate count sign).flatten := by
  induction total : text.length using Nat.strong_induction_on generalizing text place with
  | _ size ih =>
    rcases found : starting Prod.fst [word] (placed place text) with _ | other
    · cases text with
      | nil => exact ⟨0, rfl, rfl⟩
      | cons letter text =>
        have unfolded : placed place (letter :: text) =
            (letter, some place) :: placed (place + 1) text := rfl
        rw [unfolded] at found
        refine absurd ?_ (unread letter place)
        rw [unfolded, scan_none found]
        exact List.mem_cons_self
    · obtain ⟨member, start⟩ := starting_eq_some found
      obtain rfl := List.mem_singleton.mp member
      rw [map_fst_placed] at start
      obtain ⟨rest, rfl⟩ := start
      have positive := List.length_pos_of_ne_nil filled
      have later : ∀ letter at_, (letter, some at_) ∉
          scan Prod.fst [other] (unplaced sign) (placed (place + other.length) rest) := by
        intro letter at_ kept
        refine unread letter at_ ?_
        rw [placed_append, scan_word Prod.fst _ filled (map_fst_placed place)]
        exact List.mem_append_right _ kept
      obtain ⟨count, repeats, marks⟩ := ih rest.length
        (by rw [← total, List.length_append]; omega) _ later rfl
      refine ⟨count + 1, ?_, ?_⟩
      · rw [List.replicate_succ, List.flatten_cons, ← repeats]
      · rw [scan_word id sign filled (List.map_id _), marks, List.replicate_succ, List.flatten_cons]

section Pair

variable (different : word ≠ other) (filled : word ≠ []) (filled' : other ≠ []) (marked : sign ≠ [])
  (alone : ∀ text, Erased [word] sign text) (alone' : ∀ text, Erased [other] sign text)
  (both : ∀ text, Erased [word, other] sign text)

include different filled filled' marked alone alone' both

theorem not_infix_word_of_erased : ¬other <:+: word := by
  intro inside
  have swapped : [other, word].Perm [word, other] := List.Perm.swap word other []
  obtain ⟨erases, same⟩ := both word [other, word] swapped
  have clear := not_meets_sign_of_erased alone filled marked
  -- With the longer word first, the marker is all that is left.
  have first : replaceEach id sign [word, other] word = sign := by
    have whole := scan_word id sign filled (List.map_id word) []
    rw [List.append_nil, scan_nil, List.append_nil] at whole
    change scan id [other] sign (scan id [word] sign word) = _
    rw [whole]
    refine scan_eq_self fun part member => ?_
    obtain rfl := List.mem_singleton.mp member
    rw [List.map_id]
    exact not_infix_of_erased (alone' part) filled'
  -- With the shorter word first, the longer one is gone.
  have gone {β : Type _} (key : β → α) (marker text : List β) (sameSign : marker.map key = sign)
      (sameWord : text.map key = word) :
      scan key [word] marker (scan key [other] marker text) = scan key [other] marker text := by
    refine scan_eq_self fun part member found => ?_
    obtain rfl := List.mem_singleton.mp member
    have apart : [] ∉ [other] := fun member => filled' (List.mem_singleton.mp member).symm
    obtain ⟨rest, suffix, begins⟩ := infix_scan filled
      (sameSign ▸ not_sign_meets_of_erased alone filled) apart found
    obtain ⟨start, unmet⟩ := prefix_scan (sameSign ▸ clear) begins apart
    have size := start.length_le
    rw [List.length_map] at size
    have length : text.length = part.length := by rw [← sameWord, List.length_map]
    obtain rfl := suffix.eq_of_length_le (by omega)
    obtain ⟨before, after, split⟩ := inside
    have positive := List.length_pos_of_ne_nil filled'
    have place : before.length < part.length := by
      rw [← split, List.length_append, List.length_append]
      omega
    refine starting_eq_none.mp (unmet before.length place) other (List.mem_singleton_self other) ?_
    rw [List.map_drop, sameWord, ← split, List.append_assoc, List.drop_left]
    exact List.prefix_append _ _
  have second : replaceEach id sign [other, word] word = scan id [other] sign word :=
    gone id sign word (List.map_id _) (List.map_id _)
  have unread : ∀ letter at_, (letter, some at_) ∉
      scan Prod.fst [other] (unplaced sign) (placed 0 word) := by
    intro letter at_ kept
    have still := gone Prod.fst (unplaced sign) (placed 0 word) (map_fst_unplaced sign)
      (map_fst_placed 0)
    refine erases.unread letter at_ ?_ ⟨word, by simp, [], [], by simp, by simp, ?_⟩
    · change _ ∈ scan Prod.fst [word] _ (scan Prod.fst [other] _ (placed 0 word))
      rwa [still]
    · rcases mem_of_mem_scan kept with marker | letters
      · cases snd_of_mem_unplaced marker
      · rw [List.length_nil]
        exact lt_of_mem_placed letters
  obtain ⟨count, repeats, marks⟩ := repeats_of_unread filled' 0 unread
  rw [first, second, marks] at same
  have lengths := congrArg List.length same
  rw [List.length_flatten, List.map_replicate, List.sum_replicate_nat] at lengths
  have positive := List.length_pos_of_ne_nil marked
  have once : count = 1 := Nat.eq_of_mul_eq_mul_right positive (by rw [lengths, Nat.one_mul])
  rw [once] at repeats
  exact different (by simpa using repeats)

omit marked in
/-- An end of one word that begins the other keeps the rest of the other. -/
theorem not_overlap_of_erased (outside : ¬other <:+: word) (outside' : ¬word <:+: other) :
    ¬Meets word other := by
  rintro ⟨tail, some_, ⟨before, rfl⟩, ⟨rest, rfl⟩ | start⟩
  · cases rest with
    | nil => exact outside (by rw [List.append_nil]; exact (List.suffix_append _ _).isInfix)
    | cons letter rest =>
      have shorter : ¬before ++ tail <:+: letter :: rest := fun inside =>
        outside' (inside.trans (List.suffix_append _ _).isInfix)
      have clear : ∀ part ∈ [tail ++ letter :: rest], ¬Meets ((unplaced sign).map Prod.fst) part := by
        intro part member
        obtain rfl := List.mem_singleton.mp member
        rw [map_fst_unplaced]
        exact not_sign_meets_of_erased alone' filled'
      have untouched : scan Prod.fst [before ++ tail] (unplaced sign)
          (placed (before ++ tail).length (letter :: rest)) =
            placed (before ++ tail).length (letter :: rest) := by
        refine scan_eq_self fun part member inside => ?_
        obtain rfl := List.mem_singleton.mp member
        rw [map_fst_placed] at inside
        exact shorter inside
      have output : replaceEach Prod.fst (unplaced sign) [before ++ tail, tail ++ letter :: rest]
          (placed 0 (before ++ tail ++ letter :: rest)) =
            unplaced sign ++ placed (before ++ tail).length (letter :: rest) := by
        change scan Prod.fst [tail ++ letter :: rest] _ (scan Prod.fst [before ++ tail] _ _) = _
        rw [placed_append, scan_word Prod.fst _ filled (map_fst_placed 0), Nat.zero_add,
          untouched, scan_append clear, scan_of_shorter]
        have positive := List.length_pos_of_ne_nil some_
        rw [← List.length_map (f := Prod.fst), map_fst_placed, List.length_append]
        omega
      refine (both (before ++ tail ++ letter :: rest) _ (List.Perm.refl _)).1.unread letter
        (before ++ tail).length ?_ ⟨tail ++ letter :: rest, by simp, before, [], by simp, ?_, ?_⟩
      · rw [output]
        exact List.mem_append_right _ (mem_placed_head _ _)
      · rw [List.length_append]
        omega
      · rw [List.length_append, List.length_append, List.length_cons]
        omega
  · exact outside (start.isInfix.trans (List.suffix_append _ _).isInfix)

end Pair

/-- The words are separate when every choice of them is erased from every text. -/
theorem separate_of_erased {words : List (List α)} (filled : [] ∉ words) (marked : sign ≠ [])
    (erased : ∀ part ⊆ words, part.Nodup → ∀ text, Erased part sign text) :
    Separate words sign := by
  have some_ {word : List α} (member : word ∈ words) : word ≠ [] := fun empty =>
    filled (empty ▸ member)
  have alone {word : List α} (member : word ∈ words) : ∀ text, Erased [word] sign text :=
    erased [word] (List.cons_subset.mpr ⟨member, List.nil_subset _⟩) (List.nodup_singleton word)
  have both {first second : List α} (one : first ∈ words) (two : second ∈ words)
      (different : first ≠ second) : ∀ text, Erased [first, second] sign text :=
    erased [first, second] (List.cons_subset.mpr ⟨one, List.cons_subset.mpr ⟨two, List.nil_subset _⟩⟩)
      (List.nodup_cons.mpr ⟨mt List.mem_singleton.mp different, List.nodup_singleton second⟩)
  refine ⟨fun first one second two different => ?_, fun word member => ?_, fun word member => ?_,
    fun word member => ?_⟩
  · have outside : ¬second <:+: first := not_infix_word_of_erased different (some_ one) (some_ two)
      marked (alone one) (alone two) (both one two different)
    have outside' : ¬first <:+: second := not_infix_word_of_erased different.symm (some_ two)
      (some_ one) marked (alone two) (alone one) (both two one different.symm)
    exact not_overlap_of_erased different (some_ one) (some_ two) (alone one) (alone two)
      (both one two different) outside outside'
  · exact not_meetsItself_of_erased (alone member)
  · exact not_meets_sign_of_erased (alone member) (some_ member) marked
  · exact not_sign_meets_of_erased (alone member) (some_ member)

end Erasing

end Replace
