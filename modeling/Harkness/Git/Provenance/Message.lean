import Harkness.Git.Diff
import Harkness.ToMathlib.TrimEnds

/-! # Identities in a commit message

The co-authors of a commit are read from the trailers in the last paragraph of its message, at most a
fixed number of them; what stands elsewhere in the message is nobody's contribution. Two spellings are
one identity when they share a key: the email where there is one and the name otherwise, without regard
to ASCII case.
-/

namespace Harkness.Git.Provenance

/-- A name and an email, as a commit records them. -/
structure Identity where
  name : Bytes
  email : Bytes
deriving DecidableEq

/-- The most trailers read from one commit message. -/
def maxCoAuthorsPerCommit : ℕ := 16

def isAsciiWhitespace (byte : UInt8) : Bool := [9, 10, 12, 13, 32].contains byte

def toAsciiLowercase (bytes : Bytes) : Bytes :=
  bytes.map fun byte => if 65 ≤ byte ∧ byte ≤ 90 then byte + 32 else byte

def trimAscii (value : Bytes) : Bytes := value.trimEnds isAsciiWhitespace

/-- Where a byte occurs last. -/
def rposition (byte : UInt8) (value : Bytes) : Option ℕ :=
  (value.reverse.idxOf? byte).map (value.length - 1 - ·)

/-- Splits `Name <email>` into its two halves, keeping the bytes of each. -/
def parseIdentity (value : Bytes) : Option Identity :=
  let value := trimAscii value
  if value = [] then none
  else
    match rposition 60 value, rposition 62 value with
    | some opens, some closes =>
      if closes < opens then some ⟨value, []⟩
      else
        let name := trimAscii (value.take opens)
        let email := trimAscii ((value.take closes).drop (opens + 1))
        if name = [] ∧ email = [] then none else some ⟨name, email⟩
    | _, _ => some ⟨value, []⟩

/-- `co-authored-by` -/
def coAuthoredBy : Bytes := [99, 111, 45, 97, 117, 116, 104, 111, 114, 101, 100, 45, 98, 121]

/-- The identity one line of the trailer block names. -/
def coAuthor (line : Bytes) : Option Identity :=
  match line.dropWhile (· ≠ 58) with
  | [] => none
  | _ :: value =>
    if toAsciiLowercase (trimAscii (line.takeWhile (· ≠ 58))) = coAuthoredBy then parseIdentity value
    else none

def isBlankLine (line : Bytes) : Bool := line.all isAsciiWhitespace

/-- Reads the co-authors out of a commit message's trailer block. -/
def coAuthors (message : Bytes) : List Identity :=
  (((message.splitOn 10).lastBlock isBlankLine).filterMap coAuthor).take maxCoAuthorsPerCommit

/-- The key two spellings of one identity must share. -/
def identityKey (identity : Identity) : Bytes :=
  toAsciiLowercase (if identity.email = [] then identity.name else identity.email)

/-- The first line of a message. -/
def summary (message : Bytes) : Bytes := ((message.splitOn 10).head?).getD []

section Written

variable {identity : Identity} {front email value : Bytes} {byte : UInt8}

theorem rposition_append {before after : Bytes} (clear : byte ∉ after) :
    rposition byte (before ++ byte :: after) = some before.length := by
  have reversed : (before ++ byte :: after).reverse.idxOf? byte = some after.length := by
    rw [List.reverse_append, List.reverse_cons, List.append_assoc, List.idxOf?_eq_some_iff]
    refine ⟨by simp, by simp, fun place below same => clear ?_⟩
    rw [List.getElem_append_left (by simpa using below)] at same
    exact List.mem_reverse.mp (same ▸ List.getElem_mem _)
  rw [rposition, reversed, Option.map_some, List.length_append, List.length_cons]
  congr 1
  omega

/-- An email between the last angle brackets of a value, and a name before them. -/
theorem parseIdentity_of_trimmed (trimmed : trimAscii value = front ++ 60 :: email ++ [62])
    (opens : 60 ∉ email) (filled : trimAscii front ≠ [] ∨ trimAscii email ≠ []) :
    parseIdentity value = some ⟨trimAscii front, trimAscii email⟩ := by
  have left : rposition 60 (front ++ 60 :: email ++ [62]) = some front.length := by
    rw [List.append_assoc, List.cons_append]
    refine rposition_append fun inside => ?_
    rcases List.mem_append.mp inside with inside | inside
    · exact opens inside
    · exact absurd (List.mem_singleton.mp inside) (by decide)
  have right : rposition 62 (front ++ 60 :: email ++ [62]) = some (front.length + 1 + email.length) := by
    rw [rposition_append List.not_mem_nil, List.length_append, List.length_cons]
    congr 1
    omega
  have name : (front ++ 60 :: email ++ [62]).take front.length = front := by
    rw [List.append_assoc, List.take_left']
    rfl
  have between : ((front ++ 60 :: email ++ [62]).take (front.length + 1 + email.length)).drop
      (front.length + 1) = email := by
    rw [List.take_left' (by rw [List.length_append, List.length_cons]; omega), ← List.singleton_append,
      ← List.append_assoc, List.drop_left' (by simp)]
  have some_ : front ++ 60 :: email ++ [62] ≠ [] := List.append_ne_nil_of_right_ne_nil _ (List.cons_ne_nil _ _)
  simp only [parseIdentity, trimmed, left, right, name, between, if_neg some_]
  rw [if_neg (by omega), if_neg]
  rintro ⟨nameless, mailless⟩
  exact filled.elim (fun named => named nameless) fun mailed => mailed mailless

/-- What a trailer can spell so that it is read as it was meant. -/
structure Identity.Writable (identity : Identity) : Prop where
  name : identity.name.Trimmed isAsciiWhitespace
  email : identity.email.Trimmed isAsciiWhitespace
  nameLine : 10 ∉ identity.name
  emailLine : 10 ∉ identity.email
  opens : 60 ∉ identity.email
  filled : identity.name ≠ [] ∨ identity.email ≠ []

/-- `Name <email>` behind a colon and a space. -/
def Identity.spelled (identity : Identity) : Bytes :=
  32 :: identity.name ++ [32, 60] ++ identity.email ++ [62]

/-- The trailer line that names an identity, with any spelling of its token. -/
def Identity.trailer (token : Bytes) (identity : Identity) : Bytes := token ++ 58 :: identity.spelled

private theorem blank_spaces (count : ℕ) :
    ∀ byte ∈ List.replicate count (32 : UInt8), isAsciiWhitespace byte = true := by
  intro byte member
  rw [List.eq_of_mem_replicate member]
  rfl

theorem Identity.Writable.parse (writable : identity.Writable) :
    parseIdentity identity.spelled = some identity := by
  have email : trimAscii identity.email = identity.email := List.trimEnds_of_trimmed writable.email
  by_cases nameless : identity.name = []
  · have trimmed : trimAscii identity.spelled = [] ++ 60 :: identity.email ++ [62] := by
      have shape : identity.spelled = [32, 32] ++ (60 :: identity.email ++ [62]) ++ [] := by
        rw [Identity.spelled, nameless]
        simp
      have spaces : ∀ byte ∈ ([32, 32] : Bytes), isAsciiWhitespace byte = true := blank_spaces 2
      rw [shape, trimAscii, List.trimEnds_append _ spaces (List.forall_mem_nil _), List.nil_append]
      refine ⟨fun a first => ?_, fun a last => ?_⟩
      · obtain rfl := Option.some.inj first
        decide
      · rw [List.getLast?_concat] at last
        obtain rfl := Option.some.inj last
        decide
    rw [parseIdentity_of_trimmed trimmed writable.opens (.inr ?_), email]
    · rw [trimAscii, List.trimEnds_of_trimmed List.trimmed_nil, ← nameless]
    · rw [email]
      exact writable.filled.resolve_left fun named => named nameless
  · have name : trimAscii (identity.name ++ [32]) = identity.name := by
      rw [trimAscii, ← List.nil_append identity.name]
      exact List.trimEnds_append writable.name (List.forall_mem_nil _) (blank_spaces 1)
    have trimmed : trimAscii identity.spelled =
        identity.name ++ [32] ++ 60 :: identity.email ++ [62] := by
      have shape : identity.spelled =
          [32] ++ (identity.name ++ [32] ++ 60 :: identity.email ++ [62]) ++ [] := by
        rw [Identity.spelled]
        simp
      have space : ∀ byte ∈ ([32] : Bytes), isAsciiWhitespace byte = true := blank_spaces 1
      rw [shape, trimAscii, List.trimEnds_append _ space (List.forall_mem_nil _)]
      refine ⟨fun a first => writable.name.1 a ?_, fun a last => ?_⟩
      · rw [List.append_assoc, List.append_assoc, List.head?_append_of_ne_nil _ nameless] at first
        exact first
      · rw [List.getLast?_concat] at last
        obtain rfl := Option.some.inj last
        decide
    rw [parseIdentity_of_trimmed trimmed writable.opens (.inl ?_), name, email]
    rw [name]
    exact nameless

/-- A trailer is read by its token, without regard to case and to blanks around it. -/
theorem coAuthor_trailer {token : Bytes} (plain : 58 ∉ token) : coAuthor (identity.trailer token) =
    if toAsciiLowercase (trimAscii token) = coAuthoredBy then parseIdentity identity.spelled else none := by
  have before : ∀ byte ∈ token, decide (byte ≠ 58) = true := by
    intro byte member
    exact decide_eq_true fun same => plain (same ▸ member)
  have value : (identity.trailer token).dropWhile (· ≠ 58) = 58 :: identity.spelled := by
    rw [Identity.trailer, List.dropWhile_append_of_pos before]
    exact List.dropWhile_cons_of_neg (by decide)
  have key : (identity.trailer token).takeWhile (· ≠ 58) = token := by
    rw [Identity.trailer, List.takeWhile_append_of_pos before]
    exact (congrArg (token ++ ·) (List.takeWhile_cons_of_neg (by decide))).trans (List.append_nil token)
  rw [coAuthor, value]
  dsimp only
  rw [key]

/-- A line of a paragraph: a trailer, or any other line. -/
inductive ParagraphLine where
  | trailer (token : Bytes) (identity : Identity)
  | other (line : Bytes)
deriving DecidableEq

namespace ParagraphLine

def text : ParagraphLine → Bytes
  | trailer token identity => identity.trailer token
  | other line => line

/-- The co-author that is meant by a line. -/
def coAuthor? : ParagraphLine → Option Identity
  | trailer token identity =>
    if toAsciiLowercase (trimAscii token) = coAuthoredBy then some identity else none
  | other _ => none

/-- A trailer of any token names an identity that can be written, and any other line is not read as one. -/
def Readable : ParagraphLine → Prop
  | trailer token identity => 58 ∉ token ∧ 10 ∉ token ∧ identity.Writable
  | other line => 10 ∉ line ∧ isBlankLine line = false ∧ coAuthor line = none

variable {line : ParagraphLine}

theorem Readable.coAuthor_text (readable : line.Readable) : coAuthor line.text = line.coAuthor? := by
  cases line with
  | trailer token identity =>
    obtain ⟨plain, -, writable⟩ := readable
    rw [text, coAuthor?, coAuthor_trailer plain, writable.parse]
  | other line => exact readable.2.2

theorem Readable.filled (readable : line.Readable) : isBlankLine line.text = false := by
  cases line with
  | trailer token identity =>
    rw [text, isBlankLine, List.all_eq_false]
    exact ⟨58, by simp [Identity.trailer], by decide⟩
  | other line => exact readable.2.1

theorem Readable.oneLine (readable : line.Readable) : 10 ∉ line.text := by
  cases line with
  | trailer token identity =>
    obtain ⟨-, oneLine, writable⟩ := readable
    simp only [text, Identity.trailer, Identity.spelled, List.mem_append, List.mem_cons, List.not_mem_nil,
      or_false, not_or]
    exact ⟨oneLine, by decide, ⟨⟨⟨by decide, writable.nameLine⟩, by decide, by decide⟩, writable.emailLine⟩,
      by decide⟩
  | other line => exact readable.1

end ParagraphLine

/-- The co-author trailers among the lines of the last paragraph are read back in order, up to the bound, and
nothing before that paragraph is read at all. -/
theorem coAuthors_trailers {before after : List Bytes} {paragraph : List ParagraphLine}
    (lines : ∀ line ∈ before ++ after, 10 ∉ line) (blank : ∀ gap ∈ before.getLast?, isBlankLine gap = true)
    (ends : ∀ line ∈ after, isBlankLine line = true) (readable : ∀ line ∈ paragraph, line.Readable)
    (some_ : paragraph ≠ []) :
    coAuthors ([10].intercalate (before ++ paragraph.map ParagraphLine.text ++ after)) =
      (paragraph.filterMap ParagraphLine.coAuthor?).take maxCoAuthorsPerCommit := by
  have filled : ∀ line ∈ paragraph.map ParagraphLine.text, isBlankLine line = false :=
    List.forall_mem_map.mpr fun line member => (readable line member).filled
  have single : ∀ line ∈ before ++ paragraph.map ParagraphLine.text ++ after, 10 ∉ line := by
    intro line member
    rw [List.append_assoc, List.mem_append, List.mem_append] at member
    rcases member with first | inside | last
    · exact lines line (List.mem_append_left _ first)
    · obtain ⟨written, listed, rfl⟩ := List.mem_map.mp inside
      exact (readable written listed).oneLine
    · exact lines line (List.mem_append_right _ last)
  have read : (paragraph.map ParagraphLine.text).filterMap coAuthor =
      paragraph.filterMap ParagraphLine.coAuthor? := by
    rw [List.filterMap_map]
    exact List.filterMap_congr fun line listed => (readable line listed).coAuthor_text
  have nonempty : before ++ paragraph.map ParagraphLine.text ++ after ≠ [] := by simp [some_]
  rw [coAuthors, List.splitOn_intercalate 10 single nonempty,
    List.lastBlock_append blank filled (by simpa using some_) ends, read]

/-- `Co-Authored-By` -/
private def upperToken : Bytes := [67, 111, 45, 65, 117, 116, 104, 111, 114, 101, 100, 45, 66, 121]

/-- A subject, and a paragraph of a review, two co-authors in two casings and a line of prose. -/
theorem coAuthors_trailers_sample :
    coAuthors ([10].intercalate ([[70, 105, 120], []] ++
        [.trailer [82] ⟨[82], [114]⟩, .trailer coAuthoredBy ⟨[65], [97, 64, 98]⟩, .other [79, 107],
          .trailer upperToken ⟨[], [99]⟩].map ParagraphLine.text ++ [[32]])) =
      [⟨[65], [97, 64, 98]⟩, ⟨[], [99]⟩] := by
  refine coAuthors_trailers (by decide) (by decide) (by decide) ?_ (List.cons_ne_nil _ _)
  have short : ∀ {name email : Bytes}, name.Trimmed isAsciiWhitespace → email.Trimmed isAsciiWhitespace →
      10 ∉ name → 10 ∉ email → 60 ∉ email → name ≠ [] ∨ email ≠ [] → (Identity.mk name email).Writable :=
    fun name email nameLine emailLine opens filled => ⟨name, email, nameLine, emailLine, opens, filled⟩
  intro line listed
  simp only [List.mem_cons, List.not_mem_nil, or_false] at listed
  rcases listed with rfl | rfl | rfl | rfl
  · exact ⟨by decide, by decide, short (by simp [List.Trimmed, isAsciiWhitespace])
      (by simp [List.Trimmed, isAsciiWhitespace]) (by decide) (by decide) (by decide) (by decide)⟩
  · exact ⟨by decide, by decide, short (by simp [List.Trimmed, isAsciiWhitespace])
      (by simp [List.Trimmed, isAsciiWhitespace]) (by decide) (by decide) (by decide) (by decide)⟩
  · exact ⟨by decide, by decide, by decide⟩
  · exact ⟨by decide, by decide, short (by simp [List.Trimmed, isAsciiWhitespace])
      (by simp [List.Trimmed, isAsciiWhitespace]) (by decide) (by decide) (by decide) (by decide)⟩

end Written

end Harkness.Git.Provenance
