import Harkness.Git.Status
import Harkness.ToMathlib.Except

/-! # What Git prints of a status

Git's report of a repository, printed as the records of its NUL-terminated form. The parser gives back
the report, and of a report that is cut off it gives the first entries, or nothing, unless the cut falls
within the name at the end of a record.
-/

namespace Harkness.Git.Status

open SplitN (join)
open Utf8 (encode)

/-- A field of a record before its path. -/
structure Word where
  bytes : Bytes
  plain : space ∉ bytes ∧ nul ∉ bytes

/-- A path. -/
structure Name where
  bytes : Bytes
  filled : bytes ≠ []
  plain : nul ∉ bytes

/-- How one side of a tracked path changed. -/
structure SideChange where
  change : Option FileChange
  tracked : change ≠ some .untracked

/-- What is reported of a tracked path besides its name. -/
structure Tracked where
  staged : SideChange
  unstaged : SideChange
  submodule : Word
  headMode : Word
  indexMode : Word
  worktreeMode : Word
  headObject : Word
  indexObject : Word

/-- What is reported of a conflicted path besides its name. -/
structure Conflict where
  staged : SideChange
  unstaged : SideChange
  submodule : Word
  baseMode : Word
  oursMode : Word
  theirsMode : Word
  worktreeMode : Word
  baseObject : Word
  oursObject : Word
  theirsObject : Word

/-- One path as Git reports it. -/
inductive Entry where
  | ordinary (tracked : Tracked) (path : Name)
  | renamed (tracked : Tracked) (score : Word) (path source : Name)
  | unmerged (conflict : Conflict) (path : Name)
  | untracked (path : Name)
  | ignored (path : Name)

/-- The name of an object, in hexadecimal digits. -/
structure ObjectName where
  text : String
  hex : text.toList.all (fun digit => digit.isDigit || ('a' ≤ digit && digit ≤ 'f')) = true

/-- The name of a reference. -/
structure RefName where
  text : String
  plain : '\x00' ∉ text.toList

/-- The name of a branch, which is not the word printed for none. -/
structure BranchName extends RefName where
  named : text ≠ detachedHead

/-- What is checked out, as Git reports it. -/
inductive Head where
  | unborn (branch : Option BranchName)
  | branch (commit : ObjectName) (name : BranchName)
  | detached (commit : ObjectName)

/-- The tracked branch, and the counts of commits on either side if it is there to compare with. -/
structure Upstream where
  name : RefName
  counts : Option (Fin (2 ^ 64) × Fin (2 ^ 64))

structure Report where
  head : Head
  upstream : Option Upstream
  stash : Option ℕ
  entries : List Entry

def Entry.status : Entry → Option StatusEntry
  | .ordinary tracked path =>
    some ⟨path.bytes, tracked.staged.change, tracked.unstaged.change, none, false⟩
  | .renamed tracked _ path source =>
    some ⟨path.bytes, tracked.staged.change, tracked.unstaged.change, some source.bytes, false⟩
  | .unmerged conflict path =>
    some ⟨path.bytes, conflict.staged.change, conflict.unstaged.change, none, true⟩
  | .untracked path => some ⟨path.bytes, none, some .untracked, none, false⟩
  | .ignored _ => none

/-- The entries of a status, which leave out what is ignored. -/
def entriesOf (entries : List Entry) : List StatusEntry := entries.filterMap Entry.status

def Head.state : Head → HeadState
  | .unborn name => .unborn (name.map (·.text))
  | .branch _ name => .branch name.text
  | .detached commit => .detached commit.text

def Upstream.status (upstream : Upstream) : UpstreamStatus :=
  let counts := upstream.counts.getD (0, 0)
  ⟨upstream.name.text, counts.1, counts.2⟩

def Report.status (report : Report) : DetailedStatus where
  head := report.head.state
  upstream := report.upstream.map Upstream.status
  pending := none
  entries := entriesOf report.entries

/-- The letter of a change. -/
def letter : Option FileChange → UInt8
  | none => '.'.toUInt8
  | some .added => 'A'.toUInt8
  | some .modified => 'M'.toUInt8
  | some .deleted => 'D'.toUInt8
  | some .renamed => 'R'.toUInt8
  | some .copied => 'C'.toUInt8
  | some .typeChanged => 'T'.toUInt8
  | some .unmerged => 'U'.toUInt8
  | some .untracked => '?'.toUInt8

def letters (staged unstaged : SideChange) : Bytes := [letter staged.change, letter unstaged.change]

def Tracked.words (tracked : Tracked) : List Bytes :=
  [letters tracked.staged tracked.unstaged, tracked.submodule.bytes, tracked.headMode.bytes,
    tracked.indexMode.bytes, tracked.worktreeMode.bytes, tracked.headObject.bytes, tracked.indexObject.bytes]

def Conflict.words (conflict : Conflict) : List Bytes :=
  [letters conflict.staged conflict.unstaged, conflict.submodule.bytes, conflict.baseMode.bytes,
    conflict.oursMode.bytes, conflict.theirsMode.bytes, conflict.worktreeMode.bytes,
    conflict.baseObject.bytes, conflict.oursObject.bytes, conflict.theirsObject.bytes]

/-- The fields of a record before its path, the first of which tells its kind. -/
def Entry.words : Entry → List Bytes
  | .ordinary tracked _ => ['1'.toUInt8] :: tracked.words
  | .renamed tracked score _ _ => ['2'.toUInt8] :: (tracked.words ++ [score.bytes])
  | .unmerged conflict _ => ['u'.toUInt8] :: conflict.words
  | .untracked _ => [['?'.toUInt8]]
  | .ignored _ => [['!'.toUInt8]]

def Entry.path : Entry → Name
  | .ordinary _ path | .renamed _ _ path _ | .unmerged _ path | .untracked path | .ignored path => path

/-- What is printed of an entry before the last name in it. -/
def Entry.front (entry : Entry) : Bytes :=
  match entry with
  | .renamed _ _ path _ => join space entry.words path.bytes ++ [nul]
  | _ => join space entry.words []

/-- The last name printed of an entry. -/
def Entry.lastName : Entry → Bytes
  | .renamed _ _ _ source => source.bytes
  | entry => entry.path.bytes

def Entry.render (entry : Entry) : Bytes := entry.front ++ entry.lastName ++ [nul]

def renderEntries (entries : List Entry) : Bytes := entries.flatMap Entry.render

def headerLine (key value : String) : String := "# " ++ key ++ " " ++ value

/-- The commit and the branch as they are printed. -/
def Head.printed : Head → String × String
  | .unborn name => (initialCommit, (name.map (·.text)).getD detachedHead)
  | .branch commit name => (commit.text, name.text)
  | .detached commit => (commit.text, detachedHead)

def Head.fields (head : Head) : List (String × String) :=
  [("branch.oid", head.printed.1), ("branch.head", head.printed.2)]

def Upstream.fields (upstream : Upstream) : List (String × String) :=
  ("branch.upstream", upstream.name.text) :: (upstream.counts.map fun counts =>
    ("branch.ab", "+" ++ toString counts.1.val ++ " -" ++ toString counts.2.val)).toList

/-- The headers, each with its key. -/
def Report.fields (report : Report) : List (String × String) :=
  report.head.fields ++ report.upstream.elim [] Upstream.fields ++
    (report.stash.map fun count => ("stash", toString count)).toList

def renderHeaders (fields : List (String × String)) : Bytes :=
  (fields.map fun field => encode (headerLine field.1 field.2).toList).flatMap (· ++ [nul])

def Report.render (report : Report) : Bytes := renderHeaders report.fields ++ renderEntries report.entries

theorem changeKind_letter (side : SideChange) : changeKind (letter side.change) = .ok side.change := by
  obtain ⟨change, tracked⟩ := side
  rcases change with _ | _ | _ | _ | _ | _ | _ | _ | _
  case some.untracked => exact absurd rfl tracked
  all_goals rfl

theorem changeKinds_letters (staged unstaged : SideChange) :
    changeKinds (letters staged unstaged) = .ok (staged.change, unstaged.change) := by
  simp only [letters, changeKinds, changeKind_letter]
  rfl

/-- A word has neither of the bytes that separate fields and records. -/
def Plain (bytes : Bytes) : Prop := space ∉ bytes ∧ nul ∉ bytes

theorem plain_letters (staged unstaged : SideChange) : Plain (letters staged unstaged) := by
  have letter_ (change : Option FileChange) : letter change ≠ space ∧ letter change ≠ nul := by
    rcases change with _ | _ | _ | _ | _ | _ | _ | _ | _ <;> decide
  obtain ⟨one, two⟩ := letter_ staged.change
  obtain ⟨three, four⟩ := letter_ unstaged.change
  constructor
  · simp [letters, one.symm, three.symm]
  · simp [letters, two.symm, four.symm]

theorem Tracked.plain_words (tracked : Tracked) : ∀ word ∈ tracked.words, Plain word := by
  simp only [Tracked.words, List.forall_mem_cons]
  exact ⟨plain_letters _ _, tracked.submodule.plain, tracked.headMode.plain, tracked.indexMode.plain,
    tracked.worktreeMode.plain, tracked.headObject.plain, tracked.indexObject.plain, List.forall_mem_nil _⟩

theorem Conflict.plain_words (conflict : Conflict) : ∀ word ∈ conflict.words, Plain word := by
  simp only [Conflict.words, List.forall_mem_cons]
  exact ⟨plain_letters _ _, conflict.submodule.plain, conflict.baseMode.plain, conflict.oursMode.plain,
    conflict.theirsMode.plain, conflict.worktreeMode.plain, conflict.baseObject.plain,
    conflict.oursObject.plain, conflict.theirsObject.plain, List.forall_mem_nil _⟩

theorem Entry.plain_words (entry : Entry) : ∀ word ∈ entry.words, Plain word := by
  have tag {byte : UInt8} (differs : byte ≠ space ∧ byte ≠ nul) : Plain [byte] :=
    ⟨fun member => differs.1 (List.mem_singleton.mp member).symm,
      fun member => differs.2 (List.mem_singleton.mp member).symm⟩
  cases entry with
  | ordinary tracked path => exact List.forall_mem_cons.mpr ⟨tag (by decide), tracked.plain_words⟩
  | renamed tracked score path source =>
    refine List.forall_mem_cons.mpr ⟨tag (by decide), List.forall_mem_append.mpr ⟨tracked.plain_words, ?_⟩⟩
    exact List.forall_mem_singleton.mpr score.plain
  | unmerged conflict path => exact List.forall_mem_cons.mpr ⟨tag (by decide), conflict.plain_words⟩
  | untracked path => exact List.forall_mem_singleton.mpr (tag (by decide))
  | ignored path => exact List.forall_mem_singleton.mpr (tag (by decide))

section Split

variable {words : List Bytes} {parsed : Parsed} {records : List Bytes} {name : Bytes}

theorem splitRecord_join (clear : ∀ word ∈ words, Plain word) (filled : name ≠ []) :
    splitRecord (join space words name) (words.length + 1) = .ok (words ++ [name]) := by
  have split := SplitN.splitn_join (fun word member => (clear word member).1) name
  rw [splitRecord, split, List.getLastD_concat, List.length_append, List.length_singleton]
  exact if_neg (by simp [filled])

/-- A record cut before its last field, or right before the bytes of it, is refused. -/
theorem splitRecord_take (clear : ∀ word ∈ words, Plain word) {n : ℕ}
    (cut : n ≤ (join space words []).length) (name : Bytes) :
    ∃ error, splitRecord ((join space words name).take n) (words.length + 1) = .error error := by
  have same : (join space words name).take n = (join space words []).take n := by
    rw [join, join, List.append_nil] at *
    exact List.take_append_of_le_length cut
  rw [same, splitRecord]
  rcases cut.lt_or_eq with short | whole
  · have fewer := SplitN.length_splitn_take_lt (fun word member => (clear word member).1)
      (by simpa [join] using short) [] (words.length + 1)
    exact ⟨_, if_pos (.inl fewer.ne)⟩
  · rw [whole, List.take_length, SplitN.splitn_join fun word member => (clear word member).1]
    exact ⟨_, if_pos (.inr List.getLastD_concat)⟩

variable {staged unstaged : SideChange}

theorem parseChanged_join (clear : ∀ word ∈ words, Plain word)
    (sides : words.getD 1 [] = letters staged unstaged) (filled : name ≠ []) (source : Option Bytes) :
    parseChanged (join space words name) (words.length + 1) source =
      .ok ⟨name, staged.change, unstaged.change, source, false⟩ := by
  have several : 1 < words.length := by
    by_contra few
    rw [List.getD_eq_default _ _ (by omega)] at sides
    cases sides
  have second : (words ++ [name]).getD 1 [] = letters staged unstaged := by
    rw [List.getD_append _ _ _ _ several, sides]
  refine Except.bind_eq_ok.mpr ⟨words ++ [name], splitRecord_join clear filled, ?_⟩
  refine Except.bind_eq_ok.mpr ⟨(staged.change, unstaged.change), ?_, ?_⟩
  · rw [second, changeKinds_letters]
  · rw [List.getLastD_concat]

end Split

/-- The entry that is reported when other bytes stand where its last name does. -/
def Entry.named (name : Bytes) : Entry → Option StatusEntry
  | .ordinary tracked _ => some ⟨name, tracked.staged.change, tracked.unstaged.change, none, false⟩
  | .renamed tracked _ path _ =>
    some ⟨path.bytes, tracked.staged.change, tracked.unstaged.change, some name, false⟩
  | .unmerged conflict _ => some ⟨name, conflict.staged.change, conflict.unstaged.change, none, true⟩
  | .untracked _ => some ⟨name, none, some .untracked, none, false⟩
  | .ignored _ => none

/-- The records printed of an entry when other bytes stand where its last name does. -/
def Entry.records (name : Bytes) (entry : Entry) : List Bytes :=
  match entry with
  | .renamed _ _ path _ => [join space entry.words path.bytes, name]
  | _ => [join space entry.words name]

def Parsed.add (parsed : Parsed) (entry : Option StatusEntry) : Parsed :=
  { parsed with entries := parsed.entries ++ entry.toList }

section Entries

variable {parsed : Parsed} {entry : Entry} {name : Bytes} {records : List Bytes}

theorem Entry.named_lastName (entry : Entry) : entry.named entry.lastName = entry.status := by
  cases entry <;> rfl

variable {record : Bytes}

theorem parseRecords_ordinary (tag : record.head? = some '1'.toUInt8) : parseRecords parsed (record :: records) =
    parseChanged record ordinaryFields none >>= fun entry => parseRecords (parsed.push entry) records := by
  obtain ⟨fields, rfl⟩ := List.head?_eq_some_iff.mp tag
  rcases records with _ | ⟨_ | _, _⟩ <;> rfl

theorem parseRecords_unmerged (tag : record.head? = some 'u'.toUInt8) : parseRecords parsed (record :: records) =
    parseUnmerged record >>= fun entry => parseRecords (parsed.push entry) records := by
  obtain ⟨fields, rfl⟩ := List.head?_eq_some_iff.mp tag
  rcases records with _ | ⟨_ | _, _⟩ <;> rfl

theorem parseRecords_untracked (tag : record.head? = some '?'.toUInt8) :
    parseRecords parsed (record :: records) =
      parseUntracked record >>= fun entry => parseRecords (parsed.push entry) records := by
  obtain ⟨fields, rfl⟩ := List.head?_eq_some_iff.mp tag
  rcases records with _ | ⟨_ | _, _⟩ <;> rfl

theorem parseRecords_ignored (tag : record.head? = some '!'.toUInt8) :
    parseRecords parsed (record :: records) = parseRecords parsed records := by
  obtain ⟨fields, rfl⟩ := List.head?_eq_some_iff.mp tag
  rcases records with _ | ⟨_ | _, _⟩ <;> rfl

theorem parseRecords_renamed (tag : record.head? = some '2'.toUInt8) {source : Bytes} (filled : source ≠ []) :
    parseRecords parsed (record :: source :: records) =
      parseChanged record renameFields (some source) >>= fun entry =>
        parseRecords (parsed.push entry) records := by
  obtain ⟨fields, rfl⟩ := List.head?_eq_some_iff.mp tag
  obtain ⟨first, source, rfl⟩ := List.exists_cons_of_ne_nil filled
  rfl

/-- The records of an entry are read as it, whatever its last name. -/
theorem parseRecords_records (filled : name ≠ []) :
    parseRecords parsed (entry.records name ++ records) = parseRecords (parsed.add (entry.named name)) records := by
  have clear := entry.plain_words
  cases entry with
  | ordinary tracked path =>
    have sides : (Entry.ordinary tracked path).words.getD 1 [] = letters tracked.staged tracked.unstaged := rfl
    have read := parseChanged_join clear sides filled none
    calc _ = _ := parseRecords_ordinary rfl
      _ = _ := congrArg (· >>= _) read
  | renamed tracked score path source =>
    have sides : (Entry.renamed tracked score path source).words.getD 1 [] =
        letters tracked.staged tracked.unstaged := rfl
    have read := parseChanged_join clear sides path.filled (some name)
    calc _ = _ := parseRecords_renamed rfl filled
      _ = _ := congrArg (· >>= _) read
  | unmerged conflict path =>
    have kinds := changeKinds_letters conflict.staged conflict.unstaged
    have read : parseUnmerged (join space (Entry.unmerged conflict path).words name) =
        .ok ⟨name, conflict.staged.change, conflict.unstaged.change, none, true⟩ := by
      refine Except.bind_eq_ok.mpr ⟨_, splitRecord_join clear filled, ?_⟩
      exact Except.bind_eq_ok.mpr ⟨_, kinds, rfl⟩
    calc _ = _ := parseRecords_unmerged rfl
      _ = _ := congrArg (· >>= _) read
  | untracked path =>
    have read : parseUntracked (join space (Entry.untracked path).words name) =
        .ok ⟨name, none, some .untracked, none, false⟩ :=
      Except.bind_eq_ok.mpr ⟨_, splitRecord_join clear filled, rfl⟩
    calc _ = _ := parseRecords_untracked rfl
      _ = _ := congrArg (· >>= _) read
  | ignored path =>
    calc _ = parseRecords parsed records := parseRecords_ignored rfl
      _ = _ := by rw [Entry.named, Parsed.add, Option.toList_none, List.append_nil]

theorem nul_notMem_join (clear : ∀ word ∈ entry.words, Plain word) (plain : nul ∉ name) :
    nul ∉ join space entry.words name := by
  rw [join, List.mem_append, List.mem_flatMap]
  rintro (⟨word, member, inside⟩ | inside)
  · rcases List.mem_append.mp inside with inside | inside
    · exact (clear word member).2 inside
    · exact absurd (List.mem_singleton.mp inside) (by decide)
  · exact plain inside

theorem splitOn_front_name (plain : nul ∉ name) : (entry.front ++ name).splitOn nul = entry.records name := by
  have clear := entry.plain_words
  have once (front : Bytes) (same : front = join space entry.words []) :
      (front ++ name).splitOn nul = [join space entry.words name] := by
    have whole : front ++ name = join space entry.words name := by rw [same, join, join, List.append_nil]
    rw [whole, List.splitOn_eq_singleton (nul_notMem_join clear plain)]
  cases entry with
  | renamed tracked score path source =>
    have shape : Entry.front (.renamed tracked score path source) ++ name =
        join space (Entry.renamed tracked score path source).words path.bytes ++ nul :: name := by
      simp [Entry.front]
    rw [shape, List.splitOn_append_cons_self_of_not_mem (nul_notMem_join clear path.plain),
      List.splitOn_eq_singleton plain]
    rfl
  | ordinary => exact once _ rfl
  | unmerged => exact once _ rfl
  | untracked => exact once _ rfl
  | ignored => exact once _ rfl

theorem Entry.plain_lastName (entry : Entry) : nul ∉ entry.lastName := by
  cases entry with
  | renamed _ _ _ source => exact source.plain
  | ordinary _ path => exact path.plain
  | unmerged _ path => exact path.plain
  | untracked path => exact path.plain
  | ignored path => exact path.plain

theorem Entry.lastName_ne_nil (entry : Entry) : entry.lastName ≠ [] := by
  cases entry with
  | renamed _ _ _ source => exact source.filled
  | ordinary _ path => exact path.filled
  | unmerged _ path => exact path.filled
  | untracked path => exact path.filled
  | ignored path => exact path.filled

/-- An entry cut before its last name is refused, unless it is ignored or nothing of it is left. -/
theorem parseRecords_take_front (parsed : Parsed) {n : ℕ} (short : n ≤ entry.front.length) :
    (∃ error, parseRecords parsed ((entry.front.take n).splitOn nul) = .error error) ∨
      parseRecords parsed ((entry.front.take n).splitOn nul) = .ok parsed := by
  rcases n with _ | n
  · exact .inr rfl
  have clear := entry.plain_words
  have single {text : Bytes} (plain : nul ∉ text) (n : ℕ) : (text.take n).splitOn nul = [text.take n] :=
    List.splitOn_eq_singleton fun inside => plain (List.mem_of_mem_take inside)
  have plain : nul ∉ join space entry.words [] := nul_notMem_join clear List.not_mem_nil
  cases entry with
  | ordinary tracked path =>
    obtain ⟨error, refused⟩ := splitRecord_take clear short []
    have read : parseChanged _ ordinaryFields none = .error error := congrArg (· >>= _) refused
    refine .inl ⟨error, ?_⟩
    calc _ = _ := congrArg (parseRecords parsed) (single plain (n + 1))
      _ = _ := parseRecords_ordinary rfl
      _ = _ := congrArg (· >>= _) read
  | renamed tracked score path source =>
    have plain := nul_notMem_join clear path.plain
    rcases short.lt_or_eq with within | whole
    · have begun : (Entry.front (.renamed tracked score path source)).take (n + 1) =
          (join space (Entry.renamed tracked score path source).words path.bytes).take (n + 1) := by
        refine List.take_append_of_le_length ?_
        have length : (Entry.front (.renamed tracked score path source)).length = _ :=
          List.length_append
        rw [List.length_singleton] at length
        omega
      rw [begun, single plain]
      exact .inl ⟨_, rfl⟩
    · have pieces : (Entry.front (.renamed tracked score path source) ++ []).splitOn nul = _ :=
        splitOn_front_name List.not_mem_nil
      rw [List.append_nil] at pieces
      rw [whole, List.take_length, pieces]
      exact .inl ⟨_, rfl⟩
  | unmerged conflict path =>
    obtain ⟨error, refused⟩ := splitRecord_take clear short []
    have read : parseUnmerged _ = .error error := congrArg (· >>= _) refused
    refine .inl ⟨error, ?_⟩
    calc _ = _ := congrArg (parseRecords parsed) (single plain (n + 1))
      _ = _ := parseRecords_unmerged rfl
      _ = _ := congrArg (· >>= _) read
  | untracked path =>
    obtain ⟨error, refused⟩ := splitRecord_take clear short []
    have read : parseUntracked _ = .error error := congrArg (· >>= _) refused
    refine .inl ⟨error, ?_⟩
    calc _ = _ := congrArg (parseRecords parsed) (single plain (n + 1))
      _ = _ := parseRecords_untracked rfl
      _ = _ := congrArg (· >>= _) read
  | ignored path =>
    refine .inr ?_
    calc _ = _ := congrArg (parseRecords parsed) (single plain (n + 1))
      _ = _ := parseRecords_ignored rfl

/-- A whole entry is read as it, and what follows behind it. -/
theorem parseRecords_render (rest : Bytes) : parseRecords parsed ((entry.render ++ rest).splitOn nul) =
    parseRecords (parsed.add entry.status) (rest.splitOn nul) := by
  have shape : entry.render ++ rest = entry.front ++ entry.lastName ++ nul :: rest := by
    simp [Entry.render]
  rw [shape, List.splitOn_append_cons_self, splitOn_front_name entry.plain_lastName,
    parseRecords_records entry.lastName_ne_nil, Entry.named_lastName]

/-- An entry cut in its last name is read as it with what is left of the name. -/
theorem parseRecords_take_lastName (parsed : Parsed) (entry : Entry) {count : ℕ} (some_ : 0 < count) :
    parseRecords parsed ((entry.front ++ entry.lastName.take count).splitOn nul) =
      .ok (parsed.add (entry.named (entry.lastName.take count))) := by
  have plain : nul ∉ entry.lastName.take count :=
    fun inside => entry.plain_lastName (List.mem_of_mem_take inside)
  have filled : entry.lastName.take count ≠ [] := by
    rw [Ne, List.take_eq_nil_iff]
    rintro (none_ | none_)
    · omega
    · exact entry.lastName_ne_nil none_
  rw [splitOn_front_name plain, ← List.append_nil (entry.records _), parseRecords_records filled]
  rfl

/-- The cut leaves some bytes of the last name of an entry that is reported, and not all of them. -/
def Entry.CutWithin (entry : Entry) (n : ℕ) : Prop :=
  entry.status ≠ none ∧ entry.front.length < n ∧ n < entry.front.length + entry.lastName.length

/-- Cut after a number of bytes, printed entries end within the last name of one of them. -/
def CutWithinName : List Entry → ℕ → Prop
  | [], _ => False
  | entry :: entries, n =>
    entry.CutWithin n ∨ entry.render.length ≤ n ∧ CutWithinName entries (n - entry.render.length)

theorem Entry.length_render (entry : Entry) :
    entry.render.length = entry.front.length + entry.lastName.length + 1 := by
  rw [Entry.render, List.length_append, List.length_append, List.length_singleton]

theorem Entry.named_inj (entry : Entry) (reported : entry.status ≠ none) (name other : Bytes) :
    entry.named name = entry.named other ↔ name = other := by
  cases entry with
  | ignored => exact absurd rfl reported
  | _ => simp [Entry.named]

theorem Entry.named_eq_none (entry : Entry) (name : Bytes) : entry.named name = none ↔ entry.status = none := by
  cases entry <;> simp [Entry.named, Entry.status]

/-- What is left of an entry cut in its last name is the entry if all of the name is left. -/
theorem named_take_prefix {count : ℕ} (fits : count ≤ entry.lastName.length) (some_ : 0 < count)
    (entries : List Entry) : (entry.named (entry.lastName.take count)).toList <+: entriesOf (entry :: entries) ↔
      ¬entry.CutWithin (entry.front.length + count) := by
  rw [entriesOf, List.filterMap_cons]
  rcases reported : entry.status with _ | status
  · rw [(entry.named_eq_none _).mpr reported]
    exact iff_of_true List.nil_prefix fun cut => cut.1 reported
  · have some' : entry.status ≠ none := by
      rw [reported]
      exact Option.some_ne_none status
    obtain ⟨left, named⟩ := Option.ne_none_iff_exists'.mp fun none_ =>
      some' ((entry.named_eq_none (entry.lastName.take count)).mp none_)
    have whole := entry.named_inj some' (entry.lastName.take count) entry.lastName
    rw [named, Entry.named_lastName, reported, Option.some.injEq] at whole
    rw [named, Option.toList_some, List.cons_prefix_cons, and_iff_left List.nil_prefix, whole,
      List.take_eq_self_iff]
    unfold Entry.CutWithin
    constructor
    · rintro long ⟨-, -, short⟩
      omega
    · intro uncut
      by_contra short
      exact uncut ⟨some', by omega, by omega⟩

theorem entriesOf_cons {entries : List Entry} :
    entriesOf (entry :: entries) = entry.status.toList ++ entriesOf entries := by
  rw [entriesOf, List.filterMap_cons]
  cases entry.status <;> rfl

/-- Printed entries that are cut off are refused, or read as the first of them and, if the cut falls
within a name, one that is none of them. -/
theorem parseRecords_take (entries : List Entry) (parsed : Parsed) (n : ℕ) :
    ((∃ error, parseRecords parsed (((renderEntries entries).take n).splitOn nul) = .error error) ∧
        ¬CutWithinName entries n) ∨
      ∃ taken, parseRecords parsed (((renderEntries entries).take n).splitOn nul) =
          .ok { parsed with entries := parsed.entries ++ taken } ∧
        (taken <+: entriesOf entries ↔ ¬CutWithinName entries n) := by
  induction entries generalizing parsed n with
  | nil =>
    refine .inr ⟨[], ?_, iff_of_true List.nil_prefix id⟩
    rw [List.append_nil, renderEntries, List.flatMap_nil, List.take_nil]
    rfl
  | cons entry entries ih =>
    have printed : renderEntries (entry :: entries) = entry.render ++ renderEntries entries := List.flatMap_cons
    have length := entry.length_render
    by_cases whole : entry.render.length ≤ n
    · have uncut : ¬entry.CutWithin n := fun cut => absurd cut.2.2 (by omega)
      have cuts : CutWithinName (entry :: entries) n ↔ CutWithinName entries (n - entry.render.length) := by
        rw [CutWithinName, or_iff_right uncut, and_iff_right whole]
      rw [printed, List.take_append, List.take_of_length_le whole, parseRecords_render, cuts]
      rcases ih (parsed.add entry.status) (n - entry.render.length) with refused | ⟨taken, read, first⟩
      · exact .inl refused
      · refine .inr ⟨entry.status.toList ++ taken, ?_, ?_⟩
        · rw [read, ← List.append_assoc]
          rfl
        · rw [entriesOf_cons, List.prefix_append_right_inj, first]
    · have here : CutWithinName (entry :: entries) n ↔ entry.CutWithin n := by
        rw [CutWithinName, or_iff_left fun behind => whole behind.1]
      have begun : (renderEntries (entry :: entries)).take n = (entry.front ++ entry.lastName).take n := by
        rw [printed, Entry.render, List.append_assoc, List.take_append_of_le_length]
        rw [List.length_append]
        omega
      rw [here, begun]
      by_cases early : n ≤ entry.front.length
      · have uncut : ¬entry.CutWithin n := fun cut => absurd cut.2.1 (by omega)
        rw [List.take_append_of_le_length early]
        rcases parseRecords_take_front parsed early with refused | read
        · exact .inl ⟨refused, uncut⟩
        · refine .inr ⟨[], ?_, iff_of_true List.nil_prefix uncut⟩
          rw [read, List.append_nil]
      · obtain ⟨count, rfl⟩ := Nat.exists_eq_add_of_le (Nat.le_of_not_le early)
        have positive : 0 < count := by omega
        rw [List.take_length_add_append, parseRecords_take_lastName _ _ positive]
        exact .inr ⟨_, rfl, named_take_prefix (by omega) positive entries⟩

theorem parseRecords_renderEntries (entries : List Entry) (parsed : Parsed) :
    parseRecords parsed ((renderEntries entries).splitOn nul) =
      .ok { parsed with entries := parsed.entries ++ entriesOf entries } := by
  induction entries generalizing parsed with
  | nil =>
    rw [entriesOf, List.filterMap_nil, List.append_nil]
    rfl
  | cons entry entries ih =>
    have printed : renderEntries (entry :: entries) = entry.render ++ renderEntries entries := List.flatMap_cons
    rw [printed, parseRecords_render, ih, entriesOf_cons, ← List.append_assoc]
    rfl

end Entries

section Headers

variable {parsed : Parsed} {headers : Headers} {record : Bytes} {records : List Bytes}

theorem parseRecords_header (tag : record.head? = some '#'.toUInt8) : parseRecords parsed (record :: records) =
    parseHeader record parsed.headers >>= fun headers => parseRecords { parsed with headers } records := by
  obtain ⟨fields, rfl⟩ := List.head?_eq_some_iff.mp tag
  rcases records with _ | ⟨_ | _, _⟩ <;> rfl

/-- Headers alone, whole or not, report no entry. -/
theorem entries_of_headers (only : ∀ record ∈ records, record = [] ∨ record.head? = some '#'.toUInt8)
    {read : Parsed} (success : parseRecords parsed records = .ok read) : read.entries = parsed.entries := by
  induction records generalizing parsed with
  | nil =>
    cases success
    rfl
  | cons record records ih =>
    have behind := fun other member => only other (List.mem_cons_of_mem _ member)
    rcases only record List.mem_cons_self with rfl | tag
    · exact ih behind success
    · rw [parseRecords_header tag] at success
      obtain ⟨headers, -, success⟩ := Except.bind_eq_ok.mp success
      have later := ih behind success
      exact later

/-- What a header line sets. -/
def Headers.set (headers : Headers) (key : String) (value : List Char) : Except MalformedStatus Headers :=
  if key = "branch.oid" then .ok { headers with oid := some value }
  else if key = "branch.head" then .ok { headers with headName := some value }
  else if key = "branch.upstream" then .ok { headers with upstreamName := some value }
  else if key = "branch.ab" then do
    let counts ← parseAheadBehind value
    .ok { headers with aheadBehind := some counts }
  else .ok headers

def setField (headers : Headers) (field : String × String) : Except MalformedStatus Headers :=
  headers.set field.1 field.2.toList

/-- A header is read by its key. -/
theorem parseHeader_headerLine {key value : String} (one : ' ' ∉ key.toList) :
    parseHeader (encode (headerLine key value).toList) headers = headers.set key value.toList := by
  have shape : (headerLine key value).toList = join ' ' ["#".toList, key.toList] value.toList := by
    simp [headerLine, join, String.toList_append]
  have clear : ∀ word ∈ ["#".toList, key.toList], ' ' ∉ word := by
    simp [one]
  have split : SplitN.splitn ' ' 3 (join ' ' ["#".toList, key.toList] value.toList) =
      ["#".toList, key.toList, value.toList] := SplitN.splitn_join clear value.toList
  rw [parseHeader, Utf8.decodeLossy_encode, shape, split]
  simp only [String.toList_inj]
  rfl

theorem head?_headerLine (key value : String) : (encode (headerLine key value).toList).head? = some '#'.toUInt8 := by
  have shape : (headerLine key value).toList = '#' :: ' ' :: (key.toList ++ ' ' :: value.toList) := by
    simp [headerLine, String.toList_append]
  rw [shape]
  rfl

/-- A printed header is read, and what follows behind it. -/
theorem parseRecords_headerLine {key value : String} (one : ' ' ∉ key.toList)
    (plain : '\x00' ∉ (headerLine key value).toList) (rest : Bytes) :
    parseRecords parsed ((encode (headerLine key value).toList ++ nul :: rest).splitOn nul) =
      parsed.headers.set key value.toList >>= fun headers =>
        parseRecords { parsed with headers } (rest.splitOn nul) := by
  have clear : nul ∉ encode (headerLine key value).toList :=
    fun inside => plain (Utf8.mem_of_byte_mem (by decide : '\x00'.toNat < 128) inside)
  rw [List.splitOn_append_cons_self_of_not_mem clear, parseRecords_header (head?_headerLine key value),
    parseHeader_headerLine one]

end Headers

theorem plain_headerLine {key value : String} (first : '\x00' ∉ key.toList) (second : '\x00' ∉ value.toList) :
    '\x00' ∉ (headerLine key value).toList := by
  simp [headerLine, String.toList_append, first, second]

theorem ObjectName.plain (name : ObjectName) : '\x00' ∉ name.text.toList := by
  intro inside
  exact absurd (List.all_eq_true.mp name.hex _ inside) (by decide)

theorem ObjectName.text_ne_initialCommit (name : ObjectName) : name.text ≠ initialCommit := by
  intro same
  have inside : '(' ∈ name.text.toList := by
    rw [same]
    decide
  exact absurd (List.all_eq_true.mp name.hex _ inside) (by decide)

theorem plain_toString (number : ℕ) : '\x00' ∉ (toString number).toList := by
  intro inside
  have digits : (toString number).toList = Nat.toDigits 10 number := Nat.toList_repr ..
  rw [digits] at inside
  exact absurd (SplitN.isDigit_toDigits inside) (by decide)

theorem Head.plain_printed (head : Head) :
    '\x00' ∉ head.printed.1.toList ∧ '\x00' ∉ head.printed.2.toList := by
  have initial : '\x00' ∉ initialCommit.toList := by decide
  have none_ : '\x00' ∉ detachedHead.toList := by decide
  rcases head with (_ | name) | ⟨commit, name⟩ | commit
  · exact ⟨initial, none_⟩
  · exact ⟨initial, name.plain⟩
  · exact ⟨commit.plain, name.plain⟩
  · exact ⟨commit.plain, none_⟩

/-- What is checked out is read from what is printed of it. -/
theorem headState_printed (head : Head) : headState head.printed.1 head.printed.2 = head.state := by
  rcases head with (_ | name) | ⟨commit, name⟩ | commit
  · rfl
  · change headState initialCommit name.text = _
    rw [headState, if_pos rfl, if_pos name.named]
    rfl
  · change headState commit.text name.text = _
    rw [headState, if_neg commit.text_ne_initialCommit, if_neg name.named]
    rfl
  · change headState commit.text detachedHead = _
    rw [headState, if_neg commit.text_ne_initialCommit, if_pos rfl]
    rfl

theorem parseAheadBehind_printed (ahead behind : Fin (2 ^ 64)) :
    parseAheadBehind ("+" ++ toString ahead.val ++ " -" ++ toString behind.val).toList =
      .ok (ahead.val, behind.val) := by
  have shape : ("+" ++ toString ahead.val ++ " -" ++ toString behind.val).toList =
      ('+' :: Nat.toDigits 10 ahead) ++ ' ' :: ('-' :: Nat.toDigits 10 behind) := by
    simp [String.toList_append]
  have word (sign : Char) (visible : SplitN.isWhitespace sign = false) (number : ℕ) :
      ∀ character ∈ sign :: Nat.toDigits 10 number, SplitN.isWhitespace character = false :=
    List.forall_mem_cons.mpr ⟨visible, fun _ member =>
      SplitN.isWhitespace_of_isDigit (SplitN.isDigit_toDigits member)⟩
  have counts := SplitN.splitWhitespace_pair (by decide : SplitN.isWhitespace ' ' = true) (word '+' (by decide) ahead)
    (word '-' (by decide) behind) (List.cons_ne_nil _ _) (List.cons_ne_nil _ _)
  have read (sign : Char) (number : Fin (2 ^ 64)) :
      parseCount sign (some (sign :: Nat.toDigits 10 number)) = some number.val := by
    rw [parseCount, if_pos rfl, SplitN.parseUnsigned_toDigits number.isLt]
  rw [shape, parseAheadBehind]
  simp only [counts, List.getElem?_cons_zero, List.getElem?_cons_succ, read]

/-- A header that can be printed: no space in its key, and no terminator. -/
def PlainField (field : String × String) : Prop :=
  ' ' ∉ field.1.toList ∧ '\x00' ∉ field.1.toList ∧ '\x00' ∉ field.2.toList

theorem parseRecords_renderHeaders {fields : List (String × String)} (plain : ∀ field ∈ fields, PlainField field)
    (parsed : Parsed) {headers : Headers}
    (set : fields.foldlM setField parsed.headers = .ok headers)
    (rest : Bytes) : parseRecords parsed ((renderHeaders fields ++ rest).splitOn nul) =
      parseRecords { parsed with headers } (rest.splitOn nul) := by
  induction fields generalizing parsed with
  | nil =>
    cases set
    rfl
  | cons field fields ih =>
    obtain ⟨one, first, second⟩ := plain field List.mem_cons_self
    obtain ⟨next, here, set⟩ := Except.bind_eq_ok.mp ((List.foldlM_cons ..).symm.trans set)
    have shape : renderHeaders (field :: fields) ++ rest =
        encode (headerLine field.1 field.2).toList ++ nul :: (renderHeaders fields ++ rest) := by
      simp [renderHeaders]
    have behind : parseRecords { parsed with headers := next } ((renderHeaders fields ++ rest).splitOn nul) =
        parseRecords { parsed with headers } (rest.splitOn nul) :=
      ih (fun other member => plain other (List.mem_cons_of_mem _ member)) _ set
    have here : parsed.headers.set field.1 field.2.toList = .ok next := here
    rw [shape, parseRecords_headerLine one (plain_headerLine first second), here]
    exact behind

/-- What the headers of a report say. -/
def Report.headers (report : Report) : Headers where
  oid := some report.head.printed.1.toList
  headName := some report.head.printed.2.toList
  upstreamName := report.upstream.map (·.name.text.toList)
  aheadBehind := (report.upstream.bind (·.counts)).map fun counts => (counts.1.val, counts.2.val)

theorem Report.plain_fields (report : Report) : ∀ field ∈ report.fields, PlainField field := by
  have named {key value : String} (spelt : ' ' ∉ key.toList ∧ '\x00' ∉ key.toList)
      (plain : '\x00' ∉ value.toList) : PlainField (key, value) := ⟨spelt.1, spelt.2, plain⟩
  obtain ⟨oid, name⟩ := report.head.plain_printed
  refine List.forall_mem_append.mpr ⟨List.forall_mem_append.mpr ⟨?_, ?_⟩, ?_⟩
  · exact List.forall_mem_cons.mpr ⟨named (by decide) oid,
      List.forall_mem_singleton.mpr (named (by decide) name)⟩
  · rcases report.upstream with _ | ⟨name, _ | counts⟩
    · exact List.forall_mem_nil _
    · exact List.forall_mem_singleton.mpr (named (by decide) name.plain)
    · have plain : '\x00' ∉ ("+" ++ toString counts.1.val ++ " -" ++ toString counts.2.val).toList := by
        simp only [String.toList_append, List.mem_append, not_or]
        exact ⟨⟨⟨by decide, plain_toString _⟩, by decide⟩, plain_toString _⟩
      exact List.forall_mem_cons.mpr ⟨named (by decide) name.plain,
        List.forall_mem_singleton.mpr (named (by decide) plain)⟩
  · rcases report.stash with _ | count
    · exact List.forall_mem_nil _
    · exact List.forall_mem_singleton.mpr (named (by decide) (plain_toString count))

/-- The headers of a report are set one by one. -/
theorem Report.set_fields (report : Report) :
    report.fields.foldlM setField ⟨none, none, none, none⟩ = .ok report.headers := by
  have stashed (headers : Headers) :
      (report.stash.map fun count => ("stash", toString count)).toList.foldlM setField headers = .ok headers := by
    cases report.stash <;> rfl
  have upstream (headers : Headers) (bare : headers.upstreamName = none ∧ headers.aheadBehind = none) :
      (report.upstream.elim [] Upstream.fields).foldlM setField headers = .ok { headers with
        upstreamName := report.headers.upstreamName, aheadBehind := report.headers.aheadBehind } := by
    obtain ⟨oid, headName, _, _⟩ := headers
    obtain ⟨rfl, rfl⟩ := bare
    rcases report with ⟨head, _ | ⟨name, _ | counts⟩, stash, entries⟩
    · rfl
    · rfl
    · have counted := parseAheadBehind_printed counts.1 counts.2
      have step : setField ⟨oid, headName, some name.text.toList, none⟩
          ("branch.ab", "+" ++ toString counts.1.val ++ " -" ++ toString counts.2.val) =
          .ok ⟨oid, headName, some name.text.toList, some (counts.1.val, counts.2.val)⟩ :=
        Except.bind_eq_ok.mpr ⟨_, counted, rfl⟩
      exact Except.bind_eq_ok.mpr ⟨_, rfl, Except.bind_eq_ok.mpr ⟨_, step, rfl⟩⟩
  rw [Report.fields, List.foldlM_append, List.foldlM_append]
  have first : report.head.fields.foldlM setField ⟨none, none, none, none⟩ =
      .ok ⟨some report.head.printed.1.toList, some report.head.printed.2.toList, none, none⟩ := rfl
  exact Except.bind_eq_ok.mpr ⟨report.headers,
    Except.bind_eq_ok.mpr ⟨_, first, upstream _ ⟨rfl, rfl⟩⟩, stashed _⟩

/-- The headers of a report, with whatever entries, are a status. -/
theorem status_headers (report : Report) (entries : List StatusEntry) :
    Parsed.status ⟨report.headers, entries⟩ = .ok { report.status with entries } := by
  have upstream : (report.headers.upstreamName.map fun name =>
      ({ name := String.ofList name, ahead := (report.headers.aheadBehind.getD (0, 0)).1
         behind := (report.headers.aheadBehind.getD (0, 0)).2 } : UpstreamStatus)) =
      report.upstream.map Upstream.status := by
    rcases report with ⟨head, _ | ⟨name, _ | counts⟩, stash, listed⟩
    · rfl
    · exact congrArg (fun text => some (⟨text, 0, 0⟩ : UpstreamStatus)) String.ofList_toList
    · exact congrArg (fun text => some (⟨text, counts.1, counts.2⟩ : UpstreamStatus)) String.ofList_toList
  have head := headState_printed report.head
  change Except.ok (⟨headState (String.ofList report.head.printed.1.toList)
    (String.ofList report.head.printed.2.toList), _, none, entries⟩ : DetailedStatus) = _
  rw [String.ofList_toList, String.ofList_toList, head, upstream]
  rfl

theorem parsePorcelainV2_headers (report : Report) (rest : Bytes) :
    parsePorcelainV2 (renderHeaders report.fields ++ rest) =
      parseRecords ⟨report.headers, []⟩ (rest.splitOn nul) >>= Parsed.status := by
  have read := parseRecords_renderHeaders report.plain_fields ⟨⟨none, none, none, none⟩, []⟩
    report.set_fields rest
  rw [parsePorcelainV2, read]

/-- A printed report is read back. -/
theorem parsePorcelainV2_render (report : Report) : parsePorcelainV2 report.render = .ok report.status := by
  rw [Report.render, parsePorcelainV2_headers, parseRecords_renderEntries]
  exact status_headers report _

/-- Cut after a number of bytes, a printed report ends within a name. -/
def Report.CutWithinName (report : Report) (n : ℕ) : Prop :=
  (renderHeaders report.fields).length ≤ n ∧
    Status.CutWithinName report.entries (n - (renderHeaders report.fields).length)

theorem Parsed.entries_status {parsed : Parsed} {status : DetailedStatus} (read : parsed.status = .ok status) :
    status.entries = parsed.entries := by
  unfold Parsed.status at read
  split at read
  · cases read
    rfl
  · cases read

/-- A report cut within its headers is refused, or read without an entry. -/
theorem entries_of_take_headers (report : Report) {n : ℕ} (short : n < (renderHeaders report.fields).length)
    {status : DetailedStatus} (read : parsePorcelainV2 (report.render.take n) = .ok status) :
    status.entries = [] := by
  obtain ⟨parsed, records, said⟩ := Except.bind_eq_ok.mp read
  rw [Parsed.entries_status said]
  refine entries_of_headers (fun record member => ?_) records
  have clear : ∀ line ∈ report.fields.map fun field => encode (headerLine field.1 field.2).toList,
      nul ∉ line := by
    rintro _ listed inside
    obtain ⟨field, member, rfl⟩ := List.mem_map.mp listed
    obtain ⟨-, first, second⟩ := report.plain_fields field member
    exact plain_headerLine first second (Utf8.mem_of_byte_mem (by decide : '\x00'.toNat < 128) inside)
  rw [Report.render, List.take_append_of_le_length short.le] at member
  rcases SplitN.splitOn_take_flatMap clear n record member with empty | ⟨_, listed, begins⟩
  · exact .inl empty
  · obtain ⟨field, -, rfl⟩ := List.mem_map.mp listed
    obtain ⟨behind, whole⟩ := begins
    cases record with
    | nil => exact .inl rfl
    | cons first record =>
      have head := head?_headerLine field.1 field.2
      rw [← whole] at head
      exact .inr head

/-- A report is read back, and one that is cut off is refused or read as the first of its entries, unless the
cut leaves some of the bytes of a name at the end of a record, and not all. -/
theorem parsePorcelainV2_take_iff (report : Report) (n : ℕ) :
    (parsePorcelainV2 report.render = .ok report.status ∧
      ((∃ error, parsePorcelainV2 (report.render.take n) = .error error) ∨
        ∃ status, parsePorcelainV2 (report.render.take n) = .ok status ∧
          status.entries <+: report.status.entries)) ↔ ¬report.CutWithinName n := by
  rw [and_iff_right (parsePorcelainV2_render report)]
  by_cases early : n < (renderHeaders report.fields).length
  · refine iff_of_true ?_ fun cut => absurd cut.1 early.not_ge
    rcases read : parsePorcelainV2 (report.render.take n) with error | status
    · exact .inl ⟨error, rfl⟩
    · refine .inr ⟨status, rfl, ?_⟩
      rw [entries_of_take_headers report early read]
      exact List.nil_prefix
  · obtain ⟨count, rfl⟩ := Nat.exists_eq_add_of_le (Nat.le_of_not_lt early)
    have cuts : report.CutWithinName ((renderHeaders report.fields).length + count) ↔
        Status.CutWithinName report.entries count := by
      rw [Report.CutWithinName, Nat.add_sub_cancel_left, and_iff_right (Nat.le_add_right _ _)]
    rw [cuts, Report.render, List.take_length_add_append, parsePorcelainV2_headers]
    rcases parseRecords_take report.entries ⟨report.headers, []⟩ count with ⟨⟨error, refused⟩, uncut⟩ |
      ⟨taken, read, first⟩
    · rw [refused]
      exact iff_of_true (.inl ⟨error, rfl⟩) uncut
    · rw [read, ← first]
      have said : (Except.ok ⟨report.headers, taken⟩ : Except MalformedStatus Parsed) >>= Parsed.status =
          .ok { report.status with entries := taken } := status_headers report taken
      rw [List.nil_append, said]
      constructor
      · rintro (⟨error, refused⟩ | ⟨status, read, first⟩)
        · cases refused
        · cases read
          exact first
      · intro first
        exact .inr ⟨_, rfl, first⟩

/-- On a branch, with one untracked file. -/
def oneUntracked : Report where
  head := .branch ⟨"4b825dc6", rfl⟩ ⟨⟨"main", by decide⟩, by decide⟩
  upstream := none
  stash := none
  entries := [.untracked ⟨[0x61, 0x62], List.cons_ne_nil _ _, by decide⟩]

/-- Printed and cut off before the last byte, a file is reported under a name that is not its own. -/
theorem oneUntracked_cut : ∃ status, parsePorcelainV2 (oneUntracked.render.take
      ((renderHeaders oneUntracked.fields).length + 3)) = .ok status ∧
    status.entries = [⟨[0x61], none, some .untracked, none, false⟩] ∧
    ¬status.entries <+: oneUntracked.status.entries := by
  refine ⟨{ oneUntracked.status with entries := [⟨[0x61], none, some .untracked, none, false⟩] }, ?_, rfl, ?_⟩
  · rw [Report.render, List.take_length_add_append, parsePorcelainV2_headers]
    have read := parseRecords_take_lastName ⟨oneUntracked.headers, []⟩
      (.untracked ⟨[0x61, 0x62], List.cons_ne_nil _ _, by decide⟩) Nat.one_pos
    have said := status_headers oneUntracked [⟨[0x61], none, some .untracked, none, false⟩]
    exact Except.bind_eq_ok.mpr ⟨_, read, said⟩
  · decide

end Harkness.Git.Status
