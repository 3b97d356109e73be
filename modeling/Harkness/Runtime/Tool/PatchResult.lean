import Harkness.Runtime.Tool.ApplyPatch

/-! # What applying a unified diff gives

A unified diff lists, in order, the stretches of the base that the target replaces, and a hunk with
no line of the base says behind which line it adds its own. The applier puts such a hunk one line
too early unless it adds them at the top of the file. What comes out is the target all the same
exactly when it adds copies of the line it is put behind, with no hunk that ends at that line.
-/

namespace Harkness.Runtime.Tool

open Git List

/-- How many lines of the base precede the hunk: with no line of its own there, it starts at the last
of these. -/
def place (hunk : UnifiedPatchHunk) : ℕ :=
  if hunk.oldLines = 0 then hunk.oldStart else hunk.oldStart - 1

/-- The hunks are a unified diff from the base to the target, at any context width. -/
structure UnifiedDiff (base target : Bytes) (hunks : List UnifiedPatchHunk) : Prop where
  oneBased : ∀ hunk ∈ hunks, hunk.oldLines ≠ 0 → 1 ≤ hunk.oldStart
  walks : Walks place (splitLines base) 0 hunks
  result : splitLines target = Splice.apply (splitLines base) (hunks.map (spliceAt place))

/-- A hunk that only adds lines, behind one of the base. -/
def Inserts (hunk : UnifiedPatchHunk) : Prop := hunk.oldLines = 0 ∧ hunk.oldStart ≠ 0

instance (hunk : UnifiedPatchHunk) : Decidable (Inserts hunk) :=
  inferInstanceAs (Decidable (_ ∧ _))

/-- What is added behind a line of the base is copies of that line, and no hunk with lines of the
base ends there. -/
structure Repeats (source : List Bytes) (hunks : List UnifiedPatchHunk) : Prop where
  copies : ∀ hunk ∈ hunks, Inserts hunk → ∀ line ∈ newSide hunk,
    source[hunk.oldStart - 1]? = some line
  detached : hunks.Pairwise fun first second => first.oldLines ≠ 0 → Inserts second →
    place first + first.oldLines < second.oldStart

theorem repeats_nil (source : List Bytes) : Repeats source [] := ⟨nofun, .nil⟩

theorem repeats_cons {source : List Bytes} {hunk : UnifiedPatchHunk}
    {hunks : List UnifiedPatchHunk} : Repeats source (hunk :: hunks) ↔
      (Inserts hunk → ∀ line ∈ newSide hunk, source[hunk.oldStart - 1]? = some line) ∧
        (hunk.oldLines ≠ 0 → ∀ other ∈ hunks, Inserts other →
          place hunk + hunk.oldLines < other.oldStart) ∧ Repeats source hunks := by
  constructor
  · rintro ⟨copies, detached⟩
    rw [forall_mem_cons] at copies
    rw [pairwise_cons] at detached
    exact ⟨copies.1, fun old other member => detached.1 other member old, copies.2, detached.2⟩
  · rintro ⟨here, apart, copies, detached⟩
    exact ⟨forall_mem_cons.mpr ⟨here, copies⟩,
      pairwise_cons.mpr ⟨fun other member old => apart old other member, detached⟩⟩

theorem start_eq_place {hunk : UnifiedPatchHunk} (other : ¬Inserts hunk) :
    start hunk = place hunk := by
  simp only [Inserts, not_and, not_not] at other
  simp only [start, place]
  split_ifs <;> omega

theorem Inserts.place_eq {hunk : UnifiedPatchHunk} (inserts : Inserts hunk) :
    place hunk = hunk.oldStart :=
  if_pos inserts.1

theorem Inserts.start_eq {hunk : UnifiedPatchHunk} (inserts : Inserts hunk) :
    start hunk = hunk.oldStart - 1 :=
  if_neg inserts.2

section Walk

variable {source : List Bytes}

/-- The base from a line on, with the hunks spliced in at their places or at their starts. -/
def splicedFrom (position : UnifiedPatchHunk → ℕ) (source : List Bytes) (cursor : ℕ)
    (hunks : List UnifiedPatchHunk) : List Bytes :=
  Splice.applyFrom source cursor (hunks.map (spliceAt position))

theorem splicedFrom_cons (position : UnifiedPatchHunk → ℕ) (cursor : ℕ) (hunk : UnifiedPatchHunk)
    (hunks : List UnifiedPatchHunk) :
    splicedFrom position source cursor (hunk :: hunks) =
      (source.drop cursor).take (position hunk - cursor) ++ newSide hunk ++
        splicedFrom position source (position hunk + hunk.oldLines) hunks := rfl

/-- A hunk walked to from one line earlier, which is before its start. -/
theorem splicedFrom_pred {cursor : ℕ} {hunks : List UnifiedPatchHunk} (positive : 0 < cursor)
    (inside : cursor ≤ source.length) (behind : ∀ hunk ∈ hunks.head?, cursor ≤ start hunk) :
    splicedFrom start source (cursor - 1) hunks =
      source[cursor - 1] :: splicedFrom start source cursor hunks := by
  refine Splice.applyFrom_pred source positive inside fun splice first => ?_
  rw [head?_map] at first
  obtain ⟨hunk, leads, rfl⟩ := Option.map_eq_some_iff.mp first
  exact behind hunk leads

theorem MatchesAt.stop_le {position : UnifiedPatchHunk → ℕ} {hunk : UnifiedPatchHunk}
    (fits : MatchesAt position source hunk) : position hunk + hunk.oldLines ≤ source.length := by
  have short := fits.shown.length_le
  rw [fits.counted, length_drop] at short
  have inside := fits.inside
  omega

/-- The hunks are those of a diff from a line of the base on. -/
structure Ready (source : List Bytes) (cursor : ℕ) (hunks : List UnifiedPatchHunk) : Prop where
  walks : Walks place source cursor hunks
  inside : cursor ≤ source.length
  proper : Lines.Proper newline (splicedFrom place source cursor hunks)

theorem Ready.tail {cursor : ℕ} {hunk : UnifiedPatchHunk} {hunks : List UnifiedPatchHunk}
    (ready : Ready source cursor (hunk :: hunks)) :
    Ready source (place hunk + hunk.oldLines) hunks where
  walks := (walks_cons.mp ready.walks).2.2
  inside := (walks_cons.mp ready.walks).2.1.stop_le
  proper := by
    have proper := ready.proper
    rw [splicedFrom_cons] at proper
    exact proper.of_append

/-- Read on from a line, the applier reaches the target exactly when what is added repeats lines, and
nothing is added behind that line itself. -/
def Agrees (source : List Bytes) (cursor : ℕ) (hunks : List UnifiedPatchHunk) : Prop :=
  Walks start source cursor hunks ∧
      (splicedFrom start source cursor hunks).flatten =
        (splicedFrom place source cursor hunks).flatten ↔
    (∀ hunk ∈ hunks, Inserts hunk → cursor < hunk.oldStart) ∧ Repeats source hunks

/-- The same with the applier one line behind, at `line`, and `added` already written. -/
def AgreesBehind (source : List Bytes) (cursor : ℕ) (line : Bytes) (added : List Bytes)
    (hunks : List UnifiedPatchHunk) : Prop :=
  Walks start source (cursor - 1) hunks ∧
      added.flatten ++ (splicedFrom start source (cursor - 1) hunks).flatten =
        line ++ (added.flatten ++ (splicedFrom place source cursor hunks).flatten) ↔
    (∀ other ∈ added, other = line) ∧ Repeats source hunks

/-- A first hunk that starts behind a line leaves no other added behind that line. -/
theorem Ready.insertsBehind {cursor : ℕ} {hunks : List UnifiedPatchHunk}
    (ready : Ready source cursor hunks) (positive : 0 < cursor)
    (behind : ∀ hunk ∈ hunks.head?, cursor ≤ start hunk) :
    ∀ hunk ∈ hunks, Inserts hunk → cursor < hunk.oldStart := by
  cases hunks with
  | nil => nofun
  | cons hunk hunks =>
    have after := behind hunk (by rw [head?_cons, Option.mem_some])
    intro other member inserts
    obtain rfl | member := mem_cons.mp member
    · rw [inserts.start_eq] at after
      omega
    · have follows := ready.tail.walks.begun other member
      rw [inserts.place_eq] at follows
      by_cases first : Inserts hunk
      · rw [first.start_eq] at after
        rw [first.place_eq] at follows
        omega
      · have same := start_eq_place first
        have lines : hunk.oldLines ≠ 0 := by
          intro none
          have top : hunk.oldStart = 0 := not_not.mp fun start => first ⟨none, start⟩
          rw [start, if_pos top] at after
          omega
        omega

theorem agreesBehind_of_agrees {cursor : ℕ} {line : Bytes} {added : List Bytes}
    {hunks : List UnifiedPatchHunk} (agrees : Agrees source cursor hunks)
    (ready : Ready source cursor hunks) (positive : 0 < cursor)
    (here : source[cursor - 1]? = some line) (behind : ∀ hunk ∈ hunks.head?, cursor ≤ start hunk)
    (proper : Lines.Proper newline (line :: (added ++ splicedFrom place source cursor hunks))) :
    AgreesBehind source cursor line added hunks := by
  have within := ready.inside
  have same : Walks start source (cursor - 1) hunks ↔ Walks start source cursor hunks := by
    cases hunks with
    | nil => exact iff_of_true walks_nil walks_nil
    | cons hunk hunks =>
      have after := behind hunk (by rw [head?_cons, Option.mem_some])
      rw [walks_cons, walks_cons]
      exact and_congr_left fun _ => iff_of_true (by omega) after
  have kept : splicedFrom start source (cursor - 1) hunks =
      line :: splicedFrom start source cursor hunks := by
    rw [splicedFrom_pred positive within behind]
    rw [getElem?_eq_getElem (by omega)] at here
    rw [Option.some.inj here]
  rw [AgreesBehind, same, kept, flatten_cons, ← append_assoc, ← append_assoc,
    ← proper.append_comm_iff]
  -- What is moved has one length on both sides, so the two lists agree part by part.
  have parts : added.flatten ++ line ++ (splicedFrom start source cursor hunks).flatten =
      line ++ added.flatten ++ (splicedFrom place source cursor hunks).flatten ↔
        added.flatten ++ line = line ++ added.flatten ∧
          (splicedFrom start source cursor hunks).flatten =
            (splicedFrom place source cursor hunks).flatten := by
    refine append_eq_append_iff_of_size_eq_left ?_
    rw [length_append, length_append, Nat.add_comm]
  rw [parts]
  constructor
  · rintro ⟨walks, moved, rest⟩
    exact ⟨moved, (agrees.mp ⟨walks, rest⟩).2⟩
  · rintro ⟨moved, repeats⟩
    obtain ⟨walks, rest⟩ := agrees.mpr ⟨ready.insertsBehind positive behind, repeats⟩
    exact ⟨walks, moved, rest⟩

theorem matchesAt_congr {first second : UnifiedPatchHunk → ℕ} {hunk : UnifiedPatchHunk}
    (same : first hunk = second hunk) :
    MatchesAt first source hunk ↔ MatchesAt second source hunk :=
  ⟨fun fits => ⟨fits.counted, same ▸ fits.inside, same ▸ fits.shown⟩,
    fun fits => ⟨fits.counted, same ▸ fits.inside, same ▸ fits.shown⟩⟩

/-- A hunk that is started at its place is applied the same. -/
theorem agrees_cons_placed {cursor : ℕ} {hunk : UnifiedPatchHunk} {hunks : List UnifiedPatchHunk}
    (ready : Ready source cursor (hunk :: hunks)) (other : ¬Inserts hunk)
    (agrees : Agrees source (place hunk + hunk.oldLines) hunks) :
    Agrees source cursor (hunk :: hunks) := by
  have same := start_eq_place other
  obtain ⟨begun, fits, walks⟩ := walks_cons.mp ready.walks
  have output : (splicedFrom start source cursor (hunk :: hunks)).flatten =
      (splicedFrom place source cursor (hunk :: hunks)).flatten ↔
        (splicedFrom start source (place hunk + hunk.oldLines) hunks).flatten =
          (splicedFrom place source (place hunk + hunk.oldLines) hunks).flatten := by
    rw [splicedFrom_cons, splicedFrom_cons, same]
    simp only [flatten_append, append_cancel_left_eq]
  have early : MatchesAt start source hunk := (matchesAt_congr same).mpr fits
  rw [Agrees, output, walks_cons, same, repeats_cons]
  constructor
  · rintro ⟨⟨_, _, rest⟩, whole⟩
    obtain ⟨behind, repeats⟩ := agrees.mp ⟨rest, whole⟩
    refine ⟨fun next member inserts => ?_, fun inserts => absurd inserts other,
      fun _ => behind, repeats⟩
    obtain rfl | member := mem_cons.mp member
    · exact absurd inserts other
    · exact lt_of_le_of_lt (le_trans begun (Nat.le_add_right _ _)) (behind next member inserts)
  · rintro ⟨after, _, apart, repeats⟩
    have behind : ∀ next ∈ hunks, Inserts next → place hunk + hunk.oldLines < next.oldStart := by
      intro next member inserts
      by_cases lines : hunk.oldLines = 0
      · have top : hunk.oldStart = 0 := not_not.mp fun begins => other ⟨lines, begins⟩
        have positive := after next (mem_cons_of_mem _ member) inserts
        rw [place, if_pos lines, top, lines]
        omega
      · exact apart lines next member inserts
    obtain ⟨rest, whole⟩ := agrees.mpr ⟨behind, repeats⟩
    exact ⟨⟨begun, early, rest⟩, whole⟩

theorem Inserts.walks_iff {hunk : UnifiedPatchHunk} (inserts : Inserts hunk) {cursor : ℕ}
    {hunks : List UnifiedPatchHunk} (fits : MatchesAt place source hunk) :
    Walks start source cursor (hunk :: hunks) ↔
      cursor ≤ hunk.oldStart - 1 ∧ Walks start source (hunk.oldStart - 1) hunks := by
  have bound := inserts.place_eq ▸ fits.inside
  have none : oldSide hunk = [] := length_eq_zero_iff.mp (fits.counted.trans inserts.1)
  have early : MatchesAt start source hunk :=
    ⟨fits.counted, by rw [inserts.start_eq]; omega, none ▸ nil_prefix⟩
  rw [walks_cons, inserts.start_eq, inserts.1, Nat.add_zero]
  simp only [early, true_and]

private theorem take_gap {cursor stop : ℕ} {line : Bytes} (before : cursor < stop)
    (here : source[stop - 1]? = some line) :
    (source.drop cursor).take (stop - cursor) =
      (source.drop cursor).take (stop - 1 - cursor) ++ [line] := by
  have one : stop - cursor = stop - 1 - cursor + 1 := by omega
  have at_ : cursor + (stop - 1 - cursor) = stop - 1 := by omega
  rw [one, take_add_one, getElem?_drop, at_, here]
  rfl

/-- A hunk that adds lines further on is put one line early. -/
theorem agrees_cons_inserts {cursor : ℕ} {hunk : UnifiedPatchHunk} {hunks : List UnifiedPatchHunk}
    (ready : Ready source cursor (hunk :: hunks)) (inserts : Inserts hunk) {line : Bytes}
    (here : source[hunk.oldStart - 1]? = some line)
    (behind : cursor < hunk.oldStart →
      AgreesBehind source hunk.oldStart line (newSide hunk) hunks) :
    Agrees source cursor (hunk :: hunks) := by
  obtain ⟨begun, fits, walks⟩ := walks_cons.mp ready.walks
  have bound := inserts.place_eq ▸ fits.inside
  rw [inserts.place_eq] at begun
  have copies : (∀ other ∈ newSide hunk, other = line) ↔
      ∀ other ∈ newSide hunk, source[hunk.oldStart - 1]? = some other := by
    simp only [here, Option.some.injEq, eq_comm]
  have positive := Nat.pos_of_ne_zero inserts.2
  rw [Agrees, inserts.walks_iff fits, repeats_cons, forall_mem_cons]
  simp only [inserts, true_implies, inserts.1, ne_eq, not_true_eq_false, false_implies, true_and,
    ← copies]
  by_cases after : cursor < hunk.oldStart
  · have agrees := behind after
    have output : (splicedFrom start source cursor (hunk :: hunks)).flatten =
        (splicedFrom place source cursor (hunk :: hunks)).flatten ↔
          (newSide hunk).flatten ++
            (splicedFrom start source (hunk.oldStart - 1) hunks).flatten =
              line ++ ((newSide hunk).flatten ++
                (splicedFrom place source hunk.oldStart hunks).flatten) := by
      rw [splicedFrom_cons, splicedFrom_cons, inserts.start_eq, inserts.place_eq, inserts.1,
        take_gap after here]
      simp only [flatten_append, append_assoc, append_cancel_left_eq, flatten_singleton,
        Nat.add_zero]
    rw [output]
    constructor
    · rintro ⟨⟨_, rest⟩, whole⟩
      obtain ⟨same, repeats⟩ := agrees.mp ⟨rest, whole⟩
      refine ⟨⟨after, fun other member adds => ?_⟩, same, repeats⟩
      have follows := ready.tail.walks.begun other member
      rw [inserts.place_eq, adds.place_eq] at follows
      omega
    · rintro ⟨_, same, repeats⟩
      obtain ⟨rest, whole⟩ := agrees.mpr ⟨same, repeats⟩
      exact ⟨⟨by omega, rest⟩, whole⟩
  · refine iff_of_false (fun both => ?_) (fun both => after both.1.1)
    have early := both.1.1
    omega

/-- A hunk that adds lines where the applier is behind is put there as well. -/
theorem agreesBehind_cons_inserts {cursor : ℕ} {line : Bytes} {added : List Bytes}
    {hunk : UnifiedPatchHunk} {hunks : List UnifiedPatchHunk}
    (ready : Ready source cursor (hunk :: hunks)) (inserts : Inserts hunk)
    (here : hunk.oldStart = cursor) (repeated : source[cursor - 1]? = some line)
    (agrees : AgreesBehind source cursor line (added ++ newSide hunk) hunks) :
    AgreesBehind source cursor line added (hunk :: hunks) := by
  obtain ⟨begun, fits, walks⟩ := walks_cons.mp ready.walks
  have output : added.flatten ++ (splicedFrom start source (cursor - 1) (hunk :: hunks)).flatten =
      line ++ (added.flatten ++ (splicedFrom place source cursor (hunk :: hunks)).flatten) ↔
        (added ++ newSide hunk).flatten ++ (splicedFrom start source (cursor - 1) hunks).flatten =
          line ++ ((added ++ newSide hunk).flatten ++
            (splicedFrom place source cursor hunks).flatten) := by
    rw [splicedFrom_cons, splicedFrom_cons, inserts.start_eq, inserts.place_eq, inserts.1, here]
    simp only [Nat.sub_self, take_zero, nil_append, flatten_append, append_assoc, Nat.add_zero]
  rw [AgreesBehind, inserts.walks_iff fits, here, output, repeats_cons]
  simp only [le_refl, true_and, inserts, true_implies, inserts.1, ne_eq, not_true_eq_false,
    false_implies, here, repeated, Option.some.injEq]
  refine agrees.trans ?_
  rw [forall_mem_append, and_assoc]
  simp only [eq_comm]

/-- Every diff is applied exactly when it repeats lines, from any line on and with the applier at its
place or one line behind. -/
theorem agrees_of_ready (hunks : List UnifiedPatchHunk) :
    (∀ cursor, Ready source cursor hunks → Agrees source cursor hunks) ∧
      ∀ cursor line added, Ready source cursor hunks → 0 < cursor →
        source[cursor - 1]? = some line →
          Lines.Proper newline (line :: (added ++ splicedFrom place source cursor hunks)) →
            AgreesBehind source cursor line added hunks := by
  induction hunks with
  | nil =>
    have agrees : ∀ cursor, Ready source cursor [] → Agrees source cursor [] := fun cursor _ =>
      iff_of_true ⟨walks_nil, rfl⟩ ⟨nofun, repeats_nil source⟩
    exact ⟨agrees, fun cursor line added ready positive here proper =>
      agreesBehind_of_agrees (agrees cursor ready) ready positive here nofun proper⟩
  | cons hunk hunks ih =>
    have agrees : ∀ cursor, Ready source cursor (hunk :: hunks) →
        Agrees source cursor (hunk :: hunks) := by
      intro cursor ready
      by_cases inserts : Inserts hunk
      · have bound := inserts.place_eq ▸ (walks_cons.mp ready.walks).2.1.inside
        have positive := Nat.pos_of_ne_zero inserts.2
        have tail := ready.tail
        rw [inserts.place_eq, inserts.1, Nat.add_zero] at tail
        have here := getElem?_eq_getElem (show hunk.oldStart - 1 < source.length by omega)
        refine agrees_cons_inserts ready inserts here fun before =>
          ih.2 hunk.oldStart _ (newSide hunk) tail positive here ?_
        have proper := ready.proper
        rw [splicedFrom_cons, inserts.place_eq, inserts.1, take_gap before here] at proper
        simp only [append_assoc, Nat.add_zero] at proper
        exact proper.of_append
      · exact agrees_cons_placed ready inserts (ih.1 _ ready.tail)
    refine ⟨agrees, fun cursor line added ready positive here proper => ?_⟩
    by_cases same : Inserts hunk ∧ hunk.oldStart = cursor
    · obtain ⟨inserts, rfl⟩ := same
      have tail := ready.tail
      rw [inserts.place_eq, inserts.1, Nat.add_zero] at tail
      refine agreesBehind_cons_inserts ready inserts rfl here
        (ih.2 hunk.oldStart line (added ++ newSide hunk) tail positive here ?_)
      rw [splicedFrom_cons, inserts.place_eq, inserts.1] at proper
      simpa only [Nat.sub_self, take_zero, nil_append, Nat.add_zero, append_assoc] using proper
    · refine agreesBehind_of_agrees (agrees cursor ready) ready positive here ?_ proper
      intro first leads
      obtain rfl := Option.some.inj leads
      have begun := (walks_cons.mp ready.walks).1
      by_cases inserts : Inserts hunk
      · have further : hunk.oldStart ≠ cursor := fun here => same ⟨inserts, here⟩
        rw [inserts.place_eq] at begun
        rw [inserts.start_eq]
        omega
      · rwa [start_eq_place inserts]

end Walk

/-- Applied to its base, a unified diff gives its target exactly when what it adds behind lines of the
base repeats them. -/
theorem applyHunks_diff_iff {path : DiffPath} {base target : Bytes} {hunks : List UnifiedPatchHunk}
    (diff : UnifiedDiff base target hunks) :
    applyHunks path base hunks = .ok target ↔ Repeats (splitLines base) hunks := by
  have whole : splicedFrom place (splitLines base) 0 hunks = splitLines target := diff.result.symm
  have ready : Ready (splitLines base) 0 hunks := {
    walks := diff.walks
    inside := Nat.zero_le _
    proper := whole ▸ Lines.split_proper target }
  have agrees := (agrees_of_ready hunks).1 0 ready
  have positive : ∀ hunk ∈ hunks, Inserts hunk → 0 < hunk.oldStart :=
    fun hunk _ inserts => Nat.pos_of_ne_zero inserts.2
  have bytes : (splitLines target).flatten = target := Lines.split_flatten target
  rw [Agrees, whole, bytes, and_iff_right positive] at agrees
  rw [applyHunks_eq_ok, ← agrees]
  exact and_congr_right fun _ => eq_comm

/-- How libgit2 tags the line, and the entry behind it when it lacks a final newline. -/
def origin : UnifiedPatchLine → DiffLineType × DiffLineType
  | .context _ => (.context, .contextEofnl)
  | .addition _ => (.addition, .addEofnl)
  | .deletion _ => (.deletion, .deleteEofnl)

/-- The entries of a hunk: each line with a final newline, and a marker behind one that lacks it. -/
inductive Reads : List PatchEntry → List UnifiedPatchLine → Prop
  | nil : Reads [] []
  | ended {entries : List PatchEntry} {lines : List UnifiedPatchLine} (line : UnifiedPatchLine)
      (ends : line.bytes.getLast? = some newline) (rest : Reads entries lines) :
      Reads (⟨(origin line).1, line.bytes⟩ :: entries) (line :: lines)
  | lacking {entries : List PatchEntry} {lines : List UnifiedPatchLine} (line : UnifiedPatchLine)
      (lacks : line.bytes.getLast? ≠ some newline) (marker : Bytes) (rest : Reads entries lines) :
      Reads (⟨(origin line).1, line.bytes ++ [newline]⟩ :: ⟨(origin line).2, marker⟩ :: entries)
        (line :: lines)

/-- The delta is one the editor can represent, and its entries are the lines of the file's hunks. -/
structure Shows (delta : DiffDelta) (file : UnifiedPatchFile) : Prop where
  status : delta.status = if file.created then .added else .modified
  path : delta.newFile.path = some file.path
  normal : ensureRelativeNormalPath file.path = .ok ()
  renamed : file.created = false → ∃ old, delta.oldFile.path = some old ∧
    old.components = file.path.components
  text : delta.oldFile.binary = false ∧ delta.newFile.binary = false
  mode : desiredMode file.path file.created delta.oldFile.mode delta.newFile.mode = .ok file.mode
  patch : ∃ hunks, delta.patch = .ok (some hunks) ∧ Forall₂ (fun hunk read =>
    hunk.oldStart = read.oldStart ∧ hunk.oldLines = read.oldLines ∧ Reads hunk.entries read.lines)
      hunks file.hunks
  filled : file.hunks ≠ [] ∨ file.mode.isSome

theorem foldlM_pushEntry {relative : DiffPath} {entries : List PatchEntry}
    {lines : List UnifiedPatchLine} (reads : Reads entries lines) (before : List UnifiedPatchLine) :
    entries.foldlM (pushEntry relative) before = .ok (before ++ lines) := by
  induction reads generalizing before with
  | nil => rw [foldlM_nil, append_nil]; rfl
  | ended line ends _ ih =>
    have pushed : pushEntry relative before ⟨(origin line).1, line.bytes⟩ =
        .ok (before ++ [line]) := by
      cases line <;> rfl
    rw [foldlM_cons, pushed]
    exact (ih _).trans (by rw [append_assoc, singleton_append])
  | lacking line lacks marker _ ih =>
    have pushed : (do
        let lines ← pushEntry relative before ⟨(origin line).1, line.bytes ++ [newline]⟩
        pushEntry relative lines ⟨(origin line).2, marker⟩) = .ok (before ++ [line]) := by
      cases line <;> simp only [origin, UnifiedPatchLine.bytes, pushEntry, bind, Except.bind,
        getLast?_concat, dropLast_concat, UnifiedPatchLine.popNewline, if_true]
    simp only [foldlM_cons]
    rw [← bind_assoc, pushed]
    exact (ih _).trans (by rw [append_assoc, singleton_append])

theorem parseHunks_of_shows {delta : DiffDelta} {file : UnifiedPatchFile}
    (shows_ : Shows delta file) : parseHunks file.path delta = .ok file.hunks := by
  obtain ⟨hunks, read, each⟩ := shows_.patch
  rw [parseHunks, read]
  refine Except.mapM_eq_ok_of_forall₂ (each.imp ?_)
  rintro hunk read ⟨starts, counts, reads⟩
  have lines : hunk.entries.foldlM (pushEntry file.path) [] = .ok read.lines :=
    foldlM_pushEntry reads []
  rw [parseHunk, lines, starts, counts]
  rfl

theorem parseDelta_of_shows {delta : DiffDelta} {file : UnifiedPatchFile}
    {files : List UnifiedPatchFile} (shows_ : Shows delta file)
    (fresh : ∀ other ∈ files, other.path.components ≠ file.path.components) :
    parseDelta files delta = .ok (files ++ [file]) := by
  have status : parseStatus delta = .ok file.created := by
    rw [parseStatus, shows_.status]
    cases file.created <;> rfl
  have unseen : (files.any fun other => other.path.components = file.path.components) = false := by
    simpa only [any_eq_false, decide_eq_true_eq] using fresh
  have kept : (file.hunks.isEmpty && file.mode.isNone) = false := by
    rw [Bool.and_eq_false_iff]
    refine shows_.filled.imp (fun filled => ?_) fun mode => ?_
    · simpa only [isEmpty_eq_false_iff] using filled
    · simpa only [Option.isNone_eq_false_iff] using mode
  simp only [parseDelta, status, shows_.path, bind, Except.bind, shows_.normal, unseen, shows_.text,
    parseHunks_of_shows shows_, shows_.mode, kept, Bool.or_self, Bool.false_eq_true, if_false]
  split_ifs with modified
  · obtain ⟨old, read, same⟩ := shows_.renamed (by simpa only [Bool.not_eq_true'] using modified)
    rw [checkOldPath, read]
    simp only [same, ne_eq, not_true_eq_false, if_false]
    rfl
  · rfl

theorem foldlM_parseDelta {deltas : List DiffDelta} {files before : List UnifiedPatchFile}
    (each : Forall₂ Shows deltas files) (distinct : (before ++ files).Pairwise
      fun first second => first.path.components ≠ second.path.components) :
    deltas.foldlM parseDelta before = .ok (before ++ files) := by
  induction each generalizing before with
  | nil => rw [append_nil]; rfl
  | @cons delta file deltas files here _ ih =>
    have fresh : ∀ other ∈ before, other.path.components ≠ file.path.components :=
      fun other member => (pairwise_append.mp distinct).2.2 other member file mem_cons_self
    rw [foldlM_cons, parseDelta_of_shows here fresh]
    refine (ih ?_).trans ?_
    · rwa [append_assoc]
    · rw [append_assoc, singleton_append]

/-- Where an application that succeeded made its changes: the old lines of every hunk are those of the
base at the hunk's own place, the hunks follow one another, and the output is the base but for
them. -/
structure Applied (base output : Bytes) (hunks : List UnifiedPatchHunk) : Prop where
  counted : ∀ hunk ∈ hunks, (oldSide hunk).length = hunk.oldLines
  shown : ∀ hunk ∈ hunks, oldSide hunk <+: (splitLines base).drop (place hunk)
  ordered : hunks.Pairwise fun first second => start first + first.oldLines ≤ start second
  result : output = (Splice.apply (splitLines base) (hunks.map (spliceAt start))).flatten

theorem applied_of_ok {path : DiffPath} {base output : Bytes} {hunks : List UnifiedPatchHunk}
    (applied : applyHunks path base hunks = .ok output) : Applied base output hunks := by
  obtain ⟨walks, result⟩ := applyHunks_eq_ok.mp applied
  refine ⟨fun hunk member => (walks.fits hunk member).counted, fun hunk member => ?_,
    walks.ordered, result⟩
  obtain ⟨counted, _, shown⟩ := walks.fits hunk member
  by_cases none : hunk.oldLines = 0
  · rw [length_eq_zero_iff.mp (counted.trans none)]
    exact nil_prefix
  · rwa [← start_eq_place fun inserts => none inserts.1]

/-- A unified diff that libgit2 reads faithfully is parsed into its files. Applied to the base, the
hunks of one give its target exactly when what they add behind lines of the base repeats them; and
an application that succeeds, of any hunks to any base, changed nothing but what the hunks say. -/
theorem unified_diff_applied_iff {fromBuffer : Bytes → Except String (List DiffDelta)} {bytes : Bytes}
    {deltas : List DiffDelta} {files : List UnifiedPatchFile} (filled : bytes ≠ [])
    (read : fromBuffer bytes = .ok deltas) (faithful : Forall₂ Shows deltas files)
    (distinct : files.Pairwise fun first second => first.path.components ≠ second.path.components)
    {file : UnifiedPatchFile} (member : file ∈ files) {base target : Bytes}
    (diff : UnifiedDiff base target file.hunks) :
    parseUnifiedPatch fromBuffer bytes = .ok files ∧
    (applyHunks file.path base file.hunks = .ok target ↔ Repeats (splitLines base) file.hunks) ∧
    ∀ (path : DiffPath) (base output : Bytes) (hunks : List UnifiedPatchHunk),
      applyHunks path base hunks = .ok output → Applied base output hunks := by
  refine ⟨?_, applyHunks_diff_iff diff, fun _ _ _ _ applied => applied_of_ok applied⟩
  have some_ : deltas ≠ [] := by
    rintro rfl
    rw [forall₂_nil_left_iff.mp faithful] at member
    exact not_mem_nil member
  rw [parseUnifiedPatch, if_neg (by simpa only [List.isEmpty_iff] using filled), read]
  simp only [isEmpty_eq_false_iff.mpr some_, Bool.false_eq_true, if_false]
  exact foldlM_parseDelta faithful distinct

def samplePath : DiffPath := ⟨"notes", [.normal "notes"]⟩

/-- `a`, `b` without a final newline becomes `a`, `c` without one. -/
def sampleFile : UnifiedPatchFile where
  path := samplePath
  hunks := [⟨1, 2, [.context [97, 10], .deletion [98], .addition [99]]⟩]
  created := false
  mode := none

def sampleDelta (hunks : List PatchHunk) : DiffDelta where
  status := .modified
  oldFile := ⟨some samplePath, false, .blob⟩
  newFile := ⟨some samplePath, false, .blob⟩
  patch := .ok (some hunks)

def utf8 (text : String) : Bytes := text.toUTF8.data.toList

def sampleText : Bytes :=
  utf8 ("diff --git a/notes b/notes\n--- a/notes\n+++ b/notes\n@@ -1,2 +1,2 @@\n a\n-b\n" ++
    "\\ No newline at end of file\n+c\n\\ No newline at end of file\n")

def sampleMarker : Bytes := utf8 "\\ No newline at end of file\n"

def sampleEntries : List PatchEntry :=
  [⟨.context, [97, 10]⟩, ⟨.deletion, [98, 10]⟩, ⟨.deleteEofnl, sampleMarker⟩,
    ⟨.addition, [99, 10]⟩, ⟨.addEofnl, sampleMarker⟩]

/-- The reading of that text. -/
def sampleBuffer (text : Bytes) : Except String (List DiffDelta) :=
  if text = sampleText then .ok [sampleDelta [⟨1, 2, sampleEntries⟩]]
  else .error "corrupt patch"

theorem sample_shows : Shows (sampleDelta [⟨1, 2, sampleEntries⟩]) sampleFile where
  status := rfl
  path := rfl
  normal := rfl
  renamed := fun _ => ⟨_, rfl, rfl⟩
  text := ⟨rfl, rfl⟩
  mode := rfl
  patch := ⟨_, rfl, .cons ⟨rfl, rfl, .ended (.context [97, 10]) rfl (.lacking (.deletion [98])
    (by decide) _ (.lacking (.addition [99]) (by decide) _ .nil))⟩ .nil⟩
  filled := .inl nofun

theorem sample_diff : UnifiedDiff [97, 10, 98] [97, 10, 99] sampleFile.hunks where
  oneBased := by decide
  walks := walks_cons.mpr ⟨Nat.zero_le _, ⟨rfl, Nat.zero_le _, ⟨[], rfl⟩⟩, walks_nil⟩
  result := by decide

theorem unified_diff_applied_sample :
    parseUnifiedPatch sampleBuffer sampleText = .ok [sampleFile] ∧
      applyHunks samplePath [97, 10, 98] sampleFile.hunks = .ok [97, 10, 99] := by
  have filled : sampleText ≠ [] := by decide
  have read : sampleBuffer sampleText = .ok [sampleDelta [⟨1, 2, sampleEntries⟩]] := if_pos rfl
  obtain ⟨parsed, applied, _⟩ := unified_diff_applied_iff filled read
    (.cons sample_shows .nil) (pairwise_singleton _ _) mem_cons_self sample_diff
  exact ⟨parsed, applied.mpr ⟨by decide, pairwise_singleton _ _⟩⟩

/-- Without context, `@@ -1,0 +2 @@` adds a line behind line 1. -/
def insertedFile : UnifiedPatchFile where
  path := samplePath
  hunks := [⟨1, 0, [.addition [120, 10]]⟩]
  created := false
  mode := none

theorem inserted_shows :
    Shows (sampleDelta [⟨1, 0, [⟨.addition, [120, 10]⟩]⟩]) insertedFile where
  status := rfl
  path := rfl
  normal := rfl
  renamed := fun _ => ⟨_, rfl, rfl⟩
  text := ⟨rfl, rfl⟩
  mode := rfl
  patch := ⟨_, rfl, .cons ⟨rfl, rfl, .ended (.addition [120, 10]) rfl .nil⟩ .nil⟩
  filled := .inl nofun

/-- `a`, `b` with `x` added behind the first line is to be `a`, `x`, `b`, and comes out as `x`, `a`,
`b`. -/
theorem inserted_one_line_early :
    Shows (sampleDelta [⟨1, 0, [⟨.addition, [120, 10]⟩]⟩]) insertedFile ∧
      UnifiedDiff [97, 10, 98, 10] [97, 10, 120, 10, 98, 10] insertedFile.hunks ∧
      applyHunks samplePath [97, 10, 98, 10] insertedFile.hunks = .ok [120, 10, 97, 10, 98, 10] ∧
      applyHunks samplePath [97, 10, 98, 10] insertedFile.hunks ≠
        .ok [97, 10, 120, 10, 98, 10] := by
  have early : applyHunks samplePath [97, 10, 98, 10] insertedFile.hunks =
      .ok [120, 10, 97, 10, 98, 10] := rfl
  refine ⟨inserted_shows, ⟨by decide, ?_, by decide⟩, early, ?_⟩
  · exact walks_cons.mpr ⟨Nat.zero_le _, ⟨rfl, by decide, nil_prefix⟩, walks_nil⟩
  · rw [early]
    decide

end Harkness.Runtime.Tool
