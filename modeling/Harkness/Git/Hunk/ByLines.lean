import Harkness.Git.Hunk.Body
import Harkness.Git.Hunk.Patch
import Harkness.Git.UnifiedPatch
import Harkness.ToMathlib.Lines

/-! # A hunk selected line by line

A selection of every changed line of a hunk goes through the pairing of its runs, the selection of
the whole hunk does not. Reversing puts additions before deletions in either, so that both render
the same patch; rendered forward they do where every run is in paired order as it is.
-/

namespace Harkness.Git

open List

/-- Whether a run is in paired order: each deletion is followed by an addition while there are
both. -/
def inPairs : List DiffLineKind → Bool
  | .deletion :: .addition :: rest => inPairs rest
  | kinds => kinds.all (· == .deletion) || kinds.all (· == .addition)

namespace Hunk

/-- Every changed line of the hunk is named. -/
def AllNamed (hunk : Hunk) (selectedLines : List LineCoordinates) : Prop :=
  ∀ group ∈ lineGroups hunk.lines, group.kind = .deletion ∨ group.kind = .addition →
    group.line.coordinates ∈ selectedLines

/-- The kinds of the hunk's lines, without their markers. -/
def kinds (hunk : Hunk) : List DiffLineKind := (lineGroups hunk.lines).map LineGroup.kind

/-- Pairing moves none of the hunk's lines; reversed, it is enough that each of them is a line. -/
def InPlace (hunk : Hunk) : Direction → Prop
  | .forward => ∀ run ∈ hunk.kinds.splitOn .context, inPairs run = true
  | .reverse => ∀ kind ∈ hunk.kinds, isEofMarker kind = false

instance (hunk : Hunk) (selectedLines : List LineCoordinates) :
    Decidable (hunk.AllNamed selectedLines) := by
  unfold AllNamed
  infer_instance

instance (hunk : Hunk) (direction : Direction) : Decidable (hunk.InPlace direction) := by
  cases direction <;> unfold InPlace <;> infer_instance

end Hunk

private theorem pairRun_cons_cons {first second : LineGroup} {run : List LineGroup}
    (deletion : first.kind = .deletion) (addition : second.kind = .addition) :
    pairRun (first :: second :: run) = first :: second :: pairRun run := by
  simp [pairRun, deletion, addition]

private theorem kind_of_mem_filter {kind : DiffLineKind} {run : List LineGroup} {group : LineGroup}
    (member : group ∈ run.filter fun group => group.kind == kind) : group.kind = kind := by
  simpa using (mem_filter.mp member).2

theorem kind_of_mem_pairRun {run : List LineGroup} {group : LineGroup} (member : group ∈ pairRun run) :
    group.kind = .deletion ∨ group.kind = .addition := by
  rcases mem_append.mp (interleave_perm_append.mem_iff.mp member) with deletion | addition
  · exact .inl (kind_of_mem_filter deletion)
  · exact .inr (kind_of_mem_filter addition)

/-- A run keeps its order when it is in paired order already. -/
theorem pairRun_eq_self_iff (run : List LineGroup) :
    pairRun run = run ↔ inPairs (run.map LineGroup.kind) = true := by
  generalize shown : run.map LineGroup.kind = kinds
  induction kinds using inPairs.induct generalizing run with
  | case1 kinds ih =>
    obtain ⟨first, rest, rfl, deletion, shown⟩ := map_eq_cons_iff.mp shown
    obtain ⟨second, rest, rfl, addition, shown⟩ := map_eq_cons_iff.mp shown
    rw [pairRun_cons_cons deletion addition, inPairs, ← ih rest shown, cons_inj_right, cons_inj_right]
  | case2 kinds apart =>
    have every (kind : DiffLineKind) : kinds.all (· == kind) = true ↔ ∀ group ∈ run, group.kind = kind := by
      rw [← shown, all_map, all_eq_true]
      simp only [Function.comp_apply, beq_iff_eq]
    rw [inPairs.eq_2 kinds apart, Bool.or_eq_true, every, every]
    constructor
    · intro same
      rw [pairRun] at same
      cases deletions : run.filter (fun group => group.kind == .deletion) with
      | nil =>
        rw [deletions, nil_interleave] at same
        exact .inr fun group member => kind_of_mem_filter (same ▸ member)
      | cons first rest =>
        cases additions : run.filter (fun group => group.kind == .addition) with
        | nil =>
          rw [additions, interleave_nil] at same
          exact .inl fun group member => kind_of_mem_filter (same ▸ member)
        | cons second others =>
          -- A run with both begins with a deletion and an addition once it is paired.
          have deletion : first.kind = .deletion := kind_of_mem_filter (deletions ▸ mem_cons_self)
          have addition : second.kind = .addition := kind_of_mem_filter (additions ▸ mem_cons_self)
          rw [deletions, additions, cons_interleave, cons_interleave] at same
          rw [← same, map_cons, map_cons, deletion, addition] at shown
          exact absurd shown.symm (apart _)
    · rintro (deletions | additions)
      · have none_ : run.filter (fun group => group.kind == .addition) = [] := by
          rw [filter_eq_nil_iff]
          intro group member
          rw [deletions group member]
          decide
        have all : run.filter (fun group => group.kind == .deletion) = run :=
          filter_eq_self.mpr fun group member => beq_iff_eq.mpr (deletions group member)
        rw [pairRun, none_, all, interleave_nil]
      · have none_ : run.filter (fun group => group.kind == .deletion) = [] := by
          rw [filter_eq_nil_iff]
          intro group member
          rw [additions group member]
          decide
        have all : run.filter (fun group => group.kind == .addition) = run :=
          filter_eq_self.mpr fun group member => beq_iff_eq.mpr (additions group member)
        rw [pairRun, none_, all, nil_interleave]

/-- Up to the first context line two lists of lines agree when the lists do. -/
private theorem append_context_inj {first second before after : List LineGroup} {group : LineGroup}
    (context : group.kind = .context) (changed : ∀ other ∈ first, other.kind ≠ .context)
    (others : ∀ other ∈ second, other.kind ≠ .context) :
    first ++ group :: before = second ++ group :: after ↔ first = second ∧ before = after := by
  have leading : ∀ {run : List LineGroup} (rest : List LineGroup),
      (∀ other ∈ run, other.kind ≠ .context) →
      (run ++ group :: rest).takeWhile (fun other => other.kind != .context) = run := by
    intro run rest changed
    rw [takeWhile_append_of_pos fun other member => bne_iff_ne.mpr (changed other member),
      takeWhile_cons_of_neg (by simp [context]), append_nil]
  constructor
  · intro same
    have run : first = second := by
      rw [← leading before changed, same, leading after others]
    subst run
    exact ⟨rfl, (cons.inj (append_cancel_left same)).2⟩
  · rintro ⟨rfl, rfl⟩
    rfl

private theorem pairedFrom_eq_iff (run groups : List LineGroup)
    (changed : ∀ group ∈ run, group.kind ≠ .context) :
    pairedFrom run groups = run ++ groups ↔
      ∀ part ∈ (run.map LineGroup.kind ++ groups.map LineGroup.kind).splitOn .context,
        inPairs part = true := by
  have apart : ∀ {run : List LineGroup}, (∀ group ∈ run, group.kind ≠ .context) →
      .context ∉ run.map LineGroup.kind := by
    intro run changed member
    obtain ⟨group, present, context⟩ := mem_map.mp member
    exact changed group present context
  induction groups generalizing run with
  | nil =>
    rw [pairedFrom, map_nil, append_nil, append_nil, splitOn_eq_singleton (apart changed),
      forall_mem_singleton, pairRun_eq_self_iff]
  | cons group groups ih =>
    by_cases context : group.kind = .context
    · have paired_ : ∀ other ∈ pairRun run, other.kind ≠ .context := by
        intro other member
        rcases kind_of_mem_pairRun member with kind | kind <;> rw [kind] <;> decide
      rw [pairedFrom_context _ _ context, map_cons, context,
        splitOn_append_cons_self_of_not_mem (apart changed), forall_mem_cons,
        append_context_inj context paired_ changed, pairRun_eq_self_iff]
      exact and_congr_right fun _ => ih [] (forall_mem_nil _)
    · have next : ∀ other ∈ run ++ [group], other.kind ≠ .context := by
        intro other member
        rcases mem_append.mp member with earlier | last
        · exact changed other earlier
        · rwa [mem_singleton.mp last]
      have later := ih (run ++ [group]) next
      simp only [map_append, map_cons, map_nil, append_assoc, singleton_append] at later
      rw [pairedFrom_change _ _ context]
      exact later

/-- Pairing moves no line exactly when every run is in paired order. -/
theorem paired_eq_self_iff (groups : List LineGroup) :
    paired groups = groups ↔
      ∀ run ∈ (groups.map LineGroup.kind).splitOn .context, inPairs run = true :=
  pairedFrom_eq_iff [] groups (forall_mem_nil _)

/-- A line that is rendered as what it is. -/
private def asIs (group : LineGroup) : RenderLineGroup := ⟨group.kind, group⟩

private theorem filterMap_resolveGroup {hunk : Hunk} {selectedLines : List LineCoordinates}
    (named : hunk.AllNamed selectedLines) (direction : Direction) :
    (paired (lineGroups hunk.lines)).filterMap (resolveGroup selectedLines direction) =
      (paired (lineGroups hunk.lines)).map asIs := by
  rw [← filterMap_eq_map]
  refine filterMap_congr fun group member => ?_
  have present : group ∈ lineGroups hunk.lines := by simpa using mem_of_mem_pairedFrom member
  have kept : resolvedKind direction group.kind (selectedLines.contains group.line.coordinates) =
      some group.kind := by
    by_cases changed : group.kind = .deletion ∨ group.kind = .addition
    · rw [contains_iff_mem.mpr (named group present changed)]
      cases direction <;> cases group.kind <;> rfl
    · revert changed
      cases direction <;> cases group.kind <;> simp [resolvedKind]
  rw [resolveGroup, kept]
  rfl

private theorem drainReversedRun_pairRun {run : List LineGroup}
    (changed : ∀ group ∈ run, group.kind = .deletion ∨ group.kind = .addition) :
    drainReversedRun ((pairRun run).map asIs) = drainReversedRun (run.map asIs) := by
  have kept : ∀ {keep : RenderLineGroup → Bool} (side : Side),
      (∀ group : LineGroup, group.kind = side.own → keep (asIs group) = false) →
      ((pairRun run).map asIs).filter keep = (run.map asIs).filter keep := by
    intro keep side hidden
    have sided : OneSided LineGroup.kind fun group => Option.guard keep (asIs group) :=
      ⟨side, fun group own => by simp [Option.guard, hidden group own]⟩
    rw [← filterMap_eq_filter, filterMap_map, filterMap_map]
    exact filterMap_pairRun sided changed
  rw [drainReversedRun, drainReversedRun, kept .old, kept .new]
  · intro group own
    simp [asIs, own, Side.own]
  · intro group own
    simp [asIs, own, Side.own]

/-- Reversed, the lines of a run stand in the same order whether it is paired or not. -/
private theorem orderReversed_pairedFrom (run groups : List LineGroup)
    (changed : ∀ group ∈ run, group.kind = .deletion ∨ group.kind = .addition)
    (tagged : ∀ group ∈ groups, isEofMarker group.kind = false) :
    orderReversed [] ((pairedFrom run groups).map asIs) =
      orderReversed (run.map asIs) (groups.map asIs) := by
  have collected : ∀ (before after : List LineGroup) (held : List RenderLineGroup),
      (∀ group ∈ before, group.kind = .deletion ∨ group.kind = .addition) →
      orderReversed held (before.map asIs ++ after.map asIs) =
        orderReversed (held ++ before.map asIs) (after.map asIs) := by
    intro before
    induction before with
    | nil => intro after held _; rw [map_nil, nil_append, append_nil]
    | cons group before ih =>
      intro after held changes
      have change : (asIs group).kind ≠ .context := by
        rcases changes group mem_cons_self with kind | kind <;> simp [asIs, kind]
      rw [map_cons, cons_append, orderReversed, if_neg change,
        ih _ _ fun other member => changes other (mem_cons_of_mem _ member), append_assoc,
        singleton_append]
  induction groups generalizing run with
  | nil =>
    rw [pairedFrom, map_nil, ← append_nil (map asIs _), ← map_nil (f := asIs),
      collected _ _ _ fun group => kind_of_mem_pairRun, map_nil, nil_append, orderReversed,
      orderReversed, drainReversedRun_pairRun changed]
  | cons group groups ih =>
    have later := fun other member => tagged other (mem_cons_of_mem group member)
    by_cases context : group.kind = .context
    · have kind : (asIs group).kind = .context := context
      rw [pairedFrom_context _ _ context, map_append,
        collected _ _ _ fun group => kind_of_mem_pairRun, map_cons, map_cons, nil_append,
        orderReversed, orderReversed, if_pos kind, if_pos kind, drainReversedRun_pairRun changed]
      exact congrArg (fun rest => _ ++ asIs group :: rest) (ih [] (forall_mem_nil _) later)
    · have change : group.kind = .deletion ∨ group.kind = .addition := by
        have line := tagged group mem_cons_self
        revert context line
        cases group.kind <;> decide
      have kind : (asIs group).kind ≠ .context := context
      have next : ∀ other ∈ run ++ [group], other.kind = .deletion ∨ other.kind = .addition := by
        intro other member
        rcases mem_append.mp member with earlier | last
        · exact changed other earlier
        · rwa [mem_singleton.mp last]
      have collects : orderReversed (run.map asIs) ((group :: groups).map asIs) =
          orderReversed (run.map asIs ++ [asIs group]) (groups.map asIs) := by
        rw [map_cons, orderReversed, if_neg kind]
      rw [pairedFrom_change _ _ context, ih _ next later, collects, map_append]
      rfl

/-- The kinds of lines that have a place. -/
private theorem tagged_of_mem_pairedFrom {run groups : List LineGroup} {group : LineGroup}
    (member : group ∈ pairedFrom run groups) : isEofMarker group.kind = false := by
  have changed : ∀ {run}, group ∈ pairRun run → isEofMarker group.kind = false := by
    intro run present
    rcases kind_of_mem_pairRun present with kind | kind <;> rw [kind] <;> rfl
  induction groups generalizing run with
  | nil => exact changed member
  | cons head groups ih =>
    by_cases context : head.kind = .context
    · rw [pairedFrom_context _ _ context] at member
      rcases mem_append.mp member with earlier | later
      · exact changed earlier
      · rcases mem_cons.mp later with rfl | later
        · rw [context]; rfl
        · exact ih later
    · rw [pairedFrom_change _ _ context] at member
      exact ih member

/-- Selected line by line, the hunk is planned as it is planned whole exactly when pairing leaves
its lines in place. -/
theorem planHunk_allNamed_iff {hunk : Hunk} {selectedLines : List LineCoordinates}
    (named : hunk.AllNamed selectedLines) (direction : Direction) :
    planHunk ⟨hunk, some selectedLines⟩ direction = planHunk ⟨hunk, none⟩ direction ↔
      hunk.InPlace direction := by
  have groups : planHunk ⟨hunk, some selectedLines⟩ direction = planHunk ⟨hunk, none⟩ direction ↔
      orderedRenderGroups hunk.lines (some selectedLines) direction =
        orderedRenderGroups hunk.lines none direction := by
    refine ⟨congrArg RenderedHunk.groups, fun same => ?_⟩
    simp only [planHunk, same]
  have injective : Function.Injective (map asIs) :=
    map_injective_iff.mpr fun first second same => congrArg RenderLineGroup.group same
  rw [groups]
  cases direction with
  | forward =>
    change resolveSelected _ _ _ _ = (lineGroups hunk.lines).map asIs ↔ _
    rw [resolveSelected_eq, ← paired, filterMap_resolveGroup named, injective.eq_iff,
      paired_eq_self_iff]
    rfl
  | reverse =>
    change orderReversed [] (resolveSelected _ _ _ _) =
      orderReversed [] ((lineGroups hunk.lines).map asIs) ↔ _
    rw [resolveSelected_eq, ← paired, filterMap_resolveGroup named, Hunk.InPlace, Hunk.kinds,
      forall_mem_map]
    constructor
    · intro same group member
      have placed : asIs group ∈ (paired (lineGroups hunk.lines)).map asIs := by
        have present := (mem_orderReversed [] ((lineGroups hunk.lines).map asIs)).mpr
          (mem_map_of_mem member)
        rw [← same, mem_orderReversed] at present
        exact present
      obtain ⟨other, present, same⟩ := mem_map.mp placed
      obtain rfl : other = group := congrArg RenderLineGroup.group same
      exact tagged_of_mem_pairedFrom present
    · exact orderReversed_pairedFrom [] _ (forall_mem_nil _)

/-- What follows the line that lacks its newline. -/
def missingNewline : Bytes := asciiBytes "\\ No newline at end of file\n"

/-- A line as the differ has it: ended by its newline, or followed by a marker that ends it and says
so. -/
inductive LineGroup.Worded (group : LineGroup) : Prop
  | ended {text : Bytes} (plain : newline ∉ text) (content : group.line.content = text ++ [newline])
      (unmarked : group.markers = [])
  | unended {marker : DiffLine} (plain : newline ∉ group.line.content)
      (marked : group.markers = [marker]) (content : marker.content = newline :: missingNewline)

/-- A hunk as the differ has it. -/
structure Hunk.Genuine (hunk : Hunk) : Prop extends hunk.WellFormed where
  worded : ∀ group ∈ lineGroups hunk.lines, group.Worded

private def writtenAs (direction : Direction) (group : LineGroup) : Bytes :=
  ((asIs group).emitted direction).lines.flatMap DiffLine.written

private theorem lineTag_cases {kind : DiffLineKind} (tagged : isEofMarker kind = false)
    (direction : Direction) : ∃ tag, lineTag (reversedKind kind direction) = [tag] ∧
      tag ≠ 92 ∧ ∀ other, isEofMarker other = false →
        lineTag (reversedKind other direction) = [tag] → other = kind := by
  revert tagged
  cases direction <;> cases kind <;> intro tagged <;> first
    | exact absurd tagged (by decide)
    | refine ⟨_, rfl, by decide, fun other => ?_⟩
      cases other <;> decide

/-- A line is written as its tag, its text and a newline, and the note if it lacks that. -/
private theorem writtenAs_eq {group : LineGroup} (formed : group.WellFormed) (worded : group.Worded)
    (direction : Direction) : ∃ text, newline ∉ text ∧
      writtenAs direction group = lineTag (reversedKind group.kind direction) ++
        (text ++ newline :: if group.markers = [] then [] else missingNewline) := by
  have written : writtenAs direction group = lineTag (reversedKind group.kind direction) ++
      (group.line.content ++ group.markers.flatMap DiffLine.content) := by
    have untagged : ∀ marker ∈ group.markers, DiffLine.written { marker with
        kind := reversedKind (emittedMarkerKind (asIs group) marker) direction } = marker.content := by
      intro marker member
      have kept : emittedMarkerKind (asIs group) marker = marker.kind :=
        if_neg fun changed => changed.2.1 changed.1
      have mirrored : ∀ kind, isEofMarker kind = true → lineTag (reversedKind kind direction) = [] := by
        intro kind
        cases direction <;> cases kind <;> decide
      rw [DiffLine.written, kept, mirrored _ (by rw [formed.marked marker member,
        isEofMarker_markerOf]), nil_append]
    change DiffLine.written _ ++ (group.markers.map _).flatMap DiffLine.written = _
    rw [flatMap_map, flatMap_congr untagged, DiffLine.written, append_assoc]
    rfl
  rw [written]
  cases worded with
  | @ended text plain content unmarked =>
    refine ⟨text, plain, ?_⟩
    rw [unmarked, if_pos rfl, content, flatMap_nil, append_nil]
  | @unended marker plain marked content =>
    refine ⟨group.line.content, plain, ?_⟩
    rw [marked, if_neg (cons_ne_nil _ _), flatMap_singleton, content]

/-- The kinds of lines can be read off what is written. -/
private theorem kinds_of_written {direction : Direction} {first second : List LineGroup}
    (formed : ∀ group ∈ first, group.WellFormed) (others : ∀ group ∈ second, group.WellFormed)
    (worded : ∀ group ∈ first, group.Worded) (wordedOthers : ∀ group ∈ second, group.Worded)
    (same : first.flatMap (writtenAs direction) = second.flatMap (writtenAs direction)) :
    first.map LineGroup.kind = second.map LineGroup.kind := by
  -- No line is tagged with what begins the note.
  have untagged : ∀ {groups : List LineGroup}, (∀ group ∈ groups, group.WellFormed) →
      (∀ group ∈ groups, group.Worded) → ∀ rest,
      groups.flatMap (writtenAs direction) ≠ missingNewline ++ rest := by
    intro groups formed worded rest same
    have begun : missingNewline ++ rest = 92 :: (missingNewline.tail ++ rest) := rfl
    rw [begun] at same
    cases groups with
    | nil => cases same
    | cons group groups =>
      obtain ⟨text, -, written⟩ := writtenAs_eq (formed group mem_cons_self)
        (worded group mem_cons_self) direction
      obtain ⟨tag, tagged, apart, -⟩ := lineTag_cases (formed group mem_cons_self).tagged direction
      rw [flatMap_cons, written, tagged, append_assoc, singleton_append] at same
      exact apart (cons.inj same).1
  induction first generalizing second with
  | nil =>
    cases second with
    | nil => rfl
    | cons group second =>
      obtain ⟨text, -, written⟩ := writtenAs_eq (others group mem_cons_self)
        (wordedOthers group mem_cons_self) direction
      rw [flatMap_nil, flatMap_cons, written] at same
      simp at same
  | cons head first ih =>
    obtain ⟨text, plain, written⟩ := writtenAs_eq (formed head mem_cons_self)
      (worded head mem_cons_self) direction
    obtain ⟨tag, tagged, -, -⟩ := lineTag_cases (formed head mem_cons_self).tagged direction
    cases second with
    | nil =>
      rw [flatMap_nil, flatMap_cons, written] at same
      simp at same
    | cons group second =>
      obtain ⟨other, otherPlain, otherWritten⟩ := writtenAs_eq (others group mem_cons_self)
        (wordedOthers group mem_cons_self) direction
      obtain ⟨otherTag, otherTagged, -, unique⟩ :=
        lineTag_cases (others group mem_cons_self).tagged direction
      rw [flatMap_cons, flatMap_cons, written, otherWritten, tagged, otherTagged] at same
      simp only [append_assoc, cons_append, nil_append, cons.injEq] at same
      obtain ⟨rfl, same⟩ := same
      have kind : head.kind = group.kind := unique _ (formed head mem_cons_self).tagged tagged
      obtain ⟨-, rest⟩ := Lines.first_terminator plain otherPlain same
      have formedFirst := fun entry member => formed entry (mem_cons_of_mem head member)
      have formedSecond := fun entry member => others entry (mem_cons_of_mem group member)
      have wordedFirst := fun entry member => worded entry (mem_cons_of_mem head member)
      have wordedSecond := fun entry member => wordedOthers entry (mem_cons_of_mem group member)
      have later : first.flatMap (writtenAs direction) = second.flatMap (writtenAs direction) := by
        split_ifs at rest
        · exact rest
        · exact absurd rest (untagged formedFirst wordedFirst _)
        · exact absurd rest.symm (untagged formedSecond wordedSecond _)
        · exact append_cancel_left rest
      rw [map_cons, map_cons, kind, ih formedFirst formedSecond wordedFirst wordedSecond later]

/-- Lists with the same kinds in order and the same members of each kind are the same. -/
private theorem eq_of_kinds {first second : List LineGroup}
    (kinds : first.map LineGroup.kind = second.map LineGroup.kind)
    (members : ∀ kind, first.filter (fun group => group.kind == kind) =
      second.filter fun group => group.kind == kind) : first = second := by
  induction first generalizing second with
  | nil => exact (map_eq_nil_iff.mp kinds.symm).symm
  | cons head first ih =>
    cases second with
    | nil => cases kinds
    | cons group second =>
      rw [map_cons, map_cons, cons.injEq] at kinds
      have here := members head.kind
      rw [filter_cons_of_pos (by simp), filter_cons_of_pos (by simp [kinds.1]), cons.injEq] at here
      obtain ⟨rfl, -⟩ := here
      refine congrArg (head :: ·) (ih kinds.2 fun kind => ?_)
      have both := members kind
      rw [filter_cons, filter_cons] at both
      split_ifs at both
      · exact (cons.inj both).2
      · exact both

/-- Pairing keeps the order among the lines of each kind. -/
private theorem filter_kind_paired {groups : List LineGroup} (formed : ∀ group ∈ groups, group.WellFormed)
    (kind : DiffLineKind) : (paired groups).filter (fun group => group.kind == kind) =
      groups.filter fun group => group.kind == kind := by
  have sided : OneSided LineGroup.kind (Option.guard fun group => group.kind == kind) := by
    by_cases deletion : kind = .deletion
    · exact ⟨.new, fun group own => by simp [Option.guard, own, deletion, Side.own]⟩
    · exact ⟨.old, fun group own => by simp [Option.guard, own, Ne.symm deletion, Side.own]⟩
  rw [← filterMap_eq_filter]
  exact filterMap_paired sided formed

/-- Of a plan the file's patch shows its counts and its lines. -/
private theorem renderFile_eq_iff {file : FileDiff} {direction : Direction} {first second : RenderedHunk}
    (start : first.sourceStart = second.sourceStart) (source : first.sourceLines = second.sourceLines)
    (result : first.resultLines = second.resultLines) :
    renderFile file [first] direction = renderFile file [second] direction ↔
      (first.body direction).flatMap DiffLine.written =
        (second.body direction).flatMap DiffLine.written := by
  have header (drift : ℤ) : hunkHeader first drift = hunkHeader second drift := by
    rw [hunkHeader, hunkHeader, start, source, result]
  have retained (shown : FileDiff) : shown.retained [first] = shown.retained [second] := by
    rw [FileDiff.retained, FileDiff.retained, map_singleton, map_singleton, result]
  rw [renderFile, renderFile, retained, append_cancel_left_eq, renderHunks, renderHunks, header,
    renderHunks, renderHunks, append_nil, append_nil, append_cancel_left_eq]

private theorem renderPatch_singleton (file : FileDiff) (prepared : PreparedHunk) (direction : Direction) :
    renderPatch direction [⟨file, [prepared]⟩] =
      (refuseStrandedEofMarkers ⟨file, [prepared]⟩ [planHunk prepared direction] direction).map
        fun _ => renderFile file [planHunk prepared direction] direction := by
  have plan : PreparedFile.plan ⟨file, [prepared]⟩ direction = [planHunk prepared direction] := by
    rw [PreparedFile.plan, PreparedFile.ordered, mergeSort_singleton, map_singleton]
  rw [renderPatch, plan, renderPatch]
  cases refuseStrandedEofMarkers ⟨file, [prepared]⟩ [planHunk prepared direction] direction with
  | error error => rfl
  | ok _ => exact congrArg Except.ok (append_nil _)

/-- A patch of one hunk is its file with the hunk's plan. -/
private theorem eq_of_renderPatch {file : FileDiff} {prepared : PreparedHunk} {direction : Direction}
    {patch : Bytes} (rendered : renderPatch direction [⟨file, [prepared]⟩] = .ok patch) :
    renderFile file [planHunk prepared direction] direction = patch := by
  rw [renderPatch_singleton] at rendered
  cases refused : refuseStrandedEofMarkers ⟨file, [prepared]⟩ [planHunk prepared direction] direction with
  | error error => rw [refused] at rendered; cases rendered
  | ok _ => rw [refused] at rendered; exact Except.ok.inj rendered

/-- With the same plan the same patch is rendered, or refused. -/
theorem renderPatch_congr {first second : PreparedHunk} {direction : Direction}
    (same : planHunk first direction = planHunk second direction) (file : FileDiff) :
    renderPatch direction [⟨file, [first]⟩] = renderPatch direction [⟨file, [second]⟩] := by
  rw [renderPatch_singleton, renderPatch_singleton, same]
  rfl

private theorem body_planHunk {prepared : PreparedHunk} {direction : Direction} {groups : List LineGroup}
    (plan : (planHunk prepared direction).groups = groups.map asIs) :
    ((planHunk prepared direction).body direction).flatMap DiffLine.written =
      groups.flatMap (writtenAs direction) := by
  rw [RenderedHunk.body, plan, flatMap_map, flatMap_assoc]
  rfl

private theorem counts_planHunk {first second : PreparedHunk} {groups : List LineGroup}
    (formed : ∀ group ∈ groups, group.WellFormed)
    (whole : (planHunk first .forward).groups = groups.map asIs)
    (byLines : (planHunk second .forward).groups = (paired groups).map asIs) :
    (planHunk first .forward).sourceLines = (planHunk second .forward).sourceLines ∧
      (planHunk first .forward).resultLines = (planHunk second .forward).resultLines := by
  have shown (side : Side) : ((paired groups).map asIs).filterMap (fun rendered =>
        (rendered.emitted .forward).shown side) =
      (groups.map asIs).filterMap fun rendered => (rendered.emitted .forward).shown side := by
    rw [filterMap_map, filterMap_map]
    refine filterMap_paired ⟨side.other, fun group own => ?_⟩ formed
    change (if side.has (reversedKind group.kind .forward) then _ else none) = none
    rw [own]
    cases side <;> rfl
  have counts (prepared : PreparedHunk) := foldl_countGroup .forward (planHunk prepared .forward).groups
    (0, 0) (Nat.zero_le _) (Nat.zero_le _)
  have left := counts first
  have right := counts second
  rw [whole] at left
  rw [byLines, shown, shown, ← left] at right
  have same : (planHunk first .forward).groups.foldl (countGroup .forward) (0, 0) =
      (planHunk second .forward).groups.foldl (countGroup .forward) (0, 0) := by
    rw [whole, byLines, right]
  exact ⟨congrArg Prod.fst same, congrArg Prod.snd same⟩

private theorem groups_whole (hunk : Hunk) :
    (planHunk ⟨hunk, none⟩ .forward).groups = (lineGroups hunk.lines).map asIs := rfl

private theorem groups_byLines {hunk : Hunk} {selectedLines : List LineCoordinates}
    (named : hunk.AllNamed selectedLines) :
    (planHunk ⟨hunk, some selectedLines⟩ .forward).groups =
      (paired (lineGroups hunk.lines)).map asIs := by
  change resolveSelected _ _ _ _ = _
  rw [resolveSelected_eq, ← paired, filterMap_resolveGroup named]

/-- Every hunk of a diff is in place when it is reversed. -/
theorem Hunk.WellFormed.inPlace_reverse {hunk : Hunk} (formed : hunk.WellFormed) :
    hunk.InPlace .reverse :=
  forall_mem_map.mpr fun group member => (formed.grouped group member).tagged

/-- A genuine hunk that is rendered to the same bytes line by line is in place. -/
private theorem inPlace_of_renderFile {hunk : Hunk} {selectedLines : List LineCoordinates}
    (named : hunk.AllNamed selectedLines) (genuine : hunk.Genuine) {direction : Direction}
    (file : FileDiff) (same : renderFile file [planHunk ⟨hunk, some selectedLines⟩ direction] direction =
      renderFile file [planHunk ⟨hunk, none⟩ direction] direction) : hunk.InPlace direction := by
  cases direction with
  | reverse => exact genuine.inPlace_reverse
  | forward =>
    have whole := groups_whole hunk
    have byLines := groups_byLines named
    obtain ⟨source, result⟩ := counts_planHunk genuine.grouped whole byLines
    have start : (planHunk ⟨hunk, some selectedLines⟩ .forward).sourceStart =
        (planHunk ⟨hunk, none⟩ .forward).sourceStart := rfl
    have written := (renderFile_eq_iff start source.symm result.symm).mp same
    rw [body_planHunk whole, body_planHunk byLines] at written
    have places : ∀ {group}, group ∈ paired (lineGroups hunk.lines) → group ∈ lineGroups hunk.lines :=
      fun member => by simpa using mem_of_mem_pairedFrom member
    have kinds := kinds_of_written (fun group member => genuine.grouped group (places member))
      genuine.grouped (fun group member => genuine.worded group (places member)) genuine.worded written
    exact (paired_eq_self_iff _).mp (eq_of_kinds kinds (filter_kind_paired genuine.grouped))

/-- A hunk all of whose changed lines are selected one by one is rendered as it is rendered whole
exactly when it is in place. -/
theorem renderPatch_allNamed {hunk : Hunk} {selectedLines : List LineCoordinates}
    (named : hunk.AllNamed selectedLines) (direction : Direction) :
    (planHunk ⟨hunk, some selectedLines⟩ direction = planHunk ⟨hunk, none⟩ direction ↔
        hunk.InPlace direction) ∧
      (hunk.InPlace direction → ∀ file,
        renderPatch direction [⟨file, [⟨hunk, some selectedLines⟩]⟩] =
          renderPatch direction [⟨file, [⟨hunk, none⟩]⟩]) ∧
      (hunk.Genuine → ∀ file patch, renderPatch direction [⟨file, [⟨hunk, none⟩]⟩] = .ok patch →
        (renderPatch direction [⟨file, [⟨hunk, some selectedLines⟩]⟩] = .ok patch ↔
          hunk.InPlace direction)) := by
  have planned := planHunk_allNamed_iff named direction
  refine ⟨planned, fun inPlace file => renderPatch_congr (planned.mpr inPlace) file, ?_⟩
  intro genuine file patch whole
  constructor
  · intro byLines
    refine inPlace_of_renderFile named genuine file ?_
    rw [eq_of_renderPatch byLines, eq_of_renderPatch whole]
  · intro inPlace
    rw [renderPatch_congr (planned.mpr inPlace) file, whole]

/-- Two lines replaced by two. -/
def replacedLines : Hunk where
  oldStart := 1
  oldLines := 2
  newStart := 1
  newLines := 2
  lines := [⟨.deletion, some 1, none, [97, 10]⟩, ⟨.deletion, some 2, none, [98, 10]⟩,
    ⟨.addition, none, some 1, [65, 10]⟩, ⟨.addition, none, some 2, [66, 10]⟩]

def replacedCoordinates : List LineCoordinates :=
  [⟨some 1, none⟩, ⟨some 2, none⟩, ⟨none, some 1⟩, ⟨none, some 2⟩]

def replacedFile : FileDiff where
  oldPath := some [102]
  newPath := some [102]
  oldBlobId := "1"
  newBlobId := "2"
  oldMode := 0o100644
  newMode := 0o100644

private theorem genuine_replacedLines : replacedLines.Genuine where
  toWellFormed := by decide
  worded := by
    have groups : lineGroups replacedLines.lines = replacedLines.lines.map (⟨·, []⟩) := by decide
    rw [groups, forall_mem_map]
    intro line member
    have text : ∃ text, newline ∉ text ∧ line.content = text ++ [newline] := by
      simp only [replacedLines, mem_cons, not_mem_nil, or_false] at member
      rcases member with rfl | rfl | rfl | rfl
      · exact ⟨[97], by decide, rfl⟩
      · exact ⟨[98], by decide, rfl⟩
      · exact ⟨[65], by decide, rfl⟩
      · exact ⟨[66], by decide, rfl⟩
    obtain ⟨text, plain, content⟩ := text
    exact .ended plain content rfl

private theorem exists_patch_replacedLines (selectedLines : Option (List LineCoordinates))
    (direction : Direction)
    (unstranded : strandsAny direction (planHunk ⟨replacedLines, selectedLines⟩ direction).groups = false) :
    ∃ patch, renderPatch direction [⟨replacedFile, [⟨replacedLines, selectedLines⟩]⟩] = .ok patch := by
  rw [renderPatch_singleton, refuseStrandedEofMarkers, flatMap_singleton, unstranded]
  exact ⟨_, rfl⟩

/-- Both replaced lines are named, and the patch is not that of the whole hunk. -/
theorem replacedLines_renders_otherwise :
    replacedLines.Genuine ∧ replacedLines.AllNamed replacedCoordinates ∧
      ∃ whole byLines,
        renderPatch .forward [⟨replacedFile, [⟨replacedLines, none⟩]⟩] = .ok whole ∧
        renderPatch .forward [⟨replacedFile, [⟨replacedLines, some replacedCoordinates⟩]⟩] = .ok byLines ∧
        byLines ≠ whole := by
  obtain ⟨whole, rendered⟩ := exists_patch_replacedLines none .forward (by decide)
  obtain ⟨byLines, renderedLines⟩ := exists_patch_replacedLines (some replacedCoordinates) .forward
    (by decide)
  have named : replacedLines.AllNamed replacedCoordinates := by decide
  refine ⟨genuine_replacedLines, named, whole, byLines, rendered, renderedLines, fun same => ?_⟩
  have inPlace : replacedLines.InPlace .forward :=
    inPlace_of_renderFile named genuine_replacedLines replacedFile
      (by rw [eq_of_renderPatch renderedLines, eq_of_renderPatch rendered, same])
  exact absurd inPlace (by decide)

/-- Reversed, it is rendered the same. -/
theorem renderPatch_allNamed_replacedLines : ∃ patch,
    renderPatch .reverse [⟨replacedFile, [⟨replacedLines, none⟩]⟩] = .ok patch ∧
      renderPatch .reverse [⟨replacedFile, [⟨replacedLines, some replacedCoordinates⟩]⟩] = .ok patch := by
  obtain ⟨patch, whole⟩ := exists_patch_replacedLines none .reverse (by decide)
  have named : replacedLines.AllNamed replacedCoordinates := by decide
  have byLines := (renderPatch_allNamed named .reverse).2.2 genuine_replacedLines replacedFile patch whole
  exact ⟨patch, whole, byLines.mpr (by decide)⟩

end Harkness.Git
