import Harkness.ToMathlib.ListInterleave
import Harkness.Git.Hunk.Render

/-! # What a rendered hunk's body says

A hunk's lines take their places in paired order: inside a run of changes each deletion is followed
by the addition that replaced it, which keeps the order of either side. The body shows the hunk's
own source side, and on the result side every line that is there once exactly the selected changes
are made, each in its place. Reversing a patch lets removals lead, which neither side sees.
-/

namespace Harkness.Git

open List

/-- The side of a hunk that a patch rendered this way reads as its source. -/
def Direction.source : Direction → Side
  | .forward => .old
  | .reverse => .new

/-- A run of changes, its deletions and its additions paired off by index. -/
def pairRun (run : List LineGroup) : List LineGroup :=
  (run.filter fun group => group.kind == .deletion).interleave
    (run.filter fun group => group.kind == .addition)

/-- The places of a hunk's lines, with the run of changes collected so far. -/
@[simp] def pairedFrom (run : List LineGroup) : List LineGroup → List LineGroup
  | [] => pairRun run
  | group :: rest =>
    if group.kind = .context then pairRun run ++ group :: pairedFrom [] rest
    else pairedFrom (run ++ [group]) rest

/-- A hunk's lines in their places. -/
def paired (groups : List LineGroup) : List LineGroup := pairedFrom [] groups

theorem pairedFrom_context (run rest : List LineGroup) {group : LineGroup}
    (context : group.kind = .context) :
    pairedFrom run (group :: rest) = pairRun run ++ group :: paired rest := by
  rw [pairedFrom, if_pos context, paired]

theorem pairedFrom_change (run rest : List LineGroup) {group : LineGroup}
    (changed : group.kind ≠ .context) :
    pairedFrom run (group :: rest) = pairedFrom (run ++ [group]) rest := by
  rw [pairedFrom, if_neg changed]

theorem mem_of_mem_pairedFrom {run groups : List LineGroup} {group : LineGroup}
    (member : group ∈ pairedFrom run groups) : group ∈ run ++ groups := by
  have of_pairRun : ∀ {run : List LineGroup}, group ∈ pairRun run → group ∈ run := by
    intro run paired
    rcases mem_append.mp (interleave_perm_append.mem_iff.mp paired) with deletion | addition
    · exact mem_of_mem_filter deletion
    · exact mem_of_mem_filter addition
  induction groups generalizing run with
  | nil => exact mem_append_left _ (of_pairRun member)
  | cons head groups ih =>
    by_cases context : head.kind = .context
    · rw [pairedFrom_context _ _ context] at member
      rcases mem_append.mp member with earlier | later
      · exact mem_append_left _ (of_pairRun earlier)
      · rcases mem_cons.mp later with rfl | later
        · exact mem_append_right _ mem_cons_self
        · exact mem_append_right _ (mem_cons_of_mem _ (ih later))
    · rw [pairedFrom_change _ _ context] at member
      simpa only [append_assoc, singleton_append] using ih member

/-- Every line of either side has a place. -/
theorem mem_paired {groups : List LineGroup} {group : LineGroup} (member : group ∈ groups)
    (tagged : group.kind = .context ∨ group.kind = .deletion ∨ group.kind = .addition) :
    group ∈ paired groups := by
  have of_run : ∀ {run : List LineGroup}, group.kind ≠ .context → group ∈ run →
      group ∈ pairRun run := by
    intro run changed present
    refine interleave_perm_append.mem_iff.mpr ?_
    rcases tagged with context | deletion | addition
    · exact absurd context changed
    · exact mem_append_left _ (mem_filter.mpr ⟨present, by rw [deletion]; rfl⟩)
    · exact mem_append_right _ (mem_filter.mpr ⟨present, by rw [addition]; rfl⟩)
  suffices placed : ∀ run, (group ∈ run → group.kind ≠ .context) → group ∈ run ++ groups →
      group ∈ pairedFrom run groups by
    exact placed [] (fun absent => absurd absent not_mem_nil) member
  clear member
  induction groups with
  | nil =>
    intro run changed present
    rw [append_nil] at present
    exact of_run (changed present) present
  | cons head groups ih =>
    intro run changed present
    by_cases context : head.kind = .context
    · rw [pairedFrom_context _ _ context, mem_append, mem_cons]
      rcases mem_append.mp present with earlier | later
      · exact .inl (of_run (changed earlier) earlier)
      · rcases mem_cons.mp later with rfl | later
        · exact .inr (.inl rfl)
        · exact .inr (.inr (ih [] (fun absent => absurd absent not_mem_nil) later))
    · rw [pairedFrom_change _ _ context]
      refine ih (run ++ [head]) ?_ (by simpa only [append_assoc, singleton_append] using present)
      intro earlier
      rcases mem_append.mp earlier with old | new
      · exact changed old
      · rwa [mem_singleton.mp new]

/-- A view of tagged lines that shows nothing of the lines on one of the sides only. -/
def OneSided {α β : Type*} (kind : α → DiffLineKind) (view : α → Option β) : Prop :=
  ∃ side : Side, ∀ line, kind line = side.own → view line = none

theorem oneSided_shown (side : Side) : OneSided LineGroup.kind fun group => group.shown side := by
  refine ⟨side.other, ?_⟩
  intro group own
  cases side <;> simp only [LineGroup.shown, own] <;> rfl

theorem oneSided_ownShown (side : Side) :
    OneSided LineGroup.kind fun group => group.ownShown side := by
  refine ⟨side.other, ?_⟩
  intro group own
  cases side <;> simp only [LineGroup.ownShown, own] <;> rfl

theorem filterMap_pairRun {β : Type*} {view : LineGroup → Option β}
    (sided : OneSided LineGroup.kind view) {run : List LineGroup}
    (changed : ∀ group ∈ run, group.kind = .deletion ∨ group.kind = .addition) :
    (pairRun run).filterMap view = run.filterMap view := by
  obtain ⟨side, hidden⟩ := sided
  rw [pairRun]
  cases side with
  | old =>
    have first : ∀ group ∈ run.filter fun group => group.kind == .deletion, view group = none :=
      fun group member => hidden group (beq_iff_eq.mp (mem_filter.mp member).2)
    rw [filterMap_interleave_right first, filterMap_filter]
    refine filterMap_congr fun group member => ?_
    rcases changed group member with deletion | addition
    · simp only [hidden group deletion, ite_self]
    · simp only [addition, BEq.rfl, if_true]
  | new =>
    have second : ∀ group ∈ run.filter fun group => group.kind == .addition, view group = none :=
      fun group member => hidden group (beq_iff_eq.mp (mem_filter.mp member).2)
    rw [filterMap_interleave_left second, filterMap_filter]
    refine filterMap_congr fun group member => ?_
    rcases changed group member with deletion | addition
    · simp only [deletion, BEq.rfl, if_true]
    · simp only [hidden group addition, ite_self]

private theorem filterMap_pairedFrom {β : Type*} {view : LineGroup → Option β}
    (sided : OneSided LineGroup.kind view) (groups : List LineGroup)
    (formed : ∀ group ∈ groups, group.WellFormed) (run : List LineGroup)
    (changed : ∀ group ∈ run, group.kind = .deletion ∨ group.kind = .addition) :
    (pairedFrom run groups).filterMap view = (run ++ groups).filterMap view := by
  induction groups generalizing run with
  | nil => rw [pairedFrom, filterMap_pairRun sided changed, append_nil]
  | cons group groups ih =>
    have later := fun other member => formed other (mem_cons_of_mem group member)
    rcases (formed group mem_cons_self).kind_cases with context | change
    · rw [pairedFrom_context _ _ context, filterMap_append, filterMap_pairRun sided changed,
        filterMap_append, filterMap_cons, filterMap_cons, paired, ih later [] (by simp), nil_append]
    · have next : ∀ other ∈ run ++ [group], other.kind = .deletion ∨ other.kind = .addition := by
        intro other member
        rcases mem_append.mp member with old | new
        · exact changed other old
        · rwa [mem_singleton.mp new]
      have separate : group.kind ≠ .context := by
        rcases change with kind | kind <;> rw [kind] <;> decide
      rw [pairedFrom_change _ _ separate, ih later _ next, append_assoc, singleton_append]

/-- Paired order keeps the order of either side. -/
theorem filterMap_paired {β : Type*} {view : LineGroup → Option β}
    (sided : OneSided LineGroup.kind view) {groups : List LineGroup} (formed : ∀ group ∈ groups, group.WellFormed) :
    (paired groups).filterMap view = groups.filterMap view :=
  filterMap_pairedFrom sided groups formed [] (by simp)

theorem pushSelectedChangeRun_eq (run : List LineGroup) (selectedLines : List LineCoordinates)
    (direction : Direction) : pushSelectedChangeRun run selectedLines direction =
      (pairRun run).filterMap (resolveGroup selectedLines direction) := by
  rw [pairRun, ← flatMap_range_eq_interleave, filterMap_flatMap]
  rfl

/-- The walk resolves the hunk's lines one by one, in their places. -/
theorem resolveSelected_eq (selectedLines : List LineCoordinates) (direction : Direction)
    (run groups : List LineGroup) : resolveSelected selectedLines direction run groups =
      (pairedFrom run groups).filterMap (resolveGroup selectedLines direction) := by
  induction groups generalizing run with
  | nil => exact pushSelectedChangeRun_eq run selectedLines direction
  | cons group groups ih =>
    by_cases context : group.kind = .context
    · have kept : resolveGroup selectedLines direction group = some ⟨group.kind, group⟩ := by
        rw [resolveGroup, context]
        cases direction <;> rfl
      rw [resolveSelected, if_pos context, pushSelectedChangeRun_eq, ih,
        pairedFrom_context _ _ context, filterMap_append, filterMap_cons, kept, paired]
    · rw [resolveSelected, if_neg context, ih, pairedFrom_change _ _ context]

private theorem filterMap_drain {β : Type*} {view : RenderLineGroup → Option β}
    (sided : OneSided RenderLineGroup.kind view) {run : List RenderLineGroup}
    (changed : ∀ group ∈ run, group.kind = .deletion ∨ group.kind = .addition) :
    (drainReversedRun run).filterMap view = run.filterMap view := by
  obtain ⟨side, hidden⟩ := sided
  rw [drainReversedRun, filterMap_append, filterMap_filter, filterMap_filter]
  cases side with
  | old =>
    have second : run.filterMap (fun group => if !(group.kind == .addition) then view group
        else none) = [] := by
      refine filterMap_eq_nil_iff.mpr fun group member => ?_
      rcases changed group member with deletion | addition
      · rw [hidden group deletion, ite_self]
      · rw [addition]; rfl
    rw [second, append_nil]
    refine filterMap_congr fun group member => ?_
    rcases changed group member with deletion | addition
    · rw [hidden group deletion, ite_self]
    · rw [addition]; rfl
  | new =>
    have first : run.filterMap (fun group => if group.kind == .addition then view group
        else none) = [] := by
      refine filterMap_eq_nil_iff.mpr fun group member => ?_
      rcases changed group member with deletion | addition
      · rw [deletion]; rfl
      · rw [hidden group addition, ite_self]
    rw [first, nil_append]
    refine filterMap_congr fun group member => ?_
    rcases changed group member with deletion | addition
    · rw [deletion]; rfl
    · rw [hidden group addition, ite_self]

/-- Letting removals lead moves no line on either side. -/
theorem filterMap_orderReversed {β : Type*} {view : RenderLineGroup → Option β}
    (sided : OneSided RenderLineGroup.kind view) (groups : List RenderLineGroup)
    (tagged : ∀ group ∈ groups,
      group.kind = .context ∨ group.kind = .deletion ∨ group.kind = .addition)
    (run : List RenderLineGroup)
    (changed : ∀ group ∈ run, group.kind = .deletion ∨ group.kind = .addition) :
    (orderReversed run groups).filterMap view = (run ++ groups).filterMap view := by
  induction groups generalizing run with
  | nil => rw [orderReversed, filterMap_drain sided changed, append_nil]
  | cons group groups ih =>
    have later := fun other member => tagged other (mem_cons_of_mem group member)
    rw [orderReversed]
    rcases tagged group mem_cons_self with context | change
    · rw [if_pos context, filterMap_append, filterMap_drain sided changed, filterMap_append,
        filterMap_cons, filterMap_cons, ih later [] (by simp), nil_append]
    · have next : ∀ other ∈ run ++ [group], other.kind = .deletion ∨ other.kind = .addition := by
        intro other member
        rcases mem_append.mp member with old | new
        · exact changed other old
        · rwa [mem_singleton.mp new]
      have separate : group.kind ≠ .context := by
        rcases change with kind | kind <;> rw [kind] <;> decide
      rw [if_neg separate, ih later _ next, append_assoc, singleton_append]

theorem mem_orderReversed {group : RenderLineGroup} (run groups : List RenderLineGroup) :
    group ∈ orderReversed run groups ↔ group ∈ run ++ groups := by
  have drained : ∀ run : List RenderLineGroup, group ∈ drainReversedRun run ↔ group ∈ run := by
    intro run
    cases added : group.kind == .addition <;> simp [drainReversedRun, added]
  induction groups generalizing run with
  | nil => rw [orderReversed, drained, append_nil]
  | cons head groups ih =>
    rw [orderReversed]
    split
    · simp only [mem_append, drained, mem_cons, ih, not_mem_nil, false_or]
    · simp only [ih, mem_append, mem_cons, not_mem_nil, or_false, or_assoc]

namespace PreparedHunk

/-- Whether a changed line is selected: `none` selects them all. -/
def selects (prepared : PreparedHunk) (group : LineGroup) : Bool :=
  match prepared.selectedLines with
  | none => true
  | some selectedLines => selectedLines.contains group.line.coordinates

def resolve (prepared : PreparedHunk) (direction : Direction) (group : LineGroup) :
    Option RenderLineGroup :=
  (resolvedKind direction group.kind (prepared.selects group)).map fun kind => ⟨kind, group⟩

/-- What becomes of one line of a hunk in the patch. -/
inductive Resolved (prepared : PreparedHunk) (direction : Direction) (group : LineGroup) :
    Option RenderLineGroup → Prop
  | surrounding {rendered : RenderLineGroup} (context : group.kind = .context)
      (same : group.on direction.source.other = group.on direction.source)
      (tagged : (rendered.emitted direction).kind = .context)
      (shown : ∀ side, (rendered.emitted direction).on side = group.on direction.source) :
      Resolved prepared direction group (some rendered)
  | retained {rendered : RenderLineGroup} (own : group.kind = direction.source.own)
      (unselected : prepared.selects group = false)
      (tagged : (rendered.emitted direction).kind = .context)
      (shown : ∀ side, (rendered.emitted direction).on side = group.on direction.source) :
      Resolved prepared direction group (some rendered)
  | absent (own : group.kind = direction.source.other.own)
      (unselected : prepared.selects group = false) : Resolved prepared direction group none
  | removed {rendered : RenderLineGroup} (own : group.kind = direction.source.own)
      (selected : prepared.selects group = true)
      (tagged : (rendered.emitted direction).kind = .deletion)
      (shown : (rendered.emitted direction).on .old = group.on direction.source) :
      Resolved prepared direction group (some rendered)
  | inserted {rendered : RenderLineGroup} (own : group.kind = direction.source.other.own)
      (selected : prepared.selects group = true)
      (tagged : (rendered.emitted direction).kind = .addition)
      (shown : (rendered.emitted direction).on .new = group.on direction.source.other) :
      Resolved prepared direction group (some rendered)

/-- A line kept as context on both sides takes its marker along to both. -/
private theorem emitted_wellFormed {rendered : RenderLineGroup} (direction : Direction)
    (formed : rendered.group.WellFormed)
    (kept : rendered.kind = rendered.group.kind ∨ rendered.kind = .context) :
    (rendered.emitted direction).WellFormed := by
  have tagged : isEofMarker rendered.kind = false := by
    rcases kept with same | context
    · rw [same, formed.tagged]
    · rw [context]; rfl
  have mirrored : ∀ kind, isEofMarker kind = false →
      isEofMarker (reversedKind kind direction) = false ∧
        reversedKind (markerOf kind) direction = markerOf (reversedKind kind direction) := by
    intro kind
    cases direction <;> cases kind <;> decide
  refine ⟨(mirrored _ tagged).1, ?_⟩
  intro marker member
  obtain ⟨original, present, rfl⟩ := mem_map.mp member
  have marked := formed.marked original present
  have written : emittedMarkerKind rendered original = markerOf rendered.kind := by
    have isMarker : isEofMarker original.kind = true := by rw [marked, isEofMarker_markerOf]
    rw [emittedMarkerKind, RenderLineGroup.originalKind, isMarker, marked]
    rcases kept with same | context
    · rw [if_neg (by rw [same]; tauto), same]
    · by_cases changed : rendered.group.kind = .context
      · rw [if_neg (by tauto), changed, context]
      · rw [if_pos ⟨context, changed, rfl⟩, context]; rfl
  change reversedKind (emittedMarkerKind rendered original) direction = _
  rw [written]
  exact (mirrored _ tagged).2

private theorem emitted_on {rendered : RenderLineGroup} {direction : Direction} {shown side : Side}
    (formed : rendered.group.WellFormed) (emitted : (rendered.emitted direction).WellFormed)
    (on : shown.has (rendered.emitted direction).kind = true)
    (has : side.has rendered.group.kind = true) :
    (rendered.emitted direction).on shown = rendered.group.on side := by
  rw [emitted.on_eq on, formed.on_eq has]
  simp only [RenderLineGroup.emitted, isEmpty_map]

theorem resolve_cases (prepared : PreparedHunk) (direction : Direction) {group : LineGroup}
    (formed : group.WellFormed) :
    Resolved prepared direction group (prepared.resolve direction group) := by
  have shows : ∀ kind, kind = group.kind ∨ kind = .context → ∀ shown side : Side,
      shown.has (reversedKind kind direction) = true → side.has group.kind = true →
      ((⟨kind, group⟩ : RenderLineGroup).emitted direction).on shown = group.on side :=
    fun kind kept shown side on has =>
      emitted_on formed (emitted_wellFormed direction formed kept) on has
  have context : reversedKind .context direction = .context := by cases direction <;> rfl
  rw [resolve]
  rcases formed.kind_cases with kind | kind | kind
  · have kept : resolvedKind direction group.kind (prepared.selects group) = some .context := by
      rw [kind]; cases direction <;> rfl
    rw [kept]
    refine .surrounding kind ?_ context fun side => ?_
    · rw [formed.on_eq (by rw [kind, Side.has_context]), formed.on_eq (by rw [kind, Side.has_context])]
    · exact shows _ (.inr rfl) side _ (by rw [context, Side.has_context]) (by rw [kind, Side.has_context])
  all_goals
    cases selected : prepared.selects group <;> cases direction <;> rw [kind]
  · exact .retained kind selected rfl fun side =>
      shows _ (.inr rfl) side .old (by rw [context, Side.has_context]) (by rw [kind]; rfl)
  · exact .absent kind selected
  · exact .removed kind selected rfl (shows _ (.inl kind.symm) .old .old rfl (by rw [kind]; rfl))
  · exact .inserted kind selected rfl (shows _ (.inl kind.symm) .new .old rfl (by rw [kind]; rfl))
  · exact .absent kind selected
  · exact .retained kind selected rfl fun side =>
      shows _ (.inr rfl) side .new (by rw [context, Side.has_context]) (by rw [kind]; rfl)
  · exact .inserted kind selected rfl (shows _ (.inl kind.symm) .new .new rfl (by rw [kind]; rfl))
  · exact .removed kind selected rfl (shows _ (.inl kind.symm) .old .new rfl (by rw [kind]; rfl))

private theorem resolvedKind_stays {direction : Direction} {original kind : DiffLineKind}
    {selected : Bool} (kept : resolvedKind direction original selected = some kind) :
    kind = original ∨ kind = .context := by
  cases direction <;> cases original <;> cases selected <;> cases kept <;>
    first | exact .inl rfl | exact .inr rfl

theorem resolve_wellFormed {prepared : PreparedHunk} {direction : Direction} {group : LineGroup}
    {rendered : RenderLineGroup} (formed : group.WellFormed)
    (resolved : prepared.resolve direction group = some rendered) :
    (rendered.emitted direction).WellFormed ∧ (rendered.kind = .context ∨
      rendered.kind = .deletion ∨ rendered.kind = .addition) := by
  obtain ⟨kind, kept, rfl⟩ := Option.map_eq_some_iff.mp resolved
  have stays := resolvedKind_stays kept
  refine ⟨emitted_wellFormed direction formed stays, ?_⟩
  rcases stays with same | context
  · rw [same]; exact formed.kind_cases
  · exact .inl context

/-- The line of a selected removal. -/
def removedLine (prepared : PreparedHunk) (direction : Direction) (group : LineGroup) :
    Option SideLine :=
  if prepared.selects group then group.ownShown direction.source else none

/-- The line of a selected insertion. -/
def insertedLine (prepared : PreparedHunk) (direction : Direction) (group : LineGroup) :
    Option SideLine :=
  if prepared.selects group then group.ownShown direction.source.other else none

/-- What is left of a line once exactly the selected changes are made: a selected line is as the
other side has it, any other as the source has it. -/
def resultLine (prepared : PreparedHunk) (direction : Direction) (group : LineGroup) :
    Option SideLine :=
  group.shown (if prepared.selects group then direction.source.other else direction.source)

theorem resolve_shown_old (prepared : PreparedHunk) (direction : Direction) {group : LineGroup}
    (formed : group.WellFormed) :
    (prepared.resolve direction group).bind (fun rendered =>
      (rendered.emitted direction).shown .old) = group.shown direction.source := by
  have resolved := resolve_cases prepared direction formed
  generalize prepared.resolve direction group = outcome at resolved
  cases resolved with
  | surrounding context same tagged shown =>
    rw [Option.bind_some, LineGroup.shown, LineGroup.shown, tagged, context, shown]
    rfl
  | retained own unselected tagged shown =>
    rw [Option.bind_some, LineGroup.shown, LineGroup.shown, tagged, own, shown]
    cases direction <;> rfl
  | absent own unselected =>
    rw [Option.bind_none, LineGroup.shown, own]
    cases direction <;> rfl
  | removed own selected tagged shown =>
    rw [Option.bind_some, LineGroup.shown, LineGroup.shown, tagged, own, shown]
    cases direction <;> rfl
  | inserted own selected tagged shown =>
    rw [Option.bind_some, LineGroup.shown, LineGroup.shown, tagged, own]
    cases direction <;> rfl

theorem resolve_shown_new (prepared : PreparedHunk) (direction : Direction) {group : LineGroup}
    (formed : group.WellFormed) :
    (prepared.resolve direction group).bind (fun rendered =>
      (rendered.emitted direction).shown .new) = prepared.resultLine direction group := by
  have resolved := resolve_cases prepared direction formed
  rw [resultLine]
  generalize prepared.resolve direction group = outcome at resolved
  cases resolved with
  | surrounding context same tagged shown =>
    rw [Option.bind_some, LineGroup.shown, LineGroup.shown, tagged, context, shown]
    cases prepared.selects group
    · rfl
    · rw [if_pos rfl, same]
      rfl
  | retained own unselected tagged shown =>
    rw [Option.bind_some, LineGroup.shown, LineGroup.shown, tagged, own, shown, unselected]
    cases direction <;> rfl
  | absent own unselected =>
    rw [Option.bind_none, LineGroup.shown, own, unselected]
    cases direction <;> rfl
  | removed own selected tagged shown =>
    rw [Option.bind_some, LineGroup.shown, LineGroup.shown, tagged, own, selected]
    cases direction <;> rfl
  | inserted own selected tagged shown =>
    rw [Option.bind_some, LineGroup.shown, LineGroup.shown, tagged, own, selected, shown]
    cases direction <;> rfl

theorem resolve_ownShown_old (prepared : PreparedHunk) (direction : Direction) {group : LineGroup}
    (formed : group.WellFormed) :
    (prepared.resolve direction group).bind (fun rendered =>
      (rendered.emitted direction).ownShown .old) = prepared.removedLine direction group := by
  have resolved := resolve_cases prepared direction formed
  rw [removedLine, LineGroup.ownShown]
  generalize prepared.resolve direction group = outcome at resolved
  cases resolved with
  | surrounding context same tagged shown =>
    rw [Option.bind_some, LineGroup.ownShown, tagged, context]
    cases direction <;> simp [Side.own, Direction.source]
  | retained own unselected tagged shown =>
    rw [Option.bind_some, LineGroup.ownShown, tagged, unselected]
    rfl
  | absent own unselected =>
    rw [Option.bind_none, unselected]
    rfl
  | removed own selected tagged shown =>
    rw [Option.bind_some, LineGroup.ownShown, tagged, selected, shown, if_pos own]
    rfl
  | inserted own selected tagged shown =>
    rw [Option.bind_some, LineGroup.ownShown, tagged, own, selected]
    cases direction <;> rfl

theorem resolve_ownShown_new (prepared : PreparedHunk) (direction : Direction) {group : LineGroup}
    (formed : group.WellFormed) :
    (prepared.resolve direction group).bind (fun rendered =>
      (rendered.emitted direction).ownShown .new) = prepared.insertedLine direction group := by
  have resolved := resolve_cases prepared direction formed
  rw [insertedLine, LineGroup.ownShown]
  generalize prepared.resolve direction group = outcome at resolved
  cases resolved with
  | surrounding context same tagged shown =>
    rw [Option.bind_some, LineGroup.ownShown, tagged, context]
    cases direction <;> simp [Side.own, Side.other, Direction.source]
  | retained own unselected tagged shown =>
    rw [Option.bind_some, LineGroup.ownShown, tagged, unselected]
    rfl
  | absent own unselected =>
    rw [Option.bind_none, unselected]
    rfl
  | removed own selected tagged shown =>
    rw [Option.bind_some, LineGroup.ownShown, tagged, own, selected]
    cases direction <;> rfl
  | inserted own selected tagged shown =>
    rw [Option.bind_some, LineGroup.ownShown, tagged, selected, shown, if_pos own]
    rfl

end PreparedHunk

private theorem resolvedKind_selected (direction : Direction) (kind : DiffLineKind) :
    resolvedKind direction kind true = some kind := by
  cases direction <;> cases kind <;> rfl

private theorem filterMap_resolveRenderGroups {β : Type*} {view : RenderLineGroup → Option β}
    (sided : OneSided RenderLineGroup.kind view) (prepared : PreparedHunk) (direction : Direction)
    (formed : ∀ group ∈ lineGroups prepared.hunk.lines, group.WellFormed) :
    (resolveRenderGroups prepared.hunk.lines prepared.selectedLines direction).filterMap view =
      (paired (lineGroups prepared.hunk.lines)).filterMap fun group =>
        (prepared.resolve direction group).bind view := by
  obtain ⟨hunk, selectedLines⟩ := prepared
  cases selectedLines with
  | none =>
    have same : ∀ group, (PreparedHunk.resolve ⟨hunk, none⟩ direction group).bind view =
        view ⟨group.kind, group⟩ := by
      intro group
      rw [PreparedHunk.resolve, PreparedHunk.selects, resolvedKind_selected, Option.map_some,
        Option.bind_some]
    have whole : OneSided LineGroup.kind fun group => view ⟨group.kind, group⟩ := by
      obtain ⟨side, hidden⟩ := sided
      exact ⟨side, fun group own => hidden ⟨group.kind, group⟩ own⟩
    simp only [same]
    rw [filterMap_paired whole formed, resolveRenderGroups, filterMap_map]
    rfl
  | some selectedLines =>
    rw [resolveRenderGroups, resolveSelected_eq, filterMap_filterMap]
    rfl

private theorem exists_resolve_of_mem {prepared : PreparedHunk} {direction : Direction}
    {rendered : RenderLineGroup}
    (member : rendered ∈ resolveRenderGroups prepared.hunk.lines prepared.selectedLines direction) :
    ∃ group ∈ lineGroups prepared.hunk.lines, prepared.resolve direction group = some rendered := by
  obtain ⟨hunk, selectedLines⟩ := prepared
  cases selectedLines with
  | none =>
    obtain ⟨group, present, rfl⟩ := mem_map.mp member
    refine ⟨group, present, ?_⟩
    rw [PreparedHunk.resolve, PreparedHunk.selects, resolvedKind_selected, Option.map_some]
  | some selectedLines =>
    rw [resolveRenderGroups, resolveSelected_eq] at member
    obtain ⟨group, present, resolved⟩ := mem_filterMap.mp member
    exact ⟨group, by simpa using mem_of_mem_pairedFrom present, resolved⟩

/-- Every line group of the patch is what became of one of the hunk's. -/
theorem exists_resolve_of_mem_planHunk {prepared : PreparedHunk} {direction : Direction}
    {rendered : RenderLineGroup} (member : rendered ∈ (planHunk prepared direction).groups) :
    ∃ group ∈ lineGroups prepared.hunk.lines, prepared.resolve direction group = some rendered := by
  cases direction with
  | forward => exact exists_resolve_of_mem member
  | reverse => exact exists_resolve_of_mem (by simpa using (mem_orderReversed [] _).mp member)

/-- A one-sided view of the patch sees what became of each of the hunk's lines, in its place. -/
theorem filterMap_planHunk {β : Type*} {view : LineGroup → Option β}
    (sided : OneSided LineGroup.kind view) (prepared : PreparedHunk) (direction : Direction)
    (formed : ∀ group ∈ lineGroups prepared.hunk.lines, group.WellFormed) :
    ((planHunk prepared direction).groups.filterMap fun rendered =>
        view (rendered.emitted direction)) =
      (paired (lineGroups prepared.hunk.lines)).filterMap fun group =>
        (prepared.resolve direction group).bind fun rendered =>
          view (rendered.emitted direction) := by
  have turned : OneSided RenderLineGroup.kind fun rendered => view (rendered.emitted direction) := by
    obtain ⟨side, hidden⟩ := sided
    cases direction with
    | forward =>
      refine ⟨side, fun rendered own => hidden _ ?_⟩
      change reversedKind rendered.kind .forward = side.own
      rw [own]
      cases side <;> rfl
    | reverse =>
      refine ⟨side.other, fun rendered own => hidden _ ?_⟩
      change reversedKind rendered.kind .reverse = side.own
      rw [own]
      cases side <;> rfl
  rw [← filterMap_resolveRenderGroups turned prepared direction formed]
  cases direction with
  | forward => rfl
  | reverse =>
    refine filterMap_orderReversed turned _ ?_ [] (by simp)
    intro rendered member
    obtain ⟨group, present, resolved⟩ := exists_resolve_of_mem member
    exact (PreparedHunk.resolve_wellFormed (formed group present) resolved).2

theorem lineGroups_body {prepared : PreparedHunk} (direction : Direction)
    (formed : ∀ group ∈ lineGroups prepared.hunk.lines, group.WellFormed) :
    lineGroups ((planHunk prepared direction).body direction) =
      (planHunk prepared direction).groups.map fun rendered => rendered.emitted direction := by
  have written : (planHunk prepared direction).body direction =
      ((planHunk prepared direction).groups.map fun rendered =>
        rendered.emitted direction).flatMap LineGroup.lines := by
    rw [RenderedHunk.body, flatMap_map]
  rw [written]
  refine lineGroups_flatMap _ ?_
  intro group member
  obtain ⟨rendered, present, rfl⟩ := mem_map.mp member
  obtain ⟨original, here, resolved⟩ := exists_resolve_of_mem_planHunk present
  exact (PreparedHunk.resolve_wellFormed (formed original here) resolved).1

private theorem countGroup_eq (direction : Direction) (rendered : RenderLineGroup) {counts : ℕ × ℕ}
    (source : counts.1 ≤ 2 ^ 32 - 1) (result : counts.2 ≤ 2 ^ 32 - 1) :
    countGroup direction counts rendered =
      (min (counts.1 + ((rendered.emitted direction).shown .old).toList.length) (2 ^ 32 - 1),
        min (counts.2 + ((rendered.emitted direction).shown .new).toList.length) (2 ^ 32 - 1)) := by
  have kind : (rendered.emitted direction).kind = reversedKind rendered.kind direction := rfl
  rw [countGroup, LineGroup.shown, LineGroup.shown, kind]
  cases reversedKind rendered.kind direction <;>
    simp only [Side.has, Side.own, saturatingSucc, BEq.rfl, Bool.true_or, reduceCtorEq, beq_iff_eq,
      Bool.or_true, Bool.or_eq_true, or_self, if_true, if_false, Option.toList_none,
      Option.toList_some, length_nil, length_singleton, Nat.add_zero, Nat.min_eq_left, source,
      result]

theorem foldl_countGroup (direction : Direction) (groups : List RenderLineGroup)
    (counts : ℕ × ℕ) (source : counts.1 ≤ 2 ^ 32 - 1) (result : counts.2 ≤ 2 ^ 32 - 1) :
    groups.foldl (countGroup direction) counts =
      (min (counts.1 + (groups.filterMap fun rendered =>
          (rendered.emitted direction).shown .old).length) (2 ^ 32 - 1),
        min (counts.2 + (groups.filterMap fun rendered =>
          (rendered.emitted direction).shown .new).length) (2 ^ 32 - 1)) := by
  induction groups generalizing counts with
  | nil =>
    simp only [foldl_nil, filterMap_nil, length_nil, Nat.add_zero, Nat.min_eq_left source,
      Nat.min_eq_left result]
  | cons rendered groups ih =>
    rw [foldl_cons, countGroup_eq direction rendered source result,
      ih _ (Nat.min_le_right ..) (Nat.min_le_right ..), filterMap_cons, filterMap_cons]
    cases (rendered.emitted direction).shown .old <;>
      cases (rendered.emitted direction).shown .new <;>
        simp only [Option.toList_none, Option.toList_some, length_nil, length_cons, Prod.mk.injEq] <;>
          omega

/-- Of either side's lines the result keeps some: it has no more than both sides together. -/
private theorem length_resultLine_le (prepared : PreparedHunk) (direction : Direction)
    (groups : List LineGroup) : (groups.filterMap (prepared.resultLine direction)).length ≤
      (groups.filterMap fun group => group.shown .old).length +
        (groups.filterMap fun group => group.shown .new).length := by
  induction groups with
  | nil => exact Nat.zero_le _
  | cons group groups ih =>
    have either : prepared.resultLine direction group = group.shown .old ∨
        prepared.resultLine direction group = group.shown .new := by
      rw [PreparedHunk.resultLine]
      cases prepared.selects group <;> cases direction <;> simp [Direction.source, Side.other]
    rw [filterMap_cons, filterMap_cons, filterMap_cons]
    rcases either with same | same <;> rw [same] <;>
      cases group.shown .old <;> cases group.shown .new <;> simp only [length_cons] <;> omega

/-- What a rendered hunk says, against the hunk it was rendered from and what was selected of it. -/
structure Realizes (prepared : PreparedHunk) (direction : Direction) (rendered : RenderedHunk) :
    Prop where
  /-- The body is tagged lines, each qualified by markers of the sides it is on. -/
  formed : ∀ group ∈ lineGroups (rendered.body direction), group.WellFormed
  /-- The patch reads exactly the hunk's own source side. -/
  source : sideLines .old (rendered.body direction) =
    sideLines direction.source prepared.hunk.lines
  /-- Exactly the selected removals are removed; any other line of the source stays context. -/
  removed : ownLines .old (rendered.body direction) =
    (lineGroups prepared.hunk.lines).filterMap (prepared.removedLine direction)
  /-- Exactly the selected insertions are inserted. -/
  inserted : ownLines .new (rendered.body direction) =
    (lineGroups prepared.hunk.lines).filterMap (prepared.insertedLine direction)
  /-- The result side is every line that is left, in its place. -/
  result : sideLines .new (rendered.body direction) =
    (paired (lineGroups prepared.hunk.lines)).filterMap (prepared.resultLine direction)
  /-- The places keep the order in which the hunk has the lines of either side. -/
  placed : ∀ side : Side, ((paired (lineGroups prepared.hunk.lines)).filter fun group =>
      side.has group.kind) = (lineGroups prepared.hunk.lines).filter fun group =>
        side.has group.kind
  sourceCount : ∀ drift, (hunkHeader rendered drift).sourceLines =
    (sideLines .old (rendered.body direction)).length
  resultCount : ∀ drift, (hunkHeader rendered drift).resultLines =
    (sideLines .new (rendered.body direction)).length

private theorem filter_paired {groups : List LineGroup}
    (formed : ∀ group ∈ groups, group.WellFormed) (side : Side) :
    ((paired groups).filter fun group => side.has group.kind) =
      groups.filter fun group => side.has group.kind := by
  have sided : OneSided LineGroup.kind (Option.guard fun group => side.has group.kind) := by
    refine ⟨side.other, fun group own => ?_⟩
    cases side <;> simp only [Option.guard, own] <;> rfl
  have same := filterMap_paired sided formed
  simpa only [filterMap_eq_filter] using same

private theorem oneSided_selected (prepared : PreparedHunk) (side : Side) :
    OneSided LineGroup.kind fun group =>
      if prepared.selects group then group.ownShown side else none := by
  obtain ⟨hiddenSide, hidden⟩ := oneSided_ownShown side
  refine ⟨hiddenSide, fun group own => ?_⟩
  have nothing : group.ownShown side = none := hidden group own
  simp only [nothing, ite_self]

private theorem planHunk_counts (prepared : PreparedHunk) (direction : Direction)
    (grouped : ∀ group ∈ lineGroups prepared.hunk.lines, group.WellFormed) :
    (planHunk prepared direction).sourceLines =
        min (sideLines .old ((planHunk prepared direction).body direction)).length (2 ^ 32 - 1) ∧
      (planHunk prepared direction).resultLines =
        min (sideLines .new ((planHunk prepared direction).body direction)).length
          (2 ^ 32 - 1) := by
  have counted := foldl_countGroup direction (planHunk prepared direction).groups
    (0, 0) (Nat.zero_le _) (Nat.zero_le _)
  simp only [Nat.zero_add] at counted
  rw [sideLines, sideLines, lineGroups_body direction grouped, filterMap_map, filterMap_map]
  exact ⟨congrArg Prod.fst counted, congrArg Prod.snd counted⟩

/-- However a hunk is selected from and whichever way it is rendered, its patch reads the hunk's
source side and makes exactly the selected changes to it. -/
theorem planHunk_realizes {prepared : PreparedHunk} (direction : Direction)
    (formed : prepared.hunk.WellFormed) :
    Realizes prepared direction (planHunk prepared direction) := by
  have grouped := formed.grouped
  have body := lineGroups_body direction grouped
  have sides : ∀ {view seen : LineGroup → Option SideLine}, OneSided LineGroup.kind view →
      (∀ group, group.WellFormed → (prepared.resolve direction group).bind (fun rendered =>
        view (rendered.emitted direction)) = seen group) →
      (lineGroups ((planHunk prepared direction).body direction)).filterMap view =
        (paired (lineGroups prepared.hunk.lines)).filterMap seen := by
    intro view seen sided becomes
    rw [body, filterMap_map]
    refine (filterMap_planHunk sided prepared direction grouped).trans ?_
    refine filterMap_congr fun group member => becomes group (grouped group ?_)
    simpa using mem_of_mem_pairedFrom member
  have source : sideLines .old ((planHunk prepared direction).body direction) =
      sideLines direction.source prepared.hunk.lines := by
    rw [sideLines, sides (oneSided_shown .old) fun group => prepared.resolve_shown_old direction,
      filterMap_paired (oneSided_shown direction.source) grouped, sideLines]
  have result : sideLines .new ((planHunk prepared direction).body direction) =
      (paired (lineGroups prepared.hunk.lines)).filterMap (prepared.resultLine direction) := by
    rw [sideLines, sides (oneSided_shown .new) fun group => prepared.resolve_shown_new direction]
  have bounded : (sideLines .old prepared.hunk.lines).length +
      (sideLines .new prepared.hunk.lines).length ≤ 2 ^ 32 - 1 := by
    rw [formed.oldCount, formed.newCount]
    have bounded := formed.bounded
    omega
  have counts := planHunk_counts prepared direction grouped
  refine ⟨?_, source, ?_, ?_, result, filter_paired grouped, ?_, ?_⟩
  · intro group member
    rw [body] at member
    obtain ⟨rendered, present, rfl⟩ := mem_map.mp member
    obtain ⟨original, here, resolved⟩ := exists_resolve_of_mem_planHunk present
    exact (PreparedHunk.resolve_wellFormed (grouped original here) resolved).1
  · rw [ownLines, sides (oneSided_ownShown .old) fun group =>
      prepared.resolve_ownShown_old direction]
    exact filterMap_paired (oneSided_selected prepared direction.source) grouped
  · rw [ownLines, sides (oneSided_ownShown .new) fun group =>
      prepared.resolve_ownShown_new direction]
    exact filterMap_paired (oneSided_selected prepared direction.source.other) grouped
  · intro drift
    refine counts.1.trans (Nat.min_eq_left ?_)
    rw [source]
    cases direction <;> simp only [Direction.source] <;> omega
  · intro drift
    refine counts.2.trans (Nat.min_eq_left ?_)
    have most := length_resultLine_le prepared direction (paired (lineGroups prepared.hunk.lines))
    rw [filterMap_paired (oneSided_shown .old) grouped,
      filterMap_paired (oneSided_shown .new) grouped, ← result] at most
    exact most.trans bounded

/-- The result has no more lines than both sides of the hunk together. -/
theorem resultLines_le {prepared : PreparedHunk} (direction : Direction)
    (formed : prepared.hunk.WellFormed) : (planHunk prepared direction).resultLines ≤
      prepared.hunk.oldLines + prepared.hunk.newLines := by
  have realized := planHunk_realizes direction formed
  have most := length_resultLine_le prepared direction (paired (lineGroups prepared.hunk.lines))
  rw [filterMap_paired (oneSided_shown .old) formed.grouped,
    filterMap_paired (oneSided_shown .new) formed.grouped, ← realized.result] at most
  have count := realized.resultCount 0
  rw [← formed.oldCount, ← formed.newCount]
  exact Nat.le_trans (Nat.le_of_eq count) most

/-- One line of a replaced pair is selected, in a run that ends a file without a newline. -/
def replacedPair : PreparedHunk where
  hunk :=
    { oldStart := 1, oldLines := 3, newStart := 1, newLines := 3
      lines := [⟨.context, some 1, some 1, [1]⟩, ⟨.deletion, some 2, none, [2]⟩,
        ⟨.deletion, some 3, none, [3]⟩, ⟨.oldEofNoNewline, none, none, [92]⟩,
        ⟨.addition, none, some 2, [4]⟩, ⟨.addition, none, some 3, [5]⟩,
        ⟨.newEofNoNewline, none, none, [92]⟩] }
  selectedLines := some [⟨some 2, none⟩, ⟨none, some 2⟩]

theorem planHunk_realizes_replacedPair :
    replacedPair.hunk.WellFormed ∧ Realizes replacedPair .forward (planHunk replacedPair .forward) ∧
      sideLines .new ((planHunk replacedPair .forward).body .forward) =
        [⟨[1], false⟩, ⟨[4], false⟩, ⟨[3], true⟩] ∧
      sideLines .new ((planHunk replacedPair .reverse).body .reverse) =
        [⟨[1], false⟩, ⟨[2], false⟩, ⟨[5], true⟩] :=
  ⟨by decide, planHunk_realizes .forward (by decide), by decide, by decide⟩

end Harkness.Git
