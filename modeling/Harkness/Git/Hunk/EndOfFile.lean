import Harkness.Git.Hunk.Position

/-! # Markers that no line may follow

A marker says that a side ends with the line before it. The check looks at the rendered groups once
what is kept, dropped and moved has been settled, and refuses where a side goes on behind such a
marker. The sides of a whole hunk are lines of the two texts in order, where only the last line of a
text can be marked.
-/

namespace Harkness.Git

open List

/-- On the side no line follows a marker that ends it. -/
def Unstranded (side : Side) (body : List DiffLine) : Prop :=
  body.Pairwise fun marker line => side.endsAt marker.kind = true → side.has line.kind = false

/-- No line but the last lacks its newline. -/
def EndsLast (lines : List SideLine) : Prop := lines.Pairwise fun line _ => line.unterminated = false

instance (side : Side) (body : List DiffLine) : Decidable (Unstranded side body) := by
  unfold Unstranded
  infer_instance

instance (lines : List SideLine) : Decidable (EndsLast lines) := by
  unfold EndsLast
  infer_instance

theorem Side.has_of_isEofMarker (side : Side) {kind : DiffLineKind} (marker : isEofMarker kind = true) :
    side.has kind = false := by
  revert marker
  cases side <;> cases kind <;> decide

theorem Side.endsAt_of_line (side : Side) {kind : DiffLineKind} (line : isEofMarker kind = false) :
    side.endsAt kind = false := by
  revert line
  cases side <;> cases kind <;> decide

private theorem markers_of_mem_lineGroupsFrom {line : DiffLine} {markers lines : List DiffLine}
    {group : LineGroup} (marked : ∀ marker ∈ markers, isEofMarker marker.kind = true)
    (member : group ∈ lineGroupsFrom line markers lines) :
    ∀ marker ∈ group.markers, isEofMarker marker.kind = true := by
  induction lines generalizing line markers with
  | nil => rwa [mem_singleton.mp member]
  | cons next lines ih =>
    rw [lineGroupsFrom] at member
    split_ifs at member with marker
    · refine ih ?_ member
      intro other present
      rcases mem_append.mp present with earlier | last
      · exact marked other earlier
      · rwa [mem_singleton.mp last]
    · rcases mem_cons.mp member with rfl | later
      · exact marked
      · exact ih (forall_mem_nil _) later

/-- Behind the first line of a group there are only markers. -/
theorem markers_of_mem_lineGroups {lines : List DiffLine} {group : LineGroup}
    (member : group ∈ lineGroups lines) : ∀ marker ∈ group.markers, isEofMarker marker.kind = true := by
  cases lines with
  | nil => exact absurd member not_mem_nil
  | cons line lines => exact markers_of_mem_lineGroupsFrom (forall_mem_nil _) member

/-- A body goes on behind a group only where a later group has a line. -/
theorem unstranded_cons {side : Side} {group : LineGroup} {groups : List LineGroup}
    (marked : ∀ other ∈ group :: groups, ∀ marker ∈ other.markers, isEofMarker marker.kind = true) :
    Unstranded side ((group :: groups).flatMap LineGroup.lines) ↔
      (∀ line ∈ group.lines, ∀ follower ∈ groups,
        side.endsAt line.kind = true → side.has follower.kind = false) ∧
        Unstranded side (groups.flatMap LineGroup.lines) := by
  have behind : ∀ line ∈ group.markers, side.has line.kind = false := fun line member =>
    side.has_of_isEofMarker (marked group mem_cons_self line member)
  have within : Unstranded side group.lines :=
    pairwise_cons.mpr ⟨fun line member _ => behind line member,
      pairwise_of_forall_mem_list fun _ _ line member _ => behind line member⟩
  rw [flatMap_cons, Unstranded, pairwise_append]
  constructor
  · rintro ⟨-, others, across⟩
    refine ⟨fun line member follower among => ?_, others⟩
    exact across line member _ (mem_flatMap.mpr ⟨follower, among, mem_cons_self⟩)
  · rintro ⟨across, others⟩
    refine ⟨within, others, fun marker member line present ends => ?_⟩
    obtain ⟨follower, among, part⟩ := mem_flatMap.mp present
    rcases mem_cons.mp part with rfl | part
    · exact across marker member follower among ends
    · exact side.has_of_isEofMarker (marked follower (mem_cons_of_mem _ among) line part)

private theorem isEofMarker_reversedKind (kind : DiffLineKind) (direction : Direction) :
    isEofMarker (reversedKind kind direction) = isEofMarker kind := by
  cases direction <;> cases kind <;> rfl

/-- As it is written, a group still has only markers behind its first line. -/
private theorem markers_emitted {rendered : RenderLineGroup}
    (marked : ∀ marker ∈ rendered.group.markers, isEofMarker marker.kind = true) (direction : Direction) :
    ∀ marker ∈ (rendered.emitted direction).markers, isEofMarker marker.kind = true := by
  intro marker member
  obtain ⟨original, present, rfl⟩ := mem_map.mp member
  have kept : isEofMarker (emittedMarkerKind rendered original) = true := by
    rw [emittedMarkerKind]
    split_ifs
    · rfl
    · exact marked original present
  exact (isEofMarker_reversedKind _ direction).trans kept

private theorem occupiedSides_eq (rendered : RenderLineGroup) (direction : Direction) :
    occupiedSides rendered direction =
      (Side.old.has (rendered.emitted direction).kind, Side.new.has (rendered.emitted direction).kind) := by
  change _ = (Side.old.has (reversedKind rendered.kind direction),
    Side.new.has (reversedKind rendered.kind direction))
  rw [occupiedSides]
  cases reversedKind rendered.kind direction <;> rfl

private theorem marked_eq (kind : DiffLineKind) (occupied : Bool × Bool) :
    (isEofMarker kind && ((markedSides kind).1 && occupied.1 || (markedSides kind).2 && occupied.2)) =
      (Side.old.endsAt kind && occupied.1 || Side.new.endsAt kind && occupied.2) := by
  cases kind <;> rfl

private theorem strands_eq_false {direction : Direction} {rendered : RenderLineGroup}
    {later : List RenderLineGroup} : strands direction rendered later = false ↔
      ∀ side : Side, ∀ line ∈ (rendered.emitted direction).lines, ∀ follower ∈ later,
        side.endsAt line.kind = true → side.has (follower.emitted direction).kind = false := by
  have here (line : DiffLine) (follower : RenderLineGroup) :
      (isEofMarker line.kind && ((markedSides line.kind).1 && (occupiedSides follower direction).1 ||
          (markedSides line.kind).2 && (occupiedSides follower direction).2)) = false ↔
        ∀ side : Side, side.endsAt line.kind = true → side.has (follower.emitted direction).kind = false := by
    rw [marked_eq, occupiedSides_eq]
    constructor
    · intro neither side
      cases side <;> simp_all
    · intro either
      have old := either .old
      have new := either .new
      simp only [Bool.or_eq_false_iff, Bool.and_eq_false_iff]
      exact ⟨Bool.eq_false_or_eq_true _ |>.elim (fun ends => .inr (old ends)) .inl,
        Bool.eq_false_or_eq_true _ |>.elim (fun ends => .inr (new ends)) .inl⟩
  have spread (marker : Bool) (follows : RenderLineGroup → Bool) :
      (marker && later.any follows) = false ↔ ∀ follower ∈ later, (marker && follows follower) = false := by
    cases marker <;> simp
  simp only [strands, any_eq_false, Bool.not_eq_true, spread, here]
  constructor
  · exact fun each side line member follower present => each line member follower present side
  · exact fun each line member follower present side => each side line member follower present

private theorem strandsAny_eq_false {direction : Direction} {groups : List RenderLineGroup}
    (marked : ∀ rendered ∈ groups, ∀ marker ∈ rendered.group.markers, isEofMarker marker.kind = true) :
    strandsAny direction groups = false ↔
      ∀ side, Unstranded side ((groups.map (·.emitted direction)).flatMap LineGroup.lines) := by
  induction groups with
  | nil => exact iff_of_true rfl fun side => .nil
  | cons rendered groups ih =>
    have later := ih fun other member => marked other (mem_cons_of_mem _ member)
    have markers : ∀ other ∈ (rendered :: groups).map (·.emitted direction), ∀ marker ∈ other.markers,
        isEofMarker marker.kind = true :=
      forall_mem_map.mpr fun other member => markers_emitted (marked other member) direction
    rw [strandsAny, Bool.or_eq_false_iff, strands_eq_false, later, ← forall_and]
    refine forall_congr' fun side => ?_
    rw [map_cons, unstranded_cons markers]
    simp only [forall_mem_map]

private theorem markers_of_mem_planHunk {prepared : PreparedHunk} {direction : Direction}
    {rendered : RenderLineGroup} (member : rendered ∈ (planHunk prepared direction).groups) :
    ∀ marker ∈ rendered.group.markers, isEofMarker marker.kind = true := by
  obtain ⟨group, present, resolved⟩ := exists_resolve_of_mem_planHunk member
  obtain ⟨kind, -, rfl⟩ := Option.map_eq_some_iff.mp resolved
  exact markers_of_mem_lineGroups present

/-- The check accepts just the bodies in which no side goes on behind a marker that ends it. -/
theorem refuseStrandedEofMarkers_eq_ok (prepared : PreparedFile) (hunks : List PreparedHunk)
    (direction : Direction) :
    refuseStrandedEofMarkers prepared (hunks.map (planHunk · direction)) direction = .ok () ↔
      ∀ side, Unstranded side (hunks.flatMap fun hunk => (planHunk hunk direction).body direction) := by
  have flat : (hunks.flatMap fun hunk => (planHunk hunk direction).body direction) =
      (((hunks.map (planHunk · direction)).flatMap RenderedHunk.groups).map
        (·.emitted direction)).flatMap LineGroup.lines := by
    rw [flatMap_map, flatMap_map, flatMap_assoc]
    rfl
  rw [flat, ← strandsAny_eq_false]
  · rw [refuseStrandedEofMarkers]
    cases strandsAny direction _ <;> simp
  · intro rendered member
    obtain ⟨plan, listed, present⟩ := mem_flatMap.mp member
    obtain ⟨hunk, -, rfl⟩ := mem_map.mp listed
    exact markers_of_mem_planHunk present

/-- Of a well-formed group a side sees its line, and whether a marker ends it there. -/
theorem unstranded_flatMap_iff {groups : List LineGroup} (formed : ∀ group ∈ groups, group.WellFormed)
    (side : Side) : Unstranded side (groups.flatMap LineGroup.lines) ↔
      EndsLast (groups.filterMap fun group => group.shown side) := by
  induction groups with
  | nil => exact iff_of_true .nil .nil
  | cons group groups ih =>
    have later := ih fun other member => formed other (mem_cons_of_mem _ member)
    have head := formed group mem_cons_self
    have markers : ∀ other ∈ group :: groups, ∀ marker ∈ other.markers,
        isEofMarker marker.kind = true := by
      intro other member marker present
      rw [(formed other member).marked marker present, isEofMarker_markerOf]
    have none_ : (∀ follower ∈ groups, side.has follower.kind = false) ↔
        groups.filterMap (fun group => group.shown side) = [] := by
      rw [filterMap_eq_nil_iff]
      refine forall₂_congr fun follower _ => ?_
      rw [LineGroup.shown]
      cases side.has follower.kind <;> simp
    rw [unstranded_cons markers, later]
    by_cases on : side.has group.kind = true
    · have shown : group.shown side = some ⟨group.line.content, !group.markers.isEmpty⟩ :=
        (if_pos on).trans (congrArg some (head.on_eq on))
      have whole : (group :: groups).filterMap (fun group => group.shown side) =
          ⟨group.line.content, !group.markers.isEmpty⟩ ::
            groups.filterMap (fun group => group.shown side) := filterMap_cons_some shown
      rw [whole, EndsLast, EndsLast, pairwise_cons]
      refine and_congr_left fun _ => ?_
      cases marked : group.markers with
      | nil =>
        refine iff_of_true (fun line member follower _ ends => ?_) fun _ _ => rfl
        obtain rfl : line = group.line := by simpa [LineGroup.lines, marked] using member
        exact absurd (side.endsAt_of_line head.tagged) (ne_true_of_eq_false · ends)
      | cons marker rest =>
        have present : marker ∈ group.markers := marked ▸ mem_cons_self
        have ends : side.endsAt marker.kind = true := by
          rw [head.marked marker present, side.endsAt_markerOf head.tagged, on]
        constructor
        · intro across other member
          rw [none_.mp fun follower among => across marker (mem_cons_of_mem _ present) follower among ends]
            at member
          exact absurd member not_mem_nil
        · intro terminated line _ follower among _
          refine none_.mpr (eq_nil_iff_forall_not_mem.mpr fun other member => ?_) follower among
          cases terminated other member
    · have shown : group.shown side = none := if_neg on
      have quiet : ∀ line ∈ group.lines, side.endsAt line.kind = false := by
        intro line member
        rcases mem_cons.mp member with rfl | member
        · exact side.endsAt_of_line head.tagged
        · rw [head.marked line member, side.endsAt_markerOf head.tagged]
          exact Bool.eq_false_iff.mpr on
      have whole : (group :: groups).filterMap (fun group => group.shown side) =
          groups.filterMap (fun group => group.shown side) := filterMap_cons_none shown
      rw [whole]
      refine and_iff_right fun line member follower _ ends => ?_
      rw [quiet line member] at ends
      cases ends

/-- The lines that a side has in the hunks of a plan. -/
def sideOf (side : Side) (direction : Direction) (hunks : List PreparedHunk) : List SideLine :=
  hunks.flatMap fun hunk => sideLines side ((planHunk hunk direction).body direction)

theorem unstranded_iff_endsLast {hunks : List PreparedHunk} (formed : ∀ hunk ∈ hunks, hunk.hunk.WellFormed)
    (direction : Direction) (side : Side) :
    Unstranded side (hunks.flatMap fun hunk => (planHunk hunk direction).body direction) ↔
      EndsLast (sideOf side direction hunks) := by
  have body (hunk : PreparedHunk) : (planHunk hunk direction).body direction =
      ((planHunk hunk direction).groups.map (·.emitted direction)).flatMap LineGroup.lines := by
    rw [flatMap_map]
    rfl
  have flat : (hunks.flatMap fun hunk => (planHunk hunk direction).body direction) =
      (hunks.flatMap fun hunk => lineGroups ((planHunk hunk direction).body direction)).flatMap
        LineGroup.lines := by
    rw [flatMap_assoc]
    refine flatMap_congr fun hunk member => ?_
    rw [lineGroups_body direction (formed hunk member).grouped, body]
  rw [flat, unstranded_flatMap_iff, sideOf, filterMap_flatMap]
  · rfl
  · intro group member
    obtain ⟨hunk, listed, present⟩ := mem_flatMap.mp member
    exact (planHunk_realizes direction (formed hunk listed)).formed group present

/-- A whole hunk shows both its sides. -/
theorem sideLines_planHunk_whole {hunk : Hunk} (formed : hunk.WellFormed) (direction : Direction) :
    sideLines .old ((planHunk ⟨hunk, none⟩ direction).body direction) =
        sideLines direction.source hunk.lines ∧
      sideLines .new ((planHunk ⟨hunk, none⟩ direction).body direction) =
        sideLines direction.source.other hunk.lines := by
  have realized : Realizes ⟨hunk, none⟩ direction (planHunk ⟨hunk, none⟩ direction) :=
    planHunk_realizes direction formed
  exact ⟨realized.source, realized.result.trans
    (filterMap_paired (oneSided_shown direction.source.other) formed.grouped)⟩

/-- Hunks that precede each other show lines of the text in order. -/
theorem sideLines_sublist {text : List SideLine} {side : Side} {hunks : List Hunk}
    (fits : ∀ hunk ∈ hunks, hunk.Fits side text) (apart : hunks.Pairwise (Hunk.Precedes side)) :
    (hunks.flatMap fun hunk => sideLines side hunk.lines).Sublist text := by
  suffices later : ∀ done, (∀ hunk ∈ hunks, done ≤ hunk.position side) →
      (hunks.flatMap fun hunk => sideLines side hunk.lines).Sublist (text.drop done) by
    simpa using later 0 fun _ _ => Nat.zero_le _
  induction hunks with
  | nil => exact fun done _ => nil_sublist _
  | cons hunk hunks ih =>
    intro done after
    have rest := ih (fun other member => fits other (mem_cons_of_mem _ member)) apart.of_cons
      (hunk.position side + hunk.count side) fun other member =>
        Nat.le_of_lt (rel_of_pairwise_cons apart member)
    have here : (text.drop (hunk.position side)).Sublist (text.drop done) :=
      drop_sublist_drop_left _ (after hunk mem_cons_self)
    rw [flatMap_cons, (fits hunk mem_cons_self).shown]
    refine Sublist.trans ?_ here
    rw [← drop_drop] at rest
    calc (text.drop (hunk.position side)).take (hunk.count side) ++ _
        <+ (text.drop (hunk.position side)).take (hunk.count side) ++
            (text.drop (hunk.position side)).drop (hunk.count side) := rest.append_left _
      _ = text.drop (hunk.position side) := take_append_drop _ _

/-- Whole hunks of a diff, in the order in which they are written, precede each other on both sides. -/
private theorem ordered_pairwise_sides {texts : Side → List SideLine} {hunks : List Hunk}
    {prepared : PreparedFile} (direction : Direction) (described : Describes texts hunks)
    (chosen : (prepared.hunks.map PreparedHunk.hunk).Subperm hunks) (side : Side) :
    (prepared.ordered direction).Pairwise fun first second => first.hunk.Precedes side second.hunk := by
  have permuted := mergeSort_perm prepared.hunks (PreparedHunk.leads direction)
  have either : (prepared.hunks.map PreparedHunk.hunk).Pairwise fun first second =>
      (∀ side, first.Precedes side second) ∨ ∀ side, second.Precedes side first := by
    obtain ⟨sublist, same, within⟩ := chosen
    have both : hunks.Pairwise fun first second => ∀ side, first.Precedes side second := by
      refine ((described.apart .old).and (described.apart .new)).imp ?_
      rintro first second ⟨old, new⟩ (_ | _)
      · exact old
      · exact new
    exact (same.pairwise_iff Or.symm).mp ((both.sublist within).imp Or.inl)
  have apart : (prepared.ordered direction).Pairwise fun first second =>
      (∀ side, first.hunk.Precedes side second.hunk) ∨ ∀ side, second.hunk.Precedes side first.hunk :=
    (permuted.pairwise_iff Or.symm).mpr (pairwise_map.mp either)
  refine ((PreparedFile.ordered_pairwise direction described chosen).and apart).imp ?_
  rintro first second ⟨precedes, both | back⟩
  · exact both side
  · have follows := back direction.source
    simp only [Hunk.Precedes] at precedes follows
    omega

/-- However a file's hunks are selected from, they are refused just when on one side of the patch a
line follows one that ends it, and never when all of them are whole hunks of a diff. -/
theorem refuseStrandedEofMarkers_iff (prepared : PreparedFile) (direction : Direction) :
    (refuseStrandedEofMarkers prepared (prepared.plan direction) direction = .ok () ↔
        ∀ side, Unstranded side ((prepared.plan direction).flatMap (·.body direction))) ∧
      ((∀ hunk ∈ prepared.hunks, hunk.hunk.WellFormed) →
        (refuseStrandedEofMarkers prepared (prepared.plan direction) direction = .ok () ↔
          ∀ side, EndsLast ((prepared.plan direction).flatMap fun rendered =>
            sideLines side (rendered.body direction)))) ∧
      ∀ texts hunks, Describes texts hunks → (∀ side, EndsLast (texts side)) →
        (prepared.hunks.map PreparedHunk.hunk).Subperm hunks →
        (∀ hunk ∈ prepared.hunks, hunk.selectedLines = none) →
        refuseStrandedEofMarkers prepared (prepared.plan direction) direction = .ok () := by
  have members : ∀ {hunk}, hunk ∈ prepared.ordered direction ↔ hunk ∈ prepared.hunks :=
    (mergeSort_perm prepared.hunks (PreparedHunk.leads direction)).mem_iff
  have accepted := refuseStrandedEofMarkers_eq_ok prepared (prepared.ordered direction) direction
  have lines : (∀ hunk ∈ prepared.hunks, hunk.hunk.WellFormed) →
      (refuseStrandedEofMarkers prepared (prepared.plan direction) direction = .ok () ↔
        ∀ side, EndsLast (sideOf side direction (prepared.ordered direction))) := fun formed =>
    accepted.trans (forall_congr' (unstranded_iff_endsLast
      (fun hunk member => formed hunk (members.mp member)) direction))
  refine ⟨?_, ?_, ?_⟩
  · rw [PreparedFile.plan, flatMap_map]
    exact accepted
  · intro formed
    simp only [PreparedFile.plan, flatMap_map]
    exact lines formed
  · intro texts hunks described last chosen whole
    have among : ∀ hunk ∈ prepared.ordered direction, hunk.hunk ∈ hunks := fun hunk member =>
      chosen.subset (mem_map_of_mem (members.mp member))
    refine (lines fun hunk member => described.formed _ (among hunk (members.mpr member))).mpr fun side => ?_
    have shown : ∃ source, sideOf side direction (prepared.ordered direction) =
        ((prepared.ordered direction).map PreparedHunk.hunk).flatMap fun hunk =>
          sideLines source hunk.lines := by
      have each : ∀ hunk ∈ prepared.ordered direction, hunk = ⟨hunk.hunk, none⟩ := by
        intro hunk member
        rw [← whole hunk (members.mp member)]
      cases side with
      | old =>
        refine ⟨direction.source, ?_⟩
        rw [sideOf, flatMap_map]
        refine flatMap_congr fun hunk member => ?_
        rw [each hunk member]
        exact (sideLines_planHunk_whole (described.formed _ (among hunk member)) direction).1
      | new =>
        refine ⟨direction.source.other, ?_⟩
        rw [sideOf, flatMap_map]
        refine flatMap_congr fun hunk member => ?_
        rw [each hunk member]
        exact (sideLines_planHunk_whole (described.formed _ (among hunk member)) direction).2
    obtain ⟨source, shown⟩ := shown
    rw [shown]
    refine (last source).sublist (sideLines_sublist ?_ ?_)
    · exact forall_mem_map.mpr fun hunk member => described.fits _ (among hunk member) source
    · exact pairwise_map.mpr (ordered_pairwise_sides direction described chosen source)

/-- A line is appended to a file of one, both without a newline at the end. -/
def appendedUnended : Hunk where
  oldStart := 1
  oldLines := 1
  newStart := 1
  newLines := 2
  lines := [⟨.deletion, some 1, none, [97]⟩, ⟨.oldEofNoNewline, none, none, [10, 92, 10]⟩,
    ⟨.addition, none, some 1, [97, 10]⟩, ⟨.addition, none, some 2, [98]⟩,
    ⟨.newEofNoNewline, none, none, [10, 92, 10]⟩]

/-- Its file, with what is selected of the hunk. -/
def appendedFile (selectedLines : Option (List LineCoordinates)) : PreparedFile :=
  ⟨⟨some [97], some [97], "1", "2", 0o100644, 0o100644⟩, [⟨appendedUnended, selectedLines⟩]⟩

def unendedTexts : Side → List SideLine
  | .old => [⟨[97], true⟩]
  | .new => [⟨[97, 10], false⟩, ⟨[98], true⟩]

private theorem describes_appendedUnended : Describes unendedTexts [appendedUnended] where
  formed := by decide
  fits hunk member side := by
    rw [mem_singleton.mp member]
    cases side <;> exact ⟨by decide, by decide, by decide⟩
  apart side := pairwise_singleton ..
  bounded side := by cases side <;> decide

/-- Whole, the hunk can be written; its last line alone cannot. -/
theorem refuseStrandedEofMarkers_appendedUnended :
    refuseStrandedEofMarkers (appendedFile none)
        ((appendedFile none).plan .forward) .forward = .ok () ∧
      refuseStrandedEofMarkers (appendedFile (some [⟨none, some 2⟩]))
        ((appendedFile (some [⟨none, some 2⟩])).plan .forward) .forward ≠ .ok () := by
  constructor
  · refine (refuseStrandedEofMarkers_iff (appendedFile none) .forward).2.2
      unendedTexts [appendedUnended] describes_appendedUnended ?_ (Subperm.refl _) (by decide)
    intro side
    cases side <;> decide
  · intro accepted
    have stranded := (refuseStrandedEofMarkers_iff (appendedFile (some [⟨none, some 2⟩]))
      .forward).1.mp accepted .new
    have ordered : (appendedFile (some [⟨none, some 2⟩])).ordered .forward =
        [⟨appendedUnended, some [⟨none, some 2⟩]⟩] := mergeSort_singleton _
    rw [PreparedFile.plan, ordered] at stranded
    exact absurd stranded (by decide)

end Harkness.Git
