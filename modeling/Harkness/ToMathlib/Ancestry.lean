import Mathlib.Data.List.Nodup
import Mathlib.Data.List.Perm.Subperm
import Mathlib.Logic.Relation

/-! # Listing an ancestry in pieces

In a graph whose nodes name their parents, a listing of what some starting nodes reach and a hidden
node does not is cut after any of its nodes. What is still to come is then again such a listing, of
the nodes reached from a frontier: the starts and the parents of what is listed, less what is listed.
-/

namespace Ancestry

variable {α : Type*} (parents : α → List α)

/-- The second node is the first or one of its ancestors. -/
def Reaches : α → α → Prop := Relation.ReflTransGen fun child parent => parent ∈ parents child

def ReachedFrom (starts : List α) (node : α) : Prop := ∃ start ∈ starts, Reaches parents start node

/-- Reached from a start and not from the hidden node. -/
def Within (starts : List α) (hidden : Option α) (node : α) : Prop :=
  ReachedFrom parents starts node ∧ ¬ ReachedFrom parents hidden.toList node

/-- No node comes at or before a child of its own. -/
structure ChildrenFirst (nodes : List α) : Prop where
  later : nodes.Pairwise fun earlier later => earlier ∉ parents later
  self : ∀ node ∈ nodes, node ∉ parents node

/-- Every node within the bounds once, children before parents. -/
structure Listing (starts : List α) (hidden : Option α) (nodes : List α) : Prop where
  nodup : nodes.Nodup
  mem_iff : ∀ node, node ∈ nodes ↔ Within parents starts hidden node
  childrenFirst : ChildrenFirst parents nodes

variable {parents} {starts frontier listed nodes : List α} {hidden : Option α} {node other start : α}

theorem Reaches.trans (first : Reaches parents start node) (second : Reaches parents node other) :
    Reaches parents start other :=
  Relation.ReflTransGen.trans first second

theorem Reaches.parent (edge : other ∈ parents node) : Reaches parents node other :=
  Relation.ReflTransGen.single edge

theorem ReachedFrom.trans (first : ReachedFrom parents starts node)
    (second : Reaches parents node other) : ReachedFrom parents starts other := by
  obtain ⟨start, member, path⟩ := first
  exact ⟨start, member, path.trans second⟩

theorem ChildrenFirst.tail (sorted : ChildrenFirst parents (node :: nodes)) :
    ChildrenFirst parents nodes :=
  ⟨sorted.later.of_cons, fun other member => sorted.self other (List.mem_cons_of_mem _ member)⟩

/-- The first of a listing has no child in it. -/
theorem ChildrenFirst.not_mem_parents (sorted : ChildrenFirst parents (node :: nodes))
    (member : other ∈ node :: nodes) : node ∉ parents other := by
  rcases List.mem_cons.mp member with rfl | behind
  · exact sorted.self _ member
  · exact List.rel_of_pairwise_cons sorted.later behind

theorem ChildrenFirst.append (first : ChildrenFirst parents listed)
    (second : ChildrenFirst parents nodes)
    (apart : ∀ earlier ∈ listed, ∀ later ∈ nodes, earlier ∉ parents later) :
    ChildrenFirst parents (listed ++ nodes) := by
  refine ⟨List.pairwise_append.mpr ⟨first.later, second.later, apart⟩, ?_⟩
  intro node member
  rcases List.mem_append.mp member with early | late
  · exact first.self node early
  · exact second.self node late

/-- Only a start that is the first of its listing reaches it. -/
theorem Listing.eq_of_reaches (listing : Listing parents starts hidden (node :: nodes))
    (member : start ∈ starts) (path : Reaches parents start node) : start = node := by
  obtain ⟨-, unconcealed⟩ := (listing.mem_iff node).mp (List.mem_cons_self ..)
  rcases Relation.ReflTransGen.cases_tail path with rfl | ⟨child, upper, edge⟩
  · rfl
  · -- A child on the way would be in the listing, and not before the first.
    have within : Within parents starts hidden child :=
      ⟨⟨start, member, upper⟩, fun concealed => unconcealed (concealed.trans (.parent edge))⟩
    exact absurd edge (listing.childrenFirst.not_mem_parents ((listing.mem_iff child).mpr within))

theorem Listing.head_mem (listing : Listing parents starts hidden (node :: nodes)) :
    node ∈ starts := by
  obtain ⟨⟨start, member, path⟩, -⟩ := (listing.mem_iff node).mp (List.mem_cons_self ..)
  rw [← listing.eq_of_reaches member path]
  exact member

section Advance

variable [DecidableEq α]

/-- The parents that are not pending yet, after those that are. -/
def pushNew (pending : List α) (more : List α) : List α :=
  more.foldl (fun pending parent => if parent ∈ pending then pending else pending ++ [parent]) pending

theorem mem_pushNew {pending more : List α} : node ∈ pushNew pending more ↔
    node ∈ pending ∨ node ∈ more := by
  induction more generalizing pending with
  | nil => simp [pushNew]
  | cons parent more ih =>
    rw [pushNew, List.foldl_cons, ← pushNew, ih]
    split_ifs with known
    · rw [List.mem_cons]
      constructor
      · rintro (old | new)
        · exact .inl old
        · exact .inr (.inr new)
      · rintro (old | rfl | new)
        · exact .inl old
        · exact .inl known
        · exact .inr new
    · simp only [List.mem_append, List.mem_cons, List.not_mem_nil, or_false, or_assoc]

theorem nodup_pushNew {pending more : List α} (nodup : pending.Nodup) :
    (pushNew pending more).Nodup := by
  induction more generalizing pending with
  | nil => exact nodup
  | cons parent more ih =>
    rw [pushNew, List.foldl_cons, ← pushNew]
    apply ih
    split_ifs with known
    · exact nodup
    · exact nodup.append (List.nodup_singleton _) (List.disjoint_singleton.mpr known)

/-- The frontier after one of its nodes is listed. -/
def advance (parents : α → List α) (frontier : List α) (node : α) : List α :=
  pushNew (frontier.erase node) (parents node)

theorem mem_advance (nodup : frontier.Nodup) : other ∈ advance parents frontier node ↔
    (other ≠ node ∧ other ∈ frontier) ∨ other ∈ parents node := by
  rw [advance, mem_pushNew, nodup.mem_erase_iff]

theorem nodup_advance (nodup : frontier.Nodup) : (advance parents frontier node).Nodup :=
  nodup_pushNew (nodup.erase _)

/-- An advanced frontier reaches what the old one did, less at most the node listed. -/
theorem reachedFrom_advance (nodup : frontier.Nodup) (member : node ∈ frontier) :
    ReachedFrom parents frontier other ↔
      other = node ∨ ReachedFrom parents (advance parents frontier node) other := by
  constructor
  · rintro ⟨start, pending, path⟩
    by_cases same : start = node
    · subst same
      rcases Relation.ReflTransGen.cases_head path with rfl | ⟨parent, edge, rest⟩
      · exact .inl rfl
      · exact .inr ⟨parent, (mem_advance nodup).mpr (.inr edge), rest⟩
    · exact .inr ⟨start, (mem_advance nodup).mpr (.inl ⟨same, pending⟩), path⟩
  · rintro (rfl | ⟨start, pending, path⟩)
    · exact ⟨other, member, .refl⟩
    · rcases (mem_advance nodup).mp pending with ⟨-, old⟩ | edge
      · exact ⟨start, old, path⟩
      · exact ⟨node, member, (Reaches.parent edge).trans path⟩

/-- The node just listed is out of reach. -/
theorem Listing.not_reachedFrom_advance (listing : Listing parents frontier hidden (node :: nodes))
    (nodup : frontier.Nodup) : ¬ ReachedFrom parents (advance parents frontier node) node := by
  rintro ⟨start, pending, path⟩
  have first := List.mem_cons_self (a := node) (l := nodes)
  obtain ⟨-, unconcealed⟩ := (listing.mem_iff node).mp first
  -- Whatever leads back to the node ends with a child of it within the bounds.
  have childless : ∀ child, ReachedFrom parents frontier child → node ∉ parents child := by
    intro child reached edge
    have inside : Within parents frontier hidden child :=
      ⟨reached, fun concealed => unconcealed (concealed.trans (.parent edge))⟩
    exact listing.childrenFirst.not_mem_parents ((listing.mem_iff child).mpr inside) edge
  have reached : ∀ {upper}, Reaches parents start upper → ReachedFrom parents frontier upper := by
    intro upper above
    exact (reachedFrom_advance nodup listing.head_mem).mpr (.inr ⟨start, pending, above⟩)
  rcases Relation.ReflTransGen.cases_tail path with rfl | ⟨child, above, edge⟩
  · rcases (mem_advance nodup).mp pending with ⟨other, -⟩ | loop
    · exact other rfl
    · exact listing.childrenFirst.self _ first loop
  · exact childless child (reached above) edge

/-- The rest of a listing is a listing from the advanced frontier. -/
theorem Listing.tail (listing : Listing parents frontier hidden (node :: nodes))
    (nodup : frontier.Nodup) : Listing parents (advance parents frontier node) hidden nodes := by
  obtain ⟨fresh, rest⟩ := List.nodup_cons.mp listing.nodup
  refine ⟨rest, fun other => ?_, listing.childrenFirst.tail⟩
  have whole := listing.mem_iff other
  rw [List.mem_cons, Within, reachedFrom_advance nodup listing.head_mem] at whole
  constructor
  · intro member
    obtain ⟨rfl | reached, unconcealed⟩ := whole.mp (.inr member)
    · exact absurd member fresh
    · exact ⟨reached, unconcealed⟩
  · rintro ⟨reached, unconcealed⟩
    rcases whole.mpr ⟨.inr reached, unconcealed⟩ with rfl | member
    · exact absurd reached (listing.not_reachedFrom_advance nodup)
    · exact member

end Advance

/-- What is listed and the frontier together cover the bounds, and nothing listed is ahead. -/
structure Underway (parents : α → List α) (starts : List α) (hidden : Option α)
    (listed frontier : List α) : Prop where
  nodup : listed.Nodup
  pending : frontier.Nodup
  childrenFirst : ChildrenFirst parents listed
  covers : ∀ node, Within parents starts hidden node ↔
    node ∈ listed ∨ Within parents frontier hidden node
  behind : ∀ node ∈ listed, ¬ ReachedFrom parents frontier node

theorem Underway.begin_ (first : α) (hidden : Option α) :
    Underway parents [first] hidden [] [first] :=
  ⟨List.nodup_nil, List.nodup_singleton _, ⟨.nil, nofun⟩, fun node => by simp, nofun⟩

theorem Underway.step [DecidableEq α] (underway : Underway parents starts hidden listed frontier)
    (listing : Listing parents frontier hidden (node :: nodes)) :
    Underway parents starts hidden (listed ++ [node]) (advance parents frontier node) := by
  have first := (listing.mem_iff node).mp (List.mem_cons_self ..)
  have split : ∀ other, ReachedFrom parents frontier other ↔
      other = node ∨ ReachedFrom parents (advance parents frontier node) other :=
    fun other => reachedFrom_advance underway.pending listing.head_mem
  refine ⟨?_, nodup_advance underway.pending, ?_, fun other => ?_, fun other member => ?_⟩
  · have fresh : node ∉ listed := fun member => underway.behind node member first.1
    exact underway.nodup.append (List.nodup_singleton _) (List.disjoint_singleton.mpr fresh)
  · refine underway.childrenFirst.append ⟨List.pairwise_singleton _ _, ?_⟩ ?_
    · simpa using listing.childrenFirst.self node (List.mem_cons_self ..)
    · intro earlier member later last edge
      obtain rfl := List.mem_singleton.mp last
      exact underway.behind earlier member (first.1.trans (.parent edge))
  · rw [underway.covers other, List.mem_append, List.mem_singleton, or_assoc]
    refine or_congr_right ?_
    rw [Within, split other]
    constructor
    · rintro ⟨rfl | reached, unconcealed⟩
      · exact .inl rfl
      · exact .inr ⟨reached, unconcealed⟩
    · rintro (rfl | ⟨reached, unconcealed⟩)
      · exact ⟨.inl rfl, first.2⟩
      · exact ⟨.inr reached, unconcealed⟩
  · rcases List.mem_append.mp member with old | last
    · exact fun reached => underway.behind other old ((split other).mpr (.inr reached))
    · obtain rfl := List.mem_singleton.mp last
      exact listing.not_reachedFrom_advance underway.pending

/-- With nothing left to come, what is listed is the whole. -/
theorem Underway.listing (underway : Underway parents starts hidden listed frontier)
    (over_ : Listing parents frontier hidden []) : Listing parents starts hidden listed := by
  refine ⟨underway.nodup, fun node => ?_, underway.childrenFirst⟩
  rw [underway.covers node, ← over_.mem_iff node]
  simp

/-- As long as something is to come, less than the whole is listed. -/
theorem Underway.length_lt (underway : Underway parents starts hidden listed frontier)
    (listing : Listing parents frontier hidden (node :: nodes))
    {whole : List α} (complete : Listing parents starts hidden whole) :
    listed.length < whole.length := by
  have first := (listing.mem_iff node).mp (List.mem_cons_self ..)
  have fresh : node ∉ listed := fun member => underway.behind node member first.1
  have inside : node :: listed ⊆ whole := by
    intro other member
    rw [complete.mem_iff, underway.covers]
    rcases List.mem_cons.mp member with rfl | old
    · exact .inr first
    · exact .inl old
  exact ((List.nodup_cons.mpr ⟨fresh, underway.nodup⟩).subperm inside).length_le

end Ancestry
