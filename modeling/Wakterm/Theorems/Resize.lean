import Wakterm.Mux.Logic.Cascade
import Wakterm.Mux.Logic.Relayout

/-!
# Resizing a tab

`resize` clamps the requested size up to the tree's minimum, but the passes that take cells from a
split only stop at one cell per child, not at the child's own minimum.
-/

namespace Wakterm.Theorems.Resize

open Wakterm.Mux Wakterm.Bintree Wakterm.Layout

/-- `resize` ends with the clamped size, and with a tree that is laid out for
it: the assertion of the debug build holds and every pane has a cell. -/
def KeepsLayout (tab : TabInner) (size : TerminalSize) : Prop :=
  ∃ root tab' root', tab.pane = some root ∧ tab.resize size = some tab' ∧
    tab'.pane = some root' ∧
    tab'.size.cols = max size.cols (computeMinSize root).1 ∧
    tab'.size.rows = max size.rows (computeMinSize root).2 ∧
    collectTreeInvariantErrors root' tab'.size = [] ∧ LaidOut root' tab'.size

/-- **Exactly when `resize` keeps the layout.** Sizes are within `isize`, in
which the code computes differences of sizes. -/
theorem resize_keepsLayout_iff {tab : TabInner} {root : PaneTree} {size : TerminalSize}
    (h : tab.Settled root) (hsize : ∀ ax, 1 ≤ size.cells ax)
    (hold : ∀ ax, tab.size.cells ax < 2 ^ 63) (hnew : ∀ ax, size.cells ax < 2 ^ 63) :
    KeepsLayout tab size ↔
      ∀ ax, Span.SparesAtOnce (tab.size.cells ax - (clampedSize root size).cells ax)
        (span ax root) := by
  obtain ⟨cs, hrun, _⟩ := TabInner.resizeImpl_unzoomed h.unzoomed h.pane h.tree.proper hsize true
  rw [← relaid_laidOut_iff h.tree h.laidOut hold hnew]
  constructor
  · rintro ⟨root₁, tab', root', hroot, hres, hroot', _, _, _, hlaid⟩
    cases hres.symm.trans hrun
    cases hroot'
    exact hlaid
  · intro hlaid
    refine ⟨root, _, _, h.pane, hrun, rfl, rfl, rfl, ?_, hlaid⟩
    rw [collectTreeInvariantErrors_eq_nil_iff]
    · exact hlaid.consistent
    · intro ax
      refine ((consistent_iff _ _).mp hlaid.consistent ax).below ?_
      exact clampedSize_lt (h.tree.least_lt h.laidOut hold) hnew ax

/-- A tab of 80 columns with two panes side by side. -/
def twoPanes : TabInner :=
  { TabInner.new 0 ⟨24, 80, 800, 600, 96⟩ with
    pane := some (.node (.leaf ⟨0, 0⟩) (.leaf ⟨1, 0⟩)
      (some ⟨.horizontal, ⟨24, 39, 390, 600, 96⟩, ⟨24, 40, 400, 600, 96⟩⟩)) }

/-- Halving the tab with two panes. -/
theorem resize_keepsLayout_twoPanes : KeepsLayout twoPanes ⟨12, 40, 400, 300, 96⟩ :=
  (resize_keepsLayout_iff ⟨rfl, rfl, ⟨.inr (by decide), by decide⟩, by decide⟩
    (forall_axis (by decide) (by decide)) (forall_axis (by decide) (by decide))
    (forall_axis (by decide) (by decide))).mpr (forall_axis (by decide) (by decide))

/-- Four panes in a row of 16 columns, three of them nested to the left. -/
def nestedRow : PaneTree :=
  .node
    (.node
      (.node (.leaf ⟨0, 0⟩) (.leaf ⟨1, 0⟩)
        (some ⟨.horizontal, ⟨24, 1, 10, 600, 96⟩, ⟨24, 1, 10, 600, 96⟩⟩))
      (.leaf ⟨2, 0⟩) (some ⟨.horizontal, ⟨24, 3, 30, 600, 96⟩, ⟨24, 1, 10, 600, 96⟩⟩))
    (.leaf ⟨3, 0⟩) (some ⟨.horizontal, ⟨24, 5, 50, 600, 96⟩, ⟨24, 10, 100, 600, 96⟩⟩)

/-- Shrinking the row to its minimum of seven columns takes four cells from the
left child, which needs all of its five. -/
theorem resize_breaks_nestedRow :
    ¬ ∀ (tab : TabInner) (root : PaneTree) (size : TerminalSize), tab.Settled root →
      (∀ ax, 1 ≤ size.cells ax) → KeepsLayout tab size := by
  intro hall
  let tab : TabInner := { TabInner.new 0 ⟨24, 16, 160, 600, 96⟩ with pane := some nestedRow }
  have hsettled : tab.Settled nestedRow :=
    ⟨rfl, rfl, ⟨.inr (by decide), by decide⟩, by decide⟩
  obtain ⟨_, tab', root', _, hres, hroot', _, _, _, hlaid⟩ :=
    hall tab nestedRow ⟨24, 7, 70, 600, 96⟩ hsettled (forall_axis (by decide) (by decide))
  have hval : ((tab.resize ⟨24, 7, 70, 600, 96⟩).bind fun tab' =>
      tab'.pane.map fun root' => decide (Consistent root' tab'.size)) = some false := by
    decide
  simp [hres, hroot', hlaid.consistent] at hval

end Wakterm.Theorems.Resize

/-!
## Moving dividers

`resize_split_by` and `adjust_pane_size` clamp the divider they move to one cell on either side,
whatever is nested there.
-/

namespace Wakterm.Theorems.Dividers

open Wakterm.Mux Wakterm.Bintree Wakterm.Layout

/-- The operation ends with the same tab size and a tree laid out for it. -/
def KeepsLayout (tab : TabInner) (result : Option TabInner) : Prop :=
  ∃ tab' root', result = some tab' ∧ tab'.pane = some root' ∧ tab'.size = tab.size ∧
    LaidOut root' tab'.size

/-- The split that `resize_split_by` addresses, if there is one, can move. An
empty tab has nothing to move, but index 0 still asks for the size of a cell. -/
def SplitCanMove (tab : TabInner) (root : PaneTree) (splitIndex : Nat) (delta : Int) : Prop :=
  (root = .empty → splitIndex = 0 → ∀ ax, 1 ≤ tab.size.cells ax) ∧
    ∀ s, (splitNodes root)[splitIndex]? = some s → CanMove s delta

/-- The nearest split in the direction around the active pane can move. -/
def PaneCanGrow (tab : TabInner) (root : PaneTree) (direction : SplitDirection)
    (delta : Int) : Prop :=
  tab.active < root.numLeaves →
    ∀ s, enclosingSplit direction root tab.active = some s → CanMove s delta

section

variable {tab : TabInner} {root : PaneTree}

theorem keepsLayout_same (h : tab.Settled root) {tab' : TabInner}
    (hpane : tab'.pane = some root) (hsize : tab'.size = tab.size) : KeepsLayout tab (some tab') :=
  ⟨tab', root, rfl, hpane, hsize, hsize ▸ h.laidOut⟩

theorem keepsLayout_moved_iff (h : tab.Settled root) (hfull : root.Full)
    (hrange : ∀ ax, tab.size.cells ax < 2 ^ 63) {l r : PaneTree}
    {d : Option SplitDirectionAndSize} {p : Path Pane SplitDirectionAndSize}
    (hplug : p.plug (.node l r d) = root) (delta : Int) :
    KeepsLayout tab ((tab.adjustNodeAtCursor ⟨.node l r d, p⟩ delta).bind
      tab.cascadeSizeFromCursor) ↔ CanMove (.node l r d) delta := by
  have htiled := (tiled_iff root tab.size).mpr ⟨hfull, h.tree.hasData, h.laidOut⟩
  have hnode := ((tiled_plug tab.size p _).mp (hplug ▸ htiled)).1
  obtain ⟨d, rfl⟩ := hnode.data
  obtain ⟨tab', root', hrun, hsize, hpane, hiff⟩ :=
    TabInner.cascade_adjustNode_iff htiled hrange hplug delta
  rw [← hiff, hrun]
  constructor
  · rintro ⟨_, root₁, htab, hroot₁, _, hlaid⟩
    cases htab
    cases hpane.symm.trans hroot₁
    exact hlaid
  · intro hlaid
    exact ⟨tab', root', rfl, hpane, hsize, hlaid⟩

theorem keepsLayout_empty_iff (h : tab.Settled .empty) (delta : Int) :
    KeepsLayout tab ((tab.adjustNodeAtCursor ⟨.empty, .top⟩ delta).bind
      tab.cascadeSizeFromCursor) ↔ ∀ ax, 1 ≤ tab.size.cells ax := by
  by_cases hsize : ∀ ax, 1 ≤ tab.size.cells ax
  · simp only [TabInner.adjustNodeAtCursor, cellDimensions_eq hsize, Option.bind_eq_bind,
      Option.bind_some]
    exact iff_of_true (keepsLayout_same h rfl rfl) hsize
  · simp only [TabInner.adjustNodeAtCursor, cellDimensions_eq_none hsize,
      Option.bind_eq_bind, Option.bind_none]
    exact iff_of_false (by rintro ⟨_, _, hnone, _⟩; cases hnone) hsize

theorem resizeSplitBy_iff (h : tab.Settled root) (hrange : ∀ ax, tab.size.cells ax < 2 ^ 63)
    (splitIndex : Nat) (delta : Int) : KeepsLayout tab (tab.resizeSplitBy splitIndex delta) ↔
      SplitCanMove tab root splitIndex delta := by
  have hseek := @Cursor.seek_of_visits _ _ (fun c => !c.isLeaf) splitIndex _ _
    (visits_preorder root h.tree.proper) root.numNodes 0
    (Nat.le_of_eq (BinTree.length_preorderCursors root .top)) (Nat.zero_le _)
  rw [Nat.sub_zero] at hseek
  simp only [TabInner.resizeSplitBy, h.unzoomed, Option.isSome_none, Bool.false_eq_true,
    if_false, h.pane, Option.bind_eq_bind, Option.bind_some]
  cases hc : ((root.preorderCursors .top).filter fun c => !c.isLeaf)[splitIndex]? with
  | none =>
    rw [hc] at hseek
    obtain ⟨e, hseek, he⟩ := hseek
    rw [hseek, Option.bind_some]
    refine iff_of_true (keepsLayout_same h (congrArg some he) rfl) ⟨?_, ?_⟩
    · rintro rfl rfl
      simp [BinTree.preorderCursors, Cursor.isLeaf] at hc
    · intro s hs
      rcases h.tree.proper with rfl | hfull
      · simp [splitNodes] at hs
      · rw [← it_splitCursors root hfull .top, List.getElem?_map, hc] at hs
        cases hs
  | some c =>
    rw [hc] at hseek
    rw [hseek, Option.bind_some]
    have hmem := List.mem_of_getElem? hc
    rcases h.tree.proper with rfl | hfull
    · -- an empty tree has one position, with index 0
      have hnil : (BinTree.preorderCursors (.empty : PaneTree) .top).filter
          (fun c => !c.isLeaf) = [⟨.empty, .top⟩] := rfl
      rw [hnil] at hc hmem
      obtain rfl := List.mem_singleton.mp hmem
      have hzero : splitIndex = 0 := by
        have := (List.getElem?_eq_some_iff.mp hc).1
        simpa using this
      refine (keepsLayout_empty_iff h delta).trans ?_
      constructor
      · exact fun hsize => ⟨fun _ _ => hsize, by simp [splitNodes]⟩
      · exact fun hmove => hmove.1 rfl hzero
    · have hit : (splitNodes root)[splitIndex]? = some c.it := by
        rw [← it_splitCursors root hfull .top, List.getElem?_map, hc]
        rfl
      obtain ⟨hmem, hleaf⟩ := List.mem_filter.mp hmem
      have hplug := BinTree.tree_of_mem_preorderCursors root .top c hmem
      rw [Cursor.tree_eq_plug] at hplug
      obtain ⟨l, r, d, hnode⟩ := exists_of_mem_splitNodes (List.mem_of_getElem? hit)
      obtain ⟨it, p⟩ := c
      subst hnode
      refine (keepsLayout_moved_iff h hfull hrange hplug delta).trans ?_
      constructor
      · intro hmove
        refine ⟨fun hempty => absurd hfull (by rw [hempty]; exact id), fun s hs => ?_⟩
        cases hit.symm.trans hs
        exact hmove
      · exact fun hmove => hmove.2 _ hit

theorem adjustPaneSize_iff (h : tab.Settled root) (hrange : ∀ ax, tab.size.cells ax < 2 ^ 63)
    {direction : PaneDirection} {amount : Nat} {splitDirection : SplitDirection} {delta : Int}
    (hreq : TabInner.adjustRequest direction amount = some (splitDirection, delta)) :
    KeepsLayout tab (tab.adjustPaneSize direction amount) ↔
      PaneCanGrow tab root splitDirection delta := by
  have hseek := BinTree.goToNthLeaf_cursor root h.tree.proper tab.active
  have hlen := BinTree.length_leafCursors root .top
  simp only [TabInner.adjustPaneSize, h.unzoomed, Option.isSome_none, Bool.false_eq_true,
    if_false, h.pane, Option.bind_eq_bind, Option.bind_some, hreq]
  simp only [Cursor.goToNthLeaf, BinTree.cursor, Cursor.tree_eq_plug, Path.plug] at hseek
  cases hc : ((root.preorderCursors .top).filter Cursor.isLeaf)[tab.active]? with
  | none =>
    rw [hc] at hseek
    obtain ⟨e, hseek, he⟩ := hseek
    rw [BinTree.cursor, hseek, Option.bind_some]
    refine iff_of_true (keepsLayout_same h ?_ rfl) fun hlt => ?_
    · exact congrArg some ((Cursor.tree_eq_plug e).trans he)
    · rw [List.getElem?_eq_none_iff] at hc
      omega
  | some c =>
    rw [hc] at hseek
    rw [BinTree.cursor, hseek, Option.bind_some]
    have hlt : tab.active < root.numLeaves := by
      rw [← hlen]
      exact (List.getElem?_eq_some_iff.mp hc).1
    have hfull : root.Full := by
      rcases h.tree.proper with rfl | hfull
      · simp [BinTree.numLeaves] at hlt
      · exact hfull
    rcases climbToSplit_leaf splitDirection root .top tab.active c hc with
      ⟨s, q, hs, hclimb, hplug⟩ | ⟨hnone, hclimb⟩
    · obtain ⟨l, r, d, rfl⟩ := exists_of_enclosingSplit hs
      simp only [hclimb]
      refine (keepsLayout_moved_iff h hfull hrange hplug delta).trans ?_
      constructor
      · intro hmove _ s' hs'
        cases hs.symm.trans hs'
        exact hmove
      · exact fun hmove => hmove hlt _ hs
    · simp only [hclimb]
      refine iff_of_true (keepsLayout_same h rfl rfl) fun _ s hs => ?_
      rw [hnone] at hs
      cases hs

/-- **Exactly when moving a divider keeps the layout**, for `resize_split_by` at
every split and delta, and for `adjust_pane_size` in every direction by every
amount. Sizes are within `isize`, in which the code clamps the divider. -/
theorem dividers_keepLayout_iff (h : tab.Settled root) (hrange : ∀ ax, tab.size.cells ax < 2 ^ 63) :
    (∀ splitIndex delta, KeepsLayout tab (tab.resizeSplitBy splitIndex delta) ↔
      SplitCanMove tab root splitIndex delta) ∧ ∀ direction amount splitDirection delta,
      TabInner.adjustRequest direction amount = some (splitDirection, delta) →
      (KeepsLayout tab (tab.adjustPaneSize direction amount) ↔
        PaneCanGrow tab root splitDirection delta) :=
  ⟨fun _ _ => resizeSplitBy_iff h hrange _ _, fun _ _ _ _ hreq =>
    adjustPaneSize_iff h hrange hreq⟩

end

/-- Three panes in a row of 80 columns, two of them nested to the right. -/
def threeInRow : TabInner :=
  { TabInner.new 0 ⟨24, 80, 800, 600, 96⟩ with
    pane := some (.node (.leaf ⟨0, 0⟩)
      (.node (.leaf ⟨1, 0⟩) (.leaf ⟨2, 0⟩)
        (some ⟨.horizontal, ⟨24, 20, 200, 600, 96⟩, ⟨24, 18, 180, 600, 96⟩⟩))
      (some ⟨.horizontal, ⟨24, 40, 400, 600, 96⟩, ⟨24, 39, 390, 600, 96⟩⟩)) }

/-- The outer divider moved to the left, and then by growing the first pane. -/
theorem dividers_keepLayout_threeInRow : KeepsLayout threeInRow (threeInRow.resizeSplitBy 0 (-5)) ∧
      KeepsLayout threeInRow (threeInRow.adjustPaneSize .right 17) := by
  have h := @dividers_keepLayout_iff threeInRow _
    ⟨rfl, rfl, ⟨.inr (by decide), by decide⟩, by decide⟩ (forall_axis (by decide) (by decide))
  refine ⟨(h.1 0 (-5)).mpr ⟨nofun, ?_⟩, (h.2 .right 17 .horizontal 17 (by decide)).mpr ?_⟩
  · rintro s ⟨⟩
    exact ⟨by decide, by decide⟩
  · rintro _ s ⟨⟩
    exact ⟨by decide, by decide⟩

/-- Moved by 25 columns to the right, the divider leaves 14 to a split whose
first child keeps its 20. -/
theorem dividers_break_threeInRow : ¬ ∀ (tab : TabInner) (root : PaneTree), tab.Settled root →
      (∀ splitIndex delta, KeepsLayout tab (tab.resizeSplitBy splitIndex delta)) ∧
      ∀ direction amount, direction ∈ [PaneDirection.left, .right, .up, .down] →
        KeepsLayout tab (tab.adjustPaneSize direction amount) := by
  intro hall
  obtain ⟨tab', root', hres, hroot', _, hlaid⟩ := (hall threeInRow _
    ⟨rfl, rfl, ⟨.inr (by decide), by decide⟩, by decide⟩).1 0 25
  have hval : ((threeInRow.resizeSplitBy 0 25).bind fun tab' =>
      tab'.pane.map fun root' => decide (LaidOut root' tab'.size)) = some false := by
    decide
  simp [hres, hroot', hlaid] at hval

end Wakterm.Theorems.Dividers
