import Wakterm.Mux.Logic.RemoveExact
import Wakterm.Mux.Logic.RemoveSizes
import Wakterm.Mux.Logic.TabOps
import Wakterm.Mux.Logic.Zoom

/-!
# Zooming and the layout

While a pane is zoomed the tab's size follows the window and the tree stays behind.
-/

namespace Wakterm.Theorems.Zoom

open Wakterm.Mux Wakterm.Bintree

/-- A tab with a zoomed pane over a tree laid out for `laid`. -/
structure ZoomedOver (tab : TabInner) (root : PaneTree) (z : Pane) (laid : TerminalSize) :
    Prop where
  zoomed : tab.zoomed = some z
  pane : tab.pane = some root
  tree : SplitTree root
  consistent : Consistent root laid
  mem : z ∈ root.leaves
  distinct : (root.leaves.map (·.paneId)).Nodup
  size : ∀ ax, 1 ≤ tab.size.cells ax

variable {tab : TabInner} {root : PaneTree} {z : Pane} {laid : TerminalSize}

theorem ZoomedOver.full (h : ZoomedOver tab root z laid) : root.Full := by
  refine h.tree.proper.resolve_left ?_
  rintro rfl
  exact nomatch h.mem

/-- Un-zooming after any resizes gives what the last of them alone makes of the
tab without the zoom. -/
def UnzoomsAlike (tab : TabInner) (laid : TerminalSize) : Prop :=
  ∀ (sizes : List TerminalSize) (last : TerminalSize),
    (∀ size ∈ sizes ++ [last], ∀ ax, 1 ≤ size.cells ax) →
    ∃ resized unzoomed plain, tab.resizeAll (sizes ++ [last]) = some resized ∧
      resized.toggleZoom = some unzoomed ∧
      { tab with zoomed := none, size := laid }.resize last = some plain ∧
      unzoomed.pane = plain.pane ∧ unzoomed.size = plain.size

/-- Removing the zoomed pane leaves a tree that is consistent with the tab. -/
def RemovalConsistent (tab : TabInner) (z : Pane) : Prop :=
  ∃ pane tab' root', tab.removePane z.paneId = some (pane, tab') ∧
    tab'.pane = some root' ∧ Consistent root' tab'.size

/-! ## Un-zooming -/

theorem unzoomsAlike_iff_relaid (hz : tab.zoomed = some z) (hroot : tab.pane = some root)
    (hp : root.Proper) (laid : TerminalSize) :
    UnzoomsAlike tab laid ↔ ∀ size : TerminalSize, (∀ ax, 1 ≤ size.cells ax) →
      relaid root tab.sizeBeforeZoom size = relaid root laid size := by
  have hplain := fun size hsize => @TabInner.resizeImpl_unzoomed
    { tab with zoomed := none, size := laid } root rfl hroot hp size hsize true
  constructor
  · intro h size hsize
    obtain ⟨resized, unzoomed, plain, hrun, htoggle, hresize, hpane, -⟩ :=
      h [] size (by simpa using hsize)
    rw [TabInner.resizeAll_zoomed _ hz (by simpa using hsize)] at hrun
    cases hrun
    obtain ⟨calls, htoggle'⟩ := @TabInner.toggleZoom_zoomed
      { tab with size := size, calls := tab.calls ++ [PaneCall.resize z size] }
      root z hz hroot hp hsize
    obtain ⟨cs, hplain', -⟩ := hplain size hsize
    cases htoggle'.symm.trans htoggle
    cases hplain'.symm.trans hresize
    exact Option.some.inj hpane
  · intro h sizes last hsizes
    have hlast : ∀ ax, 1 ≤ last.cells ax := hsizes last (by simp)
    obtain ⟨calls, htoggle⟩ := @TabInner.toggleZoom_zoomed
      { tab with
        size := last
        calls := tab.calls ++ (sizes ++ [last]).map (.resize z) } root z hz hroot hp hlast
    obtain ⟨cs, hplain', -⟩ := hplain last hlast
    have hrun := TabInner.resizeAll_zoomed (sizes ++ [last]) hz hsizes
    rw [List.getLast?_concat, Option.getD_some] at hrun
    exact ⟨_, _, _, hrun, htoggle, hplain', congrArg some (h last hlast), rfl⟩

theorem toggleZoom_unzoomsAlike {zoomed : TabInner} (hunzoomed : tab.zoomed = none)
    (hroot : tab.pane = some root) (htree : SplitTree root) (hrun : tab.toggleZoom = some zoomed)
    (hz : zoomed.zoomed = some z) : UnzoomsAlike zoomed tab.size := by
  rw [TabInner.toggleZoom_unzoomed hunzoomed hroot htree.proper, Option.some.injEq] at hrun
  cases hleaf : root.leaves[tab.active]? with
  | none =>
    rw [hleaf] at hrun
    subst hrun
    rw [hunzoomed] at hz
    cases hz
  | some x =>
    rw [hleaf] at hrun
    subst hrun
    exact (unzoomsAlike_iff_relaid hz hroot htree.proper tab.size).mpr fun _ _ => rfl

/-! ## Removing the zoomed pane -/

theorem consistent_iff_of_filled {t : PaneTree} (h : Filled 0 t laid) (a : TerminalSize) :
    Consistent t a ↔ (∀ ax, a.cells ax = laid.cells ax) ∨ t.numLeaves ≤ 1 := by
  obtain ⟨hfull, hdata, hcons⟩ := (filled_zero_iff t laid).mp h
  cases t with
  | empty => exact h.elim
  | leaf x => exact iff_of_true trivial (.inr le_rfl)
  | node l r d =>
    cases d with
    | none => exact h.elim
    | some d =>
      have hl := hfull.1.numLeaves_pos
      have hr := hfull.2.numLeaves_pos
      have hmany : ¬ (BinTree.node l r (some d)).numLeaves ≤ 1 := by
        simp only [BinTree.numLeaves]
        omega
      constructor
      · intro hc
        obtain ⟨h1, h2, -⟩ := (d.fits_iff a).mp hc.1
        obtain ⟨h1', h2', -⟩ := (d.fits_iff laid).mp hcons.1
        refine .inl fun ax => ?_
        rcases axis_eq_or ax d.direction.axis with rfl | rfl
        · rw [← h1, h1']
        · rw [← h2, h2']
      · intro hcells
        have hcells := hcells.resolve_right hmany
        exact ⟨hcons.1.of_cells fun ax => (hcells ax).symm, hcons.2⟩

theorem countP_paneId_eq_one {xs : List Pane} (h : (xs.map (·.paneId)).Nodup) (hz : z ∈ xs) :
    xs.countP (fun x => x.paneId = z.paneId) = 1 := by
  have hcount := List.count_eq_one_of_mem h (List.mem_map_of_mem hz)
  rw [List.count, List.countP_map] at hcount
  rw [← hcount]
  exact List.countP_congr fun x _ => by simp

theorem removalConsistent_iff (h : ZoomedOver tab root z laid)
    (hrange : ∀ ax, laid.cells ax < 2 ^ 63) : RemovalConsistent tab z ↔
      (∀ ax, tab.size.cells ax = laid.cells ax) ∨ root.numLeaves ≤ 2 := by
  have hone := countP_paneId_eq_one h.distinct h.mem
  have hfull := h.full
  have hfilled := (filled_zero_iff root laid).mpr ⟨hfull, h.tree.hasData, h.consistent⟩
  obtain ⟨s, t, hrun, hleaves, -⟩ := TabInner.removeLoop_exact h.tree
    (@walkOk_of_countP_le_one _ _ false hone.le) tab tab.size (cellOf tab.size)
    (tab.zoomed.map (·.paneId))
  have hremoved : tab.removePane z.paneId = some (s.deadPanes.head?, tab.afterRemoval s t) := by
    simp only [TabInner.removePane, TabInner.removePaneIf_eq_some_iff.mpr
      ⟨root, s, t, h.pane, h.size, hrun, rfl, rfl⟩, Option.bind_eq_bind, Option.bind_some]
  have hnum : t.numLeaves + 1 = root.numLeaves := by
    have hlen := List.length_eq_countP_add_countP (fun x : Pane => decide (x.paneId = z.paneId))
      (l := root.leaves)
    rw [hone] at hlen
    rw [← BinTree.length_leaves, ← BinTree.length_leaves, hlen, hleaves,
      ← List.countP_eq_length_filter, Nat.add_comm]
    congr 1
    exact List.countP_congr fun x _ => by simp
  have hcons : RemovalConsistent tab z ↔ Consistent t tab.size := by
    constructor
    · rintro ⟨_, _, _, hrun', hpane, hc⟩
      cases hremoved.symm.trans hrun'
      cases hpane
      exact hc
    · exact fun hc => ⟨_, _, t, hremoved, rfl, hc⟩
  rw [hcons]
  rcases TabInner.removeLoop_filled hrange (.inr hfilled) hrun with rfl | hfilled'
  · exact iff_of_true trivial (.inr (by simp [BinTree.numLeaves] at hnum; omega))
  · rw [consistent_iff_of_filled hfilled']
    exact or_congr_right (by omega)

/-- **Exactly when zooming is transparent**: `size_before_zoom` is the size the
tree is laid out for, on every axis that is divided, and so is the tab's size,
unless at most one pane remains without the zoomed one. -/
theorem zoom_transparent_iff {tab : TabInner} {root : PaneTree} {z : Pane}
    {laid : TerminalSize} (h : ZoomedOver tab root z laid) (hpanes : root.numLeaves < 2 ^ 59)
    (hlaid : ∀ ax, laid.cells ax < 2 ^ 61) (hbefore : ∀ ax, tab.sizeBeforeZoom.cells ax < 2 ^ 61) :
    UnzoomsAlike tab laid ∧ RemovalConsistent tab z ↔ AgreeAlong root tab.sizeBeforeZoom laid ∧
        ((∀ ax, tab.size.cells ax = laid.cells ax) ∨ root.numLeaves ≤ 2) := by
  have hfull := h.full
  have hleast : ∀ ax, (span ax root).least < 2 ^ 60 := fun ax => by
    have := least_span_lt ax hfull
    omega
  rw [unzoomsAlike_iff_relaid h.zoomed h.pane h.tree.proper,
    relaid_eq_iff h.tree.hasData h.consistent hleast hlaid hbefore,
    removalConsistent_iff h fun ax => (hlaid ax).trans (by decide)]

/-- Three panes in a row of 80 columns. -/
def row : PaneTree :=
  .node (.leaf ⟨0, 0⟩)
    (.node (.leaf ⟨1, 0⟩) (.leaf ⟨2, 0⟩)
      (some ⟨.horizontal, ⟨24, 19, 190, 600, 96⟩, ⟨24, 20, 200, 600, 96⟩⟩))
    (some ⟨.horizontal, ⟨24, 39, 390, 600, 96⟩, ⟨24, 40, 400, 600, 96⟩⟩)

/-- The first of them zoomed. -/
def zoomedRow : TabInner :=
  { TabInner.new 0 ⟨24, 80, 800, 600, 96⟩ with
    pane := some row
    zoomed := some ⟨0, 0⟩ }

theorem zoomedOver_zoomedRow (size : TerminalSize) (hsize : ∀ ax, 1 ≤ size.cells ax) :
    ZoomedOver { zoomedRow with size := size } row ⟨0, 0⟩ ⟨24, 80, 800, 600, 96⟩ :=
  ⟨rfl, rfl, ⟨.inr ⟨trivial, trivial, trivial⟩, by decide⟩, by decide, by decide, by decide,
    hsize⟩

/-- Zoomed and not resized, all is well. -/
theorem zoom_transparent_zoomedRow :
    UnzoomsAlike zoomedRow ⟨24, 80, 800, 600, 96⟩ ∧ RemovalConsistent zoomedRow ⟨0, 0⟩ :=
  (zoom_transparent_iff (zoomedOver_zoomedRow ⟨24, 80, 800, 600, 96⟩
    (forall_axis (by decide) (by decide))) (by decide) (forall_axis (by decide) (by decide))
    (forall_axis (by decide) (by decide))).mpr ⟨fun _ _ => rfl, .inl fun _ => rfl⟩

/-- The entry a server sends for one pane of the row. -/
def rowEntry (paneId : PaneId) (cols leftCol : Nat) (isZoomedPane : Bool) : PaneEntry :=
  ⟨0, 0, paneId, ⟨24, cols, cols * 10, 600, 96⟩, isZoomedPane, isZoomedPane, "default", 0,
    leftCol⟩

/-- What it sends for the row, the first pane zoomed. -/
def rowNode : PaneNode :=
  .split (.leaf (rowEntry 0 39 0 true))
    (.split (.leaf (rowEntry 1 19 40 false)) (.leaf (rowEntry 2 20 60 false))
      ⟨.horizontal, ⟨24, 19, 190, 600, 96⟩, ⟨24, 20, 200, 600, 96⟩⟩)
    ⟨.horizontal, ⟨24, 39, 390, 600, 96⟩, ⟨24, 40, 400, 600, 96⟩⟩

/-- The tab `sync_with_pane_tree` makes of it on a client whose tab had 100
columns before. -/
def mirroredRow : TabInner :=
  { TabInner.new 9 ⟨24, 100, 1000, 600, 96⟩ with
    pane := some row
    zoomed := some ⟨0, 0⟩
    size := ⟨24, 80, 800, 600, 96⟩
    recency := ⟨1, [(0, 0)]⟩
    calls := [.resize ⟨0, 0⟩ ⟨24, 80, 800, 600, 96⟩] }

/-- A mirrored tab is un-zoomed from a size its tree was never laid out for, and
a tab whose zoomed pane goes after a resize keeps the layout of the old size. -/
theorem zoom_shows_row : (¬ ∀ (client tab : TabInner) (size laid : TerminalSize) (node : PaneNode)
        (makePane : PaneEntry → Pane) (root : PaneTree) (z : Pane),
        client.syncWithPaneTree size node makePane = some tab → ZoomedOver tab root z laid →
        UnzoomsAlike tab laid) ∧
      ¬ ∀ (tab resized : TabInner) (size laid : TerminalSize) (root : PaneTree) (z : Pane),
        ZoomedOver tab root z laid → tab.size = laid → tab.sizeBeforeZoom = laid →
        (∀ ax, 1 ≤ size.cells ax) → tab.resize size = some resized →
        RemovalConsistent resized z := by
  constructor
  · intro hall
    have hsync : (TabInner.new 9 ⟨24, 100, 1000, 600, 96⟩).syncWithPaneTree
        ⟨24, 80, 800, 600, 96⟩ rowNode (fun e => ⟨e.paneId, 0⟩) = some mirroredRow := by
      decide
    have hover : ZoomedOver mirroredRow row ⟨0, 0⟩ ⟨24, 80, 800, 600, 96⟩ :=
      ⟨rfl, rfl, ⟨.inr ⟨trivial, trivial, trivial⟩, by decide⟩, by decide, by decide,
        by decide, forall_axis (by decide) (by decide)⟩
    have hsize : ∀ ax, 1 ≤ (⟨24, 80, 800, 600, 96⟩ : TerminalSize).cells ax :=
      forall_axis (by decide) (by decide)
    obtain ⟨resized, unzoomed, plain, hrun, htoggle, hplain, hpane, -⟩ :=
      hall _ _ _ _ _ _ _ _ hsync hover [] ⟨24, 80, 800, 600, 96⟩ (by simpa using hsize)
    have hval : ((mirroredRow.resizeAll [⟨24, 80, 800, 600, 96⟩]).bind
          TabInner.toggleZoom).map TabInner.pane ≠
        ({ mirroredRow with zoomed := none, size := ⟨24, 80, 800, 600, 96⟩ }.resize
          ⟨24, 80, 800, 600, 96⟩).map TabInner.pane := by
      decide
    rw [List.nil_append] at hrun
    rw [hrun, Option.bind_some, htoggle, hplain, Option.map_some, Option.map_some, hpane] at hval
    exact hval rfl
  · intro hall
    have hsize : ∀ ax, 1 ≤ (⟨24, 90, 900, 600, 96⟩ : TerminalSize).cells ax :=
      forall_axis (by decide) (by decide)
    obtain ⟨pane, tab', root', hrun, hpane, hcons⟩ := hall zoomedRow
      ({ zoomedRow with size := ⟨24, 90, 900, 600, 96⟩ }.call
        [.resize ⟨0, 0⟩ ⟨24, 90, 900, 600, 96⟩]) ⟨24, 90, 900, 600, 96⟩ _ row ⟨0, 0⟩
      (zoomedOver_zoomedRow ⟨24, 80, 800, 600, 96⟩ (forall_axis (by decide) (by decide)))
      rfl rfl hsize rfl
    have hval : ((({ zoomedRow with size := ⟨24, 90, 900, 600, 96⟩ }.call
        [.resize ⟨0, 0⟩ ⟨24, 90, 900, 600, 96⟩]).removePane 0).bind fun out =>
          out.2.pane.map fun t => decide (Consistent t out.2.size)) = some false := by
      decide
    rw [hrun, Option.bind_some, hpane, Option.map_some, decide_eq_true hcons] at hval
    cases hval

end Wakterm.Theorems.Zoom

/-!
## The zoomed pane over whole runs

A zoomed pane is a leaf of the tree and was last told the size of the whole tab.
-/

namespace Wakterm.Theorems.ZoomedPane

open Wakterm.Mux Wakterm.Bintree

/-- Whenever a pane is zoomed, it is a leaf of the tree, and the last size it
was told is the size of the tab. -/
def ZoomInv (tab : TabInner) : Prop :=
  ∀ z, tab.zoomed = some z →
    ∃ root, tab.pane = some root ∧ z ∈ root.leaves ∧ lastTold z tab.calls = some tab.size

/-- The removal does not come across the zoomed pane: it takes it out, or it
leaves it undisturbed, or it leaves nothing else. -/
def RemovalSafe (g : Pane → Bool) (tab : TabInner) : Prop :=
  ∀ z root, tab.zoomed = some z → tab.pane = some root →
    root.Full ∧ TabInner.TakenOut g z root ∨ TabInner.Undisturbed g z root ∨
      TabInner.LastOneLeft g z root tab.size

/-- There is nothing to rotate the zoomed pane with. -/
def RotationSafe (tab : TabInner) : Prop :=
  ∀ z, tab.zoomed = some z →
    tab.pane = some (.leaf z) ∨ tab.iterPanesIgnoringZoom = some ([], tab)

/-- There is nothing to swap the zoomed pane with. -/
def SwapSafe (paneIndex : Nat) (tab : TabInner) : Prop :=
  ∀ z root, tab.zoomed = some z → tab.pane = some root →
    root = .leaf z ∨ root.numLeaves ≤ paneIndex ∨ root.numLeaves ≤ tab.active

/-- The condition on a step. -/
def ZoomSafe (tab : TabInner) : TabOp → Prop
  | .assignPane pane => ∀ z, tab.zoomed = some z → pane = z
  | .splitAndInsert _ _ _ => True
  | .removePane paneId => RemovalSafe (fun x => x.paneId = paneId) tab
  | .killPane paneId => RemovalSafe (fun x => x.paneId = paneId) tab
  | .killPanesInDomain domain => RemovalSafe (fun x => x.domainId = domain) tab
  | .pruneDeadPanes isGone => RemovalSafe isGone tab
  | .resize _ => True
  | .resizeSplitBy _ _ => True
  | .adjustPaneSize _ _ => True
  | .setActiveIdx _ => True
  | .swapActiveWithIndex paneIndex _ => SwapSafe paneIndex tab
  | .rotateClockwise => RotationSafe tab
  | .rotateCounterClockwise => RotationSafe tab
  | .toggleZoom => True
  | .syncWithPaneTree size root _ =>
    (∃ e ∈ root.intoTree.leaves, e.isZoomedPane = true) → ∀ ax, 1 ≤ size.cells ax

def Steps (accepts : Pane → TerminalSize → Bool) (allowed : TabInner → TabOp → Prop)
    (tab tab' : TabInner) : Prop :=
  ∃ op, allowed tab op ∧ op.apply accepts tab = some tab'

/-- The tabs a run of allowed steps leads to. -/
def Reaches (accepts : Pane → TerminalSize → Bool) (allowed : TabInner → TabOp → Prop)
    (tab tab' : TabInner) : Prop :=
  Relation.ReflTransGen (Steps accepts allowed) tab tab'

variable {tab tab' : TabInner}

theorem zoomInv_of_none (h : tab.zoomed = none) : ZoomInv tab := by
  intro z hz
  rw [h] at hz
  cases hz

theorem ZoomInv.of_onlyCalls (h : ZoomInv tab) (hcalls : TabInner.OnlyCalls tab tab') :
    ZoomInv tab' := by
  intro z hz
  have htold := hcalls.lastTold z
  obtain ⟨cs, rfl, -⟩ := hcalls
  obtain ⟨root, hroot, hmem, hlast⟩ := h z hz
  exact ⟨root, hroot, hmem, htold.trans hlast⟩

theorem zoomInv_resizeImpl {size : TerminalSize} {sendResize : Bool} (h : ZoomInv tab)
    (hrun : tab.resizeImpl size sendResize = some tab') : ZoomInv tab' := by
  cases hz : tab.zoomed with
  | none => exact zoomInv_of_none ((TabInner.zoomed_of_resizeImpl hrun).trans hz)
  | some z =>
    unfold TabInner.resizeImpl at hrun
    by_cases hsize : size.rows = 0 ∨ size.cols = 0
    · rw [if_pos hsize] at hrun
      cases hrun
      exact h
    · rw [if_neg hsize, hz] at hrun
      cases hrun
      obtain ⟨root, hroot, hmem, -⟩ := h z hz
      rintro z' ⟨⟩
      refine ⟨root, hroot, hmem, ?_⟩
      simp [TabInner.call, lastTold_append, lastTold, PaneCall.tells]

/-- `sync_with_pane_tree` tells the pane it zooms the size of the tab, unless
that size is ignored. -/
theorem zoomInv_syncWithPaneTree {size : TerminalSize} {root : PaneNode}
    {makePane : PaneEntry → Pane}
    (hsafe : (∃ e ∈ root.intoTree.leaves, e.isZoomedPane = true) → ∀ ax, 1 ≤ size.cells ax)
    (hrun : tab.syncWithPaneTree size root makePane = some tab') : ZoomInv tab' := by
  obtain ⟨tab₁, htree, hzoomed, hresize⟩ := TabInner.resizeImpl_of_syncWithPaneTree hrun
  cases hz : (buildFromPaneTree makePane root.intoTree none none).2.2 with
  | none =>
    exact zoomInv_of_none ((TabInner.zoomed_of_resizeImpl hresize).trans (hzoomed.trans hz))
  | some z =>
    obtain ⟨hmem, hentry⟩ := TabInner.mem_leaves_of_buildFromPaneTree makePane root.intoTree none hz
    have hsize : ¬ (size.rows = 0 ∨ size.cols = 0) := (forall_one_le_iff size).mp (hsafe hentry)
    rw [hz] at hzoomed
    simp only [TabInner.resizeImpl, if_neg hsize, hzoomed] at hresize
    cases hresize
    intro z' hz'
    cases hz'
    refine ⟨_, htree, hmem, ?_⟩
    simp [TabInner.call, lastTold_append, lastTold, PaneCall.tells]

theorem zoomInv_toggleZoom (hrun : tab.toggleZoom = some tab') : ZoomInv tab' := by
  cases hz : tab.zoomed with
  | some z =>
    simp only [TabInner.toggleZoom, hz, Option.bind_eq_bind, Option.bind_eq_some_iff] at hrun
    obtain ⟨⟨pane, tab₁⟩, hactive, hrun⟩ := hrun
    obtain rfl := TabInner.getActivePane_same hactive
    refine zoomInv_of_none ((TabInner.zoomed_of_resizeImpl hrun).trans ?_)
    cases pane <;> rfl
  | none =>
    simp only [TabInner.toggleZoom, hz, Option.bind_eq_bind, Option.bind_eq_some_iff] at hrun
    obtain ⟨⟨pane, tab₁⟩, hactive, hrun⟩ := hrun
    obtain rfl := TabInner.getActivePane_same hactive
    cases pane with
    | none =>
      cases hrun
      exact zoomInv_of_none rfl
    | some x =>
      obtain ⟨root, hroot, hmem⟩ := TabInner.getActivePane_mem rfl hactive
      cases hrun
      rintro z ⟨⟩
      refine ⟨root, hroot, hmem, ?_⟩
      simp [TabInner.call, lastTold_append, lastTold, PaneCall.tells]

theorem zoomInv_removePaneIf {g : Pane → Bool} {dead : List Pane} (h : ZoomInv tab)
    (hsafe : RemovalSafe g tab)
    (hrun : tab.removePaneIf (fun _ x => g x) = some (dead, tab')) : ZoomInv tab' := by
  obtain ⟨root, s, t, hroot, hsize, hloop, -, rfl⟩ := TabInner.removePaneIf_eq_some_iff.mp hrun
  have hzoomed : s.zoomed = none ∨ s.zoomed = tab.zoomed :=
    (TabInner.zoomedRule _ _ _ _ tab.zoomed).post _ _ _ s t (.inr rfl) hloop
  intro z hz
  have htab : tab.zoomed = some z := by
    rcases hzoomed with hnone | hsame
    · exact absurd (hnone.symm.trans hz) nofun
    · exact hsame.symm.trans hz
  obtain ⟨root', hroot', hmem, hlast⟩ := h z htab
  cases hroot.symm.trans hroot'
  rcases hsafe z root htab hroot with ⟨hfull, hout⟩ | hsame | halone
  · rw [htab] at hloop
    have hnone := (TabInner.takenOutRule tab.size (cellOf tab.size)).post _ _ root.cursor s t
      (.inr ⟨hfull, .inl hout⟩) hloop
    exact absurd (hnone.symm.trans hz) nofun
  · obtain ⟨htold, hmem'⟩ := TabInner.removeLoop_undisturbed hsame hloop
    exact ⟨t, rfl, hmem', htold.trans hlast⟩
  · obtain ⟨htold, hmem'⟩ := TabInner.removeLoop_lastOneLeft halone tab _ hloop
    exact ⟨t, rfl, hmem', htold⟩

theorem zoomInv_rotate {clockwise : Bool} {start : List PositionedPane → Option PositionedPane}
    {next : PaneCursor → Except PaneCursor PaneCursor} (hnil : start [] = none)
    (hone : ∀ p, start [p] = some p)
    (hnext : ∀ x : Pane, next ⟨.leaf x, .top⟩ = .error ⟨.leaf x, .top⟩) (h : ZoomInv tab)
    (hsafe : RotationSafe tab) (hrun : tab.rotate clockwise start next = some tab') :
    ZoomInv tab' := by
  intro z hz
  rw [TabInner.zoomed_of_rotate hrun] at hz
  rcases hsafe z hz with hroot | hnone
  · obtain ⟨hpane, hsize, htold⟩ := TabInner.rotate_alone hone hnext hroot hrun
    exact ⟨_, hpane, by simp [BinTree.leaves], by rw [htold, hsize]⟩
  · obtain rfl := TabInner.rotate_nothing hnil hnone hrun
    exact h z hz

theorem zoomInv_swapActiveWithIndex {paneIndex : Nat} {keepFocus : Bool} (h : ZoomInv tab)
    (hsafe : SwapSafe paneIndex tab)
    (hrun : tab.swapActiveWithIndex paneIndex keepFocus = some tab') : ZoomInv tab' := by
  intro z hz
  rw [TabInner.zoomed_of_swapActiveWithIndex hrun] at hz
  obtain ⟨root, hroot, hmem, hlast⟩ := h z hz
  rcases hsafe z root hz hroot with rfl | hout
  · rcases TabInner.swapActiveWithIndex_alone hz hroot hrun with rfl | ⟨hpane, hsize, htold⟩
    · exact ⟨_, hroot, hmem, hlast⟩
    · exact ⟨_, hpane, hmem, by rw [htold, hsize]⟩
  · rcases TabInner.swapActiveWithIndex_cases hrun with rfl |
      ⟨active, root', hactive, hroot', hidx, ⟨root'', hmem', rfl⟩ | ⟨hact, -⟩⟩
    · exact ⟨root, hroot, hmem, hlast⟩
    · rw [TabInner.getActivePane_zoomed hz] at hactive
      obtain ⟨⟨⟩, -⟩ := Prod.mk.inj (Option.some.inj hactive)
      exact ⟨root'', rfl, hmem', hlast⟩
    · cases hroot.symm.trans hroot'
      omega

theorem zoomInv_step {accepts : Pane → TerminalSize → Bool} {op : TabOp} (h : ZoomInv tab)
    (hsafe : ZoomSafe tab op) (hrun : op.apply accepts tab = some tab') : ZoomInv tab' := by
  have hremove : ∀ g, op.takes = some g → RemovalSafe g tab → ZoomInv tab' := by
    intro g hg hsafe
    rw [TabOp.apply_of_takes hg, Option.map_eq_some_iff] at hrun
    obtain ⟨⟨dead, tab₁⟩, hrun, rfl⟩ := hrun
    exact zoomInv_removePaneIf h hsafe hrun
  cases op with
  | assignPane pane =>
    cases hrun
    intro z hz
    obtain ⟨root, hroot, hmem, hlast⟩ := h z hz
    obtain rfl := hsafe z hz
    exact ⟨_, rfl, by simp [Cursor.tree_eq_plug, BinTree.cursor, Path.plug, BinTree.leaves], hlast⟩
  | splitAndInsert paneIndex request pane =>
    rw [TabOp.apply, Option.map_eq_some_iff] at hrun
    obtain ⟨⟨res, tab₁⟩, hrun, rfl⟩ := hrun
    have hzoomed := TabInner.zoomed_of_splitAndInsert hrun
    split_ifs at hzoomed
    · exact hzoomed ▸ h
    · exact zoomInv_of_none hzoomed
  | removePane paneId => exact hremove _ rfl hsafe
  | killPane paneId => exact hremove _ rfl hsafe
  | killPanesInDomain domain => exact hremove _ rfl hsafe
  | pruneDeadPanes isGone => exact hremove _ rfl hsafe
  | resize size => exact zoomInv_resizeImpl h hrun
  | resizeSplitBy splitIndex delta =>
    cases hz : tab.zoomed with
    | none => exact zoomInv_of_none ((TabInner.zoomed_of_resizeSplitBy hrun).trans hz)
    | some z =>
      simp only [TabOp.apply, TabInner.resizeSplitBy, hz, Option.isSome_some, if_true,
        Option.some.injEq] at hrun
      exact hrun ▸ h
  | adjustPaneSize direction amount =>
    cases hz : tab.zoomed with
    | none => exact zoomInv_of_none ((TabInner.zoomed_of_adjustPaneSize hrun).trans hz)
    | some z =>
      simp only [TabOp.apply, TabInner.adjustPaneSize, hz, Option.isSome_some, if_true,
        Option.some.injEq] at hrun
      exact hrun ▸ h
  | setActiveIdx paneIndex =>
    have hmoved : ZoomInv
        { tab with active := paneIndex, recency := tab.recency.tag paneIndex } := h
    exact hmoved.of_onlyCalls (TabInner.onlyCalls_of_setActiveIdx hrun)
  | swapActiveWithIndex paneIndex keepFocus =>
    exact zoomInv_swapActiveWithIndex h hsafe hrun
  | rotateClockwise =>
    refine zoomInv_rotate ?_ ?_ ?_ h hsafe hrun
    · rfl
    · exact fun _ => rfl
    · exact fun _ => rfl
  | rotateCounterClockwise =>
    refine zoomInv_rotate ?_ ?_ ?_ h hsafe hrun
    · rfl
    · exact fun _ => rfl
    · exact fun _ => rfl
  | toggleZoom => exact zoomInv_toggleZoom hrun
  | syncWithPaneTree size root makePane => exact zoomInv_syncWithPaneTree hsafe hrun

/-- **The zoomed pane is in order in every tab** that a run of steps meeting the
condition leads to. -/
theorem zoomInv_of_reaches {accepts : Pane → TerminalSize → Bool} {id : TabId}
    {size : TerminalSize} (h : Reaches accepts ZoomSafe (TabInner.new id size) tab) :
    ZoomInv tab := by
  induction h with
  | refl => exact zoomInv_of_none rfl
  | tail _ hstep ih =>
    obtain ⟨op, hsafe, hrun⟩ := hstep
    exact zoomInv_step ih hsafe hrun

/-- A split in the middle, the new pane on the right. -/
def halfRight : SplitRequest where
  direction := .horizontal
  targetIsSecond := true
  topLevel := false
  size := .percent 50

/-- A pane is split and the new one is zoomed. -/
def zoomedHalf : TabInner where
  id := 0
  pane := some (.node (.leaf ⟨1, 0⟩) (.leaf ⟨2, 0⟩)
    (some ⟨.horizontal, ⟨24, 39, 390, 600, 96⟩, ⟨24, 40, 400, 600, 96⟩⟩))
  size := ⟨24, 80, 800, 600, 96⟩
  sizeBeforeZoom := ⟨24, 80, 800, 600, 96⟩
  active := 1
  zoomed := some ⟨2, 0⟩
  recency := ⟨1, [(1, 0)]⟩
  calls := [.resize ⟨1, 0⟩ ⟨24, 39, 390, 600, 96⟩, .resize ⟨2, 0⟩ ⟨24, 40, 400, 600, 96⟩,
    .setZoomed ⟨2, 0⟩ true, .resize ⟨2, 0⟩ ⟨24, 80, 800, 600, 96⟩]

theorem reaches_zoomedHalf {allowed : TabInner → TabOp → Prop}
    (hassign : ∀ tab, tab.zoomed = none → ∀ x, allowed tab (.assignPane x))
    (hsplit : ∀ tab i request x, allowed tab (.splitAndInsert i request x))
    (htoggle : ∀ tab, allowed tab .toggleZoom) :
    Reaches (fun _ _ => true) allowed (TabInner.new 0 ⟨24, 80, 800, 600, 96⟩) zoomedHalf := by
  refine .tail (.tail (.tail .refl ⟨.assignPane ⟨1, 0⟩, hassign _ rfl _, rfl⟩)
    ⟨.splitAndInsert 0 halfRight ⟨2, 0⟩, hsplit _ _ _ _, rfl⟩) ⟨.toggleZoom, htoggle _, ?_⟩
  decide

theorem lastOneLeft_zoomedHalf (root : PaneTree) (hroot : zoomedHalf.pane = some root) :
    TabInner.LastOneLeft (fun x => x.paneId = 1) ⟨2, 0⟩ root zoomedHalf.size := by
  cases hroot
  exact
    { tree := ⟨.inr (by decide), by decide⟩
      walk := by decide
      stays := by decide
      others := ⟨⟨1, 0⟩, by decide, by decide⟩
      consistent := by decide
      small := forall_axis (by decide) (by decide)
      whole := by decide }

/-- A run of four steps: assign, split, zoom, and close the other pane. -/
theorem zoomInv_closeOther :
    ∃ tab, Reaches (fun _ _ => true) ZoomSafe (TabInner.new 0 ⟨24, 80, 800, 600, 96⟩) tab ∧
      tab.zoomed = some ⟨2, 0⟩ ∧ ZoomInv tab := by
  have hreach : Reaches (fun _ _ => true) ZoomSafe (TabInner.new 0 ⟨24, 80, 800, 600, 96⟩)
      zoomedHalf :=
    reaches_zoomedHalf (fun tab hz x z h => absurd (hz.symm.trans h) nofun)
      (fun _ _ _ _ => trivial) fun _ => trivial
  have hsafe : ZoomSafe zoomedHalf (.killPane 1) := by
    rintro z root ⟨⟩ hroot
    exact .inr (.inr (lastOneLeft_zoomedHalf root hroot))
  obtain ⟨⟨killed, tab⟩, hkill⟩ : ∃ out, zoomedHalf.killPane 1 = some out :=
    Option.isSome_iff_exists.mp (by decide)
  have hzoomed : (zoomedHalf.killPane 1).map (·.2.zoomed) = some (some ⟨2, 0⟩) := by
    decide
  rw [hkill] at hzoomed
  have hrun : (TabOp.killPane 1).apply (fun _ _ => true) zoomedHalf = some tab := by
    rw [TabOp.apply, hkill]
    rfl
  have hreach' := hreach.tail ⟨.killPane 1, hsafe, hrun⟩
  exact ⟨tab, hreach', Option.some.inj hzoomed, zoomInv_of_reaches hreach'⟩

/-- Rotating the panes tells the zoomed one the size of its split. -/
theorem rotation_breaks_zoomedHalf :
    ¬ ∀ (accepts : Pane → TerminalSize → Bool) (id : TabId) (size : TerminalSize)
      (tab : TabInner), Reaches accepts (fun _ _ => True) (TabInner.new id size) tab →
      ZoomInv tab := by
  intro hall
  have hreach : Reaches (fun _ _ => true) (fun _ _ => True)
      (TabInner.new 0 ⟨24, 80, 800, 600, 96⟩) zoomedHalf :=
    reaches_zoomedHalf (fun _ _ _ => trivial) (fun _ _ _ _ => trivial) fun _ => trivial
  obtain ⟨tab, hrun⟩ : ∃ tab, zoomedHalf.rotateClockwise = some tab :=
    Option.isSome_iff_exists.mp (by decide)
  have hval : zoomedHalf.rotateClockwise.map
      (fun tab => (tab.zoomed, lastTold ⟨2, 0⟩ tab.calls, tab.size)) =
        some (some ⟨2, 0⟩, some ⟨24, 39, 390, 600, 96⟩, ⟨24, 80, 800, 600, 96⟩) := by
    decide
  rw [hrun, Option.map_some, Option.some.injEq, Prod.mk.injEq, Prod.mk.injEq] at hval
  obtain ⟨hzoomed, htold, hsize⟩ := hval
  obtain ⟨_, _, _, htold'⟩ := hall _ _ _ tab (hreach.tail ⟨.rotateClockwise, trivial, hrun⟩)
    ⟨2, 0⟩ hzoomed
  rw [htold, hsize] at htold'
  cases htold'

end Wakterm.Theorems.ZoomedPane
