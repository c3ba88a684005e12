import Wakterm.Mux.Logic.Tiling

/-!
# Moving a divider

`adjust_node_at_cursor` moves one divider, `cascade_size_from_cursor` carries the new sizes to its
two children and on to the right siblings of its ancestors, whose sizes have not changed.
-/

namespace Wakterm.Mux

open Wakterm.Machine Wakterm.Bintree Wakterm.Layout

/-- `cascadeVisit` as a visit that keeps the shape. -/
def cascade (rootSize : TerminalSize) : Visit Pane SplitDirectionAndSize (List PaneCall) where
  node calls p d := (calls, d.map (·.applyPaneSize (holeSize rootSize p)))
  leaf calls p x := (calls ++ [.resize x (holeSize rootSize p)], x)

theorem cascadeVisit_eq (rootSize : TerminalSize) :
    TabInner.cascadeVisit rootSize = (cascade rootSize).run := by
  funext calls ⟨t, p⟩
  cases t with
  | empty => rfl
  | leaf x => rfl
  | node l r d => cases d <;> rfl

theorem pass_cascade (rootSize : TerminalSize) (t : PaneTree) (ht : HasData t) :
    ∀ (p : Path Pane SplitDirectionAndSize) (calls : List PaneCall),
    ((cascade rootSize).pass t p calls).2 = pushSizes t (holeSize rootSize p) := by
  induction t with
  | empty => exact fun _ _ => rfl
  | leaf x => exact fun _ _ => rfl
  | node l r d ihl ihr =>
    intro p calls
    obtain ⟨hd, hl, hr⟩ := ht
    obtain ⟨d, rfl⟩ := Option.isSome_iff_exists.mp hd
    simp only [Visit.pass, cascade, Option.map_some] at ihl ihr ⊢
    rw [ihl hl, ihr hr]
    rfl

variable {t s : PaneTree} {d : SplitDirectionAndSize} {a : TerminalSize}

theorem skeleton_plug_congr {t' : PaneTree} (h : skeleton t = skeleton t')
    (p : Path Pane SplitDirectionAndSize) : skeleton (p.plug t) = skeleton (p.plug t') := by
  induction p generalizing t t' with
  | top => exact h
  | left r d up ih =>
    refine ih ?_
    simp only [skeleton, BinTree.mapData] at h ⊢
    rw [h]
  | right l d up ih =>
    refine ih ?_
    simp only [skeleton, BinTree.mapData] at h ⊢
    rw [h]

theorem skeleton_pass_cascade (rootSize : TerminalSize) (t : PaneTree) :
    ∀ (p : Path Pane SplitDirectionAndSize) (calls : List PaneCall),
    skeleton ((cascade rootSize).pass t p calls).2 = skeleton t := by
  induction t with
  | empty => exact fun _ _ => rfl
  | leaf x => exact fun _ _ => rfl
  | node l r d ihl ihr =>
    intro p calls
    simp only [skeleton] at ihl ihr ⊢
    simp only [Visit.pass, BinTree.mapData, ihl, ihr]
    cases d <;> rfl

theorem skeleton_passAfter_cascade (rootSize : TerminalSize) (p : Path Pane SplitDirectionAndSize) :
    ∀ (t : PaneTree) (calls : List PaneCall),
    skeleton ((cascade rootSize).passAfter p t calls).2 = skeleton (p.plug t) := by
  induction p with
  | top => exact fun _ _ => rfl
  | left r d up ih =>
    intro t calls
    simp only [Visit.passAfter, Path.plug, ih]
    refine skeleton_plug_congr ?_ up
    have hr := skeleton_pass_cascade rootSize r (.right t d up) calls
    simp only [skeleton] at hr ⊢
    simp only [BinTree.mapData, hr]
  | right l d up ih => exact fun _ _ => ih _ _

theorem tiled_passAfter_cascade_iff {rootSize : TerminalSize}
    (hrange : ∀ ax, rootSize.cells ax < 2 ^ 63) {p : Path Pane SplitDirectionAndSize}
    (hp : TiledAround rootSize p) : ∀ (t : PaneTree) (calls : List PaneCall),
    Tiled ((cascade rootSize).passAfter p t calls).2 rootSize ↔ Tiled t (holeSize rootSize p) := by
  induction p with
  | top => exact fun _ _ => Iff.rfl
  | left r d up ih =>
    intro t calls
    obtain ⟨d, rfl⟩ := hp.data_left
    obtain ⟨hfits, hr, hup⟩ := hp
    have hpush : Tiled (pushSizes r d.second) d.second := by
      refine hr.pushSizes fun ax => ?_
      exact ((hfits.le ax).2.trans (hup.holeSize_le ax)).trans_lt (hrange ax)
    simp only [Visit.passAfter]
    rw [ih hup, pass_cascade rootSize r hr.hasData]
    simp only [holeSize_left, holeSize_right, Tiled, hfits, hpush, true_and, and_true]
  | right l d up ih =>
    intro t calls
    obtain ⟨d, rfl⟩ := hp.data_right
    obtain ⟨hfits, hl, hup⟩ := hp
    simp only [Visit.passAfter]
    rw [ih hup]
    simp only [holeSize_right, Tiled, hfits, hl, true_and]

/-- Where the first child of the split ends when its divider moves by `delta`:
at least one cell is left on either side. -/
def SplitDirectionAndSize.movedTo (d : SplitDirectionAndSize) (delta : Int) : Nat :=
  let ax := d.direction.axis
  (min (max ((d.first.cells ax : Int) + delta) 1)
    ((d.first.cells ax : Int) + d.second.cells ax - 1)).toNat

/-- The children of the moved split can do with what they are left: a nested
split along the same axis never gives up cells of its first child. -/
def CanMove : PaneTree → Int → Prop
  | .node l r (some d), delta =>
    (span d.direction.axis l).need ≤ d.movedTo delta ∧
      (span d.direction.axis r).need ≤
        d.first.cells d.direction.axis + d.second.cells d.direction.axis - d.movedTo delta
  | _, _ => True

theorem SplitDirectionAndSize.extent_eq (h : d.Fits a) (ha : a.cells d.direction.axis < 2 ^ 63) :
    d.extent d.direction.axis = a.cells d.direction.axis := by
  have hsum := ((d.fits_iff a).mp h).1
  cases hd : d.direction <;>
    simp only [hd, SplitDirection.axis, TerminalSize.cells_x, TerminalSize.cells_y,
      SplitDirectionAndSize.extent, SplitDirectionAndSize.width,
      SplitDirectionAndSize.height, if_true] at hsum ha ⊢ <;>
    unfold uadd <;>
    omega

@[simp] theorem SplitDirectionAndSize.direction_moveDivider (d : SplitDirectionAndSize)
    (delta : Int) (cell : TerminalSize) : (d.moveDivider delta cell).direction = d.direction :=
  rfl

theorem SplitDirectionAndSize.moveDivider_across (d : SplitDirectionAndSize) (delta : Int)
    (cell : TerminalSize) {ax : Axis} (h : ax ≠ d.direction.axis) :
    (d.moveDivider delta cell).first.cells ax = d.first.cells ax ∧
      (d.moveDivider delta cell).second.cells ax = d.second.cells ax :=
  ⟨TerminalSize.cells_setSpan_of_ne _ h _ _, TerminalSize.cells_setSpan_of_ne _ h _ _⟩

theorem SplitDirectionAndSize.moveDivider_along (h : d.Fits a)
    (ha : a.cells d.direction.axis < 2 ^ 63) (hf : 1 ≤ d.first.cells d.direction.axis)
    (hs : 1 ≤ d.second.cells d.direction.axis) (delta : Int) (cell : TerminalSize) :
    (d.moveDivider delta cell).first.cells d.direction.axis = d.movedTo delta ∧
      (d.moveDivider delta cell).second.cells d.direction.axis =
        d.first.cells d.direction.axis + d.second.cells d.direction.axis - d.movedTo delta ∧
      1 ≤ d.movedTo delta ∧
      d.movedTo delta < d.first.cells d.direction.axis + d.second.cells d.direction.axis := by
  have hsum := ((d.fits_iff a).mp h).1
  have hext := SplitDirectionAndSize.extent_eq h ha
  have hrange : 1 ≤ d.movedTo delta ∧
      d.movedTo delta < d.first.cells d.direction.axis + d.second.cells d.direction.axis := by
    simp only [SplitDirectionAndSize.movedTo]
    omega
  -- saturation at the ends of `isize` is hidden by the clamp
  have hcells : min (max (isat (asIsize (d.first.cells d.direction.axis) + delta)) 1)
      (isat (asIsize (a.cells d.direction.axis) - 2)) = (d.movedTo delta : Int) := by
    rw [asIsize_of_lt (by omega), asIsize_of_lt ha]
    simp only [isat, SplitDirectionAndSize.movedTo]
    omega
  have hfirst : asUsize (d.movedTo delta : Int) = d.movedTo delta := by
    rw [asUsize_of_nonneg (by omega) (by omega)]
    exact Int.toNat_natCast _
  refine ⟨?_, ?_, hrange⟩
  · simp only [SplitDirectionAndSize.moveDivider, hext, hcells, TerminalSize.withCells,
      TerminalSize.cells_setSpan, hfirst]
  · simp only [SplitDirectionAndSize.moveDivider, hext, hcells, TerminalSize.withCells,
      TerminalSize.cells_setSpan, hfirst, usatAdd]
    omega

/-- **The moved split and its children are tiled exactly when they can move.** -/
theorem tiled_moved_iff {l r : PaneTree} (h : Tiled (.node l r (some d)) a)
    (ha : ∀ ax, a.cells ax < 2 ^ 63) (delta : Int) (cell : TerminalSize) :
    let d' := d.moveDivider delta cell
    Tiled (.node (pushSizes l d'.first) (pushSizes r d'.second) (some d')) a ↔
      CanMove (.node l r (some d)) delta := by
  intro d'
  obtain ⟨hfits, hl, hr⟩ := h
  obtain ⟨hsum, hfo, hso⟩ := (d.fits_iff a).mp hfits
  obtain ⟨h1, h2, hlo, hhi⟩ := SplitDirectionAndSize.moveDivider_along hfits (ha _)
    (hl.one_le _) (hr.one_le _) delta cell
  have hother := fun ax (h : ax ≠ d.direction.axis) => d.moveDivider_across delta cell h
  have hfits' : d'.Fits a := by
    obtain ⟨ho1, ho2⟩ := hother _ (Axis.other_ne d.direction.axis)
    rw [SplitDirectionAndSize.fits_iff]
    simp only [d', SplitDirectionAndSize.direction_moveDivider, h1, h2, ho1, ho2]
    exact ⟨by omega, hfo, hso⟩
  simp only [Tiled, hfits', true_and]
  rw [tiled_pushSizes_iff hl fun ax => (hfits.le ax).1.trans_lt (ha ax),
    tiled_pushSizes_iff hr fun ax => (hfits.le ax).2.trans_lt (ha ax)]
  rw [CanMove, ← h2, ← h1]
  constructor
  · rintro ⟨hneed₁, hneed₂⟩
    exact ⟨hneed₁ _, hneed₂ _⟩
  · -- across the split nothing has changed
    rintro ⟨hneed₁, hneed₂⟩
    refine ⟨fun ax => ?_, fun ax => ?_⟩
    · rcases axis_eq_or ax d.direction.axis with rfl | rfl
      · exact hneed₁
      · rw [(hother _ (Axis.other_ne _)).1]
        exact (hl.roomy _).need_le
    · rcases axis_eq_or ax d.direction.axis with rfl | rfl
      · exact hneed₂
      · rw [(hother _ (Axis.other_ne _)).2]
        exact (hr.roomy _).need_le

/-! ## The split that is moved -/

/-- The splits of the tree, in preorder. -/
def splitNodes : PaneTree → List PaneTree
  | .node l r d => .node l r d :: (splitNodes l ++ splitNodes r)
  | .empty => []
  | .leaf _ => []

/-- The nearest split in a direction around the `i`-th leaf. -/
def enclosingSplit (direction : SplitDirection) : PaneTree → Nat → Option PaneTree
  | .node l r d, i =>
    (if i < l.numLeaves then enclosingSplit direction l i
      else enclosingSplit direction r (i - l.numLeaves)).or
      (if d.map (·.direction) = some direction then some (.node l r d) else none)
  | .empty, _ => none
  | .leaf _, _ => none

theorem exists_of_mem_splitNodes (h : s ∈ splitNodes t) : ∃ l r d, s = .node l r d := by
  induction t with
  | empty => simp [splitNodes] at h
  | leaf x => simp [splitNodes] at h
  | node l r d ihl ihr =>
    simp only [splitNodes, List.mem_cons, List.mem_append] at h
    rcases h with rfl | h | h
    · exact ⟨l, r, d, rfl⟩
    · exact ihl h
    · exact ihr h

theorem exists_of_enclosingSplit {direction : SplitDirection} {i : Nat}
    (h : enclosingSplit direction t i = some s) : ∃ l r d, s = .node l r d := by
  induction t generalizing i with
  | empty => simp [enclosingSplit] at h
  | leaf x => simp [enclosingSplit] at h
  | node l r d ihl ihr =>
    rw [enclosingSplit, Option.or_eq_some_iff] at h
    rcases h with h | ⟨_, h⟩
    · split_ifs at h
      · exact ihl h
      · exact ihr h
    · split_ifs at h
      exact ⟨l, r, d, (Option.some.inj h).symm⟩

theorem it_splitCursors (t : PaneTree) (ht : t.Full) : ∀ p : Path Pane SplitDirectionAndSize,
    ((t.preorderCursors p).filter fun c => !c.isLeaf).map (·.it) = splitNodes t := by
  induction t with
  | empty => exact ht.elim
  | leaf x => exact fun _ => rfl
  | node l r d ihl ihr =>
    intro p
    rw [BinTree.preorderCursors, List.filter_cons_of_pos (by simp [Cursor.isLeaf]),
      List.filter_append, List.map_cons, List.map_append, ihl ht.1, ihr ht.2, splitNodes]

theorem climbToSplit_leaf (direction : SplitDirection) (t : PaneTree) :
    ∀ (p : Path Pane SplitDirectionAndSize) (i : Nat) (c : PaneCursor),
    ((t.preorderCursors p).filter Cursor.isLeaf)[i]? = some c →
    (∃ s q, enclosingSplit direction t i = some s ∧
        TabInner.climbToSplit direction c.path c.it = .ok ⟨s, q⟩ ∧ q.plug s = p.plug t) ∨
      (enclosingSplit direction t i = none ∧ TabInner.climbToSplit direction c.path c.it =
          TabInner.climbToSplit direction p t) := by
  induction t with
  | empty =>
    intro p i c hc
    simp [BinTree.preorderCursors, Cursor.isLeaf] at hc
  | leaf x =>
    intro p i c hc
    obtain ⟨_, rfl⟩ : i < 1 ∧ ⟨.leaf x, p⟩ = c := by
      cases i with
      | zero => exact ⟨Nat.one_pos, Option.some.inj hc⟩
      | succ i => exact absurd hc (by simp [BinTree.numLeaves])
    exact .inr ⟨rfl, rfl⟩
  | node l r d ihl ihr =>
    intro p i c hc
    -- the leaf is in one of the children; above the child comes this node
    have hup : ∀ o : Option PaneTree,
        (∃ s q, o = some s ∧ TabInner.climbToSplit direction c.path c.it = .ok ⟨s, q⟩ ∧
          q.plug s = p.plug (.node l r d)) ∨
        (o = none ∧ TabInner.climbToSplit direction c.path c.it =
          if d.map (·.direction) = some direction then .ok ⟨.node l r d, p⟩
          else TabInner.climbToSplit direction p (.node l r d)) →
        (∃ s q, o.or (if d.map (·.direction) = some direction then some (.node l r d)
            else none) = some s ∧
          TabInner.climbToSplit direction c.path c.it = .ok ⟨s, q⟩ ∧
          q.plug s = p.plug (.node l r d)) ∨
        (o.or (if d.map (·.direction) = some direction then some (.node l r d)
            else none) = none ∧
          TabInner.climbToSplit direction c.path c.it =
            TabInner.climbToSplit direction p (.node l r d)) := by
      rintro o (⟨s, q, rfl, hclimb, hplug⟩ | ⟨rfl, hclimb⟩)
      · exact .inl ⟨s, q, rfl, hclimb, hplug⟩
      · split_ifs at hclimb ⊢ with hd
        · exact .inl ⟨_, p, rfl, hclimb, rfl⟩
        · exact .inr ⟨rfl, hclimb⟩
    rw [BinTree.preorderCursors, List.filter_cons_of_neg (by simp [Cursor.isLeaf]),
      List.filter_append, List.getElem?_append, BinTree.length_leafCursors] at hc
    by_cases hi : i < l.numLeaves
    · rw [if_pos hi] at hc
      rw [enclosingSplit, if_pos hi]
      exact hup _ (ihl _ _ _ hc)
    · rw [if_neg hi] at hc
      rw [enclosingSplit, if_neg hi]
      exact hup _ (ihr _ _ _ hc)

namespace TabInner

theorem cascadeSizeFromCursor_node {tab : TabInner} {l r : PaneTree}
    {d : SplitDirectionAndSize} {p : Path Pane SplitDirectionAndSize} (hl : l.Full)
    (hr : r.Full) (hdl : HasData l) (hdr : HasData r) (hp : p.Full) :
    ∃ tab' calls, tab.cascadeSizeFromCursor ⟨.node l r (some d), p⟩ = some tab' ∧
      tab'.size = tab.size ∧ tab'.pane = some ((cascade tab.size).passAfter p
        (.node (pushSizes l d.first) (pushSizes r d.second) (some d)) calls).2 := by
  have hcount := Path.numNodes_add_numAfter_le p (.node l r (some d))
  simp only [BinTree.numNodes] at hcount
  have hwalk := (cascade tab.size).walk_eq l hl (.left r (some d) p) ⟨hr, hp⟩ []
    (p.plug (.node l r (some d))).numNodes (by simp only [Path.numAfter]; omega)
  simp only [Visit.passAfter] at hwalk
  rw [pass_cascade tab.size l hdl, pass_cascade tab.size r hdr] at hwalk
  have hfull : ∀ calls, ((cascade tab.size).passAfter p
      (.node (pushSizes l d.first) (pushSizes r d.second) (some d)) calls).2.Full := by
    intro calls
    rw [full_iff_of_skeleton (skeleton_passAfter_cascade tab.size p _ calls), Path.full_plug]
    exact ⟨⟨(full_iff_of_skeleton (skeleton_pushSizes l _)).mpr hl,
      (full_iff_of_skeleton (skeleton_pushSizes r _)).mpr hr⟩, hp⟩
  simp only [cascadeSizeFromCursor, Cursor.preorderNext_node, cascadeVisit_eq,
    Cursor.tree_eq_plug, Path.plug, hwalk, Option.bind_eq_bind, Option.bind_some]
  obtain ⟨cs, hcs, _⟩ := @sendResizeBatch_eq
    (TabInner.call { tab with pane := some _ } _) _ rfl (.inr (hfull _)) _
  exact ⟨_, _, hcs, rfl, rfl⟩

theorem cascade_adjustNode_iff {tab : TabInner} {root : PaneTree} (h : Tiled root tab.size)
    (hrange : ∀ ax, tab.size.cells ax < 2 ^ 63) {l r : PaneTree} {d : SplitDirectionAndSize}
    {p : Path Pane SplitDirectionAndSize} (hroot : p.plug (.node l r (some d)) = root)
    (delta : Int) : ∃ tab' root', (tab.adjustNodeAtCursor ⟨.node l r (some d), p⟩ delta).bind
        tab.cascadeSizeFromCursor = some tab' ∧ tab'.size = tab.size ∧ tab'.pane = some root' ∧
      (LaidOut root' tab'.size ↔ CanMove (.node l r (some d)) delta) := by
  obtain ⟨hnode, hp⟩ := (tiled_plug tab.size p _).mp (hroot ▸ h)
  have hl := hnode.2.1
  have hr := hnode.2.2
  obtain ⟨cell, hcell⟩ : ∃ cell, cellDimensions tab.size = some cell :=
    ⟨_, cellDimensions_eq fun ax => h.one_le ax⟩
  obtain ⟨tab', calls, hrun, hsize, hpane⟩ := @cascadeSizeFromCursor_node tab _ _
    (d.moveDivider delta cell) p hl.full hr.full hl.hasData hr.hasData hp.full
  have hskel := skeleton_passAfter_cascade tab.size p
    (.node (pushSizes l (d.moveDivider delta cell).first)
      (pushSizes r (d.moveDivider delta cell).second) (some (d.moveDivider delta cell))) calls
  refine ⟨tab', _, ?_, hsize, hpane, ?_⟩
  · simp only [adjustNodeAtCursor, hcell, Option.bind_eq_bind, Option.bind_some]
    exact hrun
  · have hold : skeleton (p.plug (.node (pushSizes l (d.moveDivider delta cell).first)
        (pushSizes r (d.moveDivider delta cell).second) (some (d.moveDivider delta cell)))) =
        skeleton root := by
      rw [← hroot]
      refine skeleton_plug_congr ?_ p
      have h1 := skeleton_pushSizes l (d.moveDivider delta cell).first
      have h2 := skeleton_pushSizes r (d.moveDivider delta cell).second
      simp only [skeleton] at h1 h2 ⊢
      simp only [BinTree.mapData, h1, h2, Option.map_some,
        SplitDirectionAndSize.direction_moveDivider]
    rw [hsize, h.laidOut_iff (hskel.trans hold), tiled_passAfter_cascade_iff hrange hp]
    exact tiled_moved_iff hnode (fun ax => (hp.holeSize_le ax).trans_lt (hrange ax)) delta cell

end TabInner

end Wakterm.Mux
