import Wakterm.Mux.Logic.Splitting

/-!
# The sizes of a split

Where `compute_split_size` gets the size of the pane to split from, and what it
makes of it: `iter_panes_impl` finds the allocation of the leaf in the nearest
ancestor, and the two halves fill it unless the requested number of cells is
the largest `usize` (`LeafSplit.fits_iff`).
-/

namespace Wakterm.Mux

open Wakterm.Machine Wakterm.Bintree

theorem parentSize_foldl_some (path : List (PathBranch × Option SplitDirectionAndSize))
    (left top : Nat) (size : TerminalSize) :
    (path.foldl TabInner.offsetStep (left, top, some size)).2.2 = some size := by
  induction path generalizing left top with
  | nil => rfl
  | cons step path ih =>
    obtain ⟨branch, node⟩ := step
    cases node with
    | none => exact ih left top
    | some node => cases branch <;> exact ih _ _

theorem parentSize_pathOffsets {rootSize : TerminalSize}
    {p : Path Pane SplitDirectionAndSize} (hp : TiledAround rootSize p) :
    (TabInner.pathOffsets p.toRoot).2.2.getD rootSize = holeSize rootSize p := by
  cases p with
  | top => rfl
  | left r d up =>
    obtain ⟨d, rfl⟩ := hp.data_left
    have h := parentSize_foldl_some up.toRoot 0 0 d.first
    exact congrArg (Option.getD · rootSize) h
  | right l d up =>
    obtain ⟨d, rfl⟩ := hp.data_right
    have h := parentSize_foldl_some up.toRoot (uadd 0 d.leftOfSecond)
      (uadd 0 d.topOfSecond) d.second
    exact congrArg (Option.getD · rootSize) h

namespace TabInner

variable {tab : TabInner} {root : PaneTree}

theorem getElem?_positioned (t : PaneTree) :
    ∀ (p : Path Pane SplitDirectionAndSize) (i k : Nat) (c : PaneCursor),
    ((t.preorderCursors p).filter Cursor.isLeaf)[k]? = some c →
    ∃ x, c.it = .leaf x ∧ (tab.positioned t p i)[k]? = some (tab.positionedPane (i + k) c x) := by
  induction t with
  | empty =>
    intro p i k c hc
    simp [BinTree.preorderCursors, Cursor.isLeaf] at hc
  | leaf x =>
    intro p i k c hc
    cases k with
    | zero =>
      cases hc
      exact ⟨x, rfl, rfl⟩
    | succ k => exact absurd hc (by simp [BinTree.numLeaves])
  | node l r d ihl ihr =>
    intro p i k c hc
    rw [BinTree.preorderCursors, List.filter_cons_of_neg (by simp [Cursor.isLeaf]),
      List.filter_append, List.getElem?_append, BinTree.length_leafCursors] at hc
    rw [positioned, List.getElem?_append, length_positioned]
    split_ifs at hc ⊢ with hk
    · exact ihl _ _ _ _ hc
    · obtain ⟨x, hx, h⟩ := ihr _ (i + l.numLeaves) _ _ hc
      refine ⟨x, hx, h.trans ?_⟩
      rw [show i + l.numLeaves + (k - l.numLeaves) = i + k by omega]

/-- The cells asked for, at least one. -/
def targetCells (dim : Nat) (size : SplitSize) : Nat :=
  max (match size with
    | .cells n => n
    | .percent n => umul dim n / 100) 1

theorem targetCells_lt {dim : Nat} {size : SplitSize} (hsize : ∀ n, size = .cells n → n < 2 ^ 64) :
    targetCells dim size < 2 ^ 64 - 1 ∨ size = .cells (2 ^ 64 - 1) := by
  cases size with
  | cells n =>
    have := hsize n rfl
    by_cases h : n = 2 ^ 64 - 1
    · exact .inr (by rw [h])
    · left
      simp only [targetCells]
      omega
  | percent n =>
    left
    have : umul dim n < 2 ^ 64 := Nat.mod_lt _ (by decide)
    simp only [targetCells]
    omega

theorem splitDimension_sum_iff {dim : Nat} {request : SplitRequest}
    (hsize : ∀ n, request.size = .cells n → n < 2 ^ 64)
    (h1 : (splitDimension dim request).1 ≠ 0) (h2 : (splitDimension dim request).2 ≠ 0) :
    (splitDimension dim request).1 + 1 + (splitDimension dim request).2 = dim ↔
      request.size ≠ .cells (2 ^ 64 - 1) := by
  have hdef : splitDimension dim request =
      if request.targetIsSecond then
        (dim - uadd (targetCells dim request.size) 1, targetCells dim request.size)
      else (targetCells dim request.size, dim - uadd (targetCells dim request.size) 1) := rfl
  rcases @targetCells_lt dim _ hsize with hlt | hmax
  · -- no wrap: the remainder is what is left after target and divider
    have hadd : uadd (targetCells dim request.size) 1 = targetCells dim request.size + 1 :=
      uadd_of_lt (by omega)
    have hne : request.size ≠ .cells (2 ^ 64 - 1) := by
      intro hmax
      rw [hmax] at hlt
      simp only [targetCells] at hlt
      omega
    rw [hdef, hadd] at h1 h2 ⊢
    refine iff_of_true ?_ hne
    split_ifs at h1 h2 ⊢ <;>
    · dsimp only at h1 h2 ⊢
      omega
  · have htarget : targetCells dim request.size = 2 ^ 64 - 1 := by
      rw [hmax]
      simp only [targetCells]
      omega
    rw [hdef, htarget]
    refine iff_of_false ?_ (fun h => h hmax)
    have hwrap : uadd (2 ^ 64 - 1) 1 = 0 := by decide
    rw [hwrap]
    split_ifs <;>
    · dsimp only
      omega

theorem splitArea_fits_iff {cell area : TerminalSize} {request : SplitRequest}
    {tabSize : TerminalSize} (hsize : ∀ n, request.size = .cells n → n < 2 ^ 64)
    (hspace : noSpace (splitArea cell area.cols area.rows request) tabSize = false) :
    (splitArea cell area.cols area.rows request).Fits area ↔
      request.size ≠ .cells (2 ^ 64 - 1) := by
  simp only [noSpace, Bool.or_eq_false_iff, decide_eq_false_iff_not] at hspace
  obtain ⟨⟨⟨⟨⟨hfr, hfc⟩, hsr⟩, hsc⟩, _⟩, _⟩ := hspace
  cases hd : request.direction with
  | horizontal =>
    simp only [splitArea, hd] at hfr hfc hsr hsc
    simp only [SplitDirectionAndSize.Fits, splitArea, hd, true_and]
    exact splitDimension_sum_iff hsize hfc hsc
  | vertical =>
    simp only [splitArea, hd] at hfr hfc hsr hsc
    simp only [SplitDirectionAndSize.Fits, splitArea, hd, true_and]
    exact splitDimension_sum_iff hsize hfr hsr

theorem one_le_of_noSpace {info : SplitDirectionAndSize} {tabSize : TerminalSize}
    (h : noSpace info tabSize = false) (ax : Axis) :
    1 ≤ info.first.cells ax ∧ 1 ≤ info.second.cells ax := by
  simp only [noSpace, Bool.or_eq_false_iff, decide_eq_false_iff_not] at h
  obtain ⟨⟨⟨⟨⟨hfr, hfc⟩, hsr⟩, hsc⟩, _⟩, _⟩ := h
  cases ax <;> simp only [TerminalSize.cells_x, TerminalSize.cells_y] <;> omega

section LeafSplit

variable {paneIndex : Nat} {request : SplitRequest} {info : SplitDirectionAndSize}
  {p : Path Pane SplitDirectionAndSize} {existing : Pane}

theorem LeafSplit.plug_eq (h : tab.LeafSplit root paneIndex request info p existing) :
    p.plug (.leaf existing) = root := by
  have htree := (Cursor.tree_of_seek _ _ _ _ h.found).1
  simpa only [Cursor.landed, BinTree.cursor, Cursor.tree_eq_plug, Path.plug] using htree

theorem LeafSplit.cursor_eq (h : tab.LeafSplit root paneIndex request info p existing)
    (hp : root.Proper) : ((root.preorderCursors .top).filter Cursor.isLeaf)[paneIndex]? =
      some ⟨.leaf existing, p⟩ := by
  have hgo := BinTree.goToNthLeaf_cursor root hp paneIndex
  cases hc : ((root.preorderCursors .top).filter Cursor.isLeaf)[paneIndex]? with
  | none =>
    rw [hc] at hgo
    obtain ⟨e, he, _⟩ := hgo
    cases h.found.symm.trans he
  | some c =>
    rw [hc] at hgo
    cases h.found.symm.trans hgo
    rfl

theorem LeafSplit.info_eq (h : tab.LeafSplit root paneIndex request info p existing)
    (hroot : tab.pane = some root) (ht : Tiled root tab.size) : ∃ cell, info =
      splitArea cell (holeSize tab.size p).cols (holeSize tab.size p).rows request := by
  have hp := ((tiled_plug tab.size p _).mp (h.plug_eq ▸ ht)).2
  have hsize := h.size
  simp only [computeSplitSize, Option.bind_eq_bind, Option.bind_eq_some_iff] at hsize
  obtain ⟨cell, _, hsize⟩ := hsize
  refine ⟨cell, ?_⟩
  by_cases htop : request.topLevel = true
  · -- the root is the leaf, and has the whole tab
    rw [if_pos htop] at hsize
    obtain rfl : p = .top := by
      have hleaf := h.notNode htop
      have hplug := h.plug_eq
      cases root with
      | empty => simp [BinTree.cursor, Cursor.isLeaf] at hleaf
      | node l r d => simp [BinTree.cursor, Cursor.isLeaf] at hleaf
      | leaf x =>
        have hcur := h.cursor_eq (.inr trivial)
        cases paneIndex with
        | zero => exact (congrArg Cursor.path (Option.some.inj hcur)).symm
        | succ k => exact absurd hcur (by simp [BinTree.numLeaves])
    simp only [Option.some.injEq, Prod.mk.injEq, and_true] at hsize
    exact hsize.symm
  · obtain ⟨x, hx, hpos⟩ := @getElem?_positioned tab root .top 0 paneIndex _
      (h.cursor_eq (.inr ht.full))
    have hpanes := iterPanesIgnoringZoom_eq hroot (.inr ht.full)
    have hpanes' : tab.iterPanes = some (tab.positioned root .top 0, tab) := by
      simpa only [iterPanes, iterPanesIgnoringZoom, iterPanesImpl, h.unzoomed] using hpanes
    rw [if_neg htop] at hsize
    simp only [setZoomed, h.unzoomed, Option.isSome_none, if_true, Option.bind_some, hpanes',
      hpos, Option.map_some, Option.some.injEq, Prod.mk.injEq, and_true] at hsize
    rw [← hsize]
    simp only [positionedPane, parentSize_pathOffsets hp]

/-- **The halves fill the allocation of the leaf**, unless the request is for
the largest number of cells there is. -/
theorem LeafSplit.fits_iff (h : tab.LeafSplit root paneIndex request info p existing)
    (hroot : tab.pane = some root) (ht : Tiled root tab.size)
    (hsize : ∀ n, request.size = .cells n → n < 2 ^ 64) :
    info.Fits (holeSize tab.size p) ↔ request.size ≠ .cells (2 ^ 64 - 1) := by
  obtain ⟨cell, hinfo⟩ := h.info_eq hroot ht
  have hspace := h.space
  rw [hinfo] at hspace ⊢
  exact splitArea_fits_iff hsize hspace

/-- The tree after the split is tiled exactly when the halves fit. -/
theorem LeafSplit.tiled_iff (h : tab.LeafSplit root paneIndex request info p existing)
    (ht : Tiled root tab.size) (x y : Pane) :
    Tiled (p.plug (.node (.leaf x) (.leaf y) (some info))) tab.size ↔
      info.Fits (holeSize tab.size p) := by
  have hp := ((tiled_plug tab.size p _).mp (h.plug_eq ▸ ht)).2
  have hpos := one_le_of_noSpace h.space
  rw [tiled_plug]
  simp only [Tiled, hp, and_true]
  exact and_iff_left ⟨fun ax => (hpos ax).1, fun ax => (hpos ax).2⟩

end LeafSplit

end TabInner

end Wakterm.Mux
