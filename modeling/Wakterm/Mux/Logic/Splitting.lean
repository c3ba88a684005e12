import Wakterm.Mux.Logic.Relayout
import Wakterm.Mux.Logic.Tiling

/-!
# What `split_and_insert` does

`splitAndInsert_cases` lists the outcomes once: the request is refused and the tab is as before; a
leaf is split, with the two panes resized on the way; or the whole tab is split.
-/

namespace Wakterm.Mux

open Wakterm.Machine Wakterm.Bintree

/-- The panes of the first and of the second half. -/
def SplitRequest.order (request : SplitRequest) (existing pane : Pane) : Pane × Pane :=
  if request.targetIsSecond then (existing, pane) else (pane, existing)

/-- The index of the new pane when the leaf at an index is split. -/
def SplitRequest.newIndex (request : SplitRequest) (paneIndex : Nat) : Nat :=
  if request.targetIsSecond then paneIndex + 1 else paneIndex

/-- The half that is left to what was there before. -/
def SplitRequest.keptHalf (request : SplitRequest) (info : SplitDirectionAndSize) :
    TerminalSize :=
  if request.targetIsSecond then info.first else info.second

def SplitRequest.newRoot (request : SplitRequest) (info : SplitDirectionAndSize)
    (root : PaneTree) (pane : Pane) : PaneTree :=
  if request.targetIsSecond then .node root (.leaf pane) (some info)
  else .node (.leaf pane) root (some info)

namespace TabInner

/-- The tab after a leaf split; the new pane gets the focus when it comes
second. -/
def withLeafSplit (tab : TabInner) (request : SplitRequest) (info : SplitDirectionAndSize)
    (p : Path Pane SplitDirectionAndSize) (existing pane : Pane) (paneIndex : Nat) : TabInner :=
  { tab with
    pane := some (p.plug (.node (.leaf (request.order existing pane).1)
      (.leaf (request.order existing pane).2) (some info)))
    active := if request.targetIsSecond then paneIndex + 1 else tab.active
    recency := if request.targetIsSecond then tab.recency.tag (paneIndex + 1) else tab.recency
    calls := tab.calls ++ [.resize (request.order existing pane).1 info.first,
      .resize (request.order existing pane).2 info.second] }

variable {tab tab' : TabInner} {root : PaneTree}

/-! ## Reading leaves any tab as it is -/

theorem iterPanesIgnoringZoom_tab {panes : List PositionedPane}
    (h : tab.iterPanesIgnoringZoom = some (panes, tab')) : tab' = tab := by
  simp only [iterPanesIgnoringZoom, iterPanesImpl, Option.bind_eq_bind,
    Option.bind_eq_some_iff] at h
  obtain ⟨root, hroot, ⟨panes', tree⟩, hwalk, h⟩ := h
  have hvisit : ∀ s c, (tab.visitPane s c).2 = c := by
    intro s c
    obtain ⟨t, p⟩ := c
    cases t <;> rfl
  obtain rfl := Cursor.tree_of_walk (Move.tree_landed .preorderNext) hvisit _ _ _ _ _ hwalk
  simp only [Option.some.injEq, Prod.mk.injEq] at h
  rw [← h.2]
  simp only [← hroot]

theorem getActivePane_same {active : Option Pane}
    (h : tab.getActivePane = some (active, tab')) : tab' = tab := by
  unfold getActivePane at h
  cases hz : tab.zoomed with
  | some z =>
    rw [hz] at h
    simp only [Option.some.injEq, Prod.mk.injEq] at h
    exact h.2.symm
  | none =>
    rw [hz] at h
    simp only [Option.bind_eq_bind, Option.bind_eq_some_iff] at h
    obtain ⟨⟨panes, tab₁⟩, hpanes, h⟩ := h
    obtain rfl := iterPanesIgnoringZoom_tab hpanes
    simp only [Option.some.injEq, Prod.mk.injEq] at h
    exact h.2.symm

theorem sendResizeBatch_pane {sizes : List (PaneId × TerminalSize)}
    (h : tab.sendResizeBatch sizes = some tab') : tab'.pane = tab.pane := by
  simp only [sendResizeBatch, Option.bind_eq_bind, Option.bind_eq_some_iff] at h
  obtain ⟨⟨active, tab₁⟩, hactive, h⟩ := h
  obtain rfl := getActivePane_same hactive
  cases active with
  | some pane =>
    cases h
    rfl
  | none =>
    cases h
    rfl

theorem resizeImpl_skeleton {size : TerminalSize} {sendResize : Bool}
    (hz : tab.zoomed = none) (hroot : tab.pane = some root)
    (h : tab.resizeImpl size sendResize = some tab') :
    ∃ root', tab'.pane = some root' ∧ skeleton root' = skeleton root := by
  by_cases hsize : ∀ ax, 1 ≤ size.cells ax
  · simp only [resizeImpl, if_neg ((forall_one_le_iff size).mp hsize), hz,
      cellDimensions_eq hsize, hroot, Option.bind_eq_bind, Option.bind_some] at h
    refine ⟨relaid root tab.size size, ?_, skeleton_relaid root tab.size size⟩
    cases sendResize with
    | false =>
      cases h
      rfl
    | true => exact (sendResizeBatch_pane h).trans rfl
  · rw [resizeImpl_empty hsize] at h
    cases h
    exact ⟨root, hroot, rfl⟩

variable {paneIndex : Nat} {request : SplitRequest} {info : SplitDirectionAndSize}
  {accepts : Pane → TerminalSize → Bool} {p : Path Pane SplitDirectionAndSize}
  {existing pane : Pane}

theorem computeSplitSize_tab {info : Option SplitDirectionAndSize} (hz : tab.zoomed = none)
    (h : tab.computeSplitSize paneIndex request = some (info, tab')) : tab' = tab := by
  simp only [computeSplitSize, Option.bind_eq_bind, Option.bind_eq_some_iff] at h
  obtain ⟨cell, _, h⟩ := h
  split_ifs at h
  · simp only [Option.some.injEq, Prod.mk.injEq] at h
    exact h.2.symm
  · simp only [setZoomed, hz, Option.isSome_none, if_true, Option.bind_some, iterPanes,
      Option.bind_eq_some_iff] at h
    obtain ⟨⟨panes, tab₁⟩, hpanes, h⟩ := h
    simp only [Option.some.injEq, Prod.mk.injEq] at h
    rw [← h.2]
    refine @iterPanesIgnoringZoom_tab _ _ panes ?_
    simpa only [iterPanesIgnoringZoom, iterPanesImpl, hz] using hpanes

/-! ## The outcomes of a split -/

/-- The request passes all checks and is for the leaf `existing` at the end of
the path `p`. -/
structure LeafSplit (tab : TabInner) (root : PaneTree) (paneIndex : Nat)
    (request : SplitRequest) (info : SplitDirectionAndSize)
    (p : Path Pane SplitDirectionAndSize) (existing : Pane) : Prop where
  unzoomed : tab.zoomed = none
  notNode : request.topLevel = true → root.cursor.isLeaf = true
  size : tab.computeSplitSize paneIndex request = some (some info, tab)
  space : noSpace info tab.size = false
  found : root.cursor.goToNthLeaf paneIndex = some (.ok ⟨.leaf existing, p⟩)

theorem splitLeafAndInsert_found
    (hfound : root.cursor.goToNthLeaf paneIndex = some (.ok ⟨.leaf existing, p⟩)) :
    splitLeafAndInsert accepts tab root paneIndex request info pane =
      let o := request.order existing pane
      if accepts o.1 info.first = false then
        some (.error (.resize o.1), { tab with pane := none }.call [.resize o.1 info.first])
      else if accepts o.2 info.second = false then
        some (.error (.resize o.2), { tab with pane := none }.call
          [.resize o.1 info.first, .resize o.2 info.second])
      else some (.ok (request.newIndex paneIndex),
        tab.withLeafSplit request info p existing pane paneIndex) := by
  cases hs : request.targetIsSecond <;>
    simp [splitLeafAndInsert, hfound, SplitRequest.order, SplitRequest.newIndex, hs,
      Cursor.leaf?, Cursor.setLeaf, Cursor.splitLeafAndInsertRight, Cursor.assignNode,
      Cursor.tree_eq_plug, withLeafSplit, call]

theorem LeafSplit.splitAndInsert_eq (h : tab.LeafSplit root paneIndex request info p existing)
    (hroot : tab.pane = some root) : splitAndInsert accepts tab paneIndex request pane =
      splitLeafAndInsert accepts tab root paneIndex request info pane := by
  have hone : request.topLevel = true → root.numLeaves = 1 := by
    intro htop
    have hleaf := h.notNode htop
    cases root with
    | empty => simp [BinTree.cursor, Cursor.isLeaf] at hleaf
    | node l r d => simp [BinTree.cursor, Cursor.isLeaf] at hleaf
    | leaf x => rfl
  have hfirst : (request.topLevel && decide (1 < root.numLeaves)) = false := by
    cases htop : request.topLevel with
    | false => rfl
    | true => simp [hone htop]
  have hsecond : (request.topLevel && !root.cursor.isLeaf) = false := by
    cases htop : request.topLevel with
    | false => rfl
    | true => simp [h.notNode htop]
  simp only [splitAndInsert, h.unzoomed, Option.isSome_none, Bool.false_eq_true, if_false,
    h.size, Option.bind_eq_bind, Option.bind_some, h.space, hroot, hfirst, hsecond]

/-- The whole tab is split: its tree, resized to one half, becomes a child of
the new root. -/
structure TopSplit (tab : TabInner) (root : PaneTree) (request : SplitRequest) (pane : Pane)
    (res : Except SplitError Nat) (tab' : TabInner) : Prop where
  unzoomed : tab.zoomed = none
  topLevel : request.topLevel = true
  node : ∃ l r d, root = .node l r d
  outcome : ∃ info tab₁ root₁ i, noSpace info tab.size = false ∧
    (if 1 < root.numLeaves then tab.resize (request.keptHalf info) = some tab₁
      else tab₁ = tab) ∧
    tab₁.pane = some root₁ ∧ skeleton root₁ = skeleton root ∧ res = .ok i ∧
    tab'.calls = tab₁.calls ∧ tab'.pane = some (request.newRoot info root₁ pane)

/-- What `split_and_insert` can come to, when it does not panic. -/
inductive SplitOutcome (accepts : Pane → TerminalSize → Bool) (tab : TabInner)
    (root : PaneTree) (paneIndex : Nat) (request : SplitRequest) (pane : Pane) :
    Except SplitError Nat → TabInner → Prop
  | refused (e : SplitError) :
      SplitOutcome accepts tab root paneIndex request pane (.error e) tab
  | leaf {info p existing res tab'} :
      tab.LeafSplit root paneIndex request info p existing →
      splitLeafAndInsert accepts tab root paneIndex request info pane = some (res, tab') →
      SplitOutcome accepts tab root paneIndex request pane res tab'
  | top {res tab'} : tab.TopSplit root request pane res tab' →
      SplitOutcome accepts tab root paneIndex request pane res tab'

section Outcome

variable {accepts : Pane → TerminalSize → Bool} {paneIndex : Nat} {request : SplitRequest}
  {info : SplitDirectionAndSize} {pane : Pane} {res : Except SplitError Nat}

theorem splitLeafAndInsert_cases (hroot : tab.pane = some root)
    (h : splitLeafAndInsert accepts tab root paneIndex request info pane = some (res, tab')) :
    (∃ e, res = .error e ∧ tab' = tab) ∨
      ∃ p existing, root.cursor.goToNthLeaf paneIndex = some (.ok ⟨.leaf existing, p⟩) := by
  cases hseek : root.cursor.goToNthLeaf paneIndex with
  | none => simp [splitLeafAndInsert, hseek] at h
  | some found =>
    obtain ⟨htree, hleaf⟩ := Cursor.tree_of_seek _ _ _ _ hseek
    cases found with
    | error e =>
      left
      simp only [splitLeafAndInsert, hseek, Option.bind_eq_bind, Option.bind_some,
        Option.some.injEq, Prod.mk.injEq] at h
      refine ⟨_, h.1.symm, ?_⟩
      rw [← h.2]
      simp only [Cursor.landed, BinTree.cursor, Cursor.tree_eq_plug, Path.plug] at htree
      simp only [Cursor.tree_eq_plug, htree, ← hroot]
    | ok c =>
      right
      obtain ⟨t, p⟩ := c
      have ht := hleaf _ rfl
      cases t with
      | empty => simp [Cursor.isLeaf] at ht
      | node l r d => simp [Cursor.isLeaf] at ht
      | leaf existing => exact ⟨p, existing, rfl⟩

theorem topSplit_of_node {l r : PaneTree} {d : Option SplitDirectionAndSize}
    (hz : tab.zoomed = none) (hroot : tab.pane = some (.node l r d))
    (htop : request.topLevel = true) (hspace : noSpace info tab.size = false) {tab₁ : TabInner}
    (htab₁ : if 1 < (BinTree.node l r d).numLeaves then
        tab.resize (request.keptHalf info) = some tab₁
      else tab₁ = tab) {root₁ : PaneTree} (hroot₁ : tab₁.pane = some root₁)
    (h : (match
        if request.targetIsSecond then root₁.cursor.splitNodeAndInsertRight pane
        else root₁.cursor.splitNodeAndInsertLeft pane with
      | .ok c => splitTopLevel tab₁ c request info
      | .error c => splitLeafAndInsert accepts tab₁ c.tree paneIndex request info pane) =
        some (res, tab')) : tab.TopSplit (.node l r d) request pane res tab' := by
  have hskel : skeleton root₁ = skeleton (.node l r d) := by
    by_cases hn : 1 < (BinTree.node l r d).numLeaves
    · rw [if_pos hn] at htab₁
      obtain ⟨root', hroot', hskel⟩ := resizeImpl_skeleton hz hroot htab₁
      cases hroot₁.symm.trans hroot'
      exact hskel
    · rw [if_neg hn] at htab₁
      rw [htab₁, hroot] at hroot₁
      cases hroot₁
      rfl
  obtain ⟨l₁, r₁, d₁, rfl⟩ : ∃ l₁ r₁ d₁, root₁ = .node l₁ r₁ d₁ := by
    cases root₁ with
    | empty => simp [skeleton, BinTree.mapData] at hskel
    | leaf x => simp [skeleton, BinTree.mapData] at hskel
    | node l₁ r₁ d₁ => exact ⟨l₁, r₁, d₁, rfl⟩
  have htree : (if request.targetIsSecond then
      (BinTree.node l₁ r₁ d₁).cursor.splitNodeAndInsertRight pane
      else (BinTree.node l₁ r₁ d₁).cursor.splitNodeAndInsertLeft pane) =
      .ok ⟨if request.targetIsSecond then .node (.node l₁ r₁ d₁) (.leaf pane) none
        else .node (.leaf pane) (.node l₁ r₁ d₁) none, .top⟩ := by
    cases request.targetIsSecond <;> rfl
  rw [htree] at h
  simp only [splitTopLevel, Option.bind_eq_bind, Option.bind_eq_some_iff, Option.some.injEq,
    Prod.mk.injEq] at h
  obtain ⟨size, _, hres, rfl⟩ := h
  refine ⟨hz, htop, ⟨l, r, d, rfl⟩, info, tab₁, _, _, hspace, htab₁, hroot₁, hskel, hres.symm, rfl, ?_⟩
  simp only [SplitRequest.newRoot]
  cases request.targetIsSecond <;> rfl

/-- **The outcomes of `split_and_insert`.** -/
theorem splitOutcome_of_run (hroot : tab.pane = some root)
    (h : splitAndInsert accepts tab paneIndex request pane = some (res, tab')) :
    SplitOutcome accepts tab root paneIndex request pane res tab' := by
  unfold splitAndInsert at h
  by_cases hz : tab.zoomed.isSome = true
  · rw [if_pos hz] at h
    cases h
    exact .refused _
  · rw [if_neg hz] at h
    have hz : tab.zoomed = none := by simpa using hz
    simp only [Option.bind_eq_bind, Option.bind_eq_some_iff] at h
    obtain ⟨⟨info, tab₀⟩, hcompute, h⟩ := h
    obtain rfl := computeSplitSize_tab hz hcompute
    cases info with
    | none =>
      cases h
      exact .refused _
    | some info =>
      dsimp only at h
      by_cases hspace : noSpace info tab₀.size = true
      · rw [if_pos hspace] at h
        cases h
        exact .refused _
      · rw [if_neg hspace, hroot, Option.bind_some] at h
        rw [Bool.not_eq_true] at hspace
        -- splitting a leaf, at whatever level
        have hleaf : (request.topLevel = true → root.cursor.isLeaf = true) →
            splitLeafAndInsert accepts tab₀ root paneIndex request info pane =
              some (res, tab') →
            SplitOutcome accepts tab₀ root paneIndex request pane res tab' := by
          intro hnode h
          rcases splitLeafAndInsert_cases hroot h with ⟨e, rfl, rfl⟩ | ⟨p, x, hfound⟩
          · exact .refused e
          · exact .leaf ⟨hz, hnode, hcompute, hspace, hfound⟩ h
        cases htop : request.topLevel with
        | false =>
          simp only [htop, Bool.false_and, Bool.false_eq_true, if_false, Option.bind_some,
            hroot] at h
          exact hleaf (by simp [htop]) h
        | true =>
          match root, hroot, hleaf with
          | .leaf x, hroot, hleaf =>
            simp only [htop, BinTree.numLeaves, BinTree.cursor, Cursor.isLeaf, lt_irrefl,
              decide_false, Bool.and_false, Bool.not_true, Bool.false_eq_true, if_false,
              Option.bind_some, hroot] at h
            exact hleaf (fun _ => rfl) h
          | .empty, hroot, _ =>
            -- there is neither a node nor a leaf to split
            have h : splitLeafAndInsert accepts tab₀ .empty paneIndex request info pane =
                some (res, tab') := by
              cases hs : request.targetIsSecond <;>
                simpa only [htop, hs, BinTree.numLeaves, BinTree.cursor, Cursor.isLeaf,
                  Nat.not_lt_zero, decide_false, Bool.and_false, Bool.true_and,
                  Bool.not_false, Bool.false_eq_true, if_false, if_true,
                  Option.bind_some, hroot, Cursor.splitNodeAndInsertLeft,
                  Cursor.splitNodeAndInsertRight, Cursor.tree_eq_plug,
                  Path.plug] using h
            rcases splitLeafAndInsert_cases hroot h with ⟨e, rfl, rfl⟩ | ⟨p, x, hfound⟩
            · exact .refused e
            · cases hfound
          | .node l r d, hroot, _ =>
            simp only [htop, Bool.true_and, decide_eq_true_eq] at h
            refine .top ?_
            by_cases hn : 1 < (BinTree.node l r d).numLeaves
            · rw [if_pos hn] at h
              simp only [Option.bind_eq_some_iff] at h
              obtain ⟨tab₁, hres, root₁, hroot₁, h⟩ := h
              have hnode : root₁.cursor.isLeaf = false := by
                obtain ⟨root', hroot', hskel⟩ := resizeImpl_skeleton hz hroot hres
                cases hroot₁.symm.trans hroot'
                cases root₁ with
                | empty => rfl
                | leaf x => simp [skeleton, BinTree.mapData] at hskel
                | node l₁ r₁ d₁ => rfl
              rw [hnode, Bool.not_false, if_pos rfl] at h
              exact topSplit_of_node hz hroot htop hspace (by rwa [if_pos hn]) hroot₁ h
            · rw [if_neg hn, Option.bind_some, hroot, Option.bind_some] at h
              exact topSplit_of_node hz hroot htop hspace (by rw [if_neg hn]) hroot h

end Outcome

end TabInner

end Wakterm.Mux
