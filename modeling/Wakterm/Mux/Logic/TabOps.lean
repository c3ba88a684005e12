import Mathlib.Logic.Relation
import Wakterm.Mux.Logic.Mirror
import Wakterm.Mux.Logic.RemoveZoomed
import Wakterm.Mux.Logic.Splitting

/-!
# The operations of a tab as steps

`TabOp` names the operations of a tab with their arguments, `TabOp.apply` runs one of them; `none`
is a panic, as in the operations themselves.
-/

namespace Wakterm.Mux

open Wakterm.Machine Wakterm.Bintree

/-- An operation of a tab with its arguments. -/
inductive TabOp where
  | assignPane (pane : Pane)
  | splitAndInsert (paneIndex : Nat) (request : SplitRequest) (pane : Pane)
  | removePane (paneId : PaneId)
  | killPane (paneId : PaneId)
  | killPanesInDomain (domain : DomainId)
  | pruneDeadPanes (isGone : Pane → Bool)
  | resize (size : TerminalSize)
  | resizeSplitBy (splitIndex : Nat) (delta : Int)
  | adjustPaneSize (direction : PaneDirection) (amount : Nat)
  | setActiveIdx (paneIndex : Nat)
  | swapActiveWithIndex (paneIndex : Nat) (keepFocus : Bool)
  | rotateClockwise
  | rotateCounterClockwise
  | toggleZoom
  | syncWithPaneTree (size : TerminalSize) (root : PaneNode) (makePane : PaneEntry → Pane)

/-- Run an operation. -/
def TabOp.apply (accepts : Pane → TerminalSize → Bool) (tab : TabInner) :
    TabOp → Option TabInner
  | .assignPane pane => tab.assignPane pane
  | .splitAndInsert paneIndex request pane =>
    (tab.splitAndInsert accepts paneIndex request pane).map (·.2)
  | .removePane paneId => (tab.removePane paneId).map (·.2)
  | .killPane paneId => (tab.killPane paneId).map (·.2)
  | .killPanesInDomain domain => (tab.killPanesInDomain domain).map (·.2)
  | .pruneDeadPanes isGone => (tab.pruneDeadPanes isGone).map (·.2)
  | .resize size => tab.resize size
  | .resizeSplitBy splitIndex delta => tab.resizeSplitBy splitIndex delta
  | .adjustPaneSize direction amount => tab.adjustPaneSize direction amount
  | .setActiveIdx paneIndex => tab.setActiveIdx paneIndex
  | .swapActiveWithIndex paneIndex keepFocus => tab.swapActiveWithIndex paneIndex keepFocus
  | .rotateClockwise => tab.rotateClockwise
  | .rotateCounterClockwise => tab.rotateCounterClockwise
  | .toggleZoom => tab.toggleZoom
  | .syncWithPaneTree size root makePane => tab.syncWithPaneTree size root makePane

def TabOp.takes : TabOp → Option (Pane → Bool)
  | .removePane paneId => some fun pane => pane.paneId = paneId
  | .killPane paneId => some fun pane => pane.paneId = paneId
  | .killPanesInDomain domain => some fun pane => pane.domainId = domain
  | .pruneDeadPanes isGone => some isGone
  | _ => none

theorem TabOp.apply_of_takes {accepts : Pane → TerminalSize → Bool} {tab : TabInner}
    {op : TabOp} {g : Pane → Bool} (h : op.takes = some g) :
    op.apply accepts tab = (tab.removePaneIf fun _ x => g x).map (·.2) := by
  cases op with
  | removePane paneId =>
    cases h
    simp only [apply, TabInner.removePane, Option.bind_eq_bind]
    cases tab.removePaneIf _ <;> rfl
  | killPane paneId =>
    cases h
    simp only [apply, TabInner.killPane, Option.bind_eq_bind]
    cases tab.removePaneIf _ <;> rfl
  | killPanesInDomain domain =>
    cases h
    simp only [apply, TabInner.killPanesInDomain, Option.bind_eq_bind]
    cases tab.removePaneIf _ <;> rfl
  | pruneDeadPanes isGone =>
    cases h
    simp only [apply, TabInner.pruneDeadPanes, Option.bind_eq_bind]
    cases tab.removePaneIf _ <;> rfl
  | _ => cases h

namespace TabInner

variable {tab tab' : TabInner} {root : PaneTree}

/-! ## Calls that say nothing about sizes -/

/-- The tab has only made calls that tell no size. -/
def OnlyCalls (tab tab' : TabInner) : Prop :=
  ∃ cs, tab' = tab.call cs ∧ ∀ c ∈ cs, c.isResize = false

theorem onlyCalls_refl (tab : TabInner) : OnlyCalls tab tab :=
  ⟨[], call_nil.symm, by simp⟩

theorem onlyCalls_call {cs : List PaneCall} (h : ∀ c ∈ cs, c.isResize = false) :
    OnlyCalls tab (tab.call cs) :=
  ⟨cs, rfl, h⟩

theorem OnlyCalls.lastTold (h : OnlyCalls tab tab') (x : Pane) :
    Mux.lastTold x tab'.calls = Mux.lastTold x tab.calls := by
  obtain ⟨cs, rfl, hcs⟩ := h
  simp only [call, lastTold_append, lastTold_of_not_resize hcs, Option.none_or]

theorem OnlyCalls.zoomed (h : OnlyCalls tab tab') : tab'.zoomed = tab.zoomed := by
  obtain ⟨cs, rfl, -⟩ := h
  rfl

theorem onlyCalls_of_sendResizeBatch {sizes : List (PaneId × TerminalSize)}
    (h : tab.sendResizeBatch sizes = some tab') : OnlyCalls tab tab' := by
  simp only [sendResizeBatch, Option.bind_eq_bind, Option.bind_eq_some_iff] at h
  obtain ⟨⟨active, tab₁⟩, hactive, h⟩ := h
  obtain rfl := getActivePane_same hactive
  cases active with
  | some pane =>
    cases h
    exact onlyCalls_call (by simp [PaneCall.isResize])
  | none =>
    cases h
    exact onlyCalls_refl _

theorem onlyCalls_of_adviseFocusChange {prior : Option Pane}
    (h : tab.adviseFocusChange prior = some tab') : OnlyCalls tab tab' := by
  simp only [adviseFocusChange, Option.bind_eq_bind, Option.bind_eq_some_iff] at h
  obtain ⟨⟨active, tab₁⟩, hactive, h⟩ := h
  obtain rfl := getActivePane_same hactive
  obtain _ | prior := prior <;> obtain _ | current := active
  · cases h
    exact onlyCalls_refl _
  · cases h
    exact onlyCalls_call (by simp [PaneCall.isResize])
  · cases h
    exact onlyCalls_call (by simp [PaneCall.isResize])
  · by_cases hid : prior.paneId ≠ current.paneId
    · cases (if_pos hid).symm.trans h
      exact onlyCalls_call (by simp [PaneCall.isResize])
    · cases (if_neg hid).symm.trans h
      exact onlyCalls_refl _

variable {paneIndex : Nat} {accepts : Pane → TerminalSize → Bool} {request : SplitRequest}
  {info : SplitDirectionAndSize} {pane z : Pane} {res : Except SplitError Nat}
  {clockwise keepFocus : Bool} {start : List PositionedPane → Option PositionedPane}
  {next : PaneCursor → Except PaneCursor PaneCursor}

theorem onlyCalls_of_setActiveIdx (h : tab.setActiveIdx paneIndex = some tab') :
    OnlyCalls { tab with active := paneIndex, recency := tab.recency.tag paneIndex } tab' := by
  simp only [setActiveIdx, Option.bind_eq_bind, Option.bind_eq_some_iff] at h
  obtain ⟨⟨prior, tab₁⟩, hactive, h⟩ := h
  obtain rfl := getActivePane_same hactive
  exact onlyCalls_of_adviseFocusChange h

/-! ## What leaves the zoom alone -/

theorem zoomed_of_resizeImpl {size : TerminalSize} {sendResize : Bool}
    (h : tab.resizeImpl size sendResize = some tab') : tab'.zoomed = tab.zoomed := by
  unfold resizeImpl at h
  by_cases hsize : size.rows = 0 ∨ size.cols = 0
  · rw [if_pos hsize] at h
    cases h
    rfl
  · rw [if_neg hsize] at h
    cases hz : tab.zoomed with
    | some z =>
      rw [hz] at h
      cases h
      rfl
    | none =>
      rw [hz] at h
      simp only [Option.bind_eq_bind, Option.bind_eq_some_iff] at h
      obtain ⟨dims, _, root, _, h⟩ := h
      cases sendResize with
      | false =>
        cases h
        rfl
      | true => exact (onlyCalls_of_sendResizeBatch h).zoomed

theorem zoomed_of_cascadeSizeFromCursor {c : PaneCursor}
    (h : tab.cascadeSizeFromCursor c = some tab') : tab'.zoomed = tab.zoomed := by
  unfold cascadeSizeFromCursor at h
  split at h
  · cases h
    rfl
  · simp only [Option.bind_eq_bind, Option.bind_eq_some_iff] at h
    obtain ⟨⟨calls, tree⟩, _, h⟩ := h
    exact (onlyCalls_of_sendResizeBatch h).zoomed

theorem zoomed_of_resizeSplitBy {splitIndex : Nat} {delta : Int}
    (h : tab.resizeSplitBy splitIndex delta = some tab') : tab'.zoomed = tab.zoomed := by
  unfold resizeSplitBy at h
  split_ifs at h
  · cases h
    rfl
  · simp only [Option.bind_eq_bind, Option.bind_eq_some_iff] at h
    obtain ⟨root, _, res, _, h⟩ := h
    cases res with
    | error c =>
      cases h
      rfl
    | ok c =>
      simp only [Option.bind_eq_some_iff] at h
      obtain ⟨c', _, h⟩ := h
      exact zoomed_of_cascadeSizeFromCursor h

theorem zoomed_of_adjustPaneSize {direction : PaneDirection} {amount : Nat}
    (h : tab.adjustPaneSize direction amount = some tab') : tab'.zoomed = tab.zoomed := by
  unfold adjustPaneSize at h
  split_ifs at h
  · cases h
    rfl
  · simp only [Option.bind_eq_bind, Option.bind_eq_some_iff] at h
    obtain ⟨root, _, res, _, h⟩ := h
    cases res with
    | error c =>
      cases h
      rfl
    | ok c =>
      simp only [Option.bind_eq_some_iff] at h
      obtain ⟨⟨splitDirection, delta⟩, _, h⟩ := h
      split at h
      · cases h
        rfl
      · simp only [Option.bind_eq_some_iff] at h
        obtain ⟨c', _, h⟩ := h
        exact zoomed_of_cascadeSizeFromCursor h

theorem zoomed_of_splitLeafAndInsert
    (h : splitLeafAndInsert accepts tab root paneIndex request info pane = some (res, tab')) :
    tab'.zoomed = tab.zoomed := by
  cases hfound : root.cursor.goToNthLeaf paneIndex with
  | none =>
    simp only [splitLeafAndInsert, hfound, Option.bind_eq_bind, Option.bind_none] at h
    cases h
  | some found =>
    cases found with
    | error c =>
      simp only [splitLeafAndInsert, hfound, Option.bind_eq_bind, Option.bind_some,
        Option.some.injEq, Prod.mk.injEq] at h
      rw [← h.2]
    | ok c =>
      obtain ⟨_, existing, p, rfl, _⟩ := BinTree.goToNthLeaf_ok hfound
      rw [splitLeafAndInsert_found hfound] at h
      dsimp only at h
      split_ifs at h <;> obtain ⟨rfl, rfl⟩ := Prod.mk.inj (Option.some.inj h) <;> rfl

theorem zoomed_of_splitTopLevel {c : PaneCursor}
    (h : splitTopLevel tab c request info = some (res, tab')) : tab'.zoomed = tab.zoomed := by
  simp only [splitTopLevel, Option.bind_eq_bind, Option.bind_eq_some_iff] at h
  obtain ⟨size, _, h⟩ := h
  simp only [Option.some.injEq, Prod.mk.injEq] at h
  rw [← h.2]

theorem zoomed_of_splitAndInsert
    (h : splitAndInsert accepts tab paneIndex request pane = some (res, tab')) :
    if tab.zoomed.isSome then tab' = tab else tab'.zoomed = none := by
  unfold splitAndInsert at h
  by_cases hz : tab.zoomed.isSome = true
  · rw [if_pos hz] at h ⊢
    simp only [Option.some.injEq, Prod.mk.injEq] at h
    exact h.2.symm
  · rw [if_neg hz] at h ⊢
    have hz : tab.zoomed = none := by simpa using hz
    simp only [Option.bind_eq_bind, Option.bind_eq_some_iff] at h
    obtain ⟨⟨info, tab₀⟩, hcompute, h⟩ := h
    obtain rfl := computeSplitSize_tab hz hcompute
    cases info with
    | none =>
      simp only [Option.some.injEq, Prod.mk.injEq] at h
      rw [← h.2]
      exact hz
    | some info =>
      dsimp only at h
      by_cases hspace : noSpace info tab₀.size = true
      · rw [if_pos hspace] at h
        simp only [Option.some.injEq, Prod.mk.injEq] at h
        rw [← h.2]
        exact hz
      · rw [if_neg hspace] at h
        simp only [Option.bind_eq_some_iff] at h
        obtain ⟨root, _, h⟩ := h
        -- the insertion itself, into the tab as it is or after its resize
        by_cases hmany : (request.topLevel && decide (1 < root.numLeaves)) = true
        · rw [if_pos hmany] at h
          simp only [Option.bind_eq_some_iff] at h
          obtain ⟨tab₁, hresize, root₁, _, h⟩ := h
          have hz₁ := (zoomed_of_resizeImpl hresize).trans hz
          by_cases hnode : (request.topLevel && !root₁.cursor.isLeaf) = true
          · rw [if_pos hnode] at h
            split at h
            · exact (zoomed_of_splitTopLevel h).trans hz₁
            · exact (zoomed_of_splitLeafAndInsert h).trans hz₁
          · rw [if_neg hnode] at h
            exact (zoomed_of_splitLeafAndInsert h).trans hz₁
        · rw [if_neg hmany, Option.bind_some] at h
          simp only [Option.bind_eq_some_iff] at h
          obtain ⟨root₁, _, h⟩ := h
          by_cases hnode : (request.topLevel && !root₁.cursor.isLeaf) = true
          · rw [if_pos hnode] at h
            split at h
            · exact (zoomed_of_splitTopLevel h).trans hz
            · exact (zoomed_of_splitLeafAndInsert h).trans hz
          · rw [if_neg hnode] at h
            exact (zoomed_of_splitLeafAndInsert h).trans hz

theorem zoomed_of_rotate (h : tab.rotate clockwise start next = some tab') :
    tab'.zoomed = tab.zoomed := by
  simp only [rotate, Option.bind_eq_bind, Option.bind_eq_some_iff] at h
  obtain ⟨⟨panes, tab₁⟩, hpanes, h⟩ := h
  obtain rfl := iterPanesIgnoringZoom_tab hpanes
  dsimp only at h
  split at h
  · cases h
    rfl
  · simp only [Option.bind_eq_some_iff] at h
    obtain ⟨root, _, ⟨hand, tree⟩, _, ⟨active, tab₂⟩, hactive, h⟩ := h
    obtain rfl := getActivePane_same hactive
    cases active <;> obtain rfl := Option.some.inj h <;> rfl

theorem swapActiveWithIndex_cases (h : tab.swapActiveWithIndex paneIndex keepFocus = some tab') :
    tab' = tab ∨
      ∃ active root, tab.getActivePane = some (some active, tab) ∧ tab.pane = some root ∧
        paneIndex < root.numLeaves ∧
        ((∃ root', active ∈ root'.leaves ∧ tab' = { tab with pane := some root' }) ∨
          tab.active < root.numLeaves ∧ tab'.zoomed = tab.zoomed) := by
  simp only [swapActiveWithIndex, Option.bind_eq_bind, Option.bind_eq_some_iff] at h
  obtain ⟨⟨active, tab₁⟩, hactive, h⟩ := h
  obtain rfl := getActivePane_same hactive
  cases active with
  | none =>
    cases h
    exact .inl rfl
  | some active =>
    simp only [Option.bind_eq_some_iff] at h
    obtain ⟨root, hroot, found, hfound, h⟩ := h
    cases found with
    | error c =>
      cases h
      have htree : c.tree = root := (Cursor.tree_of_seek _ _ _ _ hfound).1
      rw [htree, ← hroot]
      exact .inl rfl
    | ok c =>
      obtain ⟨hlt, x, p, rfl, hplug⟩ := BinTree.goToNthLeaf_ok hfound
      refine .inr ⟨active, root, hactive, hroot, hlt, ?_⟩
      simp only [Cursor.leaf?, Cursor.setLeaf, Cursor.tree_eq_plug, Option.bind_some,
        Option.bind_eq_some_iff] at h
      obtain ⟨found', hfound', h⟩ := h
      cases found' with
      | error c' =>
        cases h
        have htree : c'.tree = p.plug (.leaf active) := (Cursor.tree_of_seek _ _ _ _ hfound').1
        rw [Cursor.tree_eq_plug] at htree
        refine .inl ⟨_, ?_, rfl⟩
        rw [htree, Path.leaves_plug]
        simp [BinTree.leaves]
      | ok c' =>
        obtain ⟨hlt', y, q, rfl, hplug'⟩ := BinTree.goToNthLeaf_ok hfound'
        refine .inr ⟨?_, ?_⟩
        · rw [← hplug, ← BinTree.length_leaves, Path.leaves_plug]
          rw [← BinTree.length_leaves, Path.leaves_plug] at hlt'
          simpa [BinTree.leaves] using hlt'
        · simp only [Option.bind_some] at h
          split_ifs at h
          · exact (onlyCalls_of_setActiveIdx h).zoomed
          · exact (onlyCalls_of_adviseFocusChange h).zoomed

theorem zoomed_of_swapActiveWithIndex (h : tab.swapActiveWithIndex paneIndex keepFocus = some tab')
    : tab'.zoomed = tab.zoomed := by
  rcases swapActiveWithIndex_cases h with rfl | ⟨_, _, _, _, _, ⟨_, _, rfl⟩ | ⟨_, h⟩⟩
  · rfl
  · rfl
  · exact h

/-! ## A tab with a single pane -/

theorem goToNthLeaf_leaf (x : Pane) (n : Nat) : (BinTree.leaf x : PaneTree).cursor.goToNthLeaf n =
      some (if n = 0 then .ok ⟨.leaf x, .top⟩ else .error ⟨.leaf x, .top⟩) := by
  cases n <;> rfl

theorem swapActiveWithIndex_alone (hz : tab.zoomed = some z) (hroot : tab.pane = some (.leaf z))
    (h : tab.swapActiveWithIndex paneIndex keepFocus = some tab') :
    tab' = tab ∨ tab'.pane = some (.leaf z) ∧ tab'.size = tab.size ∧
      lastTold z tab'.calls = some tab.size := by
  have htab : { tab with pane := some (.leaf z) } = tab := by rw [← hroot]
  have htold : ∀ cs, lastTold z (cs ++ [PaneCall.resize z tab.size]) = some tab.size := by
    intro cs
    simp [lastTold_append, lastTold, PaneCall.tells]
  simp only [swapActiveWithIndex, getActivePane_zoomed hz, hroot, goToNthLeaf_leaf,
    Option.bind_eq_bind, Option.bind_some] at h
  by_cases hidx : paneIndex = 0
  · simp only [if_pos hidx, Cursor.leaf?, Cursor.setLeaf, Cursor.tree_eq_plug, Path.plug,
      goToNthLeaf_leaf, Option.bind_some] at h
    by_cases hactive : tab.active = 0
    · simp only [if_pos hactive, Option.bind_some] at h
      cases keepFocus with
      | true =>
        obtain ⟨cs, rfl, hcs⟩ := onlyCalls_of_setActiveIdx h
        refine .inr ⟨rfl, rfl, ?_⟩
        rw [OnlyCalls.lastTold ⟨cs, rfl, hcs⟩]
        exact htold _
      | false =>
        obtain ⟨cs, rfl, hcs⟩ := onlyCalls_of_adviseFocusChange h
        refine .inr ⟨rfl, rfl, ?_⟩
        rw [OnlyCalls.lastTold ⟨cs, rfl, hcs⟩]
        exact htold _
    · simp only [if_neg hactive] at h
      cases h
      exact .inl htab
  · simp only [if_neg hidx] at h
    cases h
    exact .inl htab

theorem rotate_alone (hstart : ∀ p, start [p] = some p)
    (hnext : ∀ x : Pane, next ⟨.leaf x, .top⟩ = .error ⟨.leaf x, .top⟩)
    (hroot : tab.pane = some (.leaf z)) (h : tab.rotate clockwise start next = some tab') :
    tab'.pane = some (.leaf z) ∧ tab'.size = tab.size ∧ lastTold z tab'.calls = some tab.size := by
  simp only [rotate, iterPanesIgnoringZoom_eq hroot (.inr trivial), positioned, hstart,
    Option.bind_eq_bind, Option.bind_some, hroot, BinTree.numNodes, BinTree.cursor, Cursor.walk,
    swapLeaf, hnext, Cursor.tree_eq_plug, Path.plug, applySizesFromSplits,
    Option.bind_eq_some_iff] at h
  obtain ⟨⟨active, tab₁⟩, hactive, h⟩ := h
  obtain rfl := getActivePane_same hactive
  have htold : ∀ cs cs' : List PaneCall, (∀ c ∈ cs', c.isResize = false) →
      lastTold z (cs ++ [PaneCall.resize z tab.size] ++ cs') = some tab.size := by
    intro cs cs' hcs'
    rw [lastTold_append, lastTold_of_not_resize hcs', Option.none_or]
    simp [lastTold_append, lastTold, PaneCall.tells]
  cases active with
  | some pane =>
    cases h
    exact ⟨rfl, rfl, htold _ _ (by simp [PaneCall.isResize])⟩
  | none =>
    cases h
    refine ⟨rfl, rfl, ?_⟩
    exact (List.append_nil _ ▸ htold tab.calls [] (by simp) :)

theorem rotate_nothing (hstart : start [] = none)
    (hnone : tab.iterPanesIgnoringZoom = some ([], tab))
    (h : tab.rotate clockwise start next = some tab') : tab' = tab := by
  simp only [rotate, hnone, hstart, Option.bind_eq_bind, Option.bind_some] at h
  exact (Option.some.inj h).symm

/-! ## The panes an operation comes across -/

theorem mem_leaves_of_iterPanesIgnoringZoom {panes : List PositionedPane}
    (hroot : tab.pane = some root) (h : tab.iterPanesIgnoringZoom = some (panes, tab')) :
    ∀ p ∈ panes, p.pane ∈ root.leaves := by
  simp only [iterPanesIgnoringZoom, iterPanesImpl, hroot, Option.bind_eq_bind,
    Option.bind_some, Option.bind_eq_some_iff] at h
  obtain ⟨⟨panes', tree⟩, hwalk, h⟩ := h
  simp only [Option.some.injEq, Prod.mk.injEq] at h
  rw [← h.1]
  have hvisit : ∀ s c, (tab.visitPane s c).2 = c := by
    intro s c
    obtain ⟨t, p⟩ := c
    cases t <;> rfl
  have hkeep : ∀ s c, c.tree = root → (∀ q ∈ s, q.pane ∈ root.leaves) →
      ∀ q ∈ (tab.visitPane s c).1, q.pane ∈ root.leaves := by
    intro s c hc hs
    obtain ⟨t, p⟩ := c
    cases t with
    | empty => exact hs
    | node l r d => exact hs
    | leaf x =>
      simp only [visitPane, List.mem_append, List.mem_singleton]
      rintro q (hq | rfl)
      · exact hs q hq
      · rw [← hc, Cursor.tree_eq_plug, Path.leaves_plug]
        simp [positionedPane, BinTree.leaves]
  exact Cursor.walk_keeps (Move.tree_landed .preorderNext) hvisit hkeep _ _ _ _ _
    (Cursor.tree_eq_plug root.cursor) (by simp) hwalk

theorem getActivePane_mem {x : Pane} (hz : tab.zoomed = none)
    (h : tab.getActivePane = some (some x, tab')) :
    ∃ root, tab.pane = some root ∧ x ∈ root.leaves := by
  simp only [getActivePane, hz, Option.bind_eq_bind, Option.bind_eq_some_iff] at h
  obtain ⟨⟨panes, tab₁⟩, hpanes, h⟩ := h
  cases hroot : tab.pane with
  | none => simp [iterPanesIgnoringZoom, iterPanesImpl, hroot] at hpanes
  | some root =>
    simp only [Option.some.injEq, Prod.mk.injEq, Option.map_eq_some_iff] at h
    obtain ⟨⟨p, hp, rfl⟩, -⟩ := h
    exact ⟨root, rfl, mem_leaves_of_iterPanesIgnoringZoom hroot hpanes p
      (List.mem_of_getElem? hp)⟩

theorem tree_of_findPane {paneId : PaneId} :
    ∀ (fuel index : Nat) (c : PaneCursor) (found : Option Nat) (t : PaneTree),
    findPane paneId fuel index c = some (found, t) → t = c.tree := by
  intro fuel
  induction fuel with
  | zero =>
    intro index c found t h
    cases h
  | succ fuel ih =>
    intro index c found t h
    have hmove := Move.tree_landed .preorderNext c
    simp only [Move.run] at hmove
    rw [findPane] at h
    -- either the search goes on from the next position or it is over
    cases hc : c.preorderNext with
    | ok c₁ =>
      rw [hc] at h hmove
      split at h
      · split_ifs at h
        · simp only [Option.some.injEq, Prod.mk.injEq] at h
          exact h.2.symm
        · exact (ih _ _ _ _ h).trans hmove
      · exact (ih _ _ _ _ h).trans hmove
    | error e =>
      rw [hc] at h hmove
      split at h
      · split_ifs at h
        · simp only [Option.some.injEq, Prod.mk.injEq] at h
          exact h.2.symm
        · simp only [Option.some.injEq, Prod.mk.injEq] at h
          exact h.2.symm.trans hmove
      · simp only [Option.some.injEq, Prod.mk.injEq] at h
        exact h.2.symm.trans hmove

theorem mem_leaves_of_buildFromPaneTree (makePane : PaneEntry → Pane)
    (t : BinTree PaneEntry SplitDirectionAndSize) (active : Option Pane)
    (h : (buildFromPaneTree makePane t active none).2.2 = some z) :
    z ∈ (buildFromPaneTree makePane t active none).1.leaves ∧
      ∃ e ∈ t.leaves, e.isZoomedPane = true := by
  obtain ⟨hleaves, -, hzoom⟩ := buildFromPaneTree_eq makePane t active none
  rw [hzoom, Option.or_none, Option.map_eq_some_iff] at h
  obtain ⟨e, he, rfl⟩ := h
  obtain ⟨hmem, hflag⟩ := List.mem_filter.mp (List.mem_of_getLast? he)
  rw [hleaves]
  exact ⟨List.mem_map_of_mem hmem, e, hmem, hflag⟩

theorem resizeImpl_of_syncWithPaneTree {size : TerminalSize} {node : PaneNode}
    {makePane : PaneEntry → Pane} (h : tab.syncWithPaneTree size node makePane = some tab') :
    ∃ tab₁ : TabInner, tab₁.pane = some (buildFromPaneTree makePane node.intoTree none none).1 ∧
      tab₁.zoomed = (buildFromPaneTree makePane node.intoTree none none).2.2 ∧
      tab₁.resizeImpl size false = some tab' := by
  unfold syncWithPaneTree at h
  dsimp only at h
  cases hactive : (buildFromPaneTree makePane node.intoTree none none).2.1 with
  | none =>
    simp only [hactive, Option.bind_eq_bind, Option.bind_some] at h
    exact ⟨_, congrArg some (Cursor.tree_eq_plug _), rfl, h⟩
  | some x =>
    simp only [hactive, Option.bind_eq_bind, Option.bind_eq_some_iff] at h
    obtain ⟨⟨found, tree⟩, hfind, h⟩ := h
    have htree := (tree_of_findPane _ _ _ _ _ hfind).trans (Cursor.tree_eq_plug _)
    exact ⟨_, congrArg some htree, rfl, h⟩

end TabInner

end Wakterm.Mux
