import Wakterm.Bintree.Walk
import Wakterm.Mux.TabSync

/-!
# Reading a tab's panes

What `iter_panes_impl` and `get_active_pane` answer, as functions of the tree:
the walk gives the tree back unchanged, so the operations built on it only add
calls on panes to a tab (`adviseFocusChange_eq`, `sendResizeBatch_eq`).
-/

namespace Wakterm.Mux

open Wakterm.Machine Wakterm.Bintree

/-- `Pane::resize` is called. -/
def PaneCall.isResize : PaneCall → Bool
  | .resize _ _ => true
  | _ => false

namespace TabInner

variable (tab : TabInner)

/-- The entries for the leaves of a subtree, the first of them numbered `i`. -/
def positioned : PaneTree → Path Pane SplitDirectionAndSize → Nat → List PositionedPane
  | .empty, _, _ => []
  | .leaf x, p, i => [tab.positionedPane i ⟨.leaf x, p⟩ x]
  | .node l r d, p, i =>
    positioned l (.left r d p) i ++ positioned r (.right l d p) (i + l.numLeaves)

/-- `visitPane` as a visit that changes nothing. -/
def readPanes : Visit Pane SplitDirectionAndSize (List PositionedPane) where
  node panes _ d := (panes, d)
  leaf panes p x := (panes ++ [tab.positionedPane panes.length ⟨.leaf x, p⟩ x], x)

theorem visitPane_eq : tab.visitPane = tab.readPanes.run := by
  funext panes ⟨t, p⟩
  cases t <;> rfl

@[simp] theorem length_positioned (t : PaneTree) :
    ∀ (p : Path Pane SplitDirectionAndSize) (i : Nat),
    (tab.positioned t p i).length = t.numLeaves := by
  induction t with
  | empty => exact fun _ _ => rfl
  | leaf x => exact fun _ _ => rfl
  | node l r d ihl ihr =>
    intro p i
    simp [positioned, BinTree.numLeaves, ihl, ihr]

theorem pane_positioned (t : PaneTree) : ∀ (p : Path Pane SplitDirectionAndSize) (i : Nat),
    (tab.positioned t p i).map (·.pane) = t.leaves := by
  induction t with
  | empty => exact fun _ _ => rfl
  | leaf x => exact fun _ _ => rfl
  | node l r d ihl ihr =>
    intro p i
    simp [positioned, BinTree.leaves, ihl, ihr]

theorem pass_readPanes (t : PaneTree) :
    ∀ (p : Path Pane SplitDirectionAndSize) (panes : List PositionedPane),
    tab.readPanes.pass t p panes = (panes ++ tab.positioned t p panes.length, t) := by
  induction t with
  | empty => exact fun _ panes => by simp [Visit.pass, positioned]
  | leaf x => exact fun _ _ => rfl
  | node l r d ihl ihr =>
    intro p panes
    simp [Visit.pass, readPanes, positioned] at ihl ihr ⊢
    simp [ihl, ihr]

variable {tab} {root : PaneTree}

theorem iterPanesIgnoringZoom_eq (hroot : tab.pane = some root) (hp : root.Proper) :
    tab.iterPanesIgnoringZoom = some (tab.positioned root .top 0, tab) := by
  have hwalk := tab.readPanes.walk_cursor root hp []
  rw [pass_readPanes] at hwalk
  have htab : { tab with pane := some root } = tab := by rw [← hroot]
  simp only [iterPanesIgnoringZoom, iterPanesImpl, hroot, visitPane_eq, Option.bind_eq_bind,
    Option.bind_some, hwalk, htab]
  rfl

theorem getActivePane_eq (hz : tab.zoomed = none) (hroot : tab.pane = some root)
    (hp : root.Proper) : tab.getActivePane = some (root.leaves[tab.active]?, tab) := by
  simp only [getActivePane, hz, iterPanesIgnoringZoom_eq hroot hp, Option.bind_eq_bind,
    Option.bind_some, ← List.getElem?_map, pane_positioned]

theorem getActivePane_zoomed {z : Pane} (hz : tab.zoomed = some z) :
    tab.getActivePane = some (some z, tab) := by
  simp only [getActivePane, hz]

theorem getActivePane_tab (hroot : tab.pane = some root) (hp : root.Proper) :
    ∃ active, tab.getActivePane = some (active, tab) := by
  cases hz : tab.zoomed with
  | none => exact ⟨_, getActivePane_eq hz hroot hp⟩
  | some z => exact ⟨_, getActivePane_zoomed hz⟩

theorem call_nil : tab.call [] = tab := by
  simp [call]

theorem sendResizeBatch_eq (hroot : tab.pane = some root) (hp : root.Proper)
    (sizes : List (PaneId × TerminalSize)) : ∃ cs, tab.sendResizeBatch sizes = some (tab.call cs) ∧
      ∀ c ∈ cs, c.isResize = false := by
  obtain ⟨active, hactive⟩ := getActivePane_tab hroot hp
  simp only [sendResizeBatch, hactive, Option.bind_eq_bind, Option.bind_some]
  cases active with
  | some pane => exact ⟨_, rfl, by simp [PaneCall.isResize]⟩
  | none => exact ⟨[], by rw [call_nil], by simp⟩

end TabInner

end Wakterm.Mux
