import Wakterm.Mux.Logic.TabDirection

/-!
# Moving to the pane next to the active one

A pane that is adjacent is found whenever there is one. There is none at the edge of the tab, and
none where a pane one cell thin is exactly opposite a divider.
-/

namespace Wakterm.Theorems.PaneDirection

open Wakterm.Mux Wakterm.Bintree

/-- The pane that is found is adjacent, and none is found only at the edge of the tab. -/
def FindsNeighbour (tab : TabInner) (ax : Axis) (forward ignoreZoom : Bool) : Prop :=
  ∃ panes active found, tab.iterPanes = some (panes, tab) ∧ active ∈ panes ∧
    active.isActive = true ∧
    tab.getPaneDirection (.toward ax forward) ignoreZoom = some (found, tab) ∧
    (found = none → active.place.Touches ax forward tab.size) ∧
    ∀ i, found = some i → ∃ pane ∈ panes, pane.index = i ∧
      active.place.Adjacent ax forward pane.place

/-- **A neighbour is found** from an active pane in a direction, unless it is at that edge of the tab,
if and only if it is not opposite a divider. -/
theorem findsNeighbour_iff {tab : TabInner} {p : Path Pane SplitDirectionAndSize} {x : Pane}
    (h : ActiveAt tab p x) (hsize : ∀ ax, tab.size.cells ax + 1 < 2 ^ 64)
    (hscore : ∀ i, tab.recency.score i + 1 < 2 ^ 64) (ax : Axis) (forward ignoreZoom : Bool) :
    FindsNeighbour tab ax forward ignoreZoom ↔ ¬ OppositeDivider ax forward tab.size p := by
  have hroot := fun ax => Nat.lt_of_succ_lt (hsize ax)
  constructor
  · rintro ⟨panes, active, found, hpanes, hmem, hactive, -, hnone, hsome⟩ ⟨hthin, hany⟩
    obtain ⟨⟨r, k⟩, hfacing, hdivider⟩ := (Option.any_eq_true _ _).mp hany
    rw [h.iterPanes, Option.some.injEq, Prod.mk.injEq] at hpanes
    obtain ⟨rfl, -⟩ := hpanes
    cases found with
    | none =>
      obtain ⟨hstart, hcells⟩ := h.place hsize hmem hactive ax
      have htouches := hnone rfl
      have hinner := inner_of_facing hroot h.around h.one_le h.tiled hfacing
      unfold Place.Touches at htouches
      rw [hstart, hcells] at htouches
      cases forward with
      | true =>
        simp only [if_true] at htouches hinner
        omega
      | false =>
        simp only [Bool.false_eq_true, if_false] at htouches hinner
        omega
    | some i =>
      obtain ⟨pane, hpane, -, hadjacent⟩ := hsome i rfl
      have hthere := (h.exists_adjacent_iff hsize hmem hactive).mp ⟨pane, hpane, hadjacent⟩
      exact (neighbour_iff hroot h.around h.one_le hfacing 1).mp hthere ⟨hthin, hdivider⟩
  · intro hfree
    obtain ⟨active, hmem, hactive, found, hrun, hnone, hsome⟩ :=
      h.getPaneDirection_spec hsize hscore ax forward ignoreZoom
    refine ⟨_, active, found, h.iterPanes, hmem, hactive, hrun, fun hfound => ?_, hsome⟩
    cases hfacing : facing ax forward p 0 with
    | none =>
      obtain ⟨hstart, hcells⟩ := h.place hsize hmem hactive ax
      unfold Place.Touches
      rw [hstart, hcells]
      exact edge_of_facing h.around hfacing
    | some seen =>
      have hthere := (neighbour_iff hroot h.around h.one_le hfacing 1).mpr fun hboth =>
        hfree ⟨hboth.1, by rw [hfacing]; exact hboth.2⟩
      exact absurd ((h.exists_adjacent_iff hsize hmem hactive).mpr hthere) (hnone hfound)

/-- Three panes on the left, the one in the middle a row high, and two on the right, with a divider in
that row. -/
def besideDivider : Path Pane SplitDirectionAndSize :=
  .left (.leaf ⟨2, 0⟩) (some ⟨.vertical, ⟨1, 39, 390, 25, 96⟩, ⟨16, 39, 390, 400, 96⟩⟩)
    (.right (.leaf ⟨0, 0⟩) (some ⟨.vertical, ⟨5, 39, 390, 125, 96⟩, ⟨18, 39, 390, 450, 96⟩⟩)
      (.left (.node (.leaf ⟨3, 0⟩) (.leaf ⟨4, 0⟩)
          (some ⟨.vertical, ⟨6, 40, 400, 150, 96⟩, ⟨17, 40, 400, 425, 96⟩⟩))
        (some ⟨.horizontal, ⟨24, 39, 390, 600, 96⟩, ⟨24, 40, 400, 600, 96⟩⟩) .top))

/-- The tab they fill; the pane in the middle is active. -/
def besideDividerTab : TabInner :=
  { TabInner.new 0 ⟨24, 80, 800, 600, 96⟩ with
    pane := some (besideDivider.plug (.leaf ⟨1, 0⟩))
    active := 1 }

theorem activeAt_besideDivider : ActiveAt besideDividerTab besideDivider ⟨1, 0⟩ where
  pane := rfl
  active := rfl
  zoomed := rfl
  tree := ⟨.inr (by simp [besideDivider, Path.plug, BinTree.Full]), by decide⟩
  laidOut := by decide

/-- Upwards there is a pane. -/
theorem findsNeighbour_up : FindsNeighbour besideDividerTab .y false true :=
  (findsNeighbour_iff activeAt_besideDivider (forall_axis (by decide) (by decide))
    (fun _ => by simp [besideDividerTab, TabInner.new, Recency.score]) .y false true).mpr (by decide)

/-- To the right there is no pane, and yet the tab goes on. -/
theorem no_neighbour_right :
    ¬ ∀ (tab : TabInner) (p : Path Pane SplitDirectionAndSize) (x : Pane), ActiveAt tab p x →
      ∀ ax forward ignoreZoom, FindsNeighbour tab ax forward ignoreZoom := by
  intro hall
  obtain ⟨panes, active, found, hpanes, hmem, hactive, hrun, hnone, -⟩ :=
    hall besideDividerTab besideDivider ⟨1, 0⟩ activeAt_besideDivider .x true true
  have hval : (besideDividerTab.getPaneDirection .right true).map (·.1) = some none := by decide
  have hplaces : besideDividerTab.iterPanes.map (fun out =>
      (out.1.filter (·.isActive)).map (·.place)) = some [⟨1, 0, 6, 39, 1⟩] := by decide
  have hfound : found = none := by
    change besideDividerTab.getPaneDirection .right true = _ at hrun
    rw [hrun, Option.map_some, Option.some.injEq] at hval
    exact hval
  have hplace : active.place = ⟨1, 0, 6, 39, 1⟩ := by
    rw [hpanes, Option.map_some, Option.some.injEq] at hplaces
    have hmapped : active.place ∈ (panes.filter (·.isActive)).map (·.place) :=
      List.mem_map_of_mem (List.mem_filter.mpr ⟨hmem, hactive⟩)
    rw [hplaces] at hmapped
    exact List.mem_singleton.mp hmapped
  have htouches := hnone hfound
  rw [hplace] at htouches
  -- it ends in column 39 of 80
  change 0 + 39 = 80 at htouches
  omega

end Wakterm.Theorems.PaneDirection
