import Wakterm.Mux.Logic.Neighbours

/-!
# The loop of `get_pane_direction`

The panes of a tab lie in the places of its tree, the active one in that of a leaf.
-/

namespace Wakterm.Mux

open Wakterm.Machine Wakterm.Bintree

/-- A tab that is not zoomed, and laid out: the active pane is the leaf `x` at the end of `p`. -/
structure ActiveAt (tab : TabInner) (p : Path Pane SplitDirectionAndSize) (x : Pane) : Prop where
  pane : tab.pane = some (p.plug (.leaf x))
  active : tab.active = p.leavesBefore.length
  zoomed : tab.zoomed = none
  tree : SplitTree (p.plug (.leaf x))
  laidOut : LaidOut (p.plug (.leaf x)) tab.size

namespace ActiveAt

variable {tab : TabInner} {p : Path Pane SplitDirectionAndSize} {x : Pane} {ax : Axis}
  {forward : Bool}

abbrev panes (tab : TabInner) (p : Path Pane SplitDirectionAndSize) (x : Pane) :
    List PositionedPane :=
  tab.positioned (p.plug (.leaf x)) .top 0

variable (h : ActiveAt tab p x)
include h

theorem tiled : Tiled (p.plug (.leaf x)) tab.size := by
  refine (tiled_iff _ _).mpr ⟨?_, h.tree.hasData, h.laidOut⟩
  rcases h.tree.proper with hempty | hfull
  · have hleaves := congrArg BinTree.leaves hempty
    rw [Path.leaves_plug] at hleaves
    exact absurd hleaves (by simp [BinTree.leaves])
  · exact hfull

theorem around : TiledAround tab.size p :=
  ((tiled_plug tab.size p _).mp h.tiled).2

theorem one_le (ax : Axis) : 1 ≤ (holeSize tab.size p).cells ax :=
  ((tiled_plug tab.size p _).mp h.tiled).1 ax

theorem iterPanesIgnoringZoom : tab.iterPanesIgnoringZoom = some (panes tab p x, tab) :=
  TabInner.iterPanesIgnoringZoom_eq h.pane h.tree.proper

theorem iterPanes : tab.iterPanes = some (panes tab p x, tab) := by
  rw [← h.iterPanesIgnoringZoom]
  simp only [TabInner.iterPanes, TabInner.iterPanesIgnoringZoom, TabInner.iterPanesImpl, h.zoomed]

theorem places : (panes tab p x).map (·.place) =
    placesAt (p.plug (.leaf x)) (fun _ => 0) tab.size 0 :=
  place_positioned tab _ .top 0 h.tiled trivial

theorem place_mem {pane : PositionedPane} (hpane : pane ∈ panes tab p x) :
    pane.place ∈ placesAt (p.plug (.leaf x)) (fun _ => 0) tab.size 0 :=
  h.places ▸ List.mem_map_of_mem hpane

section Bounded

variable (hsize : ∀ ax, tab.size.cells ax + 1 < 2 ^ 64)

include hsize

variable {pane active : PositionedPane}

theorem inside (hpane : pane ∈ panes tab p x) (ax : Axis) :
    pane.place.start ax + pane.place.cells ax + 1 < 2 ^ 64 := by
  have hle := (h.tiled.inside (fun ax => by rw [Nat.zero_add]; exact Nat.lt_of_succ_lt (hsize ax))
    (h.place_mem hpane) ax).2.1
  have hlt := hsize ax
  omega

theorem place (hpane : pane ∈ panes tab p x) (hactive : pane.isActive = true)
    (ax : Axis) :
    pane.place.start ax = origin p ax ∧ pane.place.cells ax = (holeSize tab.size p).cells ax := by
  have hroot := fun ax => Nat.lt_of_succ_lt (hsize ax)
  have hindex : pane.place.index = p.leavesBefore.length := by
    rw [isActive_positioned tab _ .top 0 hpane, decide_eq_true_eq] at hactive
    exact hactive.trans h.active
  rcases (mem_placesAt_plug hroot h.around _).mp (h.place_mem hpane) with hmem | hmem
  · rw [List.mem_singleton.mp hmem]
    cases ax with
    | x => exact ⟨rfl, rfl⟩
    | y => exact ⟨rfl, rfl⟩
  · have hrange := index_placesAround hroot h.around hmem
    simp only [BinTree.numLeaves] at hrange
    omega

theorem find_active : ∃ active ∈ panes tab p x, active.isActive = true ∧
      (panes tab p x).find? (·.isActive) = some active := by
  have hmem : (⟨p.leavesBefore.length, origin p .x, origin p .y, (holeSize tab.size p).cols,
      (holeSize tab.size p).rows⟩ : Place) ∈ (panes tab p x).map (·.place) := by
    rw [h.places]
    exact (mem_placesAt_plug (fun ax => Nat.lt_of_succ_lt (hsize ax)) h.around _).mpr
      (Or.inl (List.mem_singleton_self _))
  obtain ⟨pane, hpane, heq⟩ := List.mem_map.mp hmem
  have hactive : pane.isActive = true := by
    rw [isActive_positioned tab _ .top 0 hpane, h.active]
    exact decide_eq_true (congrArg Place.index heq)
  obtain ⟨active, hfind⟩ := Option.isSome_iff_exists.mp (List.find?_isSome.mpr ⟨pane, hpane, hactive⟩)
  have htrue : active.isActive = true := List.find?_some hfind
  exact ⟨active, List.mem_of_find?_eq_some hfind, htrue, hfind⟩

theorem adjacent_iff (hmem : active ∈ panes tab p x)
    (hactive : active.isActive = true) (q : Place) : active.place.Adjacent ax forward q ↔
      Beyond ax forward (origin p) (holeSize tab.size p) q ∧
        q.meets ax.other (origin p ax.other) ((holeSize tab.size p).cells ax.other) := by
  obtain ⟨hstart, hcells⟩ := h.place hsize hmem hactive ax
  obtain ⟨hstart', hcells'⟩ := h.place hsize hmem hactive ax.other
  unfold Place.Adjacent Beyond
  rw [hstart, hcells, hstart', hcells']

theorem exists_adjacent_iff (hmem : active ∈ panes tab p x)
    (hactive : active.isActive = true) :
    (∃ pane ∈ panes tab p x, active.place.Adjacent ax forward pane.place) ↔
      ∃ q ∈ placesAround p 1, Beyond ax forward (origin p) (holeSize tab.size p) q ∧
        q.meets ax.other (origin p ax.other) ((holeSize tab.size p).cells ax.other) := by
  have hcases := fun q : Place => mem_placesAt_plug (q := q)
    (fun ax => Nat.lt_of_succ_lt (hsize ax)) h.around (.leaf x)
  constructor
  · rintro ⟨pane, hpane, hadjacent⟩
    rw [h.adjacent_iff hsize hmem hactive] at hadjacent
    refine ⟨pane.place, ((hcases _).mp (h.place_mem hpane)).resolve_left fun hleaf => ?_, hadjacent⟩
    -- the leaf is not beyond its own edge
    obtain ⟨hbeyond, -⟩ := hadjacent
    rw [List.mem_singleton.mp hleaf] at hbeyond
    cases ax <;> cases forward <;>
      simp only [Beyond, if_true, Bool.false_eq_true, if_false, Place.start, Place.cells] at hbeyond <;>
      omega
  · rintro ⟨q, hq, hbeyond⟩
    have hplace : q ∈ (panes tab p x).map (·.place) := by
      rw [h.places]
      exact (hcases q).mpr (Or.inr hq)
    obtain ⟨pane, hpane, rfl⟩ := List.mem_map.mp hplace
    exact ⟨pane, hpane, (h.adjacent_iff hsize hmem hactive _).mpr hbeyond⟩

theorem paneScore_pos_iff (hscore : ∀ i, tab.recency.score i + 1 < 2 ^ 64)
    (hactive : active ∈ panes tab p x) (hpane : pane ∈ panes tab p x) :
    0 < paneScore (.toward ax forward) tab.recency active pane ↔
      active.place.Adjacent ax forward pane.place := by
  rw [← isAdjacent_iff (h.inside hsize hactive) (h.inside hsize hpane)]
  have hlt : 1 + tab.recency.score pane.index < 2 ^ 64 := by
    have := hscore pane.index
    omega
  unfold paneScore
  split
  · next hadjacent =>
    rw [uadd_of_lt hlt]
    exact iff_of_true (by omega) hadjacent
  · next hadjacent => exact iff_of_false (Nat.lt_irrefl 0) hadjacent

/-- **The loop** answers with an adjacent pane, if there is one. -/
theorem getPaneDirection_spec
    (hscore : ∀ i, tab.recency.score i + 1 < 2 ^ 64) (ax : Axis) (forward ignoreZoom : Bool) :
    ∃ active ∈ panes tab p x, active.isActive = true ∧ ∃ found,
      tab.getPaneDirection (.toward ax forward) ignoreZoom = some (found, tab) ∧
      (found = none → ¬ ∃ pane ∈ panes tab p x, active.place.Adjacent ax forward pane.place) ∧
      ∀ i, found = some i → ∃ pane ∈ panes tab p x, pane.index = i ∧
        active.place.Adjacent ax forward pane.place := by
  obtain ⟨active, hmem, hactive, hfind⟩ := h.find_active hsize
  have hpos : ∀ pane ∈ panes tab p x,
      0 < paneScore (.toward ax forward) tab.recency active pane ↔
        active.place.Adjacent ax forward pane.place :=
    fun pane hpane => h.paneScore_pos_iff hsize hscore hmem hpane
  have hloop := foldl_betterPane (.toward ax forward) tab.recency active (panes tab p x) none
  have hrun : tab.getPaneDirection (.toward ax forward) ignoreZoom =
      some (((panes tab p x).foldl (betterPane (.toward ax forward) tab.recency active) none).map
        (·.2.index), tab) := by
    have hdirection : ¬ (PaneDirection.toward ax forward = .next ∨
        PaneDirection.toward ax forward = .prev) := by
      cases ax <;> cases forward <;> simp [PaneDirection.toward]
    have hread : (if ignoreZoom = true then tab.iterPanesIgnoringZoom else tab.iterPanes) =
        some (panes tab p x, tab) := by
      rw [h.iterPanes, h.iterPanesIgnoringZoom, ite_self]
    unfold TabInner.getPaneDirection
    rw [hread]
    simp only [Option.bind_eq_bind, Option.bind_some]
    rw [hfind]
    exact if_neg hdirection
  refine ⟨active, hmem, hactive, _, hrun, fun hnone => ?_, fun i hi => ?_⟩
  · obtain ⟨-, hall⟩ := hloop.1 (Option.map_eq_none_iff.mp hnone)
    rintro ⟨pane, hpane, hadjacent⟩
    have hscored := (hpos pane hpane).mpr hadjacent
    rw [hall pane hpane] at hscored
    exact absurd hscored (Nat.lt_irrefl 0)
  · obtain ⟨found, hfound, rfl⟩ := Option.map_eq_some_iff.mp hi
    rcases hloop.2 found hfound with hstart | ⟨hpane, hscored⟩
    · exact absurd hstart (by simp)
    · exact ⟨found.2, hpane, rfl, (hpos found.2 hpane).mp hscored⟩

end Bounded

end ActiveAt

end Wakterm.Mux
