import Wakterm.Bintree.Walk
import Wakterm.Mux.Logic.Panes
import Wakterm.Mux.Logic.Spans

/-!
# Tilings and their contexts

`Tiled` says in one recursion that a tree has panes and data everywhere and is laid out for a size;
`TiledAround` says the same of everything around a position.
-/

namespace Wakterm.Mux

open Wakterm.Machine Wakterm.Bintree Wakterm.Layout

section HoleSize

variable (rootSize : TerminalSize) (t : PaneTree) (d : SplitDirectionAndSize)
  (up : Path Pane SplitDirectionAndSize)

@[simp] theorem holeSize_top : holeSize rootSize .top = rootSize := rfl

@[simp] theorem holeSize_left : holeSize rootSize (.left t (some d) up) = d.first := rfl

@[simp] theorem holeSize_right : holeSize rootSize (.right t (some d) up) = d.second := rfl

end HoleSize

/-- The panes of the tree fill the size, with at least one cell each. -/
def Tiled : PaneTree → TerminalSize → Prop
  | .empty, _ => False
  | .leaf _, a => ∀ ax, 1 ≤ a.cells ax
  | .node _ _ none, _ => False
  | .node l r (some d), a => d.Fits a ∧ Tiled l d.first ∧ Tiled r d.second

/-- The siblings along the path are tiled, and fit together with the hole at
its end. -/
def TiledAround (rootSize : TerminalSize) : Path Pane SplitDirectionAndSize → Prop
  | .top => True
  | .left _ none _ => False
  | .left r (some d) up =>
    d.Fits (holeSize rootSize up) ∧ Tiled r d.second ∧ TiledAround rootSize up
  | .right _ none _ => False
  | .right l (some d) up =>
    d.Fits (holeSize rootSize up) ∧ Tiled l d.first ∧ TiledAround rootSize up

/-! A node of a tiled tree has its data. -/

theorem Tiled.data {l r : PaneTree} {o : Option SplitDirectionAndSize} {a : TerminalSize}
    (h : Tiled (.node l r o) a) : ∃ d, o = some d := by
  cases o with
  | none => exact h.elim
  | some d => exact ⟨d, rfl⟩

theorem TiledAround.data_left {rootSize : TerminalSize} {r : PaneTree}
    {o : Option SplitDirectionAndSize} {up : Path Pane SplitDirectionAndSize}
    (h : TiledAround rootSize (.left r o up)) : ∃ d, o = some d := by
  cases o with
  | none => exact h.elim
  | some d => exact ⟨d, rfl⟩

theorem TiledAround.data_right {rootSize : TerminalSize} {l : PaneTree}
    {o : Option SplitDirectionAndSize} {up : Path Pane SplitDirectionAndSize}
    (h : TiledAround rootSize (.right l o up)) : ∃ d, o = some d := by
  cases o with
  | none => exact h.elim
  | some d => exact ⟨d, rfl⟩

theorem tiled_iff (t : PaneTree) (a : TerminalSize) :
    Tiled t a ↔ t.Full ∧ HasData t ∧ LaidOut t a := by
  induction t generalizing a with
  | empty => exact ⟨False.elim, fun h => h.1⟩
  | leaf p =>
    constructor
    · intro h
      exact ⟨trivial, trivial, trivial, h .y, h .x⟩
    · rintro ⟨_, _, _, hrows, hcols⟩
      exact forall_axis hcols hrows
  | node l r d ihl ihr =>
    cases d with
    | none => exact ⟨False.elim, fun h => absurd h.2.1.1 (by simp)⟩
    | some d =>
      simp only [Tiled, ihl, ihr]
      constructor
      · rintro ⟨hfits, ⟨hfl, hdl, hll⟩, hfr, hdr, hlr⟩
        exact ⟨⟨hfl, hfr⟩, ⟨rfl, hdl, hdr⟩, ⟨hfits, hll.consistent, hlr.consistent⟩,
          hll.panes, hlr.panes⟩
      · rintro ⟨⟨hfl, hfr⟩, ⟨_, hdl, hdr⟩, ⟨hfits, hcl, hcr⟩, hpl, hpr⟩
        exact ⟨hfits, ⟨hfl, hdl, hcl, hpl⟩, hfr, hdr, hcr, hpr⟩

variable {t : PaneTree} {a a₀ b rootSize : TerminalSize} {p : Path Pane SplitDirectionAndSize}

theorem Tiled.full (h : Tiled t a) : t.Full :=
  ((tiled_iff t a).mp h).1

theorem Tiled.hasData (h : Tiled t a) : HasData t :=
  ((tiled_iff t a).mp h).2.1

theorem Tiled.laidOut (h : Tiled t a) : LaidOut t a :=
  ((tiled_iff t a).mp h).2.2

theorem tiled_iff_roomy (hfull : t.Full) (hdata : HasData t) (a : TerminalSize) :
    Tiled t a ↔ ∀ ax, (span ax t).Roomy (a.cells ax) := by
  rw [tiled_iff, ← laidOut_iff hfull hdata]
  simp only [hfull, hdata, true_and]

theorem Tiled.roomy (h : Tiled t a) (ax : Axis) : (span ax t).Roomy (a.cells ax) :=
  (tiled_iff_roomy h.full h.hasData a).mp h ax

theorem Tiled.one_le (h : Tiled t a) (ax : Axis) : 1 ≤ a.cells ax :=
  (h.roomy ax).pos

theorem Tiled.laidOut_iff {t' : PaneTree} (h : Tiled t a₀) (hskel : skeleton t' = skeleton t)
    (a : TerminalSize) : LaidOut t' a ↔ Tiled t' a := by
  rw [tiled_iff, full_iff_of_skeleton hskel, hasData_iff_of_skeleton hskel]
  simp only [h.full, h.hasData, true_and]

theorem Tiled.of_cells (h : Tiled t a) (hab : ∀ ax, a.cells ax = b.cells ax) : Tiled t b := by
  rw [tiled_iff_roomy h.full h.hasData]
  intro ax
  rw [← hab ax]
  exact h.roomy ax

theorem SplitDirectionAndSize.Fits.of_cells {d : SplitDirectionAndSize} (h : d.Fits a)
    (hab : ∀ ax, a.cells ax = b.cells ax) : d.Fits b := by
  rw [d.fits_iff] at h ⊢
  simpa only [← hab] using h

theorem SplitDirectionAndSize.Fits.le {d : SplitDirectionAndSize} (h : d.Fits a) (ax : Axis) :
    d.first.cells ax ≤ a.cells ax ∧ d.second.cells ax ≤ a.cells ax := by
  obtain ⟨hsum, hf, hs⟩ := (d.fits_iff a).mp h
  rcases axis_eq_or ax d.direction.axis with rfl | rfl
  · omega
  · omega

/-- **A tiled tree taken apart at a position.** -/
theorem tiled_plug (rootSize : TerminalSize) (p : Path Pane SplitDirectionAndSize) :
    ∀ t : PaneTree, Tiled (p.plug t) rootSize ↔
      Tiled t (holeSize rootSize p) ∧ TiledAround rootSize p := by
  induction p with
  | top =>
    intro t
    simp only [Path.plug, holeSize_top, TiledAround, and_true]
  | left r d up ih =>
    intro t
    rw [Path.plug, ih]
    cases d with
    | none => simp only [Tiled, TiledAround, false_and, and_false]
    | some d =>
      simp only [Tiled, TiledAround, holeSize_left]
      tauto
  | right l d up ih =>
    intro t
    rw [Path.plug, ih]
    cases d with
    | none => simp only [Tiled, TiledAround, false_and, and_false]
    | some d =>
      simp only [Tiled, TiledAround, holeSize_right]
      tauto

theorem TiledAround.holeSize_le (h : TiledAround rootSize p) (ax : Axis) :
    (holeSize rootSize p).cells ax ≤ rootSize.cells ax := by
  induction p with
  | top => exact Nat.le_refl _
  | left r d up ih =>
    obtain ⟨d, rfl⟩ := h.data_left
    exact (h.1.le ax).1.trans (ih h.2.2)
  | right l d up ih =>
    obtain ⟨d, rfl⟩ := h.data_right
    exact (h.1.le ax).2.trans (ih h.2.2)

theorem TiledAround.consistent (h : TiledAround rootSize p) (hc : Consistent (p.plug t) rootSize) :
    Consistent t (holeSize rootSize p) := by
  induction p generalizing t with
  | top => exact hc
  | left r d up ih =>
    obtain ⟨d, rfl⟩ := h.data_left
    exact (ih h.2.2 hc).2.1
  | right l d up ih =>
    obtain ⟨d, rfl⟩ := h.data_right
    exact (ih h.2.2 hc).2.2

theorem TiledAround.full (h : TiledAround rootSize p) : p.Full := by
  induction p with
  | top => trivial
  | left r d up ih =>
    obtain ⟨d, rfl⟩ := h.data_left
    exact ⟨h.2.1.full, ih h.2.2⟩
  | right l d up ih =>
    obtain ⟨d, rfl⟩ := h.data_right
    exact ⟨h.2.1.full, ih h.2.2⟩

/-! ## Pushing a size down -/

/-- What repeated `apply_pane_size` makes of a subtree that is given a size. -/
def pushSizes : PaneTree → TerminalSize → PaneTree
  | .node l r (some d), a =>
    .node (pushSizes l (d.applyPaneSize a).first) (pushSizes r (d.applyPaneSize a).second)
      (some (d.applyPaneSize a))
  | .node l r none, _ => .node l r none
  | .empty, _ => .empty
  | .leaf x, _ => .leaf x

theorem skeleton_pushSizes (t : PaneTree) (a : TerminalSize) :
    skeleton (pushSizes t a) = skeleton t := by
  induction t generalizing a with
  | empty => rfl
  | leaf p => rfl
  | node l r d ihl ihr =>
    cases d with
    | none => rfl
    | some d =>
      unfold skeleton at ihl ihr ⊢
      simp only [pushSizes, BinTree.mapData, ihl, ihr, Option.map_some,
        SplitDirectionAndSize.direction_applyPaneSize]

theorem span_pushSizes (ax : Axis) (t : PaneTree) (a : TerminalSize)
    (ht : (span ax t).Below (2 ^ 63)) :
    span ax (pushSizes t a) = (span ax t).pushDown (a.cells ax) := by
  induction t generalizing a with
  | empty => rfl
  | leaf p => rfl
  | node l r d ihl ihr =>
    cases d with
    | none => rfl
    | some d =>
      simp only [span, Span.Below] at ht
      obtain ⟨hf, _, hbl, hbr⟩ := ht
      simp only [pushSizes, span, SplitDirectionAndSize.direction_applyPaneSize, ihl _ hbl,
        ihr _ hbr]
      rcases axis_eq_or ax d.direction.axis with rfl | rfl
      · obtain ⟨h1, h2⟩ := d.applyPaneSize_along a (by omega)
        rw [h1, h2]
        simp only [decide_true, Span.pushDown]
      · obtain ⟨h1, h2⟩ := d.applyPaneSize_across a
        rw [h1, h2]
        simp only [(Axis.other_ne _).symm, decide_false, Span.pushDown]

theorem tiled_pushSizes_iff (h : Tiled t a₀) (ha₀ : ∀ ax, a₀.cells ax < 2 ^ 63) (a : TerminalSize) :
    Tiled (pushSizes t a) a ↔ ∀ ax, (span ax t).need ≤ a.cells ax := by
  have hskel := skeleton_pushSizes t a
  rw [tiled_iff_roomy ((full_iff_of_skeleton hskel).mpr h.full)
    ((hasData_iff_of_skeleton hskel).mpr h.hasData)]
  refine forall_congr' fun ax => ?_
  rw [span_pushSizes ax t a ((h.roomy ax).fills.below (ha₀ ax)),
    Span.pushDown_roomy_iff (h.roomy ax)]

theorem Tiled.pushSizes (h : Tiled t a) (ha : ∀ ax, a.cells ax < 2 ^ 63) :
    Tiled (pushSizes t a) a :=
  (tiled_pushSizes_iff h ha a).mpr fun ax => (h.roomy ax).need_le

end Wakterm.Mux

/-!
## What the panes have been told

`lastTold` is the size a pane was last given by `Pane::resize` in a list of calls; `allocations`
lists what a tree has for each of its panes.
-/

namespace Wakterm.Mux

open Wakterm.Bintree

def PaneCall.tells (x : Pane) : PaneCall → Option TerminalSize
  | .resize p size => if p = x then some size else none
  | _ => none

/-- The last size a pane was told, if it was told one. -/
def lastTold (x : Pane) : List PaneCall → Option TerminalSize
  | [] => none
  | c :: cs => (lastTold x cs).or (c.tells x)

@[simp] theorem lastTold_nil (x : Pane) : lastTold x [] = none := rfl

theorem lastTold_append (x : Pane) (cs cs' : List PaneCall) :
    lastTold x (cs ++ cs') = (lastTold x cs').or (lastTold x cs) := by
  induction cs with
  | nil => simp
  | cons c cs ih => rw [List.cons_append, lastTold, ih, lastTold, Option.or_assoc]

theorem lastTold_of_not_resize {x : Pane} {cs : List PaneCall}
    (h : ∀ c ∈ cs, c.isResize = false) : lastTold x cs = none := by
  induction cs with
  | nil => rfl
  | cons c cs ih =>
    have hc := h c List.mem_cons_self
    rw [lastTold, ih fun c' hc' => h c' (List.mem_cons_of_mem _ hc')]
    cases c with
    | resize p size => simp [PaneCall.isResize] at hc
    | setZoomed p z => rfl
    | focusChanged p f => rfl
    | sendResizeBatch p i sizes => rfl
    | sendRotatePanes p i cw => rfl

theorem lastTold_applySizesFromSplits {x : Pane} {t : PaneTree} (h : x ∉ t.leaves)
    (size : TerminalSize) : lastTold x (applySizesFromSplits t size) = none := by
  induction t generalizing size with
  | empty => rfl
  | leaf p =>
    have hne : p ≠ x := fun hpx => h (by simp [BinTree.leaves, hpx])
    simp [applySizesFromSplits, lastTold, PaneCall.tells, hne]
  | node l r d ihl ihr =>
    cases d with
    | none => rfl
    | some d =>
      simp only [BinTree.leaves, List.mem_append, not_or] at h
      rw [applySizesFromSplits, lastTold_append, ihl h.1, ihr h.2]
      rfl

/-- What the tree has for each of its panes. -/
def allocations : PaneTree → TerminalSize → List (Pane × TerminalSize)
  | .node l r (some d), _ => allocations l d.first ++ allocations r d.second
  | .leaf x, size => [(x, size)]
  | .node _ _ none, _ => []
  | .empty, _ => []

/-- What the siblings along a path have for their panes. -/
def allocationsAround : Path Pane SplitDirectionAndSize → List (Pane × TerminalSize)
  | .top => []
  | .left r d up =>
    (match d with
      | some d => allocations r d.second
      | none => []) ++ allocationsAround up
  | .right l d up =>
    (match d with
      | some d => allocations l d.first
      | none => []) ++ allocationsAround up

theorem mem_leaves_of_mem_allocations {x : Pane} {size : TerminalSize} {t : PaneTree}
    {a : TerminalSize} (h : (x, size) ∈ allocations t a) : x ∈ t.leaves := by
  induction t generalizing a with
  | empty => simp [allocations] at h
  | leaf p => simp_all [allocations, BinTree.leaves]
  | node l r d ihl ihr =>
    cases d with
    | none => simp [allocations] at h
    | some d =>
      simp only [allocations, List.mem_append] at h
      simp only [BinTree.leaves, List.mem_append]
      exact h.imp ihl ihr

theorem mem_allocations_plug {rootSize : TerminalSize} {p : Path Pane SplitDirectionAndSize}
    (hp : TiledAround rootSize p) (t : PaneTree) (x : Pane × TerminalSize) :
    x ∈ allocations (p.plug t) rootSize ↔
      x ∈ allocations t (holeSize rootSize p) ∨ x ∈ allocationsAround p := by
  induction p generalizing t with
  | top => simp [Path.plug, allocationsAround]
  | left r d up ih =>
    obtain ⟨d, rfl⟩ := hp.data_left
    rw [Path.plug, ih hp.2.2]
    simp only [allocations, allocationsAround, holeSize_left, List.mem_append]
    tauto
  | right l d up ih =>
    obtain ⟨d, rfl⟩ := hp.data_right
    rw [Path.plug, ih hp.2.2]
    simp only [allocations, allocationsAround, holeSize_right, List.mem_append]
    tauto

end Wakterm.Mux
