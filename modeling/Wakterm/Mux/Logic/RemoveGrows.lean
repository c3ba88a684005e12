import Wakterm.Mux.Logic.RemoveSizes
import Wakterm.Mux.Logic.Tiling

/-!
# No pane shrinks when another goes

The space of a removed pane goes to its sibling, and down from there.
-/

namespace Wakterm.Mux

open Wakterm.Machine Wakterm.Bintree

/-- The pixels that go with the rows and columns at a cell size. -/
def TerminalSize.atCell (a cell : TerminalSize) : TerminalSize where
  rows := a.rows
  cols := a.cols
  pixelWidth := umul cell.pixelWidth a.cols
  pixelHeight := umul cell.pixelHeight a.rows
  dpi := cell.dpi

/-- No fewer rows and no fewer columns. -/
def TerminalSize.Within (a b : TerminalSize) : Prop := ∀ ax, a.cells ax ≤ b.cells ax

theorem TerminalSize.Within.refl (a : TerminalSize) : a.Within a := fun _ => Nat.le_refl _

theorem TerminalSize.Within.trans {a b c : TerminalSize} (h : a.Within b) (h' : b.Within c) :
    a.Within c := fun ax => (h ax).trans (h' ax)

theorem map_fst_allocations {t : PaneTree} (h : HasData t) (a : TerminalSize) :
    (allocations t a).map Prod.fst = t.leaves := by
  induction t generalizing a with
  | empty => rfl
  | leaf x => rfl
  | node l r d ihl ihr =>
    obtain ⟨hd, hl, hr⟩ := h
    obtain ⟨d, rfl⟩ := Option.isSome_iff_exists.mp hd
    rw [allocations, List.map_append, ihl hl, ihr hr, BinTree.leaves]

theorem filled_one_iff (t : PaneTree) (a : TerminalSize) : Filled 1 t a ↔ Tiled t a := by
  induction t generalizing a with
  | empty => exact Iff.rfl
  | leaf x => exact Iff.rfl
  | node l r d ihl ihr =>
    cases d with
    | none => exact Iff.rfl
    | some d => simp only [Filled, Tiled, ihl, ihr]

theorem unsplitSize_eq {d : SplitDirectionAndSize} {a : TerminalSize} (h : d.Fits a)
    (ha : ∀ ax, a.cells ax < 2 ^ 64) (cell : TerminalSize) :
    TabInner.unsplitSize cell d = a.atCell cell := by
  have hx := ha .x
  have hy := ha .y
  have hcells : d.width = a.cols ∧ d.height = a.rows := by
    unfold SplitDirectionAndSize.Fits at h
    cases hd : d.direction <;> simp only [hd] at h <;>
      simp [SplitDirectionAndSize.width, SplitDirectionAndSize.height, hd, uadd] at hx hy ⊢ <;>
      omega
  unfold TabInner.unsplitSize TerminalSize.atCell
  rw [hcells.1, hcells.2]

theorem cells_atCell (a cell : TerminalSize) (ax : Axis) :
    (a.atCell cell).cells ax = a.cells ax := by
  cases ax with
  | x => rfl
  | y => rfl

namespace TabInner

/-- What a pane has been told since a list of calls was made. -/
def toldSince (old : List PaneCall) (s : Removal) (x : Pane) : Option TerminalSize :=
  lastTold x (s.calls.drop old.length)

section Grows

variable (cell : TerminalSize) (orig : List (Pane × TerminalSize)) (old : List PaneCall)

/-- A pane that had `a` has `b`: if it has not been told it is the same, and else it has been told
`b`, or the rows and columns of `b` at the cell size of the tab. -/
structure Told (s : Removal) (x : Pane) (a b : TerminalSize) : Prop where
  untold : toldSince old s x = none → b = a
  told : ∀ c, toldSince old s x = some c → c = b ∨ c = b.atCell cell

/-- A subtree that is done: each of its panes has no less than it had, and knows. -/
structure Done (s : Removal) (t : PaneTree) (a : TerminalSize) : Prop where
  filled : Filled 1 t a
  grown : ∀ x b, (x, b) ∈ allocations t a →
    ∃ a₀, (x, a₀) ∈ orig ∧ a₀.Within b ∧ Told cell old s x a₀ b

/-- A subtree that is laid out for no more than it will be given. -/
def Coming (t : PaneTree) (a : TerminalSize) : Prop :=
  ∃ a', Filled 1 t a' ∧ a'.Within a ∧
    ∀ x b, (x, b) ∈ allocations t a' → ∃ a₀, (x, a₀) ∈ orig ∧ a₀.Within b

/-- A subtree that the loop has not come to. -/
structure Rest (s : Removal) (t : PaneTree) (a : TerminalSize) : Prop where
  coming : Coming orig t a
  done : s.deadPanes = [] → Done cell orig old s t a

/-- Around a position what has been walked is done, and the rest is not. -/
def GrowsAround (rootSize : TerminalSize) (s : Removal) : Path Pane SplitDirectionAndSize → Prop
  | .top => True
  | .left _ none _ => False
  | .left r (some d) up =>
    d.Fits (holeSize rootSize up) ∧ Rest cell orig old s r d.second ∧ GrowsAround rootSize s up
  | .right _ none _ => False
  | .right l (some d) up =>
    d.Fits (holeSize rootSize up) ∧ Done cell orig old s l d.first ∧ GrowsAround rootSize s up

/-- The panes are different, and the calls that were made are still there. -/
structure Tracked (s : Removal) (leaves : List Pane) : Prop where
  nodup : leaves.Nodup
  calls : old.length ≤ s.calls.length

/-- The walk arrives at a subtree. -/
structure GrowsAt (rootSize : TerminalSize) (s : Removal) (t : PaneTree)
    (p : Path Pane SplitDirectionAndSize) : Prop where
  rest : Rest cell orig old s t (holeSize rootSize p)
  around : GrowsAround cell orig old rootSize s p
  tracked : Tracked old s (p.plug t).leaves

/-- The walk leaves a subtree. -/
structure GrowsAfter (rootSize : TerminalSize) (s : Removal) (t : PaneTree)
    (p : Path Pane SplitDirectionAndSize) : Prop where
  done : Done cell orig old s t (holeSize rootSize p)
  around : GrowsAround cell orig old rootSize s p
  tracked : Tracked old s (p.plug t).leaves

/-- At the end nothing is left, or everything is done. -/
def Grown (rootSize : TerminalSize) (s : Removal) (t : PaneTree) : Prop :=
  t = .empty ∨ Done cell orig old s t rootSize

variable {cell orig old}

/-! ## Handing sizes down -/

variable {s s' : Removal} {a rootSize : TerminalSize} {p : Path Pane SplitDirectionAndSize}

theorem Done.coming {t : PaneTree} (h : Done cell orig old s t a) : Coming orig t a := by
  refine ⟨a, h.filled, .refl a, fun x b hx => ?_⟩
  obtain ⟨a₀, ha₀, hle, -⟩ := h.grown x b hx
  exact ⟨a₀, ha₀, hle⟩

theorem Coming.mono {t : PaneTree} {b : TerminalSize} (h : Coming orig t a) (hab : a.Within b) :
    Coming orig t b := by
  obtain ⟨a', hfilled, hle, hgrown⟩ := h
  exact ⟨a', hfilled, hle.trans hab, hgrown⟩

theorem Coming.node {l r : PaneTree} {d : SplitDirectionAndSize} {a : TerminalSize}
    (h : Coming orig (.node l r (some d)) a) (ha : ∀ ax, a.cells ax < 2 ^ 64) :
    (d.applyPaneSize a).Fits a ∧ Coming orig l (d.applyPaneSize a).first ∧
      Coming orig r (d.applyPaneSize a).second := by
  obtain ⟨a', ⟨hfits, hl, hr⟩, hle, hgrown⟩ := h
  obtain ⟨hsum, hfo, hso⟩ := (d.fits_iff a').mp hfits
  have hwithin := hle d.direction.axis
  have hother := hle d.direction.axis.other
  have halong := d.applyPaneSize_along a (by have := ha d.direction.axis; omega)
  have hacross := d.applyPaneSize_across a
  simp only [allocations, List.mem_append] at hgrown
  refine ⟨?_, ⟨d.first, hl, fun ax => ?_, fun x b hx => hgrown x b (.inl hx)⟩,
    ⟨d.second, hr, fun ax => ?_, fun x b hx => hgrown x b (.inr hx)⟩⟩
  · rw [SplitDirectionAndSize.fits_iff]
    simp only [SplitDirectionAndSize.direction_applyPaneSize, halong, hacross, and_self, and_true]
    omega
  · rcases axis_eq_or ax d.direction.axis with rfl | rfl
    · rw [halong.1]
    · rw [hacross.1]
      omega
  · rcases axis_eq_or ax d.direction.axis with rfl | rfl
    · rw [halong.2]
      omega
    · rw [hacross.2]
      omega

theorem Done.node {s : Removal} {l r : PaneTree} {d : SplitDirectionAndSize} {a : TerminalSize} :
    Done cell orig old s (.node l r (some d)) a ↔
      d.Fits a ∧ Done cell orig old s l d.first ∧ Done cell orig old s r d.second := by
  constructor
  · rintro ⟨⟨hfits, hl, hr⟩, hgrown⟩
    simp only [allocations, List.mem_append] at hgrown
    exact ⟨hfits, ⟨hl, fun x b hx => hgrown x b (.inl hx)⟩, hr, fun x b hx =>
      hgrown x b (.inr hx)⟩
  · rintro ⟨hfits, hl, hr⟩
    refine ⟨⟨hfits, hl.filled, hr.filled⟩, fun x b hx => ?_⟩
    simp only [allocations, List.mem_append] at hx
    rcases hx with hx | hx
    · exact hl.grown x b hx
    · exact hr.grown x b hx

/-! ## What is told -/

theorem toldSince_tell (h : old.length ≤ s.calls.length) (x y : Pane) (size : TerminalSize) :
    toldSince old (s.tell y size) x = if y = x then some size else toldSince old s x := by
  simp only [toldSince, Removal.tell, List.drop_append_of_le_length h, lastTold_append, lastTold,
    PaneCall.tells, Option.none_or]
  split
  · rfl
  · rfl

theorem Done.congr {t : PaneTree} (h : Done cell orig old s t a)
    (hsame : ∀ x ∈ t.leaves, toldSince old s' x = toldSince old s x) :
    Done cell orig old s' t a := by
  refine ⟨h.filled, fun x b hx => ?_⟩
  obtain ⟨a₀, ha₀, hle, htold⟩ := h.grown x b hx
  have heq := hsame x (mem_leaves_of_mem_allocations hx)
  exact ⟨a₀, ha₀, hle, fun hnone => htold.untold (heq ▸ hnone),
    fun c hc => htold.told c (heq ▸ hc)⟩

theorem GrowsAround.congr (h : GrowsAround cell orig old rootSize s p)
    (hsame : ∀ x ∈ p.leavesBefore ++ p.leavesAfter, toldSince old s' x = toldSince old s x)
    (hdead : s'.deadPanes = [] → s.deadPanes = []) : GrowsAround cell orig old rootSize s' p := by
  induction p with
  | top => trivial
  | left r d up ih =>
    cases d with
    | none => exact h
    | some d =>
      simp only [Path.leavesBefore, Path.leavesAfter, List.mem_append] at hsame
      refine ⟨h.1, ⟨h.2.1.coming, fun hnone => (h.2.1.done (hdead hnone)).congr fun x hx =>
        hsame x (.inr (.inl hx))⟩, ih h.2.2 fun x hx => ?_⟩
      rcases List.mem_append.mp hx with hx | hx
      · exact hsame x (.inl hx)
      · exact hsame x (.inr (.inr hx))
  | right l d up ih =>
    cases d with
    | none => exact h
    | some d =>
      simp only [Path.leavesBefore, Path.leavesAfter, List.mem_append] at hsame
      refine ⟨h.1, h.2.1.congr fun x hx => hsame x (.inl (.inr hx)), ih h.2.2 fun x hx => ?_⟩
      rcases List.mem_append.mp hx with hx | hx
      · exact hsame x (.inl (.inl hx))
      · exact hsame x (.inr hx)

theorem GrowsAround.holeSize_lt (h : GrowsAround cell orig old rootSize s p)
    (hroot : ∀ ax, rootSize.cells ax < 2 ^ 64) (ax : Axis) :
    (holeSize rootSize p).cells ax < 2 ^ 64 := by
  induction p with
  | top => exact hroot ax
  | left r d up ih =>
    cases d with
    | none => exact h.elim
    | some d => exact (h.1.le ax).1.trans_lt (ih h.2.2)
  | right l d up ih =>
    cases d with
    | none => exact h.elim
    | some d => exact (h.1.le ax).2.trans_lt (ih h.2.2)

theorem growsAfter_tell {x : Pane} {size : TerminalSize}
    (hcoming : Coming orig (.leaf x) (holeSize rootSize p))
    (haround : GrowsAround cell orig old rootSize s p)
    (htracked : Tracked old s (p.plug (.leaf x)).leaves) (hcalls : s'.calls = (s.tell x size).calls)
    (hdead : s'.deadPanes = s.deadPanes)
    (hsize : size = holeSize rootSize p ∨ size = (holeSize rootSize p).atCell cell) :
    GrowsAfter cell orig old rootSize s' (.leaf x) p := by
  have htold : ∀ y, toldSince old s' y = if x = y then some size else toldSince old s y := by
    intro y
    rw [← toldSince_tell htracked.calls y x size]
    unfold toldSince
    rw [hcalls]
  refine ⟨?_, haround.congr (fun y hy => ?_) fun h => hdead ▸ h, htracked.nodup, ?_⟩
  · obtain ⟨a', hfilled, hle, hgrown⟩ := hcoming
    refine ⟨fun ax => (hfilled ax).trans (hle ax), fun y b hy => ?_⟩
    obtain ⟨rfl, rfl⟩ : y = x ∧ b = holeSize rootSize p := by
      simpa [allocations] using hy
    obtain ⟨a₀, ha₀, hle₀⟩ := hgrown y a' (by simp [allocations])
    refine ⟨a₀, ha₀, hle₀.trans hle, fun hnone => ?_, fun c hc => ?_⟩
    · rw [htold, if_pos rfl] at hnone
      exact absurd hnone (by simp)
    · rw [htold, if_pos rfl, Option.some.injEq] at hc
      exact hc ▸ hsize
  · -- the pane is not one of those around
    have hne : x ≠ y := by
      rintro rfl
      have hnodup := htracked.nodup
      rw [Path.leaves_plug, List.append_assoc, List.nodup_append] at hnodup
      obtain ⟨-, hright, hdisjoint⟩ := hnodup
      rcases List.mem_append.mp hy with hy | hy
      · exact hdisjoint x hy x (by simp [BinTree.leaves]) rfl
      · simp only [BinTree.leaves, List.singleton_append, List.nodup_cons] at hright
        exact hright.1 hy
    rw [htold, if_neg hne]
  · rw [hcalls]
    simp only [Removal.tell, List.length_append]
    exact Nat.le_add_right_of_le htracked.calls

theorem GrowsAt.keep {x : Pane} (h : GrowsAt cell orig old rootSize s (.leaf x) p) :
    GrowsAfter cell orig old rootSize (s.keep x (holeSize rootSize p)) (.leaf x) p := by
  obtain ⟨⟨hcoming, hdone⟩, haround, htracked⟩ := h
  by_cases hdead : s.deadPanes = []
  · have hcalls : (s.keep x (holeSize rootSize p)).calls = s.calls := by
      simp [Removal.keep, hdead]
    have hsame : ∀ y, toldSince old (s.keep x (holeSize rootSize p)) y = toldSince old s y := by
      intro y
      unfold toldSince
      rw [hcalls]
    exact ⟨(hdone hdead).congr fun y _ => hsame y, haround.congr (fun y _ => hsame y) fun h => h,
      htracked.nodup, hcalls ▸ htracked.calls⟩
  · refine growsAfter_tell hcoming haround htracked ?_ rfl (.inl rfl)
    simp [Removal.keep, Removal.tell, hdead]

/-! ## The rule -/

section Rule

variable {rootSize : TerminalSize} (hroot : ∀ ax, rootSize.cells ax < 2 ^ 64)

include hroot

theorem regrown_grows {s : Removal} {t : PaneTree} {d : SplitDirectionAndSize}
    {up : Path Pane SplitDirectionAndSize} (hfits : d.Fits (holeSize rootSize up))
    (hdead : s.deadPanes ≠ []) (ht : Coming orig t (holeSize rootSize up))
    (hup : GrowsAround cell orig old rootSize s up) (htracked : Tracked old s (up.plug t).leaves) :
    Regrown (GrowsAt cell orig old rootSize) (GrowsAfter cell orig old rootSize)
      (Grown cell orig old rootSize) s t up (unsplitSize cell d) := by
  have hlt := hup.holeSize_lt hroot
  rw [unsplitSize_eq hfits hlt]
  cases t with
  | empty => exact ht.elim fun _ h => h.1.elim
  | leaf y => exact growsAfter_tell ht hup htracked rfl rfl (.inr rfl)
  | node l r d' =>
    cases d' with
    | none => exact ht.elim fun _ h => h.1.elim
    | some d' =>
      have hcells := cells_atCell (holeSize rootSize up) cell
      obtain ⟨hfits', hl, hr⟩ := (ht.mono fun ax => (hcells ax).ge).node fun ax =>
        (hcells ax).symm ▸ hlt ax
      refine ⟨⟨hl, fun hnone => absurd hnone hdead⟩, ⟨hfits'.of_cells hcells,
        ⟨hr, fun hnone => absurd hnone hdead⟩, hup.congr (fun _ _ => rfl) fun h => h⟩, ?_, ?_⟩
      · simpa only [Path.plug, Path.leaves_plug, BinTree.leaves] using htracked.nodup
      · exact htracked.calls

theorem GrowsAt.node {s : Removal} {l r : PaneTree} {d : Option SplitDirectionAndSize}
    {p : Path Pane SplitDirectionAndSize} (h : GrowsAt cell orig old rootSize s (.node l r d) p) :
    GrowsAt cell orig old rootSize s l (.left r (if s.deadPanes.isEmpty then d else
      d.map (·.applyPaneSize (holeSize rootSize p))) p) := by
  obtain ⟨⟨hcoming, hdone⟩, haround, hnodup, hcalls⟩ := h
  cases d with
  | none => exact hcoming.elim fun _ h => h.1.elim
  | some d =>
    have hleaves : ∀ d', (Path.plug (.left r d' p) l).leaves =
        (p.plug (.node l r (some d))).leaves := by
      intro d'
      simp only [Path.plug, Path.leaves_plug, BinTree.leaves]
    split_ifs with hdead
    · rw [List.isEmpty_iff] at hdead
      obtain ⟨hfits, hl, hr⟩ := Done.node.mp (hdone hdead)
      exact ⟨⟨hl.coming, fun _ => hl⟩, ⟨hfits, ⟨hr.coming, fun _ => hr⟩, haround⟩,
        (hleaves _).symm ▸ hnodup, hcalls⟩
    · rw [List.isEmpty_iff] at hdead
      obtain ⟨hfits, hl, hr⟩ := hcoming.node (haround.holeSize_lt hroot)
      exact ⟨⟨hl, fun hnone => absurd hnone hdead⟩, ⟨hfits, ⟨hr, fun hnone => absurd hnone hdead⟩,
        haround⟩, (hleaves _).symm ▸ hnodup, hcalls⟩

theorem growsRule (f : Nat → Pane → Bool) (zoomedId : Option PaneId) :
    RemovalRule f rootSize cell zoomedId (GrowsAt cell orig old rootSize)
      (GrowsAfter cell orig old rootSize) (Grown cell orig old rootSize) where
  empty := fun h => h.rest.coming.elim fun _ h => h.1.elim
  node := fun h => h.node hroot
  keep := fun h _ => h.keep
  removeTop := fun _ _ => .inl rfl
  removeLeft := by
    rintro s x r d up ⟨-, ⟨hfits, hr, hup⟩, hnodup, hcalls⟩ -
    refine regrown_grows hroot hfits (by simp [Removal.take])
      (hr.coming.mono fun ax => (hfits.le ax).2) (hup.congr (fun _ _ => rfl) (by
        simp [Removal.take])) ⟨?_, hcalls⟩
    refine hnodup.sublist ?_
    simp [Path.plug, Path.leaves_plug, BinTree.leaves]
  removeRight := by
    rintro s x l d up ⟨-, ⟨hfits, hl, hup⟩, hnodup, hcalls⟩ -
    refine regrown_grows hroot hfits (by simp [Removal.take])
      (hl.coming.mono fun ax => (hfits.le ax).1) (hup.congr (fun _ _ => rfl) (by
        simp [Removal.take])) ⟨?_, hcalls⟩
    refine hnodup.sublist ?_
    simp [Path.plug, Path.leaves_plug, BinTree.leaves]
  cross := by
    rintro s t r d up ⟨hdone, haround, htracked⟩
    cases d with
    | none => exact haround.elim
    | some d => exact ⟨haround.2.1, ⟨haround.1, hdone, haround.2.2⟩, htracked⟩
  up := by
    rintro s t l d up ⟨hdone, haround, htracked⟩
    cases d with
    | none => exact haround.elim
    | some d => exact ⟨Done.node.mpr ⟨haround.1, haround.2.1, hdone⟩, haround.2.2, htracked⟩
  finish := fun h => .inr h.done

end Rule

end Grows

/-- **What is left is done**: nothing shrinks, and each pane knows what it has. -/
theorem removeLoop_grown {f : Nat → Pane → Bool} {rootSize cell : TerminalSize}
    {zoomedId : Option PaneId} {root : PaneTree} (hroot : ∀ ax, rootSize.cells ax < 2 ^ 64)
    (hfilled : Filled 1 root rootSize) (hnodup : root.leaves.Nodup) {tab : TabInner} {fuel : Nat}
    {s : Removal} {t : PaneTree}
    (hrun : removeLoop f rootSize cell zoomedId fuel (Removal.start tab) root.cursor =
      some (s, t)) : Grown cell (allocations root rootSize) tab.calls rootSize s t := by
  have huntold : ∀ x, toldSince tab.calls (Removal.start tab) x = none := by
    intro x
    simp [toldSince, Removal.start]
  have hdone : Done cell (allocations root rootSize) tab.calls (Removal.start tab) root rootSize := by
    refine ⟨hfilled, fun x b hx => ⟨b, hx, .refl b, fun _ => rfl, fun c hc => ?_⟩⟩
    rw [huntold] at hc
    exact absurd hc (by simp)
  exact (growsRule hroot f zoomedId).post fuel _ root.cursor s t
    ⟨⟨hdone.coming, fun _ => hdone⟩, trivial, hnodup, Nat.le_refl _⟩ hrun

end TabInner

end Wakterm.Mux
