import Wakterm.Mux.Logic.Removal
import Wakterm.Mux.Logic.Tiling

/-!
# The layout after a removal

When a leaf goes its sibling gets the space of their split, and the loop of `remove_pane_if` hands
it down as it walks on; until then a subtree is laid out for less than it is given (`Pending`).
-/

namespace Wakterm.Mux

open Wakterm.Machine Wakterm.Bintree Wakterm.Layout

variable {t : PaneTree}

variable {a : TerminalSize}

theorem cells_unsplitSize {d : SplitDirectionAndSize} (h : d.Fits a)
    (ha : ∀ ax, a.cells ax < 2 ^ 63) (cell : TerminalSize) (ax : Axis) :
    (TabInner.unsplitSize cell d).cells ax = a.cells ax := by
  have hx := ha .x
  have hy := ha .y
  unfold SplitDirectionAndSize.Fits at h
  cases hd : d.direction <;> simp only [hd] at h <;> cases ax <;>
    simp [TabInner.unsplitSize, SplitDirectionAndSize.width, SplitDirectionAndSize.height, hd,
      uadd] at hx hy ⊢ <;> omega

/-- The panes of the tree fill the size, with at least `m` cells each on either
axis. -/
def Filled (m : Nat) : PaneTree → TerminalSize → Prop
  | .empty, _ => False
  | .leaf _, a => ∀ ax, m ≤ a.cells ax
  | .node _ _ none, _ => False
  | .node l r (some d), a => d.Fits a ∧ Filled m l d.first ∧ Filled m r d.second

/-- The cells a tree needs on an axis when a first child gives up nothing. -/
def needed (m : Nat) (ax : Axis) : PaneTree → Nat
  | .node l r (some d) =>
    if d.direction.axis = ax then d.first.cells ax + 1 + needed m ax r
    else max (needed m ax l) (needed m ax r)
  | .node _ _ none => m
  | .empty => m
  | .leaf _ => m

theorem filled_zero_iff (t : PaneTree) (a : TerminalSize) :
    Filled 0 t a ↔ t.Full ∧ HasData t ∧ Consistent t a := by
  induction t generalizing a with
  | empty => exact ⟨False.elim, fun h => h.1⟩
  | leaf x => exact iff_of_true (fun _ => Nat.zero_le _) ⟨trivial, trivial, trivial⟩
  | node l r d ihl ihr =>
    cases d with
    | none => exact ⟨False.elim, fun h => absurd h.2.1.1 (by simp)⟩
    | some d =>
      simp only [Filled, ihl, ihr, BinTree.Full, HasData, Consistent, Option.isSome_some,
        true_and]
      tauto

theorem Filled.needed_le {m : Nat} (h : Filled m t a) (ax : Axis) : needed m ax t ≤ a.cells ax := by
  induction t generalizing a with
  | empty => exact h.elim
  | leaf x => exact h ax
  | node l r d ihl ihr =>
    cases d with
    | none => exact h.elim
    | some d =>
      obtain ⟨hfits, hl, hr⟩ := h
      have hnl := ihl hl
      have hnr := ihr hr
      have hle := hfits.le ax
      simp only [needed]
      split_ifs with hd
      · obtain ⟨hsum, -⟩ := (d.fits_iff a).mp hfits
        subst hd
        omega
      · omega

/-- Handing a size to a tree laid out for another will lay it out for that one. -/
def Pending (m : Nat) (t : PaneTree) (a : TerminalSize) : Prop :=
  ∃ a₀, Filled m t a₀ ∧ (∀ ax, a₀.cells ax < 2 ^ 63) ∧ ∀ ax, needed m ax t ≤ a.cells ax

section Pending

variable {m : Nat}

theorem Filled.pending (h : Filled m t a) (ha : ∀ ax, a.cells ax < 2 ^ 63) : Pending m t a :=
  ⟨a, h, ha, h.needed_le⟩

theorem Pending.mono {a b : TerminalSize} (h : Pending m t a)
    (hab : ∀ ax, a.cells ax ≤ b.cells ax) : Pending m t b := by
  obtain ⟨a₀, ht, ha₀, hneed⟩ := h
  exact ⟨a₀, ht, ha₀, fun ax => (hneed ax).trans (hab ax)⟩

theorem Pending.leaf {x : Pane} (h : Pending m (.leaf x) a) : Filled m (.leaf x) a := by
  obtain ⟨_, _, _, hneed⟩ := h
  exact hneed

theorem Pending.node {l r : PaneTree} {d : SplitDirectionAndSize}
    (h : Pending m (.node l r (some d)) a) :
    (d.applyPaneSize a).Fits a ∧ Pending m l (d.applyPaneSize a).first ∧
      Pending m r (d.applyPaneSize a).second := by
  obtain ⟨a₀, ⟨hfits, hl, hr⟩, ha₀, hneed⟩ := h
  have hle := hfits.le
  have hfirst := ha₀ d.direction.axis
  have halong := d.applyPaneSize_along a (by have := (hle d.direction.axis).1; omega)
  have hacross := d.applyPaneSize_across a
  have hneed₁ := hneed d.direction.axis
  have hneed₂ := hneed d.direction.axis.other
  simp only [needed, if_true] at hneed₁
  simp only [needed, (Axis.other_ne _).symm, if_false] at hneed₂
  refine ⟨?_, ⟨d.first, hl, fun ax => (hle ax).1.trans_lt (ha₀ ax), fun ax => ?_⟩,
    ⟨d.second, hr, fun ax => (hle ax).2.trans_lt (ha₀ ax), fun ax => ?_⟩⟩
  · rw [SplitDirectionAndSize.fits_iff]
    simp only [SplitDirectionAndSize.direction_applyPaneSize, halong, hacross, and_self, and_true]
    omega
  · rcases axis_eq_or ax d.direction.axis with rfl | rfl
    · rw [halong.1]
      exact hl.needed_le _
    · rw [hacross.1]
      omega
  · rcases axis_eq_or ax d.direction.axis with rfl | rfl
    · rw [halong.2]
      omega
    · rw [hacross.2]
      omega

end Pending

namespace TabInner

/-- A subtree the loop has not come to: laid out for its space or, once a pane
has gone, waiting to be. -/
def Waiting (m : Nat) (s : Removal) (t : PaneTree) (a : TerminalSize) : Prop :=
  Filled m t a ∨ s.deadPanes ≠ [] ∧ Pending m t a

/-- Around a position what has been walked is laid out, and the rest waits. -/
def WaitingAround (m : Nat) (laid : TerminalSize) (s : Removal) :
    Path Pane SplitDirectionAndSize → Prop
  | .top => True
  | .left _ none _ => False
  | .left r (some d) up =>
    d.Fits (holeSize laid up) ∧ Waiting m s r d.second ∧ WaitingAround m laid s up
  | .right _ none _ => False
  | .right l (some d) up =>
    d.Fits (holeSize laid up) ∧ Filled m l d.first ∧ WaitingAround m laid s up

theorem Waiting.mono {m : Nat} {s s' : Removal} (h : Waiting m s t a)
    (hs : s.deadPanes ≠ [] → s'.deadPanes ≠ []) : Waiting m s' t a :=
  h.imp_right fun h => ⟨hs h.1, h.2⟩

theorem Waiting.pending {m : Nat} {s : Removal} (h : Waiting m s t a)
    (ha : ∀ ax, a.cells ax < 2 ^ 63) : Pending m t a :=
  h.elim (fun h => h.pending ha) fun h => h.2

section Around

variable {m : Nat} {laid : TerminalSize} {s : Removal} {p : Path Pane SplitDirectionAndSize}

theorem WaitingAround.mono {s' : Removal} (h : WaitingAround m laid s p)
    (hs : s.deadPanes ≠ [] → s'.deadPanes ≠ []) : WaitingAround m laid s' p := by
  induction p with
  | top => trivial
  | left r d up ih =>
    cases d with
    | none => exact h
    | some d => exact ⟨h.1, h.2.1.mono hs, ih h.2.2⟩
  | right l d up ih =>
    cases d with
    | none => exact h
    | some d => exact ⟨h.1, h.2.1, ih h.2.2⟩

theorem WaitingAround.holeSize_lt (h : WaitingAround m laid s p) {b : Nat}
    (hlaid : ∀ ax, laid.cells ax < b) (ax : Axis) : (holeSize laid p).cells ax < b := by
  induction p with
  | top => exact hlaid ax
  | left r d up ih =>
    cases d with
    | none => exact h.elim
    | some d => exact (h.1.le ax).1.trans_lt (ih h.2.2)
  | right l d up ih =>
    cases d with
    | none => exact h.elim
    | some d => exact (h.1.le ax).2.trans_lt (ih h.2.2)

theorem WaitingAround.holeSize_eq (h : WaitingAround m laid s p) (hp : p ≠ .top)
    (rootSize : TerminalSize) : holeSize rootSize p = holeSize laid p := by
  cases p with
  | top => exact absurd rfl hp
  | left r d up =>
    cases d with
    | none => exact h.elim
    | some d => rfl
  | right l d up =>
    cases d with
    | none => exact h.elim
    | some d => rfl

end Around

/-- The walk arrives at a subtree; nothing has gone before it leaves the root. -/
structure FilledAt (m : Nat) (laid : TerminalSize) (s : Removal) (t : PaneTree)
    (p : Path Pane SplitDirectionAndSize) : Prop where
  waiting : Waiting m s t (holeSize laid p)
  around : WaitingAround m laid s p
  top : p = .top → s.deadPanes = []

/-- The walk leaves a subtree. -/
structure FilledAfter (m : Nat) (laid : TerminalSize) (s : Removal) (t : PaneTree)
    (p : Path Pane SplitDirectionAndSize) : Prop where
  filled : Filled m t (holeSize laid p)
  around : WaitingAround m laid s p

section Rule

variable {m : Nat} {laid : TerminalSize} (hlaid : ∀ ax, laid.cells ax < 2 ^ 63)

include hlaid

theorem regrown_filled {s : Removal} {d : SplitDirectionAndSize}
    {up : Path Pane SplitDirectionAndSize} (hfits : d.Fits (holeSize laid up))
    (hdead : s.deadPanes ≠ []) (ht : Pending m t (holeSize laid up))
    (hup : WaitingAround m laid s up) (cell : TerminalSize) :
    Regrown (FilledAt m laid) (FilledAfter m laid) (fun _ t => t = .empty ∨ Filled m t laid) s t up
      (unsplitSize cell d) := by
  have hcells := cells_unsplitSize hfits (hup.holeSize_lt hlaid) cell
  cases t with
  | empty => exact ht.elim fun _ h => h.1.elim
  | leaf y => exact ⟨ht.leaf, hup.mono fun h => h⟩
  | node l r d' =>
    cases d' with
    | none => exact ht.elim fun _ h => h.1.elim
    | some d' =>
      obtain ⟨hfits', hl, hr⟩ := (ht.mono fun ax => (hcells ax).ge).node
      exact ⟨.inr ⟨hdead, hl⟩, ⟨hfits'.of_cells hcells, .inr ⟨hdead, hr⟩, hup.mono fun h => h⟩,
        nofun⟩

theorem FilledAt.node {s : Removal} {l r : PaneTree} {d : Option SplitDirectionAndSize}
    {p : Path Pane SplitDirectionAndSize} (h : FilledAt m laid s (.node l r d) p)
    (rootSize : TerminalSize) : FilledAt m laid s l (.left r (if s.deadPanes.isEmpty then d else
      d.map (·.applyPaneSize (holeSize rootSize p))) p) := by
  obtain ⟨hwait, haround, htop⟩ := h
  have hpending := hwait.pending (haround.holeSize_lt hlaid)
  cases d with
  | none => exact hpending.elim fun _ h => h.1.elim
  | some d =>
    split_ifs with hdead
    · rw [List.isEmpty_iff] at hdead
      obtain ⟨hfits, hl, hr⟩ := hwait.resolve_right fun h => h.1 hdead
      exact ⟨.inl hl, ⟨hfits, .inl hr, haround⟩, nofun⟩
    · rw [List.isEmpty_iff] at hdead
      rw [haround.holeSize_eq (fun h => hdead (htop h)) rootSize]
      obtain ⟨hfits, hl, hr⟩ := hpending.node
      exact ⟨.inr ⟨hdead, hl⟩, ⟨hfits, .inr ⟨hdead, hr⟩, haround⟩, nofun⟩

theorem filledRule (f : Nat → Pane → Bool) (rootSize cell : TerminalSize)
    (zoomedId : Option PaneId) :
    RemovalRule f rootSize cell zoomedId (FilledAt m laid) (FilledAfter m laid)
      fun _ t => t = .empty ∨ Filled m t laid where
  empty := fun h =>
    (h.waiting.pending (h.around.holeSize_lt hlaid)).elim fun _ h => h.1.elim
  node := fun h => h.node hlaid rootSize
  keep := fun h _ =>
    ⟨(h.waiting.pending (h.around.holeSize_lt hlaid)).leaf, h.around.mono fun h => h⟩
  removeTop := fun _ _ => .inl rfl
  removeLeft := by
    rintro s x r d up ⟨_, ⟨hfits, hr, hup⟩, -⟩ -
    have hlt := hup.holeSize_lt hlaid
    have hpending := hr.pending fun ax => (hfits.le ax).2.trans_lt (hlt ax)
    exact regrown_filled hlaid hfits (by simp [Removal.take])
      (hpending.mono fun ax => (hfits.le ax).2) (hup.mono fun _ => by simp [Removal.take]) cell
  removeRight := by
    rintro s x l d up ⟨_, ⟨hfits, hl, hup⟩, -⟩ -
    have hlt := hup.holeSize_lt hlaid
    have hpending := hl.pending fun ax => (hfits.le ax).1.trans_lt (hlt ax)
    exact regrown_filled hlaid hfits (by simp [Removal.take])
      (hpending.mono fun ax => (hfits.le ax).1) (hup.mono fun _ => by simp [Removal.take]) cell
  cross := by
    rintro s t r d up ⟨ht, haround⟩
    cases d with
    | none => exact haround.elim
    | some d => exact ⟨haround.2.1, ⟨haround.1, ht, haround.2.2⟩, nofun⟩
  up := by
    rintro s t l d up ⟨ht, haround⟩
    cases d with
    | none => exact haround.elim
    | some d => exact ⟨⟨haround.1, haround.2.1, ht⟩, haround.2.2⟩
  finish := fun h => .inr h.filled

/-- **What is left stays laid out** for the size the tree was laid out for,
whatever the size of the tab. -/
theorem removeLoop_filled {f : Nat → Pane → Bool} {rootSize cell : TerminalSize}
    {zoomedId : Option PaneId} {root : PaneTree} (hroot : root = .empty ∨ Filled m root laid)
    {tab : TabInner} {fuel : Nat} {s : Removal}
    (hrun : removeLoop f rootSize cell zoomedId fuel (Removal.start tab) root.cursor =
      some (s, t)) : t = .empty ∨ Filled m t laid := by
  rcases hroot with rfl | hroot
  · cases fuel with
    | zero => exact nomatch hrun
    | succ fuel =>
      cases hrun
      exact .inl rfl
  · exact (filledRule hlaid f rootSize cell zoomedId).post fuel _ root.cursor s t
      ⟨.inl hroot, trivial, fun _ => rfl⟩ hrun

end Rule

end TabInner

end Wakterm.Mux
