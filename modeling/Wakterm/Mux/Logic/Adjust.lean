import Wakterm.Mux.Logic.Spans

/-!
# What `adjust_x_size` and `adjust_y_size` do

Along their own axis they are the library's `growBy` and `shrinkBy`; elsewhere they change nothing.
-/

namespace Wakterm.Mux

open Wakterm.Machine Wakterm.Bintree Wakterm.Layout

@[simp] theorem TerminalSize.cells_withCells (s : TerminalSize) (ax : Axis) (n : Nat)
    (cell : TerminalSize) : (s.withCells ax n cell).cells ax = n :=
  TerminalSize.cells_setSpan ..

variable {bx ax : Axis}

theorem TerminalSize.cells_withCells_of_ne (s : TerminalSize) (h : bx ≠ ax) (n : Nat)
    (cell : TerminalSize) : (s.withCells ax n cell).cells bx = s.cells bx :=
  TerminalSize.cells_setSpan_of_ne s h n _

/-! ## The frame: nothing else changes -/

section Frame

variable {ax bx : Axis} {cell : TerminalSize} {adjust : PaneTree → Int → PaneTree}

theorem frame_node_congr {l l' r r' : PaneTree} {d d' : SplitDirectionAndSize}
    (hl : frame bx l = frame bx l') (hr : frame bx r = frame bx r')
    (hd : d.direction = d'.direction) (hf : d.first.cells bx = d'.first.cells bx)
    (hs : d.second.cells bx = d'.second.cells bx) :
    frame bx (.node l r (some d)) = frame bx (.node l' r' (some d')) := by
  unfold frame at hl hr ⊢
  simp only [BinTree.mapData, hl, hr, Option.map_some, hd, hf, hs]

theorem frame_adjustAlong (hne : bx ≠ ax)
    (hadj : ∀ t i, frame bx (adjust t i) = frame bx t) (fuel : Nat) :
    ∀ (l r : PaneTree) (d : SplitDirectionAndSize) (i : Int),
    frame bx (adjustAlong adjust ax cell fuel l r d i) = frame bx (.node l r (some d)) := by
  induction fuel with
  | zero => intro l r d i; rfl
  | succ fuel ih =>
    intro l r d i
    simp only [adjustAlong]
    split_ifs
    all_goals first
      | rfl
      | (try rw [ih]
         refine frame_node_congr ?_ ?_ rfl ?_ ?_ <;>
           simp [hadj, TerminalSize.cells_withCells_of_ne _ hne])

theorem frame_adjustAcross (hne : bx ≠ ax)
    (hadj : ∀ t i, frame bx (adjust t i) = frame bx t) (least : Nat) (l r : PaneTree)
    (d : SplitDirectionAndSize) (i : Int) :
    frame bx (adjustAcross adjust ax cell least l r d i) = frame bx (.node l r (some d)) := by
  simp only [adjustAcross]
  split_ifs
  · rfl
  · exact frame_node_congr (hadj _ _) (hadj _ _) rfl
      (TerminalSize.cells_withCells_of_ne _ hne _ _)
      (TerminalSize.cells_setSpan_of_ne _ hne _ _)

theorem frame_adjustSizeAux (hne : bx ≠ ax) (n : Nat) :
    ∀ (t : PaneTree) (i : Int), frame bx (adjustSizeAux ax cell n t i) = frame bx t := by
  induction n with
  | zero => intro t i; rfl
  | succ n ih =>
    intro t i
    match t with
    | .empty => rfl
    | .leaf p => rfl
    | .node l r none => rfl
    | .node l r (some d) =>
      simp only [adjustSizeAux]
      split_ifs
      · rfl
      · exact frame_adjustAlong hne ih _ _ _ _ _
      · rw [frame_adjustAcross hne ih]
        exact frame_node_congr rfl rfl rfl (TerminalSize.cells_setDpi _ _ _)
          (TerminalSize.cells_setDpi _ _ _)

theorem height_adjustSizeAux (n : Nat) (t : PaneTree) (i : Int) :
    (adjustSizeAux ax cell n t i).height = t.height :=
  height_eq_of_frame (frame_adjustSizeAux (Axis.other_ne ax) n t i)

end Frame

theorem skeleton_adjustSize (ax : Axis) (t : PaneTree) (i : Int) (cell : TerminalSize) :
    skeleton (adjustSize ax t i cell) = skeleton t :=
  skeleton_eq_of_frame (frame_adjustSizeAux (Axis.other_ne ax) t.height t i)

theorem span_adjustSize_of_ne (h : bx ≠ ax) (t : PaneTree) (i : Int) (cell : TerminalSize) :
    span bx (adjustSize ax t i cell) = span bx t :=
  span_eq_of_frame (frame_adjustSizeAux h t.height t i)

/-! ## One axis: growing -/

section OneAxis

variable {ax : Axis} {cell : TerminalSize} {adjust : PaneTree → Int → PaneTree}

variable {l r : PaneTree} {d : SplitDirectionAndSize}

theorem span_node_along (h : d.direction.axis = ax) : span ax (.node l r (some d)) =
      .split true (d.first.cells ax) (d.second.cells ax) (span ax l) (span ax r) := by
  simp only [span, h, decide_true]

theorem span_node_across (h : d.direction.axis ≠ ax) : span ax (.node l r (some d)) =
      .split false (d.first.cells ax) (d.second.cells ax) (span ax l) (span ax r) := by
  simp only [span, h, decide_false]

theorem least_le_of_children {a : Nat} (h : d.direction.axis ≠ ax) (hl : (span ax l).Roomy a)
    (hr : (span ax r).Roomy a) : (span ax (.node l r (some d))).least ≤ a := by
  rw [span_node_across h]
  exact max_le hl.least_le hr.least_le

/-- The loop hands out `n` cells in turn. `hgrow` is what is known of one cell
given to a child. -/
theorem span_adjustAlong_grow {h : Nat} (hheight : ∀ t i, (adjust t i).height = t.height)
    (hgrow : ∀ t a, t.height ≤ h → (span ax t).Roomy a → a + 1 < 2 ^ 63 →
      span ax (adjust t 1) = (span ax t).grow1) (fuel : Nat) :
    ∀ (n : Nat) (l r : PaneTree) (d : SplitDirectionAndSize), n ≤ fuel →
    d.direction.axis = ax → l.height ≤ h → r.height ≤ h → (span ax l).Roomy (d.first.cells ax) →
    (span ax r).Roomy (d.second.cells ax) → d.first.cells ax + d.second.cells ax + n < 2 ^ 63 →
    span ax (adjustAlong adjust ax cell fuel l r d n) =
      (span ax (.node l r (some d))).growBy n := by
  induction fuel with
  | zero =>
    intro n l r d hn hd _ _ _ _ _
    obtain rfl : n = 0 := by omega
    rw [span_node_along hd]
    simp [adjustAlong, span_node_along hd, Span.growBy]
  | succ fuel ih =>
    intro n l r d hn hd hhl hhr hl hr hbound
    obtain _ | _ | n := n
    · rw [span_node_along hd]
      simp [adjustAlong, span_node_along hd, Span.growBy]
    · have hf := hgrow l _ hhl hl (by omega)
      have hadd : uadd (d.first.cells ax) 1 = d.first.cells ax + 1 := uadd_of_lt (by omega)
      rw [span_node_along hd]
      simp only [adjustAlong]
      rw [if_neg (by decide), if_pos (by decide), if_neg (by decide)]
      rw [show ((1 : Nat) : Int) - 1 = ((0 : Nat) : Int) by decide,
        ih 0 _ _ _ (by omega) (by exact hd) (by rw [hheight]; exact hhl) hhr (by simp [hf, hadd, hl.grow1])
          (by simpa using hr) (by simp [hadd]; omega), span_node_along (by exact hd)]
      simp [Span.growBy, hf, hadd]
    · have hf := hgrow l _ hhl hl (by omega)
      have hs := hgrow r _ hhr hr (by omega)
      have haddf : uadd (d.first.cells ax) 1 = d.first.cells ax + 1 := uadd_of_lt (by omega)
      have hadds : uadd (d.second.cells ax) 1 = d.second.cells ax + 1 := uadd_of_lt (by omega)
      rw [span_node_along hd]
      simp only [adjustAlong]
      rw [if_neg (by omega), if_pos (by omega), if_pos (by omega),
        show ((n + 2 : Nat) : Int) - 1 - 1 = (n : Int) by omega,
        ih n _ _ _ (by omega) (by exact hd) (by rw [hheight]; exact hhl)
          (by rw [hheight]; exact hhr) (by simp [hf, haddf, hl.grow1])
          (by simp [hs, hadds, hr.grow1]) (by simp [haddf, hadds]; omega),
        span_node_along (by exact hd)]
      have h1 : (n + 2 + 1) / 2 = (n + 1) / 2 + 1 := by omega
      have h2 : (n + 2) / 2 = n / 2 + 1 := by omega
      simp only [Span.growBy, TerminalSize.cells_withCells, TerminalSize.cells_setDpi,
        hf, hs, haddf, hadds, h1, h2, Function.iterate_succ_apply]
      congr 1 <;> omega

/-- The loop takes `n` cells in turn, while there is more than one to take
from. `P` carries what `hshrink` needs to hold again of the changed child. -/
theorem span_adjustAlong_shrink {P : PaneTree → Prop}
    (hshrink : ∀ t, P t → span ax (adjust t (-1)) = (span ax t).shrink1 ∧ P (adjust t (-1)))
    (fuel : Nat) : ∀ (n : Nat) (l r : PaneTree) (d : SplitDirectionAndSize), n ≤ fuel →
    d.direction.axis = ax → P l → P r → span ax (adjustAlong adjust ax cell fuel l r d (-n)) =
      (span ax (.node l r (some d))).shrinkBy n := by
  induction fuel with
  | zero =>
    intro n l r d hn hd _ _
    obtain rfl : n = 0 := by omega
    rw [span_node_along hd]
    simp [adjustAlong, span_node_along hd, Span.shrinkBy, Span.firstShare, Span.secondShare]
  | succ fuel ih =>
    intro n l r d hn hd hl hr
    obtain ⟨hf, hl'⟩ := hshrink l hl
    obtain ⟨hs, hr'⟩ := hshrink r hr
    rw [span_node_along hd]
    obtain _ | n := n
    · simp [adjustAlong, span_node_along hd, Span.shrinkBy, Span.firstShare,
        Span.secondShare]
    · simp only [adjustAlong]
      rw [if_neg (by omega), if_neg (by omega)]
      simp only [TerminalSize.cells_setDpi]
      split_ifs with hfirst hboth hsecond
      · -- both children give a cell
        obtain ⟨hmore, hsecond⟩ := hboth
        obtain ⟨n, rfl⟩ : ∃ m, n = m + 1 := ⟨n - 1, by omega⟩
        rw [show -((n + 1 + 1 : Nat) : Int) + 1 + 1 = -(n : Int) by omega,
          ih n _ _ _ (by omega) (by exact hd) hl' hr', span_node_along (by exact hd)]
        simp only [Span.shrinkBy, TerminalSize.cells_withCells, hf, hs,
          Span.firstShare_both hfirst hsecond, Span.secondShare_both hfirst hsecond,
          Function.iterate_succ_apply, Nat.sub_sub, Nat.add_comm 1]
      · -- only the first child gives: it was the last cell, or the second has one
        obtain ⟨h1, h2⟩ := Span.shares_first (n := n) hfirst
          (show n = 0 ∨ d.second.cells ax ≤ 1 by omega)
        rw [show -((n + 1 : Nat) : Int) + 1 = -(n : Int) by omega,
          ih n _ _ _ (by omega) (by exact hd) hl' hr, span_node_along (by exact hd)]
        simp only [Span.shrinkBy, TerminalSize.cells_withCells, TerminalSize.cells_setDpi,
          hf, h1, h2, Function.iterate_succ_apply, Nat.sub_sub, Nat.add_comm 1]
      · -- the first child is down to one cell
        obtain ⟨h1, h2⟩ := Span.shares_second (Nat.le_of_not_lt hfirst) hsecond n
        rw [show -((n + 1 : Nat) : Int) + 1 = -(n : Int) by omega,
          ih n _ _ _ (by omega) (by exact hd) hl hr', span_node_along (by exact hd)]
        simp only [Span.shrinkBy, TerminalSize.cells_withCells, TerminalSize.cells_setDpi,
          hs, h1, h2, Function.iterate_succ_apply, Nat.sub_sub, Nat.add_comm 1]
      · -- neither gives: no share is left
        have h1 := Span.firstShare_of_le (Nat.le_of_not_lt hfirst) (n + 1) (d.second.cells ax)
        have h2 := Span.secondShare_of_le (Nat.le_of_not_lt hsecond) (n + 1) (d.first.cells ax)
        rw [span_node_along (by exact hd)]
        simp [Span.shrinkBy, h1, h2]

/-- A split across the axis: both children change by what the clamped size
differs from the old one. -/
theorem span_adjustAcross {least f : Nat} {i : Int} (hd : d.direction.axis ≠ ax)
    (hold : d.first.cells ax < 2 ^ 63) (hf : f < 2 ^ 63)
    (hnew : max (isat (asIsize (d.first.cells ax) + i)) (asIsize least) = f) :
    span ax (adjustAcross adjust ax cell least l r d i) =
      if f = d.first.cells ax then span ax (.node l r (some d))
      else .split false f f (span ax (adjust l (f - d.first.cells ax)))
        (span ax (adjust r (f - d.first.cells ax))) := by
  have hamount : isat ((f : Int) - asIsize (d.first.cells ax)) = f - d.first.cells ax := by
    rw [asIsize_of_lt hold, isat_of_mem (by omega) (by omega)]
  have hzero : (f : Int) - d.first.cells ax = 0 ↔ f = d.first.cells ax := by omega
  simp only [adjustAcross, hnew, hamount, hzero]
  split_ifs with h
  · rfl
  · rw [span_node_across (by exact hd)]
    simp

theorem span_adjustSizeAux_grow (h : Nat) :
    ∀ (t : PaneTree) (a n : Nat), t.height ≤ h → (span ax t).Roomy a → a + n < 2 ^ 63 →
    span ax (adjustSizeAux ax cell h t n) = (span ax t).growBy n := by
  induction h with
  | zero =>
    intro t a n ht _ _
    cases t with
    | node l r d => simp [BinTree.height] at ht
    | empty => rfl
    | leaf p => rfl
  | succ h ih =>
    intro t a n ht hroomy hbound
    obtain _ | ⟨l, r, _ | d⟩ | p := t
    · rfl
    · rfl
    · simp only [BinTree.height] at ht
      simp only [adjustSizeAux]
      split_ifs with h0 hd
      · obtain rfl : n = 0 := by omega
        exact (hroomy.growBy_zero).symm
      · rw [span_node_along hd] at hroomy
        obtain ⟨hsum, hl, hr⟩ := hroomy
        have hunit : ∀ t a, t.height ≤ h → (span ax t).Roomy a → a + 1 < 2 ^ 63 →
            span ax (adjustSizeAux ax cell h t 1) = (span ax t).grow1 := by
          intro t a ht hroomy hbound
          rw [← Span.growBy_one]
          exact ih t a 1 ht hroomy hbound
        rw [Int.natAbs_natCast]
        exact span_adjustAlong_grow (height_adjustSizeAux h) hunit n n l r d le_rfl hd
          (by omega) (by omega) hl hr (by omega)
      · rw [span_node_across hd] at hroomy ⊢
        obtain ⟨rfl, hs, hl, hr⟩ := hroomy
        rw [hs] at hr
        have hleast := least_le_of_children hd hl hr
        have hnew : max (isat (asIsize (d.first.cells ax) + n))
            (asIsize (minCells ax (.node l r (some d)))) =
            ((d.first.cells ax + n : Nat) : Int) := by
          rw [minCells_eq _ _ (by omega), asIsize_of_lt (by omega),
            asIsize_of_lt (by omega), isat_of_mem (by omega) (by omega)]
          omega
        rw [span_adjustAcross (by exact hd) (by simp; omega) hbound (by simpa using hnew)]
        simp only [TerminalSize.cells_setDpi]
        rw [if_neg (by omega),
          show ((d.first.cells ax + n : Nat) : Int) - d.first.cells ax = n by omega,
          ih l _ n (by omega) hl hbound, ih r _ n (by omega) hr hbound]
        simp [Span.growBy]
    · rfl

theorem span_adjustSizeAux_shrink (h : Nat) :
    ∀ (t : PaneTree) (n : Nat), t.height ≤ h → (span ax t).Below (2 ^ 63) →
    (span ax t).Ample → (span ax t).least < 2 ^ 63 → n < 2 ^ 63 →
    span ax (adjustSizeAux ax cell h t (-n)) = (span ax t).shrinkBy n := by
  induction h with
  | zero =>
    intro t n ht _ _ _ _
    cases t with
    | node l r d => simp [BinTree.height] at ht
    | empty => rfl
    | leaf p => rfl
  | succ h ih =>
    intro t n ht hbelow hample hleast hn
    obtain _ | ⟨l, r, _ | d⟩ | p := t
    · rfl
    · rfl
    · simp only [BinTree.height] at ht
      have hhl : l.height ≤ h := by omega
      have hhr : r.height ≤ h := by omega
      have hchild := @least_span_node_le ax l r d
      have hll := hchild.1.trans_lt hleast
      have hlr := hchild.2.trans_lt hleast
      simp only [adjustSizeAux]
      split_ifs with h0 hd
      · obtain rfl : n = 0 := by omega
        exact (Span.shrinkBy_zero _).symm
      · rw [span_node_along hd] at hbelow hample
        obtain ⟨_, _, hbl, hbr⟩ := hbelow
        obtain ⟨hal, har⟩ := hample
        rw [Int.natAbs_neg, Int.natAbs_natCast]
        refine span_adjustAlong_shrink
          (P := fun t => t.height ≤ h ∧ (span ax t).Below (2 ^ 63) ∧ (span ax t).Ample ∧
            (span ax t).least < 2 ^ 63) ?_ n n l r d le_rfl hd
          ⟨hhl, hbl, hal, hll⟩ ⟨hhr, hbr, har, hlr⟩
        rintro t ⟨ht, hb, ha, hl⟩
        have hone : span ax (adjustSizeAux ax cell h t (-1)) = (span ax t).shrink1 :=
          (ih t 1 ht hb ha hl (by decide)).trans (Span.shrinkBy_one _)
        refine ⟨hone, (height_adjustSizeAux h t _).trans_le ht, ?_⟩
        rw [hone]
        exact ⟨hb.shrink1, ha.shrink1, by rwa [Span.least_shrink1]⟩
      · rw [span_node_across hd] at hbelow hample ⊢
        obtain ⟨hf, hs, hbl, hbr⟩ := hbelow
        obtain ⟨hmax, hal, har⟩ := hample
        obtain ⟨k, hk⟩ : ∃ k, k = min n
          (d.first.cells ax - max (span ax l).least (span ax r).least) := ⟨_, rfl⟩
        have hkn : k < 2 ^ 63 := by omega
        have hnew : max (isat (asIsize (d.first.cells ax) + -n))
            (asIsize (minCells ax (.node l r (some d)))) =
            ((d.first.cells ax - k : Nat) : Int) := by
          rw [minCells_eq _ _ (by omega), asIsize_of_lt hleast, asIsize_of_lt hf,
            isat_of_mem (by omega) (by omega), span_node_across hd, Span.least]
          omega
        rw [span_adjustAcross (f := d.first.cells ax - k) (by exact hd) (by simpa using hf)
          (by omega) (by simpa using hnew), Span.shrinkBy, ← hk, span_node_across (by exact hd)]
        simp only [TerminalSize.cells_setDpi]
        by_cases hk0 : k = 0
        · rw [if_pos hk0, if_pos (by omega)]
        · rw [if_neg hk0, if_neg (by omega),
            show ((d.first.cells ax - k : Nat) : Int) - d.first.cells ax = -k by omega,
            ih l k hhl hbl hal hll hkn, ih r k hhr hbr har hlr hkn]
    · rfl

end OneAxis

theorem adjustSize_zero (ax : Axis) (t : PaneTree) (cell : TerminalSize) :
    adjustSize ax t (iwrap 0) cell = t := by
  have hzero : iwrap 0 = 0 := by decide
  rw [hzero, adjustSize]
  cases t with
  | empty => rfl
  | leaf x => rfl
  | node l r d => cases d <;> rfl

theorem span_adjustSize_grow {t : PaneTree} {a n : Nat} {cell : TerminalSize}
    (h : (span ax t).Roomy a) (hn : a + n < 2 ^ 63) :
    span ax (adjustSize ax t n cell) = (span ax t).growBy n :=
  span_adjustSizeAux_grow t.height t a n le_rfl h hn

theorem span_adjustSize_shrink {t : PaneTree} {a n : Nat} {cell : TerminalSize}
    (h : (span ax t).Roomy a) (ha : a < 2 ^ 63) (hn : n < 2 ^ 63) :
    span ax (adjustSize ax t (-n) cell) = (span ax t).shrinkBy n :=
  span_adjustSizeAux_shrink t.height t n le_rfl (h.fills.below ha) h.ample
    (h.least_le.trans_lt ha) hn

end Wakterm.Mux
