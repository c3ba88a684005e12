import Wakterm.Mux.Logic.Relayout

/-!
# Resizing behind a zoomed pane

While a pane is zoomed the tree keeps its layout; `toggle_zoom` lays it out by the difference to
`size_before_zoom`.
-/

namespace Wakterm.Mux

open Wakterm.Machine Wakterm.Bintree Wakterm.Layout

/-! ## What the passes depend on -/

variable {ax : Axis} {t' l r t root : PaneTree} {old laid : TerminalSize}

theorem frame_node_inj {d : Option SplitDirectionAndSize} (h : frame ax (.node l r d) = frame ax t')
    : ∃ l' r' d', t' = .node l' r' d' ∧ frame ax l = frame ax l' ∧ frame ax r = frame ax r' ∧
      d.map (fun d => (d.direction, d.first.cells ax, d.second.cells ax)) =
        d'.map (fun d => (d.direction, d.first.cells ax, d.second.cells ax)) := by
  cases t' with
  | empty => simp [frame, BinTree.mapData] at h
  | leaf x => simp [frame, BinTree.mapData] at h
  | node l' r' d' =>
    simp only [frame, BinTree.mapData, BinTree.node.injEq] at h
    exact ⟨l', r', d', rfl, h⟩

theorem computeMinSize_congr (h : skeleton t = skeleton t') :
    computeMinSize t = computeMinSize t' := by
  induction t generalizing t' with
  | empty => cases t' <;> simp_all [skeleton, BinTree.mapData, computeMinSize]
  | leaf x => cases t' <;> simp_all [skeleton, BinTree.mapData, computeMinSize]
  | node l r d ihl ihr =>
    cases t' with
    | empty => simp [skeleton, BinTree.mapData] at h
    | leaf x => simp [skeleton, BinTree.mapData] at h
    | node l' r' d' =>
      simp only [skeleton, BinTree.mapData, BinTree.node.injEq] at h
      obtain ⟨hl, hr, hd⟩ := h
      cases d with
      | none =>
        cases d' with
        | none => rfl
        | some d' => simp at hd
      | some d =>
        cases d' with
        | none => simp at hd
        | some d' =>
          simp only [Option.map_some, Option.some.injEq] at hd
          simp only [computeMinSize, hd, ihl hl, ihr hr]

section Congr

variable {ax : Axis} {cell : TerminalSize} {adjust adjust' : PaneTree → Int → PaneTree}

theorem frame_adjustAlong_congr
    (hadj : ∀ t t' i, frame ax t = frame ax t' → frame ax (adjust t i) = frame ax (adjust t' i))
    (fuel : Nat) : ∀ (l r l' r' : PaneTree) (d d' : SplitDirectionAndSize) (i : Int),
    frame ax l = frame ax l' → frame ax r = frame ax r' → d.direction = d'.direction →
    d.first.cells ax = d'.first.cells ax → d.second.cells ax = d'.second.cells ax →
    frame ax (adjustAlong adjust ax cell fuel l r d i) =
      frame ax (adjustAlong adjust ax cell fuel l' r' d' i) := by
  induction fuel with
  | zero =>
    intro l r l' r' d d' i hl hr hd hf hs
    exact frame_node_congr hl hr hd hf hs
  | succ fuel ih =>
    intro l r l' r' d d' i hl hr hd hf hs
    simp only [adjustAlong, TerminalSize.cells_setDpi, hf, hs]
    split_ifs
    · exact frame_node_congr hl hr hd hf hs
    · exact ih _ _ _ _ _ _ _ (hadj _ _ _ hl) (hadj _ _ _ hr) hd (by simp) (by simp)
    · exact ih _ _ _ _ _ _ _ (hadj _ _ _ hl) hr hd (by simp) (by simpa using hs)
    · exact ih _ _ _ _ _ _ _ (hadj _ _ _ hl) (hadj _ _ _ hr) hd (by simp) (by simp)
    · exact ih _ _ _ _ _ _ _ (hadj _ _ _ hl) hr hd (by simp) (by simpa using hs)
    · exact ih _ _ _ _ _ _ _ hl (hadj _ _ _ hr) hd (by simpa using hf) (by simp)
    · exact frame_node_congr hl hr hd (by simpa using hf) (by simpa using hs)

theorem frame_adjustSizeAux_congr (n : Nat) :
    ∀ (t t' : PaneTree) (i : Int), frame ax t = frame ax t' →
    frame ax (adjustSizeAux ax cell n t i) = frame ax (adjustSizeAux ax cell n t' i) := by
  induction n with
  | zero => exact fun _ _ _ h => h
  | succ n ih =>
    intro t t' i h
    cases t with
    | empty => cases t' <;> simp_all [frame, BinTree.mapData, adjustSizeAux]
    | leaf x => cases t' <;> simp_all [frame, BinTree.mapData, adjustSizeAux]
    | node l r d =>
      have hmin := computeMinSize_congr (skeleton_eq_of_frame h)
      obtain ⟨l', r', d', rfl, hl, hr, hd⟩ := frame_node_inj h
      cases d with
      | none =>
        cases d' with
        | none => exact h
        | some d' => simp at hd
      | some d =>
        cases d' with
        | none => simp at hd
        | some d' =>
          simp only [Option.map_some, Option.some.injEq, Prod.mk.injEq] at hd
          obtain ⟨hdir, hf, hs⟩ := hd
          have hmin' : minCells ax (.node l r (some d)) =
              minCells ax (.node l' r' (some d')) := by
            cases ax <;> simp only [minCells, hmin]
          simp only [adjustSizeAux, hdir]
          split_ifs
          · exact h
          · exact frame_adjustAlong_congr ih _ _ _ _ _ _ _ _ hl hr hdir hf hs
          · simp only [adjustAcross, TerminalSize.cells_setDpi, hf, hmin']
            split_ifs
            · exact frame_node_congr hl hr rfl (by simpa using hf) (by simpa using hs)
            · exact frame_node_congr (ih _ _ _ hl) (ih _ _ _ hr) rfl (by simp)
                (by simp)

end Congr

theorem frame_adjustSize_congr (h : frame ax t = frame ax t') (i : Int) (cell : TerminalSize) :
    frame ax (adjustSize ax t i cell) = frame ax (adjustSize ax t' i cell) := by
  rw [adjustSize, adjustSize, height_eq_of_frame h]
  exact frame_adjustSizeAux_congr _ t t' i h

theorem frame_adjustSize_of_ne {bx : Axis} (h : bx ≠ ax) (t : PaneTree) (i : Int)
    (cell : TerminalSize) : frame bx (adjustSize ax t i cell) = frame bx t :=
  frame_adjustSizeAux h t.height t i

/-- Some split of the tree divides the axis. -/
def Divided (ax : Axis) (t : PaneTree) : Prop := (span ax t).divider.isSome

instance (ax : Axis) (t : PaneTree) : Decidable (Divided ax t) :=
  inferInstanceAs (Decidable (_ = true))

theorem divided_node_iff {d : SplitDirectionAndSize} : Divided ax (.node l r (some d)) ↔
      d.direction.axis = ax ∨ Divided ax l ∨ Divided ax r := by
  unfold Divided
  by_cases h : d.direction.axis = ax
  · simp [span, h, Span.divider]
  · simp [span, h, Span.divider, Option.isSome_or]

theorem SplitDirectionAndSize.reconcile_congr {d d' : SplitDirectionAndSize}
    (hdir : d.direction = d'.direction)
    (hf : d.first.cells d.direction.axis = d'.first.cells d.direction.axis)
    (a : TerminalSize) : d.reconcile a = d'.reconcile a := by
  unfold SplitDirectionAndSize.reconcile
  cases hd : d.direction <;>
    simp only [hd, SplitDirection.axis, TerminalSize.cells_x, TerminalSize.cells_y] at hdir hf ⊢ <;>
    rw [← hdir, hf]

theorem reconcileTreeSizes_congr (hskel : skeleton t = skeleton t') :
    (∀ ax, Divided ax t → frame ax t = frame ax t') → HasData t →
    ∀ a, reconcileTreeSizes t a = reconcileTreeSizes t' a := by
  induction t generalizing t' with
  | empty => cases t' <;> simp_all [skeleton, BinTree.mapData, reconcileTreeSizes]
  | leaf x => cases t' <;> simp_all [skeleton, BinTree.mapData, reconcileTreeSizes]
  | node l r d ihl ihr =>
    intro hframe hdata a
    obtain ⟨hd, hdl, hdr⟩ := hdata
    obtain ⟨d, rfl⟩ := Option.isSome_iff_exists.mp hd
    have hown := hframe d.direction.axis (divided_node_iff.mpr (.inl rfl))
    obtain ⟨l', r', d', rfl, -, -, hd'⟩ := frame_node_inj hown
    rw [Option.map_some] at hd'
    obtain ⟨d', rfl, hparts⟩ := Option.map_eq_some_iff.mp hd'.symm
    simp only [Prod.mk.injEq] at hparts
    simp only [skeleton, BinTree.mapData, BinTree.node.injEq] at hskel
    have hrec := SplitDirectionAndSize.reconcile_congr hparts.1.symm hparts.2.1.symm a
    have hchildren : ∀ ax, Divided ax (.node l r (some d)) →
        frame ax l = frame ax l' ∧ frame ax r = frame ax r' := by
      intro ax hax
      have h := hframe ax hax
      simp only [frame, BinTree.mapData, BinTree.node.injEq] at h
      exact ⟨h.1, h.2.1⟩
    rw [reconcileTreeSizes, reconcileTreeSizes, hrec,
      ihl hskel.1 (fun ax hax => (hchildren ax (divided_node_iff.mpr (.inr (.inl hax)))).1) hdl,
      ihr hskel.2.1 (fun ax hax => (hchildren ax (divided_node_iff.mpr (.inr (.inr hax)))).2)
        hdr]

/-! ## The size a change is counted from -/

/-- On every axis that is divided, the two sizes agree. -/
def AgreeAlong (root : PaneTree) (a b : TerminalSize) : Prop :=
  ∀ ax, Divided ax root → a.cells ax = b.cells ax

theorem divided_congr (h : skeleton t = skeleton t') : Divided ax t ↔ Divided ax t' := by
  induction t generalizing t' with
  | empty => cases t' <;> simp_all [skeleton, BinTree.mapData, Divided, span]
  | leaf x => cases t' <;> simp_all [skeleton, BinTree.mapData, Divided, span]
  | node l r d ihl ihr =>
    cases t' with
    | empty => simp [skeleton, BinTree.mapData] at h
    | leaf x => simp [skeleton, BinTree.mapData] at h
    | node l' r' d' =>
      simp only [skeleton, BinTree.mapData, BinTree.node.injEq] at h
      obtain ⟨hl, hr, hd⟩ := h
      cases d with
      | none =>
        cases d' with
        | none => exact Iff.rfl
        | some d' => simp at hd
      | some d =>
        cases d' with
        | none => simp at hd
        | some d' =>
          simp only [Option.map_some, Option.some.injEq] at hd
          rw [divided_node_iff, divided_node_iff, hd, ihl hl, ihr hr]

theorem relaid_congr (hdata : HasData root) (h : AgreeAlong root old laid) (size : TerminalSize) :
    relaid root old size = relaid root laid size := by
  have hskel : ∀ i j, skeleton (adjustYSize (adjustXSize root i (cellOf size)) j
      (cellOf size)) = skeleton root := fun i j => by
    rw [adjustYSize, skeleton_adjustSize, adjustXSize, skeleton_adjustSize]
  refine reconcileTreeSizes_congr ((hskel _ _).trans (hskel _ _).symm) (fun ax hax => ?_)
    ((hasData_iff_of_skeleton (hskel _ _)).mpr hdata) _
  have hcells := h ax ((divided_congr (hskel _ _)).mp hax)
  cases ax with
  | x =>
    simp only [TerminalSize.cells_x] at hcells
    rw [adjustYSize, frame_adjustSize_of_ne (by decide), frame_adjustSize_of_ne (by decide),
      hcells]
  | y =>
    simp only [TerminalSize.cells_y] at hcells
    rw [hcells]
    refine frame_adjustSize_congr ?_ _ _
    rw [adjustXSize, frame_adjustSize_of_ne (by decide), frame_adjustSize_of_ne (by decide)]

/-! ## Where the dividers go -/

section Divider

variable {ax : Axis} {cell : TerminalSize} {adjust : PaneTree → Int → PaneTree}

theorem divider_adjustAlong (fuel : Nat) :
    ∀ (n : Nat) (l r : PaneTree) (d : SplitDirectionAndSize), n ≤ fuel →
    d.direction.axis = ax → d.first.cells ax + n < 2 ^ 63 →
    (span ax (adjustAlong adjust ax cell fuel l r d n)).divider =
      some (d.first.cells ax + (n + 1) / 2) := by
  induction fuel with
  | zero =>
    intro n l r d hn hd _
    obtain rfl : n = 0 := by omega
    simp [adjustAlong, span_node_along hd, Span.divider]
  | succ fuel ih =>
    intro n l r d hn hd hbound
    have hadd : n ≠ 0 → uadd (d.first.cells ax) 1 = d.first.cells ax + 1 := fun h =>
      uadd_of_lt (by omega)
    obtain _ | _ | n := n
    · simp [adjustAlong, span_node_along hd, Span.divider]
    · simp only [adjustAlong]
      rw [if_neg (by decide), if_pos (by decide), if_neg (by decide),
        show ((1 : Nat) : Int) - 1 = ((0 : Nat) : Int) by decide,
        ih 0 _ _ _ (by omega) (by exact hd) (by simp [hadd]; omega)]
      simp [hadd]
    · simp only [adjustAlong]
      rw [if_neg (by omega), if_pos (by omega), if_pos (by omega),
        show ((n + 2 : Nat) : Int) - 1 - 1 = (n : Int) by omega,
        ih n _ _ _ (by omega) (by exact hd) (by simp [hadd]; omega)]
      simp only [TerminalSize.cells_withCells, TerminalSize.cells_setDpi,
        hadd (Nat.succ_ne_zero _), Option.some.injEq]
      omega

/-- A subtree that is given `n` cells, enough for its least size, moves its
divider by half of them. -/
theorem divider_adjustSizeAux (h : Nat) :
    ∀ (t : PaneTree) (a n : Nat), t.height ≤ h → (span ax t).Fills a →
    (span ax t).least ≤ a + n → a + n < 2 ^ 63 → (span ax (adjustSizeAux ax cell h t n)).divider =
      (span ax t).divider.map (· + (n + 1) / 2) := by
  induction h with
  | zero =>
    intro t a n ht _ _ _
    cases t with
    | node l r d => simp [BinTree.height] at ht
    | empty => rfl
    | leaf p => rfl
  | succ h ih =>
    intro t a n ht hfills hleast hbound
    obtain _ | ⟨l, r, _ | d⟩ | p := t
    · rfl
    · rfl
    · simp only [BinTree.height] at ht
      simp only [adjustSizeAux]
      split_ifs with h0 hd
      · obtain rfl : n = 0 := by omega
        simp
      · rw [Int.natAbs_natCast]
        rw [span_node_along hd] at hfills ⊢
        obtain ⟨hsum, _⟩ := hfills
        rw [divider_adjustAlong n n l r d le_rfl hd (by omega)]
        rfl
      · have hmin : minCells ax (.node l r (some d)) =
            (span ax (.node l r (some d))).least := minCells_eq ax _ (by omega)
        rw [span_node_across hd] at hfills hleast hmin ⊢
        obtain ⟨rfl, hs, hl, hr⟩ := hfills
        rw [hs] at hr
        have hold : d.first.cells ax < 2 ^ 63 := by omega
        have hnew : max (isat (asIsize (d.first.cells ax) + n))
            (asIsize (minCells ax (.node l r (some d)))) =
            ((d.first.cells ax + n : Nat) : Int) := by
          rw [hmin, asIsize_of_lt hold, asIsize_of_lt (hleast.trans_lt hbound),
            isat_of_mem (by omega) (by omega)]
          omega
        rw [span_adjustAcross (by exact hd) (by simpa using hold) hbound
          (by simpa using hnew)]
        clear hnew hmin
        simp only [TerminalSize.cells_setDpi]
        rw [if_neg (by omega),
          show ((d.first.cells ax + n : Nat) : Int) - d.first.cells ax = n by omega]
        simp only [Span.least] at hleast
        simp only [Span.divider,
          ih l _ n (by omega) hl ((le_max_left _ _).trans hleast) hbound,
          ih r _ n (by omega) hr ((le_max_right _ _).trans hleast) hbound]
        cases (span ax l).divider <;> rfl
    · rfl

theorem divider_reconcileTreeSizes {t : PaneTree} :
    ∀ {a : TerminalSize}, (∀ f ∈ (span ax t).divider, f + 2 < 2 ^ 64) → a.cells ax < 2 ^ 64 →
    (span ax (reconcileTreeSizes t a)).divider =
      (span ax t).divider.map fun f => if f + 2 > a.cells ax then a.cells ax - 2 else f := by
  induction t with
  | empty => exact fun _ _ => rfl
  | leaf p => exact fun _ _ => rfl
  | node l r d ihl ihr =>
    intro a hrange ha
    cases d with
    | none => rfl
    | some d =>
      simp only [reconcileTreeSizes]
      by_cases hd : d.direction.axis = ax
      · rw [span_node_along hd] at hrange ⊢
        rw [span_node_along (by simpa using hd)]
        subst hd
        simp only [Span.divider, Option.map_some, Option.some.injEq]
        exact (d.reconcile_along a (hrange _ rfl) ha).1
      · rw [span_node_across hd] at hrange ⊢
        rw [span_node_across (by simpa using hd)]
        obtain rfl := (axis_eq_or ax d.direction.axis).resolve_left fun h => hd h.symm
        obtain ⟨hf, hs⟩ := d.reconcile_across a
        have hlf := hf ▸ ha
        have hls := hs ▸ ha
        simp only [Span.divider] at hrange ⊢
        cases hdiv : (span d.direction.axis.other l).divider with
        | none =>
          rw [hdiv, Option.none_or] at hrange
          rw [ihl (by simp [hdiv]) hlf, ihr hrange hls, hdiv, hs]
          rfl
        | some f =>
          rw [hdiv, Option.some_or] at hrange
          rw [ihl (by rw [hdiv]; exact hrange) hlf, hdiv, hf]
          rfl

end Divider

theorem divider_relaid {size : TerminalSize} (hfills : (span ax root).Fills (laid.cells ax))
    (hleast : (span ax root).least ≤ size.cells ax) (hold : old.cells ax ≤ size.cells ax)
    (henough : (span ax root).least ≤ laid.cells ax + (size.cells ax - old.cells ax))
    (hrange : laid.cells ax + size.cells ax < 2 ^ 63) : (span ax (relaid root old size)).divider =
      (span ax root).divider.map fun f =>
        if f + (size.cells ax - old.cells ax + 1) / 2 + 2 > size.cells ax then size.cells ax - 2
        else f + (size.cells ax - old.cells ax + 1) / 2 := by
  have hnew : (clampedSize root size).cells ax = size.cells ax := by
    rw [cells_clampedSize, minCells_eq ax root (by omega)]
    omega
  obtain ⟨t₁, t, ht₁, ht, hrel⟩ := relaid_along root old size ax
  rw [hnew, asIsize_of_lt (by omega), asIsize_of_lt (by omega),
    iwrap_of_mem (by omega) (by omega),
    show (size.cells ax : Int) - old.cells ax = ((size.cells ax - old.cells ax : Nat) : Int) by
      omega] at ht
  rw [← ht₁] at hfills henough
  have hgrown := @divider_adjustSizeAux _ (cellOf size) t₁.height t₁ _ _ le_rfl hfills
    henough (by omega)
  rw [adjustSize] at ht
  rw [← ht, ht₁] at hgrown
  rw [hrel, divider_reconcileTreeSizes ?_ (by omega), hgrown, Option.map_map, hnew]
  · rfl
  · intro f hf
    rw [hgrown, Option.mem_def, Option.map_eq_some_iff] at hf
    obtain ⟨f₀, hf₀, rfl⟩ := hf
    have := hfills.divider_lt (ht₁ ▸ hf₀)
    omega

/-- A size with much more room than both, on both axes. -/
def ampleSize (root : PaneTree) (a b : TerminalSize) : TerminalSize where
  rows := max a.rows b.rows + 2 * ((span .y root).least + 2)
  cols := max a.cols b.cols + 2 * ((span .x root).least + 2)
  pixelWidth := a.pixelWidth
  pixelHeight := a.pixelHeight
  dpi := a.dpi

theorem cells_ampleSize (root : PaneTree) (a b : TerminalSize) (ax : Axis) :
    (ampleSize root a b).cells ax =
      max (a.cells ax) (b.cells ax) + 2 * ((span ax root).least + 2) := by
  cases ax <;> rfl

theorem relaid_ampleSize_ne (hlaid : Consistent root laid)
    (hleast : ∀ ax, (span ax root).least < 2 ^ 60) (hrange : ∀ ax, laid.cells ax < 2 ^ 61)
    (hold : ∀ ax, old.cells ax < 2 ^ 61) (h : ¬ AgreeAlong root old laid) :
    relaid root old (ampleSize root laid old) ≠ relaid root laid (ampleSize root laid old) := by
  simp only [AgreeAlong, not_forall] at h
  obtain ⟨ax, hdivided, hne⟩ := h
  intro heq
  have hfills := (consistent_iff root laid).mp hlaid ax
  have hl := hleast ax
  have h1 := hrange ax
  have h2 := hold ax
  have hsize := cells_ampleSize root laid old ax
  have hdiv := congrArg (fun t => (span ax t).divider) heq
  rw [divider_relaid hfills (by omega) (by omega) (by omega) (by omega),
    divider_relaid hfills (by omega) (by omega) (by omega) (by omega)] at hdiv
  obtain ⟨f, hf⟩ := Option.isSome_iff_exists.mp hdivided
  have hlt := hfills.divider_lt hf
  rw [hf, Option.map_some, Option.map_some, Option.some.injEq] at hdiv
  generalize (ampleSize root laid old).cells ax = new at hsize hdiv
  split_ifs at hdiv <;> omega

/-- **The size a change is counted from** has to be the size the tree is laid
out for, on every axis that is divided. -/
theorem relaid_eq_iff (hdata : HasData root) (hlaid : Consistent root laid)
    (hleast : ∀ ax, (span ax root).least < 2 ^ 60) (hrange : ∀ ax, laid.cells ax < 2 ^ 61)
    (hold : ∀ ax, old.cells ax < 2 ^ 61) : (∀ size : TerminalSize, (∀ ax, 1 ≤ size.cells ax) →
      relaid root old size = relaid root laid size) ↔ AgreeAlong root old laid := by
  constructor
  · intro hall
    by_contra h
    refine relaid_ampleSize_ne hlaid hleast hrange hold h (hall _ fun ax => ?_)
    rw [cells_ampleSize]
    omega
  · exact fun h size _ => relaid_congr hdata h size

theorem least_span_lt (ax : Axis) (hfull : t.Full) : (span ax t).least < 2 * t.numLeaves := by
  induction t with
  | empty => exact hfull.elim
  | leaf x => exact (by decide : 1 < 2)
  | node l r d ihl ihr =>
    have hl := ihl hfull.1
    have hr := ihr hfull.2
    have hpl := hfull.1.numLeaves_pos
    cases d with
    | none => exact (by omega : 1 < 2 * (l.numLeaves + r.numLeaves))
    | some d =>
      simp only [span, BinTree.numLeaves]
      cases decide (d.direction.axis = ax) <;> simp only [Span.least] <;> omega

/-! ## Zooming in and out -/

namespace TabInner

def resizeAll (tab : TabInner) (sizes : List TerminalSize) : Option TabInner :=
  sizes.foldlM (fun tab size => tab.resize size) tab

theorem resizeAll_zoomed {z : Pane} (sizes : List TerminalSize) :
    ∀ {tab : TabInner}, tab.zoomed = some z → (∀ size ∈ sizes, ∀ ax, 1 ≤ size.cells ax) →
    tab.resizeAll sizes = some
      { tab with
        size := sizes.getLast?.getD tab.size
        calls := tab.calls ++ sizes.map (.resize z) } := by
  induction sizes with
  | nil =>
    intro tab _ _
    simp [resizeAll]
  | cons size sizes ih =>
    intro tab hz hsizes
    have hstep := resizeImpl_zoomed hz (hsizes size List.mem_cons_self) true
    have hrest := fun tab' hz' => @ih tab' hz' fun s hs => hsizes s (List.mem_cons_of_mem _ hs)
    simp only [resizeAll, resize, List.foldlM_cons, hstep, Option.bind_eq_bind,
      Option.bind_some] at hrest ⊢
    refine (hrest _ ?_).trans ?_
    · exact hz
    · simp [List.getLast?_cons]

theorem toggleZoom_unzoomed {tab : TabInner} {root : PaneTree} (hz : tab.zoomed = none)
    (hroot : tab.pane = some root) (hp : root.Proper) :
    tab.toggleZoom = some
      (match root.leaves[tab.active]? with
        | some x =>
          { tab with
            sizeBeforeZoom := tab.size
            zoomed := some x
            calls := tab.calls ++ [PaneCall.setZoomed x true, .resize x tab.size] }
        | none => { tab with sizeBeforeZoom := tab.size }) := by
  have hactive := @getActivePane_eq { tab with sizeBeforeZoom := tab.size } _ hz hroot hp
  rw [toggleZoom, hz]
  dsimp only
  rw [hz] at hactive
  rw [hactive]
  cases root.leaves[tab.active]? <;> rfl

theorem toggleZoom_zoomed {tab : TabInner} {root : PaneTree} {z : Pane}
    (hz : tab.zoomed = some z) (hroot : tab.pane = some root) (hp : root.Proper)
    (hsize : ∀ ax, 1 ≤ tab.size.cells ax) :
    ∃ calls, tab.toggleZoom = some
      { tab with
        zoomed := none
        pane := some (relaid root tab.sizeBeforeZoom tab.size)
        size := clampedSize root tab.size
        calls := calls } := by
  have hactive : { tab with zoomed := none }.getActivePane = _ := getActivePane_eq rfl hroot hp
  simp only [toggleZoom, hz, hactive, Option.bind_eq_bind, Option.bind_some]
  cases root.leaves[tab.active]? with
  | none =>
    obtain ⟨cs, hrun, -⟩ := @resizeImpl_unzoomed
      { tab with zoomed := none, size := tab.sizeBeforeZoom } _ rfl hroot hp _ hsize true
    exact ⟨_, hrun⟩
  | some x =>
    obtain ⟨cs, hrun, -⟩ := @resizeImpl_unzoomed
      { { tab with zoomed := none }.call [.setZoomed x false] with
        size := tab.sizeBeforeZoom } _ rfl hroot hp _ hsize true
    exact ⟨_, hrun⟩

end TabInner

end Wakterm.Mux
