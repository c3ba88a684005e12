import Mathlib.Algebra.Ring.Nat
import Wakterm.Mux.Logic.Geometry

/-!
# Split sizes inferred from the panes

`compute_size` gives every split the sizes its panes add up to: along its axis the sum with the
divider, across it what the first child has (`natural`).
-/

namespace Wakterm.Mux

open Wakterm.Machine Wakterm.Bintree Wakterm.Layout

/-- The cells the panes of a subtree add up to. -/
def natural (dims : Pane → TerminalSize) (ax : Axis) : PaneTree → Nat
  | .leaf x => (dims x).cells ax
  | .node l r (some d) =>
    if d.direction.axis = ax then natural dims ax l + 1 + natural dims ax r
    else natural dims ax l
  | .node _ _ none => 0
  | .empty => 0

/-- The span of a subtree whose splits have the sizes of their panes. -/
def naturalSpan (dims : Pane → TerminalSize) (ax : Axis) : PaneTree → Span
  | .node l r (some d) =>
    .split (d.direction.axis = ax) (natural dims ax l) (natural dims ax r)
      (naturalSpan dims ax l) (naturalSpan dims ax r)
  | .node _ _ none => .pane
  | .empty => .pane
  | .leaf _ => .pane

/-- All panes in a row, each with a divider. -/
def cellsSum (dims : Pane → TerminalSize) (ax : Axis) (t : PaneTree) : Nat :=
  (t.leaves.map fun x => (dims x).cells ax + 1).sum

theorem cellsSum_node (dims : Pane → TerminalSize) (ax : Axis) (l r : PaneTree)
    (d : Option SplitDirectionAndSize) :
    cellsSum dims ax (.node l r d) = cellsSum dims ax l + cellsSum dims ax r := by
  simp [cellsSum, BinTree.leaves]

variable {t : PaneTree} {dims : Pane → TerminalSize}

theorem natural_lt_cellsSum (dims : Pane → TerminalSize) (ax : Axis) (hfull : t.Full)
    (hdata : HasData t) : natural dims ax t < cellsSum dims ax t := by
  induction t with
  | empty => exact hfull.elim
  | leaf x => simp [natural, cellsSum, BinTree.leaves]
  | node l r d ihl ihr =>
    obtain ⟨hd, hdl, hdr⟩ := hdata
    obtain ⟨d, rfl⟩ := Option.isSome_iff_exists.mp hd
    have hl := ihl hfull.1 hdl
    have hr := ihr hfull.2 hdr
    rw [cellsSum_node, natural]
    split_ifs <;> omega

theorem below_naturalSpan (dims : Pane → TerminalSize) (ax : Axis) {b : Nat} (hfull : t.Full)
    (hdata : HasData t) (hb : cellsSum dims ax t ≤ b) : (naturalSpan dims ax t).Below b := by
  induction t with
  | empty => exact hfull.elim
  | leaf x => trivial
  | node l r d ihl ihr =>
    obtain ⟨hd, hdl, hdr⟩ := hdata
    obtain ⟨d, rfl⟩ := Option.isSome_iff_exists.mp hd
    have hl := natural_lt_cellsSum dims ax hfull.1 hdl
    have hr := natural_lt_cellsSum dims ax hfull.2 hdr
    rw [cellsSum_node] at hb
    exact ⟨by omega, by omega, ihl hfull.1 hdl (by omega), ihr hfull.2 hdr (by omega)⟩

theorem one_le_natural (hfull : t.Full) (hdata : HasData t)
    (hdims : ∀ x ∈ t.leaves, ∀ ax, 1 ≤ (dims x).cells ax) (ax : Axis) : 1 ≤ natural dims ax t := by
  induction t with
  | empty => exact hfull.elim
  | leaf x => exact hdims x (by simp [BinTree.leaves]) ax
  | node l r d ihl ihr =>
    obtain ⟨hd, hdl, hdr⟩ := hdata
    obtain ⟨d, rfl⟩ := Option.isSome_iff_exists.mp hd
    simp only [BinTree.leaves, List.mem_append] at hdims
    have hl := ihl hfull.1 hdl fun x hx => hdims x (.inl hx)
    rw [natural]
    split_ifs <;> omega

theorem SplitDirectionAndSize.size_eq {d : SplitDirectionAndSize}
    (hfirst : ∀ ax, 1 ≤ d.first.cells ax)
    (hrange : d.first.cells d.direction.axis + 1 + d.second.cells d.direction.axis < 2 ^ 64) :
    ∃ size, d.size = some size ∧ size.cells d.direction.axis =
        d.first.cells d.direction.axis + 1 + d.second.cells d.direction.axis ∧
      size.cells d.direction.axis.other = d.first.cells d.direction.axis.other := by
  have hx : 1 ≤ d.first.cols := hfirst .x
  have hy : 1 ≤ d.first.rows := hfirst .y
  refine ⟨_, if_neg (by omega), ?_⟩
  cases hd : d.direction <;>
    simp only [hd, SplitDirection.axis, Axis.other, TerminalSize.cells_x, TerminalSize.cells_y,
      SplitDirectionAndSize.width, SplitDirectionAndSize.height, if_true, reduceCtorEq,
      if_false, uadd, and_true] at hrange ⊢ <;>
    omega

/-- **`compute_size`** gives every split the sizes of its panes. -/
theorem computeSize_eq (hfull : t.Full) (hdata : HasData t)
    (hdims : ∀ x ∈ t.leaves, ∀ ax, 1 ≤ (dims x).cells ax)
    (hrange : ∀ ax, cellsSum dims ax t < 2 ^ 64) :
    ∃ t' size, TabInner.computeSize dims t = some (t', some size) ∧
      skeleton t' = skeleton t ∧ (∀ ax, size.cells ax = natural dims ax t) ∧
      ∀ ax, span ax t' = naturalSpan dims ax t := by
  induction t with
  | empty => exact hfull.elim
  | leaf x => exact ⟨.leaf x, dims x, rfl, rfl, fun _ => rfl, fun _ => rfl⟩
  | node l r d ihl ihr =>
    obtain ⟨hd, hdl, hdr⟩ := hdata
    obtain ⟨d, rfl⟩ := Option.isSome_iff_exists.mp hd
    simp only [BinTree.leaves, List.mem_append] at hdims
    simp only [cellsSum_node] at hrange
    have hdimsl := fun x hx => hdims x (.inl hx)
    obtain ⟨l', sl, hl, hskl, hsl, hspl⟩ :=
      ihl hfull.1 hdl hdimsl fun ax => by have := hrange ax; omega
    obtain ⟨r', sr, hr, hskr, hsr, hspr⟩ :=
      ihr hfull.2 hdr (fun x hx => hdims x (.inr hx)) fun ax => by have := hrange ax; omega
    -- the sizes of the children become those of the split
    let d' : SplitDirectionAndSize := { d with first := sl, second := sr }
    have hone : ∀ ax, 1 ≤ d'.first.cells ax := by
      intro ax
      rw [show d'.first.cells ax = sl.cells ax from rfl, hsl]
      exact one_le_natural hfull.1 hdl hdimsl ax
    have hsum : d'.first.cells d'.direction.axis + 1 + d'.second.cells d'.direction.axis <
        2 ^ 64 := by
      have h1 := natural_lt_cellsSum dims d.direction.axis hfull.1 hdl
      have h2 := natural_lt_cellsSum dims d.direction.axis hfull.2 hdr
      have h3 := hrange d.direction.axis
      rw [show d'.first.cells d'.direction.axis = sl.cells d.direction.axis from rfl,
        show d'.second.cells d'.direction.axis = sr.cells d.direction.axis from rfl, hsl, hsr]
      omega
    obtain ⟨size, hsize, halong, hacross⟩ := SplitDirectionAndSize.size_eq hone hsum
    refine ⟨.node l' r' (some d'), size, ?_, ?_, fun ax => ?_, fun ax => ?_⟩
    · simp only [TabInner.computeSize, hl, hr, Option.bind_eq_bind, Option.bind_some,
        Option.getD_some]
      rw [hsize]
      rfl
    · simp only [skeleton] at hskl hskr ⊢
      simp only [BinTree.mapData, hskl, hskr, Option.map_some, d']
    · rcases axis_eq_or ax d.direction.axis with rfl | rfl
      · rw [natural, if_pos rfl, ← hsl, ← hsr]
        exact halong
      · rw [natural, if_neg (Axis.other_ne _).symm, ← hsl]
        exact hacross
    · simp only [span, naturalSpan, hspl, hspr, ← hsl, ← hsr, d']

/-! ## The client's sizes -/

/-- Same shape, split directions and pane ids. -/
inductive SameShape : PaneTree → PaneTree → Prop
  | leaf {x y : Pane} : x.paneId = y.paneId → SameShape (.leaf x) (.leaf y)
  | node {l r l' r' : PaneTree} {d d' : SplitDirectionAndSize} :
      SameShape l l' → SameShape r r' → d.direction = d'.direction →
      SameShape (.node l r (some d)) (.node l' r' (some d'))

theorem computeSize_listed {client : PaneTree} (hshape : SameShape client t) :
    ∀ {a : TerminalSize}, Tiled client a → (∀ ax, a.cells ax < 2 ^ 64) →
    (∀ x ∈ t.leaves, ∀ size, (x.paneId, size) ∈ collectPaneSizes client a → dims x = size) →
    ∃ t' size, TabInner.computeSize dims t = some (t', some size) ∧
      SameGeometry client t' ∧ ∀ ax, size.cells ax = a.cells ax := by
  induction hshape with
  | @leaf x y hid =>
    intro a _ _ hdims
    refine ⟨.leaf y, dims y, rfl, .leaf x y, fun ax => ?_⟩
    rw [hdims y (by simp [BinTree.leaves]) a (by simp [collectPaneSizes, hid])]
  | @node l r l' r' d e _ _ hdir ihl ihr =>
    intro a ht ha hdims
    obtain ⟨hfits, hl, hr⟩ := ht
    obtain ⟨hsum, hfo, hso⟩ := (d.fits_iff a).mp hfits
    simp only [BinTree.leaves, List.mem_append, collectPaneSizes] at hdims
    obtain ⟨tl, sl, hcl, hgl, hsl⟩ := ihl hl (fun ax => (hfits.le ax).1.trans_lt (ha ax))
      fun x hx size hs => hdims x (.inl hx) size (.inl hs)
    obtain ⟨tr, sr, hcr, hgr, hsr⟩ := ihr hr (fun ax => (hfits.le ax).2.trans_lt (ha ax))
      fun x hx size hs => hdims x (.inr hx) size (.inr hs)
    let e' : SplitDirectionAndSize := { e with first := sl, second := sr }
    have hone : ∀ ax, 1 ≤ e'.first.cells ax := by
      intro ax
      rw [show e'.first.cells ax = sl.cells ax from rfl, hsl]
      exact hl.one_le ax
    have hax : e'.direction.axis = d.direction.axis := by rw [hdir]
    have hrange : e'.first.cells e'.direction.axis + 1 + e'.second.cells e'.direction.axis <
        2 ^ 64 := by
      rw [hax, show e'.first.cells d.direction.axis = sl.cells d.direction.axis from rfl,
        show e'.second.cells d.direction.axis = sr.cells d.direction.axis from rfl, hsl, hsr,
        hsum]
      exact ha _
    obtain ⟨size, hsize, halong, hacross⟩ := SplitDirectionAndSize.size_eq hone hrange
    rw [hax] at halong hacross
    refine ⟨.node tl tr (some e'), size, ?_, ?_, fun ax => ?_⟩
    · simp only [TabInner.computeSize, hcl, hcr, Option.bind_eq_bind, Option.bind_some,
        Option.getD_some]
      rw [hsize]
      rfl
    · exact .node hgl hgr hdir (fun ax => (hsl ax).symm) (fun ax => (hsr ax).symm)
    · rcases axis_eq_or ax d.direction.axis with rfl | rfl
      · rw [halong, ← hsum, ← hsl, ← hsr]
      · rw [hacross, ← hfo, ← hsl]

end Wakterm.Mux
