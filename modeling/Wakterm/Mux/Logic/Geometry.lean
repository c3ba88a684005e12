import Wakterm.Mux.Logic.Relayout
import Wakterm.Mux.Logic.SplitSizes

/-!
# Where the panes are

`iter_panes_impl` sums offsets from a leaf up to the root, `pane_tree` from the root down to the
leaves.
-/

namespace Wakterm.Mux

open Wakterm.Machine Wakterm.Bintree

/-- Same shape, directions, rows and columns; the panes may differ. -/
inductive SameGeometry : PaneTree → PaneTree → Prop
  | empty : SameGeometry .empty .empty
  | leaf (x y : Pane) : SameGeometry (.leaf x) (.leaf y)
  | node {l r l' r' : PaneTree} {d d' : SplitDirectionAndSize} :
      SameGeometry l l' → SameGeometry r r' → d.direction = d'.direction →
      (∀ ax, d.first.cells ax = d'.first.cells ax) →
      (∀ ax, d.second.cells ax = d'.second.cells ax) →
      SameGeometry (.node l r (some d)) (.node l' r' (some d'))

/-- Where a pane is. -/
structure Place where
  index : Nat
  left : Nat
  top : Nat
  width : Nat
  height : Nat
  deriving DecidableEq

def PositionedPane.place (p : PositionedPane) : Place :=
  ⟨p.index, p.left, p.top, p.width, p.height⟩

/-- The places of the panes of a subtree, from its own place. -/
def places : PaneTree → Nat → Nat → TerminalSize → Nat → List Place
  | .leaf _, left, top, size, i => [⟨i, left, top, size.cols, size.rows⟩]
  | .node l r (some d), left, top, _, i =>
    places l left top d.first i ++
      places r (uadd left d.leftOfSecond) (uadd top d.topOfSecond) d.second
        (i + l.numLeaves)
  | .node _ _ none, _, _, _, _ => []
  | .empty, _, _, _, _ => []

variable {t' t : PaneTree}

theorem SameGeometry.numLeaves (h : SameGeometry t t') : t.numLeaves = t'.numLeaves := by
  induction h with
  | empty => rfl
  | leaf x y => rfl
  | node _ _ _ _ _ ihl ihr => simp only [BinTree.numLeaves, ihl, ihr]

theorem length_places (t : PaneTree) (ht : HasData t) :
    ∀ (left top : Nat) (a : TerminalSize) (i : Nat),
    (places t left top a i).length = t.numLeaves := by
  induction t with
  | empty => exact fun _ _ _ _ => rfl
  | leaf x => exact fun _ _ _ _ => rfl
  | node l r d ihl ihr =>
    intro left top a i
    obtain ⟨hd, hl, hr⟩ := ht
    obtain ⟨d, rfl⟩ := Option.isSome_iff_exists.mp hd
    simp only [places, List.length_append, ihl hl, ihr hr, BinTree.numLeaves]

theorem SameGeometry.trans {t'' : PaneTree} (h : SameGeometry t t') (h' : SameGeometry t' t'') :
    SameGeometry t t'' := by
  induction h generalizing t'' with
  | empty => exact h'
  | leaf x y =>
    cases h' with
    | leaf _ z => exact .leaf x z
  | node _ _ hd hf hs ihl ihr =>
    cases h' with
    | node hl hr hd' hf' hs' =>
      exact .node (ihl hl) (ihr hr) (hd.trans hd') (fun ax => (hf ax).trans (hf' ax))
        (fun ax => (hs ax).trans (hs' ax))

theorem places_congr (h : SameGeometry t t') :
    ∀ (left top : Nat) {a a' : TerminalSize} (i : Nat), (∀ ax, a.cells ax = a'.cells ax) →
    places t left top a i = places t' left top a' i := by
  induction h with
  | empty => exact fun _ _ _ _ _ _ => rfl
  | leaf x y =>
    intro left top a a' i ha
    have hx : a.cols = a'.cols := ha .x
    have hy : a.rows = a'.rows := ha .y
    simp only [places, hx, hy]
  | @node l r l' r' d d' hl hr hd hf hs ihl ihr =>
    intro left top a a' i _
    have hx : d.first.cols = d'.first.cols := hf .x
    have hy : d.first.rows = d'.first.rows := hf .y
    have hleft : d.leftOfSecond = d'.leftOfSecond := by
      simp only [SplitDirectionAndSize.leftOfSecond, hd, hx]
    have htop : d.topOfSecond = d'.topOfSecond := by
      simp only [SplitDirectionAndSize.topOfSecond, hd, hy]
    simp only [places, hleft, htop, hl.numLeaves, ihl _ _ _ hf, ihr _ _ _ hs]

theorem SameGeometry.tiled (h : SameGeometry t t') : ∀ a, Tiled t a → Tiled t' a := by
  induction h with
  | empty => exact fun _ h => h
  | leaf x y => exact fun _ h => h
  | @node l r l' r' d d' _ _ hd hf hs ihl ihr =>
    rintro a ⟨hfits, hl, hr⟩
    refine ⟨?_, (ihl _ hl).of_cells hf, (ihr _ hr).of_cells hs⟩
    rw [SplitDirectionAndSize.fits_iff] at hfits ⊢
    simpa only [← hd, ← hf, ← hs] using hfits

/-- The offsets of the second children along a path, added up. -/
def offsetSum (offset : SplitDirectionAndSize → Nat) :
    Path Pane SplitDirectionAndSize → Nat
  | .right _ (some d) up => offset d + offsetSum offset up
  | .right _ none up => offsetSum offset up
  | .left _ _ up => offsetSum offset up
  | .top => 0

theorem foldl_offsetStep (p : Path Pane SplitDirectionAndSize) :
    ∀ (left top : Nat) (size : Option TerminalSize), left < 2 ^ 64 → top < 2 ^ 64 →
    (p.toRoot.foldl TabInner.offsetStep (left, top, size)).1 =
        (left + offsetSum (·.leftOfSecond) p) % 2 ^ 64 ∧
      (p.toRoot.foldl TabInner.offsetStep (left, top, size)).2.1 =
        (top + offsetSum (·.topOfSecond) p) % 2 ^ 64 := by
  induction p with
  | top =>
    intro left top size hl ht
    exact ⟨(Nat.mod_eq_of_lt hl).symm, (Nat.mod_eq_of_lt ht).symm⟩
  | left r d up ih =>
    intro left top size hl ht
    cases d with
    | none => exact ih left top size hl ht
    | some d => exact ih left top _ hl ht
  | right l d up ih =>
    intro left top size hl ht
    cases d with
    | none => exact ih left top size hl ht
    | some d =>
      have hlt : ∀ a b, uadd a b < 2 ^ 64 := fun a b => Nat.mod_lt _ (by decide)
      obtain ⟨h1, h2⟩ := ih (uadd left d.leftOfSecond) (uadd top d.topOfSecond)
        _ (hlt _ _) (hlt _ _)
      refine ⟨h1.trans ?_, h2.trans ?_⟩
      · simp only [uadd, offsetSum]
        omega
      · simp only [uadd, offsetSum]
        omega

/-- **Summed up from the leaf or down from the root, the places are the same.** -/
theorem place_positioned (tab : TabInner) (t : PaneTree) :
    ∀ (p : Path Pane SplitDirectionAndSize) (i : Nat), Tiled t (holeSize tab.size p) →
    TiledAround tab.size p → (tab.positioned t p i).map (·.place) =
      places t (offsetSum (·.leftOfSecond) p % 2 ^ 64) (offsetSum (·.topOfSecond) p % 2 ^ 64)
        (holeSize tab.size p) i := by
  induction t with
  | empty => exact fun _ _ ht => ht.elim
  | leaf x =>
    intro p i _ hp
    obtain ⟨h1, h2⟩ := foldl_offsetStep p 0 0 none (by decide) (by decide)
    rw [Nat.zero_add] at h1 h2
    have hsize := parentSize_pathOffsets hp
    simp only [TabInner.pathOffsets] at hsize
    simp only [TabInner.positioned, TabInner.positionedPane, TabInner.pathOffsets,
      List.map_cons, List.map_nil, PositionedPane.place, places, h1, h2, hsize]
  | node l r d ihl ihr =>
    intro p i ht hp
    obtain ⟨d, rfl⟩ := ht.data
    obtain ⟨hfits, hl, hr⟩ := ht
    have h1 := ihl (.left r (some d) p) i hl ⟨hfits, hr, hp⟩
    have h2 := ihr (.right l (some d) p) (i + l.numLeaves) hr ⟨hfits, hl, hp⟩
    have hsum : ∀ s o, (o + s) % 2 ^ 64 = uadd (s % 2 ^ 64) o := by
      intro s o
      simp only [uadd]
      omega
    simp only [offsetSum, hsum, holeSize_left, holeSize_right] at h1 h2
    simp only [TabInner.positioned, List.map_append, h1, h2, places]

theorem sameGeometry_reconcile : ∀ {a : TerminalSize}, Tiled t a → (∀ ax, a.cells ax < 2 ^ 64) →
    SameGeometry t (reconcileTreeSizes t a) := by
  induction t with
  | empty => exact fun ht => ht.elim
  | leaf x => exact fun _ _ => .leaf x x
  | node l r d ihl ihr =>
    intro a ht ha
    obtain ⟨d, rfl⟩ := ht.data
    obtain ⟨hfits, hl, hr⟩ := ht
    obtain ⟨hsum, hfo, hso⟩ := (d.fits_iff a).mp hfits
    have hs1 := hr.one_le d.direction.axis
    have hax := ha d.direction.axis
    have halong := d.reconcile_along a (by omega) hax
    rw [if_neg (by omega)] at halong
    have hacross := d.reconcile_across a
    have hfirst : ∀ ax, d.first.cells ax = (d.reconcile a).first.cells ax := by
      intro ax
      rcases axis_eq_or ax d.direction.axis with rfl | rfl
      · exact halong.1.symm
      · rw [hacross.1, hfo]
    have hsecond : ∀ ax, d.second.cells ax = (d.reconcile a).second.cells ax := by
      intro ax
      rcases axis_eq_or ax d.direction.axis with rfl | rfl
      · rw [halong.2]
        omega
      · rw [hacross.2, hso]
    refine .node (ihl (hl.of_cells hfirst) fun ax => ?_)
      (ihr (hr.of_cells hsecond) fun ax => ?_) (by simp) hfirst hsecond
    · rw [← hfirst]
      exact (hfits.le ax).1.trans_lt (ha ax)
    · rw [← hsecond]
      exact (hfits.le ax).2.trans_lt (ha ax)

theorem Tiled.relaid_same {a : TerminalSize} (h : Tiled t a) (ha : ∀ ax, a.cells ax < 2 ^ 64) :
    SameGeometry t (relaid t a a) ∧ ∀ ax, (clampedSize t a).cells ax = a.cells ax := by
  have hclamped : ∀ ax, (clampedSize t a).cells ax = a.cells ax := by
    intro ax
    have hle := (h.roomy ax).least_le
    have := ha ax
    rw [cells_clampedSize, minCells_eq ax t (by omega)]
    omega
  refine ⟨?_, hclamped⟩
  have hx : (clampedSize t a).cols = a.cols := hclamped .x
  have hy : (clampedSize t a).rows = a.rows := hclamped .y
  have hzero : ∀ ax u, adjustSize ax u (iwrap 0) (cellOf a) = u := fun ax u =>
    adjustSize_zero ax u (cellOf a)
  simp only [relaid, hx, hy, sub_self, adjustXSize, adjustYSize, hzero]
  exact sameGeometry_reconcile (h.of_cells fun ax => (hclamped ax).symm) fun ax => by
    rw [hclamped]
    exact ha ax

end Wakterm.Mux
