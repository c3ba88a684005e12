import Wakterm.Mux.Logic.Geometry
import Wakterm.Mux.TabSplits
import Wakterm.Rangeset.Logic.Algebra

/-!
# Neighbours in a tiling

Seen from a pane in a direction, the panes that may be adjacent are those of one subtree, the
sibling of the nearest ancestor that is split that way (`facing`).
-/

namespace Wakterm.Mux

open Wakterm.Machine Wakterm.Bintree

/-- The first column or row of a pane. -/
def Place.start (q : Place) : Axis → Nat
  | .x => q.left
  | .y => q.top

/-- The columns or rows of a pane. -/
def Place.cells (q : Place) : Axis → Nat
  | .x => q.width
  | .y => q.height

/-- The pane has a cell in the row or column. -/
def Place.covers (q : Place) (ax : Axis) (y : Nat) : Prop :=
  q.start ax ≤ y ∧ y < q.start ax + q.cells ax

/-- Where the second child starts. -/
def SplitDirectionAndSize.shift (d : SplitDirectionAndSize) (o : Axis → Nat) : Axis → Nat :=
  fun ax => o ax + if d.direction.axis = ax then d.first.cells ax + 1 else 0

/-- `places`, by axes. -/
def placesAt (t : PaneTree) (o : Axis → Nat) (a : TerminalSize) (i : Nat) : List Place :=
  places t (o .x) (o .y) a i

/-- A divider of the tree meets its edge here, counted from where the tree starts: the edge at the
lower end of the axis, or at the upper. -/
@[grind =] def dividerAt (ax : Axis) (lower : Bool) : PaneTree → Nat → Bool
  | .node l r (some d), k =>
    if d.direction.axis = ax then
      if lower then dividerAt ax lower l k else dividerAt ax lower r k
    else if k < d.first.cells ax.other then dividerAt ax lower l k
    else if k = d.first.cells ax.other then true
    else dividerAt ax lower r (k - (d.first.cells ax.other + 1))
  | .node _ _ none, _ => false
  | .empty, _ => false
  | .leaf _, _ => false

/-- The subtree on the other side of the nearest split of the axis, and how far from where that
subtree starts, across the axis, the position is. -/
def facing (ax : Axis) (forward : Bool) : Path Pane SplitDirectionAndSize → Nat →
    Option (PaneTree × Nat)
  | .top, _ => none
  | .left r (some d) up, k =>
    if forward = true ∧ d.direction.axis = ax then some (r, k) else facing ax forward up k
  | .right l (some d) up, k =>
    if d.direction.axis = ax then
      if forward then facing ax forward up k else some (l, k)
    else facing ax forward up (k + (d.first.cells ax.other + 1))
  | .left _ none _, _ => none
  | .right _ none _, _ => none

/-! ## Places in a subtree -/

section Places

variable {t l r : PaneTree} {d : SplitDirectionAndSize} {o : Axis → Nat} {a : TerminalSize}
  {i : Nat} {q : Place}

theorem Axis.other_other (ax : Axis) : ax.other.other = ax := by
  cases ax with
  | x => rfl
  | y => rfl

theorem shift_of_eq {ax : Axis} (h : d.direction.axis = ax) (o : Axis → Nat) :
    d.shift o ax = o ax + (d.first.cells ax + 1) :=
  congrArg (o ax + ·) (if_pos h)

variable {ax : Axis}

theorem shift_of_ne (h : d.direction.axis ≠ ax) (o : Axis → Nat) : d.shift o ax = o ax :=
  congrArg (o ax + ·) (if_neg h)

theorem shift_add_le (h : d.Fits a) (o : Axis → Nat) (ax : Axis) :
    d.shift o ax + d.second.cells ax ≤ o ax + a.cells ax := by
  obtain ⟨hsum, -, hso⟩ := (d.fits_iff a).mp h
  rcases axis_eq_or ax d.direction.axis with rfl | rfl
  · rw [shift_of_eq rfl]
    omega
  · rw [shift_of_ne (Axis.other_ne _).symm]
    omega

theorem placesAt_node (h : d.Fits a) (ha : ∀ ax, o ax + a.cells ax < 2 ^ 64) :
    placesAt (.node l r (some d)) o a i =
      placesAt l o d.first i ++ placesAt r (d.shift o) d.second (i + l.numLeaves) := by
  have hx := (shift_add_le h o .x).trans_lt (ha .x)
  have hy := (shift_add_le h o .y).trans_lt (ha .y)
  have hleft : uadd (o .x) d.leftOfSecond = d.shift o .x := by
    cases hd : d.direction <;>
      simp [SplitDirectionAndSize.shift, SplitDirectionAndSize.leftOfSecond, SplitDirection.axis,
        hd, uadd] at hx ⊢ <;> omega
  have htop : uadd (o .y) d.topOfSecond = d.shift o .y := by
    cases hd : d.direction <;>
      simp [SplitDirectionAndSize.shift, SplitDirectionAndSize.topOfSecond, SplitDirection.axis,
        hd, uadd] at hy ⊢ <;> omega
  simp only [placesAt, places, hleft, htop]

theorem Tiled.inside (h : Tiled t a) (ha : ∀ ax, o ax + a.cells ax < 2 ^ 64)
    (hq : q ∈ placesAt t o a i) (ax : Axis) :
    o ax ≤ q.start ax ∧ q.start ax + q.cells ax ≤ o ax + a.cells ax ∧ 1 ≤ q.cells ax := by
  induction t generalizing o a i with
  | empty => exact h.elim
  | leaf x =>
    obtain rfl := List.mem_singleton.mp hq
    have hone := h ax
    cases ax with
    | x => exact ⟨Nat.le_refl _, Nat.le_refl _, hone⟩
    | y => exact ⟨Nat.le_refl _, Nat.le_refl _, hone⟩
  | node l r d ihl ihr =>
    obtain ⟨d, rfl⟩ := h.data
    obtain ⟨hfits, hl, hr⟩ := h
    have hfirst := fun ax => (hfits.le ax).1
    have hsecond := shift_add_le hfits o
    rw [placesAt_node hfits ha, List.mem_append] at hq
    rcases hq with hq | hq
    · obtain ⟨h₁, h₂, h₃⟩ := ihl hl
        (fun ax => (Nat.add_le_add_left (hfirst ax) _).trans_lt (ha ax)) hq
      have := hfirst ax
      exact ⟨h₁, by omega, h₃⟩
    · obtain ⟨h₁, h₂, h₃⟩ := ihr hr (fun ax => (hsecond ax).trans_lt (ha ax)) hq
      have := hsecond ax
      exact ⟨(Nat.le_add_right _ _).trans h₁, by omega, h₃⟩

theorem index_placesAt (h : Tiled t a) (ha : ∀ ax, o ax + a.cells ax < 2 ^ 64)
    (hq : q ∈ placesAt t o a i) : i ≤ q.index ∧ q.index < i + t.numLeaves := by
  induction t generalizing o a i with
  | empty => exact h.elim
  | leaf x =>
    obtain rfl := List.mem_singleton.mp hq
    exact ⟨Nat.le_refl _, Nat.lt_succ_self _⟩
  | node l r d ihl ihr =>
    obtain ⟨d, rfl⟩ := h.data
    obtain ⟨hfits, hl, hr⟩ := h
    rw [placesAt_node hfits ha, List.mem_append] at hq
    simp only [BinTree.numLeaves]
    rcases hq with hq | hq
    · have hrange := ihl hl (fun ax => (Nat.add_le_add_left (hfits.le ax).1 _).trans_lt (ha ax))
        hq
      omega
    · have hrange := ihr hr (fun ax => (shift_add_le hfits o ax).trans_lt (ha ax)) hq
      omega

/-- The pane is at the edge of a place: the edge at the lower end of the axis, or at the upper. -/
def AtEdge (ax : Axis) (lower : Bool) (o : Axis → Nat) (a : TerminalSize) (q : Place) : Prop :=
  if lower then q.start ax = o ax else q.start ax + q.cells ax = o ax + a.cells ax

/-- **Along an edge there is a pane everywhere**, but for the dividers that meet it. -/
theorem covers_iff {lower : Bool} (h : Tiled t a) (ha : ∀ ax, o ax + a.cells ax < 2 ^ 64) {k : Nat}
    (hk : k < a.cells ax.other) : dividerAt ax lower t k = false ↔
      ∃ q ∈ placesAt t o a i, AtEdge ax lower o a q ∧ q.covers ax.other (o ax.other + k) := by
  induction t generalizing o a i k with
  | empty => exact h.elim
  | leaf x =>
    refine iff_of_true rfl ⟨_, List.mem_singleton_self _, ?_, ?_⟩
    · cases lower <;> cases ax <;> rfl
    · cases ax with
      | x => exact ⟨Nat.le_add_right _ _, Nat.add_lt_add_left hk _⟩
      | y => exact ⟨Nat.le_add_right _ _, Nat.add_lt_add_left hk _⟩
  | node l r d ihl ihr =>
    obtain ⟨d, rfl⟩ := h.data
    obtain ⟨hfits, hl, hr⟩ := h
    obtain ⟨hsum, hfo, hso⟩ := (d.fits_iff a).mp hfits
    have hal : ∀ ax, o ax + d.first.cells ax < 2 ^ 64 := fun ax =>
      (Nat.add_le_add_left (hfits.le ax).1 _).trans_lt (ha ax)
    have har : ∀ ax, d.shift o ax + d.second.cells ax < 2 ^ 64 := fun ax =>
      (shift_add_le hfits o ax).trans_lt (ha ax)
    rw [placesAt_node hfits ha]
    by_cases hax : d.direction.axis = ax
    · subst hax
      have hshift : d.shift o d.direction.axis =
          o d.direction.axis + (d.first.cells d.direction.axis + 1) := shift_of_eq rfl o
      have hother : d.shift o d.direction.axis.other = o d.direction.axis.other :=
        shift_of_ne (Axis.other_ne _).symm o
      cases lower with
      | true =>
        have hone := hl.one_le d.direction.axis
        rw [dividerAt, if_pos rfl, if_pos rfl, ihl hl hal (by omega)]
        constructor
        · rintro ⟨q, hq, hedge, hcovers⟩
          exact ⟨q, List.mem_append_left _ hq, hedge, hcovers⟩
        · rintro ⟨q, hq, hedge, hcovers⟩
          rcases List.mem_append.mp hq with hq | hq
          · exact ⟨q, hq, hedge, hcovers⟩
          · -- the second child does not come to this edge
            have hinside := (hr.inside har hq d.direction.axis).1
            have hstart : q.start d.direction.axis = o d.direction.axis := hedge
            omega
      | false =>
        have hone := hr.one_le d.direction.axis
        rw [dividerAt, if_pos rfl, if_neg (by simp), ihr hr har (by omega)]
        have hend : d.shift o d.direction.axis + d.second.cells d.direction.axis =
            o d.direction.axis + a.cells d.direction.axis := by omega
        constructor
        · rintro ⟨q, hq, hedge, hcovers⟩
          refine ⟨q, List.mem_append_right _ hq, ?_, hother ▸ hcovers⟩
          exact Eq.trans hedge hend
        · rintro ⟨q, hq, hedge, hcovers⟩
          have hstop : q.start d.direction.axis + q.cells d.direction.axis =
            o d.direction.axis + a.cells d.direction.axis := hedge
          rcases List.mem_append.mp hq with hq | hq
          · have hinside := (hl.inside hal hq d.direction.axis).2.1
            omega
          · exact ⟨q, hq, Eq.trans hstop hend.symm, hother.symm ▸ hcovers⟩
    · have haxis : d.direction.axis = ax.other := by
        rcases axis_eq_or ax d.direction.axis with heq | heq
        · exact absurd heq.symm hax
        · rw [heq, Axis.other_other]
      have hshift : d.shift o ax.other = o ax.other + (d.first.cells ax.other + 1) :=
        shift_of_eq haxis o
      have hsame : d.shift o ax = o ax := shift_of_ne hax o
      rw [haxis] at hsum
      rw [haxis, Axis.other_other] at hfo hso
      -- an edge of a child is one of the node
      have hedge : ∀ (q : Place) (o' : Axis → Nat) (b : TerminalSize), o' ax = o ax →
          b.cells ax = a.cells ax → (AtEdge ax lower o' b q ↔ AtEdge ax lower o a q) := by
        intro q o' b ho hb
        unfold AtEdge
        rw [ho, hb]
      rw [dividerAt, if_neg hax]
      by_cases hlt : k < d.first.cells ax.other
      · rw [if_pos hlt, ihl hl hal hlt]
        constructor
        · rintro ⟨q, hq, hq₁, hq₂⟩
          exact ⟨q, List.mem_append_left _ hq, (hedge q o d.first rfl hfo).mp hq₁, hq₂⟩
        · rintro ⟨q, hq, hq₁, hq₂⟩
          rcases List.mem_append.mp hq with hq | hq
          · exact ⟨q, hq, (hedge q o d.first rfl hfo).mpr hq₁, hq₂⟩
          · have hinside := (hr.inside har hq ax.other).1
            have hstart := hq₂.1
            omega
      · rw [if_neg hlt]
        by_cases heq : k = d.first.cells ax.other
        · rw [if_pos heq]
          refine iff_of_false (by simp) ?_
          rintro ⟨q, hq, -, hq₁, hq₂⟩
          rcases List.mem_append.mp hq with hq | hq
          · have hinside := (hl.inside hal hq ax.other).2.1
            omega
          · have hinside := (hr.inside har hq ax.other).1
            omega
        · have hcell : d.shift o ax.other + (k - (d.first.cells ax.other + 1)) =
              o ax.other + k := by omega
          rw [if_neg heq, ihr hr har (by omega), hcell]
          constructor
          · rintro ⟨q, hq, hq₁, hq₂⟩
            exact ⟨q, List.mem_append_right _ hq, (hedge q _ _ hsame hso).mp hq₁, hq₂⟩
          · rintro ⟨q, hq, hq₁, hq₂⟩
            rcases List.mem_append.mp hq with hq | hq
            · have hinside := (hl.inside hal hq ax.other).2.1
              have hstop := hq₂.2
              omega
            · exact ⟨q, hq, (hedge q _ _ hsame hso).mpr hq₁, hq₂⟩

theorem dividerAt_inner {lower : Bool} (h : Tiled t a) {k : Nat}
    (hk : dividerAt ax lower t k = true) (hlt : k < a.cells ax.other) :
    1 ≤ k ∧ k + 1 < a.cells ax.other := by
  induction t generalizing a k with
  | empty => exact h.elim
  | leaf x => exact absurd hk (by simp [dividerAt])
  | node l r d ihl ihr =>
    obtain ⟨d, rfl⟩ := h.data
    obtain ⟨hfits, hl, hr⟩ := h
    obtain ⟨hsum, hfo, hso⟩ := (d.fits_iff a).mp hfits
    rw [dividerAt] at hk
    by_cases hax : d.direction.axis = ax
    · subst hax
      rw [if_pos rfl] at hk
      split at hk
      · have hrange := ihl hl hk (by omega)
        omega
      · have hrange := ihr hr hk (by omega)
        omega
    · have haxis : d.direction.axis = ax.other := by
        rcases axis_eq_or ax d.direction.axis with heq | heq
        · exact absurd heq.symm hax
        · rw [heq, Axis.other_other]
      rw [haxis] at hsum
      have hl₁ := hl.one_le ax.other
      have hr₁ := hr.one_le ax.other
      rw [if_neg hax] at hk
      split at hk
      · next hfirst =>
        have hrange := ihl hl hk hfirst
        omega
      · split at hk
        · omega
        · have hrange := ihr hr hk (by omega)
          omega

theorem dividerAt_succ {lower : Bool} (h : Tiled t a) {k : Nat} (hk : dividerAt ax lower t k = true)
    (hlt : k + 1 < a.cells ax.other) : dividerAt ax lower t (k + 1) = false := by
  induction t generalizing a k with
  | empty => exact h.elim
  | leaf x => rfl
  | node l r d ihl ihr =>
    obtain ⟨d, rfl⟩ := h.data
    obtain ⟨hfits, hl, hr⟩ := h
    obtain ⟨hsum, hfo, hso⟩ := (d.fits_iff a).mp hfits
    rw [dividerAt] at hk ⊢
    by_cases hax : d.direction.axis = ax
    · subst hax
      rw [if_pos rfl] at hk ⊢
      split at hk
      · next hlower =>
        rw [if_pos hlower]
        exact ihl hl hk (by omega)
      · next hlower =>
        rw [if_neg hlower]
        exact ihr hr hk (by omega)
    · have haxis : d.direction.axis = ax.other := by
        rcases axis_eq_or ax d.direction.axis with heq | heq
        · exact absurd heq.symm hax
        · rw [heq, Axis.other_other]
      rw [haxis] at hsum
      rw [if_neg hax] at hk ⊢
      split at hk
      · next hfirst =>
        -- a divider of the first child is not at its end
        have hrange := dividerAt_inner hl hk hfirst
        rw [if_pos hrange.2]
        exact ihl hl hk hrange.2
      · split at hk
        · next heq =>
          rw [if_neg (by omega), if_neg (by omega)]
          by_contra hnext
          have hinner := dividerAt_inner hr (Bool.of_not_eq_false hnext) (by omega)
          omega
        · rw [if_neg (by omega), if_neg (by omega)]
          have hnext := ihr hr hk (by omega)
          rw [show k + 1 - (d.first.cells ax.other + 1) =
            k - (d.first.cells ax.other + 1) + 1 by omega]
          exact hnext

end Places

/-! ## Places around a position -/

/-- Where the subtree at the end of a path starts. -/
@[grind =] def origin : Path Pane SplitDirectionAndSize → Axis → Nat
  | .top => fun _ => 0
  | .left _ _ up => origin up
  | .right _ (some d) up => d.shift (origin up)
  | .right _ none up => origin up

/-- The places of the panes around a subtree with `n` leaves. -/
@[grind =] def placesAround : Path Pane SplitDirectionAndSize → Nat → List Place
  | .top, _ => []
  | .left r (some d) up, n =>
    placesAt r (d.shift (origin up)) d.second (up.leavesBefore.length + n) ++
      placesAround up (n + r.numLeaves)
  | .right l (some d) up, n =>
    placesAt l (origin up) d.first up.leavesBefore.length ++ placesAround up (l.numLeaves + n)
  | .left _ none _, _ => []
  | .right _ none _, _ => []

/-- The pane is beyond the divider at an edge of a place: the edge at the upper end of the axis, or
at the lower. -/
def Beyond (ax : Axis) (forward : Bool) (o : Axis → Nat) (a : TerminalSize) (q : Place) : Prop :=
  if forward then q.start ax = o ax + a.cells ax + 1 else q.start ax + q.cells ax + 1 = o ax

/-- The pane has one of `n` rows or columns. -/
def Place.meets (q : Place) (ax : Axis) (start n : Nat) : Prop :=
  ∃ y, start ≤ y ∧ y < start + n ∧ q.covers ax y

section Around

variable {rootSize : TerminalSize} {p : Path Pane SplitDirectionAndSize} {n : Nat} {q : Place}

theorem origin_add_le (hp : TiledAround rootSize p) (ax : Axis) :
    origin p ax + (holeSize rootSize p).cells ax ≤ rootSize.cells ax := by
  induction p with
  | top => exact Nat.le_of_eq (Nat.zero_add _)
  | left r d up ih =>
    obtain ⟨d, rfl⟩ := hp.data_left
    exact (Nat.add_le_add_left (hp.1.le ax).1 _).trans (ih hp.2.2)
  | right l d up ih =>
    obtain ⟨d, rfl⟩ := hp.data_right
    exact (shift_add_le hp.1 (origin up) ax).trans (ih hp.2.2)

variable (hroot : ∀ ax, rootSize.cells ax < 2 ^ 64)

include hroot

theorem origin_add_lt (hp : TiledAround rootSize p) (ax : Axis) :
    origin p ax + (holeSize rootSize p).cells ax < 2 ^ 64 :=
  (origin_add_le hp ax).trans_lt (hroot ax)

variable {up : Path Pane SplitDirectionAndSize} {ax : Axis} {forward : Bool} {k k' : Nat}
  {r : PaneTree}

theorem first_lt {d : SplitDirectionAndSize} (hfits : d.Fits (holeSize rootSize up))
    (hup : TiledAround rootSize up) (ax : Axis) : origin up ax + d.first.cells ax < 2 ^ 64 :=
  (Nat.add_le_add_left (hfits.le ax).1 _).trans_lt (origin_add_lt hroot hup ax)

theorem second_lt {d : SplitDirectionAndSize} (hfits : d.Fits (holeSize rootSize up))
    (hup : TiledAround rootSize up) (ax : Axis) :
    d.shift (origin up) ax + d.second.cells ax < 2 ^ 64 :=
  (shift_add_le hfits (origin up) ax).trans_lt (origin_add_lt hroot hup ax)

theorem mem_placesAt_plug (hp : TiledAround rootSize p) (t : PaneTree) :
    q ∈ placesAt (p.plug t) (fun _ => 0) rootSize 0 ↔
      q ∈ placesAt t (origin p) (holeSize rootSize p) p.leavesBefore.length ∨
        q ∈ placesAround p t.numLeaves := by
  induction p generalizing t with
  | top => simp [Path.plug, origin, Path.leavesBefore, placesAround]
  | left r d up ih =>
    obtain ⟨d, rfl⟩ := hp.data_left
    rw [Path.plug, ih hp.2.2, placesAt_node hp.1 (origin_add_lt hroot hp.2.2)]
    simp only [origin, holeSize_left, Path.leavesBefore, placesAround, BinTree.numLeaves,
      List.mem_append]
    tauto
  | right l d up ih =>
    obtain ⟨d, rfl⟩ := hp.data_right
    rw [Path.plug, ih hp.2.2, placesAt_node hp.1 (origin_add_lt hroot hp.2.2)]
    simp only [origin, holeSize_right, Path.leavesBefore, placesAround, BinTree.numLeaves,
      List.length_append, BinTree.length_leaves, List.mem_append]
    tauto

theorem apart_of_around (hp : TiledAround rootSize p) (hq : q ∈ placesAround p n) :
    ∃ ax, q.start ax + q.cells ax ≤ origin p ax ∨
      origin p ax + (holeSize rootSize p).cells ax ≤ q.start ax := by
  induction p generalizing n with
  | top => exact absurd hq (by simp [placesAround])
  | left r d up ih =>
    obtain ⟨d, rfl⟩ := hp.data_left
    obtain ⟨hfits, hr, hup⟩ := hp
    rw [placesAround, List.mem_append] at hq
    rcases hq with hq | hq
    · have hinside := (hr.inside (second_lt hroot hfits hup) hq d.direction.axis).1
      rw [shift_of_eq rfl] at hinside
      refine ⟨d.direction.axis, Or.inr ?_⟩
      simp only [origin, holeSize_left]
      omega
    · obtain ⟨ax, hapart⟩ := ih hup hq
      have hle := (hfits.le ax).1
      refine ⟨ax, ?_⟩
      simp only [origin, holeSize_left]
      omega
  | right l d up ih =>
    obtain ⟨d, rfl⟩ := hp.data_right
    obtain ⟨hfits, hl, hup⟩ := hp
    rw [placesAround, List.mem_append] at hq
    rcases hq with hq | hq
    · have hinside := (hl.inside (first_lt hroot hfits hup) hq d.direction.axis).2.1
      refine ⟨d.direction.axis, Or.inl ?_⟩
      simp only [origin]
      rw [shift_of_eq rfl]
      omega
    · obtain ⟨ax, hapart⟩ := ih hup hq
      have hle := shift_add_le hfits (origin up) ax
      have hge : origin up ax ≤ d.shift (origin up) ax := Nat.le_add_right _ _
      refine ⟨ax, ?_⟩
      simp only [origin, holeSize_right]
      omega

theorem index_placesAround (hp : TiledAround rootSize p) (hq : q ∈ placesAround p n) :
    q.index < p.leavesBefore.length ∨ p.leavesBefore.length + n ≤ q.index := by
  induction p generalizing n with
  | top => exact absurd hq (by simp [placesAround])
  | left r d up ih =>
    obtain ⟨d, rfl⟩ := hp.data_left
    obtain ⟨hfits, hr, hup⟩ := hp
    rw [placesAround, List.mem_append] at hq
    simp only [Path.leavesBefore]
    rcases hq with hq | hq
    · exact Or.inr (index_placesAt hr (second_lt hroot hfits hup) hq).1
    · have hrange := ih hup hq
      omega
  | right l d up ih =>
    obtain ⟨d, rfl⟩ := hp.data_right
    obtain ⟨hfits, hl, hup⟩ := hp
    rw [placesAround, List.mem_append] at hq
    simp only [Path.leavesBefore, List.length_append, BinTree.length_leaves]
    rcases hq with hq | hq
    · exact Or.inl (index_placesAt hl (first_lt hroot hfits hup) hq).2
    · have hrange := ih hup hq
      omega

/-! ## What a position faces -/

omit hroot in
theorem edge_of_facing (hp : TiledAround rootSize p) (h : facing ax forward p k = none) :
    if forward then origin p ax + (holeSize rootSize p).cells ax = rootSize.cells ax
    else origin p ax = 0 := by
  induction p generalizing k with
  | top =>
    split
    · exact Nat.zero_add _
    · rfl
  | left r d up ih =>
    obtain ⟨d, rfl⟩ := hp.data_left
    obtain ⟨hfits, -, hup⟩ := hp
    obtain ⟨-, hfo, -⟩ := (d.fits_iff _).mp hfits
    rw [facing] at h
    split at h
    · exact absurd h (by simp)
    · next hother =>
      have hedge := ih hup h
      cases forward with
      | true =>
        have hax : ax = d.direction.axis.other :=
          (axis_eq_or ax d.direction.axis).resolve_left fun heq => hother ⟨rfl, heq.symm⟩
        rw [← hax] at hfo
        simp only [origin, holeSize_left, if_true] at hedge ⊢
        omega
      | false => exact hedge
  | right l d up ih =>
    obtain ⟨d, rfl⟩ := hp.data_right
    obtain ⟨hfits, -, hup⟩ := hp
    obtain ⟨hsum, -, hso⟩ := (d.fits_iff _).mp hfits
    rw [facing] at h
    split at h
    · next hax =>
      subst hax
      cases forward with
      | true =>
        have hedge := ih hup h
        simp only [origin, holeSize_right, if_true, shift_of_eq] at hedge ⊢
        omega
      | false => exact absurd h (by simp)
    · next hne =>
      have hax : ax = d.direction.axis.other :=
        (axis_eq_or ax d.direction.axis).resolve_left fun heq => hne heq.symm
      have hedge := ih hup h
      rw [← hax] at hso
      cases forward with
      | true =>
        simp only [origin, holeSize_right, if_true, shift_of_ne hne] at hedge ⊢
        omega
      | false =>
        simp only [origin, Bool.false_eq_true, if_false, shift_of_ne hne] at hedge ⊢
        exact hedge

/-- The subtree `r` starts at `o` with the size `a`. It is all there is beyond the edge of a position,
in the `n` rows or columns from the `k`-th of the position on, and reaches as far as these. -/
structure Faces (ax : Axis) (forward : Bool) (rootSize : TerminalSize)
    (p : Path Pane SplitDirectionAndSize) (m k n : Nat) (r : PaneTree) (k' : Nat) (o : Axis → Nat)
    (a : TerminalSize) (i : Nat) : Prop where
  tiled : Tiled r a
  bound : ∀ ax, o ax + a.cells ax < 2 ^ 64
  offset : o ax.other + k' = origin p ax.other + k
  room : k' + n ≤ a.cells ax.other
  edge : if forward then o ax = origin p ax + (holeSize rootSize p).cells ax + 1
    else o ax + a.cells ax + 1 = origin p ax
  mem : ∀ q ∈ placesAt r o a i, q ∈ placesAround p m
  only : ∀ q ∈ placesAround p m, Beyond ax forward (origin p) (holeSize rootSize p) q →
    q.meets ax.other (origin p ax.other + k) n → q ∈ placesAt r o a i

omit hroot in
theorem Faces.below {m m' j : Nat} {o : Axis → Nat} {a : TerminalSize} {i : Nat}
    (h : Faces ax forward rootSize up m' j n r k' o a i)
    (hoffset : origin p ax.other + k = origin up ax.other + j)
    (hstart : origin p ax = origin up ax ∨ forward = true)
    (hstop : origin p ax + (holeSize rootSize p).cells ax =
      origin up ax + (holeSize rootSize up).cells ax ∨ forward = false)
    (hmem : ∀ q ∈ placesAround up m', q ∈ placesAround p m)
    (honly : ∀ q ∈ placesAround p m, Beyond ax forward (origin p) (holeSize rootSize p) q →
      q.meets ax.other (origin p ax.other + k) n → q ∈ placesAround up m') :
    Faces ax forward rootSize p m k n r k' o a i := by
  refine ⟨h.tiled, h.bound, h.offset.trans hoffset.symm, h.room, ?_, fun q hq => hmem q (h.mem q hq),
    fun q hq hbeyond hmeets => h.only q (honly q hq hbeyond hmeets) ?_ (hoffset ▸ hmeets)⟩
  · have hedge := h.edge
    cases forward with
    | true =>
      simp only [if_true] at hedge ⊢
      have heq := hstop.resolve_right (by simp)
      omega
    | false =>
      simp only [Bool.false_eq_true, if_false] at hedge ⊢
      rw [hstart.resolve_right (by simp)]
      exact hedge
  · cases forward with
    | true =>
      simp only [Beyond, if_true] at hbeyond ⊢
      have heq := hstop.resolve_right (by simp)
      omega
    | false =>
      simp only [Beyond, Bool.false_eq_true, if_false] at hbeyond ⊢
      rw [← hstart.resolve_right (by simp)]
      exact hbeyond

/-- **What a position faces** is all there is beyond its edge. -/
theorem faces_of_facing (hp : TiledAround rootSize p) (h : facing ax forward p k = some (r, k'))
    (hn : k + n ≤ (holeSize rootSize p).cells ax.other) (hone : 1 ≤ (holeSize rootSize p).cells ax)
    (m : Nat) : ∃ o a i, Faces ax forward rootSize p m k n r k' o a i := by
  induction p generalizing k m with
  | top => exact absurd h (by simp [facing])
  | left t d up ih =>
    obtain ⟨d, rfl⟩ := hp.data_left
    obtain ⟨hfits, ht, hup⟩ := hp
    obtain ⟨hsum, hfo, hso⟩ := (d.fits_iff _).mp hfits
    have hlt := second_lt hroot hfits hup
    rw [facing] at h
    simp only [holeSize_left] at hn hone
    split at h
    · next hthere =>
      obtain ⟨rfl, hax⟩ := hthere
      subst hax
      cases h
      have hother : d.shift (origin up) d.direction.axis.other =
          origin up d.direction.axis.other := shift_of_ne (Axis.other_ne _).symm _
      have hthis := @shift_of_eq d d.direction.axis rfl (origin up)
      have hseconds := ht.one_le d.direction.axis
      refine ⟨d.shift (origin up), d.second, up.leavesBefore.length + m, ht, hlt, ?_, ?_, ?_,
        fun q hq => List.mem_append_left _ hq, fun q hq hbeyond hmeets => ?_⟩
      · rw [hother]
        rfl
      · rw [hso, ← hfo]
        exact hn
      · simp only [if_true, origin, holeSize_left]
        omega
      · refine (List.mem_append.mp hq).resolve_right fun hq => ?_
        -- it would have a cell in the place of the split
        obtain ⟨bx, hapart⟩ := apart_of_around hroot hup hq
        obtain ⟨y, hy₁, hy₂, hy₃, hy₄⟩ := hmeets
        simp only [Beyond, if_true, origin, holeSize_left] at hbeyond hy₁ hy₂
        rcases axis_eq_or bx d.direction.axis with rfl | rfl
        · omega
        · omega
    · next helse =>
      obtain ⟨o, a, i, hfaces⟩ := ih hup h
        (hn.trans (hfits.le ax.other).1) (hone.trans (hfits.le ax).1) (m + t.numLeaves)
      refine ⟨o, a, i, hfaces.below rfl (Or.inl rfl) ?_ (fun q hq =>
        List.mem_append_right _ hq) fun q hq hbeyond hmeets => ?_⟩
      · cases forward with
        | false => exact Or.inr rfl
        | true =>
          have hax : ax = d.direction.axis.other :=
            (axis_eq_or ax d.direction.axis).resolve_left fun heq =>
              helse ⟨rfl, heq.symm⟩
          refine Or.inl ?_
          simp only [origin, holeSize_left, hax, hfo]
      · refine (List.mem_append.mp hq).resolve_left fun hq => ?_
        -- the sibling is behind, or to the side
        have hinside := (ht.inside hlt hq d.direction.axis).1
        rw [shift_of_eq rfl] at hinside
        obtain ⟨y, hy₁, hy₂, hy₃, hy₄⟩ := hmeets
        rcases axis_eq_or ax d.direction.axis with rfl | rfl
        · cases forward with
          | true => exact helse ⟨rfl, rfl⟩
          | false =>
            simp only [Beyond, Bool.false_eq_true, if_false, origin] at hbeyond
            omega
        · rw [Axis.other_other] at hy₁ hy₂ hy₃ hy₄ hn
          simp only [origin] at hy₁ hy₂
          omega
  | right l d up ih =>
    obtain ⟨d, rfl⟩ := hp.data_right
    obtain ⟨hfits, hl, hup⟩ := hp
    obtain ⟨hsum, hfo, hso⟩ := (d.fits_iff _).mp hfits
    have hlt := first_lt hroot hfits hup
    rw [facing] at h
    simp only [holeSize_right] at hn hone
    by_cases hax : d.direction.axis = ax
    · subst hax
      rw [if_pos rfl] at h
      have hother : d.shift (origin up) d.direction.axis.other =
          origin up d.direction.axis.other := shift_of_ne (Axis.other_ne _).symm _
      have hthis := @shift_of_eq d d.direction.axis rfl (origin up)
      cases forward with
      | true =>
        rw [if_pos rfl] at h
        obtain ⟨o, a, i, hfaces⟩ := ih hup h (by omega) (by omega) (l.numLeaves + m)
        refine ⟨o, a, i, hfaces.below ?_ (Or.inr rfl) (Or.inl ?_) (fun q hq =>
          List.mem_append_right _ hq) fun q hq hbeyond _ => ?_⟩
        · simp only [origin, hother]
        · simp only [origin, holeSize_right]
          omega
        · refine (List.mem_append.mp hq).resolve_left fun hq => ?_
          have hinside := (hl.inside hlt hq d.direction.axis).2.1
          simp only [Beyond, if_true, origin] at hbeyond
          omega
      | false =>
        rw [if_neg (by simp)] at h
        cases h
        have hfirsts := hl.one_le d.direction.axis
        refine ⟨origin up, d.first, up.leavesBefore.length, hl, hlt, ?_, ?_, ?_,
          fun q hq => List.mem_append_left _ hq, fun q hq hbeyond hmeets => ?_⟩
        · simp only [origin, hother]
        · rw [hfo, ← hso]
          exact hn
        · simp only [Bool.false_eq_true, if_false, origin]
          omega
        · refine (List.mem_append.mp hq).resolve_right fun hq => ?_
          obtain ⟨bx, hapart⟩ := apart_of_around hroot hup hq
          obtain ⟨y, hy₁, hy₂, hy₃, hy₄⟩ := hmeets
          simp only [Beyond, Bool.false_eq_true, if_false, origin] at hbeyond
          simp only [origin, hother] at hy₁ hy₂
          rcases axis_eq_or bx d.direction.axis with rfl | rfl
          · omega
          · omega
    · rw [if_neg hax] at h
      have haxis : ax = d.direction.axis.other :=
        (axis_eq_or ax d.direction.axis).resolve_left fun heq => hax heq.symm
      have hsame : d.shift (origin up) ax = origin up ax := shift_of_ne hax _
      have hcross : d.direction.axis = ax.other := by rw [haxis, Axis.other_other]
      have hthis : d.shift (origin up) ax.other =
          origin up ax.other + (d.first.cells ax.other + 1) := shift_of_eq hcross _
      rw [hcross] at hsum
      rw [← haxis] at hso
      obtain ⟨o, a, i, hfaces⟩ := ih hup h (by omega) (by omega) (l.numLeaves + m)
      refine ⟨o, a, i, hfaces.below ?_ (Or.inl hsame) (Or.inl ?_) (fun q hq =>
        List.mem_append_right _ hq) fun q hq _ hmeets => ?_⟩
      · simp only [origin, hthis]
        omega
      · simp only [origin, holeSize_right]
        omega
      · refine (List.mem_append.mp hq).resolve_left fun hq => ?_
        have hinside := (hl.inside hlt hq ax.other).2.1
        obtain ⟨y, hy₁, hy₂, hy₃, hy₄⟩ := hmeets
        simp only [origin, hthis] at hy₁
        omega

theorem inner_of_facing (hp : TiledAround rootSize p)
    (hone : ∀ ax, 1 ≤ (holeSize rootSize p).cells ax) {t : PaneTree}
    (ht : Tiled (p.plug t) rootSize) (h : facing ax forward p 0 = some (r, k')) :
    if forward then origin p ax + (holeSize rootSize p).cells ax < rootSize.cells ax
    else 0 < origin p ax := by
  obtain ⟨o, a, i, hfaces⟩ := faces_of_facing hroot hp h (Nat.le_of_eq (Nat.zero_add _)) (hone ax)
    t.numLeaves
  have hedge := hfaces.edge
  cases forward with
  | false =>
    simp only [Bool.false_eq_true, if_false] at hedge ⊢
    omega
  | true =>
    simp only [if_true] at hedge ⊢
    -- the first cell of its edge belongs to a pane of the tab
    have hcell := hfaces.tiled.one_le ax.other
    have hfree : dividerAt ax true r 0 = false := by
      by_contra hdivider
      have hinner := dividerAt_inner hfaces.tiled (Bool.of_not_eq_false hdivider) hcell
      omega
    obtain ⟨q, hq, hat, -⟩ := (covers_iff hfaces.tiled hfaces.bound hcell).mp hfree
    have hmem := (mem_placesAt_plug hroot hp t).mpr (Or.inr (hfaces.mem q hq))
    have hinside := (ht.inside (fun ax => by rw [Nat.zero_add]; exact hroot ax) hmem ax).2
    have hstart : q.start ax = o ax := hat
    omega

/-- **There is a neighbour** unless the position is one cell thin and opposite a divider. -/
theorem neighbour_iff (hp : TiledAround rootSize p)
    (hone : ∀ ax, 1 ≤ (holeSize rootSize p).cells ax) (h : facing ax forward p 0 = some (r, k'))
    (m : Nat) : (∃ q ∈ placesAround p m, Beyond ax forward (origin p) (holeSize rootSize p) q ∧
        q.meets ax.other (origin p ax.other) ((holeSize rootSize p).cells ax.other)) ↔
      ¬ ((holeSize rootSize p).cells ax.other = 1 ∧ dividerAt ax forward r k' = true) := by
  obtain ⟨o, a, i, hfaces⟩ := faces_of_facing hroot hp h (Nat.le_of_eq (Nat.zero_add _)) (hone ax) m
  have hoffset := hfaces.offset
  have hroom := hfaces.room
  have hcross := hone ax.other
  rw [Nat.add_zero] at hoffset
  -- beyond the edge of the position is at the edge of what it faces
  have hedge : ∀ q : Place, Beyond ax forward (origin p) (holeSize rootSize p) q ↔
      AtEdge ax forward o a q := by
    intro q
    have hfacing := hfaces.edge
    unfold Beyond AtEdge
    cases forward with
    | true =>
      simp only [if_true] at hfacing ⊢
      rw [hfacing]
    | false =>
      simp only [Bool.false_eq_true, if_false] at hfacing ⊢
      omega
  constructor
  · rintro ⟨q, hq, hbeyond, hmeets⟩ ⟨hthin, hdivider⟩
    have hmem := hfaces.only q hq hbeyond hmeets
    obtain ⟨y, hy₁, hy₂, hcovers⟩ := hmeets
    obtain rfl : y = o ax.other + k' := by omega
    rw [(covers_iff hfaces.tiled hfaces.bound (by omega)).mpr
      ⟨q, hmem, (hedge q).mp hbeyond, hcovers⟩] at hdivider
    exact Bool.false_ne_true hdivider
  · intro hfree
    -- one of the first two cells is not opposite a divider
    obtain ⟨j, hj, hnone⟩ : ∃ j, j < (holeSize rootSize p).cells ax.other ∧
        dividerAt ax forward r (k' + j) = false := by
      cases hdivider : dividerAt ax forward r k' with
      | false => exact ⟨0, hcross, hdivider⟩
      | true =>
        have htwo : 1 < (holeSize rootSize p).cells ax.other :=
          Nat.lt_of_le_of_ne hcross fun heq => hfree ⟨heq.symm, hdivider⟩
        exact ⟨1, htwo, dividerAt_succ hfaces.tiled hdivider (by omega)⟩
    obtain ⟨q, hq, hat, hcovers⟩ := (covers_iff hfaces.tiled hfaces.bound (by omega)).mp hnone
    refine ⟨q, hfaces.mem q hq, (hedge q).mpr hat, o ax.other + (k' + j), by omega, by omega,
      hcovers⟩

end Around

/-! ## The pane that is found -/

/-- The four directions, by axis. -/
def PaneDirection.toward : Axis → Bool → PaneDirection
  | .x, true => .right
  | .x, false => .left
  | .y, true => .down
  | .y, false => .up

/-- The pane is on the other side of one divider cell from the active one, and they have a row or
column in common. -/
def Place.Adjacent (ax : Axis) (forward : Bool) (active q : Place) : Prop :=
  (if forward then q.start ax = active.start ax + active.cells ax + 1
    else q.start ax + q.cells ax + 1 = active.start ax) ∧
  q.meets ax.other (active.start ax.other) (active.cells ax.other)

/-- The place is at the edge of the tab. -/
def Place.Touches (ax : Axis) (forward : Bool) (size : TerminalSize) (active : Place) : Prop :=
  if forward then active.start ax + active.cells ax = size.cells ax else active.start ax = 0

/-- The position is one cell thin and exactly opposite a divider of what it faces. -/
def OppositeDivider (ax : Axis) (forward : Bool) (size : TerminalSize)
    (p : Path Pane SplitDirectionAndSize) : Prop :=
  (holeSize size p).cells ax.other = 1 ∧
    (facing ax forward p 0).any (fun seen => dividerAt ax forward seen.1 seen.2) = true

instance (ax : Axis) (forward : Bool) (size : TerminalSize) (p : Path Pane SplitDirectionAndSize) :
    Decidable (OppositeDivider ax forward size p) :=
  inferInstanceAs (Decidable (_ ∧ _))

theorem meets_iff {q : Place} {ax : Axis} {start n : Nat} (hn : start + n < 2 ^ 64)
    (hq : q.start ax + q.cells ax < 2 ^ 64) :
    edgeIntersects start n (q.start ax) (q.cells ax) = true ↔ q.meets ax start n := by
  rw [edgeIntersects, Rangeset.intersectsRange_iff, uadd_of_lt hn, uadd_of_lt hq, max_lt_iff,
    lt_min_iff, lt_min_iff]
  show (start < start + n ∧ start < q.start ax + q.cells ax) ∧ q.start ax < start + n ∧
    q.start ax < q.start ax + q.cells ax ↔ _
  constructor
  · rintro ⟨⟨h₁, h₂⟩, h₃, h₄⟩
    rcases Nat.le_total start (q.start ax) with hle | hle
    · exact ⟨q.start ax, hle, h₃, Nat.le_refl _, h₄⟩
    · exact ⟨start, Nat.le_refl _, h₁, hle, h₂⟩
  · rintro ⟨y, h₁, h₂, h₃, h₄⟩
    omega

theorem isAdjacent_iff {ax : Axis} {forward : Bool} {active pane : PositionedPane}
    (hactive : ∀ ax, active.place.start ax + active.place.cells ax + 1 < 2 ^ 64)
    (hpane : ∀ ax, pane.place.start ax + pane.place.cells ax + 1 < 2 ^ 64) :
    isAdjacent (.toward ax forward) active pane = true ↔
      active.place.Adjacent ax forward pane.place := by
  have hadd : ∀ {q : PositionedPane}, (∀ ax, q.place.start ax + q.place.cells ax + 1 < 2 ^ 64) →
      ∀ ax, uadd (uadd (q.place.start ax) (q.place.cells ax)) 1 =
        q.place.start ax + q.place.cells ax + 1 := by
    intro q hq ax
    have hlt := hq ax
    rw [uadd_of_lt (show q.place.start ax + q.place.cells ax < 2 ^ 64 by omega), uadd_of_lt hlt]
  have hmeets := @meets_iff pane.place ax.other _ _
    (Nat.lt_of_succ_lt (hactive ax.other)) (Nat.lt_of_succ_lt (hpane ax.other))
  unfold Place.Adjacent
  rw [← hmeets]
  cases ax with
  | x =>
    cases forward with
    | true =>
      have hx := hadd hactive .x
      simp only [PaneDirection.toward, isAdjacent, Bool.and_eq_true, decide_eq_true_eq, if_true]
      rw [← hx]
      rfl
    | false =>
      have hx := hadd hpane .x
      simp only [PaneDirection.toward, isAdjacent, Bool.and_eq_true, decide_eq_true_eq,
        Bool.false_eq_true, if_false]
      rw [← hx]
      rfl
  | y =>
    cases forward with
    | true =>
      have hy := hadd hactive .y
      simp only [PaneDirection.toward, isAdjacent, Bool.and_eq_true, decide_eq_true_eq, if_true]
      rw [← hy]
      exact and_congr_left' eq_comm
    | false =>
      have hy := hadd hpane .y
      simp only [PaneDirection.toward, isAdjacent, Bool.and_eq_true, decide_eq_true_eq,
        Bool.false_eq_true, if_false]
      rw [← hy]
      rfl

theorem foldl_betterPane (direction : PaneDirection) (recency : Recency) (active : PositionedPane)
    (panes : List PositionedPane) (best : Option (Nat × PositionedPane)) :
    (panes.foldl (betterPane direction recency active) best = none →
      best = none ∧ ∀ pane ∈ panes, paneScore direction recency active pane = 0) ∧
    ∀ found, panes.foldl (betterPane direction recency active) best = some found →
      best = some found ∨ found.2 ∈ panes ∧ 0 < paneScore direction recency active found.2 := by
  induction panes generalizing best with
  | nil => exact ⟨fun h => ⟨h, by simp⟩, fun found h => Or.inl h⟩
  | cons pane panes ih =>
    obtain ⟨hnone, hsome⟩ := ih (betterPane direction recency active best pane)
    -- one round keeps the best, or takes the pane
    have hround : betterPane direction recency active best pane = best ∨
        0 < paneScore direction recency active pane ∧
          betterPane direction recency active best pane =
            some (paneScore direction recency active pane, pane) := by
      unfold betterPane
      by_cases hpos : 0 < paneScore direction recency active pane
      · simp only [if_pos hpos]
        cases best with
        | none => exact Or.inr ⟨hpos, rfl⟩
        | some kept =>
          by_cases hless : paneScore direction recency active pane < kept.1
          · exact Or.inl (if_pos hless)
          · exact Or.inr ⟨hpos, if_neg hless⟩
      · exact Or.inl (if_neg hpos)
    refine ⟨fun h => ?_, fun found h => ?_⟩
    · obtain ⟨hbest, hall⟩ := hnone h
      rcases hround with hkept | ⟨-, htaken⟩
      · rw [hkept] at hbest
        refine ⟨hbest, ?_⟩
        -- a pane with a score would have been taken
        have hzero : paneScore direction recency active pane = 0 := by
          by_contra hne
          rw [hbest] at hkept
          simp [betterPane, Nat.pos_of_ne_zero hne] at hkept
        simpa [hzero] using hall
      · rw [htaken] at hbest
        exact absurd hbest (by simp)
    · rcases hsome found h with hbest | ⟨hmem, hpos⟩
      · rcases hround with hkept | ⟨hpos, htaken⟩
        · exact Or.inl (hkept.symm.trans hbest)
        · cases htaken.symm.trans hbest
          exact Or.inr ⟨List.mem_cons_self, hpos⟩
      · exact Or.inr ⟨List.mem_cons_of_mem _ hmem, hpos⟩

theorem isActive_positioned (tab : TabInner) (t : PaneTree) (p : Path Pane SplitDirectionAndSize)
    (i : Nat) {pane : PositionedPane} (h : pane ∈ tab.positioned t p i) :
    pane.isActive = decide (pane.index = tab.active) := by
  induction t generalizing p i with
  | empty => exact absurd h (by simp [TabInner.positioned])
  | leaf x =>
    obtain rfl := List.mem_singleton.mp h
    rfl
  | node l r d ihl ihr =>
    rw [TabInner.positioned, List.mem_append] at h
    rcases h with h | h
    · exact ihl _ _ h
    · exact ihr _ _ h

end Wakterm.Mux
