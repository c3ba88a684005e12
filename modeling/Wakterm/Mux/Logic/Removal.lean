import Wakterm.Mux.Logic.Panes
import Wakterm.Mux.Logic.Spans
import Wakterm.Mux.TabSplits

/-!
# Rules for the loop of `remove_pane_if`

The loop changes the tree it walks over: a removed leaf disappears with its parent, the walk goes on
from the sibling, and a sibling that has been walked is walked again.
-/

namespace Wakterm.Mux

open Wakterm.Machine Wakterm.Bintree

namespace TabInner

/-- A leaf is kept; it hears of its size once something has been removed. -/
def Removal.keep (s : Removal) (x : Pane) (size : TerminalSize) : Removal :=
  { s with
    calls := if s.deadPanes.isEmpty then s.calls else s.calls ++ [.resize x size]
    paneIndex := s.paneIndex + 1 }

/-- A leaf is taken out. -/
def Removal.take (s : Removal) (zoomedId : Option PaneId) (x : Pane) : Removal :=
  { s with
    removedIndices := s.removedIndices ++ [s.paneIndex]
    zoomed := if some x.paneId = zoomedId then none else s.zoomed
    deadPanes := s.deadPanes ++ [x] }

/-- The walk goes on to the next leaf. -/
def Removal.next (s : Removal) : Removal :=
  { s with paneIndex := s.paneIndex + 1 }

/-- A pane is resized. -/
def Removal.tell (s : Removal) (x : Pane) (size : TerminalSize) : Removal :=
  { s with calls := s.calls ++ [.resize x size] }

/-- The state the loop starts in. -/
def Removal.start (tab : TabInner) : Removal where
  zoomed := tab.zoomed
  deadPanes := []
  paneIndex := 0
  removedIndices := []
  calls := tab.calls

/-- The tab once the loop has ended. -/
def afterRemoval (tab : TabInner) (s : Removal) (t : PaneTree) : TabInner :=
  { tab with
    pane := some t
    zoomed := s.zoomed
    calls := s.calls
    active := tab.active - (s.removedIndices.filter (· ≤ tab.active)).length }

theorem removePaneIf_eq_some_iff {tab : TabInner} {f : Nat → Pane → Bool} {dead : List Pane}
    {tab' : TabInner} : tab.removePaneIf f = some (dead, tab') ↔
      ∃ root s t, tab.pane = some root ∧ (∀ ax, 1 ≤ tab.size.cells ax) ∧
        removeLoop f tab.size (cellOf tab.size) (tab.zoomed.map (·.paneId))
          ((root.numNodes + 1) * (root.numNodes + 1)) (Removal.start tab) root.cursor =
            some (s, t) ∧ dead = s.deadPanes ∧ tab' = tab.afterRemoval s t := by
  by_cases hsize : ∀ ax, 1 ≤ tab.size.cells ax
  · cases hroot : tab.pane with
    | none => simp [removePaneIf, hroot]
    | some root =>
      simp only [removePaneIf, hroot, cellDimensions_eq hsize, Option.bind_eq_bind,
        Option.bind_some, Option.bind_eq_some_iff, Option.some.injEq, Prod.mk.injEq,
        Prod.exists]
      constructor
      · rintro ⟨s, t, hrun, rfl, rfl⟩
        exact ⟨root, s, t, rfl, hsize, hrun, rfl, rfl⟩
      · rintro ⟨_, s, t, rfl, _, hrun, rfl, rfl⟩
        exact ⟨s, t, hrun, rfl, rfl⟩
  · refine iff_of_false ?_ fun ⟨_, _, _, _, h, _⟩ => hsize h
    simp [removePaneIf, cellDimensions_eq_none hsize]

/-- After a removal the sibling `t` has the place of the split, at the end of
the path `up`: a leaf is done, a split is walked from its first child on. -/
def Regrown (I J : Removal → PaneTree → Path Pane SplitDirectionAndSize → Prop)
    (Post : Removal → PaneTree → Prop) (s : Removal) (t : PaneTree)
    (up : Path Pane SplitDirectionAndSize) (size : TerminalSize) : Prop :=
  match t with
  | .leaf y => J (s.tell y size).next (.leaf y) up
  | .node l r d => I s.next l (.left r (d.map (·.applyPaneSize size)) up)
  | .empty => Post s.next (up.plug .empty)

/-- What carries a property through the loop. -/
structure RemovalRule (f : Nat → Pane → Bool) (rootSize cell : TerminalSize)
    (zoomedId : Option PaneId)
    (I J : Removal → PaneTree → Path Pane SplitDirectionAndSize → Prop)
    (Post : Removal → PaneTree → Prop) : Prop where
  empty : ∀ {s p}, I s .empty p → Post s (p.plug .empty)
  node : ∀ {s l r d p}, I s (.node l r d) p →
    I s l (.left r
      (if s.deadPanes.isEmpty then d else d.map (·.applyPaneSize (holeSize rootSize p))) p)
  keep : ∀ {s x p}, I s (.leaf x) p → f s.paneIndex x = false →
    J (s.keep x (holeSize rootSize p)) (.leaf x) p
  removeTop : ∀ {s x}, I s (.leaf x) .top → f s.paneIndex x = true →
    Post (s.take zoomedId x) .empty
  removeLeft : ∀ {s x r d up}, I s (.leaf x) (.left r (some d) up) →
    f s.paneIndex x = true → Regrown I J Post (s.take zoomedId x) r up (unsplitSize cell d)
  removeRight : ∀ {s x l d up}, I s (.leaf x) (.right l (some d) up) →
    f s.paneIndex x = true → Regrown I J Post (s.take zoomedId x) l up (unsplitSize cell d)
  cross : ∀ {s t r d up}, J s t (.left r d up) → I s r (.right t d up)
  up : ∀ {s t l d up}, J s t (.right l d up) → J s (.node l t d) up
  finish : ∀ {s t}, J s t .top → Post s t

section Rule

variable {f : Nat → Pane → Bool} {rootSize cell : TerminalSize} {zoomedId : Option PaneId}
  {I J : Removal → PaneTree → Path Pane SplitDirectionAndSize → Prop}
  {Post : Removal → PaneTree → Prop}

/-- Where the walk goes on to, the property holds; where it ends, its final form. -/
def Arrives (I : Removal → PaneTree → Path Pane SplitDirectionAndSize → Prop)
    (Post : Removal → PaneTree → Prop) (s : Removal) : Except PaneCursor PaneCursor → Prop
  | .ok c => I s c.it c.path
  | .error c => Post s c.tree

theorem RemovalRule.nextAfter (rule : RemovalRule f rootSize cell zoomedId I J Post)
    {s : Removal} (p : Path Pane SplitDirectionAndSize) :
    ∀ {t : PaneTree}, J s t p → Arrives I Post s (p.nextAfter t) := by
  induction p with
  | top => exact fun h => rule.finish h
  | left r d up _ => exact fun h => rule.cross h
  | right l d up ih => exact fun h => ih (rule.up h)

theorem RemovalRule.regrow (rule : RemovalRule f rootSize cell zoomedId I J Post)
    {s : Removal} {t : PaneTree} {up : Path Pane SplitDirectionAndSize} {size : TerminalSize}
    (h : Regrown I J Post s t up size) : Arrives I Post (TabInner.regrow s ⟨t, up⟩ size).1.next
      (TabInner.regrow s ⟨t, up⟩ size).2.preorderNext := by
  cases t with
  | empty =>
    show Post s.next (Cursor.tree _)
    rw [Cursor.tree_eq_plug]
    exact h
  | leaf y =>
    simp only [TabInner.regrow, Cursor.preorderNext_leaf]
    exact rule.nextAfter up h
  | node l r d => cases d <;> exact h

theorem RemovalRule.visit (rule : RemovalRule f rootSize cell zoomedId I J Post)
    {s : Removal} {t : PaneTree} {p : Path Pane SplitDirectionAndSize} (hI : I s t p)
    {s' : Removal} {out : PaneTree ⊕ PaneCursor}
    (h : removeVisit f rootSize cell zoomedId s ⟨t, p⟩ = some (s', out)) :
    Sum.elim (Post s') (fun c => Arrives I Post s' c.preorderNext) out := by
  cases t with
  | empty =>
    simp only [removeVisit] at h
    cases h
    show Post s (Cursor.tree _)
    rw [Cursor.tree_eq_plug]
    exact rule.empty hI
  | node l r d =>
    have hnode := rule.node hI
    cases d with
    | none =>
      simp only [removeVisit] at h
      cases h
      simp only [Option.map_none, ite_self] at hnode
      exact hnode
    | some d =>
      simp only [removeVisit] at h
      split_ifs at h hnode with hdead
      · cases h
        exact hnode
      · cases h
        exact hnode
  | leaf x =>
    cases hf : f s.paneIndex x with
    | false =>
      simp only [removeVisit, hf, Bool.false_eq_true, if_false, Option.some.injEq,
        Prod.mk.injEq] at h
      obtain ⟨rfl, rfl⟩ := h
      simp only [Sum.elim_inr, Cursor.preorderNext_leaf]
      exact rule.nextAfter p (rule.keep hI hf)
    | true =>
      simp only [removeVisit, hf, if_true] at h
      cases p with
      | top =>
        simp only [Cursor.unsplitLeaf, Cursor.isTop, Cursor.isLeaf, Bool.and_self,
          if_true, Option.some.injEq, Prod.mk.injEq] at h
        obtain ⟨rfl, rfl⟩ := h
        exact rule.removeTop hI hf
      | left r d up =>
        cases d with
        | none => cases h
        | some d =>
          cases h
          exact rule.regrow (rule.removeLeft hI hf)
      | right l d up =>
        cases d with
        | none => cases h
        | some d =>
          cases h
          exact rule.regrow (rule.removeRight hI hf)

/-- **The rule**: what holds at the start holds, in its final form, at the end. -/
theorem RemovalRule.post (rule : RemovalRule f rootSize cell zoomedId I J Post) (fuel : Nat) :
    ∀ (s : Removal) (c : PaneCursor) (s' : Removal) (t' : PaneTree), I s c.it c.path →
    removeLoop f rootSize cell zoomedId fuel s c = some (s', t') → Post s' t' := by
  induction fuel with
  | zero => exact fun _ _ _ _ _ h => nomatch h
  | succ fuel ih =>
    intro s c s' t' hI h
    rw [removeLoop] at h
    split at h
    · exact nomatch h
    · next s₁ tree hvisit =>
      cases h
      exact rule.visit hI hvisit
    · next s₁ c₁ hvisit =>
      have harrive := rule.visit hI hvisit
      cases hnext : c₁.preorderNext with
      | ok c₂ =>
        simp only [Sum.elim_inr, hnext] at h harrive
        exact ih s₁ c₂ s' t' harrive h
      | error c₂ =>
        simp only [Sum.elim_inr, hnext] at h harrive
        cases h
        exact harrive

end Rule

/-! ## The loop ends -/

/-- The siblings along a path have their data, and so have their parents. -/
def HasDataAround : Path Pane SplitDirectionAndSize → Prop
  | .top => True
  | .left r d up => d.isSome ∧ HasData r ∧ HasDataAround up
  | .right l d up => d.isSome ∧ HasData l ∧ HasDataAround up

theorem hasData_plug (p : Path Pane SplitDirectionAndSize) (t : PaneTree) :
    HasData (p.plug t) ↔ HasData t ∧ HasDataAround p := by
  induction p generalizing t with
  | top => simp only [Path.plug, HasDataAround, and_true]
  | left r d up ih =>
    simp only [Path.plug, ih, HasData, HasDataAround]
    tauto
  | right l d up ih =>
    simp only [Path.plug, ih, HasData, HasDataAround]
    tauto

/-- A position of a proper tree from which the fuel is enough: a walk of the
tree, of at most `n` positions, for every leaf, and the rest of this one. -/
structure Fueled (n fuel : Nat) (c : PaneCursor) : Prop where
  full : (c.path.plug c.it).Full
  hasData : HasData (c.path.plug c.it)
  small : 2 * (c.path.plug c.it).numLeaves ≤ n
  enough : (c.path.plug c.it).numLeaves * n + c.it.numNodes + c.path.numAfter ≤ fuel

variable {fuel n k : Nat} {c : PaneCursor}

theorem Fueled.of_removal (hfull : (c.path.plug c.it).Full) (hdata : HasData (c.path.plug c.it))
    (hk : (c.path.plug c.it).numLeaves + 1 = k) (hsmall : 2 * k ≤ n) (hfuel : k * n ≤ fuel) :
    Fueled n fuel c where
  full := hfull
  hasData := hdata
  small := by omega
  enough := by
    have hpos := c.path.numNodes_add_numAfter_le c.it
    have hnodes := hfull.numNodes_eq
    obtain rfl := hk
    rw [Nat.succ_mul] at hfuel
    omega

theorem Fueled.nextAfter {t : PaneTree} {p : Path Pane SplitDirectionAndSize}
    (hfull : (p.plug t).Full) (hdata : HasData (p.plug t)) (hsmall : 2 * (p.plug t).numLeaves ≤ n)
    (henough : (p.plug t).numLeaves * n + p.numAfter ≤ fuel) (h : p.nextAfter t = .ok c) :
    Fueled n fuel c := by
  obtain ⟨hplug, hnum⟩ := p.nextAfter_ok h
  refine ⟨?_, ?_, ?_, ?_⟩
  · rwa [hplug]
  · rwa [hplug]
  · rwa [hplug]
  · rw [hplug]
    omega

theorem fueled_regrow {s : Removal} {t : PaneTree} {up : Path Pane SplitDirectionAndSize}
    {size : TerminalSize} (hfull : (up.plug t).Full) (hdata : HasData (up.plug t))
    (hk : (up.plug t).numLeaves + 1 = k) (hsmall : 2 * k ≤ n) (hfuel : k * n ≤ fuel)
    (h : (regrow s ⟨t, up⟩ size).2.preorderNext = .ok c) : Fueled n fuel c := by
  cases t with
  | empty => exact nomatch h
  | leaf y =>
    have hplug := (up.nextAfter_ok (Cursor.preorderNext_leaf y up ▸ h)).1
    refine .of_removal ?_ ?_ ?_ hsmall hfuel <;> rwa [hplug]
  | node l r d =>
    obtain ⟨⟨hd, hl, hr⟩, hup⟩ := (hasData_plug up _).mp hdata
    obtain ⟨d, rfl⟩ := Option.isSome_iff_exists.mp hd
    cases h
    refine .of_removal ?_ ?_ ?_ hsmall hfuel
    · simpa only [regrow, Path.plug, Path.full_plug, BinTree.Full] using hfull
    · exact (hasData_plug up _).mpr ⟨⟨rfl, hl, hr⟩, hup⟩
    · simpa only [regrow, Path.plug, ← BinTree.length_leaves, Path.leaves_plug, BinTree.leaves]
        using hk

theorem removeVisit_fueled (f : Nat → Pane → Bool) (rootSize cell : TerminalSize)
    (zoomedId : Option PaneId) (s : Removal) (h : Fueled n (fuel + 1) c) :
    ∃ s' out, removeVisit f rootSize cell zoomedId s c = some (s', out) ∧
      ∀ c₁ c₂, out = .inr c₁ → c₁.preorderNext = .ok c₂ → Fueled n fuel c₂ := by
  obtain ⟨t, p⟩ := c
  obtain ⟨hfull, hdata, hsmall, henough⟩ := h
  dsimp only at hfull hdata hsmall henough
  cases t with
  | empty => exact ((p.full_plug _).mp hfull).1.elim
  | node l r d =>
    obtain ⟨⟨hd, hl, hr⟩, hp⟩ := (hasData_plug p _).mp hdata
    obtain ⟨d, rfl⟩ := Option.isSome_iff_exists.mp hd
    have hnode : ∀ d', Fueled n fuel ⟨l, .left r (some d') p⟩ := by
      intro d'
      refine ⟨?_, (hasData_plug p _).mpr ⟨⟨rfl, hl, hr⟩, hp⟩, ?_, ?_⟩
      · simpa only [Path.plug, Path.full_plug, BinTree.Full] using hfull
      · simpa only [Path.plug, ← BinTree.length_leaves, Path.leaves_plug, BinTree.leaves]
          using hsmall
      · simp only [Path.plug, ← BinTree.length_leaves, Path.leaves_plug, BinTree.leaves,
          BinTree.numNodes, Path.numAfter] at henough ⊢
        omega
    simp only [removeVisit]
    split_ifs with hdead
    · exact ⟨s, _, rfl, by rintro _ _ ⟨⟩ ⟨⟩; exact hnode d⟩
    · exact ⟨s, _, rfl, by rintro _ _ ⟨⟩ ⟨⟩; exact hnode _⟩
  | leaf x =>
    cases hf : f s.paneIndex x with
    | false =>
      simp only [removeVisit, hf, Bool.false_eq_true, if_false]
      refine ⟨_, _, rfl, ?_⟩
      rintro _ c₂ ⟨⟩ hnext
      rw [Cursor.preorderNext_leaf] at hnext
      simp only [BinTree.numNodes] at henough
      exact .nextAfter hfull hdata hsmall (by omega) hnext
    | true =>
      simp only [removeVisit, hf, if_true]
      have hleaf := (p.full_plug _).mp hfull
      have hfuel : (p.plug (.leaf x)).numLeaves * n ≤ fuel := by
        simp only [BinTree.numNodes] at henough
        omega
      cases p with
      | top => exact ⟨_, _, rfl, by rintro _ _ ⟨⟩⟩
      | left r d up =>
        obtain ⟨-, hd, hr, hup⟩ := (hasData_plug _ _).mp hdata
        obtain ⟨d, rfl⟩ := Option.isSome_iff_exists.mp hd
        refine ⟨_, _, rfl, ?_⟩
        rintro _ c₂ ⟨⟩ hnext
        refine fueled_regrow ((up.full_plug r).mpr hleaf.2)
          ((hasData_plug up r).mpr ⟨hr, hup⟩) ?_ hsmall hfuel hnext
        simp only [Path.plug, ← BinTree.length_leaves, Path.leaves_plug, BinTree.leaves,
          List.length_append, List.length_cons, List.length_nil]
        omega
      | right l d up =>
        obtain ⟨-, hd, hl, hup⟩ := (hasData_plug _ _).mp hdata
        obtain ⟨d, rfl⟩ := Option.isSome_iff_exists.mp hd
        refine ⟨_, _, rfl, ?_⟩
        rintro _ c₂ ⟨⟩ hnext
        refine fueled_regrow ((up.full_plug l).mpr hleaf.2)
          ((hasData_plug up l).mpr ⟨hl, hup⟩) ?_ hsmall hfuel hnext
        simp only [Path.plug, ← BinTree.length_leaves, Path.leaves_plug, BinTree.leaves,
          List.length_append, List.length_cons, List.length_nil]
        omega

theorem removeLoop_fueled (f : Nat → Pane → Bool) (rootSize cell : TerminalSize)
    (zoomedId : Option PaneId) (fuel : Nat) : ∀ (s : Removal) (c : PaneCursor), Fueled n fuel c →
    ∃ out, removeLoop f rootSize cell zoomedId fuel s c = some out := by
  induction fuel with
  | zero =>
    intro s c h
    have henough := h.enough
    have hpos := c.it.numNodes_pos
    omega
  | succ fuel ih =>
    intro s c h
    obtain ⟨s', out, hvisit, hout⟩ := removeVisit_fueled f rootSize cell zoomedId s h
    simp only [removeLoop, hvisit]
    cases out with
    | inl tree => exact ⟨_, rfl⟩
    | inr c₁ =>
      cases hnext : c₁.preorderNext with
      | ok c₂ =>
        simp only [hnext]
        exact ih s' c₂ (hout c₁ c₂ rfl hnext)
      | error c₂ =>
        simp only [hnext]
        exact ⟨_, rfl⟩

/-- **The loop ends** on every split tree. -/
theorem removeLoop_isSome (f : Nat → Pane → Bool) (rootSize cell : TerminalSize)
    (zoomedId : Option PaneId) (s : Removal) {root : PaneTree} (h : SplitTree root) :
    ∃ out, removeLoop f rootSize cell zoomedId ((root.numNodes + 1) * (root.numNodes + 1)) s
      root.cursor = some out := by
  rcases h.proper with rfl | hfull
  · exact ⟨_, rfl⟩
  · have hnodes := hfull.numNodes_eq
    have hle : root.numLeaves * (root.numNodes + 1) ≤ root.numNodes * (root.numNodes + 1) :=
      Nat.mul_le_mul_right _ (by omega)
    refine removeLoop_fueled f rootSize cell zoomedId (n := root.numNodes + 1) _ s root.cursor
      ⟨hfull, h.hasData, Nat.le_of_eq hnodes.symm, ?_⟩
    simp only [BinTree.cursor, Path.plug, Path.numAfter, Nat.succ_mul]
    omega

end TabInner

end Wakterm.Mux
