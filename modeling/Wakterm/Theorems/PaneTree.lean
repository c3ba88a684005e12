import Mathlib.Data.List.Rotate
import Wakterm.Bintree.Mirror
import Wakterm.Bintree.Traversal
import Wakterm.Mux.Logic.Panes

/-!
# The zipper is correct

The contract of `bintree::Cursor`: both walks meet every position of a proper
tree exactly once and then stop, no move ever changes the tree, and
`go_to_nth_leaf` finds exactly the leaves there are.
-/

namespace Wakterm.Theorems.Zipper

open Wakterm.Bintree

variable {L N : Type}

/-- The cursors a walk stands on: the addresses in visiting order, each cursor
on the subtree of `t` at its address. -/
def Walks (next : Cursor L N → Except (Cursor L N) (Cursor L N)) (t : BinTree L N)
    (addresses : List (List PathBranch)) : Prop :=
  ∃ cs, Visits next t.cursor cs ∧ cs.map (·.path.address) = addresses ∧
    ∀ c ∈ cs, t.subtreeAt c.path.address = some c.it

/-- What `go_to_nth_leaf(n)` answers from the root: the `n`-th leaf from the
left when there is one, and `Err` otherwise. -/
def FindsLeaf (t : BinTree L N) (n : Nat) : Prop :=
  if n < t.numLeaves then
    ∃ c, t.cursor.goToNthLeaf n = some (.ok c) ∧ c.leaf? = t.leaves[n]? ∧
      t.leafAddresses[n]? = some c.path.address
  else ∃ c, t.cursor.goToNthLeaf n = some (.error c)

theorem visits_subtreeAt {next : Cursor L N → Except (Cursor L N) (Cursor L N)}
    (hnext : ∀ c, (Cursor.landed (next c)).tree = c.tree)
    {c : Cursor L N} {cs : List (Cursor L N)} (h : Visits next c cs) :
    ∀ c' ∈ cs, c.tree.subtreeAt c'.path.address = some c'.it := by
  induction h with
  | @last c e _ =>
    intro c' hc'
    rw [List.mem_singleton.mp hc']
    exact Cursor.subtreeAt_address c
  | @step c c₁ cs hc _ ih =>
    intro c' hc'
    rcases List.mem_cons.mp hc' with rfl | hc'
    · exact Cursor.subtreeAt_address c'
    · have htree : c₁.tree = c.tree := by
        have := hnext c
        rwa [hc] at this
      rw [← htree]
      exact ih c' hc'

theorem walks_preorder (t : BinTree L N) (ht : t.Proper) :
    Walks Cursor.preorderNext t t.preorderAddresses := by
  refine ⟨_, visits_preorder t ht, ?_, ?_⟩
  · simpa [Path.address] using BinTree.map_address_preorderCursors t .top
  · exact visits_subtreeAt (Move.tree_landed .preorderNext) (visits_preorder t ht)

theorem walks_postorder (t : BinTree L N) (ht : t.Proper) :
    Walks Cursor.postorderNext t t.postorderAddresses := by
  refine ⟨_, visits_postorder t ht, ?_, ?_⟩
  · simpa [Path.address] using BinTree.map_address_postorderCursors t .top
  · exact visits_subtreeAt (Move.tree_landed .postorderNext) (visits_postorder t ht)

theorem findsLeaf (t : BinTree L N) (ht : t.Proper) (n : Nat) : FindsLeaf t n := by
  have hfind := BinTree.goToNthLeaf_cursor t ht n
  have hleaves := BinTree.filter_isLeaf_preorderCursors t .top
  have haddr := BinTree.map_address_leafCursors t .top
  have hlen := congrArg List.length hleaves
  simp only [List.length_map, BinTree.length_leaves] at hlen
  unfold FindsLeaf
  split
  · rename_i hn
    have hn' : n < ((t.preorderCursors .top).filter Cursor.isLeaf).length := by omega
    rw [List.getElem?_eq_getElem hn'] at hfind
    refine ⟨_, hfind, ?_, ?_⟩
    · -- both sides are the `n`-th entry of the list of leaves
      have h := congrArg (·[n]?) hleaves
      simp only [List.getElem?_map, List.getElem?_eq_getElem hn', Option.map_some] at h
      obtain ⟨x, hx, hx'⟩ := Option.map_eq_some_iff.mp h.symm
      rw [hx, Cursor.leaf?, ← hx']
    · have h := congrArg (·[n]?) haddr
      simp only [List.getElem?_map, List.getElem?_eq_getElem hn', Option.map_some,
        Path.address, List.nil_append, List.map_id'] at h
      exact h.symm
  · rename_i hn
    rw [List.getElem?_eq_none (by omega)] at hfind
    obtain ⟨e, he, _⟩ := hfind
    exact ⟨e, he⟩

/-- **The zipper is correct.** From the root of a tree with no `Empty` below a
`Node`, `preorder_next` visits node, left, right and `postorder_next` node,
right, left; each of the two lists names every position of the tree exactly
once; no sequence of moves changes `tree()`; and `go_to_nth_leaf` succeeds
exactly on the leaves that exist. -/
theorem zipper_correct (t : BinTree L N) (ht : t.Proper) :
    (Walks Cursor.preorderNext t t.preorderAddresses ∧ t.preorderAddresses.Nodup ∧
      ∀ a, a ∈ t.preorderAddresses ↔ (t.subtreeAt a).isSome) ∧
    (Walks Cursor.postorderNext t t.postorderAddresses ∧ t.postorderAddresses.Nodup ∧
      ∀ a, a ∈ t.postorderAddresses ↔ (t.subtreeAt a).isSome) ∧ (∀ ms : List Move,
      (ms.foldl (fun c m => Cursor.landed (m.run c)) t.cursor).tree = t) ∧ ∀ n, FindsLeaf t n := by
  have hperm := BinTree.postorderAddresses_perm t
  refine ⟨⟨walks_preorder t ht, BinTree.nodup_preorderAddresses t,
      BinTree.mem_preorderAddresses t⟩,
    ⟨walks_postorder t ht, hperm.nodup_iff.mpr (BinTree.nodup_preorderAddresses t), ?_⟩,
    fun ms => Move.tree_run_list ms t.cursor, findsLeaf t ht⟩
  intro a
  rw [hperm.mem_iff, BinTree.mem_preorderAddresses]

/-- A tree of three leaves, the right one split again. -/
def threeLeaves : BinTree Nat Nat :=
  .node (.leaf 1) (.node (.leaf 2) (.leaf 3) (some 20)) (some 10)

theorem zipper_correct_threeLeaves : threeLeaves.Proper ∧ Walks Cursor.preorderNext threeLeaves
        [[], [.isLeft], [.isRight], [.isRight, .isLeft], [.isRight, .isRight]] ∧
      FindsLeaf threeLeaves 2 :=
  have h : threeLeaves.Proper := .inr (by decide)
  ⟨h, (zipper_correct threeLeaves h).1.1, (zipper_correct threeLeaves h).2.2.2 2⟩

end Wakterm.Theorems.Zipper

/-!
## Rotating the panes of a tab

`rotate_clockwise` and `rotate_counter_clockwise` carry one pane through the tree and swap it with
every leaf, forwards over `preorder_next` or backwards over `postorder_next`.
-/

namespace Wakterm.Theorems.Rotation

open Wakterm.Bintree Wakterm.Mux

/-- `tab'` is `tab` with other panes in the leaves of its tree `t`, which is now
`t'`: shape and split data are the same, and so is everything else in the tab,
its size included, but for the calls made on panes. -/
structure Repaned (tab : TabInner) (t : PaneTree) (tab' : TabInner) (t' : PaneTree) :
    Prop where
  rest : tab' = { tab with pane := some t', calls := tab'.calls }
  shape : t'.shape = t.shape

namespace Repaned

variable {tab tab₁ tab₂ : TabInner} {t t₁ t₂ : PaneTree}

theorem pane (h : Repaned tab t tab₁ t₁) : tab₁.pane = some t₁ := by
  rw [h.rest]

theorem size (h : Repaned tab t tab₁ t₁) : tab₁.size = tab.size := by
  rw [h.rest]

theorem refl (hroot : tab.pane = some t) : Repaned tab t tab t :=
  ⟨by rw [← hroot], rfl⟩

theorem trans (h₁ : Repaned tab t tab₁ t₁) (h₂ : Repaned tab₁ t₁ tab₂ t₂) :
    Repaned tab t tab₂ t₂ := by
  refine ⟨?_, h₂.shape.trans h₁.shape⟩
  rw [h₂.rest, h₁.rest]

theorem full (h : Repaned tab t tab₁ t₁) (ht : t.Full) : t₁.Full :=
  BinTree.full_of_shape h.shape.symm ht

theorem numLeaves (h : Repaned tab t tab₁ t₁) : t₁.numLeaves = t.numLeaves :=
  BinTree.numLeaves_of_shape h.shape

theorem restored (h : Repaned tab t tab₁ t₁) (hroot : tab.pane = some t)
    (hleaves : t₁.leaves = t.leaves) : tab₁.pane = tab.pane := by
  rw [h.pane, hroot, BinTree.ext_of_leaves h.shape hleaves]

end Repaned

theorem swapLeaf_eq : TabInner.swapLeaf = (carry : Visit Pane SplitDirectionAndSize Pane).run := by
  funext hand ⟨t, p⟩
  cases t <;> rfl

variable {tab : TabInner} {t : PaneTree} {rotate : TabInner → Option TabInner}

theorem rotate_eq (clockwise : Bool) (start : List PositionedPane → Option PositionedPane)
    (next : PaneCursor → Except PaneCursor PaneCursor) {t' : PaneTree} {p : Pane}
    (hroot : tab.pane = some t) (ht : t.Full)
    (hstart : (start (tab.positioned t .top 0)).map (·.pane) = some p)
    (hwalk : Cursor.walk next carry.run t.numNodes p t.cursor = some (p, t'))
    (hshape : t'.shape = t.shape) :
    ∃ tab', tab.rotate clockwise start next = some tab' ∧ Repaned tab t tab' t' := by
  obtain ⟨q, hq, rfl⟩ := Option.map_eq_some_iff.mp hstart
  have ht' : t'.Full := BinTree.full_of_shape hshape.symm ht
  obtain ⟨active, hactive⟩ :
      ∃ active, ({ tab with pane := some t' }.call
        (applySizesFromSplits t' tab.size)).getActivePane =
          some (active, { tab with pane := some t' }.call (applySizesFromSplits t' tab.size)) :=
    TabInner.getActivePane_tab rfl (.inr ht')
  simp only [TabInner.rotate, TabInner.iterPanesIgnoringZoom_eq hroot (.inr ht), hq, hroot,
    swapLeaf_eq, hwalk, hactive, Option.bind_eq_bind, Option.bind_some]
  cases active with
  | some pane => exact ⟨_, rfl, rfl, hshape⟩
  | none => exact ⟨_, rfl, rfl, hshape⟩

theorem rotateClockwise_eq (hroot : tab.pane = some t) (ht : t.Full) {ps : List Pane} {p : Pane}
    (hleaves : t.leaves = ps ++ [p]) :
    ∃ tab' t', tab.rotateClockwise = some tab' ∧ Repaned tab t tab' t' ∧ t'.leaves = p :: ps := by
  obtain ⟨t', hwalk, hshape, hnew⟩ := walk_preorderNext_carry ht hleaves
  obtain ⟨tab', hrun, hrepaned⟩ := rotate_eq true List.getLast? Cursor.preorderNext
    hroot ht (by rw [← List.getLast?_map, TabInner.pane_positioned, hleaves]; simp)
    hwalk hshape
  exact ⟨tab', t', hrun, hrepaned, hnew⟩

theorem rotateCounterClockwise_eq (hroot : tab.pane = some t) (ht : t.Full) {ps : List Pane}
    {p : Pane} (hleaves : t.leaves = p :: ps) :
    ∃ tab' t', tab.rotateCounterClockwise = some tab' ∧ Repaned tab t tab' t' ∧
      t'.leaves = ps ++ [p] := by
  obtain ⟨t', hwalk, hshape, hnew⟩ := walk_postorderNext_carry ht hleaves
  obtain ⟨tab', hrun, hrepaned⟩ := rotate_eq false List.head? Cursor.postorderNext
    hroot ht (by rw [← List.head?_map, TabInner.pane_positioned, hleaves]; rfl)
    hwalk hshape
  exact ⟨tab', t', hrun, hrepaned, hnew⟩

/-- A rotation applied `n` times. -/
def times (rotate : TabInner → Option TabInner) : Nat → TabInner → Option TabInner
  | 0, tab => some tab
  | n + 1, tab => do times rotate n (← rotate tab)

theorem times_turns (turns : Nat → List Pane → List Pane → Prop) (hzero : ∀ ps, turns 0 ps ps)
    (hsucc : ∀ n ps qs rs, turns 1 ps qs → turns n qs rs → turns (n + 1) ps rs)
    (hstep : ∀ tab t, tab.pane = some t → t.Full → ∃ tab' t', rotate tab = some tab' ∧
      Repaned tab t tab' t' ∧ turns 1 t.leaves t'.leaves) :
    ∀ (n : Nat) (tab : TabInner) (t : PaneTree), tab.pane = some t → t.Full →
    ∃ tab' t', times rotate n tab = some tab' ∧ Repaned tab t tab' t' ∧
      turns n t.leaves t'.leaves := by
  intro n
  induction n with
  | zero => exact fun tab t hroot _ => ⟨tab, t, rfl, Repaned.refl hroot, hzero _⟩
  | succ n ih =>
    intro tab t hroot ht
    obtain ⟨tab₁, t₁, hrun, h₁, hturn⟩ := hstep tab t hroot ht
    obtain ⟨tab₂, t₂, hmore, h₂, hturns⟩ := ih tab₁ t₁ h₁.pane (h₁.full ht)
    refine ⟨tab₂, t₂, ?_, h₁.trans h₂, hsucc n _ _ _ hturn hturns⟩
    rw [times, hrun]
    exact hmore

theorem times_numLeaves {turns : Nat → List Pane → List Pane → Prop}
    (hall : ∃ tab' t', times rotate t.numLeaves tab = some tab' ∧ Repaned tab t tab' t' ∧
      turns t.numLeaves t.leaves t'.leaves)
    (hround : ∀ ps qs, ps.length = qs.length → turns ps.length ps qs → qs = ps)
    (hroot : tab.pane = some t) :
    ∃ tab', times rotate t.numLeaves tab = some tab' ∧ tab'.pane = tab.pane ∧
      tab'.size = tab.size := by
  obtain ⟨tab', t', hrun, h, hturns⟩ := hall
  refine ⟨tab', hrun, h.restored hroot (hround _ _ ?_ ?_), h.size⟩
  · rw [BinTree.length_leaves, BinTree.length_leaves, h.numLeaves]
  · rwa [BinTree.length_leaves]

/-- Turned clockwise by `n` places: turning it back gives the list before. -/
def Clockwise (n : Nat) (ps qs : List Pane) : Prop := qs.rotate n = ps

/-- Turned counter-clockwise by `n` places. -/
def CounterClockwise (n : Nat) (ps qs : List Pane) : Prop := ps.rotate n = qs

theorem clockwise_step (tab : TabInner) (t : PaneTree) (hroot : tab.pane = some t)
    (ht : t.Full) : ∃ tab' t', tab.rotateClockwise = some tab' ∧ Repaned tab t tab' t' ∧
      Clockwise 1 t.leaves t'.leaves := by
  have hne : t.leaves ≠ [] := by
    rw [← List.length_pos_iff, BinTree.length_leaves]
    exact ht.numLeaves_pos
  obtain ⟨tab', t', hrun, h, hleaves⟩ :=
    rotateClockwise_eq hroot ht (List.dropLast_append_getLast hne).symm
  refine ⟨tab', t', hrun, h, ?_⟩
  rw [Clockwise, hleaves, List.rotate_cons_succ, List.rotate_zero,
    List.dropLast_append_getLast hne]

theorem counterClockwise_step (tab : TabInner) (t : PaneTree) (hroot : tab.pane = some t)
    (ht : t.Full) : ∃ tab' t', tab.rotateCounterClockwise = some tab' ∧
      Repaned tab t tab' t' ∧ CounterClockwise 1 t.leaves t'.leaves := by
  have hpos : 0 < t.leaves.length := by
    rw [BinTree.length_leaves]
    exact ht.numLeaves_pos
  obtain ⟨p, ps, hps⟩ := List.exists_cons_of_length_pos hpos
  obtain ⟨tab', t', hrun, h, hleaves⟩ := rotateCounterClockwise_eq hroot ht hps
  refine ⟨tab', t', hrun, h, ?_⟩
  rw [CounterClockwise, hleaves, hps, List.rotate_cons_succ, List.rotate_zero]

/-- **Rotating the panes is a rotation.** On a tab with a tree, the leaves
`p₀, …, pₙ` become `pₙ, p₀, …, pₙ₋₁` clockwise and `p₁, …, pₙ, p₀`
counter-clockwise, in the same splits of the same tab; either direction takes the
other back; and `n + 1` times either is once round. -/
theorem rotation_laws (tab : TabInner) (t : PaneTree) (hroot : tab.pane = some t) (ht : t.Full) :
    (∀ ps p, t.leaves = ps ++ [p] → ∃ tab' t', tab.rotateClockwise = some tab' ∧
      Repaned tab t tab' t' ∧ t'.leaves = p :: ps) ∧
    (∀ p ps, t.leaves = p :: ps → ∃ tab' t', tab.rotateCounterClockwise = some tab' ∧
      Repaned tab t tab' t' ∧ t'.leaves = ps ++ [p]) ∧
    (∃ tab₁ tab₂, tab.rotateClockwise = some tab₁ ∧
      tab₁.rotateCounterClockwise = some tab₂ ∧ tab₂.pane = tab.pane ∧ tab₂.size = tab.size) ∧
    (∃ tab₁ tab₂, tab.rotateCounterClockwise = some tab₁ ∧
      tab₁.rotateClockwise = some tab₂ ∧ tab₂.pane = tab.pane ∧ tab₂.size = tab.size) ∧
    (∃ tab', times TabInner.rotateClockwise t.numLeaves tab = some tab' ∧
      tab'.pane = tab.pane ∧ tab'.size = tab.size) ∧
    ∃ tab', times TabInner.rotateCounterClockwise t.numLeaves tab = some tab' ∧
      tab'.pane = tab.pane ∧ tab'.size = tab.size := by
  refine ⟨fun ps p h => rotateClockwise_eq hroot ht h,
    fun p ps h => rotateCounterClockwise_eq hroot ht h, ?_, ?_, ?_, ?_⟩
  · obtain ⟨tab₁, t₁, hrun₁, h₁, hturn₁⟩ := clockwise_step tab t hroot ht
    obtain ⟨tab₂, t₂, hrun₂, h₂, hturn₂⟩ := counterClockwise_step tab₁ t₁ h₁.pane (h₁.full ht)
    have h := h₁.trans h₂
    exact ⟨tab₁, tab₂, hrun₁, hrun₂, h.restored hroot (hturn₂.symm.trans hturn₁), h.size⟩
  · obtain ⟨tab₁, t₁, hrun₁, h₁, hturn₁⟩ := counterClockwise_step tab t hroot ht
    obtain ⟨tab₂, t₂, hrun₂, h₂, hturn₂⟩ := clockwise_step tab₁ t₁ h₁.pane (h₁.full ht)
    have h := h₁.trans h₂
    -- both sides, turned by one place, are the leaves in between
    have hleaves : t₂.leaves = t.leaves := List.rotate_injective 1 (hturn₂.trans hturn₁.symm)
    exact ⟨tab₁, tab₂, hrun₁, hrun₂, h.restored hroot hleaves, h.size⟩
  · refine times_numLeaves (times_turns Clockwise ?_ ?_ clockwise_step
      t.numLeaves tab t hroot ht) ?_ hroot
    · exact fun ps => List.rotate_zero ps
    · intro n ps qs rs h₁ h₂
      rw [Clockwise, ← h₁, ← h₂, List.rotate_rotate]
    · intro ps qs hlen h
      rw [← h, hlen, List.rotate_length]
  · refine times_numLeaves (times_turns CounterClockwise ?_ ?_ counterClockwise_step
      t.numLeaves tab t hroot ht) ?_ hroot
    · exact fun ps => List.rotate_zero ps
    · intro n ps qs rs h₁ h₂
      rw [CounterClockwise, ← h₂, ← h₁, List.rotate_rotate, Nat.add_comm]
    · intro ps qs _ h
      rw [← h, List.rotate_length]

/-- Three panes, the right half split again. -/
def threePaneTree : PaneTree :=
  .node (.leaf ⟨1, 0⟩)
    (.node (.leaf ⟨2, 0⟩) (.leaf ⟨3, 0⟩)
      (some ⟨.vertical, ⟨12, 39, 390, 240, 96⟩, ⟨11, 39, 390, 220, 96⟩⟩))
    (some ⟨.horizontal, ⟨24, 40, 400, 480, 96⟩, ⟨24, 39, 390, 480, 96⟩⟩)

/-- A tab of them, the second one active. -/
def threePanes : TabInner :=
  { TabInner.new 0 ⟨24, 80, 800, 480, 96⟩ with pane := some threePaneTree, active := 1 }

theorem rotation_laws_threePanes : threePanes.pane = some threePaneTree ∧ threePaneTree.Full ∧
      (∃ tab' t', threePanes.rotateClockwise = some tab' ∧
        Repaned threePanes threePaneTree tab' t' ∧ t'.leaves = [⟨3, 0⟩, ⟨1, 0⟩, ⟨2, 0⟩]) ∧
      ∃ tab', times TabInner.rotateClockwise 3 threePanes = some tab' ∧
        tab'.pane = threePanes.pane ∧ tab'.size = threePanes.size := by
  have ht : threePaneTree.Full := by decide
  have h := rotation_laws threePanes threePaneTree rfl ht
  exact ⟨rfl, ht, h.1 [⟨1, 0⟩, ⟨2, 0⟩] ⟨3, 0⟩ rfl, h.2.2.2.2.1⟩

end Wakterm.Theorems.Rotation
