import Wakterm.Mux.Logic.SplitSizes
import Wakterm.Mux.Logic.Tiling

/-!
# Splitting a pane

`split_and_insert` moves the tree out of the tab before it resizes the two panes of a leaf split,
and returns early when one of them refuses its size: that failure, and no other, loses the tree.
-/

namespace Wakterm.Theorems.Split

open Wakterm.Mux Wakterm.Bintree

/-! ## A split that fails -/

/-- Whenever the split returns `Err`, the tab still has its tree, its size and
its active pane. -/
def FailsCleanly (accepts : Pane → TerminalSize → Bool) (tab : TabInner) (paneIndex : Nat)
    (request : SplitRequest) (pane : Pane) : Prop :=
  ∀ e tab', TabInner.splitAndInsert accepts tab paneIndex request pane = some (.error e, tab') →
    tab'.pane.isSome ∧ tab'.pane = tab.pane ∧ tab'.size = tab.size ∧ tab'.active = tab.active

/-- Once a leaf split has passed all checks, both panes accept their sizes. -/
def PanesAccept (accepts : Pane → TerminalSize → Bool) (tab : TabInner) (root : PaneTree)
    (paneIndex : Nat) (request : SplitRequest) (pane : Pane) : Prop :=
  ∀ info p existing, tab.LeafSplit root paneIndex request info p existing →
    accepts (request.order existing pane).1 info.first = true ∧
      accepts (request.order existing pane).2 info.second = true

theorem exists_lost_tree {accepts : Pane → TerminalSize → Bool} {tab : TabInner}
    {root : PaneTree} {paneIndex : Nat} {request : SplitRequest} {pane : Pane}
    (hroot : tab.pane = some root) {info : SplitDirectionAndSize}
    {p : Path Pane SplitDirectionAndSize} {existing : Pane}
    (hsplit : tab.LeafSplit root paneIndex request info p existing)
    (hrefused : ¬ (accepts (request.order existing pane).1 info.first = true ∧
      accepts (request.order existing pane).2 info.second = true)) :
    ∃ e tab', TabInner.splitAndInsert accepts tab paneIndex request pane =
      some (.error e, tab') ∧ tab'.pane = none := by
  rw [hsplit.splitAndInsert_eq hroot, TabInner.splitLeafAndInsert_found hsplit.found]
  dsimp only
  split_ifs with h1 h2
  · exact ⟨_, _, rfl, rfl⟩
  · exact ⟨_, _, rfl, rfl⟩
  · exact absurd ⟨by simpa using h1, by simpa using h2⟩ hrefused

/-- **Exactly when every failure is clean**: the panes of a leaf split that has
passed the checks must not refuse their sizes. -/
theorem splitAndInsert_failsCleanly_iff {tab : TabInner} {root : PaneTree}
    (hroot : tab.pane = some root) (accepts : Pane → TerminalSize → Bool) (paneIndex : Nat)
    (request : SplitRequest) (pane : Pane) : FailsCleanly accepts tab paneIndex request pane ↔
      PanesAccept accepts tab root paneIndex request pane := by
  constructor
  · intro hclean info p existing hsplit
    by_contra hrefused
    obtain ⟨e, tab', hrun, hnone⟩ := exists_lost_tree hroot hsplit hrefused
    have hsome := (hclean e tab' hrun).1
    rw [hnone] at hsome
    cases hsome
  · intro haccept e tab' hrun
    cases TabInner.splitOutcome_of_run hroot hrun with
    | refused => exact ⟨by rw [hroot]; rfl, rfl, rfl, rfl⟩
    | leaf hsplit hleaf =>
      obtain ⟨h1, h2⟩ := haccept _ _ _ hsplit
      rw [TabInner.splitLeafAndInsert_found hsplit.found] at hleaf
      simp [h1, h2] at hleaf
    | top htop =>
      obtain ⟨_, _, _, _, _, _, _, _, hres, _⟩ := htop.outcome
      cases hres

/-- A tab of 80 columns with one pane. -/
def onePane : TabInner :=
  { TabInner.new 0 ⟨24, 80, 800, 600, 96⟩ with pane := some (.leaf ⟨0, 0⟩) }

/-- Split it side by side, the new pane to the right. -/
def halfRight : SplitRequest := ⟨.horizontal, true, false, .percent 50⟩

/-- With panes that take every size, no failure loses the tree. -/
theorem splitAndInsert_failsCleanly_onePane :
    FailsCleanly (fun _ _ => true) onePane 7 halfRight ⟨1, 0⟩ :=
  (@splitAndInsert_failsCleanly_iff onePane _ rfl _ 7 halfRight ⟨1, 0⟩).mpr
    fun _ _ _ _ => ⟨rfl, rfl⟩

/-- The new pane refuses its size: the tab is left without a tree. -/
theorem splitAndInsert_loses_onePane :
    ¬ ∀ (accepts : Pane → TerminalSize → Bool) (tab : TabInner) (root : PaneTree)
      (paneIndex : Nat) (request : SplitRequest) (pane : Pane), tab.pane = some root →
      FailsCleanly accepts tab paneIndex request pane := by
  intro hall
  have hclean := hall (fun p _ => p.paneId = 0) onePane _ 0 halfRight ⟨1, 0⟩ rfl
  have hval : (TabInner.splitAndInsert (fun p _ => p.paneId = 0) onePane 0 halfRight
      ⟨1, 0⟩).map (fun out => (out.1.toOption, out.2.pane)) = some (none, none) := by
    decide
  cases hrun : TabInner.splitAndInsert (fun p _ => p.paneId = 0) onePane 0 halfRight ⟨1, 0⟩ with
  | none => simp [hrun] at hval
  | some out =>
    obtain ⟨res, tab'⟩ := out
    simp only [hrun, Option.map_some, Option.some.injEq, Prod.mk.injEq] at hval
    cases res with
    | ok i => simp [Except.toOption] at hval
    | error e =>
      have hsome := (hclean e tab' hrun).1
      simp [hval.2] at hsome

/-! ## A split that succeeds -/

/-- The panes that have something else than before were told so during the
call. -/
def TellsSizes (tab tab' : TabInner) (root root' : PaneTree) : Prop :=
  ∃ cs, tab'.calls = tab.calls ++ cs ∧
    ∀ x size, (x, size) ∈ allocations root' tab'.size →
      (x, size) ∈ allocations root tab.size ∨ lastTold x cs = some size

/-- The new pane is the `i`-th leaf and the others are as before; the tab has
its size, and a tree laid out for it; the panes know. -/
def Inserts (tab tab' : TabInner) (root : PaneTree) (pane : Pane) (i : Nat) : Prop :=
  ∃ root', tab'.pane = some root' ∧ root'.leaves[i]? = some pane ∧
    root'.leaves.eraseIdx i = root.leaves ∧
    tab'.size.rows = tab.size.rows ∧ tab'.size.cols = tab.size.cols ∧
    LaidOut root' tab'.size ∧ TellsSizes tab tab' root root'

section

variable {accepts : Pane → TerminalSize → Bool} {tab tab' : TabInner} {root : PaneTree}
  {paneIndex i : Nat} {request : SplitRequest} {pane : Pane}

theorem inserts_leafSplit_iff (h : tab.Settled root) (hfull : root.Full)
    (hfresh : pane ∉ root.leaves) {info : SplitDirectionAndSize}
    {p : Path Pane SplitDirectionAndSize} {existing : Pane}
    (hsplit : tab.LeafSplit root paneIndex request info p existing) :
    Inserts tab (tab.withLeafSplit request info p existing pane paneIndex) root pane
        (request.newIndex paneIndex) ↔ info.Fits (holeSize tab.size p) := by
  have ht := (tiled_iff root tab.size).mpr ⟨hfull, h.tree.hasData, h.laidOut⟩
  have hleaves := (p.leaves_plug (.leaf existing)).symm.trans (congrArg BinTree.leaves hsplit.plug_eq)
  have hindex := BinTree.length_leavesBefore root .top paneIndex _ (hsplit.cursor_eq (.inr hfull))
  have hp := ((tiled_plug tab.size p _).mp (hsplit.plug_eq ▸ ht)).2
  have hne : existing ≠ pane := by
    rintro rfl
    refine hfresh ?_
    rw [← hleaves]
    simp [BinTree.leaves]
  simp only [Path.leavesBefore, List.length_nil, Nat.zero_add] at hindex
  constructor
  · rintro ⟨root', hroot', _, _, _, _, hlaid, _⟩
    cases hroot'
    exact (hp.consistent hlaid.consistent).1
  · intro hfits
    have hnew := (hsplit.tiled_iff ht (request.order existing pane).1
      (request.order existing pane).2).mpr hfits
    refine ⟨_, rfl, ?_, ?_, rfl, rfl, hnew.laidOut, _, rfl, ?_⟩
    · rw [Path.leaves_plug, ← hindex]
      cases hs : request.targetIsSecond <;>
        simp [SplitRequest.order, SplitRequest.newIndex, hs, BinTree.leaves]
    · rw [Path.leaves_plug, ← hleaves, ← hindex]
      cases hs : request.targetIsSecond <;>
        simp [SplitRequest.order, SplitRequest.newIndex, hs, BinTree.leaves,
          List.eraseIdx_append_of_length_le]
    · intro x size hx
      -- a pane of the split has been told, the others have what they had
      rcases (mem_allocations_plug hp _ _).mp hx with hx | hx
      · right
        simp only [allocations, List.cons_append, List.nil_append, List.mem_cons,
          List.not_mem_nil, or_false, Prod.mk.injEq] at hx
        cases hs : request.targetIsSecond <;>
          rcases hx with ⟨rfl, rfl⟩ | ⟨rfl, rfl⟩ <;>
          simp [lastTold, PaneCall.tells, SplitRequest.order, hs, hne, hne.symm]
      · left
        rw [← hsplit.plug_eq]
        exact (mem_allocations_plug hp _ _).mpr (.inr hx)

theorem not_inserts_topSplit (h : tab.Settled root) (hfresh : pane ∉ root.leaves)
    {res : Except SplitError Nat} (htop : tab.TopSplit root request pane res tab') :
    ¬ Inserts tab tab' root pane i := by
  rintro ⟨root', hroot', _, _, _, _, _, cs, hcs, htold⟩
  obtain ⟨info, tab₁, root₁, _, hspace, htab₁, _, _, _, hcalls, hpane⟩ := htop.outcome
  cases hpane.symm.trans hroot'
  -- the calls are those of the resize, on the panes that were there
  have hnone : lastTold pane cs = none := by
    split_ifs at htab₁
    · have hkept : ∀ ax, 1 ≤ (request.keptHalf info).cells ax := by
        intro ax
        have := TabInner.one_le_of_noSpace hspace ax
        unfold SplitRequest.keptHalf
        split_ifs
        · exact this.1
        · exact this.2
      obtain ⟨cs', hrun, hcs'⟩ :=
        TabInner.resizeImpl_unzoomed h.unzoomed h.pane h.tree.proper hkept true
      cases htab₁.symm.trans hrun
      rw [hcalls, List.append_assoc, List.append_cancel_left_eq] at hcs
      rw [← hcs, lastTold_append, lastTold_of_not_resize hcs', Option.none_or]
      refine lastTold_applySizesFromSplits ?_ _
      rwa [leaves_eq_of_skeleton (skeleton_relaid root tab.size _)]
    · rw [hcalls, htab₁] at hcs
      rw [List.self_eq_append_right.mp hcs, lastTold_nil]
  have hnew : ∃ size, (pane, size) ∈ allocations (request.newRoot info root₁ pane) tab'.size := by
    unfold SplitRequest.newRoot
    split_ifs
    · exact ⟨info.second, by simp [allocations]⟩
    · exact ⟨info.first, by simp [allocations]⟩
  obtain ⟨size, hmem⟩ := hnew
  rcases htold pane size hmem with hold | hlast
  · exact hfresh (mem_leaves_of_mem_allocations hold)
  · rw [hnone] at hlast
    cases hlast

/-- **Exactly when a split that returns `Ok` keeps its promises**: it must not
be for the whole of a tab with more than one pane, nor for as many cells as
make the divider's cell wrap around. -/
theorem splitAndInsert_inserts_iff (h : tab.Settled root) (hfresh : pane ∉ root.leaves)
    (hsize : ∀ n, request.size = .cells n → n < 2 ^ 64)
    (hok : TabInner.splitAndInsert accepts tab paneIndex request pane = some (.ok i, tab')) :
    Inserts tab tab' root pane i ↔
      (request.topLevel = true → root.numLeaves ≤ 1) ∧ request.size ≠ .cells (2 ^ 64 - 1) := by
  cases TabInner.splitOutcome_of_run h.pane hok with
  | @leaf info p existing _ _ hsplit hleaf =>
    have hfull : root.Full := by
      rcases h.tree.proper with rfl | hfull
      · cases hsplit.found
      · exact hfull
    have ht := (tiled_iff root tab.size).mpr ⟨hfull, h.tree.hasData, h.laidOut⟩
    obtain ⟨rfl, rfl⟩ : request.newIndex paneIndex = i ∧
        tab.withLeafSplit request info p existing pane paneIndex = tab' := by
      rw [TabInner.splitLeafAndInsert_found hsplit.found] at hleaf
      dsimp only at hleaf
      split_ifs at hleaf
      · simp at hleaf
      · simp at hleaf
      · simpa using hleaf
    have hone : request.topLevel = true → root.numLeaves ≤ 1 := by
      intro htop
      have hleaf := hsplit.notNode htop
      cases root with
      | empty => exact hfull.elim
      | node l r d => simp [BinTree.cursor, Cursor.isLeaf] at hleaf
      | leaf x => exact Nat.le_refl 1
    rw [inserts_leafSplit_iff h hfull hfresh hsplit, hsplit.fits_iff h.pane ht hsize]
    exact (and_iff_right hone).symm
  | top htop =>
    refine iff_of_false (not_inserts_topSplit h hfresh htop) fun hcond => ?_
    obtain ⟨l, r, d, rfl⟩ := htop.node
    have hle := hcond.1 htop.topLevel
    have hfull := h.tree.proper.full_node
    have hl := hfull.1.numLeaves_pos
    have hr := hfull.2.numLeaves_pos
    simp only [BinTree.numLeaves] at hle
    omega

end

/-- The tab with one pane split in half. -/
theorem splitAndInsert_inserts_onePane :
    ∃ tab', TabInner.splitAndInsert (fun _ _ => true) onePane 0 halfRight ⟨1, 0⟩ =
        some (.ok 1, tab') ∧ Inserts onePane tab' (.leaf ⟨0, 0⟩) ⟨1, 0⟩ 1 := by
  have hrun : TabInner.splitAndInsert (fun _ _ => true) onePane 0 halfRight ⟨1, 0⟩ =
      some (.ok 1, onePane.withLeafSplit halfRight
        ⟨.horizontal, ⟨24, 39, 390, 600, 96⟩, ⟨24, 40, 400, 600, 96⟩⟩ .top ⟨0, 0⟩ ⟨1, 0⟩ 0) := by
    decide
  have hsettled : onePane.Settled (.leaf ⟨0, 0⟩) :=
    ⟨rfl, rfl, ⟨.inr trivial, trivial⟩, by decide⟩
  exact ⟨_, hrun, (splitAndInsert_inserts_iff hsettled (by decide) (by rintro n ⟨⟩) hrun).mpr
    ⟨by decide, by decide⟩⟩

/-- A tab of 80 columns with two panes side by side. -/
def sideBySide : PaneTree :=
  .node (.leaf ⟨0, 0⟩) (.leaf ⟨1, 0⟩)
    (some ⟨.horizontal, ⟨24, 39, 390, 600, 96⟩, ⟨24, 40, 400, 600, 96⟩⟩)

/-- A new pane of 78 columns beside two others leaves these one column, but
they cannot be resized to less than three: the new root does not fit. -/
theorem splitAndInsert_breaks_sideBySide :
    ¬ ∀ (accepts : Pane → TerminalSize → Bool) (tab tab' : TabInner) (root : PaneTree)
      (paneIndex i : Nat) (request : SplitRequest) (pane : Pane), tab.Settled root →
      pane ∉ root.leaves → (∀ n, request.size = .cells n → n < 2 ^ 64) →
      TabInner.splitAndInsert accepts tab paneIndex request pane = some (.ok i, tab') →
      Inserts tab tab' root pane i := by
  intro hall
  let tab : TabInner := { TabInner.new 0 ⟨24, 80, 800, 600, 96⟩ with pane := some sideBySide }
  have hval : (TabInner.splitAndInsert (fun _ _ => true) tab 0
      ⟨.horizontal, true, true, .cells 78⟩ ⟨2, 0⟩).map (fun out => (out.1.toOption,
        out.2.pane.map fun root' => decide (LaidOut root' out.2.size))) =
      some (some 2, some false) := by
    decide
  cases hrun : TabInner.splitAndInsert (fun _ _ => true) tab 0
      ⟨.horizontal, true, true, .cells 78⟩ ⟨2, 0⟩ with
  | none => simp [hrun] at hval
  | some out =>
    obtain ⟨res, tab'⟩ := out
    simp only [hrun, Option.map_some, Option.some.injEq, Prod.mk.injEq] at hval
    cases res with
    | error e => simp [Except.toOption] at hval
    | ok i =>
      obtain ⟨root', hroot', _, _, _, _, hlaid, _⟩ := hall _ tab tab' sideBySide 0 i _ _
        ⟨rfl, rfl, ⟨.inr (by decide), by decide⟩, by decide⟩ (by decide)
        (by rintro n ⟨⟩; decide) hrun
      simp [hroot', hlaid] at hval

end Wakterm.Theorems.Split
