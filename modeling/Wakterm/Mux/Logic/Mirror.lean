import Wakterm.Mux.Logic.Geometry

/-!
# From the server's tree to the client's

What `pane_tree` writes and `build_from_pane_tree` reads, leaf by leaf
(`paneTree_eq`, `buildFromPaneTree_eq`), and where the loop that looks for the
active pane stops (`findPane_eq`).
-/

namespace Wakterm.Mux

open Wakterm.Machine Wakterm.Bintree

/-- The entry `pane_tree` makes for a pane. -/
def PaneTreeArgs.entry (args : PaneTreeArgs) (pane : Pane) (leftCol topRow : Nat) :
    PaneEntry where
  windowId := args.windowId
  tabId := args.tabId
  paneId := pane.paneId
  size := args.dims pane
  isActivePane := args.activePaneId = some pane.paneId
  isZoomedPane := args.zoomed.map (·.paneId) = some pane.paneId
  workspace := args.workspace
  topRow := topRow
  leftCol := leftCol

theorem paneTree_eq (args : PaneTreeArgs) (t : PaneTree) (ht : HasData t) :
    ∀ left top : Nat, left < 2 ^ 64 → top < 2 ^ 64 →
    ∃ node : PaneNode, paneTree args t left top = some node ∧ (∀ a i, node.intoTree.leaves =
        List.zipWith (fun pane (place : Place) => args.entry pane place.left place.top)
          t.leaves (places t left top a i)) ∧ ∀ makePane active zoomed,
        SameGeometry t (buildFromPaneTree makePane node.intoTree active zoomed).1 := by
  induction t with
  | empty => exact fun _ _ _ _ => ⟨.empty, rfl, fun _ _ => rfl, fun _ _ _ => .empty⟩
  | leaf x =>
    intro left top _ _
    exact ⟨.leaf (args.entry x left top), rfl, fun _ _ => rfl, fun _ _ _ => .leaf _ _⟩
  | node l r d ihl ihr =>
    intro left top hleft htop
    obtain ⟨hd, hdl, hdr⟩ := ht
    obtain ⟨d, rfl⟩ := Option.isSome_iff_exists.mp hd
    have hlt : ∀ a b, uadd a b < 2 ^ 64 := fun a b => Nat.mod_lt _ (by decide)
    -- along its own direction only the split moves its second child
    have hleft' : (if d.direction = .vertical then left else uadd left d.leftOfSecond) =
        uadd left d.leftOfSecond := by
      simp only [SplitDirectionAndSize.leftOfSecond]
      cases d.direction with
      | horizontal => rfl
      | vertical => exact (uadd_of_lt (a := left) (b := 0) hleft).symm
    have htop' : (if d.direction = .horizontal then top else uadd top d.topOfSecond) =
        uadd top d.topOfSecond := by
      simp only [SplitDirectionAndSize.topOfSecond]
      cases d.direction with
      | vertical => rfl
      | horizontal => exact (uadd_of_lt (a := top) (b := 0) htop).symm
    obtain ⟨nl, hnl, hll, hgl⟩ := ihl hdl left top hleft htop
    obtain ⟨nr, hnr, hlr, hgr⟩ := ihr hdr (uadd left d.leftOfSecond) (uadd top d.topOfSecond)
      (hlt _ _) (hlt _ _)
    refine ⟨.split nl nr d, ?_, fun a i => ?_, fun makePane active zoomed => ?_⟩
    · simp only [paneTree, hleft', htop', hnl, hnr, Option.bind_eq_bind, Option.bind_some]
    · simp only [PaneNode.intoTree, BinTree.leaves, places]
      rw [hll d.first i, hlr d.second (i + l.numLeaves), List.zipWith_append]
      rw [BinTree.length_leaves, length_places l hdl]
    · exact .node (hgl _ _ _) (hgr _ _ _) rfl (fun _ => rfl) (fun _ => rfl)

theorem buildFromPaneTree_eq (makePane : PaneEntry → Pane)
    (t : BinTree PaneEntry SplitDirectionAndSize) : ∀ active zoomed : Option Pane,
    (buildFromPaneTree makePane t active zoomed).1.leaves = t.leaves.map makePane ∧
      (buildFromPaneTree makePane t active zoomed).2.1 =
        ((t.leaves.filter (·.isActivePane)).getLast?.map makePane).or active ∧
      (buildFromPaneTree makePane t active zoomed).2.2 =
        ((t.leaves.filter (·.isZoomedPane)).getLast?.map makePane).or zoomed := by
  induction t with
  | empty => exact fun _ _ => ⟨rfl, rfl, rfl⟩
  | leaf e =>
    intro active zoomed
    refine ⟨rfl, ?_, ?_⟩
    · cases h : e.isActivePane <;> simp [buildFromPaneTree, BinTree.leaves, h]
    · cases h : e.isZoomedPane <;> simp [buildFromPaneTree, BinTree.leaves, h]
  | node l r d ihl ihr =>
    intro active zoomed
    obtain ⟨hl1, hl2, hl3⟩ := ihl active zoomed
    obtain ⟨hr1, hr2, hr3⟩ := ihr (buildFromPaneTree makePane l active zoomed).2.1
      (buildFromPaneTree makePane l active zoomed).2.2
    rw [hl2, hl3] at hr1 hr2 hr3
    have hlast : ∀ xs ys : List PaneEntry, (xs ++ ys).getLast?.map makePane =
        (ys.getLast?.map makePane).or (xs.getLast?.map makePane) := by
      intro xs ys
      rw [List.getLast?_append]
      cases ys.getLast? <;> rfl
    simp only [buildFromPaneTree, BinTree.leaves, List.map_append, List.filter_append, hl1, hr1,
      hr2, hr3, hl2, hl3, hlast, Option.or_assoc, and_self]

theorem findPane_of_visits {paneId : PaneId} {c : PaneCursor} {cs : List PaneCursor}
    (h : Visits Cursor.preorderNext c cs) : ∀ fuel index, cs.length ≤ fuel →
    TabInner.findPane paneId fuel index c =
      some (((cs.filterMap Cursor.leaf?).findIdx? (paneId = ·.paneId)).map (index + ·),
        c.tree) := by
  induction h with
  | @last c e he =>
    intro fuel index hf
    obtain ⟨fuel, rfl⟩ : ∃ f, fuel = f + 1 := ⟨fuel - 1, by simp at hf; omega⟩
    have htree : e.tree = c.tree := by
      have h := Move.tree_landed .preorderNext c
      simpa only [Move.run, he, Cursor.landed] using h
    obtain ⟨t, p⟩ := c
    cases t with
    | empty =>
      simp only [TabInner.findPane, he, htree]
      rfl
    | node l r d => cases he
    | leaf x =>
      by_cases hx : paneId = x.paneId
      · simp [TabInner.findPane, hx, Cursor.leaf?]
      · simp [TabInner.findPane, hx, Cursor.leaf?, he, htree]
  | @step c c' cs hc _ ih =>
    intro fuel index hf
    obtain ⟨fuel, rfl⟩ : ∃ f, fuel = f + 1 := ⟨fuel - 1, by simp at hf; omega⟩
    have hf' : cs.length ≤ fuel := by simpa using hf
    have htree : c'.tree = c.tree := by
      have h := Move.tree_landed .preorderNext c
      simpa only [Move.run, hc, Cursor.landed] using h
    obtain ⟨t, p⟩ := c
    cases t with
    | empty => cases hc
    | node l r d =>
      simp only [TabInner.findPane, hc, ih fuel index hf', htree]
      rfl
    | leaf x =>
      by_cases hx : paneId = x.paneId
      · simp [TabInner.findPane, hx, Cursor.leaf?, List.findIdx?_cons]
      · simp only [TabInner.findPane, if_neg hx, hc, ih fuel (index + 1) hf', htree,
          List.filterMap_cons, Cursor.leaf?, List.findIdx?_cons, decide_eq_true_eq]
        simp only [Option.map_map, Function.comp_def]
        congr 3
        funext k
        omega

theorem findPane_cursor {paneId : PaneId} {t : PaneTree} (ht : t.Full) :
    TabInner.findPane paneId t.numNodes 0 t.cursor =
      some (t.leaves.findIdx? (paneId = ·.paneId), t) := by
  have hleaves : (t.preorderCursors .top).filterMap Cursor.leaf? = t.leaves :=
    BinTree.filterMap_leaf_preorderCursors t .top
  rw [findPane_of_visits (visits_preorder t (.inr ht)) t.numNodes 0
    (Nat.le_of_eq (BinTree.length_preorderCursors t .top)), hleaves]
  simp only [Nat.zero_add, Option.map_id', BinTree.cursor, Cursor.tree_eq_plug, Path.plug]

end Wakterm.Mux
