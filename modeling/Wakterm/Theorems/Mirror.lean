import Mathlib.Data.List.Chain
import Wakterm.Client.Logic.PaneList
import Wakterm.Mux.Logic.Mirror
import Wakterm.Mux.Logic.Rebuild

/-!
# Resizing a tab pane by pane

A client lists the sizes of its panes, the server resizes its own panes to them and infers the
splits.
-/

namespace Wakterm.Theorems.Rebuild

open Wakterm.Mux Wakterm.Bintree Wakterm.Layout

/-- The rebuilt server tab has the client's size and, at every split, the
client's rows and columns. -/
def RoundTrips (dims : Pane → TerminalSize) (server : TabInner) (clientRoot : PaneTree)
    (clientSize : TerminalSize) : Prop :=
  ∃ server' root', server.rebuildSplitsSizesFromContainedPanes dims = some server' ∧
    server'.pane = some root' ∧ server'.size.rows = clientSize.rows ∧
    server'.size.cols = clientSize.cols ∧ SameGeometry clientRoot root'

/-- The rebuilt tree is consistent with the rebuilt tab size. -/
def RebuildsConsistent (dims : Pane → TerminalSize) (server : TabInner) : Prop :=
  ∃ server' root', server.rebuildSplitsSizesFromContainedPanes dims = some server' ∧
    server'.pane = some root' ∧ Consistent root' server'.size

section

variable {dims : Pane → TerminalSize} {server : TabInner} {root : PaneTree}

theorem rebuild_eq (hz : server.zoomed = none) (hpane : server.pane = some root)
    {root' : PaneTree} {size : TerminalSize}
    (h : TabInner.computeSize dims root = some (root', some size)) :
    server.rebuildSplitsSizesFromContainedPanes dims =
      some { server with pane := some (reconcileTreeSizes root' size), size := size } := by
  simp only [TabInner.rebuildSplitsSizesFromContainedPanes, hz, Option.isSome_none,
    Bool.false_eq_true, if_false, hpane, h, Option.bind_eq_bind, Option.bind_some]

theorem roundTrips_of_listed (hz : server.zoomed = none) (hpane : server.pane = some root)
    {clientRoot : PaneTree} {clientSize : TerminalSize} (ht : Tiled clientRoot clientSize)
    (hrange : clientSize.InRange) (hshape : SameShape clientRoot root)
    (hdims : ∀ x ∈ root.leaves, ∀ size,
      (x.paneId, size) ∈ collectPaneSizes clientRoot clientSize → dims x = size) :
    RoundTrips dims server clientRoot clientSize := by
  have hcells : ∀ ax, clientSize.cells ax < 2 ^ 64 := forall_axis hrange.cols hrange.rows
  obtain ⟨root', size, hcompute, hgeom, hsize⟩ := computeSize_listed hshape ht hcells hdims
  have ht' := (hgeom.tiled _ ht).of_cells fun ax => (hsize ax).symm
  have hrec := sameGeometry_reconcile ht' fun ax => by rw [hsize]; exact hcells ax
  exact ⟨_, _, rebuild_eq hz hpane hcompute, rfl, hsize .y, hsize .x, hgeom.trans hrec⟩

theorem rebuildsConsistent_iff (hz : server.zoomed = none) (hpane : server.pane = some root)
    (htree : SplitTree root) (hdims : ∀ x ∈ root.leaves, ∀ ax, 1 ≤ (dims x).cells ax)
    (hrange : ∀ ax, cellsSum dims ax root < 2 ^ 63) : RebuildsConsistent dims server ↔
      ∀ ax, (naturalSpan dims ax root).Squeezes (natural dims ax root) := by
  rcases htree.proper with rfl | hfull
  · -- an empty tab is left as it is
    refine iff_of_true ⟨{ server with pane := some .empty }, .empty, ?_, rfl, trivial⟩
      fun _ => trivial
    simp [TabInner.rebuildSplitsSizesFromContainedPanes, hz, hpane, TabInner.computeSize]
  · obtain ⟨root', size, hcompute, hskel, hsize, hspan⟩ := computeSize_eq hfull htree.hasData
      hdims fun ax => by have := hrange ax; omega
    have hrun := rebuild_eq hz hpane hcompute
    have hiff : Consistent (reconcileTreeSizes root' size) size ↔
        ∀ ax, (naturalSpan dims ax root).Squeezes (natural dims ax root) := by
      rw [consistent_iff]
      refine forall_congr' fun ax => ?_
      have hlt := natural_lt_cellsSum dims ax hfull htree.hasData
      have hbound := hrange ax
      rw [span_reconcileTreeSizes ax root' size, hspan, hsize, Span.squeeze_fills_iff]
      · rw [hspan]
        exact below_naturalSpan dims ax hfull htree.hasData hbound.le
      · rw [hsize]
        omega
    rw [← hiff]
    constructor
    · rintro ⟨server', root₁, hres, hroot₁, hcons⟩
      cases hres.symm.trans hrun
      cases hroot₁
      exact hcons
    · intro hcons
      exact ⟨_, _, hrun, rfl, hcons⟩

/-- **Rebuilding the splits of a tab that is not zoomed**: the sizes listed by a
client with a tiled tree always come back; sizes of any panes give a consistent
tree exactly when they can be squeezed into what the first ones add up to. -/
theorem rebuild_roundTrips_and_consistent_iff (hz : server.zoomed = none)
    (hpane : server.pane = some root) :
    (∀ clientRoot clientSize, Tiled clientRoot clientSize → clientSize.InRange →
      SameShape clientRoot root → (∀ x ∈ root.leaves, ∀ size,
        (x.paneId, size) ∈ collectPaneSizes clientRoot clientSize → dims x = size) →
      RoundTrips dims server clientRoot clientSize) ∧
    (SplitTree root → (∀ x ∈ root.leaves, ∀ ax, 1 ≤ (dims x).cells ax) →
      (∀ ax, cellsSum dims ax root < 2 ^ 63) → (RebuildsConsistent dims server ↔
        ∀ ax, (naturalSpan dims ax root).Squeezes (natural dims ax root))) :=
  ⟨fun _ _ ht hrange hshape hdims => roundTrips_of_listed hz hpane ht hrange hshape hdims,
    fun htree hdims hrange => rebuildsConsistent_iff hz hpane htree hdims hrange⟩

end

/-- Two panes side by side in some columns. -/
def pair (first second : Nat) : PaneTree :=
  .node (.leaf ⟨0, 0⟩) (.leaf ⟨1, 0⟩)
    (some ⟨.horizontal, ⟨24, first, first * 10, 600, 96⟩, ⟨24, second, second * 10, 600, 96⟩⟩)

def serverTab : TabInner :=
  { TabInner.new 0 ⟨24, 80, 800, 600, 96⟩ with pane := some (pair 39 40) }

/-- A client with 30 and 49 columns is followed, and so are sizes that fit no
layout: the second pane has two more rows than the first. -/
theorem rebuild_serverTab :
    RoundTrips (fun x => ⟨24, if x.paneId = 0 then 30 else 49, if x.paneId = 0 then 300 else 490,
        600, 96⟩) serverTab (pair 30 49) ⟨24, 80, 800, 600, 96⟩ ∧
      RebuildsConsistent (fun x => ⟨24 + 2 * x.paneId, 10, 100, 600, 96⟩) serverTab := by
  constructor
  · refine (@rebuild_roundTrips_and_consistent_iff _ serverTab _ rfl rfl).1 _ _
      ((tiled_iff _ _).mpr ⟨by decide, by decide, by decide⟩)
      ⟨by decide, by decide, by decide, by decide⟩ (.node (.leaf rfl) (.leaf rfl) rfl) ?_
    intro x hx size hsize
    simp only [pair, BinTree.leaves, List.cons_append, List.nil_append, List.mem_cons,
      List.not_mem_nil, or_false] at hx
    rcases hx with rfl | rfl <;> simpa [pair, collectPaneSizes, eq_comm] using hsize
  · refine ((@rebuild_roundTrips_and_consistent_iff _ serverTab _ rfl rfl).2
      ⟨.inr (by decide), by decide⟩ ?_ ?_).mpr (forall_axis (by decide) (by decide))
    · intro x _
      exact forall_axis (by simp) (by simp only [TerminalSize.cells_y]; omega)
    · exact forall_axis (by decide) (by decide)

/-- A narrow pane above three panes in a row, all of one row and column. -/
def narrowTop : PaneTree :=
  .node (.leaf ⟨0, 0⟩)
    (.node
      (.node (.leaf ⟨1, 0⟩) (.leaf ⟨2, 0⟩)
        (some ⟨.horizontal, ⟨1, 1, 10, 25, 96⟩, ⟨1, 1, 10, 25, 96⟩⟩))
      (.leaf ⟨3, 0⟩) (some ⟨.horizontal, ⟨1, 3, 30, 25, 96⟩, ⟨1, 1, 10, 25, 96⟩⟩))
    (some ⟨.vertical, ⟨1, 5, 50, 25, 96⟩, ⟨1, 5, 50, 25, 96⟩⟩)

/-- The one column of the pane at the top is all the row below gets, and none of
it is left for the inner split. -/
theorem rebuild_breaks_narrowTop :
    ¬ ∀ (dims : Pane → TerminalSize) (server : TabInner) (root : PaneTree),
      server.zoomed = none → server.pane = some root → SplitTree root →
      (∀ x ∈ root.leaves, ∀ ax, 1 ≤ (dims x).cells ax) → RebuildsConsistent dims server := by
  intro hall
  let server : TabInner := { TabInner.new 0 ⟨3, 5, 50, 75, 96⟩ with pane := some narrowTop }
  obtain ⟨server', root', hres, hroot', hcons⟩ := hall (fun _ => ⟨1, 1, 10, 25, 96⟩) server
    narrowTop rfl rfl ⟨.inr (by decide), by decide⟩
    (fun _ _ => forall_axis (by decide) (by decide))
  have hval : ((server.rebuildSplitsSizesFromContainedPanes fun _ => ⟨1, 1, 10, 25, 96⟩).bind
      fun server' => server'.pane.map fun root' => decide (Consistent root' server'.size)) =
      some false := by
    decide
  simp [hres, hroot', hcons] at hval

end Wakterm.Theorems.Rebuild

/-!
## Mirroring a tab

The tree `codec_pane_tree` writes for a server tab, given with the tab's size to
`sync_with_pane_tree`, makes a client tab with its panes in the same places and the same one active;
the offsets in the entries are these places.
-/

namespace Wakterm.Theorems.Mirror

open Wakterm.Machine Wakterm.Mux Wakterm.Bintree

/-- The client tab shows what the server tab shows. -/
def Mirrors (mux : MuxView) (dims : Pane → TerminalSize) (makePane : PaneEntry → Pane)
    (server client : TabInner) : Prop :=
  ∃ node client' ps qs, server.codecPaneTree mux dims = some node ∧
    client.syncWithPaneTree server.size node makePane = some client' ∧
    server.iterPanesIgnoringZoom = some (ps, server) ∧
    client'.iterPanesIgnoringZoom = some (qs, client') ∧
    -- the entries are for the server's panes, in order, and the client's panes are made for them
    node.intoTree.leaves.map (·.paneId) = ps.map (·.pane.paneId) ∧
    qs.map (·.pane) = node.intoTree.leaves.map makePane ∧
    -- same index, left, top, width, height and active flag
    qs.map (fun q => (q.place, q.isActive)) = ps.map (fun p => (p.place, p.isActive)) ∧
    -- the offsets written top-down are the offsets summed bottom-up
    node.intoTree.leaves.map (fun e => (e.leftCol, e.topRow)) = ps.map (fun p => (p.left, p.top))

theorem isActive_positioned (tab : TabInner) (t : PaneTree) :
    ∀ (p : Path Pane SplitDirectionAndSize) (i : Nat),
    (tab.positioned t p i).map (fun q => (q.place, q.isActive)) =
      ((tab.positioned t p i).map (·.place)).map fun pl => (pl, decide (pl.index = tab.active)) := by
  induction t with
  | empty => exact fun _ _ => rfl
  | leaf x => exact fun _ _ => rfl
  | node l r d ihl ihr =>
    intro p i
    simp only [TabInner.positioned, List.map_append, ihl, ihr]

variable {α β γ : Type}

theorem map_zipWith_left {f : α → γ} {xs : List α} {ys : List β} (h : xs.length ≤ ys.length)
    (g : α → β → γ) (hg : ∀ a b, g a b = f a := by intros; rfl) :
    List.zipWith g xs ys = xs.map f := by
  refine List.ext_getElem (by simp [h]) fun i h1 h2 => ?_
  simp [hg]

theorem map_zipWith_right {f : β → γ} {xs : List α} {ys : List β} (h : ys.length ≤ xs.length)
    (g : α → β → γ) (hg : ∀ a b, g a b = f b := by intros; rfl) :
    List.zipWith g xs ys = ys.map f := by
  refine List.ext_getElem (by simp [h]) fun i h1 h2 => ?_
  simp [hg]

theorem exists_of_mem_zipWith {g : α → β → γ} {xs : List α} {ys : List β} {c : γ}
    (h : c ∈ List.zipWith g xs ys) : ∃ a b, g a b = c := by
  obtain ⟨i, hi, rfl⟩ := List.mem_iff_getElem.mp h
  exact ⟨_, _, by rw [List.getElem_zipWith]⟩

theorem findIdx_active {entries : List PaneEntry} {makePane : PaneEntry → Pane} {k : Nat}
    {id : PaneId} (hids : (entries.map (·.paneId)).Nodup)
    (hk : (entries.map (·.paneId))[k]? = some id)
    (hflag : ∀ e ∈ entries, e.isActivePane = decide (some id = some e.paneId))
    (hmake : ∀ e e', (makePane e).paneId = (makePane e').paneId → e.paneId = e'.paneId) :
    ∃ e, (entries.filter (·.isActivePane)).getLast? = some e ∧
      (entries.map makePane).findIdx? ((makePane e).paneId = ·.paneId) = some k := by
  rw [List.getElem?_map, Option.map_eq_some_iff] at hk
  obtain ⟨e, hk, rfl⟩ := hk
  obtain ⟨hlt, hget⟩ := List.getElem?_eq_some_iff.mp hk
  -- ids are distinct, so an entry with this id is this entry
  have huniq : ∀ j (hj : j < entries.length), entries[j].paneId = e.paneId → j = k := by
    intro j hj hid
    refine (@List.Nodup.getElem_inj_iff _ _ hids j (by simpa using hj) k
      (by simpa using hlt)).mp ?_
    simp [hid, hget]
  refine ⟨e, ?_, ?_⟩
  · have hmem : e ∈ entries.filter (·.isActivePane) := by
      refine List.mem_filter.mpr ⟨List.mem_of_getElem? hk, ?_⟩
      rw [hflag e (List.mem_of_getElem? hk)]
      exact decide_eq_true rfl
    obtain ⟨e', he'⟩ := Option.isSome_iff_exists.mp
      (List.getLast?_isSome.mpr (List.ne_nil_of_mem hmem))
    obtain ⟨hmem', hact⟩ := List.mem_filter.mp (List.mem_of_getLast? he')
    rw [hflag e' hmem'] at hact
    obtain ⟨j, hj, rfl⟩ := List.mem_iff_getElem.mp hmem'
    have hjk : j = k := huniq j hj (by simpa using (of_decide_eq_true hact).symm)
    subst hjk
    rw [he', hget]
  · rw [List.findIdx?_eq_some_iff_getElem]
    refine ⟨by simpa using hlt, by simp [hget], fun j hj => ?_⟩
    simp only [List.getElem_map, decide_eq_true_eq]
    intro hsame
    have := huniq j (by omega) (hmake _ _ hsame).symm
    omega

/-- **Mirroring is faithful** for a tab that is not zoomed, has panes, all of
them with rows and columns, and one of them active. -/
theorem mirror_faithful {server client : TabInner} {root : PaneTree} {mux : MuxView}
    {dims : Pane → TerminalSize} {makePane : PaneEntry → Pane} {windowId : WindowId}
    {workspace : String} (h : server.Settled root) (hfull : root.Full)
    (hrange : server.size.InRange) (hids : (root.leaves.map (·.paneId)).Nodup)
    (hactive : server.active < root.numLeaves)
    (hwindow : mux.windowContainingTab server.id = some windowId)
    (hworkspace : mux.workspaceOfWindow windowId = some workspace)
    (hmake : ∀ e e', (makePane e).paneId = (makePane e').paneId → e.paneId = e'.paneId) :
    Mirrors mux dims makePane server client := by
  have ht := (tiled_iff root server.size).mpr ⟨hfull, h.tree.hasData, h.laidOut⟩
  have hcells : ∀ ax, server.size.cells ax < 2 ^ 64 := forall_axis hrange.cols hrange.rows
  have hplaces := place_positioned server root .top 0 ht trivial
  simp only [offsetSum, Nat.zero_mod, holeSize_top] at hplaces
  -- what the server writes
  obtain ⟨x, hx⟩ : ∃ x, root.leaves[server.active]? = some x :=
    Option.isSome_iff_exists.mp (by simp [hactive])
  let args : PaneTreeArgs :=
    { tabId := server.id
      windowId := windowId
      activePaneId := some x.paneId
      zoomed := none
      workspace := workspace
      dims := dims }
  obtain ⟨node, hnode, hentries, hgeom⟩ :=
    paneTree_eq args root h.tree.hasData 0 0 (by decide) (by decide)
  have hcodec : server.codecPaneTree mux dims = some node := by
    simp only [TabInner.codecPaneTree, TabInner.getActivePane_eq h.unzoomed h.pane (.inr hfull),
      hx, Option.bind_eq_bind, Option.bind_some, Option.map_some,
      TabInner.codecPaneTreeWithActivePaneId, hwindow, hworkspace, h.pane, h.unzoomed]
    exact hnode
  have hentries := hentries server.size 0
  have hlen : root.leaves.length = (places root 0 0 server.size 0).length := by
    rw [length_places root h.tree.hasData, BinTree.length_leaves]
  have hentryIds : node.intoTree.leaves.map (·.paneId) = root.leaves.map (·.paneId) := by
    rw [hentries, List.map_zipWith]
    exact map_zipWith_left hlen.le _
  have hoffsets : node.intoTree.leaves.map (fun e => (e.leftCol, e.topRow)) =
      (places root 0 0 server.size 0).map fun pl => (pl.left, pl.top) := by
    rw [hentries, List.map_zipWith]
    exact map_zipWith_right hlen.ge _
  have hflags : ∀ e ∈ node.intoTree.leaves,
      e.isActivePane = decide (some x.paneId = some e.paneId) ∧ e.isZoomedPane = false := by
    intro e he
    rw [hentries] at he
    obtain ⟨y, pl, rfl⟩ := exists_of_mem_zipWith he
    exact ⟨rfl, rfl⟩
  -- what the client reads
  obtain ⟨hleaves, hact, hzoom⟩ := buildFromPaneTree_eq makePane node.intoTree none none
  have hbuilt := hgeom makePane none none
  obtain ⟨e, hlast, hfound⟩ := @findIdx_active _ makePane server.active
    x.paneId (hentryIds ▸ hids)
    (by rw [hentryIds, List.getElem?_map, hx]; rfl) (fun e he => (hflags e he).1) hmake
  rw [hlast, Option.map_some, Option.some_or] at hact
  rw [List.filter_eq_nil_iff.mpr fun e he => by rw [(hflags e he).2]; exact Bool.false_ne_true,
    List.getLast?_nil, Option.map_none, Option.none_or] at hzoom
  generalize hbuild : buildFromPaneTree makePane node.intoTree none none = built at *
  obtain ⟨t, active, zoomed⟩ := built
  dsimp only at hleaves hact hzoom hbuilt
  subst hact hzoom
  have htiled := hbuilt.tiled _ ht
  have hfind := @findPane_cursor (makePane e).paneId _ htiled.full
  rw [hleaves, hfound] at hfind
  -- the resize to the same size moves nothing
  obtain ⟨hsame, hclamped⟩ := htiled.relaid_same hcells
  let synced : TabInner :=
    { client with
      pane := some t
      size := server.size
      active := server.active
      zoomed := none
      recency := client.recency.tag server.active }
  have hsync : client.syncWithPaneTree server.size node makePane =
      synced.resizeImpl server.size false := by
    simp only [TabInner.syncWithPaneTree, hbuild, hfind, Option.bind_eq_bind, Option.bind_some]
    rfl
  obtain ⟨cs, hrun, _⟩ := @TabInner.resizeImpl_unzoomed synced _ rfl rfl
    (.inr htiled.full) _ (fun ax => ht.one_le ax) false
  have hsame' := hbuilt.trans hsame
  have htiled' := (hsame'.tiled _ ht).of_cells fun ax => (hclamped ax).symm
  have hplaces' := place_positioned
    { synced with
      pane := some (relaid t server.size server.size)
      size := clampedSize t server.size
      calls := synced.calls ++ applySizesFromSplits (relaid t server.size server.size)
        (clampedSize t server.size) ++ cs }
    (relaid t server.size server.size) .top 0 htiled' trivial
  simp only [offsetSum, Nat.zero_mod, holeSize_top] at hplaces'
  rw [← places_congr hsame' 0 0 0 fun ax => (hclamped ax).symm, ← hplaces] at hplaces'
  refine ⟨node, _, _, _, hcodec, hsync.trans hrun,
    TabInner.iterPanesIgnoringZoom_eq h.pane (.inr hfull),
    TabInner.iterPanesIgnoringZoom_eq rfl (.inr htiled'.full), ?_, ?_, ?_, ?_⟩
  · rw [hentryIds, ← TabInner.pane_positioned server root .top 0, List.map_map]
    rfl
  · rw [TabInner.pane_positioned, leaves_eq_of_skeleton (skeleton_relaid t _ _), hleaves]
  · rw [isActive_positioned, isActive_positioned, hplaces']
  · rw [hoffsets, ← hplaces, List.map_map]
    rfl

/-- A tab in a window, with two panes side by side. -/
def pairTab (first second active : Nat) : TabInner :=
  { TabInner.new 0 ⟨24, 80, 800, 600, 96⟩ with
    pane := some (.node (.leaf ⟨0, 0⟩) (.leaf ⟨1, 0⟩)
      (some ⟨.horizontal, ⟨24, first, first * 10, 600, 96⟩,
        ⟨24, second, second * 10, 600, 96⟩⟩))
    active := active }

/-- Every tab is in window 0. -/
def oneWindow : MuxView := ⟨fun _ => some 0, fun _ => some "default"⟩

def clientPane (e : PaneEntry) : Pane := ⟨e.paneId + 100, 7⟩

/-- Two halves mirrored to a new client tab. -/
theorem mirror_faithful_pairTab :
    Mirrors oneWindow (fun _ => ⟨24, 80, 800, 600, 96⟩) clientPane (pairTab 39 40 1)
      (TabInner.new 9 ⟨10, 10, 100, 100, 96⟩) :=
  @mirror_faithful _ _ _ _ _ _ 0 "default"
    ⟨rfl, rfl, ⟨.inr (by decide), by decide⟩, by decide⟩ (by decide)
    ⟨by decide, by decide, by decide, by decide⟩ (by decide) (by decide) rfl rfl
    (by intro e e' h; simpa [clientPane] using h)

/-- Do server and client show the same? -/
def shownAlike (mux : MuxView) (dims : Pane → TerminalSize) (makePane : PaneEntry → Pane)
    (server client : TabInner) : Option Bool := do
  let node ← server.codecPaneTree mux dims
  let client ← client.syncWithPaneTree server.size node makePane
  let (ps, _) ← server.iterPanesIgnoringZoom
  let (qs, _) ← client.iterPanesIgnoringZoom
  some (decide (qs.map (fun q => (q.place, q.isActive)) =
    ps.map (fun p => (p.place, p.isActive))))

theorem Mirrors.shownAlike {mux : MuxView} {dims : Pane → TerminalSize}
    {makePane : PaneEntry → Pane} {server client : TabInner}
    (h : Mirrors mux dims makePane server client) :
    shownAlike mux dims makePane server client = some true := by
  obtain ⟨node, client', ps, qs, hcodec, hsync, hps, hqs, _, _, hsame, _⟩ := h
  simp [Mirror.shownAlike, hcodec, hsync, hps, hqs, hsame]

/-- A pane without columns gets one from the client, and when no pane is active
the client makes the first one active. -/
theorem mirror_differs_pairTab : (¬ ∀ (server client : TabInner) (root : PaneTree) (mux : MuxView)
        (dims : Pane → TerminalSize) (makePane : PaneEntry → Pane), server.zoomed = none →
        server.pane = some root → SplitTree root → root.Full → Consistent root server.size →
        server.size.InRange → (root.leaves.map (·.paneId)).Nodup → server.active < root.numLeaves →
        (∃ windowId workspace, mux.windowContainingTab server.id = some windowId ∧
          mux.workspaceOfWindow windowId = some workspace) →
        (∀ e e', (makePane e).paneId = (makePane e').paneId → e.paneId = e'.paneId) →
        Mirrors mux dims makePane server client) ∧
      ¬ ∀ (server client : TabInner) (root : PaneTree) (mux : MuxView)
        (dims : Pane → TerminalSize) (makePane : PaneEntry → Pane), server.Settled root →
        root.Full → server.size.InRange → (root.leaves.map (·.paneId)).Nodup →
        (∃ windowId workspace, mux.windowContainingTab server.id = some windowId ∧
          mux.workspaceOfWindow windowId = some workspace) →
        (∀ e e', (makePane e).paneId = (makePane e').paneId → e.paneId = e'.paneId) →
        Mirrors mux dims makePane server client := by
  have hmake : ∀ e e', (clientPane e).paneId = (clientPane e').paneId → e.paneId = e'.paneId := by
    intro e e' h
    simpa [clientPane] using h
  constructor
  · intro hall
    have hval : shownAlike oneWindow (fun _ => ⟨24, 80, 800, 600, 96⟩) clientPane
        (pairTab 79 0 0) (TabInner.new 9 ⟨10, 10, 100, 100, 96⟩) = some false := by
      decide
    have hmirrors := hall (pairTab 79 0 0) (TabInner.new 9 ⟨10, 10, 100, 100, 96⟩) _ oneWindow
      (fun _ => ⟨24, 80, 800, 600, 96⟩) clientPane rfl rfl ⟨.inr (by decide), by decide⟩
      (by decide) (by decide) ⟨by decide, by decide, by decide, by decide⟩ (by decide)
      (by decide) ⟨0, "default", rfl, rfl⟩ hmake
    rw [hmirrors.shownAlike] at hval
    cases hval
  · intro hall
    have hval : shownAlike oneWindow (fun _ => ⟨24, 80, 800, 600, 96⟩) clientPane
        (pairTab 39 40 5) (TabInner.new 9 ⟨10, 10, 100, 100, 96⟩) = some false := by
      decide
    have hmirrors := hall (pairTab 39 40 5) (TabInner.new 9 ⟨10, 10, 100, 100, 96⟩) _ oneWindow
      (fun _ => ⟨24, 80, 800, 600, 96⟩) clientPane
      ⟨rfl, rfl, ⟨.inr (by decide), by decide⟩, by decide⟩ (by decide)
      ⟨by decide, by decide, by decide, by decide⟩ (by decide) ⟨0, "default", rfl, rfl⟩ hmake
    rw [hmirrors.shownAlike] at hval
    cases hval

end Wakterm.Theorems.Mirror

/-!
## The windows that a client mirrors

Each list of panes gives every tab of the server a local tab, and puts it into the local window of
its window.
-/

namespace Wakterm.Theorems.PaneMirror

open Wakterm.Machine Wakterm.Mux Wakterm.Client.PaneList Wakterm.Client.PaneList.ClientInner

/-- The tabs of a list, each with its window. -/
def remoteTabs (panes : ListPanesResponse) : List (WindowId × TabId) :=
  panes.tabs.filterMap PaneNode.windowAndTabIds

/-- Each tab has a title, a badge and an id of its own. -/
structure WellFormed (panes : ListPanesResponse) : Prop where
  titles : panes.tabTitles.length = panes.tabs.length
  badges : panes.tabBadges.length = panes.tabs.length
  ids : ((remoteTabs panes).map (·.2)).Nodup

/-- **The client mirrors the list**: each tab has a local tab of its own, which is in the local
window of its window and in no other one; the tabs of each window are in the order of the list; and
no map has anything that is not listed. -/
structure Mirrors (panes : ListPanesResponse) (c : ClientInner) : Prop where
  shown : ∀ w t, (w, t) ∈ remoteTabs panes → ∃ lw lt, c.remoteToLocalWindow.get w = some lw ∧
    c.remoteToLocalTab.get t = some lt ∧ c.remoteTabToWindow.get t = some w ∧
    ∀ lw', lt ∈ c.tabsIn lw' ↔ lw' = lw
  distinct : ∀ t t' lt, c.remoteToLocalTab.get t = some lt → c.remoteToLocalTab.get t' = some lt →
    t = t'
  order : ∀ w lw, c.remoteToLocalWindow.get w = some lw →
    ((((remoteTabs panes).filter (·.1 = w)).map (·.2)).filterMap c.remoteToLocalTab.get).Sublist
      (c.tabsIn lw)
  windows : ∀ w, c.remoteToLocalWindow.get w ≠ none → w ∈ (remoteTabs panes).map (·.1)
  tabs : ∀ t, c.remoteToLocalTab.get t ≠ none → t ∈ (remoteTabs panes).map (·.2)
  homes : ∀ t, c.remoteTabToWindow.get t ≠ none → t ∈ (remoteTabs panes).map (·.2)

/-- No tab of both lists is in another window in the second one. -/
def Stays (before after : ListPanesResponse) : Prop :=
  ∀ w w' t, (w, t) ∈ remoteTabs before → (w', t) ∈ remoteTabs after → w = w'

/-- After each of the lists that it has got, the client mirrors that list. -/
def MirrorsEach (c : ClientInner) (lists : List ListPanesResponse) : Prop :=
  ∀ done panes rest, lists = done ++ panes :: rest →
    ∀ c', c.processAll (done ++ [panes]) = .ok c' → Mirrors panes c'

variable {c c' : ClientInner} {panes : ListPanesResponse} {lists : List ListPanesResponse}
  {before : List (WindowId × TabId)}

theorem listed_eq (h : WellFormed panes) : panes.listed = panes.tabs := by
  unfold ListPanesResponse.listed
  have hinner : (panes.tabs.zip panes.tabTitles).map (·.1) = panes.tabs :=
    List.map_fst_zip (Nat.le_of_eq h.titles.symm)
  have houter : ((panes.tabs.zip panes.tabTitles).zip panes.tabBadges).map (·.1) =
      panes.tabs.zip panes.tabTitles := by
    refine List.map_fst_zip ?_
    rw [List.length_zip, h.titles, h.badges, Nat.min_self]
  calc ((panes.tabs.zip panes.tabTitles).zip panes.tabBadges).map (·.1.1)
      = (((panes.tabs.zip panes.tabTitles).zip panes.tabBadges).map (·.1)).map (·.1) := by
        rw [List.map_map]
        rfl
    _ = panes.tabs := by rw [houter, hinner]

theorem mirrors_iff (h : c.Follows (remoteTabs panes)) :
    Mirrors panes c ↔ c.Exclusive (remoteTabs panes) := by
  constructor
  · intro hmirrors p hp lw lt hlw hlt lw' hmem
    obtain ⟨lw₁, lt₁, hlw₁, hlt₁, -, honly⟩ := hmirrors.shown p.1 p.2 hp
    cases hlw.symm.trans hlw₁
    cases hlt.symm.trans hlt₁
    exact (honly lw').mp hmem
  · intro hexclusive
    refine ⟨fun w t hp => ?_, h.sound.tabInj, fun w lw hlw => h.order w lw hlw, h.windowsOnly,
      h.tabsOnly, h.homesOnly⟩
    obtain ⟨lw, lt, hlw, hlt, hmem⟩ := h.placed (w, t) hp
    refine ⟨lw, lt, hlw, hlt, h.homes (w, t) hp, fun lw' => ⟨hexclusive (w, t) hp lw lt hlw hlt lw',
      ?_⟩⟩
    rintro rfl
    exact hmem

theorem steady_iff {after : ListPanesResponse} :
    Steady (remoteTabs panes) (remoteTabs after) ↔ Stays panes after := by
  constructor
  · intro h w w' t hw hw'
    exact h (w, t) hw (w', t) hw' rfl
  · intro h p hp q hq heq
    exact h p.1 q.1 p.2 hp (heq ▸ hq)

theorem processAll_cons (c : ClientInner) (panes : ListPanesResponse)
    (lists : List ListPanesResponse) :
    c.processAll (panes :: lists) = c.processPaneList panes none >>= fun c' =>
      c'.processAll lists := List.foldlM_cons

theorem mirrorsEach_cons (hrun : c.processPaneList panes none = .ok c') :
    MirrorsEach c (panes :: lists) ↔ Mirrors panes c' ∧ MirrorsEach c' lists := by
  constructor
  · intro h
    refine ⟨h [] panes lists rfl c' ?_, fun done next rest hlists c₂ hc₂ => ?_⟩
    · rw [List.nil_append, processAll_cons, hrun]
      rfl
    · refine h (panes :: done) next rest (by rw [hlists]; rfl) c₂ ?_
      rw [List.cons_append, processAll_cons, hrun]
      exact hc₂
  · rintro ⟨hfirst, hrest⟩ done next rest hlists c₂ hc₂
    cases done with
    | nil =>
      obtain ⟨rfl, rfl⟩ := List.cons.inj hlists
      rw [List.nil_append, processAll_cons, hrun] at hc₂
      cases hc₂
      exact hfirst
    | cons first done =>
      obtain ⟨rfl, rfl⟩ := List.cons.inj hlists
      rw [List.cons_append, processAll_cons, hrun] at hc₂
      exact hrest done next rest rfl c₂ hc₂

theorem comes_list (hbefore : c.Follows before) (hwell : WellFormed panes) :
    Comes (fun c' => c'.Follows (remoteTabs panes) ∧
        (c'.Exclusive (remoteTabs panes) → Steady before (remoteTabs panes)) ∧
        (c.Exclusive before → Steady before (remoteTabs panes) → c'.Exclusive (remoteTabs panes)))
      (c.processPaneList panes none) := by
  refine comes_processPaneList hbefore ?_ hwell.ids
  rw [listed_eq hwell]
  rfl

theorem comes_run (hbefore : c.Follows before) (hlists : ∀ panes ∈ lists, WellFormed panes) :
    Comes (fun _ => True) (c.processAll lists) := by
  induction lists generalizing c before with
  | nil => trivial
  | cons panes lists ih =>
    rw [processAll_cons]
    refine Comes.bind (comes_list hbefore (hlists panes List.mem_cons_self)) fun c' h => ?_
    exact ih h.1 fun next hnext => hlists next (List.mem_cons_of_mem _ hnext)

/-- Runs, from a client that follows a list and has no tab of it in two windows. The induction is on
the lists to come. -/
theorem comes_processAll (hbefore : c.Follows before) (hexclusive : c.Exclusive before)
    (hlists : ∀ panes ∈ lists, WellFormed panes) :
    Comes (fun _ => MirrorsEach c lists ↔ (before :: lists.map remoteTabs).IsChain Steady)
      (c.processAll lists) := by
  induction lists generalizing c before with
  | nil =>
    refine ⟨fun _ => .singleton before, fun _ done panes rest h => ?_⟩
    exact absurd h (by simp)
  | cons panes lists ih =>
    have hstep := comes_list hbefore (hlists panes List.mem_cons_self)
    have hrest : ∀ panes ∈ lists, WellFormed panes :=
      fun next hnext => hlists next (List.mem_cons_of_mem _ hnext)
    rw [processAll_cons, List.map_cons, List.isChain_cons_cons]
    cases hrun : c.processPaneList panes none with
    | error fault => exact hstep.error hrun
    | ok c' =>
      obtain ⟨hfollows, hmoved, hsteady⟩ := hstep.ok hrun
      rw [mirrorsEach_cons hrun, mirrors_iff hfollows]
      by_cases hexclusive' : c'.Exclusive (remoteTabs panes)
      · refine (ih hfollows hexclusive' hrest).imp fun _ h => ?_
        rw [h]
        exact ⟨fun hboth => ⟨hmoved hboth.1, hboth.2⟩, fun hboth => ⟨hexclusive', hboth.2⟩⟩
      · -- a tab is in two windows, and a tab has moved
        refine (comes_run hfollows hrest).imp fun _ _ => ?_
        exact ⟨fun hboth => absurd hboth.1 hexclusive',
          fun hboth => absurd (hsteady hexclusive hboth.1) hexclusive'⟩

/-- **Lists of panes, one after the other.** Nothing fails but a tab that is given its tree; and the
client mirrors each list after it has got it, if and only if no tab is ever in another window than
in the list before. -/
theorem mirrors_each_iff (localDomainId : DomainId) (mux : LocalMux) (hmux : mux.Sound)
    (lists : List ListPanesResponse) (hlists : ∀ panes ∈ lists, WellFormed panes) :
    (∀ fault, (attached localDomainId mux).processAll lists = .error fault → fault = .paneTree) ∧
    ∀ c, (attached localDomainId mux).processAll lists = .ok c →
      (MirrorsEach (attached localDomainId mux) lists ↔ lists.IsChain Stays) := by
  have hnone : ∀ (key : Nat) (value : Nat), (KeyMap.empty : KeyMap Nat Nat).get key ≠ some value :=
    fun key value h => by cases h
  have hsound : (attached localDomainId mux).Sound :=
    ⟨hmux, fun t lt h => absurd h (hnone t lt), fun w lw h => absurd h (hnone w lw),
      fun t t' lt h => absurd h (hnone t lt), fun w w' lw h => absurd h (hnone w lw)⟩
  have hfollows : (attached localDomainId mux).Follows [] :=
    ⟨hsound, fun p hp => absurd hp List.not_mem_nil, fun p hp => absurd hp List.not_mem_nil,
      fun w lw h => absurd h (hnone w lw), fun w h => absurd rfl h, fun t h => absurd rfl h,
      fun t h => absurd rfl h⟩
  have hexclusive : (attached localDomainId mux).Exclusive [] :=
    fun p hp => absurd hp List.not_mem_nil
  have hcomes := comes_processAll hfollows hexclusive hlists
  refine ⟨fun fault h => hcomes.error h, fun c h => (hcomes.ok h).trans ?_⟩
  have hfirst : ∀ next, Steady [] next := fun next p hp => absurd hp List.not_mem_nil
  have hchain : ((lists.map remoteTabs).IsChain Steady) ↔ lists.IsChain Stays := by
    rw [List.isChain_map]
    exact List.IsChain.iff fun _ _ => steady_iff
  rw [← hchain]
  cases lists with
  | nil => exact ⟨fun _ => .nil, fun _ => .singleton _⟩
  | cons panes lists =>
    rw [List.map_cons, List.isChain_cons_cons]
    exact ⟨fun h => h.2, fun h => ⟨hfirst _, h⟩⟩

/-! ### Two tabs -/

/-- A mux without windows, tabs and panes. -/
def bareMux : LocalMux where
  windows := .empty
  tabs := .empty
  panes := .empty
  nextWindowId := 0
  nextTabId := 0
  nextPaneId := 0
  activeWorkspace := "default"

def loneTab (w t p : Nat) : PaneNode :=
  .leaf ⟨w, t, p, ⟨24, 80, 800, 600, 96⟩, true, false, "default", 0, 0⟩

/-- The tabs 101 and 102, the second of them in window 1. -/
def twoTabs (w : WindowId) : ListPanesResponse where
  tabs := [loneTab w 101 1001, loneTab 1 102 1002]
  tabTitles := ["first", "second"]
  tabBadges := [⟨false, false⟩, ⟨false, false⟩]
  parkedTabIds := []
  windowTitles := .empty

/-- The client when it has got some lists. -/
def clientAfter (lists : List ListPanesResponse) : ClientInner :=
  (((attached 7 bareMux).processAll lists).toOption).getD (attached 7 bareMux)

theorem sound_bareMux : bareMux.Sound := by
  have hnone : ∀ (lw : WindowId) (w : LocalWindow), bareMux.windows.get lw ≠ some w :=
    fun lw w h => by cases h
  exact ⟨fun lw w h => absurd h (hnone lw w), fun lw w h => absurd h (hnone lw w),
    fun lw w h => absurd h (hnone lw w)⟩

theorem wellFormed_twoTabs (w : WindowId) : WellFormed (twoTabs w) := by
  refine ⟨rfl, rfl, ?_⟩
  show [101, 102].Nodup
  decide

/-- Both tabs stay where they are. -/
theorem mirrors_each_iff_twoTabs : MirrorsEach (attached 7 bareMux) [twoTabs 1, twoTabs 1] := by
  have hrun : (attached 7 bareMux).processAll [twoTabs 1, twoTabs 1] =
      .ok (clientAfter [twoTabs 1, twoTabs 1]) := by decide
  have hlists : ∀ panes ∈ [twoTabs 1, twoTabs 1], WellFormed panes := by
    intro panes hpanes
    simp only [List.mem_cons, List.not_mem_nil, or_false, or_self] at hpanes
    exact hpanes ▸ wellFormed_twoTabs 1
  refine ((mirrors_each_iff 7 bareMux sound_bareMux _ hlists).2 _ hrun).mpr ?_
  refine List.isChain_cons_cons.mpr ⟨?_, .singleton _⟩
  refine steady_iff.mp ?_
  unfold Steady
  decide

/-- Tab 101 goes from window 1 to window 2: its local tab is in the local windows of both. -/
theorem moved_tab_in_two_windows : (attached 7 bareMux).processAll [twoTabs 1, twoTabs 2] =
        .ok (clientAfter [twoTabs 1, twoTabs 2]) ∧
      (clientAfter [twoTabs 1, twoTabs 2]).remoteToLocalTab.get 101 = some 0 ∧
      (clientAfter [twoTabs 1, twoTabs 2]).remoteToLocalWindow.get 2 = some 1 ∧
      (clientAfter [twoTabs 1, twoTabs 2]).tabsIn 0 = [0, 1] ∧
      (clientAfter [twoTabs 1, twoTabs 2]).tabsIn 1 = [0] ∧
      ¬ Mirrors (twoTabs 2) (clientAfter [twoTabs 1, twoTabs 2]) := by
  have htab : (clientAfter [twoTabs 1, twoTabs 2]).remoteToLocalTab.get 101 = some 0 := by
    decide
  have hwindow : (clientAfter [twoTabs 1, twoTabs 2]).remoteToLocalWindow.get 2 = some 1 := by
    decide
  have hold : (clientAfter [twoTabs 1, twoTabs 2]).tabsIn 0 = [0, 1] := by decide
  refine ⟨by decide, htab, hwindow, hold, by decide, fun h => ?_⟩
  obtain ⟨lw, lt, hlw, hlt, -, honly⟩ := h.shown 2 101 (by decide)
  cases hwindow.symm.trans hlw
  cases htab.symm.trans hlt
  have hsame := (honly 0).mp (by rw [hold]; exact List.mem_cons_self)
  cases hsame

end Wakterm.Theorems.PaneMirror
