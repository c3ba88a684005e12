import Wakterm.Client.PaneList
import Wakterm.Mux.Logic.Window

/-!
# What a list of panes does to the windows and the maps

The loop over the tabs only adds: a tab or a window that is not known gets a local one with a new
id, and a local tab is put into the local window of its window if it is not there.
-/

namespace Wakterm.Client.PaneList

open Wakterm.Machine Wakterm.Mux

/-! ## What comes through -/

/-- What comes through is so, and nothing fails but a tab that is given its tree. -/
def Comes {α : Type} (P : α → Prop) : Except Fault α → Prop
  | .ok a => P a
  | .error fault => fault = .paneTree

section Comes

variable {α β : Type} {P : α → Prop} {Q : β → Prop} {x : Except Fault α}

theorem Comes.bind {f : α → Except Fault β} (h : Comes P x) (hf : ∀ a, P a → Comes Q (f a)) :
    Comes Q (x >>= f) := by
  cases x with
  | error fault => exact h
  | ok a => exact hf a h

theorem Comes.map {f : α → β} (h : Comes P x) (hf : ∀ a, P a → Q (f a)) : Comes Q (x.map f) := by
  cases x with
  | error fault => exact h
  | ok a => exact hf a h

theorem Comes.imp {P' : α → Prop} (h : Comes P x) (hP : ∀ a, P a → P' a) : Comes P' x := by
  cases x with
  | error fault => exact h
  | ok a => exact hP a h

theorem Comes.error (h : Comes P x) {fault : Fault} (hx : x = .error fault) :
    fault = .paneTree := by
  subst hx
  exact h

theorem Comes.ok (h : Comes P x) {a : α} (hx : x = .ok a) : P a := by
  subst hx
  exact h

end Comes

/-! ## Invariants -/

/-- The ids of the mux have been given out, and the tabs of each window are different ones. -/
structure LocalMux.Sound (mux : LocalMux) : Prop where
  below : ∀ lw w, mux.windows.get lw = some w → lw < mux.nextWindowId
  windows : ∀ lw w, mux.windows.get lw = some w → w.window.Sound id
  tabs : ∀ lw w, mux.windows.get lw = some w → ∀ lt ∈ w.window.tabs, lt < mux.nextTabId

/-- The maps lead to what there is, and nothing is shared. -/
structure ClientInner.Sound (c : ClientInner) : Prop where
  mux : c.mux.Sound
  tabs : ∀ t lt, c.remoteToLocalTab.get t = some lt →
    (c.mux.tabs.get lt).isSome = true ∧ lt < c.mux.nextTabId
  windows : ∀ w lw, c.remoteToLocalWindow.get w = some lw → (c.mux.windows.get lw).isSome = true
  tabInj : ∀ t t' lt, c.remoteToLocalTab.get t = some lt → c.remoteToLocalTab.get t' = some lt →
    t = t'
  windowInj : ∀ w w' lw, c.remoteToLocalWindow.get w = some lw →
    c.remoteToLocalWindow.get w' = some lw → w = w'

namespace ClientInner

variable {c c' c'' : ClientInner}

/-- The tabs of a local window. -/
def tabsIn (c : ClientInner) (lw : WindowId) : List TabId :=
  ((c.mux.windows.get lw).map fun w => w.window.tabs).getD []

variable {lw next w : WindowId} {lt t : TabId} {win : LocalWindow}

theorem tabsIn_eq {w : LocalWindow} (h : c.mux.windows.get lw = some w) :
    c.tabsIn lw = w.window.tabs := by
  unfold tabsIn
  rw [h]
  rfl

theorem mem_tabsIn :
    lt ∈ c.tabsIn lw ↔ ∃ w, c.mux.windows.get lw = some w ∧ lt ∈ w.window.tabs := by
  unfold tabsIn
  cases c.mux.windows.get lw with
  | none => simp
  | some w => simp

/-- Nothing but panes and trees has changed. -/
structure SameTabs (c c' : ClientInner) : Prop where
  windows : c'.mux.windows = c.mux.windows
  nextWindowId : c'.mux.nextWindowId = c.mux.nextWindowId
  nextTabId : c'.mux.nextTabId = c.mux.nextTabId
  tabs : ∀ lt, (c.mux.tabs.get lt).isSome = true → (c'.mux.tabs.get lt).isSome = true
  windowMap : c'.remoteToLocalWindow = c.remoteToLocalWindow
  tabMap : c'.remoteToLocalTab = c.remoteToLocalTab
  homes : c'.remoteTabToWindow = c.remoteTabToWindow

theorem SameTabs.refl (c : ClientInner) : SameTabs c c :=
  ⟨rfl, rfl, rfl, fun _ => id, rfl, rfl, rfl⟩

theorem SameTabs.trans (h : SameTabs c c') (h' : SameTabs c' c'') : SameTabs c c'' :=
  ⟨h'.windows.trans h.windows, h'.nextWindowId.trans h.nextWindowId,
    h'.nextTabId.trans h.nextTabId, fun lt hlt => h'.tabs lt (h.tabs lt hlt),
    h'.windowMap.trans h.windowMap, h'.tabMap.trans h.tabMap, h'.homes.trans h.homes⟩

theorem SameTabs.tabsIn (h : SameTabs c c') (lw : WindowId) : c'.tabsIn lw = c.tabsIn lw := by
  unfold ClientInner.tabsIn
  rw [h.windows]

theorem SameTabs.sound (h : SameTabs c c') (hc : c.Sound) : c'.Sound := by
  obtain ⟨⟨hbelow, hwindow, htab⟩, htabs, hwindows, htabInj, hwindowInj⟩ := hc
  refine ⟨⟨?_, ?_, ?_⟩, ?_, ?_, ?_, ?_⟩
  · rw [h.windows, h.nextWindowId]
    exact hbelow
  · rw [h.windows]
    exact hwindow
  · rw [h.windows, h.nextTabId]
    exact htab
  · rw [h.tabMap, h.nextTabId]
    intro t lt hlt
    exact ⟨h.tabs lt (htabs t lt hlt).1, (htabs t lt hlt).2⟩
  · rw [h.windowMap, h.windows]
    exact hwindows
  · rw [h.tabMap]
    exact htabInj
  · rw [h.windowMap]
    exact hwindowInj

/-! ## Panes -/

theorem sameTabs_remoteToLocalPaneId (c : ClientInner) (remotePaneId : PaneId) :
    SameTabs c (c.remoteToLocalPaneId remotePaneId).2 := by
  unfold remoteToLocalPaneId
  split
  · exact .refl c
  · split
    · exact ⟨rfl, rfl, rfl, fun _ => id, rfl, rfl, rfl⟩
    · exact .refl c

theorem sameTabs_newPane (c : ClientInner) (remotePaneId : PaneId) :
    SameTabs c (c.newPane remotePaneId).2 := ⟨rfl, rfl, rfl, fun _ => id, rfl, rfl, rfl⟩

theorem sameTabs_localPane (c : ClientInner) (entry : PaneEntry) :
    SameTabs c (c.localPane entry).2 := by
  have hfound := sameTabs_remoteToLocalPaneId c entry.paneId
  unfold localPane
  split
  · next paneId c1 heq =>
    rw [heq] at hfound
    split
    · exact hfound
    · have hdropped : SameTabs c1 { c1 with
          remoteToLocalPane := c1.remoteToLocalPane.erase entry.paneId } :=
        ⟨rfl, rfl, rfl, fun _ => id, rfl, rfl, rfl⟩
      exact (hfound.trans hdropped).trans (sameTabs_newPane _ _)
  · next c1 heq =>
    rw [heq] at hfound
    exact hfound.trans (sameTabs_newPane _ _)

theorem sameTabs_localPanes (c : ClientInner) (entries : List PaneEntry) :
    SameTabs c (c.localPanes entries).2 := by
  induction entries generalizing c with
  | nil => exact .refl c
  | cons entry entries ih => exact (sameTabs_localPane c entry).trans (ih _)

theorem comes_syncWithPaneTree (c : ClientInner) (tabId : TabId) (size : TerminalSize)
    (root : PaneNode) : Comes (SameTabs c) (c.syncWithPaneTree tabId size root) := by
  have hpanes := sameTabs_localPanes c root.leafEntries
  unfold syncWithPaneTree
  dsimp only
  split
  · rfl
  · split
    · rfl
    · refine hpanes.trans ⟨rfl, rfl, rfl, fun lt hlt => ?_, rfl, rfl, rfl⟩
      dsimp only
      rw [KeyMap.get_insert]
      split
      · rfl
      · exact hlt

/-! ## A tab and its window -/

/-- A tab of the server has its local tab, which is a new one if it had none. -/
structure Adds (c c' : ClientInner) (t : TabId) (lt : TabId) : Prop where
  sound : c'.Sound
  windows : c'.mux.windows = c.mux.windows
  windowMap : c'.remoteToLocalWindow = c.remoteToLocalWindow
  homes : c'.remoteTabToWindow = c.remoteTabToWindow
  nextTabId : c.mux.nextTabId ≤ c'.mux.nextTabId
  mapped : c'.remoteToLocalTab.get t = some lt
  kept : ∀ t lt, c.remoteToLocalTab.get t = some lt → c'.remoteToLocalTab.get t = some lt
  new : ∀ t' lt, c'.remoteToLocalTab.get t' = some lt →
    c.remoteToLocalTab.get t' = some lt ∨ (t' = t ∧ c.mux.nextTabId ≤ lt)

theorem adds_newTab (hc : c.Sound) (hnew : c.remoteToLocalTab.get t = none) (size : TerminalSize) :
    Adds c (c.newTab t size).2 t (c.newTab t size).1 := by
  obtain ⟨⟨hbelow, hwindow, htab⟩, htabs, hwindows, htabInj, hwindowInj⟩ := hc
  have hget : ∀ t', (c.newTab t size).2.remoteToLocalTab.get t' =
      if t' = t then some c.mux.nextTabId else c.remoteToLocalTab.get t' :=
    fun t' => KeyMap.get_insert _ _ _ _
  refine ⟨⟨⟨hbelow, hwindow, ?_⟩, ?_, hwindows, ?_, hwindowInj⟩, rfl, rfl, rfl,
    Nat.le_succ _, ?_, ?_, ?_⟩
  · intro lw w hw lt hlt
    exact Nat.lt_succ_of_lt (htab lw w hw lt hlt)
  · intro t' lt hlt
    show (((c.mux.newTab size).tabs.get lt).isSome = true) ∧ lt < c.mux.nextTabId + 1
    have htabsGet : (c.mux.newTab size).tabs.get lt =
        if lt = c.mux.nextTabId then some (.new c.mux.nextTabId size) else c.mux.tabs.get lt :=
      KeyMap.get_insert _ _ _ _
    rw [htabsGet]
    rw [hget] at hlt
    split at hlt
    · cases hlt
      rw [if_pos rfl]
      exact ⟨rfl, Nat.lt_succ_self _⟩
    · have hold := htabs t' lt hlt
      rw [if_neg (Nat.ne_of_lt hold.2)]
      exact ⟨hold.1, Nat.lt_succ_of_lt hold.2⟩
  · intro t₁ t₂ lt h₁ h₂
    rw [hget] at h₁ h₂
    -- an id that is given out now is no other tab's
    split at h₁
    · next heq₁ =>
      cases h₁
      split at h₂
      · next heq₂ => exact heq₁.trans heq₂.symm
      · exact absurd (htabs t₂ _ h₂).2 (Nat.lt_irrefl _)
    · split at h₂
      · cases h₂
        exact absurd (htabs t₁ _ h₁).2 (Nat.lt_irrefl _)
      · exact htabInj t₁ t₂ lt h₁ h₂
  · rw [hget, if_pos rfl]
    rfl
  · intro t' lt hlt
    rw [hget, if_neg, hlt]
    rintro rfl
    rw [hnew] at hlt
    cases hlt
  · intro t' lt hlt
    rw [hget] at hlt
    split at hlt
    · next heq => exact .inr ⟨heq, Nat.le_of_eq (Option.some.inj hlt)⟩
    · exact .inl hlt

theorem adds_localTab (hc : c.Sound) (t : TabId) (size : TerminalSize) :
    Adds c (c.localTab t size).2 t (c.localTab t size).1 := by
  unfold localTab
  split
  · next lt hlt =>
    -- the local tab of a tab is in the mux
    rw [if_pos (hc.tabs t lt hlt).1]
    exact ⟨hc, rfl, rfl, rfl, Nat.le_refl _, hlt, fun _ _ => id, fun _ _ => .inl⟩
  · next hnone => exact adds_newTab hc hnone size

/-- A local tab is in the local window of its window, which is a new one if there was none. -/
structure Puts (c c' : ClientInner) (w : WindowId) (lt : TabId) : Prop where
  sound : c'.Sound
  nextTabId : c'.mux.nextTabId = c.mux.nextTabId
  tabMap : c'.remoteToLocalTab = c.remoteToLocalTab
  homes : c'.remoteTabToWindow = c.remoteTabToWindow
  placed : ∃ lw, c'.remoteToLocalWindow.get w = some lw ∧ lt ∈ c'.tabsIn lw
  windowsKept : ∀ w lw, c.remoteToLocalWindow.get w = some lw →
    c'.remoteToLocalWindow.get w = some lw
  windowsNew : ∀ w' lw, c'.remoteToLocalWindow.get w' = some lw →
    c.remoteToLocalWindow.get w' = some lw ∨ w' = w
  kept : ∀ lw lt, lt ∈ c.tabsIn lw → lt ∈ c'.tabsIn lw
  new : ∀ lw lt', lt' ∈ c'.tabsIn lw →
    lt' ∈ c.tabsIn lw ∨ (c'.remoteToLocalWindow.get w = some lw ∧ lt' = lt)

theorem ids_id (w : Window TabId) : w.ids id = w.tabs := List.map_id _

theorem pushTab_eq_ok {mux : LocalMux} (hnew : lt ∉ win.window.tabs) :
    mux.pushTab lw win lt = .ok { mux with windows := mux.windows.insert lw { win with
      window := { win.window with tabs := win.window.tabs ++ [lt] } } } := by
  have hids : id lt ∉ win.window.ids id := by
    rw [ids_id]
    exact hnew
  unfold LocalMux.pushTab Window.push
  rw [if_neg hids]

theorem sound_push {w : Window TabId} (h : w.Sound id) (hnew : lt ∉ w.tabs) :
    ({ w with tabs := w.tabs ++ [lt] } : Window TabId).Sound id := by
  have hids : id lt ∉ w.ids id := by
    rw [ids_id]
    exact hnew
  have hadded : Window.Added lt w { w with tabs := w.tabs ++ [lt] } :=
    ⟨List.perm_append_singleton lt w.tabs, rfl⟩
  exact hadded.sound hids h

theorem sound_insertWindow {mux : LocalMux} (h : mux.Sound) (hnext : mux.nextWindowId ≤ next)
    (hlw : lw < next) (hwin : win.window.Sound id)
    (htabs : ∀ lt ∈ win.window.tabs, lt < mux.nextTabId) :
    ({ mux with windows := mux.windows.insert lw win, nextWindowId := next } : LocalMux).Sound := by
  have hget : ∀ lw' w, (mux.windows.insert lw win).get lw' = some w →
      (lw' = lw ∧ w = win) ∨ mux.windows.get lw' = some w := by
    intro lw' w hw
    rw [KeyMap.get_insert] at hw
    split at hw
    · next heq => exact .inl ⟨heq, (Option.some.inj hw).symm⟩
    · exact .inr hw
  refine ⟨?_, ?_, ?_⟩
  · intro lw' w hw
    rcases hget lw' w hw with ⟨rfl, -⟩ | hw
    · exact hlw
    · exact Nat.lt_of_lt_of_le (h.below lw' w hw) hnext
  · intro lw' w hw
    rcases hget lw' w hw with ⟨-, rfl⟩ | hw
    · exact hwin
    · exact h.windows lw' w hw
  · intro lw' w hw
    rcases hget lw' w hw with ⟨-, rfl⟩ | hw
    · exact htabs
    · exact h.tabs lw' w hw

/-- The mux with a window that is new or takes the place of another one. -/
def setWindow (c : ClientInner) (lw next : WindowId) (win : LocalWindow) : ClientInner :=
  { c with mux := { c.mux with windows := c.mux.windows.insert lw win, nextWindowId := next } }

theorem tabsIn_setWindow (c : ClientInner) (lw next lw' : WindowId) (win : LocalWindow) :
    (c.setWindow lw next win).tabsIn lw' = if lw' = lw then win.window.tabs else c.tabsIn lw' := by
  have hget : (c.setWindow lw next win).mux.windows.get lw' =
      if lw' = lw then some win else c.mux.windows.get lw' := KeyMap.get_insert _ _ _ _
  unfold tabsIn
  rw [hget]
  split
  · rfl
  · rfl

theorem isSome_setWindow {lw' : WindowId} (h : (c.mux.windows.get lw').isSome = true) :
    ((c.setWindow lw next win).mux.windows.get lw').isSome = true := by
  show ((c.mux.windows.insert lw win).get lw').isSome = true
  rw [KeyMap.get_insert]
  split
  · rfl
  · exact h

theorem puts_known (hc : c.Sound) (hw : c.remoteToLocalWindow.get w = some lw)
    (hwin : c.mux.windows.get lw = some win) (hlt : lt < c.mux.nextTabId)
    (hnew : lt ∉ win.window.tabs) : Puts c (c.setWindow lw c.mux.nextWindowId
      { win with window := { win.window with tabs := win.window.tabs ++ [lt] } }) w lt := by
  have htabs : ∀ lt' ∈ win.window.tabs ++ [lt], lt' < c.mux.nextTabId := by
    intro lt' hlt'
    rcases List.mem_append.mp hlt' with hold | hlast
    · exact hc.mux.tabs lw win hwin lt' hold
    · rw [List.mem_singleton.mp hlast]
      exact hlt
  have hmux : (c.setWindow lw c.mux.nextWindowId
      { win with window := { win.window with tabs := win.window.tabs ++ [lt] } }).mux.Sound :=
    sound_insertWindow hc.mux (Nat.le_refl _) (hc.mux.below lw win hwin)
      (sound_push (hc.mux.windows lw win hwin) hnew) htabs
  refine ⟨⟨hmux, hc.tabs, fun w' lw' h => isSome_setWindow (hc.windows w' lw' h), hc.tabInj,
    hc.windowInj⟩, rfl, rfl, rfl, ⟨lw, hw, ?_⟩, fun _ _ => id, fun _ _ => .inl, ?_, ?_⟩
  · rw [tabsIn_setWindow, if_pos rfl]
    exact List.mem_append_right _ (List.mem_singleton_self lt)
  · intro lw' lt' hlt'
    rw [tabsIn_setWindow]
    split
    · next heq =>
      rw [heq, tabsIn_eq hwin] at hlt'
      exact List.mem_append_left _ hlt'
    · exact hlt'
  · intro lw' lt' hlt'
    rw [tabsIn_setWindow] at hlt'
    split at hlt'
    · next heq =>
      rcases List.mem_append.mp hlt' with hold | hlast
      · rw [heq, tabsIn_eq hwin]
        exact .inl hold
      · exact .inr ⟨heq ▸ hw, List.mem_singleton.mp hlast⟩
    · exact .inl hlt'

theorem addTabToWindow_eq_ok (hwin : c.mux.windows.get lw = some win) (hnew : lt ∉ win.window.tabs)
    : ((c.mux.addTabToWindow lt lw).map fun mux => { c with mux := mux }) =
      .ok (c.setWindow lw c.mux.nextWindowId
        { win with window := { win.window with tabs := win.window.tabs ++ [lt] } }) := by
  unfold LocalMux.addTabToWindow
  rw [hwin]
  dsimp only
  rw [pushTab_eq_ok hnew]
  rfl

/-- The empty window that a window of the server is given. -/
def openWindow (c : ClientInner) (w : WindowId) (workspace : String) : ClientInner :=
  (c.setWindow c.mux.nextWindowId (c.mux.nextWindowId + 1)
    ⟨.new c.mux.nextWindowId, workspace, ""⟩).recordRemoteToLocalWindowMapping w c.mux.nextWindowId

theorem get_openWindow (c : ClientInner) (w w' : WindowId) (workspace : String) :
    (c.openWindow w workspace).remoteToLocalWindow.get w' =
      if w' = w then some c.mux.nextWindowId else c.remoteToLocalWindow.get w' :=
  KeyMap.get_insert _ _ _ _

theorem Sound.noWindow (hc : c.Sound) : c.mux.windows.get c.mux.nextWindowId = none := by
  cases h : c.mux.windows.get c.mux.nextWindowId with
  | none => rfl
  | some win => exact absurd (hc.mux.below _ win h) (Nat.lt_irrefl _)

theorem tabsIn_openWindow (hc : c.Sound) (w lw : WindowId) (workspace : String) :
    (c.openWindow w workspace).tabsIn lw = c.tabsIn lw := by
  refine (tabsIn_setWindow c c.mux.nextWindowId (c.mux.nextWindowId + 1) lw _).trans ?_
  split
  · next heq =>
    unfold tabsIn
    rw [heq, hc.noWindow]
    rfl
  · rfl

theorem sound_openWindow (hc : c.Sound) (w : WindowId) (workspace : String) :
    (c.openWindow w workspace).Sound := by
  have hfresh : ∀ w', c.remoteToLocalWindow.get w' ≠ some c.mux.nextWindowId := by
    intro w' hw'
    have hlive := hc.windows w' _ hw'
    rw [hc.noWindow] at hlive
    cases hlive
  refine ⟨sound_insertWindow hc.mux (Nat.le_succ _) (Nat.lt_succ_self _) (Window.sound_new _)
    (fun lt hlt => absurd hlt List.not_mem_nil), hc.tabs, ?_, hc.tabInj, ?_⟩
  · intro w' lw hw'
    rw [get_openWindow] at hw'
    split at hw'
    · cases hw'
      show ((c.mux.windows.insert _ _).get _).isSome = true
      rw [KeyMap.get_insert, if_pos rfl]
      rfl
    · exact isSome_setWindow (hc.windows w' lw hw')
  · intro w₁ w₂ lw h₁ h₂
    rw [get_openWindow] at h₁ h₂
    split at h₁
    · next heq₁ =>
      cases h₁
      split at h₂
      · next heq₂ => exact heq₁.trans heq₂.symm
      · exact absurd h₂ (hfresh w₂)
    · split at h₂
      · cases h₂
        exact absurd h₁ (hfresh w₁)
      · exact hc.windowInj w₁ w₂ lw h₁ h₂

theorem comes_placeInNewWindow (hc : c.Sound) (hnone : c.remoteToLocalWindow.get w = none)
    (hlt : lt < c.mux.nextTabId) (workspace : Option String) :
    Comes (fun c' => Puts c c' w lt) (c.placeInNewWindow w lt workspace) := by
  have hopen := sound_openWindow hc w (workspace.getD c.mux.activeWorkspace)
  have hmapped : (c.openWindow w (workspace.getD c.mux.activeWorkspace)).remoteToLocalWindow.get w =
      some c.mux.nextWindowId := by
    rw [get_openWindow, if_pos rfl]
  have hwin : (c.openWindow w (workspace.getD c.mux.activeWorkspace)).mux.windows.get
      c.mux.nextWindowId = some ⟨.new c.mux.nextWindowId,
        workspace.getD c.mux.activeWorkspace, ""⟩ := by
    show (c.mux.windows.insert _ _).get _ = _
    rw [KeyMap.get_insert, if_pos rfl]
  have hputs := puts_known hopen hmapped hwin hlt List.not_mem_nil
  have hrun : c.placeInNewWindow w lt workspace =
      ((c.openWindow w (workspace.getD c.mux.activeWorkspace)).mux.addTabToWindow lt
        c.mux.nextWindowId).map fun mux =>
          { c.openWindow w (workspace.getD c.mux.activeWorkspace) with mux := mux } := rfl
  have hempty : lt ∉ (Window.new c.mux.nextWindowId : Window TabId).tabs := List.not_mem_nil
  rw [hrun, addTabToWindow_eq_ok hwin hempty]
  obtain ⟨hsound, hnext, htabMap, hhomes, hplaced, hkept, hnew, hcontent, hcontentNew⟩ := hputs
  refine ⟨hsound, hnext, htabMap, hhomes, hplaced, ?_, ?_, ?_, ?_⟩
  · intro w' lw hw'
    refine hkept w' lw ?_
    rw [get_openWindow, if_neg, hw']
    rintro rfl
    rw [hnone] at hw'
    cases hw'
  · intro w' lw hw'
    rcases hnew w' lw hw' with hold | heq
    · rw [get_openWindow] at hold
      split at hold
      · next heq => exact .inr heq
      · exact .inl hold
    · exact .inr heq
  · intro lw lt' hlt'
    refine hcontent lw lt' ?_
    rw [tabsIn_openWindow hc]
    exact hlt'
  · intro lw lt' hlt'
    refine (hcontentNew lw lt' hlt').imp_left fun hold => ?_
    rw [tabsIn_openWindow hc] at hold
    exact hold

/-- **A tab is put into the window of its window**: no panic and no error comes of it. -/
theorem comes_placeTab (hc : c.Sound) (ht : c.remoteToLocalTab.get t = some lt) (w : WindowId)
    (workspace : Option String) :
    Comes (fun r => Puts c r.1 w lt ∧ r.2 = none) (c.placeTab none w lt workspace) := by
  have hlt := (hc.tabs t lt ht).2
  unfold placeTab
  split
  · next lw hw =>
    obtain ⟨win, hwin⟩ := Option.isSome_iff_exists.mp (hc.windows w lw hw)
    rw [hwin]
    dsimp only
    split
    · next hidx =>
      have hnew : lt ∉ win.window.tabs := by
        intro hmem
        have hnone := List.findIdx?_eq_none_iff.mp (Option.isNone_iff_eq_none.mp hidx) lt hmem
        simp at hnone
      rw [pushTab_eq_ok hnew]
      exact ⟨puts_known hc hw hwin hlt hnew, rfl⟩
    · next hidx =>
      have hmem : lt ∈ win.window.tabs := by
        by_contra hnot
        refine hidx (Option.isNone_iff_eq_none.mpr (List.findIdx?_eq_none_iff.mpr ?_))
        intro lt' hlt'
        refine decide_eq_false ?_
        rintro rfl
        exact hnot hlt'
      refine ⟨⟨hc, rfl, rfl, rfl, ⟨lw, hw, ?_⟩, fun _ _ => id, fun _ _ => .inl, fun _ _ => id,
        fun _ _ => .inl⟩, rfl⟩
      rw [tabsIn_eq hwin]
      exact hmem
  · next hnone => exact (comes_placeInNewWindow hc hnone hlt workspace).map fun c' h => ⟨h, rfl⟩

/-! ## The loop over the tabs -/

/-- What the loop has made of the maps and the windows when it has come through these tabs. -/
structure Grows (c c' : ClientInner) (pairs : List (WindowId × TabId)) : Prop where
  sound : c'.Sound
  nextTabId : c.mux.nextTabId ≤ c'.mux.nextTabId
  tabsKept : ∀ t lt, c.remoteToLocalTab.get t = some lt → c'.remoteToLocalTab.get t = some lt
  tabsNew : ∀ t lt, c'.remoteToLocalTab.get t = some lt →
    c.remoteToLocalTab.get t = some lt ∨ (t ∈ pairs.map (·.2) ∧ c.mux.nextTabId ≤ lt)
  windowsKept : ∀ w lw, c.remoteToLocalWindow.get w = some lw →
    c'.remoteToLocalWindow.get w = some lw
  windowsNew : ∀ w lw, c'.remoteToLocalWindow.get w = some lw →
    c.remoteToLocalWindow.get w = some lw ∨ w ∈ pairs.map (·.1)
  homes : ∀ p ∈ pairs, c'.remoteTabToWindow.get p.2 = some p.1
  homesOther : ∀ t, t ∉ pairs.map (·.2) →
    c'.remoteTabToWindow.get t = c.remoteTabToWindow.get t
  placed : ∀ p ∈ pairs, ∃ lw lt, c'.remoteToLocalWindow.get p.1 = some lw ∧
    c'.remoteToLocalTab.get p.2 = some lt ∧ lt ∈ c'.tabsIn lw
  kept : ∀ lw lt, lt ∈ c.tabsIn lw → lt ∈ c'.tabsIn lw
  new : ∀ lw lt, lt ∈ c'.tabsIn lw → lt ∈ c.tabsIn lw ∨
    ∃ p ∈ pairs, c'.remoteToLocalWindow.get p.1 = some lw ∧ c'.remoteToLocalTab.get p.2 = some lt

theorem Grows.nil (hc : c.Sound) : Grows c c [] :=
  ⟨hc, Nat.le_refl _, fun _ _ => id, fun _ _ => .inl, fun _ _ => id, fun _ _ => .inl,
    fun _ h => absurd h List.not_mem_nil, fun _ _ => rfl, fun _ h => absurd h List.not_mem_nil,
    fun _ _ => id, fun _ _ => .inl⟩

theorem Grows.append {done pairs : List (WindowId × TabId)} (h : Grows c c' done)
    (h' : Grows c' c'' pairs) (hother : ∀ p ∈ done, p.2 ∉ pairs.map (·.2)) :
    Grows c c'' (done ++ pairs) where
  sound := h'.sound
  nextTabId := Nat.le_trans h.nextTabId h'.nextTabId
  tabsKept t lt hlt := h'.tabsKept t lt (h.tabsKept t lt hlt)
  tabsNew t lt hlt := by
    rw [List.map_append, List.mem_append]
    rcases h'.tabsNew t lt hlt with hlt | ⟨ht, hle⟩
    · exact (h.tabsNew t lt hlt).imp_right fun hnew => ⟨.inl hnew.1, hnew.2⟩
    · exact .inr ⟨.inr ht, Nat.le_trans h.nextTabId hle⟩
  windowsKept w lw hlw := h'.windowsKept w lw (h.windowsKept w lw hlw)
  windowsNew w lw hlw := by
    rw [List.map_append, List.mem_append]
    rcases h'.windowsNew w lw hlw with hlw | hw
    · exact (h.windowsNew w lw hlw).imp_right .inl
    · exact .inr (.inr hw)
  homes p hp := by
    rcases List.mem_append.mp hp with hp | hp
    · rw [h'.homesOther p.2 (hother p hp)]
      exact h.homes p hp
    · exact h'.homes p hp
  homesOther t ht := by
    rw [List.map_append, List.mem_append, not_or] at ht
    rw [h'.homesOther t ht.2, h.homesOther t ht.1]
  placed p hp := by
    rcases List.mem_append.mp hp with hp | hp
    · obtain ⟨lw, lt, hlw, hlt, hmem⟩ := h.placed p hp
      exact ⟨lw, lt, h'.windowsKept _ _ hlw, h'.tabsKept _ _ hlt, h'.kept lw lt hmem⟩
    · exact h'.placed p hp
  kept lw lt hlt := h'.kept lw lt (h.kept lw lt hlt)
  new lw lt hlt := by
    rcases h'.new lw lt hlt with hlt | ⟨p, hp, hlw, hlt⟩
    · refine (h.new lw lt hlt).imp_right ?_
      rintro ⟨p, hp, hlw, hlt⟩
      exact ⟨p, List.mem_append_left _ hp, h'.windowsKept _ _ hlw, h'.tabsKept _ _ hlt⟩
    · exact .inr ⟨p, List.mem_append_right _ hp, hlw, hlt⟩

theorem grows_of_puts {c₁ c₂ : ClientInner} (hadds : Adds c c₁ t lt)
    (hsame : SameTabs (c₁.recordRemoteTabWindow t w) c₂) (hputs : Puts c₂ c' w lt) :
    Grows c c' [(w, t)] := by
  have hwindowMap : c₂.remoteToLocalWindow = c.remoteToLocalWindow :=
    hsame.windowMap.trans hadds.windowMap
  have htabMap : c'.remoteToLocalTab = c₁.remoteToLocalTab := hputs.tabMap.trans hsame.tabMap
  have hhomes : ∀ t', c'.remoteTabToWindow.get t' =
      if t' = t then some w else c.remoteTabToWindow.get t' := by
    intro t'
    rw [hputs.homes, hsame.homes, ← hadds.homes]
    exact KeyMap.get_insert _ _ _ _
  have htabsIn : ∀ lw, c₂.tabsIn lw = c.tabsIn lw := by
    intro lw
    rw [hsame.tabsIn]
    show c₁.tabsIn lw = c.tabsIn lw
    unfold tabsIn
    rw [hadds.windows]
  obtain ⟨lw, hlw, hmem⟩ := hputs.placed
  refine ⟨hputs.sound, ?_, ?_, ?_, ?_, ?_, ?_, ?_, ?_, ?_, ?_⟩
  · rw [hputs.nextTabId, hsame.nextTabId]
    exact hadds.nextTabId
  · rw [htabMap]
    exact hadds.kept
  · intro t' lt' hlt'
    rw [htabMap] at hlt'
    refine (hadds.new t' lt' hlt').imp_right fun hnew => ⟨?_, hnew.2⟩
    exact List.mem_singleton.mpr hnew.1
  · intro w' lw' hlw'
    refine hputs.windowsKept w' lw' ?_
    rw [hwindowMap]
    exact hlw'
  · intro w' lw' hlw'
    rw [← hwindowMap]
    exact (hputs.windowsNew w' lw' hlw').imp_right List.mem_singleton.mpr
  · intro p hp
    obtain rfl := List.mem_singleton.mp hp
    rw [hhomes, if_pos rfl]
  · intro t' ht'
    rw [hhomes, if_neg fun heq => ht' (List.mem_singleton.mpr heq)]
  · intro p hp
    obtain rfl := List.mem_singleton.mp hp
    refine ⟨lw, lt, hlw, ?_, hmem⟩
    rw [htabMap]
    exact hadds.mapped
  · intro lw' lt' hlt'
    refine hputs.kept lw' lt' ?_
    rw [htabsIn]
    exact hlt'
  · intro lw' lt' hlt'
    rw [← htabsIn]
    refine (hputs.new lw' lt' hlt').imp_right ?_
    rintro ⟨hlw', rfl⟩
    refine ⟨(w, t), List.mem_singleton_self _, hlw', ?_⟩
    rw [htabMap]
    exact hadds.mapped

end ClientInner

open ClientInner

/-- The state of the loop when it has come through these tabs. -/
structure Marked (c : ClientInner) (m : Marking) (pairs : List (WindowId × TabId)) : Prop where
  grows : Grows c m.client pairs
  primary : m.primaryWindowId = none
  windows : ∀ w, w ∈ m.windowsToForget ↔
    c.remoteToLocalWindow.get w ≠ none ∧ w ∉ pairs.map (·.1)
  tabs : ∀ t, t ∈ m.tabsToForget ↔ c.remoteToLocalTab.get t ≠ none ∧ t ∉ pairs.map (·.2)
  order : ∀ w, (m.tabOrder.get w).getD [] = (pairs.filter (·.1 = w)).map (·.2)

variable {c : ClientInner} {done : List (WindowId × TabId)}

theorem marked_start (hc : c.Sound) : Marked c (.start c none) [] := by
  refine ⟨.nil hc, rfl, fun w => ?_, fun t => ?_, fun _ => rfl⟩
  · show w ∈ c.remoteToLocalWindow.entries.map (·.1) ↔ _
    exact ⟨fun h => ⟨KeyMap.get_ne_none h, List.not_mem_nil⟩, fun h => KeyMap.mem_keys h.1⟩
  · show t ∈ c.remoteToLocalTab.entries.map (·.1) ↔ _
    exact ⟨fun h => ⟨KeyMap.get_ne_none h, List.not_mem_nil⟩, fun h => KeyMap.mem_keys h.1⟩

theorem comes_processTab {m : Marking} (hm : Marked c m done) (w : WindowId) (t : TabId)
    (hnew : t ∉ done.map (·.2)) (size : TerminalSize) (root : PaneNode) :
    Comes (fun m' => Marked c m' (done ++ [(w, t)])) (m.processTab w t size root) := by
  have hadds := adds_localTab hm.grows.sound t size
  have hother : ∀ p ∈ done, p.2 ∉ [(w, t)].map (·.2) := by
    intro p hp hmem
    exact hnew (List.mem_map.mpr ⟨p, hp, List.mem_singleton.mp hmem⟩)
  refine Comes.bind (comes_syncWithPaneTree
    ((m.client.localTab t size).2.recordRemoteTabWindow t w) _ size root) fun c₂ hsame => ?_
  have hsound : ((m.client.localTab t size).2.recordRemoteTabWindow t w).Sound :=
    ⟨hadds.sound.mux, hadds.sound.tabs, hadds.sound.windows, hadds.sound.tabInj,
      hadds.sound.windowInj⟩
  have hmapped : c₂.remoteToLocalTab.get t = some (m.client.localTab t size).1 := by
    rw [hsame.tabMap]
    exact hadds.mapped
  have hprimary : (m.mark w t).primaryWindowId = none := hm.primary
  rw [hprimary]
  refine Comes.bind (comes_placeTab (hsame.sound hsound) hmapped w _) fun r hr => ?_
  have hgrows := hm.grows.append (grows_of_puts hadds hsame hr.1) hother
  refine ⟨hgrows, hr.2, fun w' => ?_, fun t' => ?_, fun w' => ?_⟩
  · show w' ∈ m.windowsToForget.filter (· ≠ w) ↔ _
    rw [List.mem_filter, hm.windows, List.map_append, List.mem_append]
    simp [and_assoc]
  · show t' ∈ m.tabsToForget.filter (· ≠ t) ↔ _
    rw [List.mem_filter, hm.tabs, List.map_append, List.mem_append]
    simp [and_assoc]
  · show ((m.tabOrder.insert w ((m.tabOrder.get w).getD [] ++ [t])).get w').getD [] = _
    rw [KeyMap.get_insert, List.filter_append, List.map_append, ← hm.order w']
    by_cases heq : w' = w
    · subst heq
      rw [if_pos rfl]
      simp
    · rw [if_neg heq]
      simp [Ne.symm heq]

theorem rootSize_ne_some_none {root : PaneNode} {p : WindowId × TabId}
    (h : root.windowAndTabIds = some p) : root.rootSize ≠ some none := by
  cases root with
  | empty => cases h
  | split left right node =>
    show node.size.map some ≠ some none
    cases node.size with
    | none => exact fun h => by cases h
    | some size => exact fun h => by cases h
  | leaf entry => exact fun h => by cases h

theorem comes_process {m : Marking} (hm : Marked c m done) (root : PaneNode)
    (hnew : ∀ p, root.windowAndTabIds = some p → p.2 ∉ done.map (·.2)) :
    Comes (fun m' => Marked c m' (done ++ root.windowAndTabIds.toList)) (m.process root) := by
  unfold Marking.process
  split
  · rfl
  · next hsize =>
    have hnone : root.windowAndTabIds = none := by
      cases hids : root.windowAndTabIds with
      | none => rfl
      | some p => exact absurd hsize (rootSize_ne_some_none hids)
    rw [hnone, Option.toList_none, List.append_nil]
    exact hm
  · split
    · next hnone =>
      rw [hnone, Option.toList_none, List.append_nil]
      exact hm
    · next w t hids =>
      rw [hids]
      exact comes_processTab hm w t (hnew (w, t) hids) _ root

/-- **The loop comes through all tabs**: with distinct ids, each is given a local tab and is put
into the local window of its window. -/
theorem comes_marking {roots : List PaneNode} {m : Marking} (hm : Marked c m done)
    (hids : ((done ++ roots.filterMap PaneNode.windowAndTabIds).map (·.2)).Nodup) :
    Comes (fun m' => Marked c m' (done ++ roots.filterMap PaneNode.windowAndTabIds))
      (roots.foldlM Marking.process m) := by
  induction roots generalizing m done with
  | nil =>
    rw [List.filterMap_nil, List.append_nil]
    exact hm
  | cons root roots ih =>
    have hsplit : (root :: roots).filterMap PaneNode.windowAndTabIds =
        root.windowAndTabIds.toList ++ roots.filterMap PaneNode.windowAndTabIds := by
      rw [List.filterMap_cons]
      cases root.windowAndTabIds with
      | none => rfl
      | some p => rfl
    rw [hsplit] at hids ⊢
    rw [← List.append_assoc] at hids ⊢
    rw [List.foldlM_cons]
    refine Comes.bind (comes_process hm root ?_) fun m' hm' => ih hm' hids
    intro p hp hmem
    rw [hp, List.map_append, List.map_append] at hids
    have hdisjoint := (List.nodup_append.mp (List.nodup_append.mp hids).1).2.2
    exact hdisjoint _ hmem _ (List.mem_singleton_self _) rfl

/-! ## Order and parked tabs -/

namespace ClientInner

variable {c c' c'' : ClientInner}

/-- The tabs of the windows are in another order, and titles or parked tabs are others. -/
structure Rearranges (c c' : ClientInner) : Prop where
  sound : c.Sound → c'.Sound
  nextTabId : c'.mux.nextTabId = c.mux.nextTabId
  windowMap : c'.remoteToLocalWindow = c.remoteToLocalWindow
  tabMap : c'.remoteToLocalTab = c.remoteToLocalTab
  homes : c'.remoteTabToWindow = c.remoteTabToWindow
  tabs : ∀ lw, (c'.tabsIn lw).Perm (c.tabsIn lw)

theorem Rearranges.refl (c : ClientInner) : Rearranges c c :=
  ⟨id, rfl, rfl, rfl, rfl, fun _ => .refl _⟩

theorem Rearranges.trans (h : Rearranges c c') (h' : Rearranges c' c'') : Rearranges c c'' :=
  ⟨fun hc => h'.sound (h.sound hc), h'.nextTabId.trans h.nextTabId,
    h'.windowMap.trans h.windowMap, h'.tabMap.trans h.tabMap, h'.homes.trans h.homes,
    fun lw => (h'.tabs lw).trans (h.tabs lw)⟩

theorem rearranges_setWindow {lw : WindowId} {win win' : LocalWindow}
    (hwin : c.mux.windows.get lw = some win) (hperm : win'.window.tabs.Perm win.window.tabs)
    (hsound : c.Sound → win'.window.Sound id) :
    Rearranges c (c.setWindow lw c.mux.nextWindowId win') := by
  refine ⟨fun hc => ?_, rfl, rfl, rfl, rfl, fun lw' => ?_⟩
  · refine ⟨sound_insertWindow hc.mux (Nat.le_refl _) (hc.mux.below lw win hwin) (hsound hc) ?_,
      hc.tabs, fun w' lw' h => isSome_setWindow (hc.windows w' lw' h), hc.tabInj, hc.windowInj⟩
    intro lt hlt
    exact hc.mux.tabs lw win hwin lt (hperm.mem_iff.mp hlt)
  · rw [tabsIn_setWindow]
    split
    · next heq =>
      rw [heq, tabsIn_eq hwin]
      exact hperm
    · exact .refl _

/-- The tabs of a window of the server stand in this order. -/
def InOrder (c : ClientInner) (w : WindowId) (tabs : List TabId) : Prop :=
  ∀ lw, c.remoteToLocalWindow.get w = some lw →
    (tabs.filterMap c.remoteToLocalTab.get).Sublist (c.tabsIn lw)

theorem nodup_filterMap (hc : c.Sound) {tabs : List TabId} (h : tabs.Nodup) :
    (tabs.filterMap c.remoteToLocalTab.get).Nodup := by
  refine h.filterMap fun t t' lt hlt hlt' => ?_
  exact hc.tabInj t t' lt hlt hlt'

theorem reconcileTabOrder_spec (hc : c.Sound) (entry : WindowId × List TabId)
    (hnodup : entry.2.Nodup)
    (hplaced : ∀ t ∈ entry.2, ∃ lw lt, c.remoteToLocalWindow.get entry.1 = some lw ∧
      c.remoteToLocalTab.get t = some lt ∧ lt ∈ c.tabsIn lw) :
    Rearranges c (c.reconcileTabOrder entry) ∧ InOrder (c.reconcileTabOrder entry) entry.1 entry.2 ∧
      ∀ lw, c.remoteToLocalWindow.get entry.1 ≠ some lw →
        (c.reconcileTabOrder entry).tabsIn lw = c.tabsIn lw := by
  have hdesired := nodup_filterMap hc hnodup
  have hmem : ∀ lw, c.remoteToLocalWindow.get entry.1 = some lw →
      ∀ lt ∈ entry.2.filterMap c.remoteToLocalTab.get, lt ∈ c.tabsIn lw := by
    intro lw hlw lt hlt
    obtain ⟨t, ht, hget⟩ := List.mem_filterMap.mp hlt
    obtain ⟨lw', lt', hlw', hlt', hin⟩ := hplaced t ht
    rw [hlw] at hlw'
    rw [hget] at hlt'
    cases hlw'
    cases hlt'
    exact hin
  unfold reconcileTabOrder
  split
  · next hnone =>
    refine ⟨.refl c, fun lw hlw => ?_, fun _ _ => rfl⟩
    rw [hnone] at hlw
    cases hlw
  · next lw hlw =>
    have hhere := hmem lw hlw
    dsimp only
    split
    · next hshort =>
      refine ⟨.refl c, fun lw' hlw' => ?_, fun _ _ => rfl⟩
      rw [hlw] at hlw'
      cases hlw'
      -- a single tab is in order
      rcases hlist : entry.2.filterMap c.remoteToLocalTab.get with _ | ⟨lt, _ | ⟨lt', rest⟩⟩
      · exact List.nil_sublist _
      · rw [hlist] at hhere
        exact List.singleton_sublist.mpr (hhere lt (List.mem_singleton_self lt))
      · rw [hlist, List.length_cons, List.length_cons] at hshort
        omega
    · obtain ⟨win, hwin⟩ := Option.isSome_iff_exists.mp (hc.windows entry.1 lw hlw)
      have hupdate : ({ c with mux := c.mux.updateWindow lw fun w =>
          w.applyTabOrderSubset id (entry.2.filterMap c.remoteToLocalTab.get) } : ClientInner) =
          c.setWindow lw c.mux.nextWindowId { win with window :=
            (win.window.applyTabOrderSubset id
              (entry.2.filterMap c.remoteToLocalTab.get)).2 } := by
        unfold LocalMux.updateWindow
        rw [hwin]
        rfl
      rw [hupdate]
      have hsound := hc.mux.windows lw win hwin
      have hmemIds : ∀ lt ∈ entry.2.filterMap c.remoteToLocalTab.get, lt ∈ win.window.ids id := by
        rw [ids_id, ← tabsIn_eq hwin]
        exact hhere
      have hordered := hsound.ids_applyTabOrderSubset hdesired hmemIds
      have hends := Window.ends_applyTabOrderSubset hsound
        (entry.2.filterMap c.remoteToLocalTab.get)
      have hafter : (win.window.applyTabOrderSubset id
            (entry.2.filterMap c.remoteToLocalTab.get)).2.tabs.Perm win.window.tabs ∧
          (win.window.applyTabOrderSubset id
            (entry.2.filterMap c.remoteToLocalTab.get)).2.Sound id := by
        generalize win.window.applyTabOrderSubset id
          (entry.2.filterMap c.remoteToLocalTab.get) = outcome at hends
        obtain ⟨result, w'⟩ := outcome
        cases result with
        | error e => exact ⟨hends.1 ▸ .refl _, hends.1 ▸ hsound⟩
        | ok changed => exact ⟨hends.perm, hends.sound hsound⟩
      refine ⟨rearranges_setWindow hwin hafter.1 fun _ => hafter.2, ?_, ?_⟩
      · intro lw' hlw'
        have hsame : lw' = lw := (Option.some.inj (hlw.symm.trans hlw')).symm
        rw [tabsIn_setWindow, if_pos hsame]
        rw [ids_id] at hordered
        have hsub : ((win.window.applyTabOrderSubset id
            (entry.2.filterMap c.remoteToLocalTab.get)).2.tabs.filter
              (· ∈ (entry.2.filterMap c.remoteToLocalTab.get).toFinset)).Sublist _ :=
          List.filter_sublist
        rw [hordered] at hsub
        exact hsub
      · intro lw' hlw'
        rw [tabsIn_setWindow, if_neg]
        rintro rfl
        exact hlw' hlw

/-- The same tabs in the same windows, whatever else has changed. -/
structure Holds (c c' : ClientInner) : Prop where
  rearranges : Rearranges c c'
  tabs : ∀ lw, c'.tabsIn lw = c.tabsIn lw

theorem Holds.refl (c : ClientInner) : Holds c c := ⟨.refl c, fun _ => rfl⟩

theorem Holds.trans (h : Holds c c') (h' : Holds c' c'') : Holds c c'' :=
  ⟨h.rearranges.trans h'.rearranges, fun lw => (h'.tabs lw).trans (h.tabs lw)⟩

theorem InOrder.transfer {w : WindowId} {tabs : List TabId} (h : InOrder c w tabs)
    (hrearranges : Rearranges c c')
    (htabs : ∀ lw, c.remoteToLocalWindow.get w = some lw → c'.tabsIn lw = c.tabsIn lw) :
    InOrder c' w tabs := by
  intro lw hlw
  rw [hrearranges.windowMap] at hlw
  rw [hrearranges.tabMap, htabs lw hlw]
  exact h lw hlw

theorem reconcileTabOrders_spec (hc : c.Sound) {entries : List (WindowId × List TabId)}
    (hkeys : (entries.map (·.1)).Nodup) (hnodup : ∀ e ∈ entries, e.2.Nodup)
    (hplaced : ∀ e ∈ entries, ∀ t ∈ e.2, ∃ lw lt, c.remoteToLocalWindow.get e.1 = some lw ∧
      c.remoteToLocalTab.get t = some lt ∧ lt ∈ c.tabsIn lw) :
    Rearranges c (entries.foldl reconcileTabOrder c) ∧
      (∀ e ∈ entries, InOrder (entries.foldl reconcileTabOrder c) e.1 e.2) ∧
      ∀ lw, (∀ e ∈ entries, c.remoteToLocalWindow.get e.1 ≠ some lw) →
        (entries.foldl reconcileTabOrder c).tabsIn lw = c.tabsIn lw := by
  induction entries generalizing c with
  | nil => exact ⟨.refl c, fun e he => absurd he List.not_mem_nil, fun _ _ => rfl⟩
  | cons entry entries ih =>
    obtain ⟨hfirst, hrest⟩ := List.nodup_cons.mp hkeys
    obtain ⟨hrearranges, horder, hothers⟩ := reconcileTabOrder_spec hc entry
      (hnodup entry List.mem_cons_self) (hplaced entry List.mem_cons_self)
    have hplacedNext : ∀ e ∈ entries, ∀ t ∈ e.2, ∃ lw lt,
        (c.reconcileTabOrder entry).remoteToLocalWindow.get e.1 = some lw ∧
        (c.reconcileTabOrder entry).remoteToLocalTab.get t = some lt ∧
        lt ∈ (c.reconcileTabOrder entry).tabsIn lw := by
      intro e he t ht
      obtain ⟨lw, lt, hlw, hlt, hmem⟩ := hplaced e (List.mem_cons_of_mem _ he) t ht
      rw [hrearranges.windowMap, hrearranges.tabMap]
      exact ⟨lw, lt, hlw, hlt, (hrearranges.tabs lw).mem_iff.mpr hmem⟩
    obtain ⟨hnext, hordered, hkept⟩ := ih (hrearranges.sound hc) hrest
      (fun e he => hnodup e (List.mem_cons_of_mem _ he)) hplacedNext
    rw [List.foldl_cons]
    refine ⟨hrearranges.trans hnext, fun e he => ?_, fun lw hlw => ?_⟩
    · rcases List.mem_cons.mp he with rfl | he
      · -- the other windows have other local windows
        refine horder.transfer hnext fun lw hlw => hkept lw fun e' he' heq => ?_
        rw [hrearranges.windowMap] at hlw heq
        have hsame := hc.windowInj e.1 e'.1 lw hlw heq
        exact hfirst (List.mem_map.mpr ⟨e', he', hsame.symm⟩)
      · exact hordered e he
    · rw [hkept lw, hothers lw (hlw entry List.mem_cons_self)]
      intro e he
      rw [hrearranges.windowMap]
      exact hlw e (List.mem_cons_of_mem _ he)

theorem holds_reconcileParkedTabs (hc : c.Sound) (parked : List TabId)
    (entry : WindowId × List TabId) : Holds c (c.reconcileParkedTabs parked entry) := by
  unfold reconcileParkedTabs
  split
  · exact .refl c
  · next lw hlw =>
    dsimp only
    split
    · exact .refl c
    · obtain ⟨win, hwin⟩ := Option.isSome_iff_exists.mp (hc.windows entry.1 lw hlw)
      have hsound := hc.mux.windows lw win hwin
      generalize entry.2.filterMap c.remoteToLocalTab.get = domain
      generalize (entry.2.filter (· ∈ parked)).filterMap c.remoteToLocalTab.get = localParked
      have hends := Window.ends_applyParkedTabsSubset hsound domain localParked
      have hafter : (win.window.applyParkedTabsSubset id domain localParked).2.tabs =
            win.window.tabs ∧
          (win.window.applyParkedTabsSubset id domain localParked).2.Sound id := by
        generalize win.window.applyParkedTabsSubset id domain localParked = outcome at hends
        obtain ⟨result, w'⟩ := outcome
        cases result with
        | error e => exact ⟨hends.1 ▸ rfl, hends.1 ▸ hsound⟩
        | ok changed => exact ⟨hends.tabs, hends.sound hsound⟩
      unfold LocalMux.updateWindow
      rw [hwin]
      refine ⟨rearranges_setWindow hwin (hafter.1 ▸ .refl _) fun _ => hafter.2, fun lw' => ?_⟩
      refine (tabsIn_setWindow c lw c.mux.nextWindowId lw' _).trans ?_
      split
      · next heq =>
        rw [heq, tabsIn_eq hwin]
        exact hafter.1
      · rfl

theorem holds_reconcileAllParkedTabs (hc : c.Sound) (parked : List TabId)
    (entries : List (WindowId × List TabId)) :
    Holds c (entries.foldl (reconcileParkedTabs parked) c) := by
  induction entries generalizing c with
  | nil => exact .refl c
  | cons entry entries ih =>
    have hfirst := holds_reconcileParkedTabs hc parked entry
    exact hfirst.trans (ih (hfirst.rearranges.sound hc))

theorem comes_setWindowTitle (hc : c.Sound) (entry : WindowId × String) :
    Comes (Holds c) (c.setWindowTitle entry) := by
  unfold setWindowTitle
  split
  · exact Holds.refl c
  · next lw hlw =>
    obtain ⟨win, hwin⟩ := Option.isSome_iff_exists.mp (hc.windows entry.1 lw hlw)
    rw [hwin]
    have hrearranges : Rearranges c (c.setWindow lw c.mux.nextWindowId
        { win with title := entry.2 }) :=
      rearranges_setWindow hwin (.refl _) fun hc => hc.mux.windows lw win hwin
    refine ⟨hrearranges, fun lw' => ?_⟩
    refine (tabsIn_setWindow c lw c.mux.nextWindowId lw' _).trans ?_
    split
    · next heq => rw [heq, tabsIn_eq hwin]
    · rfl

theorem comes_setWindowTitles (hc : c.Sound) (entries : List (WindowId × String)) :
    Comes (Holds c) (entries.foldlM setWindowTitle c) := by
  induction entries generalizing c with
  | nil => exact Holds.refl c
  | cons entry entries ih =>
    rw [List.foldlM_cons]
    refine Comes.bind (comes_setWindowTitle hc entry) fun c' h => ?_
    exact (ih (h.rearranges.sound hc)).imp fun _ h' => h.trans h'

/-! ## One list of panes -/

/-- The maps follow the tabs that were listed last. -/
structure Follows (c : ClientInner) (pairs : List (WindowId × TabId)) : Prop where
  sound : c.Sound
  placed : ∀ p ∈ pairs, ∃ lw lt, c.remoteToLocalWindow.get p.1 = some lw ∧
    c.remoteToLocalTab.get p.2 = some lt ∧ lt ∈ c.tabsIn lw
  homes : ∀ p ∈ pairs, c.remoteTabToWindow.get p.2 = some p.1
  order : ∀ w, InOrder c w ((pairs.filter (·.1 = w)).map (·.2))
  windowsOnly : ∀ w, c.remoteToLocalWindow.get w ≠ none → w ∈ pairs.map (·.1)
  tabsOnly : ∀ t, c.remoteToLocalTab.get t ≠ none → t ∈ pairs.map (·.2)
  homesOnly : ∀ t, c.remoteTabToWindow.get t ≠ none → t ∈ pairs.map (·.2)

/-- Their local tabs are in no other window. -/
def Exclusive (c : ClientInner) (pairs : List (WindowId × TabId)) : Prop :=
  ∀ p ∈ pairs, ∀ lw lt, c.remoteToLocalWindow.get p.1 = some lw →
    c.remoteToLocalTab.get p.2 = some lt → ∀ lw', lt ∈ c.tabsIn lw' → lw' = lw

/-- No tab is in another window than before. -/
def Steady (before after : List (WindowId × TabId)) : Prop :=
  ∀ p ∈ before, ∀ q ∈ after, p.2 = q.2 → p.1 = q.1

variable {m : Marking} {pairs before : List (WindowId × TabId)}

theorem Grows.steady (hgrows : Grows c c' pairs) (hbefore : c.Follows before)
    (hexclusive : c'.Exclusive pairs) : Steady before pairs := by
  intro p hp q hq heq
  obtain ⟨lw, lt, hlw, hlt, hmem⟩ := hbefore.placed p hp
  obtain ⟨lw', lt', hlw', hlt', -⟩ := hgrows.placed q hq
  have hsame := hgrows.tabsKept _ _ hlt
  rw [heq, hlt'] at hsame
  obtain rfl := Option.some.inj hsame
  -- it is still where it was
  obtain rfl := hexclusive q hq lw' lt' hlw' hlt' lw (hgrows.kept lw lt' hmem)
  exact hgrows.sound.windowInj p.1 q.1 lw (hgrows.windowsKept _ _ hlw) hlw'

theorem Grows.exclusive (hgrows : Grows c c' pairs) (hids : (pairs.map (·.2)).Nodup)
    (hbefore : c.Follows before) (hexclusive : c.Exclusive before) (hsteady : Steady before pairs) :
    c'.Exclusive pairs := by
  intro q hq lw lt hlw hlt lw' hmem
  rcases hgrows.new lw' lt hmem with hold | ⟨p, hp, hlw', hlt'⟩
  · obtain ⟨win, hwin, hin⟩ := mem_tabsIn.mp hold
    have hlow := hbefore.sound.mux.tabs lw' win hwin lt hin
    have hknown : c.remoteToLocalTab.get q.2 = some lt := by
      rcases hgrows.tabsNew q.2 lt hlt with hknown | ⟨-, hnew⟩
      · exact hknown
      · exact absurd hlow (Nat.not_lt.mpr hnew)
    obtain ⟨p, hp, heq⟩ := List.mem_map.mp (hbefore.tabsOnly q.2 (by rw [hknown]; simp))
    obtain ⟨lw₀, lt₀, hlw₀, -, -⟩ := hbefore.placed p hp
    have hsame := hgrows.windowsKept _ _ hlw₀
    rw [hsteady p hp q hq heq, hlw] at hsame
    cases hsame
    exact hexclusive p hp lw lt hlw₀ (heq.symm ▸ hknown) lw' hold
  · have heq := hgrows.sound.tabInj p.2 q.2 lt hlt' hlt
    obtain rfl := List.inj_on_of_nodup_map hids hp hq heq
    exact Option.some.inj (hlw'.symm.trans hlw)

theorem entries_of_marked (hm : Marked c m pairs) {entry : WindowId × List TabId}
    (h : entry ∈ m.tabOrder.entries) : entry.2 = (pairs.filter (·.1 = entry.1)).map (·.2) := by
  have horder := hm.order entry.1
  rw [KeyMap.mem_entries_iff.mp h] at horder
  exact horder

theorem get_sweep {ν : Type} (map : KeyMap Nat ν) (keys : List Nat) (key : Nat) (value : ν) :
    (keys.foldl KeyMap.erase map).get key = some value ↔ key ∉ keys ∧ map.get key = some value := by
  rw [KeyMap.get_foldl_erase]
  split
  · next hmem => simp [hmem]
  · next hnot => simp [hnot]

theorem sound_sweep (hc : c.Sound) (m : Marking) : (c.sweep m).Sound := by
  refine ⟨hc.mux, fun t lt h => ?_, fun w lw h => ?_, fun t t' lt h h' => ?_,
    fun w w' lw h h' => ?_⟩
  · exact hc.tabs t lt ((get_sweep _ _ _ _).mp h).2
  · exact hc.windows w lw ((get_sweep _ _ _ _).mp h).2
  · exact hc.tabInj t t' lt ((get_sweep _ _ _ _).mp h).2 ((get_sweep _ _ _ _).mp h').2
  · exact hc.windowInj w w' lw ((get_sweep _ _ _ _).mp h).2 ((get_sweep _ _ _ _).mp h').2

theorem follows_sweep (hbefore : c.Follows before) (hm : Marked c m pairs) {c₃ : ClientInner}
    (hall : Rearranges m.client c₃)
    (horder : ∀ w, InOrder c₃ w ((pairs.filter (·.1 = w)).map (·.2))) :
    (c₃.sweep m).Follows pairs := by
  have hgrows := hm.grows
  have hwindow : ∀ w lw, (c₃.sweep m).remoteToLocalWindow.get w = some lw ↔
      w ∉ m.windowsToForget ∧ m.client.remoteToLocalWindow.get w = some lw := by
    intro w lw
    rw [← hall.windowMap]
    exact get_sweep _ _ _ _
  have htab : ∀ t lt, (c₃.sweep m).remoteToLocalTab.get t = some lt ↔
      t ∉ m.tabsToForget ∧ m.client.remoteToLocalTab.get t = some lt := by
    intro t lt
    rw [← hall.tabMap]
    exact get_sweep _ _ _ _
  have hhome : ∀ t w, (c₃.sweep m).remoteTabToWindow.get t = some w ↔
      t ∉ m.tabsToForget ∧ m.client.remoteTabToWindow.get t = some w := by
    intro t w
    rw [← hall.homes]
    exact get_sweep _ _ _ _
  have hwindowKept : ∀ p ∈ pairs, p.1 ∉ m.windowsToForget := fun p hp hmem =>
    ((hm.windows p.1).mp hmem).2 (List.mem_map_of_mem hp)
  have htabKept : ∀ p ∈ pairs, p.2 ∉ m.tabsToForget := fun p hp hmem =>
    ((hm.tabs p.2).mp hmem).2 (List.mem_map_of_mem hp)
  refine ⟨sound_sweep (hall.sound hgrows.sound) m, fun p hp => ?_, fun p hp => ?_,
    fun w lw hlw => ?_, fun w hw => ?_, fun t ht => ?_, fun t ht => ?_⟩
  · obtain ⟨lw, lt, hlw, hlt, hmem⟩ := hgrows.placed p hp
    exact ⟨lw, lt, (hwindow _ _).mpr ⟨hwindowKept p hp, hlw⟩, (htab _ _).mpr ⟨htabKept p hp, hlt⟩,
      (hall.tabs lw).mem_iff.mpr hmem⟩
  · exact (hhome _ _).mpr ⟨htabKept p hp, hgrows.homes p hp⟩
  · have hbase := horder w lw (hall.windowMap ▸ ((hwindow w lw).mp hlw).2)
    have hsame : ((pairs.filter (·.1 = w)).map (·.2)).filterMap
        (c₃.sweep m).remoteToLocalTab.get =
        ((pairs.filter (·.1 = w)).map (·.2)).filterMap c₃.remoteToLocalTab.get := by
      refine List.filterMap_congr fun t ht => ?_
      obtain ⟨p, hp, rfl⟩ := List.mem_map.mp ht
      have hlisted := htabKept p (List.mem_filter.mp hp).1
      show (m.tabsToForget.foldl KeyMap.erase c₃.remoteToLocalTab).get p.2 = _
      rw [KeyMap.get_foldl_erase, if_neg hlisted]
    rw [hsame]
    exact hbase
  · obtain ⟨lw, hlw⟩ := Option.ne_none_iff_exists'.mp hw
    obtain ⟨hkept, hlw⟩ := (hwindow w lw).mp hlw
    rcases hgrows.windowsNew w lw hlw with hold | hlisted
    · by_contra hnot
      exact hkept ((hm.windows w).mpr ⟨by rw [hold]; simp, hnot⟩)
    · exact hlisted
  · obtain ⟨lt, hlt⟩ := Option.ne_none_iff_exists'.mp ht
    obtain ⟨hkept, hlt⟩ := (htab t lt).mp hlt
    rcases hgrows.tabsNew t lt hlt with hold | hlisted
    · by_contra hnot
      exact hkept ((hm.tabs t).mpr ⟨by rw [hold]; simp, hnot⟩)
    · exact hlisted.1
  · obtain ⟨w, hw⟩ := Option.ne_none_iff_exists'.mp ht
    obtain ⟨hkept, hw⟩ := (hhome t w).mp hw
    by_contra hnot
    -- it was known before, with a local tab, and is forgotten
    rw [hgrows.homesOther t hnot] at hw
    obtain ⟨p, hp, rfl⟩ := List.mem_map.mp (hbefore.homesOnly t (by rw [hw]; simp))
    obtain ⟨-, lt, -, hlt, -⟩ := hbefore.placed p hp
    exact hkept ((hm.tabs p.2).mpr ⟨by rw [hlt]; simp, hnot⟩)

/-- **One list of panes**: the client follows it, and no tab of it is in two windows as long as
none was and none has moved. -/
theorem comes_processPaneList (hbefore : c.Follows before) {panes : ListPanesResponse}
    (hpairs : panes.listed.filterMap PaneNode.windowAndTabIds = pairs)
    (hids : (pairs.map (·.2)).Nodup) :
    Comes (fun c' => c'.Follows pairs ∧ (c'.Exclusive pairs → Steady before pairs) ∧
        (c.Exclusive before → Steady before pairs → c'.Exclusive pairs))
      (c.processPaneList panes none) := by
  have hlisted : ((([] : List (WindowId × TabId)) ++
      panes.listed.filterMap PaneNode.windowAndTabIds).map (·.2)).Nodup := by
    rw [List.nil_append, hpairs]
    exact hids
  have hmarking := comes_marking (marked_start hbefore.sound) hlisted
  rw [List.nil_append, hpairs] at hmarking
  refine Comes.bind hmarking fun m hm => ?_
  have hgrows := hm.grows
  have hentries : ∀ e ∈ m.tabOrder.entries, e.2.Nodup := by
    intro e he
    rw [entries_of_marked hm he]
    exact (List.Sublist.map _ List.filter_sublist).nodup hids
  have hplaced : ∀ e ∈ m.tabOrder.entries, ∀ t ∈ e.2, ∃ lw lt,
      m.client.remoteToLocalWindow.get e.1 = some lw ∧
      m.client.remoteToLocalTab.get t = some lt ∧ lt ∈ m.client.tabsIn lw := by
    intro e he t ht
    rw [entries_of_marked hm he] at ht
    obtain ⟨p, hp, rfl⟩ := List.mem_map.mp ht
    obtain ⟨hp, hw⟩ := List.mem_filter.mp hp
    rw [← of_decide_eq_true hw]
    exact hgrows.placed p hp
  obtain ⟨hrearranges, hordered, -⟩ := reconcileTabOrders_spec hgrows.sound
    m.tabOrder.nodup_keys hentries hplaced
  have hparked := holds_reconcileAllParkedTabs (hrearranges.sound hgrows.sound) panes.parkedTabIds
    m.tabOrder.entries
  refine Comes.bind (comes_setWindowTitles
    (hparked.rearranges.sound (hrearranges.sound hgrows.sound)) panes.windowTitles.entries)
    fun c₃ htitles => ?_
  have hholds := hparked.trans htitles
  have hall := hrearranges.trans hholds.rearranges
  have hordered : ∀ w, InOrder c₃ w ((pairs.filter (·.1 = w)).map (·.2)) := by
    intro w
    cases hget : m.tabOrder.get w with
    | none =>
      have hnone := hm.order w
      rw [hget] at hnone
      rw [← hnone]
      exact fun lw _ => List.nil_sublist _
    | some tabs =>
      have hentry := KeyMap.mem_entries_iff.mpr hget
      have hsome : tabs = _ := entries_of_marked hm hentry
      rw [← hsome]
      exact (hordered (w, tabs) hentry).transfer hholds.rearranges fun lw _ => hholds.tabs lw
  have hmem : ∀ lw lt, lt ∈ (c₃.sweep m).tabsIn lw ↔ lt ∈ m.client.tabsIn lw :=
    fun lw lt => (hall.tabs lw).mem_iff
  have hexclusive : (c₃.sweep m).Exclusive pairs ↔ m.client.Exclusive pairs := by
    have hwindow : ∀ p ∈ pairs, (c₃.sweep m).remoteToLocalWindow.get p.1 =
        m.client.remoteToLocalWindow.get p.1 := by
      intro p hp
      show (m.windowsToForget.foldl KeyMap.erase c₃.remoteToLocalWindow).get p.1 = _
      rw [KeyMap.get_foldl_erase, if_neg fun hmem =>
        ((hm.windows p.1).mp hmem).2 (List.mem_map_of_mem hp), hall.windowMap]
    have htab : ∀ p ∈ pairs, (c₃.sweep m).remoteToLocalTab.get p.2 =
        m.client.remoteToLocalTab.get p.2 := by
      intro p hp
      show (m.tabsToForget.foldl KeyMap.erase c₃.remoteToLocalTab).get p.2 = _
      rw [KeyMap.get_foldl_erase, if_neg fun hmem =>
        ((hm.tabs p.2).mp hmem).2 (List.mem_map_of_mem hp), hall.tabMap]
    constructor
    · intro h p hp lw lt hlw hlt lw' hlt'
      exact h p hp lw lt ((hwindow p hp).trans hlw) ((htab p hp).trans hlt) lw'
        ((hmem lw' lt).mpr hlt')
    · intro h p hp lw lt hlw hlt lw' hlt'
      exact h p hp lw lt ((hwindow p hp).symm.trans hlw) ((htab p hp).symm.trans hlt) lw'
        ((hmem lw' lt).mp hlt')
  refine ⟨follows_sweep hbefore hm hall hordered, fun h => ?_, fun h hsteady => ?_⟩
  · exact hgrows.steady hbefore (hexclusive.mp h)
  · exact hexclusive.mpr (hgrows.exclusive hids hbefore h hsteady)

end ClientInner

end Wakterm.Client.PaneList
