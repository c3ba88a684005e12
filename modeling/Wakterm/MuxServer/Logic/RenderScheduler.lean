import Wakterm.Machine.Steps
import Wakterm.MuxServer.RenderScheduler

/-!
# No refresh is lost

Two invariants of a session.
-/

namespace Wakterm.MuxServer

open Wakterm.Mux (PaneId)
open Wakterm.Machine

/-! ## The scheduler's queue -/

namespace RenderSchedulerState

/-- The set and the queue hold the same panes, each once. -/
structure Consistent (s : RenderSchedulerState) : Prop where
  ids : s.dirtyIds = s.dirty.toFinset
  nodup : s.dirty.Nodup

variable {s : RenderSchedulerState}

theorem consistent_new : Consistent new := ⟨rfl, List.nodup_nil⟩

theorem Consistent.activate (h : s.Consistent) (active : Bool) :
    Consistent { s with active := active } := ⟨h.ids, h.nodup⟩

theorem Consistent.markDirty (h : s.Consistent) (pane : PaneId) :
    (s.markDirty pane).Consistent := by
  unfold RenderSchedulerState.markDirty
  split
  · exact h
  · next hp =>
    rw [h.ids, List.mem_toFinset] at hp
    constructor
    · show insert pane s.dirtyIds = (s.dirty ++ [pane]).toFinset
      rw [h.ids]
      ext p
      rw [Finset.mem_insert, List.mem_toFinset, List.mem_toFinset, List.mem_append,
        List.mem_singleton]
      exact or_comm
    · show (s.dirty ++ [pane]).Nodup
      rw [List.nodup_append_comm]
      exact List.nodup_cons.mpr ⟨hp, h.nodup⟩

theorem mem_markDirty (h : s.Consistent) {pane p : PaneId} (hp : p ∈ s.dirty ∨ p = pane) :
    p ∈ (s.markDirty pane).dirty := by
  unfold RenderSchedulerState.markDirty
  split
  · next hmem =>
    rw [h.ids, List.mem_toFinset] at hmem
    rcases hp with hp | rfl
    · exact hp
    · exact hmem
  · rcases hp with hp | rfl
    · exact List.mem_append_left _ hp
    · exact List.mem_append_right _ (List.mem_singleton_self p)

theorem active_markDirty (pane : PaneId) : (s.markDirty pane).active = s.active := by
  unfold RenderSchedulerState.markDirty
  split <;> rfl

theorem Consistent.popNextRefresh (h : s.Consistent) : s.popNextRefresh.2.Consistent := by
  unfold RenderSchedulerState.popNextRefresh
  split
  · exact h
  · next next dirty hd =>
    have hnodup := h.nodup
    rw [hd, List.nodup_cons] at hnodup
    refine ⟨?_, hnodup.2⟩
    show s.dirtyIds.erase next = dirty.toFinset
    rw [h.ids, hd, List.toFinset_cons, Finset.erase_insert]
    simpa using hnodup.1

theorem active_popNextRefresh : s.popNextRefresh.2.active = s.active := by
  unfold RenderSchedulerState.popNextRefresh
  split <;> rfl

theorem mem_popNextRefresh {p : PaneId} (hp : p ∈ s.dirty) :
    p ∈ s.popNextRefresh.2.dirty ∨ s.popNextRefresh.1 = some p := by
  unfold RenderSchedulerState.popNextRefresh
  split
  · exact .inl hp
  · next next dirty hd =>
    rw [hd] at hp
    rcases List.mem_cons.mp hp with rfl | hp
    · exact .inr rfl
    · exact .inl hp

theorem dirty_of_popNextRefresh (h : s.popNextRefresh.1 = none) :
    s.popNextRefresh.2.dirty = [] := by
  unfold RenderSchedulerState.popNextRefresh at h ⊢
  split
  · next hd => exact hd
  · next hd =>
    rw [hd] at h
    cases h

/-- A step under the scheduler's lock that starts the refresh `next`, if any: nothing that
waited is lost, and the scheduler ends active or with nothing to do. -/
structure Handover (s : RenderSchedulerState) (next : Option PaneId)
    (s' : RenderSchedulerState) : Prop where
  consistent : s'.Consistent
  kept : ∀ p ∈ s.dirty, p ∈ s'.dirty ∨ next = some p
  idle : s'.active = false → s'.dirty = []

theorem handover_schedule (h : s.Consistent) (pane : PaneId) :
    Handover (s.markDirty pane) (s.schedule pane).1 (s.schedule pane).2 ∧
      (s.schedule pane).2.active = true ∧ ((s.schedule pane).1.isSome = !s.active) := by
  have hmark := h.markDirty pane
  unfold RenderSchedulerState.schedule
  dsimp only
  rw [active_markDirty]
  cases hactive : s.active with
  | true =>
    rw [if_pos rfl]
    have hactive' : (s.markDirty pane).active = true := (active_markDirty pane).trans hactive
    refine ⟨⟨hmark, fun p hp => .inl hp, ?_⟩, hactive', rfl⟩
    intro hidle
    exact absurd (hactive'.symm.trans hidle) (by simp)
  | false =>
    rw [if_neg Bool.false_ne_true]
    have hpop := active_popNextRefresh (s := { s.markDirty pane with active := true })
    refine ⟨⟨(hmark.activate true).popNextRefresh, fun p hp => mem_popNextRefresh hp, ?_⟩,
      hpop, ?_⟩
    · intro hidle
      exact absurd (hpop.symm.trans hidle) (by simp)
    · -- the queue holds at least the pane of this call
      cases hnext : (popNextRefresh { s.markDirty pane with active := true }).1 with
      | some next => rfl
      | none =>
        have hempty := dirty_of_popNextRefresh hnext
        have hp := mem_popNextRefresh (s := { s.markDirty pane with active := true })
          (mem_markDirty h (.inr rfl))
        rw [hempty, hnext] at hp
        simp at hp

theorem handover_completeOne (h : s.Consistent) (hactive : s.active = true) :
    Handover s s.completeOne.1 s.completeOne.2 ∧
      s.completeOne.2.active = s.completeOne.1.isSome := by
  have hpop := active_popNextRefresh.trans hactive
  have hkept : ∀ p ∈ s.dirty, p ∈ s.popNextRefresh.2.dirty ∨ s.popNextRefresh.1 = some p :=
    fun p hp => mem_popNextRefresh hp
  unfold RenderSchedulerState.completeOne
  dsimp only
  cases hnext : s.popNextRefresh.1 with
  | none =>
    rw [hnext] at hkept
    exact ⟨⟨h.popNextRefresh.activate false, hkept, fun _ => dirty_of_popNextRefresh hnext⟩, rfl⟩
  | some next =>
    rw [hnext] at hkept
    refine ⟨⟨h.popNextRefresh, hkept, ?_⟩, hpop⟩
    intro hidle
    exact absurd (hpop.symm.trans hidle) (by simp)

end RenderSchedulerState

/-! ## The scheduler over a run -/

namespace Session

variable {s s' : Session}

/-- A refresh of the pane is queued, or outstanding and not yet started. -/
def Waiting (s : Session) (pane : PaneId) : Prop :=
  pane ∈ s.state.dirty ∨ ⟨pane, .spawned⟩ ∈ s.outstanding

/-- The queue is in order, and the scheduler is active exactly while a refresh is under way. -/
structure Balanced (s : Session) : Prop where
  consistent : s.state.Consistent
  idle : s.state.active = false → s.state.dirty = []
  single : s.outstanding.length = if s.state.active then 1 else 0

theorem balanced_new : Balanced new := ⟨RenderSchedulerState.consistent_new, fun _ => rfl, rfl⟩

theorem Balanced.only (h : s.Balanced) {i : Nat} {r : Refresh} (hr : s.outstanding[i]? = some r) :
    i = 0 ∧ s.outstanding = [r] ∧ s.state.active = true := by
  have hlen := h.single
  cases hout : s.outstanding with
  | nil =>
    rw [hout] at hr
    simp at hr
  | cons r' rest =>
    rw [hout] at hr hlen
    split at hlen
    · next hactive =>
      obtain rfl : rest = [] := by simpa using hlen
      cases i with
      | zero => exact ⟨rfl, congrArg (· :: []) (Option.some.inj hr), hactive⟩
      | succ i => simp at hr
    · simp at hlen

theorem Balanced.move (h : s.Balanced) (hstate : s'.state = s.state)
    (hlen : s'.outstanding.length = s.outstanding.length) : s'.Balanced := by
  refine ⟨?_, ?_, ?_⟩
  · rw [hstate]
    exact h.consistent
  · rw [hstate]
    exact h.idle
  · rw [hstate, hlen]
    exact h.single

variable {action : Action} {state : RenderSchedulerState}

theorem step_cases (h : s.Balanced) (hstep : s.step action = some s') :
    (∃ pane serial, action = .call pane serial ∧ s' = { s with
        pendingInputSerial := Function.update s.pendingInputSerial pane
          (noteSerial (s.pendingInputSerial pane) serial)
        calls := s.calls ++ [⟨s.log.length, pane⟩]
        log := s.log ++ [Event.called pane serial] }) ∨
    (∃ i call, action = .mark i ∧ call ∈ s.calls ∧ s' = spawnCompute { s with
        state := (s.state.schedule call.pane).2
        calls := s.calls.eraseIdx i
        log := s.log ++ [Event.marked call.position] } (s.state.schedule call.pane).1) ∨
    (∃ pane empty, s.outstanding = [⟨pane, .spawned⟩] ∧
      s' = s.collectPaneChanges 0 ⟨pane, .spawned⟩ empty) ∨
    (∃ pane, s.outstanding = [⟨pane, .spawned⟩] ∧ s' = { s with
        outstanding := [⟨pane, .finishing⟩]
        log := s.log ++ [Event.missing pane] }) ∨
    (∃ pane stage stage', s.outstanding = [⟨pane, stage⟩] ∧ stage ≠ .spawned ∧
      s' = { s with outstanding := [⟨pane, stage'⟩] }) ∨
    (∃ pane stage, s.outstanding = [⟨pane, stage⟩] ∧ stage ≠ .spawned ∧
      s.state.active = true ∧
      s' = spawnCompute { s with state := s.state.completeOne.2, outstanding := [] }
        s.state.completeOne.1) := by
  cases action with
  | call pane serial =>
    exact .inl ⟨pane, serial, rfl, (Option.some.inj hstep).symm⟩
  | mark i =>
    simp only [step, Option.bind_eq_bind, Option.bind_eq_some_iff] at hstep
    obtain ⟨call, hcall, hstep⟩ := hstep
    exact .inr (.inl ⟨i, call, rfl, List.mem_of_getElem? hcall, (Option.some.inj hstep).symm⟩)
  | compute i found empty =>
    simp only [step, Option.bind_eq_bind, Option.bind_eq_some_iff] at hstep
    obtain ⟨⟨pane, stage⟩, hr, hstep⟩ := hstep
    obtain ⟨rfl, hout, -⟩ := h.only hr
    split_ifs at hstep with hspawned hfound
    · obtain rfl : stage = .spawned := not_not.mp hspawned
      exact .inr (.inr (.inl ⟨pane, empty, hout, (Option.some.inj hstep).symm⟩))
    · obtain rfl : stage = .spawned := not_not.mp hspawned
      refine .inr (.inr (.inr (.inl ⟨pane, hout, ?_⟩)))
      rw [hout] at hstep
      exact (Option.some.inj hstep).symm
  | send i accepted =>
    simp only [step, Option.bind_eq_bind, Option.bind_eq_some_iff] at hstep
    obtain ⟨⟨pane, stage⟩, hr, hstep⟩ := hstep
    obtain ⟨rfl, hout, -⟩ := h.only hr
    split at hstep
    · cases hstep
    · next hsending =>
      obtain rfl : stage = .sending := not_not.mp hsending
      refine .inr (.inr (.inr (.inr (.inl ⟨pane, .sending,
        if accepted then .sent else .finishing, hout, by simp, ?_⟩))))
      rw [hout] at hstep
      exact (Option.some.inj hstep).symm
  | complete i =>
    simp only [step, Option.bind_eq_bind, Option.bind_eq_some_iff] at hstep
    obtain ⟨⟨pane, stage⟩, hr, hstep⟩ := hstep
    obtain ⟨rfl, hout, hactive⟩ := h.only hr
    split_ifs at hstep with hstage
    refine .inr (.inr (.inr (.inr (.inr ⟨pane, stage, hout, ?_, hactive, ?_⟩))))
    · rintro rfl
      exact hstage ⟨by simp, by simp⟩
    · rw [hout] at hstep
      exact (Option.some.inj hstep).symm

theorem Balanced.handover {next : Option PaneId}
    (hand : RenderSchedulerState.Handover state next s'.state)
    (hout : s'.outstanding.length = if s'.state.active then 1 else 0) : s'.Balanced :=
  ⟨hand.consistent, hand.idle, hout⟩

theorem balanced_step (h : s.Balanced) (hstep : s.step action = some s') : s'.Balanced := by
  rcases step_cases h hstep with ⟨pane, serial, -, rfl⟩ | ⟨i, call, -, -, rfl⟩ |
    ⟨pane, empty, hout, rfl⟩ | ⟨pane, hout, rfl⟩ | ⟨pane, stage, stage', hout, -, rfl⟩ |
    ⟨pane, stage, hout, -, hactive, rfl⟩
  · exact h.move rfl rfl
  · obtain ⟨hand, hactive', hstarts⟩ :=
      RenderSchedulerState.handover_schedule h.consistent call.pane
    refine Balanced.handover hand ?_
    show (s.outstanding ++ (s.state.schedule call.pane).1.toList.map _).length =
      if (s.state.schedule call.pane).2.active then 1 else 0
    rw [List.length_append, List.length_map, h.single, hactive']
    cases hactive : s.state.active with
    | true =>
      rw [hactive] at hstarts
      have hnone : (s.state.schedule call.pane).1 = none := by simpa using hstarts
      rw [hnone]
      rfl
    | false =>
      rw [hactive] at hstarts
      obtain ⟨next, hnext⟩ := Option.isSome_iff_exists.mp hstarts
      rw [hnext]
      rfl
  · exact h.move rfl (by simp [collectPaneChanges])
  · exact h.move rfl (by rw [hout]; rfl)
  · exact h.move rfl (by rw [hout]; rfl)
  · obtain ⟨hand, hstarts⟩ := RenderSchedulerState.handover_completeOne h.consistent hactive
    refine Balanced.handover hand ?_
    show (s.state.completeOne.1.toList.map _).length =
      if s.state.completeOne.2.active then 1 else 0
    rw [List.length_map, hstarts]
    cases s.state.completeOne.1 <;> rfl

/-! ## The calls over a run -/

/-- The serial `taken` is at least the one scheduled; a call without a serial asks for none. -/
def Covers (taken serial : Option InputSerial) : Prop :=
  ∀ n, serial = some n → ∃ k, taken = some k ∧ n ≤ k

theorem covers_noteSerial (pending serial : Option InputSerial) :
    Covers (noteSerial pending serial) serial := by
  rintro n rfl
  cases pending with
  | none => exact ⟨n, rfl, Nat.le_refl n⟩
  | some k => exact ⟨max k n, rfl, Nat.le_max_right k n⟩

theorem Covers.noteSerial {pending serial : Option InputSerial} (h : Covers pending serial)
    (other : Option InputSerial) : Covers (noteSerial pending other) serial := by
  intro n hn
  obtain ⟨k, rfl, hk⟩ := h n hn
  cases other with
  | none => exact ⟨k, rfl, hk⟩
  | some m => exact ⟨max k m, rfl, hk.trans (Nat.le_max_left k m)⟩

def Collects (pane : PaneId) (e : Event) : Prop := ∃ taken, e = .collected pane taken

/-- A collect for the pane that took a serial at least as large. -/
def Takes (pane : PaneId) (serial : Option InputSerial) (e : Event) : Prop :=
  ∃ taken, e = .collected pane taken ∧ Covers taken serial

/-- The refresh of the pane has started: it collected, or found no pane. -/
def Starts (pane : PaneId) (e : Event) : Prop := e = .missing pane ∨ Collects pane e

/-- The serial of each call is noted until it is taken, and the pane of each call that returned
waits until a refresh of it starts. -/
structure Accounted (s : Session) : Prop where
  calls : ∀ call ∈ s.calls, ∃ serial, At s.log call.position (.called call.pane serial)
  marked : ∀ m c, At s.log m (.marked c) → c < m ∧ ∃ pane serial, At s.log c (.called pane serial)
  noted : ∀ c pane serial, At s.log c (.called pane serial) →
    (Covers (s.pendingInputSerial pane) serial ∧ ¬ After s.log c (Collects pane)) ∨
      After s.log c (Takes pane serial)
  waits : ∀ m c pane serial, At s.log m (.marked c) → At s.log c (.called pane serial) →
    s.Waiting pane ∨ After s.log m (Starts pane)

theorem accounted_new : Accounted new := by
  refine ⟨?_, ?_, ?_, ?_⟩
  · intro call hcall
    cases hcall
  · intro m c h
    exact absurd h at_nil
  · intro c pane serial h
    exact absurd h at_nil
  · intro m c pane serial h
    exact absurd h at_nil

theorem Accounted.silent (h : s.Accounted) (hlog : s'.log = s.log) (hcalls : s'.calls = s.calls)
    (hpending : s'.pendingInputSerial = s.pendingInputSerial)
    (hwait : ∀ pane, s.Waiting pane → s'.Waiting pane) : s'.Accounted := by
  refine ⟨?_, ?_, ?_, ?_⟩
  · rw [hlog, hcalls]
    exact h.calls
  · rw [hlog]
    exact h.marked
  · rw [hlog, hpending]
    exact h.noted
  · intro m c pane serial hm hc
    rw [hlog] at hm hc ⊢
    exact (h.waits m c pane serial hm hc).imp_left (hwait pane)

theorem Accounted.append (h : s.Accounted) {e : Event} (hlog : s'.log = s.log ++ [e])
    (hcalls : ∀ call ∈ s'.calls, call ∈ s.calls ∨
      call.position = s.log.length ∧ ∃ serial, e = .called call.pane serial)
    (hmark : ∀ c, e = .marked c → ∃ pane serial, At s.log c (.called pane serial) ∧ s'.Waiting pane)
    (hnote : ∀ pane serial, e = .called pane serial → Covers (s'.pendingInputSerial pane) serial)
    (hkeep : ∀ pane, (∀ serial, Covers (s.pendingInputSerial pane) serial →
        Covers (s'.pendingInputSerial pane) serial) ∧ ¬ Collects pane e ∨
      e = .collected pane (s.pendingInputSerial pane))
    (hwait : ∀ pane, s.Waiting pane → s'.Waiting pane ∨ Starts pane e) : s'.Accounted := by
  refine ⟨?_, ?_, ?_, ?_⟩
  · intro call hcall
    rw [hlog]
    rcases hcalls call hcall with hcall | ⟨hpos, serial, rfl⟩
    · obtain ⟨serial, hat⟩ := h.calls call hcall
      exact ⟨serial, hat.concat e⟩
    · exact ⟨serial, at_concat.mpr (.inr ⟨hpos, rfl⟩)⟩
  · intro m c hm
    rw [hlog] at hm ⊢
    rcases at_concat.mp hm with hm | ⟨rfl, he⟩
    · obtain ⟨hlt, pane, serial, hat⟩ := h.marked m c hm
      exact ⟨hlt, pane, serial, hat.concat e⟩
    · obtain ⟨pane, serial, hat, -⟩ := hmark c he.symm
      exact ⟨hat.lt, pane, serial, hat.concat e⟩
  · intro c pane serial hc
    rw [hlog] at hc ⊢
    rcases at_concat.mp hc with hat | ⟨rfl, he⟩
    · rcases h.noted c pane serial hat with ⟨hcov, hnone⟩ | htaken
      · rcases hkeep pane with ⟨hkept, he⟩ | rfl
        · refine .inl ⟨hkept serial hcov, ?_⟩
          intro hafter
          exact (after_concat hafter).elim hnone he
        · exact .inr (after_concat_self hat.lt ⟨_, rfl, hcov⟩)
      · exact .inr (htaken.concat e)
    · exact .inl ⟨hnote pane serial he.symm, not_after_end (by simp)⟩
  · intro m c pane serial hm hc
    rw [hlog] at hm hc ⊢
    rcases at_concat.mp hm with hm | ⟨rfl, he⟩
    · -- the call had returned before; its own entry is still earlier
      obtain ⟨hlt, pane', serial', hat⟩ := h.marked m c hm
      obtain ⟨rfl, rfl⟩ := Event.called.inj ((hat.concat e).unique hc)
      rcases h.waits m c pane' serial' hm hat with hw | hstarted
      · rcases hwait pane' hw with hw | hs
        · exact .inl hw
        · exact .inr (after_concat_self hm.lt hs)
      · exact .inr (hstarted.concat e)
    · obtain ⟨pane', serial', hat, hw⟩ := hmark c he.symm
      obtain ⟨rfl, rfl⟩ := Event.called.inj ((hat.concat e).unique hc)
      exact .inl hw

theorem waiting_handover {next : Option PaneId} {base : Session}
    (hand : RenderSchedulerState.Handover state next base.state) {pane : PaneId}
    (h : pane ∈ state.dirty ∨ ⟨pane, .spawned⟩ ∈ base.outstanding) :
    (base.spawnCompute next).Waiting pane := by
  rcases h with h | h
  · rcases hand.kept pane h with h | rfl
    · exact .inl h
    · exact .inr (List.mem_append_right _ (by simp))
  · exact .inr (List.mem_append_left _ h)

theorem accounted_step (hb : s.Balanced) (h : s.Accounted) (hstep : s.step action = some s') :
    s'.Accounted := by
  rcases step_cases hb hstep with ⟨pane, serial, -, rfl⟩ | ⟨i, call, -, hcall, rfl⟩ |
    ⟨pane, empty, hout, rfl⟩ | ⟨pane, hout, rfl⟩ | ⟨pane, stage, stage', hout, hstage, rfl⟩ |
    ⟨pane, stage, hout, hstage, hactive, rfl⟩
  · refine h.append rfl ?_ ?_ ?_ ?_ fun _ hw => .inl hw
    · intro call hcall
      rcases List.mem_append.mp hcall with hcall | hcall
      · exact .inl hcall
      · obtain rfl := List.mem_singleton.mp hcall
        exact .inr ⟨rfl, serial, rfl⟩
    · intro c he
      cases he
    · intro pane' serial' he
      obtain ⟨rfl, rfl⟩ := Event.called.inj he
      show Covers (Function.update s.pendingInputSerial pane _ pane) serial
      rw [Function.update_self]
      exact covers_noteSerial _ _
    · intro pane'
      refine .inl ⟨?_, ?_⟩
      · intro serial' hcov
        show Covers (Function.update s.pendingInputSerial pane _ pane') serial'
        by_cases hp : pane' = pane
        · subst hp
          rw [Function.update_self]
          exact hcov.noteSerial serial
        · rwa [Function.update_of_ne hp]
      · rintro ⟨taken, he⟩
        cases he
  · obtain ⟨serial, hat⟩ := h.calls call hcall
    obtain ⟨hand, -, -⟩ := RenderSchedulerState.handover_schedule hb.consistent call.pane
    have hmem : ∀ p, p ∈ s.state.dirty ∨ p = call.pane → p ∈ (s.state.markDirty call.pane).dirty :=
      fun p hp => RenderSchedulerState.mem_markDirty hb.consistent hp
    refine h.append rfl ?_ ?_ ?_ ?_ ?_
    · intro c hc
      exact .inl (List.mem_of_mem_eraseIdx hc)
    · intro c he
      obtain rfl := Event.marked.inj he
      exact ⟨call.pane, serial, hat, waiting_handover hand (.inl (hmem _ (.inr rfl)))⟩
    · intro pane' serial' he
      cases he
    · intro pane'
      refine .inl ⟨fun _ hcov => hcov, ?_⟩
      rintro ⟨taken, he⟩
      cases he
    · intro pane' hw
      exact .inl (waiting_handover hand (hw.imp_left fun hp => hmem _ (.inl hp)))
  · refine h.append rfl ?_ ?_ ?_ ?_ ?_
    · exact fun call hcall => .inl hcall
    · intro c he
      cases he
    · intro pane' serial' he
      cases he
    · intro pane'
      by_cases hp : pane' = pane
      · subst hp
        exact .inr rfl
      · refine .inl ⟨?_, ?_⟩
        · intro serial' hcov
          show Covers (Function.update s.pendingInputSerial pane none pane') serial'
          rwa [Function.update_of_ne hp]
        · rintro ⟨taken, he⟩
          exact hp (Event.collected.inj he).1.symm
    · intro pane' hw
      rcases hw with hw | hw
      · exact .inl (.inl hw)
      · -- the refresh that starts is the only one under way
        rw [hout, List.mem_singleton] at hw
        obtain rfl := congrArg Refresh.paneId hw
        exact .inr (.inr ⟨_, rfl⟩)
  · refine h.append rfl ?_ ?_ ?_ ?_ ?_
    · exact fun call hcall => .inl hcall
    · intro c he
      cases he
    · intro pane' serial' he
      cases he
    · intro pane'
      refine .inl ⟨fun _ hcov => hcov, ?_⟩
      rintro ⟨taken, he⟩
      cases he
    · intro pane' hw
      rcases hw with hw | hw
      · exact .inl (.inl hw)
      · rw [hout, List.mem_singleton] at hw
        obtain rfl := congrArg Refresh.paneId hw
        exact .inr (.inl rfl)
  · refine h.silent rfl rfl rfl ?_
    rintro pane' (hw | hw)
    · exact .inl hw
    · rw [hout, List.mem_singleton] at hw
      exact absurd (congrArg Refresh.stage hw).symm hstage
  · obtain ⟨hand, -⟩ := RenderSchedulerState.handover_completeOne hb.consistent hactive
    refine h.silent rfl rfl rfl ?_
    rintro pane' (hw | hw)
    · exact waiting_handover hand (.inl hw)
    · rw [hout, List.mem_singleton] at hw
      exact absurd (congrArg Refresh.stage hw).symm hstage

theorem run_invariants (actions : List Action) :
    ∀ {s s' : Session}, s.Balanced → s.Accounted → s.run actions = some s' →
    s'.Balanced ∧ s'.Accounted := by
  induction actions with
  | nil =>
    intro s s' hb h hrun
    cases hrun
    exact ⟨hb, h⟩
  | cons action actions ih =>
    intro s s' hb h hrun
    simp only [run, Option.bind_eq_bind, Option.bind_eq_some_iff] at hrun
    obtain ⟨s₁, hstep, hrun⟩ := hrun
    exact ih (balanced_step hb hstep) (accounted_step hb h hstep) hrun

end Session

end Wakterm.MuxServer
