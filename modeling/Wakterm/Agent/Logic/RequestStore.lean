import Wakterm.Agent.Logic.Request
import Wakterm.Agent.Request

/-!
# What the calls of the request store do

Each call is described by what it does to `get` and `hasEvent`.
-/

namespace Wakterm.Agent

namespace AgentRequestStore

variable {sha256 : String → String} {store store' : AgentRequestStore}

theorem get_insert (store : AgentRequestStore) (requestId id : String) (row : RequestRow) :
    ({ store with requests := store.requests.insert requestId row } : AgentRequestStore).get id =
      if id = requestId then some row.snapshot else store.get id := by
  unfold get AgentRequestStore.row
  by_cases h : id = requestId
  · subst h
    rw [if_pos rfl, AList.lookup_insert]
    rfl
  · rw [if_neg h, AList.lookup_insert_ne h]

theorem get_erase (store : AgentRequestStore) (requestId id : String) :
    ({ store with requests := store.requests.erase requestId } : AgentRequestStore).get id =
      if id = requestId then none else store.get id := by
  unfold get AgentRequestStore.row
  by_cases h : id = requestId
  · subst h
    rw [if_pos rfl, AList.lookup_erase]
    rfl
  · rw [if_neg h, AList.lookup_erase_ne h]

theorem get_eq_none_iff {id : String} : store.get id = none ↔ store.row id = none := by
  unfold get
  exact Option.map_eq_none_iff

theorem get_update (store : AgentRequestStore) (request : AgentRequest) (id : String) :
    (store.update request).get id =
      if id = request.requestId ∧ (store.get id).isSome then some request else store.get id := by
  unfold update
  cases hrow : store.row request.requestId with
  | none =>
    have hnone := get_eq_none_iff.mpr hrow
    rw [if_neg]
    rintro ⟨rfl, hsome⟩
    rw [hnone] at hsome
    cases hsome
  | some row =>
    have hsome : (store.get request.requestId).isSome := by
      unfold get
      rw [hrow]
      rfl
    dsimp only
    rw [get_insert]
    by_cases hid : id = request.requestId
    · rw [if_pos hid, if_pos ⟨hid, hid ▸ hsome⟩]
    · rw [if_neg hid, if_neg (fun h => hid h.1)]

@[simp] theorem hasEvent_update (store : AgentRequestStore) (request : AgentRequest)
    (id : String) : (store.update request).hasEvent id = store.hasEvent id := by
  unfold update hasEvent
  cases store.row request.requestId <;> rfl

variable {request stored saved : AgentRequest} {requestId : String}

theorem create_cases {created : Bool}
    (h : store.create sha256 request = .ok (stored, created, store')) :
    (created = false ∧ store' = store) ∨
      (created = true ∧ stored = request ∧ store.get request.requestId = none ∧
        (∀ id, store'.get id = if id = request.requestId then some request else store.get id) ∧
        ∀ id, store'.hasEvent id = store.hasEvent id) := by
  unfold create at h
  cases hrow : store.row request.requestId with
  | none =>
    simp only [hrow] at h
    cases h
    exact .inr ⟨rfl, rfl, get_eq_none_iff.mpr hrow, fun id => get_insert store _ id _,
      fun _ => rfl⟩
  | some row =>
    simp only [hrow] at h
    split at h
    · cases h
    · simp only [Except.ok.injEq, Prod.mk.injEq] at h
      exact .inl ⟨h.2.1.symm, h.2.2.symm⟩

theorem insertEvent_spec (h : store.insertEvent requestId = some store') :
    (∀ id, store'.get id = store.get id) ∧
      ∀ id, store'.hasEvent id = (store.hasEvent id || decide (requestId = id)) := by
  unfold insertEvent at h
  split at h
  · rename_i hhas
    cases h
    refine ⟨fun _ => rfl, fun id => ?_⟩
    by_cases hid : requestId = id
    · subst hid
      simp [hhas]
    · simp [hid]
  · split at h
    · cases h
    · cases h
      refine ⟨fun _ => rfl, fun id => ?_⟩
      unfold hasEvent
      simp [List.any_append]

theorem save_spec (h : store.save request = some (store', saved)) :
    saved.requestId = request.requestId ∧ saved.state = request.state ∧
      (request.state.isTerminal = false →
        saved.terminalEventSequence = request.terminalEventSequence) ∧
      (∀ id, store'.get id =
        if id = request.requestId ∧ (store.get id).isSome then some saved else store.get id) ∧
      ∀ id, store'.hasEvent id = (store.hasEvent id ||
        decide (request.requestId = id ∧ request.state.isTerminal = true ∧
          request.terminalEventSequence = none)) := by
  unfold save at h
  by_cases hends : request.state.isTerminal = true ∧ request.terminalEventSequence = none
  · rw [if_pos hends] at h
    obtain ⟨mid, hmid, heq⟩ := Option.map_eq_some_iff.mp h
    obtain ⟨hget, hevent⟩ := insertEvent_spec hmid
    simp only [Prod.mk.injEq] at heq
    obtain ⟨rfl, rfl⟩ := heq
    refine ⟨rfl, rfl, ?_, ?_, ?_⟩
    · intro hlive
      rw [hends.1] at hlive
      cases hlive
    · intro id
      rw [get_update, hget]
    · intro id
      rw [hasEvent_update, hevent]
      simp [hends]
  · rw [if_neg hends] at h
    cases h
    refine ⟨rfl, rfl, fun _ => rfl, fun id => get_update store request id, ?_⟩
    intro id
    rw [hasEvent_update]
    simp only [hends, and_false, decide_false, Bool.or_false]

theorem deleteRegistered_spec (h : store.deleteRegistered requestId = some store') :
    (∀ id, store'.hasEvent id = store.hasEvent id) ∧ (store' = store ∨
        ∃ registered, store.get requestId = some registered ∧ registered.state = .registered ∧
          ∀ id, store'.get id = if id = requestId then none else store.get id) := by
  unfold deleteRegistered at h
  cases hrow : store.row requestId with
  | none =>
    simp only [hrow] at h
    cases h
    exact ⟨fun _ => rfl, .inl rfl⟩
  | some row =>
    simp only [hrow] at h
    split at h
    · rename_i hregistered
      split at h
      · cases h
      · cases h
        refine ⟨fun _ => rfl, .inr ⟨row.snapshot, ?_, hregistered, ?_⟩⟩
        · unfold get
          rw [hrow]
          rfl
        · intro id
          exact get_erase store requestId id
    · cases h
      exact ⟨fun _ => rfl, .inl rfl⟩

theorem mem_active (h : request ∈ store.active) :
    ∃ id, store.get id = some request ∧ store.hasEvent id = false := by
  unfold active at h
  obtain ⟨entry, hentry, rfl⟩ := List.mem_map.mp h
  obtain ⟨hmem, hevent⟩ := List.mem_filter.mp hentry
  refine ⟨entry.1, ?_, by simpa using hevent⟩
  unfold get AgentRequestStore.row
  have hlookup : AList.lookup entry.1 store.requests = some entry.2 := AList.mem_lookup_iff.mpr hmem
  rw [hlookup]
  rfl

theorem mem_eventsAfter {after limit : Nat} (h : request ∈ store.eventsAfter after limit) :
    ∃ id, store.get id = some request ∧ store.hasEvent id = true := by
  obtain ⟨event, hmem, hget⟩ := List.mem_filterMap.mp (List.mem_of_mem_take h)
  refine ⟨event.2, hget, ?_⟩
  unfold hasEvent
  rw [List.any_eq_true]
  exact ⟨event, (List.mem_filter.mp hmem).1, by simp⟩

/-- The requests with an event are those that have ended. -/
structure Sound (store : AgentRequestStore) : Prop where
  unsettled : ∀ id request, store.get id = some request → request.state.isTerminal = false →
    request.terminalEventSequence = none
  settled : ∀ id request, store.get id = some request → request.state.isTerminal = true →
    store.hasEvent id = true
  event : ∀ id, store.hasEvent id = true →
    ∃ request, store.get id = some request ∧ request.state.isTerminal = true

theorem sound_empty : Sound empty where
  unsettled := by
    intro id request h
    cases h
  settled := by
    intro id request h
    cases h
  event := by
    intro id h
    cases h

theorem Sound.create (hsound : Sound store) (hnone : store.get request.requestId = none)
    (hregistered : request.state = .registered) (hsequence : request.terminalEventSequence = none)
    (hget : ∀ id, store'.get id = if id = request.requestId then some request else store.get id)
    (hevent : ∀ id, store'.hasEvent id = store.hasEvent id) : Sound store' := by
  refine ⟨?_, ?_, ?_⟩
  · intro id r hr
    rw [hget] at hr
    by_cases hid : id = request.requestId
    · rw [if_pos hid] at hr
      cases hr
      exact fun _ => hsequence
    · rw [if_neg hid] at hr
      exact hsound.unsettled id r hr
  · intro id r hr hterminal
    rw [hget] at hr
    rw [hevent]
    by_cases hid : id = request.requestId
    · rw [if_pos hid] at hr
      cases hr
      rw [hregistered] at hterminal
      cases hterminal
    · rw [if_neg hid] at hr
      exact hsound.settled id r hr hterminal
  · intro id hid
    rw [hevent] at hid
    obtain ⟨r, hr, hterminal⟩ := hsound.event id hid
    refine ⟨r, ?_, hterminal⟩
    rw [hget, if_neg]
    · exact hr
    · rintro rfl
      rw [hnone] at hr
      cases hr

theorem Sound.save (hsound : Sound store) (h : store.save request = some (store', saved))
    (hsequence : request.terminalEventSequence = none)
    (hstored : store.get request.requestId = some stored) (hlive : stored.state.isTerminal = false)
    : Sound store' := by
  obtain ⟨_, hstate, hkept, hget, hevent⟩ := save_spec h
  have hself : store'.get request.requestId = some saved := by
    rw [hget, if_pos ⟨rfl, by rw [hstored]; rfl⟩]
  have hother : ∀ id, id ≠ request.requestId → store'.get id = store.get id := by
    intro id hid
    rw [hget, if_neg (fun hc => hid hc.1)]
  refine ⟨?_, ?_, ?_⟩
  · intro id r hr hr'
    by_cases hid : id = request.requestId
    · subst hid
      rw [hself] at hr
      cases hr
      rw [hkept (hstate ▸ hr'), hsequence]
    · rw [hother id hid] at hr
      exact hsound.unsettled id r hr hr'
  · intro id r hr hterminal
    rw [hevent]
    by_cases hid : id = request.requestId
    · subst hid
      rw [hself] at hr
      cases hr
      rw [hstate] at hterminal
      simp [hterminal, hsequence]
    · rw [hother id hid] at hr
      rw [hsound.settled id r hr hterminal]
      rfl
  · intro id hid
    rw [hevent, Bool.or_eq_true, decide_eq_true_eq] at hid
    rcases hid with hid | ⟨rfl, hterminal, _⟩
    · obtain ⟨r, hr, hterminal⟩ := hsound.event id hid
      refine ⟨r, ?_, hterminal⟩
      rw [hother id, hr]
      rintro rfl
      rw [hstored] at hr
      cases hr
      rw [hlive] at hterminal
      cases hterminal
    · exact ⟨saved, hself, hstate ▸ hterminal⟩

theorem Sound.deleteRegistered (hsound : Sound store)
    (h : store.deleteRegistered requestId = some store') : Sound store' := by
  obtain ⟨hevent, rfl | ⟨registered, hregistered, hstate, hget⟩⟩ := deleteRegistered_spec h
  · exact hsound
  refine ⟨?_, ?_, ?_⟩
  · intro id r hr
    rw [hget] at hr
    split at hr
    · cases hr
    · exact hsound.unsettled id r hr
  · intro id r hr hterminal
    rw [hevent]
    rw [hget] at hr
    split at hr
    · cases hr
    · exact hsound.settled id r hr hterminal
  · intro id hid
    rw [hevent] at hid
    obtain ⟨r, hr, hterminal⟩ := hsound.event id hid
    refine ⟨r, ?_, hterminal⟩
    rw [hget, if_neg, hr]
    rintro rfl
    rw [hregistered] at hr
    cases hr
    rw [hstate] at hterminal
    cases hterminal

end AgentRequestStore

namespace AgentRequest

theorem reconcile_sequence (r : AgentRequest) (metadata : Option AgentMetadata)
    (runtime : Option AgentRuntimeSnapshot) (now : DateTime) :
    (r.reconcile metadata runtime now).terminalEventSequence = r.terminalEventSequence := by
  rcases reconcile_cases r metadata runtime now with he | ⟨state, detail, -, he⟩ <;> rw [he]
  rfl

/-- The request that one event leads to, whether the loop goes on or not. -/
def EventStep.request : EventStep → AgentRequest
  | .next r => r
  | .stop r => r

theorem turnStarted_sequence (r : AgentRequest) (e : AgentEvent) (t : String) (now : DateTime) :
    (r.turnStarted e t now).request.terminalEventSequence = r.terminalEventSequence := by
  cases h : r.turnStarted e t now with
  | next r' => rcases turnStarted_next h with rfl | ⟨rfl, _⟩ <;> rfl
  | stop r' =>
    obtain ⟨detail, rfl⟩ := turnStarted_stop h
    rfl

theorem turnFinal_sequence (r : AgentRequest) (e : AgentEvent) (t : String) (now : DateTime) :
    (r.turnFinal e t now).request.terminalEventSequence = r.terminalEventSequence := by
  cases h : r.turnFinal e t now with
  | next r' =>
    rw [turnFinal_next h]
    rfl
  | stop r' => rcases turnFinal_stop h with ⟨_, _, _, _, rfl⟩ | ⟨_, _, _, _, rfl⟩ <;> rfl

theorem reconcileEvent_sequence (r : AgentRequest) (e : AgentEvent) (now : DateTime) :
    (r.reconcileEvent e now).request.terminalEventSequence = r.terminalEventSequence := by
  unfold reconcileEvent
  dsimp only
  split
  · rfl
  cases e.turnId with
  | none => rfl
  | some t =>
    dsimp only
    split
    · rfl
    cases e.kind
    case turnStarted => exact turnStarted_sequence _ e t now
    case turnFinal => exact turnFinal_sequence _ e t now
    all_goals rfl

theorem reconcileEvents_sequence (r : AgentRequest) (now : DateTime) (events : List AgentEvent) :
    (r.reconcileEvents now events).1.terminalEventSequence = r.terminalEventSequence := by
  induction events generalizing r with
  | nil => rfl
  | cons e events ih =>
    have hstep := reconcileEvent_sequence r e now
    unfold reconcileEvents
    cases h : r.reconcileEvent e now with
    | next r' =>
      rw [h] at hstep
      exact (ih r').trans hstep
    | stop r' =>
      rw [h] at hstep
      exact hstep

theorem reconcileEventPage_sequence (r : AgentRequest) (page : AgentEventPage) (now : DateTime) :
    (r.reconcileEventPage page now).terminalEventSequence = r.terminalEventSequence := by
  have hloop := reconcileEvents_sequence r now page.events
  unfold reconcileEventPage
  split
  · rfl
  split
  · rfl
  cases h : r.reconcileEvents now page.events with
  | mk r' ran =>
    rw [h] at hloop
    cases ran <;> exact hloop

end AgentRequest

end Wakterm.Agent
