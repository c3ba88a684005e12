import Wakterm.Agent.Logic.RequestStore
import Wakterm.Agent.Service

/-!
# Saves of the agent service

What a step of the server can do to the request store (`step_requests`). Copies are loaded in one
step and saved in another.
-/

namespace Wakterm.Agent

/-- The request that a return-final attempt carries along. -/
def AdmissionStage.returnRequest : AdmissionStage → Option AgentRequest
  | .prepared returnRequest | .typed returnRequest | .delivered returnRequest => returnRequest
  | .failed returnRequest _ => returnRequest
  | _ => none

/-- The request that an attempt's step saves: its own copy, submitted or failed. -/
def AdmissionStage.saves : AdmissionStage → AdmissionInput → Option AgentRequest
  | .delivered (some nested), .record now none => some (nested.markSubmitted now)
  | .failed (some nested) detail, .record now none =>
    some (nested.finish .indeterminate now detail)
  | _, _ => none

namespace Service

variable {sha256 : List UInt8 → String}

/-- The request that a step hands to `save`: an admission's own copy, a watcher's, or that of
the recovery. -/
def savedRequest (s : Service) : Action → Option AgentRequest
  | .admitPrompt k input => (s.attempts k).bind fun attempt => attempt.stage.saves input
  | .watch k input => (s.watchers k).saves input
  | .recover requestId now => s.recovers requestId now
  | _ => none

/-- A step that saves a request does so while the store holds that request and has no
terminal snapshot of it. -/
def SavesLive (s : Service) (action : Action) : Prop :=
  ∀ request, s.savedRequest action = some request →
    ∃ stored, s.stores.requests.get request.requestId = some stored ∧
      stored.state.isTerminal = false

def RunSavesLive (sha256 : List UInt8 → String) (s : Service) : List Action → Prop
  | [] => True
  | action :: actions =>
    s.SavesLive action ∧ ∀ s', s.step sha256 action = some s' → RunSavesLive sha256 s' actions

instance (s : Service) (action : Action) : Decidable (s.SavesLive action) :=
  decidable_of_iff
    ((s.savedRequest action).all fun request =>
      (s.stores.requests.get request.requestId).any fun stored => !stored.state.isTerminal) (by
    unfold SavesLive
    cases s.savedRequest action with
    | none => simp
    | some request =>
      cases hget : s.stores.requests.get request.requestId <;> simp [hget])

instance decidableRunSavesLive (sha256 : List UInt8 → String) :
    ∀ (actions : List Action) (s : Service), Decidable (RunSavesLive sha256 s actions)
  | [], _ => isTrue trivial
  | action :: actions, s =>
    match h : s.step sha256 action with
    | none => decidable_of_iff (s.SavesLive action)
        ⟨fun hlive => ⟨hlive, fun s' hs => by rw [h] at hs; cases hs⟩, fun hrun => hrun.1⟩
    | some s' =>
      have := decidableRunSavesLive sha256 actions s'
      decidable_of_iff (s.SavesLive action ∧ RunSavesLive sha256 s' actions)
        ⟨fun hlive => ⟨hlive.1, fun t ht => by rw [h] at ht; cases ht; exact hlive.2⟩,
          fun hrun => ⟨hrun.1, hrun.2 s' h⟩⟩

/-- What a step does to the request store, when it hands `saved` to `save`. -/
inductive RequestsStep (store : AgentRequestStore) (saved : Option AgentRequest) :
    AgentRequestStore → Prop
  | same : RequestsStep store saved store
  | create (request : AgentRequest) (store' : AgentRequestStore)
      (hnone : store.get request.requestId = none) (hregistered : request.state = .registered)
      (hsequence : request.terminalEventSequence = none)
      (hget : ∀ id, store'.get id =
        if id = request.requestId then some request else store.get id)
      (hevent : ∀ id, store'.hasEvent id = store.hasEvent id) : RequestsStep store saved store'
  | save (request result : AgentRequest) (store' : AgentRequestStore)
      (hsaved : saved = some request) (h : store.save request = some (store', result)) :
      RequestsStep store saved store'
  | delete (requestId : String) (store' : AgentRequestStore)
      (h : store.deleteRegistered requestId = some store') : RequestsStep store saved store'

variable {candidate : AgentAdmissionCandidate} {result request : AgentRequest}
  {registeredAt now : DateTime}

theorem proposedReturnRequest_some {request : AgentPromptAdmissionRequest} {proposed : AgentRequest}
    (h : candidate.proposedReturnRequest sha256 request now registeredAt = .ok (some proposed)) :
    request.returnFinal = true ∧ proposed.requestId = request.requestId ∧
      proposed.state = .registered ∧ proposed.terminalEventSequence = none := by
  unfold AgentAdmissionCandidate.proposedReturnRequest at h
  split at h
  · cases h
  rename_i hfinal
  refine ⟨by simpa using hfinal, ?_⟩
  dsimp only at h
  split at h
  · unfold AgentRequest.newManagedCodex at h
    cases hv : validateManagedBaseline candidate.metadata candidate.runtime
        candidate.eventStreamLive with
    | error e => simp [hv] at h
    | ok u =>
      simp [hv] at h
      cases h
      exact ⟨rfl, rfl, rfl⟩
  · unfold AgentRequest.new at h
    cases hv : validateBaseline candidate.metadata candidate.runtime
        candidate.eventStreamLive with
    | error e => simp [hv] at h
    | ok u =>
      simp [hv] at h
      cases h
      exact ⟨rfl, rfl, rfl⟩

theorem proposedReturnRequest_none {request : AgentPromptAdmissionRequest}
    (h : candidate.proposedReturnRequest sha256 request now registeredAt = .ok none) :
    request.returnFinal = false := by
  unfold AgentAdmissionCandidate.proposedReturnRequest at h
  split at h
  · rename_i hone
    simpa using hone
  dsimp only at h
  split at h
  · cases hnew : AgentRequest.newManagedCodex (textSha256 sha256) _ registeredAt with
    | error e =>
      rw [hnew] at h
      cases h
    | ok r =>
      rw [hnew] at h
      cases h
  · cases hnew : AgentRequest.new (textSha256 sha256) _ registeredAt with
    | error e =>
      rw [hnew] at h
      cases h
    | ok r =>
      rw [hnew] at h
      cases h

section Advance

variable {request : AgentPromptAdmissionRequest} {stores stores' : Stores}
  {stage stage' : AdmissionStage} {input : AdmissionInput}

variable {err : Option String} {now : DateTime}

theorem lookup_requests (h : lookup sha256 request stores err = (stores', stage')) :
    stores'.requests = stores.requests ∧ stage'.returnRequest = none := by
  unfold lookup at h
  cases err with
  | some err =>
    dsimp only at h
    split at h <;> cases h <;> exact ⟨rfl, rfl⟩
  | none =>
    dsimp only at h
    split at h
    · split at h
      · cases h
        exact ⟨rfl, rfl⟩
      · split at h
        · cases h
          exact ⟨rfl, rfl⟩
        · split at h <;> cases h <;> exact ⟨rfl, rfl⟩
    · split at h <;> cases h <;> exact ⟨rfl, rfl⟩

theorem propose_requests {candidate : AgentAdmissionCandidate} {registeredAt : DateTime}
    (h : propose sha256 request stores candidate now registeredAt err = (stores', stage')) :
    RequestsStep stores.requests none stores'.requests ∧
      ∀ r, stage'.returnRequest = some r → r.terminalEventSequence = none := by
  unfold propose at h
  cases hprop : candidate.proposedReturnRequest sha256 request now registeredAt with
  | error e =>
    simp only [hprop] at h
    cases h
    exact ⟨.same, fun r hr => nomatch hr⟩
  | ok proposed? =>
    cases proposed? with
    | none =>
      simp only [hprop] at h
      cases h
      exact ⟨.same, fun r hr => nomatch hr⟩
    | some proposed =>
      obtain ⟨_, _, hregistered, hsequence⟩ := proposedReturnRequest_some hprop
      simp only [hprop] at h
      split at h
      · cases h
        exact ⟨.same, fun r hr => nomatch hr⟩
      · split at h <;> cases h <;> exact ⟨.same, fun r hr => nomatch hr⟩
      · rename_i stored requests hcreate
        cases h
        cases err with
        | some e => cases hcreate
        | none =>
          rcases AgentRequestStore.create_cases hcreate with
            ⟨hf, _⟩ | ⟨_, rfl, hnone, hget, hevent⟩
          · cases hf
          · refine ⟨.create stored _ hnone hregistered hsequence hget hevent, ?_⟩
            intro r hr
            cases hr
            exact hsequence

theorem recordSubmitted_requests {nested : AgentRequest}
    (h : recordSubmitted request stores nested now err = (stores', stage')) :
    RequestsStep stores.requests ((AdmissionStage.delivered (some nested)).saves (.record now err))
        stores'.requests ∧ stage'.returnRequest = none := by
  unfold recordSubmitted at h
  cases err with
  | some e =>
    cases h
    exact ⟨.same, rfl⟩
  | none =>
    dsimp only at h
    split at h
    · cases h
      exact ⟨.same, rfl⟩
    · rename_i requests saved hsave
      cases h
      exact ⟨.save _ saved _ rfl hsave, rfl⟩

theorem recordFailed_requests {returnRequest : Option AgentRequest} {detail : String}
    (h : recordFailed request stores returnRequest detail now err = (stores', stage')) :
    RequestsStep stores.requests
        ((AdmissionStage.failed returnRequest detail).saves (.record now err))
        stores'.requests ∧ stage'.returnRequest = none := by
  unfold recordFailed at h
  cases returnRequest with
  | none =>
    cases h
    exact ⟨.same, rfl⟩
  | some nested =>
    cases err with
    | some e =>
      cases h
      exact ⟨.same, rfl⟩
    | none =>
      simp only [Option.isSome_none, Bool.false_eq_true, if_false, Prod.mk.injEq] at h
      obtain ⟨rfl, rfl⟩ := h
      refine ⟨?_, rfl⟩
      cases hsave : stores.requests.save (nested.finish .indeterminate now detail) with
      | none => exact .same
      | some pair => exact .save _ pair.2 _ rfl hsave

theorem releaseUnwrittenClaim_requests {rejection : Rejection}
    (h : releaseUnwrittenClaim request stores rejection err = (stores', stage')) :
    RequestsStep stores.requests none stores'.requests ∧ stage'.returnRequest = none := by
  unfold releaseUnwrittenClaim at h
  cases err with
  | some e =>
    cases h
    exact ⟨.same, rfl⟩
  | none =>
    dsimp only at h
    split at h
    · split at h
      · cases h
        exact ⟨.same, rfl⟩
      · rename_i requests hdelete
        cases h
        exact ⟨.delete request.requestId _ hdelete, rfl⟩
    · cases h
      exact ⟨.same, rfl⟩

theorem recordConfirmed_requests {receipt : AgentAdmissionReceipt}
    (h : recordConfirmed request stores receipt err = (stores', stage')) :
    stores'.requests = stores.requests ∧ stage'.returnRequest = none := by
  unfold recordConfirmed at h
  cases err with
  | some e =>
    cases h
    exact ⟨rfl, rfl⟩
  | none =>
    dsimp only at h
    split at h <;> cases h <;> exact ⟨rfl, rfl⟩

/-- What an attempt's step does to the request store, and the copy it then carries: one that
it registered, or the one it had. -/
theorem advance_requests (h : advance sha256 request stores stage input = some (stores', stage')) :
    RequestsStep stores.requests (stage.saves input) stores'.requests ∧
      ∀ r, stage'.returnRequest = some r →
        r.terminalEventSequence = none ∨ stage.returnRequest = some r := by
  unfold advance at h
  split at h
  case h_1 =>
      obtain ⟨hreq, hstage⟩ := lookup_requests (Option.some.inj h)
      rw [hreq, hstage]
      exact ⟨.same, fun r hr => nomatch hr⟩
  case h_3 =>
      obtain ⟨hreq, hstage⟩ := propose_requests (Option.some.inj h)
      exact ⟨hreq, fun r hr => .inl (hstage r hr)⟩
  case h_8 =>
      obtain ⟨hreq, hstage⟩ := recordSubmitted_requests (Option.some.inj h)
      rw [hstage]
      exact ⟨hreq, fun r hr => nomatch hr⟩
  case h_9 =>
      obtain ⟨hreq, hstage⟩ := recordConfirmed_requests (Option.some.inj h)
      rw [hreq, hstage]
      exact ⟨.same, fun r hr => nomatch hr⟩
  case h_10 =>
      obtain ⟨hreq, hstage⟩ := recordFailed_requests (Option.some.inj h)
      rw [hstage]
      exact ⟨hreq, fun r hr => nomatch hr⟩
  case h_11 =>
      obtain ⟨hreq, hstage⟩ := releaseUnwrittenClaim_requests (Option.some.inj h)
      rw [hstage]
      exact ⟨hreq, fun r hr => nomatch hr⟩
  case h_12 => cases h
  -- The other steps leave the stores alone and hand on what they carry.
  all_goals
    repeat' split at h
    all_goals first
      | cases h; exact ⟨.same, fun r hr => .inr hr⟩
      | cases h; exact ⟨.same, fun r hr => nomatch hr⟩
      | cases h

end Advance

theorem reconcilePages_sequence {pages : List AgentEventPage}
    (h : reconcilePages request now pages = some result) :
    result.terminalEventSequence = request.terminalEventSequence := by
  induction pages generalizing request with
  | nil => cases h
  | cons page pages ih =>
    have hpage := request.reconcileEventPage_sequence page now
    unfold reconcilePages at h
    dsimp only at h
    split at h
    · cases h
      exact hpage
    · exact (ih h).trans hpage

theorem reconcileActive_sequence {metadata : Option AgentMetadata}
    {runtime : Option AgentRuntimeSnapshot} {pages : List AgentEventPage}
    (h : reconcileActive request metadata runtime now pages = some result) :
    result.terminalEventSequence = request.terminalEventSequence := by
  have hreconcile := request.reconcile_sequence metadata runtime now
  unfold reconcileActive at h
  dsimp only at h
  split at h
  · exact (reconcilePages_sequence h).trans hreconcile
  · cases h
    exact hreconcile

theorem reconcileActive_of_terminal (hterminal : request.state.isTerminal = true)
    (metadata : Option AgentMetadata) (runtime : Option AgentRuntimeSnapshot) (now : DateTime)
    (pages : List AgentEventPage) :
    reconcileActive request metadata runtime now pages = some request := by
  have hsame : request.reconcile metadata runtime now = request := by
    unfold AgentRequest.reconcile
    rw [if_pos hterminal]
  unfold reconcileActive
  rw [hsame]
  dsimp only
  rw [if_neg (fun h => h.2 hterminal)]

/-- The copies that a watcher holds of requests that have not ended have no event. -/
def FreshWatcher : Watcher → Prop
  | .idle => True
  | .reconciling _ todo _ =>
    ∀ r ∈ todo, r.state.isTerminal = false → r.terminalEventSequence = none
  | .cancelling r => r.terminalEventSequence = none

theorem FreshWatcher.saves {watcher : Watcher} (hfresh : FreshWatcher watcher) {input : WatchInput}
    (h : watcher.saves input = some request) : request.terminalEventSequence = none := by
  unfold Watcher.saves at h
  split at h
  · rename_i now copy todo cancel metadata runtime pages
    split at h
    · cases h
    cases hactive : reconcileActive copy metadata runtime now pages with
    | none =>
      simp only [hactive] at h
      cases h
    | some reconciled =>
      simp only [hactive] at h
      split at h
      · rename_i hchanged
        cases h
        rw [reconcileActive_sequence hactive]
        apply hfresh copy (List.mem_cons_self ..)
        by_contra hterminal
        rw [Bool.not_eq_false] at hterminal
        rw [reconcileActive_of_terminal hterminal] at hactive
        cases hactive
        exact hchanged rfl
      · cases h
  · cases h
    exact hfresh
  · cases h

theorem FreshWatcher.next {store : AgentRequestStore} (hsound : store.Sound) {watcher : Watcher}
    (hfresh : FreshWatcher watcher) {input : WatchInput} {watcher' : Watcher}
    (h : watcher.next store input = some watcher') : FreshWatcher watcher' := by
  unfold Watcher.next at h
  split at h
  · split at h
    · cases h
    · cases h
      intro r hr
      exact hfresh r (List.mem_cons_of_mem _ hr)
  · rename_i now requestId
    cases hget : store.get requestId with
    | none =>
      simp only [hget] at h
      cases h
      trivial
    | some r =>
      simp only [hget] at h
      split at h
      · cases h
        trivial
      · rename_i hlive
        cases h
        exact hsound.unsettled requestId r hget (by simpa using hlive)
  all_goals
    cases h
    try trivial

/-- Every copy of a request that has not ended has no terminal event. -/
structure Fresh (s : Service) : Prop where
  attempts : ∀ k attempt r, s.attempts k = some attempt →
    attempt.stage.returnRequest = some r → r.terminalEventSequence = none
  watchers : ∀ k, FreshWatcher (s.watchers k)

theorem fresh_empty : Fresh empty where
  attempts := by
    intro k attempt r h
    cases h
  watchers := fun _ => trivial

section Steps

variable {s s' : Service} {k : Nat}

theorem arrive_cases {request : AgentPromptAdmissionRequest}
    (h : s.step sha256 (.arrive k request) = some s') : s.attempts k = none ∧
      s' = { s with attempts := Function.update s.attempts k (some ⟨request, .waiting⟩) } := by
  unfold step at h
  dsimp only at h
  split at h
  · rename_i hfree
    exact ⟨Option.isNone_iff_eq_none.mp hfree.2, (Option.some.inj h).symm⟩
  · cases h

theorem enter_cases (h : s.enter k = some s') :
    ∃ attempt, s.attempts k = some attempt ∧ attempt.stage = .waiting ∧
      attempt.request.requestId ∉ s.inFlight ∧
      s' = { s with
        inFlight := attempt.request.requestId :: s.inFlight
        attempts := s.setStage k attempt .entered } := by
  unfold enter at h
  split at h
  · rename_i attempt hattempt
    split at h
    · rename_i hfree
      exact ⟨attempt, hattempt, hfree.1, hfree.2, (Option.some.inj h).symm⟩
    · cases h
  · cases h

theorem giveUp_cases (h : s.giveUp k = some s') :
    ∃ attempt detail, s.attempts k = some attempt ∧ attempt.stage = .waiting ∧
      s' = { s with
        attempts :=
          s.setStage k attempt (.ended (.indeterminate attempt.request none detail))
        history := s.history ++ [ServiceEvent.ended attempt.request.requestId k
          (.indeterminate attempt.request none detail)] } := by
  unfold giveUp at h
  split at h
  · rename_i attempt hattempt
    split at h
    · rename_i hbusy
      exact ⟨attempt, _, hattempt, hbusy.1, (Option.some.inj h).symm⟩
    · cases h
  · cases h

theorem admit_cases {input : AdmissionInput} (h : s.admitPrompt sha256 k input = some s') :
    ∃ attempt stores stage, s.attempts k = some attempt ∧
      advance sha256 attempt.request s.stores attempt.stage input = some (stores, stage) ∧
      s' = { s with
        stores := stores
        inFlight := inFlightAfter s.inFlight attempt.request.requestId stage
        attempts := s.setStage k attempt stage
        history := s.history ++ eventsOf attempt.request.requestId k input.writes stage } := by
  unfold admitPrompt at h
  split at h
  · cases h
  · rename_i attempt hattempt
    obtain ⟨⟨stores, stage⟩, hadvance, rfl⟩ := Option.map_eq_some_iff.mp h
    exact ⟨attempt, stores, stage, hattempt, hadvance, rfl⟩

theorem reconcile_cases {now : DateTime} {cancel : Option String}
    (h : s.step sha256 (.reconcile k now cancel) = some s') :
    s' = { s with
      watchers := Function.update s.watchers k
        (.reconciling now s.stores.requests.active cancel) } := by
  unfold step at h
  dsimp only at h
  split at h
  · exact (Option.some.inj h).symm
  · cases h

theorem saved_cases {request : Option AgentRequest} {store : AgentRequestStore}
    (h : s.saved request = some store) : RequestsStep s.stores.requests request store := by
  cases request with
  | none =>
    cases h
    exact .same
  | some request =>
    obtain ⟨⟨store', result⟩, hsave, rfl⟩ := Option.map_eq_some_iff.mp h
    exact .save request result _ rfl hsave

theorem watch_cases {input : WatchInput} (h : s.watch k input = some s') :
    ∃ watcher requests, (s.watchers k).next s.stores.requests input = some watcher ∧
      s.saved ((s.watchers k).saves input) = some requests ∧
      s' = { s with
        stores := { s.stores with requests := requests }
        watchers := Function.update s.watchers k watcher } := by
  unfold watch at h
  split at h
  · rename_i watcher requests hnext hsaved
    exact ⟨watcher, requests, hnext, hsaved, (Option.some.inj h).symm⟩
  · cases h

theorem recover_cases {requestId : String} {now : DateTime}
    (h : s.step sha256 (.recover requestId now) = some s') :
    ∃ request requests, s.recovers requestId now = some request ∧
      s.saved (some request) = some requests ∧
      s' = { s with stores := { s.stores with requests := requests } } := by
  unfold step at h
  dsimp only at h
  split at h
  · cases h
  split at h
  · cases h
  · rename_i request hrecovers
    obtain ⟨requests, hsaved, rfl⟩ := Option.map_eq_some_iff.mp h
    exact ⟨request, requests, hrecovers, hsaved, rfl⟩

variable {request : AgentRequest} {action : Action}

/-- **What a step does to the request store.** -/
theorem step_requests (h : s.step sha256 action = some s') :
    RequestsStep s.stores.requests (s.savedRequest action) s'.stores.requests := by
  cases action with
  | serve =>
    cases h
    exact .same
  | arrive k request =>
    obtain ⟨_, rfl⟩ := arrive_cases h
    exact .same
  | enter k =>
    obtain ⟨_, _, _, _, rfl⟩ := enter_cases h
    exact .same
  | giveUp k =>
    obtain ⟨_, _, _, _, rfl⟩ := giveUp_cases h
    exact .same
  | admitPrompt k input =>
    obtain ⟨attempt, stores, stage, hattempt, hadvance, rfl⟩ := admit_cases h
    have hsaved : s.savedRequest (.admitPrompt k input) = attempt.stage.saves input := by
      show (s.attempts k).bind _ = _
      rw [hattempt]
      rfl
    rw [hsaved]
    exact (advance_requests hadvance).1
  | reconcile k now cancel =>
    rw [reconcile_cases h]
    exact .same
  | watch k input =>
    obtain ⟨watcher, requests, _, hsaved, rfl⟩ := watch_cases h
    exact saved_cases hsaved
  | crash =>
    cases h
    exact .same
  | recover requestId now =>
    obtain ⟨request, requests, hrecovers, hsaved, rfl⟩ := recover_cases h
    show RequestsStep _ (s.recovers requestId now) _
    rw [hrecovers]
    exact saved_cases hsaved

theorem Fresh.savedRequest (hfresh : Fresh s) (hsound : s.stores.requests.Sound)
    (h : s.savedRequest action = some request) : request.terminalEventSequence = none := by
  cases action with
  | admitPrompt k input =>
    obtain ⟨attempt, hattempt, hsaves⟩ := Option.bind_eq_some_iff.mp h
    unfold AdmissionStage.saves at hsaves
    split at hsaves
    · rename_i nested now hstage
      cases hsaves
      exact hfresh.attempts k attempt nested hattempt (by rw [hstage]; rfl)
    · rename_i nested detail now hstage
      cases hsaves
      exact hfresh.attempts k attempt nested hattempt (by rw [hstage]; rfl)
    · cases hsaves
  | watch k input => exact (hfresh.watchers k).saves h
  | recover requestId now =>
    obtain ⟨copy, hfind, rfl⟩ := Option.map_eq_some_iff.mp h
    have hactive := List.mem_of_find?_eq_some hfind
    have hregistered := List.find?_some hfind
    simp only [decide_eq_true_eq] at hregistered
    obtain ⟨id, hget, _⟩ := AgentRequestStore.mem_active hactive
    exact hsound.unsettled id copy hget (by rw [hregistered.2]; rfl)
  | serve => cases h
  | arrive k request => cases h
  | enter k => cases h
  | giveUp k => cases h
  | reconcile k now cancel => cases h
  | crash => cases h

theorem Fresh.setStage (hfresh : Fresh s) {attempt : Attempt} {stage : AdmissionStage}
    (hattempt : s.attempts k = some attempt) (hstage : ∀ r, stage.returnRequest = some r →
      r.terminalEventSequence = none ∨ attempt.stage.returnRequest = some r) :
    ∀ j other r, s.setStage k attempt stage j = some other →
      other.stage.returnRequest = some r → r.terminalEventSequence = none := by
  intro j other r hother hr
  unfold Service.setStage at hother
  by_cases hj : j = k
  · subst hj
    rw [Function.update_self] at hother
    cases hother
    rcases hstage r hr with hnone | hsame
    · exact hnone
    · exact hfresh.attempts j attempt r hattempt hsame
  · rw [Function.update_of_ne hj] at hother
    exact hfresh.attempts j other r hother hr

theorem Fresh.setWatcher (hfresh : Fresh s) {watcher : Watcher} (hwatcher : FreshWatcher watcher) :
    ∀ j, FreshWatcher (Function.update s.watchers k watcher j) := by
  intro j
  by_cases hj : j = k
  · subst hj
    rw [Function.update_self]
    exact hwatcher
  · rw [Function.update_of_ne hj]
    exact hfresh.watchers j

theorem Fresh.step (hfresh : Fresh s) (hsound : s.stores.requests.Sound) {action : Action}
    (h : s.step sha256 action = some s') : Fresh s' := by
  cases action with
  | serve =>
    cases h
    exact ⟨hfresh.attempts, hfresh.watchers⟩
  | arrive k request =>
    obtain ⟨_, rfl⟩ := arrive_cases h
    refine ⟨?_, hfresh.watchers⟩
    intro j other r hother hr
    dsimp only at hother
    by_cases hj : j = k
    · subst hj
      rw [Function.update_self] at hother
      cases hother
      cases hr
    · rw [Function.update_of_ne hj] at hother
      exact hfresh.attempts j other r hother hr
  | enter k =>
    obtain ⟨attempt, hattempt, _, _, rfl⟩ := enter_cases h
    exact ⟨hfresh.setStage hattempt (fun r hr => nomatch hr), hfresh.watchers⟩
  | giveUp k =>
    obtain ⟨attempt, _, hattempt, _, rfl⟩ := giveUp_cases h
    exact ⟨hfresh.setStage hattempt (fun r hr => nomatch hr), hfresh.watchers⟩
  | admitPrompt k input =>
    obtain ⟨attempt, stores, stage, hattempt, hadvance, rfl⟩ := admit_cases h
    exact ⟨hfresh.setStage hattempt (advance_requests hadvance).2, hfresh.watchers⟩
  | reconcile k now cancel =>
    rw [reconcile_cases h]
    refine ⟨hfresh.attempts, hfresh.setWatcher ?_⟩
    intro r hr hlive
    obtain ⟨id, hget, _⟩ := AgentRequestStore.mem_active hr
    exact hsound.unsettled id r hget hlive
  | watch k input =>
    obtain ⟨watcher, requests, hnext, _, rfl⟩ := watch_cases h
    exact ⟨hfresh.attempts, hfresh.setWatcher ((hfresh.watchers k).next hsound hnext)⟩
  | crash =>
    cases h
    refine ⟨?_, fun _ => trivial⟩
    intro j other r hother hr
    obtain ⟨attempt, hattempt, rfl⟩ := Option.map_eq_some_iff.mp hother
    cases hstage : attempt.stage <;> simp only [hstage] at hr <;> cases hr
  | recover requestId now =>
    obtain ⟨_, _, _, _, rfl⟩ := recover_cases h
    exact ⟨hfresh.attempts, hfresh.watchers⟩

/-- What such a run keeps. -/
structure Inv (s : Service) : Prop where
  sound : s.stores.requests.Sound
  fresh : Fresh s

theorem inv_empty : Inv empty := ⟨AgentRequestStore.sound_empty, fresh_empty⟩

theorem Inv.step (hinv : Inv s) {action : Action} (hlive : s.SavesLive action)
    (h : s.step sha256 action = some s') : Inv s' := by
  refine ⟨?_, hinv.fresh.step hinv.sound h⟩
  have hstep := step_requests h
  generalize s'.stores.requests = store' at hstep
  cases hstep with
  | same => exact hinv.sound
  | create request _ hnone hregistered hsequence hget hevent =>
    exact hinv.sound.create hnone hregistered hsequence hget hevent
  | save request result _ hsaved hsave =>
    obtain ⟨stored, hstored, hlive⟩ := hlive request hsaved
    have hsequence := hinv.fresh.savedRequest hinv.sound hsaved
    exact hinv.sound.save hsave hsequence hstored hlive
  | delete requestId _ hdelete => exact hinv.sound.deleteRegistered hdelete

theorem get_step_of_terminal (hlive : s.SavesLive action) (h : s.step sha256 action = some s')
    {id : String} (hget : s.stores.requests.get id = some request)
    (hterminal : request.state.isTerminal = true) : s'.stores.requests.get id = some request := by
  have hstep := step_requests h
  generalize s'.stores.requests = store' at hstep
  cases hstep with
  | same => exact hget
  | create created _ hnone _ _ hget' _ =>
    rw [hget', if_neg, hget]
    rintro rfl
    rw [hnone] at hget
    cases hget
  | save copy result _ hsaved hsave =>
    obtain ⟨stored, hstored, hlive⟩ := hlive copy hsaved
    obtain ⟨_, _, _, hget', _⟩ := AgentRequestStore.save_spec hsave
    rw [hget', if_neg, hget]
    rintro ⟨rfl, _⟩
    rw [hstored] at hget
    cases hget
    rw [hlive] at hterminal
    cases hterminal
  | delete requestId _ hdelete =>
    obtain ⟨_, rfl | ⟨registered, hregistered, hstate, hget'⟩⟩ :=
      AgentRequestStore.deleteRegistered_spec hdelete
    · exact hget
    · rw [hget', if_neg, hget]
      rintro rfl
      rw [hregistered] at hget
      cases hget
      rw [hstate] at hterminal
      cases hterminal

theorem Inv.run {actions : List Action} (hinv : Inv s)
    (hlive : RunSavesLive sha256 s actions) (h : s.run sha256 actions = some s') : Inv s' := by
  induction actions generalizing s with
  | nil =>
    cases h
    exact hinv
  | cons action actions ih =>
    obtain ⟨mid, hmid, hrest⟩ := Option.bind_eq_some_iff.mp h
    exact ih (hinv.step hlive.1 hmid) (hlive.2 mid hmid) hrest

theorem get_run_of_terminal {actions : List Action} (hlive : RunSavesLive sha256 s actions)
    (h : s.run sha256 actions = some s') {id : String}
    (hget : s.stores.requests.get id = some request) (hterminal : request.state.isTerminal = true) :
    s'.stores.requests.get id = some request := by
  induction actions generalizing s with
  | nil =>
    cases h
    exact hget
  | cons action actions ih =>
    obtain ⟨mid, hmid, hrest⟩ := Option.bind_eq_some_iff.mp h
    exact ih (hlive.2 mid hmid) hrest (get_step_of_terminal hlive.1 hmid hget hterminal)

end Steps

end Service

end Wakterm.Agent
