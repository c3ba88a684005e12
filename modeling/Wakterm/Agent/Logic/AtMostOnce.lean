import Wakterm.Agent.Logic.Known

/-!
# At most one write for a request ID

Attempts for one ID that agree on `return_final` use the same store.
-/

namespace Wakterm.Agent

/-! ## The stages -/

namespace AdmissionStage

def inFlight : AdmissionStage → Bool
  | .waiting | .ended _ | .stopped => false
  | _ => true

/-- An attempt there has not written its prompt and may still do so, or give back its claim
without having written. -/
def unwritten : AdmissionStage → Bool
  | .claimed | .prepared _ => true
  | .releasing rejection => rejection ≠ .takenBack
  | _ => false

/-- An attempt there has made its request ID known. -/
def claims (returnFinal : Bool) : AdmissionStage → Bool
  | .claimed => !returnFinal
  | .prepared _ => true
  | _ => false

/-- An attempt there has written its prompt. -/
def wrote : AdmissionStage → Bool
  | .typed _ | .delivered _ | .confirmed _ => true
  | .releasing rejection => rejection = .takenBack
  | _ => false

variable {stage : AdmissionStage}

theorem inFlight_of_unwritten (h : stage.unwritten = true) : stage.inFlight = true := by
  cases stage <;> first | rfl | cases h

theorem inFlight_of_claims {returnFinal : Bool} (h : stage.claims returnFinal = true) :
    stage.inFlight = true := by
  cases stage <;> first | rfl | cases h

theorem inFlight_of_wrote (h : stage.wrote = true) : stage.inFlight = true := by
  cases stage <;> first | rfl | cases h

end AdmissionStage

/-! ## Writes that were not taken back -/

def ServiceEvent.requestId : ServiceEvent → String
  | .wrote requestId _ => requestId
  | .ended requestId _ _ => requestId

/-- Does the event settle what attempt `k` wrote for `id`: the attempt ended, and the prompt
was definitely not written? -/
def ServiceEvent.TakesBack (id : String) (k : Nat) (event : ServiceEvent) : Prop :=
  ∃ receipt, event = .ended id k receipt ∧ receipt.definitive = true ∧
    receipt.promptWritten = some false

/-- The attempt whose write for `id` stands, after one more event. -/
def standingStep (id : String) (standing : Option Nat) : ServiceEvent → Option Nat
  | .wrote id' k => if id' = id then some k else standing
  | .ended id' k receipt =>
    if id' = id ∧ standing = some k ∧ receipt.definitive = true ∧
        receipt.promptWritten = some false then none
    else standing

/-- The attempt whose write for `id` stands: the last that wrote, if it did not take that
back. -/
def standing (id : String) (history : List ServiceEvent) : Option Nat :=
  history.foldl (standingStep id) none

theorem standing_concat (id : String) (history : List ServiceEvent) (event : ServiceEvent) :
    standing id (history ++ [event]) = standingStep id (standing id history) event :=
  List.foldl_concat ..

/-- Every write for `id` comes when none stands. -/
def OneAtATime (id : String) (history : List ServiceEvent) : Prop :=
  ∀ before k after, history = before ++ .wrote id k :: after → standing id before = none

theorem oneAtATime_nil (id : String) : OneAtATime id [] := by
  intro before k after h
  cases before <;> cases h

variable {id : String} {history before after : List ServiceEvent}

theorem OneAtATime.concat {event : ServiceEvent} (h : OneAtATime id history)
    (hevent : ∀ k, event = .wrote id k → standing id history = none) :
    OneAtATime id (history ++ [event]) := by
  intro before k after heq
  rcases List.eq_nil_or_concat after with rfl | ⟨rest, last, rfl⟩
  · obtain ⟨rfl, hwrote⟩ := List.append_inj' heq rfl
    exact hevent k (List.singleton_inj.mp hwrote)
  · rw [List.concat_eq_append, ← List.cons_append, ← List.append_assoc] at heq
    exact h before k rest (List.append_inj' heq rfl).1

theorem OneAtATime.ended {k : Nat} (honce : OneAtATime id history) (receipt : AgentAdmissionReceipt)
    : OneAtATime id (history ++ [.ended id k receipt]) :=
  honce.concat fun _ h => nomatch h

theorem OneAtATime.takenBack {k : Nat} {between : List ServiceEvent}
    (h : OneAtATime id (before ++ between ++ after)) (hstands : standing id before = some k)
    (hgone : standing id (before ++ between) = none) : ∃ event ∈ between, event.TakesBack id k := by
  induction between generalizing before with
  | nil =>
    rw [List.append_nil, hstands] at hgone
    cases hgone
  | cons event between ih =>
    by_cases htakes : event.TakesBack id k
    · exact ⟨event, List.mem_cons_self .., htakes⟩
    have hsame : standing id (before ++ [event]) = some k := by
      rw [standing_concat, hstands]
      cases event with
      | wrote id' j =>
        apply if_neg
        rintro rfl
        have hfree := h before j (between ++ after) (by simp)
        rw [hstands] at hfree
        cases hfree
      | ended id' j receipt =>
        apply if_neg
        rintro ⟨rfl, hj, hdef, hwritten⟩
        cases hj
        exact htakes ⟨receipt, rfl, hdef, hwritten⟩
    have honce : OneAtATime id ((before ++ [event]) ++ between ++ after) := by simpa using h
    have hgone' : standing id ((before ++ [event]) ++ between) = none := by simpa using hgone
    obtain ⟨found, hmem, hfound⟩ := ih honce hsame hgone'
    exact ⟨found, List.mem_cons_of_mem _ hmem, hfound⟩

/-- **Between two writes for `id` the first one was taken back.** -/
theorem OneAtATime.between {between : List ServiceEvent} {j k : Nat} (h : OneAtATime id history)
    (heq : history = before ++ .wrote id j :: between ++ .wrote id k :: after) :
    ∃ event ∈ between, event.TakesBack id j := by
  have hgone : standing id (before ++ ServiceEvent.wrote id j :: between) = none :=
    h (before ++ ServiceEvent.wrote id j :: between) k after heq
  have hstands : standing id (before ++ [ServiceEvent.wrote id j]) = some j := by
    rw [standing_concat]
    exact if_pos rfl
  have honce : OneAtATime id
      ((before ++ [ServiceEvent.wrote id j]) ++ between ++ ServiceEvent.wrote id k :: after) := by
    rw [heq] at h
    simpa using h
  exact honce.takenBack hstands (by simpa using hgone)

/-! ## The server -/

namespace Service

variable {sha256 : List UInt8 → String} {id : String} {returnFinal : Bool} {s s' : Service}
  {k : Nat}

/-- What every run keeps for a request ID whose attempts agree on `return_final`. -/
structure AtMostOnce (id : String) (returnFinal : Bool) (s : Service) : Prop where
  agree : ∀ k attempt, s.attempts k = some attempt → attempt.request.requestId = id →
    attempt.request.returnFinal = returnFinal
  entered : ∀ k attempt, s.attempts k = some attempt → attempt.request.requestId = id →
    attempt.stage.inFlight = true → id ∈ s.inFlight
  /-- One attempt for the ID is in flight. -/
  alone : ∀ j k attempt other, s.attempts j = some attempt → s.attempts k = some other →
    attempt.request.requestId = id → other.request.requestId = id →
    attempt.stage.inFlight = true → other.stage.inFlight = true → j = k
  claimed : ∀ k attempt, s.attempts k = some attempt → attempt.request.requestId = id →
    attempt.stage.claims returnFinal = true → s.stores.known returnFinal id = true
  wrote : ∀ k attempt, s.attempts k = some attempt → attempt.request.requestId = id →
    attempt.stage.wrote = true → standing id s.history = some k
  /-- While a write stands the ID is known, and no attempt is about to write. -/
  stands : ∀ j, standing id s.history = some j → s.stores.known returnFinal id = true ∧
    ∀ k attempt, s.attempts k = some attempt → attempt.request.requestId = id →
      attempt.stage.unwritten = false
  once : OneAtATime id s.history

theorem atMostOnce_empty (id : String) (returnFinal : Bool) : AtMostOnce id returnFinal empty where
  agree := fun _ _ h => nomatch h
  entered := fun _ _ h => nomatch h
  alone := fun _ _ _ _ h => nomatch h
  claimed := fun _ _ h => nomatch h
  wrote := fun _ _ h => nomatch h
  stands := fun _ h => nomatch h
  once := oneAtATime_nil id

/-- A step that leaves the attempts for `id` as they are or not in flight, and what is known
of it and stands for it. -/
theorem AtMostOnce.frame (hinv : AtMostOnce id returnFinal s)
    (hattempts : ∀ k attempt, s'.attempts k = some attempt → attempt.request.requestId = id →
      attempt.request.returnFinal = returnFinal ∧
        (attempt.stage.inFlight = false ∨ s.attempts k = some attempt ∧
          (id ∈ s.inFlight → id ∈ s'.inFlight)))
    (hknown : s'.stores.known returnFinal id = s.stores.known returnFinal id)
    (hstanding : standing id s'.history = standing id s.history)
    (honce : OneAtATime id s'.history) : AtMostOnce id returnFinal s' := by
  -- An attempt in flight was there before.
  have hold : ∀ k attempt, s'.attempts k = some attempt → attempt.request.requestId = id →
      attempt.stage.inFlight = true →
      s.attempts k = some attempt ∧ (id ∈ s.inFlight → id ∈ s'.inFlight) := by
    intro k attempt hattempt hid hflight
    rcases (hattempts k attempt hattempt hid).2 with hno | hsame
    · rw [hno] at hflight
      cases hflight
    · exact hsame
  refine ⟨fun k attempt h hid => (hattempts k attempt h hid).1, ?_, ?_, ?_, ?_, ?_, honce⟩
  · intro k attempt h hid hflight
    obtain ⟨h, hmem⟩ := hold k attempt h hid hflight
    exact hmem (hinv.entered k attempt h hid hflight)
  · intro j k attempt other hj hk hid hid' hflight hflight'
    exact hinv.alone j k attempt other (hold j attempt hj hid hflight).1
      (hold k other hk hid' hflight').1 hid hid' hflight hflight'
  · intro k attempt h hid hclaims
    rw [hknown]
    exact hinv.claimed k attempt
      (hold k attempt h hid (AdmissionStage.inFlight_of_claims hclaims)).1 hid hclaims
  · intro k attempt h hid hwrote
    rw [hstanding]
    exact hinv.wrote k attempt
      (hold k attempt h hid (AdmissionStage.inFlight_of_wrote hwrote)).1 hid hwrote
  · intro j hj
    rw [hstanding] at hj
    obtain ⟨hk, hun⟩ := hinv.stands j hj
    refine ⟨hknown.trans hk, ?_⟩
    intro k attempt h hid
    by_contra hun'
    rw [Bool.not_eq_false] at hun'
    have hbefore := hold k attempt h hid (AdmissionStage.inFlight_of_unwritten hun')
    rw [hun k attempt hbefore.1 hid] at hun'
    cases hun'

variable {attempt : Attempt} {stage : AdmissionStage}

variable (hinv : AtMostOnce id returnFinal s)
include hinv

theorem AtMostOnce.move (hattempt : s.attempts k = some attempt)
    (hid : attempt.request.requestId = id)
    (halone : ∀ j other, s.attempts j = some other → other.request.requestId = id →
      other.stage.inFlight = true → j = k) (hattempts : s'.attempts = s.setStage k attempt stage)
    (hentered : stage.inFlight = true → id ∈ s'.inFlight)
    (hclaimed : stage.claims returnFinal = true → s'.stores.known returnFinal id = true)
    (hwrote : stage.wrote = true → standing id s'.history = some k)
    (hstands : ∀ j, standing id s'.history = some j →
      s'.stores.known returnFinal id = true ∧ stage.unwritten = false)
    (honce : OneAtATime id s'.history) : AtMostOnce id returnFinal s' := by
  -- An attempt of `s'` for `id` is `k` at its new stage, or one that is not in flight.
  have hcases : ∀ j other, s'.attempts j = some other → other.request.requestId = id →
      (j = k ∧ other = { attempt with stage := stage }) ∨
        (s.attempts j = some other ∧ other.stage.inFlight = false) := by
    intro j other hother hoid
    rw [hattempts] at hother
    unfold setStage at hother
    by_cases hj : j = k
    · subst hj
      rw [Function.update_self] at hother
      exact .inl ⟨rfl, (Option.some.inj hother).symm⟩
    · rw [Function.update_of_ne hj] at hother
      refine .inr ⟨hother, ?_⟩
      by_contra hflight
      rw [Bool.not_eq_false] at hflight
      exact hj (halone j other hother hoid hflight)
  have hflying : ∀ j other, s'.attempts j = some other → other.request.requestId = id →
      other.stage.inFlight = true → j = k ∧ other.stage = stage := by
    intro j other hother hoid hflight
    rcases hcases j other hother hoid with ⟨rfl, rfl⟩ | ⟨_, hno⟩
    · exact ⟨rfl, rfl⟩
    · rw [hno] at hflight
      cases hflight
  refine ⟨?_, ?_, ?_, ?_, ?_, ?_, honce⟩
  · intro j other hother hoid
    rcases hcases j other hother hoid with ⟨rfl, rfl⟩ | ⟨hbefore, _⟩
    · exact hinv.agree j attempt hattempt hid
    · exact hinv.agree j other hbefore hoid
  · intro j other hother hoid hflight
    obtain ⟨_, hst⟩ := hflying j other hother hoid hflight
    rw [hst] at hflight
    exact hentered hflight
  · intro i j first second hi hj hfid hsid hff hsf
    rw [(hflying i first hi hfid hff).1, (hflying j second hj hsid hsf).1]
  · intro j other hother hoid hc
    obtain ⟨_, hst⟩ := hflying j other hother hoid (AdmissionStage.inFlight_of_claims hc)
    rw [hst] at hc
    exact hclaimed hc
  · intro j other hother hoid hw
    obtain ⟨rfl, hst⟩ := hflying j other hother hoid (AdmissionStage.inFlight_of_wrote hw)
    rw [hst] at hw
    exact hwrote hw
  · intro j hj
    obtain ⟨hknown, hun⟩ := hstands j hj
    refine ⟨hknown, ?_⟩
    intro i other hother hoid
    by_contra hun'
    rw [Bool.not_eq_false] at hun'
    obtain ⟨_, hst⟩ := hflying i other hother hoid (AdmissionStage.inFlight_of_unwritten hun')
    rw [hst, hun] at hun'
    cases hun'

omit hinv in
theorem standing_append_other {history events : List ServiceEvent}
    (h : ∀ event ∈ events, event.requestId ≠ id) (honce : OneAtATime id history) :
    standing id (history ++ events) = standing id history ∧ OneAtATime id (history ++ events) := by
  induction events generalizing history with
  | nil =>
    rw [List.append_nil]
    exact ⟨rfl, honce⟩
  | cons event events ih =>
    have hne := h event (List.mem_cons_self ..)
    have hstanding : standing id (history ++ [event]) = standing id history := by
      rw [standing_concat]
      cases event with
      | wrote id' j => exact if_neg hne
      | ended id' j receipt => exact if_neg fun hc => hne hc.1
    have honce' : OneAtATime id (history ++ [event]) := by
      apply honce.concat
      intro j hj
      rw [hj] at hne
      exact absurd rfl hne
    obtain ⟨h₁, h₂⟩ := ih (fun e he => h e (List.mem_cons_of_mem _ he)) honce'
    rw [List.append_assoc, List.singleton_append] at h₁ h₂
    exact ⟨h₁.trans hstanding, h₂⟩

omit hinv in
theorem requestId_of_mem_eventsOf {id' : String} {wrote : Bool} {event : ServiceEvent}
    (h : event ∈ eventsOf id' k wrote stage) : event.requestId = id' := by
  unfold eventsOf at h
  rcases List.mem_append.mp h with h | h
  · split at h
    · rw [List.mem_singleton] at h
      rw [h]
      rfl
    · cases h
  · split at h
    · rw [List.mem_singleton] at h
      rw [h]
      rfl
    · cases h

omit hinv in
theorem standing_ended (history : List ServiceEvent) (receipt : AgentAdmissionReceipt) :
    ∀ j, standing id (history ++ [.ended id k receipt]) = some j →
      standing id history = some j := by
  intro j hj
  rw [standing_concat] at hj
  unfold standingStep at hj
  dsimp only at hj
  split at hj
  · cases hj
  · exact hj

theorem AtMostOnce.alone_of_inFlight (hattempt : s.attempts k = some attempt)
    (hid : attempt.request.requestId = id)
    (hflight : attempt.stage.inFlight = true) :
    ∀ j other, s.attempts j = some other → other.request.requestId = id →
      other.stage.inFlight = true → j = k :=
  fun j other hother hoid hof =>
    hinv.alone j k other attempt hother hattempt hoid hid hof hflight

section Own

variable {attempt : Attempt} {stage : AdmissionStage} {stores : Stores}
  (hattempt : s.attempts k = some attempt) (hid : attempt.request.requestId = id)

include hattempt hid

theorem AtMostOnce.own_quiet (hflight : attempt.stage.inFlight = true)
    (hstage : ∀ receipt, stage ≠ .ended receipt)
    (hclaimed : stage.claims returnFinal = true → stores.known returnFinal id = true)
    (hwrote : stage.wrote = true → attempt.stage.wrote = true)
    (hstands : ∀ j, standing id s.history = some j →
      stores.known returnFinal id = true ∧ stage.unwritten = false) :
    AtMostOnce id returnFinal { s with
      stores := stores
      inFlight := inFlightAfter s.inFlight id stage
      attempts := s.setStage k attempt stage
      history := s.history ++ eventsOf id k false stage } := by
  have hevents : eventsOf id k false stage = [] := by
    cases stage <;> first | rfl | exact absurd rfl (hstage _)
  have hkept : inFlightAfter s.inFlight id stage = s.inFlight := by
    cases stage <;> first | rfl | exact absurd rfl (hstage _)
  rw [hevents, List.append_nil, hkept]
  refine hinv.move hattempt hid (hinv.alone_of_inFlight hattempt hid hflight) rfl ?_ hclaimed ?_
    hstands hinv.once
  · intro _
    exact hinv.entered k attempt hattempt hid hflight
  · intro hw
    exact hinv.wrote k attempt hattempt hid (hwrote hw)

theorem AtMostOnce.own_ended (hflight : attempt.stage.inFlight = true)
    (receipt : AgentAdmissionReceipt)
    (hstands : ∀ j, standing id (s.history ++ [.ended id k receipt]) = some j →
      stores.known returnFinal id = true) :
    AtMostOnce id returnFinal { s with
      stores := stores
      inFlight := inFlightAfter s.inFlight id (.ended receipt)
      attempts := s.setStage k attempt (.ended receipt)
      history := s.history ++ eventsOf id k false (.ended receipt) } := by
  refine hinv.move hattempt hid (hinv.alone_of_inFlight hattempt hid hflight) rfl
    (fun h => nomatch h) (fun h => nomatch h) (fun h => nomatch h) ?_ (hinv.once.ended receipt)
  intro j hj
  exact ⟨hstands j hj, rfl⟩

theorem AtMostOnce.own_wrote (hflight : attempt.stage.inFlight = true)
    (hstage : ∀ receipt, stage ≠ .ended receipt)
    (hclaims : stage.claims returnFinal = false) (hunwritten : stage.unwritten = false)
    (hknown : stores.known returnFinal id = true) (hfree : standing id s.history = none) :
    AtMostOnce id returnFinal { s with
      stores := stores
      inFlight := inFlightAfter s.inFlight id stage
      attempts := s.setStage k attempt stage
      history := s.history ++ eventsOf id k true stage } := by
  have hevents : eventsOf id k true stage = [.wrote id k] := by
    cases stage <;> first | rfl | exact absurd rfl (hstage _)
  have hkept : inFlightAfter s.inFlight id stage = s.inFlight := by
    cases stage <;> first | rfl | exact absurd rfl (hstage _)
  have hnow : standing id (s.history ++ [ServiceEvent.wrote id k]) = some k := by
    rw [standing_concat]
    exact if_pos rfl
  rw [hevents, hkept]
  refine hinv.move hattempt hid (hinv.alone_of_inFlight hattempt hid hflight) rfl ?_ ?_
    (fun _ => hnow) (fun _ _ => ⟨hknown, hunwritten⟩) (hinv.once.concat fun _ _ => hfree)
  · intro _
    exact hinv.entered k attempt hattempt hid hflight
  · intro hc
    rw [hclaims] at hc
    cases hc

theorem AtMostOnce.admit_own {wrote known known' : Bool}
    (hknown : s.stores.known returnFinal id = known)
    (hknown' : stores.known returnFinal id = known')
    (hmoves : Moves returnFinal attempt.stage wrote stage known known') :
    AtMostOnce id returnFinal { s with
      stores := stores
      inFlight := inFlightAfter s.inFlight id stage
      attempts := s.setStage k attempt stage
      history := s.history ++ eventsOf id k wrote stage } := by
  have hflight : attempt.stage.inFlight = true := by
    generalize attempt.stage = old at hmoves
    cases hmoves <;> rfl
  -- While a write stands, the ID is known and this attempt is not about to write.
  have hstands : ∀ j, standing id s.history = some j →
      known = true ∧ attempt.stage.unwritten = false := by
    intro j hj
    obtain ⟨hk, hun⟩ := hinv.stands j hj
    exact ⟨hknown ▸ hk, hun k attempt hattempt hid⟩
  have hclaimed : attempt.stage.claims returnFinal = true → known = true :=
    fun h => hknown ▸ hinv.claimed k attempt hattempt hid h
  have hwrote := hinv.wrote k attempt hattempt hid
  have hfree : attempt.stage.unwritten = true → standing id s.history = none := by
    intro hun
    cases hst : standing id s.history with
    | none => rfl
    | some j =>
      rw [(hstands j hst).2] at hun
      cases hun
  obtain ⟨request, old⟩ := attempt
  dsimp only at hid hmoves hflight hstands hclaimed hwrote hfree
  -- The steps that end an attempt and keep what is known.
  have hends : ∀ receipt, known' = known → AtMostOnce id returnFinal { s with
      stores := stores
      inFlight := inFlightAfter s.inFlight id (.ended receipt)
      attempts := s.setStage k ⟨request, old⟩ (.ended receipt)
      history := s.history ++ eventsOf id k false (.ended receipt) } := by
    intro receipt hsame
    refine hinv.own_ended hattempt hid hflight receipt ?_
    intro j hj
    rw [hknown', hsame]
    exact (hstands j (standing_ended s.history receipt j hj)).1
  cases hmoves with
  | repeated receipt => exact hends receipt rfl
  | unregistered receipt => exact hends receipt rfl
  | recordSubmitted nested receipt => exact hends receipt rfl
  | recordConfirmed confirmed receipt => exact hends receipt rfl
  | recordFailed returnRequest detail receipt => exact hends receipt rfl
  | claim =>
    refine hinv.own_quiet hattempt hid hflight (by simp) ?_ (fun h => nomatch h) ?_
    · intro hc
      rw [hknown']
      exact hc
    · intro j hj
      cases (hstands j hj).1
  | refuse rejection _ hrejection =>
    refine hinv.own_quiet hattempt hid hflight (by simp) (fun h => nomatch h) ?_ ?_
    · intro hw
      exact absurd (of_decide_eq_true hw) hrejection
    · intro j hj
      cases (hstands j hj).2
  | refusePrepared returnRequest rejection _ hrejection =>
    refine hinv.own_quiet hattempt hid hflight (by simp) (fun h => nomatch h) ?_ ?_
    · intro hw
      exact absurd (of_decide_eq_true hw) hrejection
    · intro j hj
      cases (hstands j hj).2
  | prepare _ hone =>
    refine hinv.own_quiet hattempt hid hflight (by simp) ?_ (fun h => nomatch h) ?_
    · intro _
      rw [hknown']
      apply hclaimed
      show (!returnFinal) = true
      rw [hone]
      rfl
    · intro j hj
      cases (hstands j hj).2
  | register registered =>
    refine hinv.own_quiet hattempt hid hflight (by simp) (fun _ => hknown')
      (fun h => nomatch h) ?_
    intro j hj
    cases (hstands j hj).2
  | write returnRequest =>
    exact hinv.own_wrote hattempt hid hflight (by simp) rfl rfl
      (hknown'.trans (hclaimed rfl)) (hfree rfl)
  | writeFailed returnRequest wrote detail =>
    cases wrote with
    | true =>
      exact hinv.own_wrote hattempt hid hflight (by simp) rfl rfl
        (hknown'.trans (hclaimed rfl)) (hfree rfl)
    | false =>
      refine hinv.own_quiet hattempt hid hflight (by simp) (fun h => nomatch h)
        (fun h => nomatch h) ?_
      intro j hj
      cases (hstands j hj).2
  | takeBack returnRequest =>
    refine hinv.own_quiet hattempt hid hflight (by simp) (fun h => nomatch h) (fun _ => rfl) ?_
    intro j hj
    exact ⟨hknown'.trans (hstands j hj).1, rfl⟩
  | submitFailed returnRequest detail =>
    refine hinv.own_quiet hattempt hid hflight (by simp) (fun h => nomatch h)
      (fun h => nomatch h) ?_
    intro j hj
    exact ⟨hknown'.trans (hstands j hj).1, rfl⟩
  | submit returnRequest =>
    refine hinv.own_quiet hattempt hid hflight (by simp) (fun h => nomatch h) (fun _ => rfl) ?_
    intro j hj
    exact ⟨hknown'.trans (hstands j hj).1, rfl⟩
  | confirm receipt =>
    refine hinv.own_quiet hattempt hid hflight (by simp) (fun h => nomatch h) (fun _ => rfl) ?_
    intro j hj
    exact ⟨hknown'.trans (hstands j hj).1, rfl⟩
  | release rejection receipt _ _ hdefinitive hwritten =>
    refine hinv.own_ended hattempt hid hflight receipt ?_
    intro j hj
    -- Nothing stands: nothing stood, or the attempt takes back what it wrote.
    by_cases htaken : rejection = .takenBack
    · have hk := hwrote (decide_eq_true htaken)
      rw [standing_concat, hk] at hj
      rw [show standingStep id (some k) (.ended id k receipt) = none from
        if_pos ⟨rfl, rfl, hdefinitive, hwritten⟩] at hj
      cases hj
    · have hst := standing_ended s.history receipt j hj
      rw [hfree (decide_eq_true htaken)] at hst
      cases hst

end Own

omit hinv in
theorem setStage_other (hid : attempt.request.requestId ≠ id) {j : Nat} {other : Attempt}
    (h : s.setStage k attempt stage j = some other) (hoid : other.request.requestId = id) :
    s.attempts j = some other := by
  unfold setStage at h
  by_cases hj : j = k
  · subst hj
    rw [Function.update_self] at h
    cases h
    exact absurd hoid hid
  · rwa [Function.update_of_ne hj] at h

theorem AtMostOnce.admitPrompt {input : AdmissionInput}
    (h : s.admitPrompt sha256 k input = some s') : AtMostOnce id returnFinal s' := by
  obtain ⟨attempt, stores, stage, hattempt, hadvance, rfl⟩ := admit_cases h
  obtain ⟨hmoves, hothers⟩ := advance_moves hadvance
  by_cases hid : attempt.request.requestId = id
  · rw [hid, hinv.agree k attempt hattempt hid] at hmoves
    rw [hid]
    exact hinv.admit_own hattempt hid rfl rfl hmoves
  · have hforeign : ∀ event ∈ eventsOf attempt.request.requestId k input.writes stage,
        event.requestId ≠ id := by
      intro event hmem
      rw [requestId_of_mem_eventsOf hmem]
      exact hid
    obtain ⟨hstanding, honce⟩ := standing_append_other hforeign hinv.once
    refine hinv.frame ?_ (hothers id (Ne.symm hid) returnFinal) hstanding honce
    intro j other hother hoid
    have hbefore := setStage_other hid hother hoid
    refine ⟨hinv.agree j other hbefore hoid, .inr ⟨hbefore, ?_⟩⟩
    intro hmem
    show id ∈ inFlightAfter s.inFlight attempt.request.requestId stage
    unfold inFlightAfter
    split
    · rw [List.mem_filter]
      exact ⟨hmem, decide_eq_true (Ne.symm hid)⟩
    · exact hmem

theorem AtMostOnce.enter (h : s.enter k = some s') : AtMostOnce id returnFinal s' := by
  obtain ⟨attempt, hattempt, hwaiting, hfree, rfl⟩ := enter_cases h
  by_cases hid : attempt.request.requestId = id
  · -- No attempt for the ID was in flight.
    refine hinv.move hattempt hid ?_ rfl (fun _ => hid ▸ List.mem_cons_self ..)
      (fun h => nomatch h) (fun h => nomatch h) ?_ hinv.once
    · intro j other hother hoid hflight
      rw [hid] at hfree
      exact absurd (hinv.entered j other hother hoid hflight) hfree
    · intro j hj
      exact ⟨(hinv.stands j hj).1, rfl⟩
  · refine hinv.frame ?_ rfl rfl hinv.once
    intro j other hother hoid
    have hbefore := setStage_other hid hother hoid
    exact ⟨hinv.agree j other hbefore hoid,
      .inr ⟨hbefore, fun hmem => List.mem_cons_of_mem _ hmem⟩⟩

theorem AtMostOnce.giveUp (h : s.giveUp k = some s') : AtMostOnce id returnFinal s' := by
  obtain ⟨attempt, detail, hattempt, hwaiting, rfl⟩ := giveUp_cases h
  have hframe : standing id (s.history ++ [ServiceEvent.ended attempt.request.requestId k
        (.indeterminate attempt.request none detail)]) = standing id s.history ∧
      OneAtATime id (s.history ++ [ServiceEvent.ended attempt.request.requestId k
        (.indeterminate attempt.request none detail)]) := by
    refine ⟨?_, hinv.once.concat fun _ h => nomatch h⟩
    rw [standing_concat]
    exact if_neg fun hc => nomatch hc.2.2.1
  refine hinv.frame ?_ rfl hframe.1 hframe.2
  intro j other hother hoid
  dsimp only [setStage] at hother
  by_cases hj : j = k
  · subst hj
    rw [Function.update_self] at hother
    cases hother
    exact ⟨hinv.agree j attempt hattempt hoid, .inl rfl⟩
  · rw [Function.update_of_ne hj] at hother
    exact ⟨hinv.agree j other hother hoid, .inr ⟨hother, fun hmem => hmem⟩⟩

theorem AtMostOnce.saved {request : Option AgentRequest}
    {requests : AgentRequestStore} (h : s.saved request = some requests)
    (watchers : Nat → Watcher) :
    AtMostOnce id returnFinal { s with
      stores := { s.stores with requests := requests }
      watchers := watchers } := by
  have hknown : Stores.known { s.stores with requests := requests } returnFinal id =
      s.stores.known returnFinal id := by
    cases request with
    | none =>
      cases h
      rfl
    | some request =>
      obtain ⟨pair, hsave, rfl⟩ := Option.map_eq_some_iff.mp h
      exact known_requests (isSome_get_save hsave id) returnFinal
  refine hinv.frame ?_ hknown rfl hinv.once
  intro j other hother hoid
  exact ⟨hinv.agree j other hother hoid, .inr ⟨hother, fun hmem => hmem⟩⟩

theorem AtMostOnce.step {action : Action}
    (hagree : ∀ k request, action = .arrive k request → request.requestId = id →
      request.returnFinal = returnFinal)
    (h : s.step sha256 action = some s') : AtMostOnce id returnFinal s' := by
  -- A step that leaves attempts, stores and history alone.
  have hidle : ∀ serving watchers, AtMostOnce id returnFinal
      { s with serving := serving, watchers := watchers } := by
    intro serving watchers
    refine hinv.frame ?_ rfl rfl hinv.once
    intro j other hother hoid
    exact ⟨hinv.agree j other hother hoid, .inr ⟨hother, fun hmem => hmem⟩⟩
  cases action with
  | serve =>
    cases h
    exact hidle true s.watchers
  | arrive k request =>
    obtain ⟨_, rfl⟩ := arrive_cases h
    refine hinv.frame ?_ rfl rfl hinv.once
    intro j other hother hoid
    dsimp only at hother
    by_cases hj : j = k
    · subst hj
      rw [Function.update_self] at hother
      cases hother
      exact ⟨hagree j request rfl hoid, .inl rfl⟩
    · rw [Function.update_of_ne hj] at hother
      exact ⟨hinv.agree j other hother hoid, .inr ⟨hother, fun hmem => hmem⟩⟩
  | enter k => exact hinv.enter h
  | giveUp k => exact hinv.giveUp h
  | admitPrompt k input => exact hinv.admitPrompt h
  | reconcile k now cancel =>
    rw [reconcile_cases h]
    exact hidle s.serving _
  | watch k input =>
    obtain ⟨watcher, requests, _, hsaved, rfl⟩ := watch_cases h
    exact hinv.saved hsaved _
  | crash =>
    cases h
    refine hinv.frame ?_ rfl rfl hinv.once
    intro j other hother hoid
    obtain ⟨attempt, hattempt, rfl⟩ := Option.map_eq_some_iff.mp hother
    have hrequest : attempt.request.requestId = id ∧
        attempt.request.returnFinal = returnFinal := by
      have hid : attempt.request.requestId = id := by
        rw [← hoid]
        split <;> rfl
      exact ⟨hid, hinv.agree j attempt hattempt hid⟩
    cases hstage : attempt.stage <;> simp only [hstage] <;>
      exact ⟨hrequest.2, .inl rfl⟩
  | recover requestId now =>
    obtain ⟨_, requests, _, hsaved, rfl⟩ := recover_cases h
    exact hinv.saved hsaved s.watchers

omit hinv in
/-- **Runs.** -/
theorem AtMostOnce.run {actions : List Action} (hinv : AtMostOnce id returnFinal s)
    (hagree : ∀ k request, .arrive k request ∈ actions → request.requestId = id →
      request.returnFinal = returnFinal)
    (h : s.run sha256 actions = some s') : AtMostOnce id returnFinal s' := by
  induction actions generalizing s with
  | nil =>
    cases h
    exact hinv
  | cons action actions ih =>
    obtain ⟨mid, hmid, hrest⟩ := Option.bind_eq_some_iff.mp h
    have hstep := hinv.step
      (fun k request heq => hagree k request (heq ▸ List.mem_cons_self ..)) hmid
    exact ih hstep (fun k request hmem => hagree k request (List.mem_cons_of_mem _ hmem)) hrest

end Service

end Wakterm.Agent
