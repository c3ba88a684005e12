import Wakterm.Agent.Logic.Admission
import Wakterm.Agent.Logic.Service

/-!
# Which request IDs are known

An admission asks one of the two stores about its request ID, and makes the ID known there.
-/

namespace Wakterm.Agent

/-- Does the store that such an admission asks know the request ID? -/
def Stores.known (stores : Stores) (returnFinal : Bool) (requestId : String) : Bool :=
  if returnFinal then (stores.requests.get requestId).isSome
  else (stores.admissions.row requestId).isSome

/-! ## What an attempt's step does -/

/-- A step of an attempt, whether it sends the prompt, and whether its request ID is known
before and after it. -/
inductive Moves (returnFinal : Bool) :
    AdmissionStage → Bool → AdmissionStage → Bool → Bool → Prop
  /-- The ID is known, or the database fails. -/
  | repeated (receipt : AgentAdmissionReceipt) (known : Bool) :
      Moves returnFinal .entered false (.ended receipt) known known
  | claim : Moves returnFinal .entered false .claimed false (!returnFinal)
  | refuse (rejection : Rejection) (known : Bool) (hrejection : rejection ≠ .takenBack) :
      Moves returnFinal .claimed false (.releasing rejection) known known
  | unregistered (receipt : AgentAdmissionReceipt) (known : Bool) :
      Moves returnFinal .claimed false (.ended receipt) known known
  | prepare (known : Bool) (hone : returnFinal = false) :
      Moves returnFinal .claimed false (.prepared none) known known
  | register (registered : AgentRequest) (known : Bool) :
      Moves returnFinal .claimed false (.prepared (some registered)) known true
  | refusePrepared (returnRequest : Option AgentRequest) (rejection : Rejection) (known : Bool)
      (hrejection : rejection ≠ .takenBack) :
      Moves returnFinal (.prepared returnRequest) false (.releasing rejection) known known
  | write (returnRequest : Option AgentRequest) (known : Bool) :
      Moves returnFinal (.prepared returnRequest) true (.typed returnRequest) known known
  | writeFailed (returnRequest : Option AgentRequest) (wrote : Bool) (detail : String)
      (known : Bool) :
      Moves returnFinal (.prepared returnRequest) wrote (.failed returnRequest detail) known known
  | takeBack (returnRequest : Option AgentRequest) (known : Bool) :
      Moves returnFinal (.typed returnRequest) false (.releasing .takenBack) known known
  | submitFailed (returnRequest : Option AgentRequest) (detail : String) (known : Bool) :
      Moves returnFinal (.typed returnRequest) false (.failed returnRequest detail) known known
  | submit (returnRequest : Option AgentRequest) (known : Bool) :
      Moves returnFinal (.typed returnRequest) false (.delivered returnRequest) known known
  | confirm (receipt : AgentAdmissionReceipt) (known : Bool) :
      Moves returnFinal (.delivered none) false (.confirmed receipt) known known
  | recordSubmitted (nested : AgentRequest) (receipt : AgentAdmissionReceipt) (known : Bool) :
      Moves returnFinal (.delivered (some nested)) false (.ended receipt) known known
  | recordConfirmed (confirmed receipt : AgentAdmissionReceipt) (known : Bool) :
      Moves returnFinal (.confirmed confirmed) false (.ended receipt) known known
  | recordFailed (returnRequest : Option AgentRequest) (detail : String)
      (receipt : AgentAdmissionReceipt) (known : Bool) :
      Moves returnFinal (.failed returnRequest detail) false (.ended receipt) known known
  /-- A claim that is given back, or that could not be, was definitely not written. -/
  | release (rejection : Rejection) (receipt : AgentAdmissionReceipt) (known known' : Bool)
      (hdefinitive : receipt.definitive = true) (hwritten : receipt.promptWritten = some false) :
      Moves returnFinal (.releasing rejection) false (.ended receipt) known known'

section Known

variable {sha256 : List UInt8 → String}

theorem isSome_get_save {store store' : AgentRequestStore} {request saved : AgentRequest}
    (h : store.save request = some (store', saved)) (id : String) :
    (store'.get id).isSome = (store.get id).isSome := by
  obtain ⟨_, _, _, hget, _⟩ := AgentRequestStore.save_spec h
  rw [hget]
  split
  · rename_i hc
    rw [hc.2]
    rfl
  · rfl

variable {receipt : AgentAdmissionReceipt} {err : Option String} {now : DateTime}

theorem isSome_row_finish {store store' : AgentAdmissionStore}
    (h : store.finish receipt = some store') (id : String) :
    (store'.row id).isSome = (store.row id).isSome := by
  obtain ⟨row, record, hrow, _, _, hrows⟩ := AgentAdmissionStore.row_finish h
  rw [hrows]
  split
  · rename_i hid
    subst hid
    rw [hrow]
    rfl
  · rfl

theorem isSome_row_claim (sha256 : List UInt8 → String) (store : AgentAdmissionStore)
    (request : AgentPromptAdmissionRequest) (id : String) :
    ((store.claim sha256 request).2.row id).isSome =
      ((store.row id).isSome || decide (id = request.requestId)) := by
  unfold AgentAdmissionStore.claim
  cases hrow : store.row request.requestId with
  | none =>
    dsimp only
    rw [AgentAdmissionStore.row_insert]
    by_cases hid : id = request.requestId
    · rw [if_pos hid, decide_eq_true hid, Bool.or_true]
      rfl
    · rw [if_neg hid, decide_eq_false hid, Bool.or_false]
  | some row =>
    have hsame : (store.row id).isSome =
        ((store.row id).isSome || decide (id = request.requestId)) := by
      by_cases hid : id = request.requestId
      · rw [hid, hrow]
        rfl
      · simp [hid]
    dsimp only
    split
    · exact hsame
    · split
      · rw [AgentAdmissionStore.update, AgentAdmissionStore.row_insert]
        by_cases hid : id = request.requestId
        · rw [if_pos hid, decide_eq_true hid, Bool.or_true]
          rfl
        · rw [if_neg hid, decide_eq_false hid, Bool.or_false]
      · exact hsame

theorem row_releaseUnwritten_ne {store : AgentAdmissionStore} {requestId id : String}
    (h : id ≠ requestId) : (store.releaseUnwritten requestId).row id = store.row id := by
  unfold AgentAdmissionStore.releaseUnwritten
  split
  · rfl
  · split
    · rw [AgentAdmissionStore.row_erase, if_neg h]
    · rfl

theorem known_requests {stores : Stores} {requests : AgentRequestStore} {id : String}
    (h : (requests.get id).isSome = (stores.requests.get id).isSome) (returnFinal : Bool) :
    Stores.known { stores with requests := requests } returnFinal id =
      stores.known returnFinal id := by
  unfold Stores.known
  rw [h]

theorem known_admissions {stores : Stores} {admissions : AgentAdmissionStore} {id : String}
    (h : (admissions.row id).isSome = (stores.admissions.row id).isSome) (returnFinal : Bool) :
    Stores.known { stores with admissions := admissions } returnFinal id =
      stores.known returnFinal id := by
  unfold Stores.known
  rw [h]

theorem Rejection.receipt_definitive (request : AgentPromptAdmissionRequest)
    (rejection : Rejection) : (rejection.receipt request).definitive = true ∧
      (rejection.receipt request).promptWritten = some false := by
  cases rejection <;> exact ⟨rfl, rfl⟩

theorem Rejection.receiptUnreleased_definitive (request : AgentPromptAdmissionRequest)
    (err : String) (rejection : Rejection) :
    (rejection.receiptUnreleased request err).definitive = true ∧
      (rejection.receiptUnreleased request err).promptWritten = some false := by
  cases rejection <;> exact ⟨rfl, rfl⟩

variable {request : AgentPromptAdmissionRequest} {stores stores' : Stores}
  {stage' : AdmissionStage}

/-- What is known of other request IDs stays so. -/
def KnowsOthers (request : AgentPromptAdmissionRequest) (stores stores' : Stores) : Prop :=
  ∀ id, id ≠ request.requestId → ∀ returnFinal,
    stores'.known returnFinal id = stores.known returnFinal id

theorem KnowsOthers.refl (request : AgentPromptAdmissionRequest) (stores : Stores) :
    KnowsOthers request stores stores :=
  fun _ _ _ => rfl

/-- A step of an attempt: what is known of its request moves on, and nothing else changes. -/
abbrev MovesOn (request : AgentPromptAdmissionRequest) (stage : AdmissionStage) (wrote : Bool)
    (stage' : AdmissionStage) (stores stores' : Stores) : Prop :=
  Moves request.returnFinal stage wrote stage'
    (stores.known request.returnFinal request.requestId)
    (stores'.known request.returnFinal request.requestId) ∧ KnowsOthers request stores stores'

theorem lookup_moves (h : lookup sha256 request stores err = (stores', stage')) :
    MovesOn request .entered false stage' stores stores' := by
  unfold lookup at h
  cases err with
  | some err =>
    dsimp only at h
    split at h <;> cases h <;> exact ⟨.repeated _ _, .refl request stores⟩
  | none =>
    dsimp only at h
    split at h
    · rename_i hfinal
      split at h
      · rename_i hnone
        cases h
        refine ⟨?_, .refl request stores⟩
        have hunknown : stores.known request.returnFinal request.requestId = false := by
          unfold Stores.known
          rw [if_pos hfinal, hnone]
          rfl
        have hclaim : Moves request.returnFinal .entered false .claimed false
            (!request.returnFinal) := .claim
        rw [hunknown]
        simpa [hfinal] using hclaim
      · split at h
        · cases h
          exact ⟨.repeated _ _, .refl request stores⟩
        · split at h <;> cases h <;> exact ⟨.repeated _ _, .refl request stores⟩
    · rename_i hone
      rw [Bool.not_eq_true] at hone
      have hrows := isSome_row_claim sha256 stores.admissions request
      have hothers : KnowsOthers request stores
          { stores with admissions := (stores.admissions.claim sha256 request).2 } := by
        intro id hid mode
        apply known_admissions
        rw [hrows, decide_eq_false hid, Bool.or_false]
      have hafter : Stores.known
          { stores with admissions := (stores.admissions.claim sha256 request).2 }
          request.returnFinal request.requestId = true := by
        unfold Stores.known
        rw [hone, if_neg Bool.false_ne_true, hrows, decide_eq_true rfl, Bool.or_true]
      by_cases hnew : (stores.admissions.claim sha256 request).1 = .new
      · simp only [hnew] at h
        cases h
        refine ⟨?_, hothers⟩
        have hunknown : stores.known request.returnFinal request.requestId = false := by
          rw [AgentAdmissionStore.claim_eq_new_iff] at hnew
          unfold Stores.known
          rw [hone, if_neg Bool.false_ne_true, hnew]
          rfl
        have hclaim : Moves request.returnFinal .entered false .claimed false
            (!request.returnFinal) := .claim
        rw [hunknown, hafter]
        simpa [hone] using hclaim
      · have hbefore : stores.known request.returnFinal request.requestId = true := by
          rw [AgentAdmissionStore.claim_eq_new_iff] at hnew
          unfold Stores.known
          rw [hone, if_neg Bool.false_ne_true]
          exact Option.isSome_iff_ne_none.mpr hnew
        split at h
        · contradiction
        · cases h
          rw [MovesOn, hbefore, hafter]
          exact ⟨.repeated _ _, hothers⟩
        · cases h
          rw [MovesOn, hbefore, hafter]
          exact ⟨.repeated _ _, hothers⟩

theorem propose_moves {candidate : AgentAdmissionCandidate} {registeredAt : DateTime}
    (h : propose sha256 request stores candidate now registeredAt err = (stores', stage')) :
    MovesOn request .claimed false stage' stores stores' := by
  unfold propose at h
  cases hprop : candidate.proposedReturnRequest sha256 request now registeredAt with
  | error e =>
    simp only [hprop] at h
    cases h
    exact ⟨.refuse _ _ (by simp), .refl request stores⟩
  | ok proposed? =>
    cases proposed? with
    | none =>
      simp only [hprop] at h
      cases h
      exact ⟨.prepare _ (Service.proposedReturnRequest_none hprop), .refl request stores⟩
    | some proposed =>
      obtain ⟨hfinal, hid, _, _⟩ := Service.proposedReturnRequest_some hprop
      simp only [hprop] at h
      split at h
      · cases h
        exact ⟨.unregistered _ _, .refl request stores⟩
      · split at h <;> cases h <;> exact ⟨.unregistered _ _, .refl request stores⟩
      · rename_i stored requests hcreate
        cases h
        cases err with
        | some e => cases hcreate
        | none =>
          rcases AgentRequestStore.create_cases hcreate with
            ⟨hf, _⟩ | ⟨_, rfl, hnone, hget, _⟩
          · cases hf
          · rw [hid] at hget
            have hafter : Stores.known { stores with requests := requests }
                request.returnFinal request.requestId = true := by
              unfold Stores.known
              rw [hfinal, if_pos rfl, hget, if_pos rfl]
              rfl
            rw [MovesOn, hafter]
            refine ⟨.register stored _, ?_⟩
            intro id hne mode
            apply known_requests
            rw [hget, if_neg hne]

theorem recordSubmitted_moves {nested : AgentRequest}
    (h : recordSubmitted request stores nested now err = (stores', stage')) :
    MovesOn request (.delivered (some nested)) false stage' stores stores' := by
  unfold recordSubmitted at h
  cases err with
  | some e =>
    cases h
    exact ⟨.recordSubmitted _ _ _, .refl request stores⟩
  | none =>
    dsimp only at h
    split at h
    · cases h
      exact ⟨.recordSubmitted _ _ _, .refl request stores⟩
    · rename_i requests saved hsave
      cases h
      have hknown : ∀ id mode, Stores.known { stores with requests := requests } mode id =
          stores.known mode id :=
        fun id mode => known_requests (isSome_get_save hsave id) mode
      rw [MovesOn, hknown]
      exact ⟨.recordSubmitted _ _ _, fun id _ mode => hknown id mode⟩

theorem recordConfirmed_moves (h : recordConfirmed request stores receipt err = (stores', stage')) :
    MovesOn request (.confirmed receipt) false stage' stores stores' := by
  unfold recordConfirmed at h
  cases err with
  | some e =>
    cases h
    exact ⟨.recordConfirmed _ _ _, .refl request stores⟩
  | none =>
    dsimp only at h
    split at h
    · cases h
      exact ⟨.recordConfirmed _ _ _, .refl request stores⟩
    · rename_i admissions hfinish
      cases h
      have hknown : ∀ id mode, Stores.known { stores with admissions := admissions } mode id =
          stores.known mode id :=
        fun id mode => known_admissions (isSome_row_finish hfinish id) mode
      rw [MovesOn, hknown]
      exact ⟨.recordConfirmed _ _ _, fun id _ mode => hknown id mode⟩

theorem recordFailed_moves {returnRequest : Option AgentRequest} {detail : String}
    (h : recordFailed request stores returnRequest detail now err = (stores', stage')) :
    MovesOn request (.failed returnRequest detail) false stage' stores stores' := by
  have hknown : ∀ id mode, stores'.known mode id = stores.known mode id := by
    intro id mode
    unfold recordFailed at h
    cases returnRequest with
    | none =>
      simp only [Prod.mk.injEq] at h
      obtain ⟨rfl, _⟩ := h
      apply known_admissions
      split
      · rfl
      · cases hfinish : stores.admissions.finish
          (.indeterminate request none detail) with
        | none => rfl
        | some admissions => exact isSome_row_finish hfinish id
    | some nested =>
      simp only [Prod.mk.injEq] at h
      obtain ⟨rfl, _⟩ := h
      apply known_requests
      split
      · rfl
      · cases hsave : stores.requests.save (nested.finish .indeterminate now detail) with
        | none => rfl
        | some pair => exact isSome_get_save hsave id
  rw [MovesOn, hknown]
  refine ⟨?_, fun id _ mode => hknown id mode⟩
  unfold recordFailed at h
  cases returnRequest with
  | none =>
    cases h
    exact .recordFailed _ _ _ _
  | some nested =>
    cases h
    exact .recordFailed _ _ _ _

theorem releaseUnwrittenClaim_moves {rejection : Rejection}
    (h : releaseUnwrittenClaim request stores rejection err = (stores', stage')) :
    MovesOn request (.releasing rejection) false stage' stores stores' := by
  obtain ⟨hdef, hwritten⟩ := rejection.receipt_definitive request
  unfold releaseUnwrittenClaim at h
  cases err with
  | some e =>
    obtain ⟨hdef', hwritten'⟩ := rejection.receiptUnreleased_definitive request e
    cases h
    exact ⟨.release _ _ _ _ hdef' hwritten', .refl request stores⟩
  | none =>
    dsimp only at h
    split at h
    · split at h
      · cases h
        obtain ⟨hdef', hwritten'⟩ := rejection.receiptUnreleased_definitive request
          "FOREIGN KEY constraint failed"
        exact ⟨.release _ _ _ _ hdef' hwritten', .refl request stores⟩
      · rename_i requests hdelete
        cases h
        refine ⟨.release _ _ _ _ hdef hwritten, ?_⟩
        intro id hid mode
        apply known_requests
        obtain ⟨_, rfl | ⟨_, _, _, hget⟩⟩ := AgentRequestStore.deleteRegistered_spec hdelete
        · rfl
        · rw [hget, if_neg hid]
    · cases h
      refine ⟨.release _ _ _ _ hdef hwritten, ?_⟩
      intro id hid mode
      apply known_admissions
      rw [row_releaseUnwritten_ne hid]

/-- **What an attempt's step does** to what is known of its request ID, and of others. -/
theorem advance_moves {stage : AdmissionStage} {input : AdmissionInput}
    (h : advance sha256 request stores stage input = some (stores', stage')) :
    MovesOn request stage input.writes stage' stores stores' := by
  unfold advance at h
  split at h
  case h_1 => exact lookup_moves (Option.some.inj h)
  case h_2 =>
      split at h
      all_goals first
        | cases h; exact ⟨.refuse _ _ (by simp), .refl request _⟩
        | cases h
  case h_3 => exact propose_moves (Option.some.inj h)
  case h_4 =>
      cases h
      exact ⟨.refusePrepared _ _ _ (by simp), .refl request _⟩
  case h_5 =>
      split at h
      all_goals cases h
      · exact ⟨.writeFailed _ _ _ _, .refl request _⟩
      · exact ⟨.writeFailed _ _ _ _, .refl request _⟩
      · exact ⟨.write _ _, .refl request _⟩
  case h_6 =>
      split at h
      all_goals cases h
      · exact ⟨.takeBack _ _, .refl request _⟩
      · exact ⟨.submitFailed _ _ _, .refl request _⟩
      · exact ⟨.submit _ _, .refl request _⟩
  case h_7 =>
      cases h
      exact ⟨.confirm _ _, .refl request _⟩
  case h_8 => exact recordSubmitted_moves (Option.some.inj h)
  case h_9 => exact recordConfirmed_moves (Option.some.inj h)
  case h_10 => exact recordFailed_moves (Option.some.inj h)
  case h_11 => exact releaseUnwrittenClaim_moves (Option.some.inj h)
  case h_12 => cases h

end Known

end Wakterm.Agent
