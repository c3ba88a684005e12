import Wakterm.Mux.AgentApproval

/-!
# Who has an approval

An approval that was captured is in the map, in the hands of one call, or answered, and never in two
of these places.
-/

namespace Wakterm.Mux.Approvals

open Wakterm.Agent Wakterm.Machine

variable {resolution : AgentApprovalResolutionRequest}

variable {s : Approvals}

variable {sha256 : List UInt8 → String}

/-- The capture is the latest with its id. -/
def Newest (captures : List PendingAgentApproval) (held : Captured) : Prop :=
  ∀ k approval, held.serial < k → captures[k]? = some approval →
    approval.request.requestId ≠ held.approval.request.requestId

/-- The response is one of those offered, for the agent that the resolution names. -/
structure Proper (sha256 : List UInt8 → String) (captures : List PendingAgentApproval)
    (a : AcceptedAnswer) : Prop where
  captured : captures[a.held.serial]? = some a.held.approval
  request : a.appServerRequestId = a.held.approval.appServerRequestId
  offered : a.held.approval.responses.lookup a.resolution.choiceId = some a.response
  agent : a.held.approval.request.agentId = a.resolution.agentId
  incarnation : a.held.approval.request.incarnationId = a.resolution.incarnationId
  current : ∃ metadata, a.agents.find? (·.agentId = a.resolution.agentId) = some metadata ∧
    incarnationIdOf sha256 metadata = some a.resolution.incarnationId

/-- What holds in every state. -/
structure Sound (sha256 : List UInt8 → String) (s : Approvals) : Prop where
  once : (s.accepted.map (·.held.serial)).Nodup
  proper : ∀ a ∈ s.accepted, Proper sha256 s.captures a
  newest : ∀ requestId held, s.pending requestId = some held → Newest s.captures held

/-- What a step has to meet: an agent that was checked is as it was when the app server accepts the
response, and what is put back no other call was at meanwhile. -/
def Meets (s : Approvals) : Event → Prop
  | .advance i ok => ∀ call, s.calls[i]? = some call →
      (∀ resolution held current response, call = .respond resolution held current response →
        ok = true → s.agents.find? (·.agentId = resolution.agentId) = some current) ∧
      ∀ resolution held err, call = .putBack resolution held err → i ∉ s.touched
  | _ => True

/-- What a call knows of the request in its hands. -/
def Knows (sha256 : List UInt8 → String) : ApprovalCall → Prop
  | .check resolution held =>
    held.approval.request.agentId = resolution.agentId ∧
      held.approval.request.incarnationId = resolution.incarnationId
  | .respond resolution held current response =>
    held.approval.request.agentId = resolution.agentId ∧
      held.approval.request.incarnationId = resolution.incarnationId ∧
      incarnationIdOf sha256 current = some resolution.incarnationId ∧
      held.approval.responses.lookup resolution.choiceId = some response
  | _ => True

/-- What is preserved. -/
structure Inv (sha256 : List UInt8 → String) (s : Approvals) : Prop where
  stored : ∀ requestId held, s.pending requestId = some held →
    s.captures[held.serial]? = some held.approval ∧
      held.approval.request.requestId = requestId ∧ Newest s.captures held ∧
      held.serial ∉ s.accepted.map (·.held.serial)
  held : ∀ (i : Nat) (call : ApprovalCall), s.calls[i]? = some call →
    ∀ resolution held, call.held = some (resolution, held) →
      s.captures[held.serial]? = some held.approval ∧
        held.approval.request.requestId = resolution.requestId ∧
        held.serial ∉ s.accepted.map (·.held.serial) ∧
        (∀ requestId other, s.pending requestId = some other → other.serial ≠ held.serial) ∧
        (i ∉ s.touched → s.pending resolution.requestId = none ∧ Newest s.captures held)
  apart : ∀ (i j : Nat) (call call' : ApprovalCall), s.calls[i]? = some call →
    s.calls[j]? = some call' → ∀ h h', call.held = some h → call'.held = some h' → i ≠ j →
      h.2.serial ≠ h'.2.serial
  knows : ∀ (i : Nat) (call : ApprovalCall), s.calls[i]? = some call → Knows sha256 call
  once : (s.accepted.map (·.held.serial)).Nodup
  proper : ∀ a ∈ s.accepted, Proper sha256 s.captures a

theorem Inv.sound (h : s.Inv sha256) : s.Sound sha256 :=
  ⟨h.once, h.proper, fun requestId held hheld => (h.stored requestId held hheld).2.2.1⟩

theorem start_inv (agents : List AgentMetadata) : (start agents).Inv sha256 := by
  refine ⟨fun requestId held h => ?_, fun i call h => ?_, fun i j call call' h => ?_,
    fun i call h => ?_, List.nodup_nil, fun a ha => ?_⟩
  · exact absurd h (by simp [start])
  · exact absurd h (by simp [start])
  · exact absurd h (by simp [start])
  · exact absurd h (by simp [start])
  · exact absurd ha (by simp [start])

/-! ## The calls -/

theorem mem_holders {i j : Nat} {requestId : String} : j ∈ s.holders i requestId ↔
      j ≠ i ∧ ∃ call, s.calls[j]? = some call ∧ call.holds requestId = true := by
  unfold holders
  rw [List.mem_filter, List.mem_range, Bool.and_eq_true, decide_eq_true_eq, Option.any_eq_true]
  constructor
  · rintro ⟨-, hne, call, hcall, hholds⟩
    exact ⟨hne, call, hcall, hholds⟩
  · rintro ⟨hne, call, hcall, hholds⟩
    exact ⟨(List.getElem?_eq_some_iff.1 hcall).1, hne, call, hcall, hholds⟩

theorem ne_of_untouched {i j : Nat} {requestId : String} {call : ApprovalCall}
    {held : Captured} (hne : j ≠ i)
    (hcall : s.calls[j]? = some call) (hheld : call.held = some (resolution, held))
    (huntouched : j ∉ s.holders i requestId ++ s.touched) :
    resolution.requestId ≠ requestId ∧ j ∉ s.touched := by
  rw [List.mem_append, not_or] at huntouched
  refine ⟨fun heq => huntouched.1 (mem_holders.2 ⟨hne, call, hcall, ?_⟩), huntouched.2⟩
  simp [ApprovalCall.holds, hheld, heq]

/-- What a call has is apart from what the others have. -/
def Apart (s : Approvals) (i : Nat) (call : ApprovalCall) : Prop :=
  ∀ h, call.held = some h → ∀ (j : Nat) (other : ApprovalCall), j ≠ i →
    s.calls[j]? = some other → ∀ h', other.held = some h' → h.2.serial ≠ h'.2.serial

theorem apart_set (h : s.Inv sha256) {i : Nat} {call' : ApprovalCall}
    (hapart : s.Apart i call') :
    ∀ (j k : Nat) (a b : ApprovalCall), (s.calls.set i call')[j]? = some a →
      (s.calls.set i call')[k]? = some b → ∀ ha hb, a.held = some ha → b.held = some hb → j ≠ k →
        ha.2.serial ≠ hb.2.serial := by
  intro j k a b hj hk ha hb hheld hheld' hne
  rw [List.getElem?_set] at hj hk
  split at hj
  · next hij =>
    split at hj
    · cases hj
      subst hij
      rw [if_neg hne] at hk
      exact hapart ha hheld k b (Ne.symm hne) hk hb hheld'
    · simp at hj
  · next hij =>
    split at hk
    · next hik =>
      split at hk
      · cases hk
        subst hik
        exact Ne.symm (hapart hb hheld' j a hne hj ha hheld)
      · simp at hk
    · exact h.apart j k a b hj hk ha hb hheld hheld' hne

theorem Inv.apart_of_held (h : s.Inv sha256) {i : Nat} {call call' : ApprovalCall}
    (hcall : s.calls[i]? = some call) (hheld : ∀ x, call'.held = some x → call.held = some x) :
    s.Apart i call' :=
  fun x hx j other hne hj x' hx' =>
    h.apart i j call other hcall hj x x' (hheld x hx) hx' (Ne.symm hne)

theorem goto_inv (h : s.Inv sha256) {i : Nat} {call call' : ApprovalCall}
    (hcall : s.calls[i]? = some call) (hheld : ∀ x, call'.held = some x → call.held = some x)
    (hknows : Knows sha256 call') : (s.goto i call').Inv sha256 := by
  refine ⟨h.stored, forall_set (fun j other _ hj => h.held j other hj) ?_,
    apart_set h (h.apart_of_held hcall hheld), forall_set (fun j other _ hj => h.knows j other hj)
      hknows, h.once, h.proper⟩
  intro resolution held hx
  exact h.held i call hcall resolution held (hheld _ hx)

theorem touch_inv (h : s.Inv sha256) (i : Nat) (requestId : String) :
    (s.touch i requestId).Inv sha256 := by
  refine ⟨h.stored, fun j call hj resolution held hx => ?_, h.apart, h.knows, h.once, h.proper⟩
  obtain ⟨hcaptured, hrequest, haccepted, hpending, huntouched⟩ :=
    h.held j call hj resolution held hx
  refine ⟨hcaptured, hrequest, haccepted, hpending, fun hnot => huntouched fun hmem => hnot ?_⟩
  exact List.mem_append_right _ hmem

/-! ## The steps -/

theorem Newest.concat {captures : List PendingAgentApproval} {held : Captured}
    (h : Newest captures held) {approval : PendingAgentApproval}
    (hne : held.approval.request.requestId ≠ approval.request.requestId) :
    Newest (captures ++ [approval]) held := by
  intro k other hk hat
  rw [List.getElem?_append] at hat
  split at hat
  · exact h k other hk hat
  · rw [List.getElem?_singleton] at hat
    split at hat
    · cases hat
      exact Ne.symm hne
    · simp at hat

theorem getElem?_captures {captures : List PendingAgentApproval} {k : Nat}
    {approval more : PendingAgentApproval} (h : captures[k]? = some approval) :
    (captures ++ [more])[k]? = some approval := by
  rw [List.getElem?_append_left (List.getElem?_eq_some_iff.1 h).1]
  exact h

theorem stepFind_held (s : Approvals) (message : Json) (now : DateTime) :
    (s.stepFind sha256 message now).held = none ∧ Knows sha256 (s.stepFind sha256 message now) := by
  unfold stepFind
  dsimp only
  split
  · exact ⟨rfl, trivial⟩
  · exact ⟨rfl, trivial⟩

theorem stepInsert_inv (h : s.Inv sha256) {i : Nat}
    {approval : PendingAgentApproval} (hcall : s.calls[i]? = some (.insert approval)) :
    (s.stepInsert i approval).Inv sha256 := by
  have hfresh : ∀ {held : Captured}, s.captures[held.serial]? = some held.approval →
      held.serial ≠ s.captures.length := fun hat =>
    Nat.ne_of_lt (List.getElem?_eq_some_iff.1 hat).1
  refine ⟨fun requestId held hheld => ?_, forall_set (fun j call hji hj => ?_) ?_,
    apart_set h (h.apart_of_held hcall (by simp [ApprovalCall.held])),
    forall_set (fun j call _ hj => h.knows j call hj) trivial, h.once, fun a ha => ?_⟩
  · change Function.update s.pending _ _ requestId = some held at hheld
    show (s.captures ++ [approval])[held.serial]? = _ ∧ _ ∧ Newest (s.captures ++ [approval]) held ∧ _
    by_cases heq : requestId = approval.request.requestId
    · subst heq
      rw [Function.update_self] at hheld
      cases hheld
      refine ⟨?_, rfl, fun k other hk hat => ?_, fun hmem => ?_⟩
      · show (s.captures ++ [approval])[s.captures.length]? = some approval
        simp
      · have hlt := (List.getElem?_eq_some_iff.1 hat).1
        have hgt : s.captures.length < k := hk
        simp only [List.length_append, List.length_singleton] at hlt
        omega
      · obtain ⟨a, ha, hserial⟩ := List.mem_map.1 hmem
        exact hfresh (h.proper a ha).captured hserial
    · rw [Function.update_of_ne heq] at hheld
      obtain ⟨hcaptured, hrequest, hnewest, haccepted⟩ := h.stored requestId held hheld
      exact ⟨getElem?_captures hcaptured, hrequest, hnewest.concat (hrequest ▸ heq), haccepted⟩
  · intro resolution held hx
    obtain ⟨hcaptured, hrequest, haccepted, hpending, huntouched⟩ :=
      h.held j call hj resolution held hx
    refine ⟨getElem?_captures hcaptured, hrequest, haccepted, fun requestId other hother => ?_,
      fun hnot => ?_⟩
    · change Function.update s.pending _ _ requestId = some other at hother
      by_cases heq : requestId = approval.request.requestId
      · subst heq
        rw [Function.update_self] at hother
        cases hother
        exact Ne.symm (hfresh hcaptured)
      · rw [Function.update_of_ne heq] at hother
        exact hpending requestId other hother
    · obtain ⟨hid, hnot⟩ := ne_of_untouched (s := s) hji hj hx hnot
      obtain ⟨hnone, hnewest⟩ := huntouched hnot
      refine ⟨?_, hnewest.concat (hrequest ▸ hid)⟩
      show Function.update s.pending _ _ _ = _
      rw [Function.update_of_ne hid]
      exact hnone
  · intro resolution held hx
    simp [ApprovalCall.held] at hx
  · have hproper := h.proper a ha
    exact { hproper with captured := getElem?_captures hproper.captured }

theorem stepTake_inv (h : s.Inv sha256) {i : Nat}
    (hcall : s.calls[i]? = some (.take resolution)) : (s.stepTake i resolution).Inv sha256 := by
  have htouch := touch_inv h i resolution.requestId
  unfold stepTake
  split
  · exact goto_inv htouch hcall (by simp [ApprovalCall.held]) trivial
  · next held hpending =>
    obtain ⟨hcaptured, hrequest, hnewest, haccepted⟩ := h.stored _ held hpending
    have hothers : ∀ requestId other,
        Function.update s.pending resolution.requestId none requestId = some other →
          requestId ≠ resolution.requestId ∧ s.pending requestId = some other := by
      intro requestId other hother
      by_cases heq : requestId = resolution.requestId
      · subst heq
        rw [Function.update_self] at hother
        exact absurd hother (by simp)
      · rw [Function.update_of_ne heq] at hother
        exact ⟨heq, hother⟩
    -- the two ways to go on have the same in their hands
    have hgoto : ∀ call' : ApprovalCall, call'.held = some (resolution, held) →
        Knows sha256 call' →
        ({ s.touch i resolution.requestId with
          pending := Function.update s.pending resolution.requestId none }.goto i call').Inv
          sha256 := by
      intro call' hheld hknows
      refine ⟨fun requestId other hother => ?_, forall_set (fun j call _ hj => ?_) ?_,
        apart_set h ?_, forall_set (fun j call _ hj => h.knows j call hj) hknows, h.once, h.proper⟩
      · exact h.stored requestId other (hothers requestId other hother).2
      · intro resolution' held' hx
        obtain ⟨hcaptured, hrequest, haccepted, hpending, huntouched⟩ :=
          htouch.held j call hj resolution' held' hx
        refine ⟨hcaptured, hrequest, haccepted, fun requestId other hother => ?_, fun hnot => ?_⟩
        · exact hpending requestId other (hothers requestId other hother).2
        · obtain ⟨hnone, hnewest⟩ := huntouched hnot
          refine ⟨?_, hnewest⟩
          show Function.update s.pending _ none _ = none
          by_cases heq : resolution'.requestId = resolution.requestId
          · rw [heq, Function.update_self]
          · rw [Function.update_of_ne heq]
            exact hnone
      · intro resolution' held' hx
        rw [hheld] at hx
        cases hx
        refine ⟨hcaptured, hrequest, haccepted, fun requestId other hother hserial => ?_,
          fun _ => ⟨Function.update_self .., hnewest⟩⟩
        obtain ⟨hne, hother⟩ := hothers requestId other hother
        obtain ⟨hcaptured', hrequest', -⟩ := h.stored requestId other hother
        -- one capture has one id
        rw [hserial, hcaptured, Option.some.injEq] at hcaptured'
        rw [← hcaptured', hrequest] at hrequest'
        exact hne hrequest'.symm
      · intro x hx j other hne hj x' hx' hserial
        rw [hheld] at hx
        cases hx
        obtain ⟨-, -, -, hpending', -⟩ := h.held j other hj x'.1 x'.2 hx'
        exact hpending' _ held hpending hserial
    split
    · next hsame => exact hgoto _ rfl hsame
    · exact hgoto _ rfl trivial

theorem stepCheck_inv (h : s.Inv sha256) {i : Nat} {held : Captured}
    (hcall : s.calls[i]? = some (.check resolution held)) :
    (s.goto i (s.stepCheck sha256 resolution held)).Inv sha256 := by
  have hsame : held.approval.request.agentId = resolution.agentId ∧
      held.approval.request.incarnationId = resolution.incarnationId := h.knows i _ hcall
  unfold stepCheck
  split
  · exact goto_inv h hcall (fun _ hx => hx) trivial
  · next current hcurrent =>
    split
    · next hincarnation =>
      split
      · exact goto_inv h hcall (fun _ hx => hx) trivial
      · next response hresponse =>
        exact goto_inv h hcall (fun _ hx => hx) ⟨hsame.1, hsame.2, hincarnation, hresponse⟩
    · exact goto_inv h hcall (fun _ hx => hx) trivial

theorem stepRespond_inv (h : s.Inv sha256) {i : Nat} {held : Captured} {current : AgentMetadata}
    {response : Json} (hcall : s.calls[i]? = some (.respond resolution held current response))
    {ok : Bool}
    (hagents : ok = true → s.agents.find? (·.agentId = resolution.agentId) = some current) :
    (s.stepRespond i resolution held response ok).Inv sha256 := by
  obtain ⟨hagent, hincarnation, hcurrent, hresponse⟩ := h.knows i _ hcall
  obtain ⟨hcaptured, hrequest, haccepted, hpending, -⟩ := h.held i _ hcall resolution held rfl
  unfold stepRespond
  split
  · next hok =>
    have hserials : ∀ serial, serial ∉ s.accepted.map (·.held.serial) → serial ≠ held.serial →
        serial ∉ (s.accepted ++ [(⟨held, resolution, held.approval.appServerRequestId, response,
          s.agents⟩ : AcceptedAnswer)]).map (·.held.serial) := by
      intro serial hnot hne
      rw [List.map_append, List.mem_append, not_or]
      exact ⟨hnot, by simpa using hne⟩
    refine ⟨fun requestId other hother => ?_, forall_set (fun j call hji hj => ?_) ?_,
      apart_set h (h.apart_of_held hcall (by simp [ApprovalCall.held])),
      forall_set (fun j call _ hj => h.knows j call hj) trivial, ?_, fun a ha => ?_⟩
    · obtain ⟨hcaptured', hrequest', hnewest, hnot⟩ := h.stored requestId other hother
      exact ⟨hcaptured', hrequest', hnewest, hserials _ hnot (hpending requestId other hother)⟩
    · intro resolution' held' hx
      obtain ⟨hcaptured', hrequest', hnot, hothers, huntouched⟩ :=
        h.held j call hj resolution' held' hx
      have hne := h.apart j i call _ hj hcall (resolution', held') (resolution, held) hx rfl hji
      exact ⟨hcaptured', hrequest', hserials _ hnot hne, hothers, huntouched⟩
    · intro resolution' held' hx
      simp [ApprovalCall.held] at hx
    · show ((s.accepted ++ [_]).map _).Nodup
      rw [List.map_append]
      exact List.nodup_append.2 ⟨h.once, List.nodup_singleton _, by
        intro a ha b hb heq
        simp only [List.map_cons, List.map_nil, List.mem_singleton] at hb
        exact haccepted (hb ▸ heq ▸ ha)⟩
    · change a ∈ s.accepted ++ [_] at ha
      rcases List.mem_append.1 ha with ha | ha
      · exact h.proper a ha
      · rw [List.mem_singleton] at ha
        subst ha
        exact ⟨hcaptured, rfl, hresponse, hagent, hincarnation, current, hagents hok, hcurrent⟩
  · exact goto_inv h hcall (fun _ hx => hx) trivial

theorem stepPutBack_inv (h : s.Inv sha256) {i : Nat} {held : Captured} {err : ApprovalError}
    (hcall : s.calls[i]? = some (.putBack resolution held err)) (huntouched : i ∉ s.touched) :
    (s.stepPutBack i resolution held err).Inv sha256 := by
  obtain ⟨hcaptured, hrequest, haccepted, -, hnot⟩ := h.held i _ hcall resolution held rfl
  obtain ⟨-, hnewest⟩ := hnot huntouched
  have hupdate : ∀ requestId other,
      Function.update s.pending resolution.requestId (some held) requestId = some other →
        requestId = resolution.requestId ∧ other = held ∨ s.pending requestId = some other := by
    intro requestId other hother
    by_cases heq : requestId = resolution.requestId
    · subst heq
      rw [Function.update_self, Option.some.injEq] at hother
      exact Or.inl ⟨rfl, hother.symm⟩
    · rw [Function.update_of_ne heq] at hother
      exact Or.inr hother
  refine ⟨fun requestId other hother => ?_, forall_set (fun j call hji hj => ?_) ?_,
    apart_set h (h.apart_of_held hcall (by simp [ApprovalCall.held])),
    forall_set (fun j call _ hj => h.knows j call hj) trivial, h.once, h.proper⟩
  · rcases hupdate requestId other hother with ⟨rfl, rfl⟩ | hother
    · exact ⟨hcaptured, hrequest, hnewest, haccepted⟩
    · exact h.stored requestId other hother
  · intro resolution' held' hx
    obtain ⟨hcaptured', hrequest', haccepted', hpending, hnot⟩ :=
      h.held j call hj resolution' held' hx
    refine ⟨hcaptured', hrequest', haccepted', fun requestId other hother => ?_, fun hmem => ?_⟩
    · rcases hupdate requestId other hother with ⟨-, rfl⟩ | hother
      · exact h.apart i j _ call hcall hj (resolution, other) (resolution', held') rfl hx
          (Ne.symm hji)
      · exact hpending requestId other hother
    · obtain ⟨hid, hmem⟩ := ne_of_untouched (s := s) hji hj hx hmem
      obtain ⟨hnone, hnewest'⟩ := hnot hmem
      refine ⟨?_, hnewest'⟩
      show Function.update s.pending _ _ _ = none
      rw [Function.update_of_ne hid]
      exact hnone
  · intro resolution' held' hx
    simp [ApprovalCall.held] at hx

theorem begin_inv (h : s.Inv sha256) {call : ApprovalCall}
    (hheld : call.held = none) (hknows : Knows sha256 call) :
    { s with calls := s.calls ++ [call] }.Inv sha256 := by
  refine ⟨h.stored, forall_concat (fun j other hj => h.held j other hj) ?_, ?_,
    forall_concat (fun j other hj => h.knows j other hj) hknows, h.once, h.proper⟩
  · intro resolution held hx
    rw [hheld] at hx
    exact absurd hx (by simp)
  · have hold : ∀ (j : Nat) (a : ApprovalCall), (s.calls ++ [call])[j]? = some a →
        ∀ x, a.held = some x → s.calls[j]? = some a := by
      refine forall_concat (fun j a hj x hx => hj) fun x hx => ?_
      rw [hheld] at hx
      exact absurd hx (by simp)
    intro j k a b hj hk x y hx hy hne
    exact h.apart j k a b (hold j a hj x hx) (hold k b hk y hy) x y hx hy hne

theorem step_inv {s s' : Approvals} {e : Event} (h : s.Inv sha256) (hmeets : s.Meets e)
    (hstep : s.step sha256 e = some s') : s'.Inv sha256 := by
  cases e with
  | capture message now =>
    cases hstep
    exact begin_inv h rfl trivial
  | resolve resolution =>
    cases hstep
    exact begin_inv h rfl trivial
  | agents agents =>
    cases hstep
    exact ⟨h.stored, h.held, h.apart, h.knows, h.once, h.proper⟩
  | advance i ok =>
    obtain ⟨call, hcall, hadvance⟩ := Option.bind_eq_some_iff.1 hstep
    obtain ⟨hagents, huntouched⟩ := hmeets call hcall
    cases call with
    | find message now =>
      cases hadvance
      obtain ⟨hheld, hknows⟩ := stepFind_held s message now
      exact goto_inv h hcall (by simp [hheld]) hknows
    | insert approval =>
      cases hadvance
      exact stepInsert_inv h hcall
    | take resolution =>
      cases hadvance
      exact stepTake_inv h hcall
    | check resolution held =>
      cases hadvance
      exact stepCheck_inv h hcall
    | respond resolution held current response =>
      cases hadvance
      exact stepRespond_inv h hcall (hagents resolution held current response rfl)
    | putBack resolution held err =>
      cases hadvance
      exact stepPutBack_inv h hcall (huntouched resolution held err rfl)
    | elsewhere resolution =>
      cases hadvance
      split
      · exact goto_inv h hcall (by simp [ApprovalCall.held]) trivial
      · exact goto_inv h hcall (by simp [ApprovalCall.held]) trivial
    | captured request => exact absurd hadvance (by simp [advance])
    | resolved resolution => exact absurd hadvance (by simp [advance])
    | handled resolution => exact absurd hadvance (by simp [advance])
    | failed err => exact absurd hadvance (by simp [advance])

end Wakterm.Mux.Approvals
