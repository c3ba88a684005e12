import Wakterm.Mux.Logic.ApprovalCalls

/-!
# What a call that fails leaves behind

A run is compared with the run in which one call never goes on.
-/

namespace Wakterm.Mux.Approvals

open Wakterm.Agent Wakterm.Machine

variable {sha256 : List UInt8 → String}

/-- Is the event a step of the call? -/
def Event.isAdvance (i : Nat) : Event → Bool
  | .advance j _ => j = i
  | _ => false

/-- What is left of the events if the call never goes on. -/
def without (i : Nat) (es : List Event) : List Event := es.filter fun e => !e.isAdvance i

/-- A call that resolves, and was not answered by the app server. -/
def quiet : ApprovalCall → Bool
  | .find _ _ | .insert _ | .captured _ | .resolved _ => false
  | _ => true

def hands (s : Approvals) (i : Nat) : Option (AgentApprovalResolutionRequest × Captured) :=
  s.calls[i]?.bind ApprovalCall.held

/-- The map with what the call has in its hands. -/
def restored (s : Approvals) (i : Nat) : String → Option Captured :=
  (s.hands i).elim s.pending fun held =>
    Function.update s.pending held.1.requestId (some held.2)

/-- No other call was at what the call has, and it was not answered. -/
def Undisturbed (s : Approvals) (i : Nat) : Prop :=
  i ∉ s.touched ∧ ∀ call, s.calls[i]? = some call → quiet call = true

/-- The state `s'` of the run without the call. -/
structure Erased (i : Nat) (s s' : Approvals) : Prop where
  agents : s'.agents = s.agents
  captures : s'.captures = s.captures
  accepted : s'.accepted = s.accepted
  length : s'.calls.length = s.calls.length
  others : ∀ j, j ≠ i → s'.calls[j]? = s.calls[j]?
  pending : s'.pending = s.restored i

/-! ## What is known of the call -/

/-- A call that was touched has something in its hands, or was answered. -/
def TouchedHold (s : Approvals) : Prop :=
  ∀ i ∈ s.touched, ∃ call, s.calls[i]? = some call ∧
    ((∃ h, call.held = some h) ∨ ∃ resolution, call = .resolved resolution)

variable {s s' t : Approvals} {i j : Nat} {ok : Bool} {call call' : ApprovalCall}
  {requestId : String}

theorem advance_frame (h : s.advance sha256 i ok call = some s') :
    s'.agents = s.agents ∧ (∃ call', s'.calls = s.calls.set i call') ∧
      (s'.touched = s.touched ∨ ∃ requestId, s'.touched = s.holders i requestId ++ s.touched) := by
  cases call with
  | find message now =>
    cases h
    exact ⟨rfl, ⟨_, rfl⟩, Or.inl rfl⟩
  | insert approval =>
    cases h
    exact ⟨rfl, ⟨_, rfl⟩, Or.inr ⟨_, rfl⟩⟩
  | take resolution =>
    cases h
    unfold stepTake
    split
    · exact ⟨rfl, ⟨_, rfl⟩, Or.inr ⟨_, rfl⟩⟩
    · dsimp only
      split
      · exact ⟨rfl, ⟨_, rfl⟩, Or.inr ⟨_, rfl⟩⟩
      · exact ⟨rfl, ⟨_, rfl⟩, Or.inr ⟨_, rfl⟩⟩
  | check resolution held =>
    cases h
    exact ⟨rfl, ⟨_, rfl⟩, Or.inl rfl⟩
  | respond resolution held current response =>
    cases h
    unfold stepRespond
    split
    · exact ⟨rfl, ⟨_, rfl⟩, Or.inl rfl⟩
    · exact ⟨rfl, ⟨_, rfl⟩, Or.inl rfl⟩
  | putBack resolution held err =>
    cases h
    exact ⟨rfl, ⟨_, rfl⟩, Or.inr ⟨_, rfl⟩⟩
  | elsewhere resolution =>
    cases h
    exact ⟨rfl, ⟨_, rfl⟩, Or.inl rfl⟩
  | captured request => exact absurd h (by simp [advance])
  | resolved resolution => exact absurd h (by simp [advance])
  | handled resolution => exact absurd h (by simp [advance])
  | failed err => exact absurd h (by simp [advance])

theorem advance_held (h : s.advance sha256 i ok call = some s') (hcall : s.calls[i]? = some call)
    (hheld : call.held ≠ none) (hback : ∀ resolution held err, call ≠ .putBack resolution held err)
    : ∃ call', s'.calls[i]? = some call' ∧
      ((∃ h, call'.held = some h) ∨ ∃ resolution, call' = .resolved resolution) := by
  have hat : ∀ call', (s.calls.set i call')[i]? = some call' := fun _ => get_set_self hcall
  cases call with
  | check resolution held =>
    cases h
    refine ⟨_, hat _, Or.inl ⟨(resolution, held), ?_⟩⟩
    unfold stepCheck
    split
    · rfl
    · split
      · split
        · rfl
        · rfl
      · rfl
  | respond resolution held current response =>
    cases h
    unfold stepRespond
    split
    · exact ⟨_, hat _, Or.inr ⟨_, rfl⟩⟩
    · exact ⟨_, hat _, Or.inl ⟨_, rfl⟩⟩
  | putBack resolution held err => exact absurd rfl (hback resolution held err)
  | _ => exact absurd rfl hheld

theorem begin_touchedHold (h : s.TouchedHold) (call : ApprovalCall) :
    { s with calls := s.calls ++ [call] }.TouchedHold := by
  intro i hi
  obtain ⟨old, hold, hheld⟩ := h i hi
  refine ⟨old, ?_, hheld⟩
  show (s.calls ++ [call])[i]? = some old
  rw [List.getElem?_append_left (List.getElem?_eq_some_iff.1 hold).1]
  exact hold

theorem step_touchedHold {e : Event} (h : s.TouchedHold) (hmeets : s.Meets e)
    (hstep : s.step sha256 e = some s') : s'.TouchedHold := by
  cases e with
  | capture message now =>
    cases hstep
    exact begin_touchedHold h _
  | resolve resolution =>
    cases hstep
    exact begin_touchedHold h _
  | agents agents =>
    cases hstep
    exact h
  | advance i ok =>
    obtain ⟨call, hcall, hadvance⟩ := Option.bind_eq_some_iff.1 hstep
    obtain ⟨-, ⟨call', hcalls⟩, htouched⟩ := advance_frame hadvance
    have hother : ∀ (j : Nat) (other : ApprovalCall), j ≠ i → s.calls[j]? = some other →
        s'.calls[j]? = some other := by
      intro j other hne hj
      rw [hcalls, List.getElem?_set, if_neg (Ne.symm hne)]
      exact hj
    have hold : ∀ j ∈ s.touched, ∃ call, s'.calls[j]? = some call ∧
        ((∃ h, call.held = some h) ∨ ∃ resolution, call = .resolved resolution) := by
      intro j hj
      obtain ⟨other, hat, hheld⟩ := h j hj
      by_cases hji : j = i
      · subst hji
        cases hcall.symm.trans hat
        rcases hheld with ⟨x, hx⟩ | ⟨resolution, rfl⟩
        · refine advance_held hadvance hcall (by simp [hx]) fun resolution held err heq => ?_
          exact (hmeets call hcall).2 resolution held err heq hj
        · exact absurd hadvance (by simp [advance])
      · exact ⟨other, hother j other hji hat, hheld⟩
    intro j hj
    rcases htouched with heq | ⟨requestId, heq⟩
    · exact hold j (heq ▸ hj)
    · rw [heq, List.mem_append] at hj
      rcases hj with hj | hj
      · obtain ⟨hne, other, hat, hholds⟩ := mem_holders.1 hj
        obtain ⟨x, hx, -⟩ := (Option.any_eq_true _ _).1 hholds
        exact ⟨other, hother j other hne hat, Or.inl ⟨x, hx⟩⟩
      · exact hold j hj

theorem advance_quiet (h : s.advance sha256 i ok call = some s') (hcall : s.calls[i]? = some call)
    (hquiet : ∀ call', s'.calls[i]? = some call' → quiet call' = true) : quiet call = true := by
  have hat : ∀ call', (s.calls.set i call')[i]? = some call' := fun _ => get_set_self hcall
  cases call with
  | find message now =>
    cases h
    have hfind := hquiet _ (hat _)
    unfold stepFind at hfind
    dsimp only at hfind
    split at hfind
    · exact hfind
    · exact hfind
  | insert approval =>
    cases h
    exact absurd (hquiet _ (hat _)) (by simp [quiet])
  | captured request => exact absurd h (by simp [advance])
  | resolved resolution => exact absurd h (by simp [advance])
  | _ => rfl

theorem undisturbed_of_step {e : Event} (hstep : s.step sha256 e = some s') (h : s'.Undisturbed i) :
    s.Undisturbed i := by
  have hbegin : ∀ call : ApprovalCall, { s with calls := s.calls ++ [call] }.Undisturbed i →
      s.Undisturbed i := by
    rintro call ⟨htouched, hquiet⟩
    refine ⟨htouched, fun old hold => hquiet old ?_⟩
    show (s.calls ++ [call])[i]? = some old
    rw [List.getElem?_append_left (List.getElem?_eq_some_iff.1 hold).1]
    exact hold
  cases e with
  | capture message now =>
    cases hstep
    exact hbegin _ h
  | resolve resolution =>
    cases hstep
    exact hbegin _ h
  | agents agents =>
    cases hstep
    exact h
  | advance j ok =>
    obtain ⟨call, hcall, hadvance⟩ := Option.bind_eq_some_iff.1 hstep
    obtain ⟨-, ⟨call', hcalls⟩, htouched⟩ := advance_frame hadvance
    refine ⟨fun hmem => h.1 ?_, fun old hold => ?_⟩
    · rcases htouched with heq | ⟨requestId, heq⟩
      · exact heq ▸ hmem
      · rw [heq]
        exact List.mem_append_right _ hmem
    · by_cases hji : i = j
      · subst hji
        cases hcall.symm.trans hold
        exact advance_quiet hadvance hcall h.2
      · refine h.2 old ?_
        rw [hcalls, get_set_other hji]
        exact hold

/-! ## A step of the call itself -/

theorem hands_set (hcall : s.calls[i]? = some call) (hcalls : s'.calls = s.calls.set i call') :
    s'.hands i = call'.held := by
  unfold hands
  rw [hcalls, get_set_self hcall]
  rfl

theorem hands_eq (hcall : s.calls[i]? = some call) : s.hands i = call.held := by
  unfold hands
  rw [hcall]
  rfl

theorem restored_advance (h : s.advance sha256 i ok call = some s')
    (hcall : s.calls[i]? = some call)
    (hquiet : ∀ call', s'.calls[i]? = some call' → quiet call' = true) :
    s'.restored i = s.restored i ∧ s'.captures = s.captures ∧ s'.accepted = s.accepted := by
  have hat : ∀ call', (s.calls.set i call')[i]? = some call' := fun _ => get_set_self hcall
  have hrestored : ∀ {t : Approvals} {call' : ApprovalCall}, t.calls = s.calls.set i call' →
      t.pending = s.pending → call'.held = call.held → t.restored i = s.restored i := by
    intro t call' hcalls hpending hheld
    unfold restored
    rw [hands_set hcall hcalls, hands_eq hcall, hheld, hpending]
  have hfirst := advance_quiet h hcall hquiet
  cases call with
  | take resolution =>
    cases h
    unfold stepTake
    split
    · exact ⟨hrestored rfl rfl rfl, rfl, rfl⟩
    · next held hpending =>
      have htaken : ∀ call' : ApprovalCall, call'.held = some (resolution, held) →
          ({ s.touch i resolution.requestId with
            pending := Function.update s.pending resolution.requestId none }.goto i
            call').restored i = s.restored i := by
        intro call' hheld
        unfold restored
        rw [hands_set (s := s) hcall rfl, hheld, hands_eq hcall]
        show Function.update (Function.update s.pending _ none) _ (some held) = s.pending
        rw [Function.update_idem, ← hpending, Function.update_eq_self]
      dsimp only
      split
      · exact ⟨htaken _ rfl, rfl, rfl⟩
      · exact ⟨htaken _ rfl, rfl, rfl⟩
  | check resolution held =>
    cases h
    refine ⟨hrestored rfl rfl ?_, rfl, rfl⟩
    unfold stepCheck
    split
    · rfl
    · split
      · split
        · rfl
        · rfl
      · rfl
  | respond resolution held current response =>
    cases h
    unfold stepRespond at hquiet ⊢
    split at hquiet
    · exact absurd (hquiet _ (hat _)) (by simp [quiet])
    · next hok =>
      rw [if_neg hok]
      exact ⟨hrestored rfl rfl rfl, rfl, rfl⟩
  | putBack resolution held err =>
    cases h
    refine ⟨?_, rfl, rfl⟩
    unfold restored
    rw [hands_set (s := s) hcall rfl, hands_eq hcall]
    rfl
  | elsewhere resolution =>
    cases h
    refine ⟨hrestored rfl rfl ?_, rfl, rfl⟩
    split
    · rfl
    · rfl
  | handled resolution => exact absurd h (by simp [advance])
  | failed err => exact absurd h (by simp [advance])
  | _ => exact absurd hfirst (by simp [quiet])

theorem Erased.own (h : Erased i s t) (hstep : s.step sha256 (.advance i ok) = some s')
    (hundisturbed : s'.Undisturbed i) : Erased i s' t := by
  obtain ⟨call, hcall, hadvance⟩ := Option.bind_eq_some_iff.1 hstep
  obtain ⟨hagents, ⟨call', hcalls⟩, -⟩ := advance_frame hadvance
  obtain ⟨hrestored, hcaptures, haccepted⟩ := restored_advance hadvance hcall hundisturbed.2
  refine ⟨h.agents.trans hagents.symm, h.captures.trans hcaptures.symm,
    h.accepted.trans haccepted.symm, ?_, fun j hne => ?_, h.pending.trans hrestored.symm⟩
  · rw [hcalls, List.length_set]
    exact h.length
  · rw [hcalls, List.getElem?_set, if_neg (Ne.symm hne)]
    exact h.others j hne

/-! ## A step of another call -/

/-- What a call has is of another id than the one that another call is at. -/
def Elsewhere (s : Approvals) (i : Nat) (requestId : String) : Prop :=
  ∀ held, s.hands i = some held → held.1.requestId ≠ requestId

theorem elsewhere_of_untouched (hne : i ≠ j) (h : i ∉ s.holders j requestId ++ s.touched) :
    s.Elsewhere i requestId := by
  intro held hheld
  obtain ⟨call, hcall, hx⟩ := Option.bind_eq_some_iff.1 hheld
  exact (ne_of_untouched hne hcall hx h).1

theorem restored_of_elsewhere (h : s.Elsewhere i requestId) :
    s.restored i requestId = s.pending requestId := by
  unfold restored
  cases hheld : s.hands i with
  | none => rfl
  | some held => exact Function.update_of_ne (Ne.symm (h held hheld)) _ _

theorem restored_update {value : Option Captured} (h : s.Elsewhere i requestId)
    (hhands : s'.hands i = s.hands i)
    (hpending : s'.pending = Function.update s.pending requestId value) :
    s'.restored i = Function.update (s.restored i) requestId value := by
  unfold restored
  rw [hhands, hpending]
  cases hheld : s.hands i with
  | none => rfl
  | some held => exact Function.update_comm (h held hheld).symm _ _ _

theorem hands_others (hne : i ≠ j) (hcalls : s'.calls = s.calls.set j call') :
    s'.hands i = s.hands i := by
  unfold hands
  rw [hcalls, List.getElem?_set, if_neg (Ne.symm hne)]

theorem Erased.both {t' : Approvals} (h : Erased i s t) (hagents : s'.agents = s.agents)
    (hagents' : t'.agents = t.agents)
    (hcaptures : t.captures = s.captures → t'.captures = s'.captures)
    (haccepted : t.accepted = s.accepted → t'.accepted = s'.accepted)
    (hcalls : s'.calls = s.calls.set j call') (hcalls' : t'.calls = t.calls.set j call')
    (hpending : t'.pending = s'.restored i) : Erased i s' t' := by
  refine ⟨?_, hcaptures h.captures, haccepted h.accepted, ?_, fun k hne => ?_, hpending⟩
  · rw [hagents', hagents, h.agents]
  · rw [hcalls, hcalls', List.length_set, List.length_set, h.length]
  · rw [hcalls, hcalls', List.getElem?_set, List.getElem?_set, h.others k hne, h.length]

theorem Erased.advance (h : Erased i s t) (hne : i ≠ j)
    (hadvance : s.advance sha256 j ok call = some s') (hundisturbed : s'.Undisturbed i) :
    ∃ t', t.advance sha256 j ok call = some t' ∧ Erased i s' t' := by
  have hsame : ∀ {u : Approvals} {call' : ApprovalCall}, u.calls = s.calls.set j call' →
      u.pending = s.pending → t.pending = u.restored i := by
    intro u call' hcalls hpending
    rw [h.pending]
    unfold restored
    rw [hands_others hne hcalls, hpending]
  cases call with
  | find message now =>
    cases hadvance
    have hfind : t.stepFind sha256 message now = s.stepFind sha256 message now := by
      unfold stepFind
      rw [h.agents]
    refine ⟨_, rfl, h.both rfl rfl (fun heq => heq) (fun heq => heq) rfl ?_ (hsame rfl rfl)⟩
    rw [← hfind]
    rfl
  | insert approval =>
    cases hadvance
    have helse : s.Elsewhere i approval.request.requestId :=
      elsewhere_of_untouched hne hundisturbed.1
    refine ⟨_, rfl, h.both rfl rfl (fun heq => ?_) (fun heq => heq) rfl rfl ?_⟩
    · show t.captures ++ [approval] = s.captures ++ [approval]
      rw [heq]
    · rw [restored_update helse (hands_others hne rfl) rfl, ← h.pending]
      show Function.update t.pending _ (some ⟨t.captures.length, approval⟩) = _
      rw [h.captures]
      rfl
  | take resolution =>
    cases hadvance
    have helse : s.Elsewhere i resolution.requestId := by
      refine elsewhere_of_untouched hne fun hmem => hundisturbed.1 ?_
      unfold stepTake
      split
      · exact hmem
      · dsimp only
        split
        · exact hmem
        · exact hmem
    have hpending : t.pending resolution.requestId = s.pending resolution.requestId := by
      rw [h.pending, restored_of_elsewhere helse]
    refine ⟨_, rfl, ?_⟩
    unfold stepTake
    rw [hpending]
    split
    · exact h.both rfl rfl (fun heq => heq) (fun heq => heq) rfl rfl (hsame rfl rfl)
    · next held hheld =>
      have htaken : ∀ call' : ApprovalCall,
          Function.update t.pending resolution.requestId none =
            ({ s.touch j resolution.requestId with
              pending := Function.update s.pending resolution.requestId none }.goto j
              call').restored i := by
        intro call'
        rw [restored_update (s := s) helse (hands_others hne rfl) rfl, ← h.pending]
      dsimp only
      split
      · exact h.both rfl rfl (fun heq => heq) (fun heq => heq) rfl rfl (htaken _)
      · exact h.both rfl rfl (fun heq => heq) (fun heq => heq) rfl rfl (htaken _)
  | check resolution held =>
    cases hadvance
    have hcheck : t.stepCheck sha256 resolution held = s.stepCheck sha256 resolution held := by
      unfold stepCheck
      rw [h.agents]
    refine ⟨_, rfl, h.both rfl rfl (fun heq => heq) (fun heq => heq) rfl ?_ (hsame rfl rfl)⟩
    rw [← hcheck]
    rfl
  | respond resolution held current response =>
    cases hadvance
    refine ⟨_, rfl, ?_⟩
    unfold stepRespond
    split
    · refine h.both rfl rfl (fun heq => heq) (fun heq => ?_) rfl rfl (hsame rfl rfl)
      show t.accepted ++ [_] = s.accepted ++ [_]
      rw [heq, h.agents]
    · exact h.both rfl rfl (fun heq => heq) (fun heq => heq) rfl rfl (hsame rfl rfl)
  | putBack resolution held err =>
    cases hadvance
    have helse : s.Elsewhere i resolution.requestId := elsewhere_of_untouched hne hundisturbed.1
    refine ⟨_, rfl, h.both rfl rfl (fun heq => heq) (fun heq => heq) rfl rfl ?_⟩
    rw [restored_update helse (hands_others hne rfl) rfl, ← h.pending]
    rfl
  | elsewhere resolution =>
    cases hadvance
    exact ⟨_, rfl, h.both rfl rfl (fun heq => heq) (fun heq => heq) rfl rfl (hsame rfl rfl)⟩
  | captured request => exact absurd hadvance (by simp [Approvals.advance])
  | resolved resolution => exact absurd hadvance (by simp [Approvals.advance])
  | handled resolution => exact absurd hadvance (by simp [Approvals.advance])
  | failed err => exact absurd hadvance (by simp [Approvals.advance])

theorem Erased.begin (h : Erased i s t) (hheld : call.held = none) :
    Erased i { s with calls := s.calls ++ [call] } { t with calls := t.calls ++ [call] } := by
  refine ⟨h.agents, h.captures, h.accepted, ?_, fun j hne => ?_, ?_⟩
  · simp [h.length]
  · show (t.calls ++ [call])[j]? = (s.calls ++ [call])[j]?
    rw [List.getElem?_append, List.getElem?_append, h.length, h.others j hne]
  · show t.pending = _
    rw [h.pending]
    have hhands : ({ s with calls := s.calls ++ [call] } : Approvals).hands i = s.hands i := by
      unfold hands
      rw [List.getElem?_append]
      split
      · rfl
      · next hlen =>
        rw [List.getElem?_singleton, List.getElem?_eq_none (Nat.le_of_not_lt hlen)]
        split
        · exact hheld
        · rfl
    unfold restored
    rw [hhands]

/-! ## The whole run -/

theorem without_concat (i : Nat) (es : List Event) (e : Event) :
    without i (es ++ [e]) = if e.isAdvance i then without i es else without i es ++ [e] := by
  unfold without
  rw [List.filter_append]
  cases h : e.isAdvance i with
  | true => simp [h]
  | false => simp [h]

theorem erased_run {agents : List AgentMetadata} {es : List Event}
    (h : Runs (step sha256) Meets (start agents) es s) (hundisturbed : s.Undisturbed i) :
    ∃ t, runSteps (step sha256) (start agents) (without i es) = some t ∧ Erased i s t := by
  induction h with
  | nil => exact ⟨start agents, rfl, rfl, rfl, rfl, rfl, fun _ _ => rfl, rfl⟩
  | @snoc es s s' e _ _ hstep ih =>
    obtain ⟨t, hrun, herased⟩ := ih (undisturbed_of_step hstep hundisturbed)
    rw [without_concat]
    cases hown : e.isAdvance i with
    | true =>
      refine ⟨t, hrun, ?_⟩
      cases e with
      | advance j ok =>
        obtain rfl : j = i := of_decide_eq_true hown
        exact herased.own hstep hundisturbed
      | _ => exact absurd hown (by simp [Event.isAdvance])
    | false =>
      have hboth : ∃ t', t.step sha256 e = some t' ∧ Erased i s' t' := by
        cases e with
        | capture message now =>
          cases hstep
          exact ⟨_, rfl, herased.begin rfl⟩
        | resolve resolution =>
          cases hstep
          exact ⟨_, rfl, herased.begin rfl⟩
        | agents agents =>
          cases hstep
          exact ⟨_, rfl, rfl, herased.captures, herased.accepted, herased.length,
            herased.others, herased.pending⟩
        | advance j ok =>
          have hne : i ≠ j := fun heq => by simp [Event.isAdvance, heq] at hown
          obtain ⟨call, hcall, hadvance⟩ := Option.bind_eq_some_iff.1 hstep
          obtain ⟨t', hadvance', herased'⟩ := herased.advance hne hadvance hundisturbed
          refine ⟨t', ?_, herased'⟩
          show t.calls[j]?.bind _ = _
          rw [herased.others j (Ne.symm hne), hcall]
          exact hadvance'
      obtain ⟨t', hstep', herased'⟩ := hboth
      refine ⟨t', ?_, herased'⟩
      simp only [Bool.false_eq_true, if_false]
      rw [runSteps_concat, hrun]
      exact hstep'

theorem failed_undisturbed (h : s.TouchedHold) {err : ApprovalError}
    (hcall : s.calls[i]? = some (.failed err)) : s.Undisturbed i ∧ s.restored i = s.pending := by
  refine ⟨⟨fun hmem => ?_, fun call hat => ?_⟩, ?_⟩
  · obtain ⟨call, hat, hheld⟩ := h i hmem
    cases hcall.symm.trans hat
    rcases hheld with ⟨x, hx⟩ | ⟨resolution, hx⟩
    · simp [ApprovalCall.held] at hx
    · simp at hx
  · cases hcall.symm.trans hat
    rfl
  · unfold restored
    rw [hands_eq hcall]
    rfl

end Wakterm.Mux.Approvals
