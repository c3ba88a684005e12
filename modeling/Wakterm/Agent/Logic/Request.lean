import Mathlib.Logic.Basic
import Wakterm.Agent.Request

/-!
# What a request's final answer rests on

The operations on a request, runs of them, and the events that a run really looked at (`processed`).
-/

namespace Wakterm.Agent

/-- The operations that a request sees between its registration and its end. -/
inductive RequestOp where
  | markSubmitted (now : DateTime)
  | reconcile (metadata : Option AgentMetadata) (runtime : Option AgentRuntimeSnapshot)
      (now : DateTime)
  | reconcileEventPage (page : AgentEventPage) (now : DateTime)

def RequestOp.Reconciles : RequestOp → Prop
  | .markSubmitted _ => False
  | .reconcile _ _ _ => True
  | .reconcileEventPage _ _ => True

namespace AgentRequest

/-- Run an operation. -/
def apply (r : AgentRequest) : RequestOp → AgentRequest
  | .markSubmitted now => r.markSubmitted now
  | .reconcile metadata runtime now => r.reconcile metadata runtime now
  | .reconcileEventPage page now => r.reconcileEventPage page now

/-- Run operations in order. -/
def run (r : AgentRequest) : List RequestOp → AgentRequest
  | [] => r
  | op :: ops => (r.apply op).run ops

/-- The events that the loop over a page looks at. -/
def processedEvents (r : AgentRequest) (now : DateTime) : List AgentEvent → List AgentEvent
  | [] => []
  | event :: events =>
    event :: match r.reconcileEvent event now with
      | .next r => r.processedEvents now events
      | .stop _ => []

/-- Does `reconcile_event_page` get to the loop over the page's events? -/
def Reads (r : AgentRequest) (page : AgentEventPage) : Prop :=
  ¬ (r.state.isTerminal ∨ r.state = .registered ∨ ¬ r.correlatesFromEvents) ∧
    page.status ≠ .cursorTooOld

instance (r : AgentRequest) (page : AgentEventPage) : Decidable (r.Reads page) :=
  inferInstanceAs (Decidable (_ ∧ _))

/-- The events that an operation looks at. -/
def processedBy (r : AgentRequest) : RequestOp → List AgentEvent
  | .reconcileEventPage page now =>
    if r.Reads page then r.processedEvents now page.events else []
  | _ => []

/-- The events that a run looks at, in order. -/
def processed (r : AgentRequest) : List RequestOp → List AgentEvent
  | [] => []
  | op :: ops => r.processedBy op ++ (r.apply op).processed ops

theorem run_append (r : AgentRequest) (ops more : List RequestOp) :
    r.run (ops ++ more) = (r.run ops).run more := by
  induction ops generalizing r with
  | nil => rfl
  | cons op ops ih => exact ih (r.apply op)

/-! ## The reconcilers leave settled and registered requests alone -/

/-- The reconcilers do nothing to it. -/
def Left (r : AgentRequest) : Prop :=
  r.state.isTerminal = true ∨ r.state = .registered

variable {r r' : AgentRequest} {e : AgentEvent} {t : String} {now : DateTime}
  {log : List AgentEvent}

theorem apply_of_left (h : r.Left) {op : RequestOp} (hop : op.Reconciles) : r.apply op = r := by
  cases op with
  | markSubmitted now => exact hop.elim
  | reconcile metadata runtime now =>
    show r.reconcile metadata runtime now = r
    unfold reconcile
    rcases h with h | h
    · rw [if_pos h]
    · rw [if_neg (by rw [h]; decide), if_pos h]
  | reconcileEventPage page now =>
    show r.reconcileEventPage page now = r
    unfold reconcileEventPage
    rw [if_pos]
    rcases h with h | h
    · exact .inl h
    · exact .inr (.inl h)

theorem run_of_left (h : r.Left) {ops : List RequestOp} (hops : ∀ op ∈ ops, op.Reconciles) :
    r.run ops = r := by
  induction ops with
  | nil => rfl
  | cons op ops ih =>
    show (r.apply op).run ops = r
    rw [apply_of_left h (hops op List.mem_cons_self)]
    exact ih fun o ho => hops o (List.mem_cons_of_mem _ ho)

/-! ## What an event can do -/

/-- The fields that no operation changes. -/
structure SameTarget (r r' : AgentRequest) : Prop where
  agent : r'.targetAgentId = r.targetAgentId
  incarnation : r'.targetIncarnationId = r.targetIncarnationId
  baseline : r'.baselineProviderTurnId = r.baselineProviderTurnId
  correlation : r'.correlation = r.correlation
  prompt : r'.promptSha256 = r.promptSha256

theorem SameTarget.refl (r : AgentRequest) : SameTarget r r := ⟨rfl, rfl, rfl, rfl, rfl⟩

/-- The event started `turn` for this request. -/
structure StartedBy (r : AgentRequest) (turn : String) (e : AgentEvent) : Prop where
  kind : e.kind = .turnStarted
  agent : e.agentId = r.targetAgentId
  incarnation : e.incarnationId = r.targetIncarnationId
  turnId : e.turnId = some turn
  input : r.correlation = .providerEvents → e.inputSha256 = some r.promptSha256

/-- The event ended `turn` with the answer `message`. -/
structure FinalOf (r : AgentRequest) (turn message : String) (e : AgentEvent) : Prop where
  kind : e.kind = .turnFinal
  agent : e.agentId = r.targetAgentId
  incarnation : e.incarnationId = r.targetIncarnationId
  turnId : e.turnId = some turn
  outcome : e.outcome = some "completed"
  text : e.text = some message

theorem StartedBy.transport {turn : String} (h : StartedBy r turn e) (hs : SameTarget r r') :
    StartedBy r' turn e where
  kind := h.kind
  agent := h.agent.trans hs.agent.symm
  incarnation := h.incarnation.trans hs.incarnation.symm
  turnId := h.turnId
  input hc := by
    rw [hs.prompt]
    exact h.input (hs.correlation ▸ hc)

theorem turnStarted_next (h : r.turnStarted e t now = .next r') :
    r' = r ∨
      (r' = { r with providerTurnId := some t, state := .bound, updatedAt := now } ∧
        (r.correlation = .providerEvents → e.inputSha256 = some r.promptSha256)) := by
  unfold turnStarted at h
  cases hb : r.providerTurnId with
  | some bound =>
    simp only [hb] at h
    split at h
    · cases h
    · cases h
      exact .inl rfl
  | none =>
    simp only [hb] at h
    by_cases hc : r.correlation = .providerEvents
    · rw [if_pos hc] at h
      cases hi : e.inputSha256 with
      | none =>
        simp only [hi] at h
        cases h
      | some hash =>
        simp only [hi] at h
        by_cases hh : hash = r.promptSha256
        · rw [if_pos hh] at h
          cases h
          exact .inr ⟨rfl, fun _ => by rw [hh]⟩
        · rw [if_neg hh] at h
          cases h
    · rw [if_neg hc] at h
      cases h
      exact .inr ⟨rfl, fun hc' => absurd hc' hc⟩

theorem turnStarted_stop (h : r.turnStarted e t now = .stop r') :
    ∃ detail, r' = r.finish .indeterminate now detail := by
  unfold turnStarted at h
  repeat' split at h
  all_goals first | cases h; exact ⟨_, rfl⟩ | cases h

theorem turnFinal_next (h : r.turnFinal e t now = .next r') : r' = r := by
  unfold turnFinal at h
  repeat' split at h
  all_goals first | cases h; rfl | cases h

theorem turnFinal_stop (h : r.turnFinal e t now = .stop r') :
    (∃ state at_ detail, state ≠ .completed ∧ r' = r.finish state at_ detail) ∨
      ∃ message, r.providerTurnId = some t ∧ e.outcome = some "completed" ∧
        e.text = some message ∧
        r' = { r with
          state := .completed, completedAt := some e.observedAt,
          finalMessage := some message, detail := none, updatedAt := now } := by
  unfold turnFinal at h
  cases hb : r.providerTurnId with
  | none =>
    simp only [hb] at h
    split at h
    · cases h
    · cases h
      exact .inl ⟨_, _, _, by decide, rfl⟩
  | some bound =>
    simp only [hb] at h
    by_cases ht : t = bound
    · rw [if_neg (not_not.mpr ht)] at h
      by_cases ho : e.outcome = some "completed"
      · rw [if_pos ho] at h
        cases hm : e.text with
        | none =>
          simp only [hm] at h
          cases h
          exact .inl ⟨_, _, _, by decide, rfl⟩
        | some message =>
          simp only [hm] at h
          cases h
          exact .inr ⟨message, by rw [ht], ho, rfl, rfl⟩
      · rw [if_neg ho] at h
        cases h
        exact .inl ⟨_, _, _, by decide, rfl⟩
    · rw [if_pos ht] at h
      cases h
      exact .inl ⟨_, _, _, by decide, rfl⟩

theorem reconcileEvent_next (h : r.reconcileEvent e now = .next r') : SameTarget r r' ∧
      ((r'.providerTurnId = r.providerTurnId ∧ r'.state = r.state) ∨
        ∃ t, t ≠ r.baselineProviderTurnId ∧ StartedBy r t e ∧ r'.providerTurnId = some t ∧
          r'.state = .bound) := by
  unfold reconcileEvent at h
  simp only at h
  split at h
  · cases h
    exact ⟨⟨rfl, rfl, rfl, rfl, rfl⟩, .inl ⟨rfl, rfl⟩⟩
  rename_i hmine
  obtain ⟨hagent, hinc⟩ := not_or.mp hmine
  cases ht : e.turnId with
  | none =>
    simp only [ht] at h
    cases h
    exact ⟨⟨rfl, rfl, rfl, rfl, rfl⟩, .inl ⟨rfl, rfl⟩⟩
  | some t =>
    simp only [ht] at h
    split at h
    · cases h
      exact ⟨⟨rfl, rfl, rfl, rfl, rfl⟩, .inl ⟨rfl, rfl⟩⟩
    rename_i hbase
    cases hk : e.kind <;> simp only [hk] at h
    case turnStarted =>
        rcases turnStarted_next h with rfl | ⟨rfl, hin⟩
        · exact ⟨⟨rfl, rfl, rfl, rfl, rfl⟩, .inl ⟨rfl, rfl⟩⟩
        · exact ⟨⟨rfl, rfl, rfl, rfl, rfl⟩,
            .inr ⟨t, hbase, ⟨hk, not_not.mp hagent, not_not.mp hinc, ht, hin⟩, rfl, rfl⟩⟩
    case turnFinal =>
        rw [turnFinal_next h]
        exact ⟨⟨rfl, rfl, rfl, rfl, rfl⟩, .inl ⟨rfl, rfl⟩⟩
    all_goals
        cases h
        exact ⟨⟨rfl, rfl, rfl, rfl, rfl⟩, .inl ⟨rfl, rfl⟩⟩

theorem reconcileEvent_stop (h : r.reconcileEvent e now = .stop r') :
    SameTarget r r' ∧ r'.providerTurnId = r.providerTurnId ∧ (r'.state ≠ .completed ∨
        ∃ t message, r.providerTurnId = some t ∧ FinalOf r t message e ∧
          r'.finalMessage = some message) := by
  unfold reconcileEvent at h
  simp only at h
  split at h
  · cases h
  rename_i hmine
  obtain ⟨hagent, hinc⟩ := not_or.mp hmine
  cases ht : e.turnId with
  | none =>
    simp only [ht] at h
    cases h
  | some t =>
    simp only [ht] at h
    split at h
    · cases h
    cases hk : e.kind <;> simp only [hk] at h
    case turnStarted =>
        obtain ⟨detail, rfl⟩ := turnStarted_stop h
        exact ⟨⟨rfl, rfl, rfl, rfl, rfl⟩, rfl, .inl (fun hc => nomatch hc)⟩
    case turnFinal =>
        rcases turnFinal_stop h with ⟨state, at_, detail, hs, rfl⟩ | ⟨message, hb, ho, hm, rfl⟩
        · exact ⟨⟨rfl, rfl, rfl, rfl, rfl⟩, rfl, .inl hs⟩
        · exact ⟨⟨rfl, rfl, rfl, rfl, rfl⟩, rfl,
            .inr ⟨t, message, hb, ⟨hk, not_not.mp hagent, not_not.mp hinc, ht, ho, hm⟩, rfl⟩⟩
    all_goals cases h

/-! ## The invariant -/

/-- What a completed request rests on: the last event looked at was the final of the bound turn,
and an event before it had started that turn for this request. -/
def Answered (r : AgentRequest) (log : List AgentEvent) : Prop :=
  ∃ turn message before final, log = before ++ [final] ∧
    r.providerTurnId = some turn ∧ turn ≠ r.baselineProviderTurnId ∧
    r.finalMessage = some message ∧ FinalOf r turn message final ∧
    ∃ start ∈ before, StartedBy r turn start

/-- `log` are the events looked at so far. -/
structure Correlated (r : AgentRequest) (log : List AgentEvent) : Prop where
  bound : ∀ turn, r.providerTurnId = some turn →
    turn ≠ r.baselineProviderTurnId ∧ ∃ start ∈ log, StartedBy r turn start
  completed : r.state = .completed → r.Answered log

theorem Correlated.settle (h : Correlated r log) (r' : AgentRequest) (hs : SameTarget r r')
    (hp : r'.providerTurnId = r.providerTurnId) (hstate : r'.state ≠ .completed)
    (more : List AgentEvent) : Correlated r' (log ++ more) where
  bound turn hturn := by
    obtain ⟨hbase, start, hmem, hst⟩ := h.bound turn (hp ▸ hturn)
    refine ⟨?_, start, List.mem_append_left _ hmem, hst.transport hs⟩
    rw [hs.baseline]
    exact hbase
  completed hc := absurd hc hstate

theorem Correlated.finish (h : Correlated r log) {state : AgentRequestState}
    (hstate : state ≠ .completed) (now : DateTime) (detail : String) :
    Correlated (r.finish state now detail) log := by
  have hsettled : Correlated (r.finish state now detail) (log ++ []) :=
    h.settle (r.finish state now detail) ⟨rfl, rfl, rfl, rfl, rfl⟩ rfl hstate []
  rwa [List.append_nil] at hsettled

theorem Correlated.next {r r' : AgentRequest} {log : List AgentEvent} {e : AgentEvent}
    {now : DateTime} (h : Correlated r log) (hopen : r.state ≠ .completed)
    (he : r.reconcileEvent e now = .next r') :
    Correlated r' (log ++ [e]) ∧ r'.state ≠ .completed := by
  obtain ⟨hs, ⟨hp, hstate⟩ | ⟨t, hbase, hst, hp, hstate⟩⟩ := reconcileEvent_next he
  · have hopen' : r'.state ≠ .completed := hstate ▸ hopen
    exact ⟨h.settle r' hs hp hopen' [e], hopen'⟩
  · have hopen' : r'.state ≠ .completed := by
      rw [hstate]
      decide
    refine ⟨⟨?_, fun hc => absurd hc hopen'⟩, hopen'⟩
    intro turn hturn
    rw [hp] at hturn
    cases hturn
    refine ⟨?_, e, List.mem_append_right _ List.mem_cons_self, hst.transport hs⟩
    rw [hs.baseline]
    exact hbase

theorem Correlated.stop (h : Correlated r log) (he : r.reconcileEvent e now = .stop r') :
    Correlated r' (log ++ [e]) := by
  obtain ⟨hs, hp, hstate | ⟨t, message, hb, hf, hm⟩⟩ := reconcileEvent_stop he
  · exact h.settle r' hs hp hstate [e]
  obtain ⟨hbase, start, hmem, hst⟩ := h.bound t hb
  have hbase' : t ≠ r'.baselineProviderTurnId := by
    rw [hs.baseline]
    exact hbase
  constructor
  · intro turn hturn
    rw [hp, hb] at hturn
    cases hturn
    exact ⟨hbase', start, List.mem_append_left _ hmem, hst.transport hs⟩
  · intro _
    exact ⟨t, message, log, e, rfl, hp.trans hb, hbase', hm,
      ⟨hf.kind, hf.agent.trans hs.agent.symm, hf.incarnation.trans hs.incarnation.symm,
        hf.turnId, hf.outcome, hf.text⟩,
      start, hmem, hst.transport hs⟩

/-- The whole loop, by induction on the events of the page. -/
theorem Correlated.events {r : AgentRequest} {log : List AgentEvent} {now : DateTime}
    {events : List AgentEvent} (h : Correlated r log) (hopen : r.state ≠ .completed) :
    Correlated (r.reconcileEvents now events).1 (log ++ r.processedEvents now events) ∧
      ((r.reconcileEvents now events).2 = true →
        (r.reconcileEvents now events).1.state ≠ .completed) := by
  induction events generalizing r log with
  | nil =>
    refine ⟨?_, fun _ => hopen⟩
    show Correlated r (log ++ [])
    rwa [List.append_nil]
  | cons e events ih =>
    cases he : r.reconcileEvent e now with
    | next r' =>
      obtain ⟨h', hopen'⟩ := h.next hopen he
      have hrest := ih h' hopen'
      rw [List.append_assoc] at hrest
      simp only [reconcileEvents, processedEvents, he]
      exact hrest
    | stop r' =>
      simp only [reconcileEvents, processedEvents, he]
      exact ⟨h.stop he, fun hc => nomatch hc⟩

/-! ## Operations and runs -/

theorem reconcile_cases (r : AgentRequest) (metadata : Option AgentMetadata)
    (runtime : Option AgentRuntimeSnapshot) (now : DateTime) :
    r.reconcile metadata runtime now = r ∨ ∃ state detail, state ≠ .completed ∧
        r.reconcile metadata runtime now = r.finish state now detail := by
  unfold reconcile
  repeat' split
  all_goals first
    | exact .inl rfl
    | exact .inr ⟨_, _, by decide, rfl⟩

theorem correlated_page (h : Correlated r log) (page : AgentEventPage) (now : DateTime) :
    Correlated (r.reconcileEventPage page now)
      (log ++ r.processedBy (.reconcileEventPage page now)) := by
  unfold reconcileEventPage
  show Correlated _ (log ++ if r.Reads page then r.processedEvents now page.events else [])
  by_cases hskip : r.state.isTerminal ∨ r.state = .registered ∨ ¬ r.correlatesFromEvents
  · rw [if_pos hskip, if_neg (fun hr : r.Reads page => hr.1 hskip), List.append_nil]
    exact h
  rw [if_neg hskip]
  by_cases hold : page.status = .cursorTooOld
  · rw [if_pos hold, if_neg (fun hr : r.Reads page => hr.2 hold), List.append_nil]
    exact h.finish (by decide) now _
  rw [if_neg hold, if_pos ⟨hskip, hold⟩]
  have hopen : r.state ≠ .completed := by
    intro hc
    apply hskip
    rw [hc]
    exact .inl rfl
  obtain ⟨hloop, hend⟩ := @Correlated.events r log now page.events h hopen
  cases hres : r.reconcileEvents now page.events with
  | mk r' finished =>
    rw [hres] at hloop hend
    cases finished with
    | false => exact hloop
    | true =>
      have hsame := hloop.settle
        { r' with
          reconciledEventSequence := max r'.reconciledEventSequence
            (page.nextAfterSequence.getD page.latestSequence) }
        ⟨rfl, rfl, rfl, rfl, rfl⟩ rfl (hend rfl) []
      rwa [List.append_nil] at hsame

/-- **Every operation keeps the invariant.** -/
theorem correlated_apply (h : Correlated r log) (op : RequestOp) :
    Correlated (r.apply op) (log ++ r.processedBy op) := by
  cases op with
  | markSubmitted now =>
    exact h.settle (r.markSubmitted now) ⟨rfl, rfl, rfl, rfl, rfl⟩ rfl (fun hc => nomatch hc) []
  | reconcile metadata runtime now =>
    show Correlated (r.reconcile metadata runtime now) (log ++ [])
    rw [List.append_nil]
    rcases reconcile_cases r metadata runtime now with he | ⟨state, detail, hs, he⟩
    · rw [he]
      exact h
    · rw [he]
      exact h.finish hs now detail
  | reconcileEventPage page now => exact correlated_page h page now

/-- **So does every run.** -/
theorem correlated_run (h : Correlated r log) (ops : List RequestOp) :
    Correlated (r.run ops) (log ++ r.processed ops) := by
  induction ops generalizing r log with
  | nil =>
    show Correlated r (log ++ [])
    rwa [List.append_nil]
  | cons op ops ih =>
    have hrest := ih (correlated_apply h op)
    rw [List.append_assoc] at hrest
    exact hrest

/-! ## The target stays -/

theorem SameTarget.trans {r₁ r₂ r₃ : AgentRequest} (h : SameTarget r₁ r₂) (h' : SameTarget r₂ r₃) :
    SameTarget r₁ r₃ where
  agent := h'.agent.trans h.agent
  incarnation := h'.incarnation.trans h.incarnation
  baseline := h'.baseline.trans h.baseline
  correlation := h'.correlation.trans h.correlation
  prompt := h'.prompt.trans h.prompt

theorem sameTarget_events (r : AgentRequest) (now : DateTime) (events : List AgentEvent) :
    SameTarget r (r.reconcileEvents now events).1 := by
  induction events generalizing r with
  | nil => exact SameTarget.refl r
  | cons e events ih =>
    cases he : r.reconcileEvent e now with
    | next r' =>
      simp only [reconcileEvents, he]
      exact (reconcileEvent_next he).1.trans (ih r')
    | stop r' =>
      simp only [reconcileEvents, he]
      exact (reconcileEvent_stop he).1

theorem sameTarget_apply (r : AgentRequest) (op : RequestOp) : SameTarget r (r.apply op) := by
  cases op with
  | markSubmitted now => exact ⟨rfl, rfl, rfl, rfl, rfl⟩
  | reconcile metadata runtime now =>
    show SameTarget r (r.reconcile metadata runtime now)
    rcases reconcile_cases r metadata runtime now with he | ⟨state, detail, -, he⟩
    · rw [he]
      exact SameTarget.refl r
    · rw [he]
      exact ⟨rfl, rfl, rfl, rfl, rfl⟩
  | reconcileEventPage page now =>
    show SameTarget r (r.reconcileEventPage page now)
    unfold reconcileEventPage
    split
    · exact SameTarget.refl r
    split
    · exact ⟨rfl, rfl, rfl, rfl, rfl⟩
    have hloop := sameTarget_events r now page.events
    split
    · rename_i r' hres
      rw [hres] at hloop
      exact hloop
    · rename_i r' hres
      rw [hres] at hloop
      exact hloop.trans ⟨rfl, rfl, rfl, rfl, rfl⟩

theorem sameTarget_run (r : AgentRequest) (ops : List RequestOp) : SameTarget r (r.run ops) := by
  induction ops generalizing r with
  | nil => exact SameTarget.refl r
  | cons op ops ih => exact (sameTarget_apply r op).trans (ih (r.apply op))

end AgentRequest

/-!
## Pages of one event list

A list of events can come as one page or as several.
-/

/-- Where a reader stands that was at `after` and has read the events. -/
def cursorAfter (after : Nat) (events : List AgentEvent) : Nat :=
  (events.getLast?.map AgentEvent.sequence).getD after

theorem cursorAfter_append (after : Nat) (xs ys : List AgentEvent) :
    cursorAfter after (xs ++ ys) = cursorAfter (cursorAfter after xs) ys := by
  unfold cursorAfter
  rw [List.getLast?_append]
  cases ys.getLast? with
  | none => rfl
  | some last => rfl

/-- The events are in order and come after the cursor. -/
def OrderedFrom (after : Nat) (events : List AgentEvent) : Prop :=
  (after :: events.map AgentEvent.sequence).Pairwise (· ≤ ·)

/-- The page that a reader at `after` gets when it gets exactly these events. -/
structure AgentEventPage.Carries (page : AgentEventPage) (after : Nat)
    (events : List AgentEvent) : Prop where
  status : page.status = .ok
  content : page.events = events
  next : page.nextAfterSequence = some (cursorAfter after events)

/-- Consecutive pages that together carry the events: each is read from the cursor that the page
before it gave. -/
inductive Splits : Nat → List AgentEvent → List AgentEventPage → Prop where
  | last {after : Nat} {events : List AgentEvent} {page : AgentEventPage} :
      page.Carries after events → Splits after events [page]
  | more {after : Nat} {events rest : List AgentEvent} {page : AgentEventPage}
      {pages : List AgentEventPage} :
      page.Carries after events → Splits (cursorAfter after events) rest pages →
      Splits after (events ++ rest) (page :: pages)

theorem OrderedFrom.drop {after : Nat} {xs ys : List AgentEvent}
    (h : OrderedFrom after (xs ++ ys)) : OrderedFrom (cursorAfter after xs) ys := by
  unfold OrderedFrom at h ⊢
  rw [List.map_append, ← List.cons_append, List.pairwise_append] at h
  obtain ⟨-, hys, hcross⟩ := h
  rw [List.pairwise_cons]
  refine ⟨fun b hb => hcross _ ?_ b hb, hys⟩
  unfold cursorAfter
  cases hlast : xs.getLast? with
  | none => simp
  | some last =>
    have hmem : last ∈ xs := List.mem_of_getLast? hlast
    simp only [Option.map_some, Option.getD_some, List.mem_cons, List.mem_map]
    exact .inr ⟨last, hmem, rfl⟩

namespace AgentRequest

/-- The high-water mark, raised to a cursor. -/
def seen (r : AgentRequest) (cursor : Nat) : AgentRequest :=
  { r with reconciledEventSequence := max r.reconciledEventSequence cursor }

theorem seen_seen (r : AgentRequest) (cursor : Nat) :
    (r.seen cursor).seen cursor = r.seen cursor := by
  simp [seen]

variable {r r' : AgentRequest} {e : AgentEvent} {now : DateTime}

theorem reconcileEvent_seen {cursor : Nat} (h : cursor ≤ e.sequence) :
    (r.seen cursor).reconcileEvent e now = r.reconcileEvent e now := by
  have hmark : max (max r.reconciledEventSequence cursor) e.sequence =
      max r.reconciledEventSequence e.sequence := by omega
  simp only [seen, reconcileEvent, hmark]

theorem turnFinal_settles {t : String} (h : r.turnFinal e t now = .stop r') :
    r'.state.isTerminal = true := by
  unfold turnFinal at h
  repeat' split at h
  all_goals first | cases h; rfl | cases h

theorem reconcileEvent_settles (h : r.reconcileEvent e now = .stop r') :
    r'.state.isTerminal = true := by
  unfold reconcileEvent at h
  simp only at h
  split at h
  · cases h
  cases ht : e.turnId with
  | none =>
    simp only [ht] at h
    cases h
  | some t =>
    simp only [ht] at h
    split at h
    · cases h
    cases hk : e.kind <;> simp only [hk] at h
    case turnStarted =>
        obtain ⟨detail, rfl⟩ := turnStarted_stop h
        rfl
    case turnFinal => exact turnFinal_settles h
    all_goals cases h

/-- A page is skipped: nothing that events can do is open. -/
def Skips (r : AgentRequest) : Prop :=
  r.state.isTerminal ∨ r.state = .registered ∨ ¬ r.correlatesFromEvents

theorem reconcileEventPage_of_skips (h : r.Skips) (page : AgentEventPage) (now : DateTime) :
    r.reconcileEventPage page now = r := by
  unfold reconcileEventPage
  exact if_pos h

theorem not_skips_next (h : ¬ r.Skips) (he : r.reconcileEvent e now = .next r') : ¬ r'.Skips := by
  obtain ⟨hs, hstate⟩ := reconcileEvent_next he
  have hcorr : r'.correlatesFromEvents = r.correlatesFromEvents := by
    simp only [correlatesFromEvents, hs.correlation]
  unfold Skips at h ⊢
  rw [hcorr]
  rcases hstate with ⟨-, hsame⟩ | ⟨t, -, -, -, hbound⟩
  · rw [hsame]
    exact h
  · rw [hbound]
    rintro (hterm | hreg | hc)
    · cases hterm
    · cases hreg
    · exact h (.inr (.inr hc))

/-- The loop over a page, by induction on its events: it has settled the request, or the next
page goes on. -/
theorem reconcileEvents_end {r : AgentRequest} {now : DateTime} {events : List AgentEvent}
    (h : ¬ r.Skips) :
    ((r.reconcileEvents now events).2 = false → (r.reconcileEvents now events).1.Skips) ∧
      ((r.reconcileEvents now events).2 = true → ¬ (r.reconcileEvents now events).1.Skips) := by
  induction events generalizing r with
  | nil => exact ⟨fun hf => absurd hf (by simp [reconcileEvents]), fun _ => h⟩
  | cons e events ih =>
    cases he : r.reconcileEvent e now with
    | next r' =>
      simp only [reconcileEvents, he]
      exact ih (not_skips_next h he)
    | stop r' =>
      simp only [reconcileEvents, he]
      exact ⟨fun _ => .inl (reconcileEvent_settles he), fun ht => absurd ht (by simp)⟩

theorem reconcileEvents_append (r : AgentRequest) (now : DateTime) (xs ys : List AgentEvent) :
    r.reconcileEvents now (xs ++ ys) =
      if (r.reconcileEvents now xs).2 then (r.reconcileEvents now xs).1.reconcileEvents now ys
      else r.reconcileEvents now xs := by
  induction xs generalizing r with
  | nil => rfl
  | cons e xs ih =>
    cases he : r.reconcileEvent e now with
    | next r' =>
      simp only [List.cons_append, reconcileEvents, he]
      exact ih r'
    | stop r' => simp [reconcileEvents, he]

def readPage (r : AgentRequest) (after : Nat) (events : List AgentEvent) (now : DateTime) :
    AgentRequest :=
  if (r.reconcileEvents now events).2 then
    (r.reconcileEvents now events).1.seen (cursorAfter after events)
  else (r.reconcileEvents now events).1

theorem reconcileEventPage_of_carries {page : AgentEventPage} {after : Nat}
    {events : List AgentEvent} (h : ¬ r.Skips) (hpage : page.Carries after events) (now : DateTime)
    : r.reconcileEventPage page now = r.readPage after events now := by
  have hopen : ¬ (r.state.isTerminal ∨ r.state = .registered ∨ ¬ r.correlatesFromEvents) := h
  have hok : page.status ≠ .cursorTooOld := by
    rw [hpage.status]
    decide
  unfold reconcileEventPage readPage
  rw [if_neg hopen, if_neg hok, hpage.content, hpage.next]
  cases hres : r.reconcileEvents now events with
  | mk r' finished =>
    cases finished with
    | false => rfl
    | true => rfl

theorem readPage_seen {cursor : Nat} {events : List AgentEvent} (h : OrderedFrom cursor events)
    (now : DateTime) :
    (r.seen cursor).readPage cursor events now = r.readPage cursor events now := by
  cases events with
  | nil =>
    -- an empty page raises the mark to the same cursor once more
    exact seen_seen r cursor
  | cons e events =>
    have hle : cursor ≤ e.sequence := (List.pairwise_cons.mp h).1 e.sequence List.mem_cons_self
    have hloop : (r.seen cursor).reconcileEvents now (e :: events) =
        r.reconcileEvents now (e :: events) := by
      unfold reconcileEvents
      rw [reconcileEvent_seen hle]
    unfold readPage
    rw [hloop]

/-- **Two consecutive pages do what one page with the events of both does.** -/
theorem reconcileEventPage_append {after : Nat} {xs ys : List AgentEvent}
    {page next whole : AgentEventPage} (hord : OrderedFrom after (xs ++ ys))
    (hpage : page.Carries after xs) (hnext : next.Carries (cursorAfter after xs) ys)
    (hwhole : whole.Carries after (xs ++ ys)) :
    (r.reconcileEventPage page now).reconcileEventPage next now =
      r.reconcileEventPage whole now := by
  by_cases hskip : r.Skips
  · simp only [reconcileEventPage_of_skips hskip]
  rw [reconcileEventPage_of_carries hskip hpage, reconcileEventPage_of_carries hskip hwhole]
  obtain ⟨hstopped, hwent⟩ := @reconcileEvents_end r now xs hskip
  unfold readPage
  rw [reconcileEvents_append, cursorAfter_append]
  cases hfin : (r.reconcileEvents now xs).2 with
  | false =>
    -- the first page settled the request
    simp only [hfin, Bool.false_eq_true, if_false]
    exact reconcileEventPage_of_skips (hstopped hfin) next now
  | true =>
    simp only [if_true]
    have hopen : ¬ ((r.reconcileEvents now xs).1.seen (cursorAfter after xs)).Skips := hwent hfin
    rw [reconcileEventPage_of_carries hopen hnext, readPage_seen hord.drop]
    rfl

end AgentRequest

theorem RequestOp.split_submission (ops : List RequestOp) : (∀ op ∈ ops, op.Reconciles) ∨
      ∃ before now after, ops = before ++ .markSubmitted now :: after ∧
        ∀ op ∈ before, op.Reconciles := by
  induction ops with
  | nil => exact .inl (by intro op hop; cases hop)
  | cons op ops ih =>
    by_cases hop : op.Reconciles
    · rcases ih with hall | ⟨before, now, after, rfl, hbefore⟩
      · exact .inl (List.forall_mem_cons.mpr ⟨hop, hall⟩)
      · exact .inr ⟨op :: before, now, after, rfl, List.forall_mem_cons.mpr ⟨hop, hbefore⟩⟩
    · cases op with
      | markSubmitted now => exact .inr ⟨[], now, ops, rfl, by intro o ho; cases ho⟩
      | reconcile metadata runtime now => exact absurd True.intro hop
      | reconcileEventPage page now => exact absurd True.intro hop

end Wakterm.Agent
