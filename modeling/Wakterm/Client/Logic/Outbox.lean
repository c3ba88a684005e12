import Mathlib.Tactic.ByContra
import Wakterm.Client.Outbox

/-!
# The latest intent wins

What an outbox and its loops have in common, whatever an intent is: the flag of a window says that
its one loop is running, what is pending is the intent queued last, and it is sent next.
-/

namespace Wakterm.Client.Outbox

open Machine

variable {α β : Type}

def FlushLoop.running (loop : FlushLoop β) : Bool :=
  match loop.phase with
  | .done => false
  | _ => true

@[simp] def Entry.about (windowId : WindowId) : Entry α → Bool
  | .queued w _ | .sent w _ => w = windowId
  | _ => false

/-- Nothing is queued or sent for the window between two positions. -/
def Quiet (log : List (Entry α)) (windowId : WindowId) (q p : Nat) : Prop :=
  ∀ r entry, q < r → r < p → At log r entry → entry.about windowId = false

/-- Each request is for the intent that was queued last, and queued since the request before. -/
def InOrder (log : List (Entry α)) (windowId : WindowId) : Prop :=
  ∀ p intent, At log p (.sent windowId intent) →
    ∃ q, q < p ∧ At log q (.queued windowId intent) ∧ Quiet log windowId q p

/-- The intent that was queued last is what was sent last. -/
def Settled (log : List (Entry α)) (windowId : WindowId) : Prop :=
  ∀ q intent, At log q (.queued windowId intent) →
    (∀ r other, q < r → ¬ At log r (.queued windowId other)) →
      ∃ p, q < p ∧ At log p (.sent windowId intent) ∧
        ∀ r other, p < r → ¬ At log r (.sent windowId other)

/-- What flags, pending intents, loops and the log have to do with each other. -/
structure Flow (inFlight : WindowId → Bool) (pending : WindowId → Option α)
    (loops : List (FlushLoop β)) (log : List (Entry α)) : Prop where
  single : ∀ (i j : Nat) (a b : FlushLoop β), loops[i]? = some a → loops[j]? = some b →
    a.running = true → b.running = true → a.windowId = b.windowId → i = j
  running : ∀ w, inFlight w = true ↔
    ∃ (i : Nat) (loop : FlushLoop β), loops[i]? = some loop ∧ loop.running = true ∧ loop.windowId = w
  idle : ∀ w, inFlight w = false → pending w = none
  waiting : ∀ w intent, pending w = some intent →
    ∃ q, At log q (.queued w intent) ∧ Quiet log w q log.length
  sent : ∀ w, pending w = none → ∀ q intent, At log q (.queued w intent) →
    ∃ r entry, q < r ∧ At log r entry ∧ entry.about w = true
  order : ∀ w, InOrder log w

/-- At most one loop runs for the window, requests are in order, and once no loop runs the request
sent last is for the intent queued last. -/
structure Flushed (loops : List (FlushLoop β)) (log : List (Entry α)) (windowId : WindowId) :
    Prop where
  single : ∀ (i j : Nat) (a b : FlushLoop β), loops[i]? = some a → loops[j]? = some b →
    a.running = true → b.running = true → a.windowId = windowId → b.windowId = windowId → i = j
  order : InOrder log windowId
  settled : (∀ loop ∈ loops, loop.windowId = windowId → loop.running = false) →
    Settled log windowId

section Flow

variable {inFlight inFlight' : WindowId → Bool} {pending pending' : WindowId → Option α}
  {loops : List (FlushLoop β)} {log : List (Entry α)} {w : WindowId} {intent : α}

theorem Flow.flushed (h : Flow inFlight pending loops log) (w : WindowId) :
    Flushed loops log w := by
  refine ⟨fun i j a b hi hj ha hb hwa hwb => h.single i j a b hi hj ha hb (hwa.trans hwb.symm),
    h.order w, fun hstopped q intent hq hlast => ?_⟩
  have hidle : inFlight w = false := by
    by_contra hflag
    obtain ⟨i, loop, hi, hrunning, hw⟩ := (h.running w).1 (by simpa using hflag)
    rw [hstopped loop (List.mem_of_getElem? hi) hw] at hrunning
    exact Bool.false_ne_true hrunning
  obtain ⟨p, entry, hqp, hp, habout⟩ := h.sent w (h.idle w hidle) q intent hq
  -- the only intent that a later request can be for is the last
  have hone : ∀ p other, q < p → At log p (.sent w other) →
      At log q (.queued w other) ∧ Quiet log w q p := by
    intro p other hqp hp
    obtain ⟨q', hlt, hq', hquiet⟩ := h.order w p other hp
    rcases Nat.lt_trichotomy q q' with hlater | rfl | hearlier
    · exact absurd hq' (hlast q' other hlater)
    · exact ⟨hq', hquiet⟩
    · have hfalse := hquiet q _ hearlier hqp hq
      simp [Entry.about] at hfalse
  cases entry with
  | queued v other =>
    simp only [Entry.about, decide_eq_true_eq] at habout
    subst habout
    exact absurd hp (hlast p other hqp)
  | sent v other =>
    simp only [Entry.about, decide_eq_true_eq] at habout
    subst habout
    obtain ⟨hq', -⟩ := hone p other hqp hp
    have heq := hq.unique hq'
    simp only [Entry.queued.injEq, true_and] at heq
    subst heq
    refine ⟨p, hqp, hp, fun r other hpr hr => ?_⟩
    obtain ⟨-, hquiet⟩ := hone r other (Nat.lt_trans hqp hpr) hr
    have hfalse := hquiet p _ hqp hpr hp
    simp [Entry.about] at hfalse
  | acknowledged v => exact absurd habout (by simp [Entry.about])
  | snapshot v tabId paneId => exact absurd habout (by simp [Entry.about])

/-! ## A longer log -/

theorem Quiet.concat {q p : Nat} (h : Quiet log w q p) (hp : p ≤ log.length) (x : Entry α) :
    Quiet (log ++ [x]) w q p := by
  intro r entry hqr hrp hr
  rcases at_concat.mp hr with hr | ⟨rfl, -⟩
  · exact h r entry hqr hrp hr
  · omega

theorem Quiet.concat_end {q : Nat} (h : Quiet log w q log.length) {x : Entry α}
    (hx : x.about w = false) : Quiet (log ++ [x]) w q (log ++ [x]).length := by
  intro r entry hqr _ hr
  rcases at_concat.mp hr with hr | ⟨-, rfl⟩
  · exact h r entry hqr hr.lt hr
  · exact hx

theorem InOrder.concat (h : InOrder log w) {x : Entry α} (hx : ∀ intent, x ≠ .sent w intent) :
    InOrder (log ++ [x]) w := by
  intro p intent hp
  rcases at_concat.mp hp with hp | ⟨-, heq⟩
  · obtain ⟨q, hlt, hq, hquiet⟩ := h p intent hp
    exact ⟨q, hlt, hq.concat x, hquiet.concat (Nat.le_of_lt hp.lt) x⟩
  · exact absurd heq.symm (hx intent)

theorem InOrder.concat_sent (h : InOrder log w) {q : Nat} (hq : At log q (.queued w intent))
    (hquiet : Quiet log w q log.length) : InOrder (log ++ [.sent w intent]) w := by
  intro p other hp
  rcases at_concat.mp hp with hp | ⟨rfl, heq⟩
  · obtain ⟨q, hlt, hq, hquiet⟩ := h p other hp
    exact ⟨q, hlt, hq.concat _, hquiet.concat (Nat.le_of_lt hp.lt) _⟩
  · simp only [Entry.sent.injEq, true_and] at heq
    subst heq
    exact ⟨q, hq.lt, hq.concat _, hquiet.concat (Nat.le_refl _) _⟩

theorem sent_concat {x : Entry α}
    (h : ∀ q intent, At log q (.queued w intent) → ∃ r entry, q < r ∧ At log r entry ∧
      Entry.about w entry = true) (hx : ∀ intent, x ≠ .queued w intent) :
    ∀ q intent, At (log ++ [x]) q (.queued w intent) → ∃ r entry, q < r ∧
      At (log ++ [x]) r entry ∧ Entry.about w entry = true := by
  intro q intent hq
  rcases at_concat.mp hq with hq | ⟨-, heq⟩
  · obtain ⟨r, entry, hlt, hr, habout⟩ := h q intent hq
    exact ⟨r, entry, hlt, hr.concat x, habout⟩
  · exact absurd heq.symm (hx intent)

end Flow

/-! ## The loops -/

section Loops

variable {loops : List (FlushLoop β)} {i : Nat} {loop loop' : FlushLoop β}

theorem single_set (hloop : loops[i]? = some loop) (hw : loop'.windowId = loop.windowId)
    (hrunning : loop.running = true)
    (h : ∀ (j k : Nat) (a b : FlushLoop β), loops[j]? = some a → loops[k]? = some b →
      a.running = true → b.running = true → a.windowId = b.windowId → j = k) :
    ∀ (j k : Nat) (a b : FlushLoop β), (loops.set i loop')[j]? = some a →
      (loops.set i loop')[k]? = some b → a.running = true → b.running = true →
        a.windowId = b.windowId → j = k := by
  -- in the place of the loop that goes on, the one before it
  have hold : ∀ (j : Nat) (a : FlushLoop β), (loops.set i loop')[j]? = some a →
      a.running = true → ∃ b : FlushLoop β, loops[j]? = some b ∧ b.running = true ∧
        b.windowId = a.windowId := by
    refine forall_set (fun j a _ hj ha => ⟨a, hj, ha, rfl⟩) fun _ => ?_
    exact ⟨loop, hloop, hrunning, hw.symm⟩
  intro j k a b hj hk ha hb hab
  obtain ⟨a', hj', ha', hwa⟩ := hold j a hj ha
  obtain ⟨b', hk', hb', hwb⟩ := hold k b hk hb
  exact h j k a' b' hj' hk' ha' hb' (by rw [hwa, hwb, hab])

theorem running_set (hloop : loops[i]? = some loop) (hrunning : loop.running = true)
    (hrunning' : loop'.running = true) (hw : loop'.windowId = loop.windowId) (v : WindowId) :
    (∃ (j : Nat) (a : FlushLoop β), loops[j]? = some a ∧ a.running = true ∧ a.windowId = v) ↔
      ∃ (j : Nat) (a : FlushLoop β), (loops.set i loop')[j]? = some a ∧ a.running = true ∧
        a.windowId = v := by
  constructor
  · rintro ⟨j, a, hj, ha, hwa⟩
    by_cases hji : j = i
    · subst hji
      cases hloop.symm.trans hj
      exact ⟨j, loop', get_set_self hloop, hrunning', hw.trans hwa⟩
    · exact ⟨j, a, (get_set_other hji).trans hj, ha, hwa⟩
  · rintro ⟨j, a, hj, ha, hwa⟩
    by_cases hji : j = i
    · subst hji
      rw [get_set_self hloop] at hj
      cases hj
      exact ⟨j, loop, hloop, hrunning, hw.symm.trans hwa⟩
    · exact ⟨j, a, (get_set_other hji).symm.trans hj, ha, hwa⟩

end Loops

section Steps

variable {inFlight inFlight' : WindowId → Bool} {pending pending' : WindowId → Option α}
  {loops : List (FlushLoop β)} {log : List (Entry α)} {w : WindowId} {intent : α} {i : Nat}
  {loop loop' : FlushLoop β}

theorem flow_start : Flow (fun _ => false) (fun _ => (none : Option α)) ([] : List (FlushLoop β))
    [] := by
  refine ⟨fun i j a b h => ?_, fun w => ?_, fun _ _ => rfl, fun w intent h => ?_,
    fun w _ q intent h => ?_, fun w p intent h => ?_⟩
  · exact absurd h (by simp)
  · simp
  · exact absurd h (by simp)
  · exact absurd h at_nil
  · exact absurd h at_nil

theorem Flow.queue (h : Flow inFlight pending loops log) (intent : α)
    (hin : ∀ v, inFlight' v = if v = w then true else inFlight v)
    (hpending : ∀ v, pending' v = if v = w then some intent else pending v)
    (hloop : loop.running = true) (hw : loop.windowId = w) :
    Flow inFlight' pending' (if inFlight w then loops else loops ++ [loop])
      (log ++ [.queued w intent]) := by
  have habout : ∀ v, v ≠ w → (Entry.queued w intent).about v = false := by
    intro v hne
    simpa [Entry.about] using Ne.symm hne
  have hget : ∀ {j : Nat} {a : FlushLoop β}, loops[j]? = some a →
      (if inFlight w then loops else loops ++ [loop])[j]? = some a := by
    intro j a hj
    split
    · exact hj
    · rw [List.getElem?_append_left (List.getElem?_eq_some_iff.1 hj).1]
      exact hj
  -- a loop is an old one, or the one that is started
  have hold : ∀ (j : Nat) (a : FlushLoop β),
      (if inFlight w then loops else loops ++ [loop])[j]? = some a →
        loops[j]? = some a ∨ inFlight w = false ∧ j = loops.length ∧ a = loop := by
    intro j a hj
    split at hj
    · exact Or.inl hj
    · next hfree =>
      exact forall_concat (q := fun j a => loops[j]? = some a ∨
          inFlight w = false ∧ j = loops.length ∧ a = loop)
        (fun j a hj => Or.inl hj) (Or.inr ⟨by simpa using hfree, rfl, rfl⟩) j a hj
  have hfree : ∀ (j : Nat) (a : FlushLoop β), inFlight w = false → loops[j]? = some a →
      a.running = true → a.windowId ≠ w := by
    intro j a hfree hj ha heq
    rw [(h.running w).2 ⟨j, a, hj, ha, heq⟩] at hfree
    exact Bool.false_ne_true hfree.symm
  refine ⟨fun j k a b hj hk ha hb hab => ?_, fun v => ?_, fun v hidle => ?_, fun v other hv => ?_,
    fun v hnone => ?_, fun v => (h.order v).concat (by simp)⟩
  · rcases hold j a hj with hja | ⟨hfree', hlen, rfl⟩
    · rcases hold k b hk with hkb | ⟨hfree', -, rfl⟩
      · exact h.single j k a b hja hkb ha hb hab
      · exact absurd (hab.trans hw) (hfree j a hfree' hja ha)
    · rcases hold k b hk with hkb | ⟨-, hlen', -⟩
      · exact absurd (hab.symm.trans hw) (hfree k b hfree' hkb hb)
      · exact hlen.trans hlen'.symm
  · rw [hin]
    split
    · next heq =>
      subst heq
      refine ⟨fun _ => ?_, fun _ => rfl⟩
      cases hflag : inFlight v with
      | true =>
        obtain ⟨j, a, hj, ha, hwa⟩ := (h.running v).1 hflag
        exact ⟨j, a, by simpa using hj, ha, hwa⟩
      | false => exact ⟨loops.length, loop, by simp, hloop, hw⟩
    · next hne =>
      rw [h.running v]
      constructor
      · rintro ⟨j, a, hj, ha, hwa⟩
        exact ⟨j, a, hget hj, ha, hwa⟩
      · rintro ⟨j, a, hj, ha, hwa⟩
        rcases hold j a hj with hj | ⟨-, -, rfl⟩
        · exact ⟨j, a, hj, ha, hwa⟩
        · exact absurd (hwa.symm.trans hw) hne
  · rw [hin] at hidle
    split at hidle
    · exact absurd hidle.symm Bool.false_ne_true
    · next hne =>
      rw [hpending, if_neg hne]
      exact h.idle v hidle
  · rw [hpending] at hv
    split at hv
    · next heq =>
      subst heq
      cases hv
      refine ⟨log.length, at_concat.mpr (Or.inr ⟨rfl, rfl⟩), fun r entry hlt hr => ?_⟩
      simp only [List.length_append, List.length_singleton] at hr
      omega
    · next hne =>
      obtain ⟨q, hq, hquiet⟩ := h.waiting v other hv
      exact ⟨q, hq.concat _, hquiet.concat_end (habout v hne)⟩
  · rw [hpending] at hnone
    split at hnone
    · exact absurd hnone (by simp)
    · next hne =>
      refine sent_concat (h.sent v hnone) fun other heq => hne ?_
      simp only [Entry.queued.injEq] at heq
      exact heq.1.symm

theorem Flow.take (h : Flow inFlight pending loops log) (hloop : loops[i]? = some loop)
    (hrunning : loop.running = true) (hrunning' : loop'.running = true)
    (hw : loop'.windowId = loop.windowId) (hintent : pending loop.windowId = some intent)
    (hin : ∀ v, inFlight' v = inFlight v)
    (hpending : ∀ v, pending' v = if v = loop.windowId then none else pending v) :
    Flow inFlight' pending' (loops.set i loop') (log ++ [.sent loop.windowId intent]) := by
  obtain ⟨q, hq, hquiet⟩ := h.waiting _ intent hintent
  have habout : ∀ v, v ≠ loop.windowId → (Entry.sent loop.windowId intent).about v = false := by
    intro v hne
    simpa [Entry.about] using Ne.symm hne
  have hself : (Entry.sent loop.windowId intent).about loop.windowId = true := by
    simp [Entry.about]
  refine ⟨single_set hloop hw hrunning h.single, fun v => ?_, fun v hidle => ?_,
    fun v other hv => ?_, fun v hnone => ?_, fun v => ?_⟩
  · rw [hin, h.running v]
    exact running_set hloop hrunning hrunning' hw v
  · rw [hin] at hidle
    rw [hpending, h.idle v hidle]
    split
    · rfl
    · rfl
  · rw [hpending] at hv
    split at hv
    · exact absurd hv (by simp)
    · next hne =>
      obtain ⟨q', hq', hquiet'⟩ := h.waiting v other hv
      exact ⟨q', hq'.concat _, hquiet'.concat_end (habout v hne)⟩
  · rw [hpending] at hnone
    by_cases hv : v = loop.windowId
    · subst hv
      intro q' other hq'
      rcases at_concat.mp hq' with hq' | ⟨-, heq⟩
      · exact ⟨log.length, _, hq'.lt, at_concat.mpr (Or.inr ⟨rfl, rfl⟩), hself⟩
      · exact absurd heq (by simp)
    · rw [if_neg hv] at hnone
      exact sent_concat (h.sent v hnone) (by simp)
  · by_cases hv : v = loop.windowId
    · subst hv
      exact (h.order _).concat_sent hq hquiet
    · refine (h.order v).concat fun other heq => hv ?_
      simp only [Entry.sent.injEq] at heq
      exact heq.1.symm

theorem Flow.finish (h : Flow inFlight pending loops log) (hloop : loops[i]? = some loop)
    (hrunning : loop.running = true) (hrunning' : loop'.running = false)
    (hw : loop'.windowId = loop.windowId) (hnone : pending loop.windowId = none)
    (hin : ∀ v, inFlight' v = if v = loop.windowId then false else inFlight v)
    (hpending : ∀ v, pending' v = pending v) : Flow inFlight' pending' (loops.set i loop') log := by
  refine ⟨single_set hloop hw hrunning h.single, fun v => ?_, fun v hidle => ?_,
    fun v other hv => ?_, fun v hnone => ?_, h.order⟩
  · rw [hin]
    split
    · next heq =>
      subst heq
      refine ⟨fun hfalse => absurd hfalse Bool.false_ne_true, ?_⟩
      rintro ⟨j, a, hj, ha, hwa⟩
      by_cases hji : j = i
      · subst hji
        rw [get_set_self hloop] at hj
        cases hj
        exact absurd (hrunning'.symm.trans ha) Bool.false_ne_true
      · rw [get_set_other hji] at hj
        exact absurd (h.single j i a loop hj hloop ha hrunning hwa) hji
    · next hne =>
      rw [h.running v]
      constructor
      · rintro ⟨j, a, hj, ha, hwa⟩
        have hji : j ≠ i := by
          rintro rfl
          cases hloop.symm.trans hj
          exact hne hwa.symm
        exact ⟨j, a, (get_set_other hji).trans hj, ha, hwa⟩
      · rintro ⟨j, a, hj, ha, hwa⟩
        have hji : j ≠ i := by
          rintro rfl
          rw [get_set_self hloop] at hj
          cases hj
          exact absurd (hrunning'.symm.trans ha) Bool.false_ne_true
        exact ⟨j, a, (get_set_other hji).symm.trans hj, ha, hwa⟩
  · rw [hpending]
    rw [hin] at hidle
    split at hidle
    · next heq => rw [heq, hnone]
    · exact h.idle v hidle
  · rw [hpending] at hv
    exact h.waiting v other hv
  · rw [hpending] at hnone
    exact h.sent v hnone

theorem Flow.goOn (h : Flow inFlight pending loops log) (hloop : loops[i]? = some loop)
    (hrunning : loop.running = true) (hrunning' : loop'.running = true)
    (hw : loop'.windowId = loop.windowId) : Flow inFlight pending (loops.set i loop') log := by
  refine ⟨single_set hloop hw hrunning h.single, fun v => ?_, h.idle, h.waiting, h.sent, h.order⟩
  rw [h.running v]
  exact running_set hloop hrunning hrunning' hw v

theorem Flow.note (h : Flow inFlight pending loops log) {x : Entry α}
    (hx : ∀ v, x.about v = false) : Flow inFlight pending loops (log ++ [x]) := by
  have hqueued : ∀ v other, x ≠ .queued v other := by
    rintro v other rfl
    simpa [Entry.about] using hx v
  have hsent : ∀ v other, x ≠ .sent v other := by
    rintro v other rfl
    simpa [Entry.about] using hx v
  refine ⟨h.single, h.running, h.idle, fun v other hv => ?_, fun v hnone => ?_, fun v => ?_⟩
  · obtain ⟨q, hq, hquiet⟩ := h.waiting v other hv
    exact ⟨q, hq.concat x, hquiet.concat_end (hx v)⟩
  · exact sent_concat (h.sent v hnone) (hqueued v)
  · exact (h.order v).concat (hsent v)

theorem Flow.congr (h : Flow inFlight pending loops log) (hin : ∀ v, inFlight' v = inFlight v)
    (hpending : ∀ v, pending' v = pending v) : Flow inFlight' pending' loops log := by
  rw [show inFlight' = inFlight from funext hin, show pending' = pending from funext hpending]
  exact h

end Steps

/-! ## The order of tabs, and the parked ones -/

/-- The flag of a window. -/
def inFlightOf (windows : Windows α) (w : WindowId) : Bool := (windows w).any (·.inFlight)

def pendingOf (windows : Windows α) (w : WindowId) : Option α := (windows w).bind (·.pending)

theorem take_some {windows : Windows α} {w : WindowId} {inFlight : Bool} {intent : α}
    (h : windows w = some ⟨inFlight, some intent⟩) : takeNextOrFinish windows w =
      (Function.update windows w (some ⟨inFlight, none⟩), some intent) := by
  unfold takeNextOrFinish
  rw [h]

theorem take_none {windows : Windows α} {w : WindowId} {inFlight : Bool}
    (h : windows w = some ⟨inFlight, none⟩) :
    takeNextOrFinish windows w = (Function.update windows w none, none) := by
  unfold takeNextOrFinish
  rw [h]

theorem step_flow {s s' : Flush α} {e : Event α}
    (h : Flow (inFlightOf s.windows) (pendingOf s.windows) s.loops s.log)
    (hstep : step s e = some s') :
    Flow (inFlightOf s'.windows) (pendingOf s'.windows) s'.loops s'.log := by
  cases e with
  | queue w intent =>
    cases hstep
    have hflow : Flow (inFlightOf (Function.update s.windows w (some ⟨true, some intent⟩)))
        (pendingOf (Function.update s.windows w (some ⟨true, some intent⟩)))
        (if inFlightOf s.windows w then s.loops else s.loops ++ [⟨w, .take⟩])
        (s.log ++ [Entry.queued w intent]) := by
      refine h.queue intent (fun v => ?_) (fun v => ?_) rfl rfl
      · unfold inFlightOf
        rw [Function.update_apply]
        split
        · rfl
        · rfl
      · unfold pendingOf
        rw [Function.update_apply]
        split
        · rfl
        · rfl
    show Flow _ _ (if (!inFlightOf s.windows w) = true then s.loops ++ [⟨w, .take⟩] else s.loops) _
    cases hflag : inFlightOf s.windows w with
    | true =>
      rw [hflag] at hflow
      exact hflow
    | false =>
      rw [hflag] at hflow
      exact hflow
  | advance i =>
    obtain ⟨⟨w, phase⟩, hloop, hadvance⟩ := Option.bind_eq_some_iff.1 hstep
    cases phase with
    | take =>
      have hflag : inFlightOf s.windows w = true := (h.running w).2 ⟨i, _, hloop, rfl, rfl⟩
      obtain ⟨⟨inFlight, pending⟩, hstate, hin⟩ := (Option.any_eq_true _ _).1 hflag
      cases pending with
      | some intent =>
        simp only [advance, take_some hstate] at hadvance
        cases hadvance
        refine h.take hloop rfl rfl rfl (by simp [pendingOf, hstate]) (fun v => ?_) fun v => ?_
        · show Option.any _ (Function.update s.windows w _ v) = _
          rw [Function.update_apply]
          split
          · next heq => simp [inFlightOf, heq, hstate]
          · rfl
        · show Option.bind (Function.update s.windows w _ v) _ = _
          rw [Function.update_apply]
          split
          · rfl
          · rfl
      | none =>
        simp only [advance, take_none hstate] at hadvance
        cases hadvance
        refine h.finish hloop rfl rfl rfl (by simp [pendingOf, hstate]) (fun v => ?_) fun v => ?_
        · show Option.any _ (Function.update s.windows w _ v) = _
          rw [Function.update_apply]
          split
          · rfl
          · rfl
        · show Option.bind (Function.update s.windows w _ v) _ = _
          rw [Function.update_apply]
          split
          · next heq => simp [pendingOf, heq, hstate]
          · rfl
    | sending intent =>
      cases hadvance
      exact h.goOn hloop rfl rfl rfl
    | acknowledge intent => exact absurd hadvance (by simp [advance])
    | done => exact absurd hadvance (by simp [advance])

/-! ## The active tab -/

/-- The choice made last for a window that is not settled yet: was its request sent, and has it been
acknowledged? -/
structure Wanted where
  choice : Choice
  sent : Bool
  acknowledged : Bool

/-- A new choice is wanted, until its request has been acknowledged and a snapshot shows it. -/
@[simp] def wantedStep (w : WindowId) (wanted : Option Wanted) : Entry Choice → Option Wanted
  | .queued v choice => if v = w then some ⟨choice, false, false⟩ else wanted
  | .sent v _ => if v = w then wanted.map ({ · with sent := true }) else wanted
  | .acknowledged v =>
    if v = w then wanted.map fun x => { x with acknowledged := x.acknowledged || x.sent }
    else wanted
  | .snapshot v tabId paneId =>
    if v = w then
      wanted.filter fun x => !(x.acknowledged && (tabId, paneId) = (x.choice.1, some x.choice.2))
    else wanted

/-- What is wanted after all that has happened. -/
def wanted (w : WindowId) (log : List (Entry Choice)) : Option Wanted :=
  log.foldl (wantedStep w) none

/-- What is to be shown in the stead of a snapshot. -/
def answer (wanted : Option Wanted) (tabId : TabId) (paneId : Option PaneId) :
    TabId × Option PaneId :=
  match wanted with
  | none => (tabId, paneId)
  | some x => (x.choice.1, some x.choice.2)

/-- The number of choices, that of the last of a window, and that of the one sent last. -/
structure Serials where
  total : Nat
  newest : Nat
  sent : Nat

/-- The numbers after one more entry. -/
@[simp] def serialsStep (w : WindowId) (serials : Serials) : Entry Choice → Serials
  | .queued v _ =>
    ⟨serials.total + 1, if v = w then serials.total + 1 else serials.newest, serials.sent⟩
  | .sent v _ => if v = w then { serials with sent := serials.newest } else serials
  | .acknowledged _ | .snapshot _ _ _ => serials

/-- The numbers after all that has happened. -/
def serials (w : WindowId) (log : List (Entry Choice)) : Serials :=
  log.foldl (serialsStep w) ⟨0, 0, 0⟩

@[simp] theorem wanted_concat (w : WindowId) (log : List (Entry Choice)) (x : Entry Choice) :
    wanted w (log ++ [x]) = wantedStep w (wanted w log) x := by
  simp [wanted]

@[simp] theorem serials_concat (w : WindowId) (log : List (Entry Choice)) (x : Entry Choice) :
    serials w (log ++ [x]) = serialsStep w (serials w log) x := by
  simp [serials]

namespace ActiveTabOutbox

/-- The flag of a window. -/
def inFlight (outbox : ActiveTabOutbox) (w : WindowId) : Bool := (outbox.windows w).any (·.inFlight)

def pending (outbox : ActiveTabOutbox) (w : WindowId) : Option ActiveTabIntent :=
  (outbox.windows w).bind (·.pending)

def desired (outbox : ActiveTabOutbox) (w : WindowId) : Option ActiveTabIntent :=
  (outbox.windows w).bind (·.desired)

section SetWindow

variable (outbox : ActiveTabOutbox) (w v : WindowId) (state : Option ActiveTabSendState)

theorem setWindow_windows :
    (outbox.setWindow w state).windows v = if v = w then state else outbox.windows v :=
  Function.update_apply _ _ _ _

@[simp] theorem inFlight_setWindow : (outbox.setWindow w state).inFlight v =
    if v = w then state.any (·.inFlight) else outbox.inFlight v := by
  unfold inFlight
  rw [setWindow_windows]
  split <;> rfl

@[simp] theorem pending_setWindow : (outbox.setWindow w state).pending v =
    if v = w then state.bind (·.pending) else outbox.pending v := by
  unfold pending
  rw [setWindow_windows]
  split <;> rfl

@[simp] theorem desired_setWindow : (outbox.setWindow w state).desired v =
    if v = w then state.bind (·.desired) else outbox.desired v := by
  unfold desired
  rw [setWindow_windows]
  split <;> rfl

end SetWindow

section Operations

variable (outbox : ActiveTabOutbox) (w : WindowId)

theorem queue_spec (tabId : TabId) (paneId : PaneId) :
    let queued : ActiveTabIntent := ⟨(outbox.generation + 1) % 2 ^ 64, tabId, paneId, false⟩
    (outbox.queue w tabId paneId).1.generation = queued.generation ∧
      (outbox.queue w tabId paneId).2 = !outbox.inFlight w ∧
      ∀ v, (outbox.queue w tabId paneId).1.inFlight v = (if v = w then true else outbox.inFlight v) ∧
        (outbox.queue w tabId paneId).1.pending v =
          (if v = w then some queued else outbox.pending v) ∧
        (outbox.queue w tabId paneId).1.desired v =
          if v = w then some queued else outbox.desired v := by
  refine ⟨rfl, rfl, fun v => ⟨?_, ?_, ?_⟩⟩
  · exact inFlight_setWindow _ w v _
  · exact pending_setWindow _ w v _
  · exact desired_setWindow _ w v _

theorem take_spec : (outbox.takeNextOrFinish w).1.generation = outbox.generation ∧
      (outbox.takeNextOrFinish w).2 = outbox.pending w ∧
      ∀ v, (outbox.takeNextOrFinish w).1.inFlight v =
          (if v = w then outbox.inFlight v && (outbox.pending w).isSome else outbox.inFlight v) ∧
        (outbox.takeNextOrFinish w).1.pending v = (if v = w then none else outbox.pending v) ∧
        (outbox.takeNextOrFinish w).1.desired v = outbox.desired v := by
  cases hstate : outbox.windows w with
  | none =>
    have hsame : outbox.takeNextOrFinish w = (outbox, none) := by
      unfold takeNextOrFinish
      rw [hstate]
    rw [hsame]
    refine ⟨rfl, by simp [pending, hstate], fun v => ⟨?_, ?_, rfl⟩⟩
    · split
      · next heq => simp [inFlight, heq, hstate]
      · rfl
    · split
      · next heq => simp [pending, heq, hstate]
      · rfl
  | some state =>
    obtain ⟨flag, next, wish⟩ := state
    cases next with
    | some intent =>
      have htake : outbox.takeNextOrFinish w =
          (outbox.setWindow w (some ⟨flag, none, wish⟩), some intent) := by
        unfold takeNextOrFinish
        rw [hstate]
      rw [htake]
      refine ⟨rfl, by simp [pending, hstate], fun v => ⟨?_, by simp, ?_⟩⟩
      · rw [inFlight_setWindow]
        split
        · next heq => simp [inFlight, pending, heq, hstate]
        · rfl
      · rw [desired_setWindow]
        split
        · next heq => simp [desired, heq, hstate]
        · rfl
    | none =>
      -- what is desired stays, but the flag does not
      have htake : ∃ state, outbox.takeNextOrFinish w = (outbox.setWindow w state, none) ∧
          state.any (·.inFlight) = false ∧ state.bind (·.pending) = none ∧
          state.bind (·.desired) = wish := by
        cases wish with
        | none =>
          refine ⟨none, ?_, rfl, rfl, rfl⟩
          unfold takeNextOrFinish
          rw [hstate]
        | some wish =>
          refine ⟨some ⟨false, none, some wish⟩, ?_, rfl, rfl, rfl⟩
          unfold takeNextOrFinish
          rw [hstate]
      obtain ⟨state, htake, hflag, hpending, hdesired⟩ := htake
      rw [htake]
      refine ⟨rfl, by simp [pending, hstate], fun v => ⟨?_, by simp [hpending], ?_⟩⟩
      · rw [inFlight_setWindow, hflag]
        split
        · next heq => simp [pending, hstate]
        · rfl
      · rw [desired_setWindow, hdesired]
        split
        · next heq => simp [desired, heq, hstate]
        · rfl

theorem acknowledge_spec (generation : Nat) :
    (outbox.acknowledge w generation).generation = outbox.generation ∧
      ∀ v, (outbox.acknowledge w generation).inFlight v = outbox.inFlight v ∧
        (outbox.acknowledge w generation).pending v = outbox.pending v ∧
        (outbox.acknowledge w generation).desired v =
          if v = w then (outbox.desired w).map fun x =>
            { x with acknowledged := x.acknowledged || decide (x.generation = generation) }
          else outbox.desired v := by
  -- nothing desired, or something of another generation
  have hsame : outbox.acknowledge w generation = outbox →
      (∀ x, outbox.desired w = some x → x.generation ≠ generation) →
      (outbox.acknowledge w generation).generation = outbox.generation ∧
      ∀ v, (outbox.acknowledge w generation).inFlight v = outbox.inFlight v ∧
        (outbox.acknowledge w generation).pending v = outbox.pending v ∧
        (outbox.acknowledge w generation).desired v =
          if v = w then (outbox.desired w).map fun x =>
            { x with acknowledged := x.acknowledged || decide (x.generation = generation) }
          else outbox.desired v := by
    intro heq hother
    rw [heq]
    refine ⟨rfl, fun v => ⟨rfl, rfl, ?_⟩⟩
    split
    · next hv =>
      rw [hv]
      cases hdesired : outbox.desired w with
      | none => rfl
      | some x => simp [hother x hdesired]
    · rfl
  cases hstate : outbox.windows w with
  | none =>
    refine hsame ?_ fun x hx => absurd hx (by simp [desired, hstate])
    unfold acknowledge
    rw [hstate]
  | some state =>
    obtain ⟨flag, next, wish⟩ := state
    cases wish with
    | none =>
      refine hsame ?_ fun x hx => absurd hx (by simp [desired, hstate])
      unfold acknowledge
      rw [hstate]
    | some wish =>
      have hdesired : outbox.desired w = some wish := by simp [desired, hstate]
      by_cases hgeneration : wish.generation = generation
      · have hack : outbox.acknowledge w generation =
            outbox.setWindow w (some ⟨flag, next, some { wish with acknowledged := true }⟩) := by
          unfold acknowledge
          rw [hstate]
          exact if_pos hgeneration
        rw [hack]
        refine ⟨rfl, fun v => ⟨?_, ?_, ?_⟩⟩
        · rw [inFlight_setWindow]
          split
          · next heq => simp [inFlight, heq, hstate]
          · rfl
        · rw [pending_setWindow]
          split
          · next heq => simp [pending, heq, hstate]
          · rfl
        · rw [desired_setWindow, hdesired]
          simp [hgeneration]
      · refine hsame ?_ fun x hx => ?_
        · unfold acknowledge
          rw [hstate]
          exact if_neg hgeneration
        · rw [hdesired, Option.some.injEq] at hx
          exact hx ▸ hgeneration

theorem reconcile_spec (tabId : TabId) (paneId : Option PaneId) :
    (outbox.reconcile w tabId paneId).1.generation = outbox.generation ∧
      (outbox.reconcile w tabId paneId).2 =
        (outbox.desired w).elim (tabId, paneId) (fun x => (x.tabId, some x.paneId)) ∧
      ∀ v, (outbox.reconcile w tabId paneId).1.inFlight v = outbox.inFlight v ∧
        (outbox.reconcile w tabId paneId).1.pending v = outbox.pending v ∧
        (outbox.reconcile w tabId paneId).1.desired v =
          if v = w then (outbox.desired w).filter fun x =>
            !(x.acknowledged && decide ((tabId, paneId) = (x.tabId, some x.paneId)))
          else outbox.desired v := by
  cases hdesired : outbox.desired w with
  | none =>
    have hsame : outbox.reconcile w tabId paneId = (outbox, tabId, paneId) := by
      cases hstate : outbox.windows w with
      | none =>
        unfold reconcile
        rw [hstate]
      | some state =>
        obtain ⟨flag, next, wish⟩ := state
        obtain rfl : wish = none := by simpa [desired, hstate] using hdesired
        unfold reconcile
        rw [hstate]
    rw [hsame]
    refine ⟨rfl, rfl, fun v => ⟨rfl, rfl, ?_⟩⟩
    split
    · next heq => simp [heq, hdesired]
    · rfl
  | some wish =>
    obtain ⟨⟨flag, next, wish'⟩, hstate, hwish⟩ := Option.bind_eq_some_iff.1 hdesired
    simp only at hwish
    subst hwish
    have hreconcile : outbox.reconcile w tabId paneId =
        if wish.acknowledged ∧ wish.tabId = tabId ∧ paneId = some wish.paneId then
          (outbox.setWindow w (if flag = false ∧ next = none then none
            else some ⟨flag, next, none⟩), tabId, paneId)
        else (outbox, wish.tabId, some wish.paneId) := by
      unfold reconcile
      rw [hstate]
    rw [hreconcile]
    split
    · next hshown =>
      obtain ⟨hack, htab, hpane⟩ := hshown
      refine ⟨rfl, by simp [htab, hpane], fun v => ⟨?_, ?_, ?_⟩⟩
      · show (outbox.setWindow w _).inFlight v = _
        rw [inFlight_setWindow]
        split
        · next heq =>
          split
          · next hidle => simp [inFlight, heq, hstate, hidle.1]
          · simp [inFlight, heq, hstate]
        · rfl
      · show (outbox.setWindow w _).pending v = _
        rw [pending_setWindow]
        split
        · next heq =>
          split
          · next hidle => simp [pending, heq, hstate, hidle.2]
          · simp [pending, heq, hstate]
        · rfl
      · show (outbox.setWindow w _).desired v = _
        rw [desired_setWindow]
        split
        · split <;> simp [Option.filter, hack, htab, hpane]
        · rfl
    · next hother =>
      refine ⟨rfl, rfl, fun v => ⟨rfl, rfl, ?_⟩⟩
      split
      · next heq =>
        rw [heq, hdesired]
        symm
        simp only [Option.filter_eq_some_iff, Bool.not_eq_true', Bool.and_eq_false_imp,
          decide_eq_false_iff_not, Prod.mk.injEq, true_and]
        exact fun hack hshown => hother ⟨hack, hshown.1.symm, hshown.2⟩
      · rfl

end Operations

end ActiveTabOutbox

namespace ActiveFlush

/-- The condition on a step: fewer than `2 ^ 64` choices are made from the one that a request is for
to its acknowledgement. -/
def Meets (s : ActiveFlush) : ActiveEvent → Prop
  | .advance i => ∀ loop, s.loops[i]? = some loop → ∀ intent, loop.phase = .acknowledge intent →
      (serials loop.windowId s.log).total < (serials loop.windowId s.log).sent + 2 ^ 64
  | _ => True

theorem total_le (w : WindowId) (log : List (Entry Choice)) : (serials w log).total ≤ log.length := by
  induction log using List.reverseRecOn with
  | nil => exact Nat.le_refl _
  | append_singleton log x ih =>
    rw [serials_concat, List.length_append, List.length_singleton]
    cases x with
    | queued v choice => exact Nat.succ_le_succ ih
    | sent v choice =>
      simp only [serialsStep]
      split
      · exact Nat.le_succ_of_le ih
      · exact Nat.le_succ_of_le ih
    | acknowledged v => exact Nat.le_succ_of_le ih
    | snapshot v tabId paneId => exact Nat.le_succ_of_le ih

theorem meets_of_short {s : ActiveFlush} (h : s.log.length < 2 ^ 64) (e : ActiveEvent) :
    s.Meets e := by
  cases e with
  | queue w tabId paneId => trivial
  | snapshot w tabId paneId => trivial
  | advance i =>
    intro loop _ _ _
    have hle := total_le loop.windowId s.log
    omega

/-- The intent that stands for a choice. -/
def intentOf (serials : Serials) (x : Wanted) : ActiveTabIntent :=
  ⟨serials.newest % 2 ^ 64, x.choice.1, x.choice.2, x.acknowledged⟩

/-- The intent that a loop sends or acknowledges. -/
@[simp] def intentOfPhase {β : Type} : LoopPhase β → Option β
  | .sending intent | .acknowledge intent => some intent
  | _ => none

def choiceOf (intent : ActiveTabIntent) : Choice := (intent.tabId, intent.paneId)

/-- What the outbox and its loops have to do with what has happened to a window. -/
structure Desires (outbox : ActiveTabOutbox) (loops : List (FlushLoop ActiveTabIntent))
    (log : List (Entry Choice)) (w : WindowId) : Prop where
  generation : outbox.generation = (serials w log).total % 2 ^ 64
  sent_le : (serials w log).sent ≤ (serials w log).newest
  newest_le : (serials w log).newest ≤ (serials w log).total
  desired : outbox.desired w = (wanted w log).map (intentOf (serials w log))
  pending : ∀ intent, outbox.pending w = some intent → ∃ x, wanted w log = some x ∧
    x.sent = false ∧ x.acknowledged = false ∧ intent = intentOf (serials w log) x
  sent : ∀ x, wanted w log = some x →
    (x.sent = true ↔ (serials w log).sent = (serials w log).newest)
  acknowledged : ∀ x, wanted w log = some x → x.acknowledged = true → x.sent = true
  loops : ∀ (i : Nat) (loop : FlushLoop ActiveTabIntent), loops[i]? = some loop →
    loop.windowId = w → ∀ intent, intentOfPhase loop.phase = some intent →
      intent.generation = (serials w log).sent % 2 ^ 64

abbrev Flows (s : ActiveFlush) : Prop :=
  Flow s.outbox.inFlight (fun w => (s.outbox.pending w).map choiceOf) s.loops s.log

variable {s s' : ActiveFlush} {w : WindowId}

variable {intent : ActiveTabIntent} {i : Nat}

theorem running_of_intent {loop : FlushLoop ActiveTabIntent}
    (h : intentOfPhase loop.phase = some intent) : loop.running = true := by
  obtain ⟨v, phase⟩ := loop
  cases phase with
  | take => exact absurd h (by simp [intentOfPhase])
  | sending x => rfl
  | acknowledge x => rfl
  | done => exact absurd h (by simp [intentOfPhase])

theorem queue_flows (h : Flows s) (w : WindowId) (tabId : TabId) (paneId : PaneId)
    (hstep : s.step (.queue w tabId paneId) = some s') : Flows s' := by
  cases hstep
  obtain ⟨-, hstart, hspec⟩ := s.outbox.queue_spec w tabId paneId
  have hflow : Flow (s.outbox.queue w tabId paneId).1.inFlight
      (fun v => ((s.outbox.queue w tabId paneId).1.pending v).map choiceOf)
      (if s.outbox.inFlight w then s.loops else s.loops ++ [⟨w, .take⟩])
      (s.log ++ [Entry.queued w (tabId, paneId)]) := by
    refine h.queue (tabId, paneId) (fun v => (hspec v).1) (fun v => ?_) rfl rfl
    rw [(hspec v).2.1]
    split
    · rfl
    · rfl
  show Flow _ _ (if (s.outbox.queue w tabId paneId).2 = true then s.loops ++ [⟨w, .take⟩]
    else s.loops) _
  rw [hstart]
  cases hflag : s.outbox.inFlight w with
  | true =>
    rw [hflag] at hflow
    exact hflow
  | false =>
    rw [hflag] at hflow
    exact hflow

theorem Desires.congr {outbox outbox' : ActiveTabOutbox}
    {loops loops' : List (FlushLoop ActiveTabIntent)} {log log' : List (Entry Choice)}
    (h : Desires outbox loops log w) (hgeneration : outbox'.generation = outbox.generation)
    (hserials : serials w log' = serials w log) (hwanted : wanted w log' = wanted w log)
    (hpending : outbox'.pending w = outbox.pending w)
    (hdesired : outbox'.desired w = outbox.desired w)
    (hloops : ∀ (i : Nat) (loop : FlushLoop ActiveTabIntent), loops'[i]? = some loop →
      loop.windowId = w → ∀ intent, intentOfPhase loop.phase = some intent →
        intent.generation = (serials w log).sent % 2 ^ 64) : Desires outbox' loops' log' w := by
  refine ⟨?_, ?_, ?_, ?_, fun intent hintent => ?_, ?_, ?_, ?_⟩
  · rw [hserials, hgeneration]
    exact h.generation
  · rw [hserials]
    exact h.sent_le
  · rw [hserials]
    exact h.newest_le
  · rw [hserials, hwanted, hdesired]
    exact h.desired
  · rw [hserials, hwanted]
    exact h.pending intent (hpending ▸ hintent)
  · rw [hserials, hwanted]
    exact h.sent
  · rw [hwanted]
    exact h.acknowledged
  · rw [hserials]
    exact hloops

/-- What a state has to do with what has happened to a window. -/
abbrev DesiresOf (s : ActiveFlush) (w : WindowId) : Prop := Desires s.outbox s.loops s.log w

theorem queue_desires (h : DesiresOf s w) (v : WindowId) (tabId : TabId) (paneId : PaneId)
    (hstep : s.step (.queue v tabId paneId) = some s') : DesiresOf s' w := by
  cases hstep
  obtain ⟨hgeneration, -, hspec⟩ := s.outbox.queue_spec v tabId paneId
  obtain ⟨-, hpending, hdesired⟩ := hspec w
  have htotal : (s.outbox.generation + 1) % 2 ^ 64 = ((serials w s.log).total + 1) % 2 ^ 64 := by
    rw [h.generation]
    omega
  have hloops : ∀ (i : Nat) (loop : FlushLoop ActiveTabIntent),
      (if (s.outbox.queue v tabId paneId).2 = true then s.loops ++ [⟨v, .take⟩]
        else s.loops)[i]? = some loop → loop.windowId = w →
      ∀ intent, intentOfPhase loop.phase = some intent →
        intent.generation = (serials w s.log).sent % 2 ^ 64 := by
    split
    · exact forall_concat h.loops fun _ intent hintent => absurd hintent (by simp [intentOfPhase])
    · exact h.loops
  have hsent := h.sent_le
  have hnewest := h.newest_le
  show Desires (s.outbox.queue v tabId paneId).1 (if (s.outbox.queue v tabId paneId).2 = true then
    s.loops ++ [⟨v, .take⟩] else s.loops) (s.log ++ [Entry.queued v (tabId, paneId)]) w
  by_cases hv : v = w
  · subst hv
    have hserials : serials v (s.log ++ [Entry.queued v (tabId, paneId)]) =
        ⟨(serials v s.log).total + 1, (serials v s.log).total + 1, (serials v s.log).sent⟩ := by
      simp [serialsStep]
    have hwanted : wanted v (s.log ++ [Entry.queued v (tabId, paneId)]) =
        some ⟨(tabId, paneId), false, false⟩ := by
      simp [wantedStep]
    rw [if_pos rfl] at hpending hdesired
    refine ⟨?_, ?_, ?_, ?_, fun intent hintent => ?_, fun x hx => ?_, fun x hx hack => ?_, ?_⟩
    · rw [hserials]
      exact hgeneration.trans htotal
    · rw [hserials]
      exact Nat.le_succ_of_le (Nat.le_trans hsent hnewest)
    · simp only [hserials, Nat.le_refl]
    · rw [hserials, hwanted, hdesired, htotal]
      rfl
    · refine ⟨_, hwanted, rfl, rfl, ?_⟩
      rw [hpending, Option.some.injEq] at hintent
      rw [hserials, ← hintent, htotal]
      rfl
    · rw [hwanted, Option.some.injEq] at hx
      rw [hserials, ← hx]
      simp only [Bool.false_eq_true, false_iff]
      omega
    · rw [hwanted, Option.some.injEq] at hx
      rw [← hx] at hack
      exact absurd hack Bool.false_ne_true
    · rw [hserials]
      exact hloops
  · have hserials : serials w (s.log ++ [Entry.queued v (tabId, paneId)]) =
        ⟨(serials w s.log).total + 1, (serials w s.log).newest, (serials w s.log).sent⟩ := by
      simp [serialsStep, hv]
    have hwanted : wanted w (s.log ++ [Entry.queued v (tabId, paneId)]) = wanted w s.log := by
      simp [wantedStep, hv]
    rw [if_neg (Ne.symm hv)] at hpending hdesired
    refine ⟨?_, ?_, ?_, ?_, fun intent hintent => ?_, ?_, ?_, ?_⟩
    · rw [hserials]
      exact hgeneration.trans htotal
    · rw [hserials]
      exact hsent
    · rw [hserials]
      exact Nat.le_succ_of_le hnewest
    · rw [hserials, hwanted]
      exact hdesired.trans h.desired
    · rw [hserials, hwanted]
      exact h.pending intent (hpending.symm.trans hintent)
    · rw [hserials, hwanted]
      exact h.sent
    · rw [hwanted]
      exact h.acknowledged
    · rw [hserials]
      exact hloops

theorem take_flows (h : Flows s) {w : WindowId} (hloop : s.loops[i]? = some ⟨w, .take⟩)
    (hstep : s.advance i ⟨w, .take⟩ = some s') : Flows s' := by
  obtain ⟨-, hnext, hspec⟩ := s.outbox.take_spec w
  have hflag : s.outbox.inFlight w = true := (h.running w).2 ⟨i, _, hloop, rfl, rfl⟩
  have hin := fun v => (hspec v).1
  cases hpending : s.outbox.pending w with
  | some intent =>
    simp only [advance, hnext, hpending] at hstep
    cases hstep
    refine h.take hloop rfl rfl rfl (by simp [hpending, choiceOf]) (fun v => ?_) fun v => ?_
    · show (s.outbox.takeNextOrFinish w).1.inFlight v = _
      rw [hin]
      split
      · next heq => rw [heq, hflag, hpending, Option.isSome_some, Bool.and_true]
      · rfl
    · show ((s.outbox.takeNextOrFinish w).1.pending v).map choiceOf = _
      rw [(hspec v).2.1]
      split
      · rfl
      · rfl
  | none =>
    simp only [advance, hnext, hpending] at hstep
    cases hstep
    refine h.finish hloop rfl rfl rfl (by simp [hpending]) (fun v => ?_) fun v => ?_
    · show (s.outbox.takeNextOrFinish w).1.inFlight v = _
      rw [hin]
      split
      · rw [hpending, Option.isSome_none, Bool.and_false]
      · rfl
    · show ((s.outbox.takeNextOrFinish w).1.pending v).map choiceOf = _
      rw [(hspec v).2.1]
      split
      · next heq => rw [heq, hpending]
      · rfl

theorem take_desires (h : DesiresOf s w) (hflow : Flows s) {v : WindowId}
    (hloop : s.loops[i]? = some ⟨v, .take⟩) (hstep : s.advance i ⟨v, .take⟩ = some s') :
    DesiresOf s' w := by
  obtain ⟨hgeneration, hnext, hspec⟩ := s.outbox.take_spec v
  obtain ⟨-, hpend, hdesired⟩ := hspec w
  -- a loop of the same window that has an intent is running, which the one of `i` does alone
  have hother : ∀ (j : Nat) (loop : FlushLoop ActiveTabIntent), j ≠ i → s.loops[j]? = some loop →
      loop.windowId = v → intentOfPhase loop.phase = none := by
    intro j loop hne hj hv
    by_contra hintent
    obtain ⟨intent, hintent⟩ := Option.ne_none_iff_exists'.1 hintent
    exact hne (hflow.single j i loop _ hj hloop (running_of_intent hintent) rfl hv)
  cases hpending : s.outbox.pending v with
  | some next =>
    simp only [advance, hnext, hpending] at hstep
    cases hstep
    show Desires (s.outbox.takeNextOrFinish v).1 (s.loops.set i ⟨v, .sending next⟩)
      (s.log ++ [Entry.sent v (choiceOf next)]) w
    by_cases hv : v = w
    · subst hv
      obtain ⟨x, hx, hsent, hack, rfl⟩ := h.pending next hpending
      have hserials : serials v (s.log ++ [Entry.sent v x.choice]) =
          ⟨(serials v s.log).total, (serials v s.log).newest, (serials v s.log).newest⟩ := by
        simp [serialsStep]
      have hwanted : wanted v (s.log ++ [Entry.sent v x.choice]) =
          some ⟨x.choice, true, x.acknowledged⟩ := by
        simp [wantedStep, hx]
      show Desires _ _ (s.log ++ [Entry.sent v x.choice]) v
      rw [if_pos rfl] at hpend
      refine ⟨?_, ?_, ?_, ?_, fun intent hintent => ?_, fun y hy => ?_, fun y hy _ => ?_, ?_⟩
      · rw [hserials]
        exact hgeneration.trans h.generation
      · simp only [hserials, Nat.le_refl]
      · rw [hserials]
        exact h.newest_le
      · rw [hserials, hwanted, hdesired, h.desired, hx]
        rfl
      · rw [hpend] at hintent
        exact absurd hintent (by simp)
      · rw [hwanted, Option.some.injEq] at hy
        rw [hserials, ← hy]
        exact iff_of_true rfl rfl
      · rw [hwanted, Option.some.injEq] at hy
        rw [← hy]
      · rw [hserials]
        refine forall_set (fun j loop hne hj hw intent hintent => ?_) fun _ intent hintent => ?_
        · rw [hother j loop hne hj hw] at hintent
          exact absurd hintent (by simp)
        · cases hintent
          rfl
    · refine h.congr hgeneration (by simp [serialsStep, hv]) (by simp [wantedStep, hv])
        (hpend.trans (if_neg (Ne.symm hv))) hdesired ?_
      exact forall_set (fun j loop _ hj => h.loops j loop hj) fun hw => absurd hw hv
  | none =>
    simp only [advance, hnext, hpending] at hstep
    cases hstep
    refine h.congr hgeneration rfl rfl ?_ hdesired ?_
    · rw [hpend]
      split
      · next heq => rw [heq, hpending]
      · rfl
    · exact forall_set (fun j loop _ hj => h.loops j loop hj) fun _ intent hintent =>
        absurd hintent (by simp [intentOfPhase])

theorem sending_desires (h : DesiresOf s w) {v : WindowId}
    (hloop : s.loops[i]? = some ⟨v, .sending intent⟩)
    (hstep : s.advance i ⟨v, .sending intent⟩ = some s') : DesiresOf s' w := by
  cases hstep
  refine h.congr rfl rfl rfl rfl rfl ?_
  exact forall_set (fun j loop _ hj => h.loops j loop hj) fun hw next hnext =>
    h.loops i _ hloop hw next hnext

theorem acknowledge_flows (h : Flows s) {w : WindowId}
    (hloop : s.loops[i]? = some ⟨w, .acknowledge intent⟩)
    (hstep : s.advance i ⟨w, .acknowledge intent⟩ = some s') : Flows s' := by
  cases hstep
  obtain ⟨-, hspec⟩ := s.outbox.acknowledge_spec w intent.generation
  have hgoes : Flow s.outbox.inFlight (fun v => (s.outbox.pending v).map choiceOf)
      (s.loops.set i ⟨w, .take⟩) s.log := h.goOn hloop rfl rfl rfl
  have hnoted : Flow s.outbox.inFlight (fun v => (s.outbox.pending v).map choiceOf)
      (s.loops.set i ⟨w, .take⟩) (s.log ++ [Entry.acknowledged w]) := hgoes.note fun v => rfl
  refine hnoted.congr (fun v => (hspec v).1) fun v => ?_
  show ((s.outbox.acknowledge w intent.generation).pending v).map choiceOf = _
  rw [(hspec v).2.1]

theorem acknowledge_desires (h : DesiresOf s w) {v : WindowId}
    (hloop : s.loops[i]? = some ⟨v, .acknowledge intent⟩)
    (hmeets : (serials v s.log).total < (serials v s.log).sent + 2 ^ 64)
    (hstep : s.advance i ⟨v, .acknowledge intent⟩ = some s') : DesiresOf s' w := by
  cases hstep
  obtain ⟨hgeneration, hspec⟩ := s.outbox.acknowledge_spec v intent.generation
  obtain ⟨-, hpend, hdesired⟩ := hspec w
  have hserials : serials w (s.log ++ [Entry.acknowledged v]) = serials w s.log := by
    simp [serialsStep]
  have hloops : ∀ (j : Nat) (loop : FlushLoop ActiveTabIntent),
      (s.loops.set i ⟨v, .take⟩)[j]? = some loop → loop.windowId = w →
        ∀ next, intentOfPhase loop.phase = some next →
          next.generation = (serials w s.log).sent % 2 ^ 64 :=
    forall_set (fun j loop _ hj => h.loops j loop hj) fun _ next hnext =>
      absurd hnext (by simp [intentOfPhase])
  show Desires (s.outbox.acknowledge v intent.generation) (s.loops.set i ⟨v, .take⟩)
    (s.log ++ [Entry.acknowledged v]) w
  by_cases hv : v = w
  · subst hv
    have hwanted : wanted v (s.log ++ [Entry.acknowledged v]) = (wanted v s.log).map fun x =>
        ⟨x.choice, x.sent, x.acknowledged || x.sent⟩ := by
      simp [wantedStep]
    have hle := h.sent_le
    have hle' := h.newest_le
    -- the request was for the newest choice if that one was sent at all
    have hsame : ∀ x, wanted v s.log = some x →
        decide ((intentOf (serials v s.log) x).generation = intent.generation) = x.sent := by
      intro x hx
      rw [h.loops i _ hloop rfl intent rfl]
      show decide ((serials v s.log).newest % 2 ^ 64 = (serials v s.log).sent % 2 ^ 64) = _
      cases hsent : x.sent with
      | true =>
        rw [(h.sent x hx).1 hsent]
        simp
      | false =>
        have hne : (serials v s.log).sent ≠ (serials v s.log).newest := by
          intro heq
          rw [(h.sent x hx).2 heq] at hsent
          exact Bool.false_ne_true hsent.symm
        refine decide_eq_false ?_
        omega
    rw [if_pos rfl] at hdesired
    refine ⟨?_, ?_, ?_, ?_, fun next hnext => ?_, fun y hy => ?_, fun y hy hack => ?_, ?_⟩
    · rw [hserials]
      exact hgeneration.trans h.generation
    · rw [hserials]
      exact hle
    · rw [hserials]
      exact hle'
    · rw [hserials, hwanted, hdesired, h.desired]
      cases hx : wanted v s.log with
      | none => rfl
      | some x =>
        simp only [Option.map_some, hsame x hx]
        rfl
    · obtain ⟨x, hx, hsent, hack, heq⟩ := h.pending next (hpend ▸ hnext)
      refine ⟨⟨x.choice, x.sent, x.acknowledged || x.sent⟩, ?_, hsent, ?_, ?_⟩
      · rw [hwanted, hx]
        rfl
      · show (x.acknowledged || x.sent) = false
        rw [hsent, hack]
        rfl
      · rw [heq, hserials]
        simp [intentOf, hsent]
    · rw [hwanted] at hy
      obtain ⟨x, hx, rfl⟩ := Option.map_eq_some_iff.1 hy
      rw [hserials]
      exact h.sent x hx
    · rw [hwanted] at hy
      obtain ⟨x, hx, rfl⟩ := Option.map_eq_some_iff.1 hy
      rcases Bool.or_eq_true_iff.1 hack with hack | hsent
      · exact h.acknowledged x hx hack
      · exact hsent
    · rw [hserials]
      exact hloops
  · exact h.congr hgeneration hserials (by simp [wantedStep, hv]) hpend
      (hdesired.trans (if_neg (Ne.symm hv))) hloops

theorem snapshot_flows (h : Flows s) (w : WindowId) (tabId : TabId) (paneId : Option PaneId)
    (hstep : s.step (.snapshot w tabId paneId) = some s') : Flows s' := by
  cases hstep
  obtain ⟨-, -, hspec⟩ := s.outbox.reconcile_spec w tabId paneId
  have hnoted : Flow s.outbox.inFlight (fun v => (s.outbox.pending v).map choiceOf) s.loops
      (s.log ++ [Entry.snapshot w tabId paneId]) := h.note fun v => rfl
  refine hnoted.congr (fun v => (hspec v).1) fun v => ?_
  show ((s.outbox.reconcile w tabId paneId).1.pending v).map choiceOf = _
  rw [(hspec v).2.1]

theorem snapshot_desires (h : DesiresOf s w) (v : WindowId) (tabId : TabId) (paneId : Option PaneId)
    (hstep : s.step (.snapshot v tabId paneId) = some s') : DesiresOf s' w := by
  cases hstep
  obtain ⟨hgeneration, -, hspec⟩ := s.outbox.reconcile_spec v tabId paneId
  obtain ⟨-, hpend, hdesired⟩ := hspec w
  have hserials : serials w (s.log ++ [Entry.snapshot v tabId paneId]) = serials w s.log := by
    simp [serialsStep]
  show Desires (s.outbox.reconcile v tabId paneId).1 s.loops
    (s.log ++ [Entry.snapshot v tabId paneId]) w
  by_cases hv : v = w
  · subst hv
    have hwanted : wanted v (s.log ++ [Entry.snapshot v tabId paneId]) =
        (wanted v s.log).filter fun x =>
          !(x.acknowledged && decide ((tabId, paneId) = (x.choice.1, some x.choice.2))) := by
      simp [wantedStep]
    have hkept : ∀ x, wanted v (s.log ++ [Entry.snapshot v tabId paneId]) = some x →
        wanted v s.log = some x := by
      intro x hx
      rw [hwanted] at hx
      exact (Option.filter_eq_some_iff.1 hx).1
    rw [if_pos rfl] at hdesired
    refine ⟨?_, ?_, ?_, ?_, fun next hnext => ?_, fun y hy => ?_, fun y hy hack => ?_, ?_⟩
    · rw [hserials]
      exact hgeneration.trans h.generation
    · rw [hserials]
      exact h.sent_le
    · rw [hserials]
      exact h.newest_le
    · rw [hserials, hwanted, hdesired, h.desired]
      cases hx : wanted v s.log with
      | none => rfl
      | some x =>
        simp only [Option.map_some, Option.filter_some, intentOf]
        split
        · rfl
        · rfl
    · obtain ⟨x, hx, hsent, hack, heq⟩ := h.pending next (hpend ▸ hnext)
      refine ⟨x, ?_, hsent, hack, ?_⟩
      · rw [hwanted, hx]
        simp [Option.filter, hack]
      · rw [hserials]
        exact heq
    · rw [hserials]
      exact h.sent y (hkept y hy)
    · exact h.acknowledged y (hkept y hy) hack
    · rw [hserials]
      exact h.loops
  · exact h.congr hgeneration hserials (by simp [wantedStep, hv]) hpend
      (hdesired.trans (if_neg (Ne.symm hv))) h.loops

theorem step_flows {e : ActiveEvent} (h : Flows s) (hstep : s.step e = some s') : Flows s' := by
  cases e with
  | queue w tabId paneId => exact queue_flows h w tabId paneId hstep
  | snapshot w tabId paneId => exact snapshot_flows h w tabId paneId hstep
  | advance i =>
    obtain ⟨⟨w, phase⟩, hloop, hadvance⟩ := Option.bind_eq_some_iff.1 hstep
    cases phase with
    | take => exact take_flows h hloop hadvance
    | sending intent =>
      cases hadvance
      exact h.goOn hloop rfl rfl rfl
    | acknowledge intent => exact acknowledge_flows h hloop hadvance
    | done => exact absurd hadvance (by simp [advance])

theorem step_desires {e : ActiveEvent} (h : DesiresOf s w) (hflow : Flows s) (hmeets : s.Meets e)
    (hstep : s.step e = some s') : DesiresOf s' w := by
  cases e with
  | queue v tabId paneId => exact queue_desires h v tabId paneId hstep
  | snapshot v tabId paneId => exact snapshot_desires h v tabId paneId hstep
  | advance i =>
    obtain ⟨⟨v, phase⟩, hloop, hadvance⟩ := Option.bind_eq_some_iff.1 hstep
    cases phase with
    | take => exact take_desires h hflow hloop hadvance
    | sending intent => exact sending_desires h hloop hadvance
    | acknowledge intent =>
      exact acknowledge_desires h hloop (hmeets _ hloop intent rfl) hadvance
    | done => exact absurd hadvance (by simp [advance])

theorem start_desires (w : WindowId) : DesiresOf start w :=
  ⟨rfl, Nat.le_refl _, Nat.le_refl _, rfl, fun _ h => absurd h (by simp [start,
    ActiveTabOutbox.pending]), fun _ h => absurd h (by simp [start, wanted]),
    fun _ h => absurd h (by simp [start, wanted]), fun i _ h => absurd h (by simp [start])⟩

theorem DesiresOf.reconcile (h : DesiresOf s w) (tabId : TabId) (paneId : Option PaneId) :
    (s.outbox.reconcile w tabId paneId).2 = answer (wanted w s.log) tabId paneId := by
  obtain ⟨-, hanswer, -⟩ := s.outbox.reconcile_spec w tabId paneId
  rw [hanswer, h.desired]
  cases wanted w s.log with
  | none => rfl
  | some x => rfl

end ActiveFlush

end Wakterm.Client.Outbox
