import Mathlib.Tactic.ByContra
import Wakterm.Client.Coalesce

/-!
# No request is lost

At most one call is at work.
-/

namespace Wakterm.Client.Coalescing

open Machine

def Phase.works : Phase → Bool
  | .clear | .start | .await | .test | .release | .fail => true
  | .enter | .mark | .done => false

/-- Is the call past the mark? -/
def Phase.begins : Phase → Bool
  | .clear | .start => true
  | _ => false

def Entry.isStarted : Entry → Prop
  | .started _ => True
  | _ => False

/-- The entry is the end of a run, or its failure returned to the caller. -/
def Entry.EndOf (i : Nat) (entry : Entry) : Prop := entry = .ran i ∨ entry = .returned i

namespace Coalesce

/-- Every call that returned because another one was at work has been served: a run that began later
has ended, or its failure was returned. -/
def Served (s : Coalesce) : Prop :=
  ∀ p i, At s.log p (.coalesced i) →
    ∃ q j, p < q ∧ At s.log q (.started j) ∧ After s.log q (Entry.EndOf j)

/-- No call is under way. -/
def AtRest (s : Coalesce) : Prop := ∀ phase ∈ s.calls, phase = .done

/-- No request is lost: until a run has begun since, somebody is at work, and once nobody is under
way every request has been served. -/
structure Sound (s : Coalesce) : Prop where
  waits : ∀ p i, At s.log p (.coalesced i) → After s.log p Entry.isStarted ∨
    ∃ (j : Nat) (phase : Phase), s.calls[j]? = some phase ∧ phase.works = true
  served : s.AtRest → s.Served

/-- No call is about to leave a mark. -/
def NoneMarks (s : Coalesce) : Prop := ∀ phase ∈ s.calls, phase ≠ .mark

/-- The condition on a step of `resync_coalesced`: a call that gives up its work finds no mark, and
no call is about to leave one. -/
def MeetsResync (s : Coalesce) : Event → Prop
  | .advance i _ => s.calls[i]? = some .release ∨ s.calls[i]? = some .fail →
      s.pending = false ∧ s.NoneMarks
  | .call => True

instance (s : Coalesce) (e : Event) : Decidable (s.MeetsResync e) :=
  match e with
  | .advance i _ => inferInstanceAs (Decidable (s.calls[i]? = some .release ∨
      s.calls[i]? = some .fail → s.pending = false ∧ ∀ phase ∈ s.calls, phase ≠ .mark))
  | .call => isTrue trivial

/-- The condition on a step of `refresh_cached_remote_status`: a call that fails finds no mark. -/
def MeetsRefresh (s : Coalesce) : Event → Prop
  | .advance i _ => s.calls[i]? = some .fail → s.pending = false
  | .call => True

/-- What is preserved. -/
structure Inv (s : Coalesce) : Prop where
  single : ∀ (i j : Nat) (a b : Phase), s.calls[i]? = some a → s.calls[j]? = some b →
    a.works = true → b.works = true → i = j
  atWork : s.inProgress = true ↔ ∃ (i : Nat) (phase : Phase), s.calls[i]? = some phase ∧ phase.works = true
  marking : ∀ (i : Nat) (phase : Phase), s.calls[i]? = some phase → phase = .mark →
    s.inProgress = true
  owed : ∀ p i, At s.log p (.coalesced i) → After s.log p Entry.isStarted ∨
    ∃ (j : Nat) (phase : Phase), s.calls[j]? = some phase ∧ phase.works = true ∧
      (phase.begins = true ∨ s.pending = true)
  ends : ∀ q j, At s.log q (.started j) → After s.log q (Entry.EndOf j) ∨
    s.calls[j]? = some .await ∨ s.calls[j]? = some .fail

theorem idle_inv : idle.Inv := by
  refine ⟨fun i j a b h => ?_, ?_, fun i phase h => ?_, fun p i h => ?_, fun q j h => ?_⟩
  · exact absurd h (by simp [idle])
  · simp [idle]
  · exact absurd h (by simp [idle])
  · exact absurd h at_nil
  · exact absurd h at_nil

theorem Inv.served {s : Coalesce} (h : s.Inv) (hrest : s.AtRest) : s.Served := by
  intro p i hp
  have hdone : ∀ {j : Nat} {phase : Phase}, s.calls[j]? = some phase → phase = .done :=
    fun hj => hrest _ (List.mem_of_getElem? hj)
  rcases h.owed p i hp with ⟨q, entry, hq, hat, hstarted⟩ | ⟨j, phase, hj, hworks, -⟩
  · cases entry with
    | started j =>
      refine ⟨q, j, hq, hat, ?_⟩
      rcases h.ends q j hat with hend | hawait | hfail
      · exact hend
      · exact absurd (hdone hawait) (by simp)
      · exact absurd (hdone hfail) (by simp)
    | _ => exact hstarted.elim
  · rw [hdone hj] at hworks
    exact absurd hworks Bool.false_ne_true

theorem Inv.sound {s : Coalesce} (h : s.Inv) : s.Sound := by
  refine ⟨fun p i hp => ?_, h.served⟩
  rcases h.owed p i hp with hstarted | ⟨j, phase, hj, hworks, -⟩
  · exact Or.inl hstarted
  · exact Or.inr ⟨j, phase, hj, hworks⟩

/-! ## The calls -/

section Goto

variable {s : Coalesce} {i : Nat} {phase phase' : Phase}
  (h : s.Inv) (hcall : s.calls[i]? = some phase)

include h hcall

/-- The calls after one of them has gone on: it works as before, or nobody worked, or nobody does. -/
theorem single_set
    (hworks : phase'.works = true → phase.works = true ∨ s.inProgress = false) :
    ∀ (j k : Nat) (a b : Phase), (s.calls.set i phase')[j]? = some a →
      (s.calls.set i phase')[k]? = some b → a.works = true → b.works = true → j = k := by
  have hself : ∀ (k : Nat) (b : Phase), k ≠ i → s.calls[k]? = some b → phase'.works = true →
      b.works = true → False := by
    intro k b hne hk hphase hb
    rcases hworks hphase with hold | hfree
    · exact hne (h.single k i b phase hk hcall hb hold)
    · rw [h.atWork.2 ⟨k, b, hk, hb⟩] at hfree
      exact Bool.false_ne_true hfree.symm
  intro j k a b hj hk ha hb
  by_cases hji : j = i
  · subst hji
    rw [get_set_self hcall] at hj
    cases hj
    by_contra hne
    rw [get_set_other (Ne.symm hne)] at hk
    exact hself k b (Ne.symm hne) hk ha hb
  · rw [get_set_other hji] at hj
    by_cases hki : k = i
    · subst hki
      rw [get_set_self hcall] at hk
      cases hk
      exact (hself j a hji hj hb ha).elim
    · rw [get_set_other hki] at hk
      exact h.single j k a b hj hk ha hb

theorem works_inv (hworks : phase.works = true)
    (hworks' : phase'.works = true) {pending : Bool} {log : List Entry}
    (howed : ∀ p k, At log p (.coalesced k) → After log p Entry.isStarted ∨
      phase'.begins = true ∨ pending = true)
    (hends : ∀ q j, At log q (.started j) → After log q (Entry.EndOf j) ∨
      (s.calls.set i phase')[j]? = some .await ∨ (s.calls.set i phase')[j]? = some .fail) :
    Inv ⟨s.inProgress, pending, s.calls.set i phase', log⟩ := by
  have hprogress : s.inProgress = true := h.atWork.2 ⟨i, phase, hcall, hworks⟩
  refine ⟨single_set h hcall fun _ => Or.inl hworks, ?_, fun _ _ _ _ => hprogress,
    fun p k hp => ?_, hends⟩
  · exact ⟨fun _ => ⟨i, phase', get_set_self hcall, hworks'⟩, fun _ => hprogress⟩
  · rcases howed p k hp with hstarted | howed
    · exact Or.inl hstarted
    · exact Or.inr ⟨i, phase', get_set_self hcall, hworks', howed⟩

theorem stops_inv (hworks : phase.works = true)
    (hmark : s.NoneMarks) {pending : Bool} {log : List Entry}
    (howed : ∀ p k, At log p (.coalesced k) → After log p Entry.isStarted)
    (hends : ∀ q j, At log q (.started j) → After log q (Entry.EndOf j) ∨
      (s.calls.set i .done)[j]? = some .await ∨ (s.calls.set i .done)[j]? = some .fail) :
    Inv ⟨false, pending, s.calls.set i .done, log⟩ := by
  refine ⟨single_set h hcall fun hdone => absurd hdone Bool.false_ne_true, ?_, fun j other hj heq => ?_,
    fun p k hp => Or.inl (howed p k hp), hends⟩
  · refine ⟨fun hfalse => absurd hfalse Bool.false_ne_true, ?_⟩
    rintro ⟨j, other, hj, hother⟩
    by_cases hji : j = i
    · subst hji
      rw [get_set_self hcall] at hj
      cases hj
      exact absurd hother Bool.false_ne_true
    · rw [get_set_other hji] at hj
      exact absurd (h.single j i other phase hj hcall hother hworks) hji
  · by_cases hji : j = i
    · subst hji
      rw [get_set_self hcall] at hj
      cases hj
      exact absurd heq (by simp)
    · rw [get_set_other hji] at hj
      exact absurd heq (hmark other (List.mem_of_getElem? hj))

theorem ends_set {log : List Entry} (hold : ∀ q j, At log q (.started j) → At s.log q (.started j))
    (hafter : ∀ q j, After s.log q (Entry.EndOf j) → After log q (Entry.EndOf j))
    (hself : ∀ q, At s.log q (.started i) → phase = .await ∨ phase = .fail →
      After log q (Entry.EndOf i) ∨ phase' = .await ∨ phase' = .fail) :
    ∀ q j, At log q (.started j) → After log q (Entry.EndOf j) ∨
      (s.calls.set i phase')[j]? = some .await ∨ (s.calls.set i phase')[j]? = some .fail := by
  intro q j hq
  by_cases hji : j = i
  · subst hji
    rw [get_set_self hcall]
    have hphase : ∀ {x : Phase}, s.calls[j]? = some x → phase = x := fun hx =>
      Option.some.inj (hcall.symm.trans hx)
    have hnew : phase = .await ∨ phase = .fail → After log q (Entry.EndOf j) ∨
        some phase' = some .await ∨ some phase' = some .fail := by
      intro heq
      rcases hself q (hold q j hq) heq with hend | rfl | rfl
      · exact Or.inl hend
      · exact Or.inr (Or.inl rfl)
      · exact Or.inr (Or.inr rfl)
    rcases h.ends q j (hold q j hq) with hend | hawait | hfail
    · exact Or.inl (hafter q j hend)
    · exact hnew (Or.inl (hphase hawait))
    · exact hnew (Or.inr (hphase hfail))
  · rw [get_set_other hji]
    exact (h.ends q j (hold q j hq)).imp_left (hafter q j)

theorem waits_inv (hworks : phase.works = false)
    (hworks' : phase'.works = false) (hprogress : s.inProgress = true) {pending : Bool}
    (hpending : s.pending = true → pending = true) {log : List Entry}
    (hold : ∀ q j, At log q (.started j) → At s.log q (.started j))
    (hafter : ∀ q p, After s.log q p → After log q p)
    (hnew : ∀ p k, At log p (.coalesced k) → At s.log p (.coalesced k) ∨ pending = true) :
    Inv ⟨s.inProgress, pending, s.calls.set i phase', log⟩ := by
  have hother : ∀ {j : Nat} {x : Phase}, s.calls[j]? = some x → x.works = true → j ≠ i := by
    rintro j x hj hx rfl
    rw [Option.some.inj (hcall.symm.trans hj), hx] at hworks
    exact Bool.false_ne_true hworks.symm
  refine ⟨single_set h hcall fun hfalse => ?_, ?_, fun _ _ _ _ => hprogress, fun p k hp => ?_,
    ends_set h hcall hold (fun q j => hafter q _) fun q hq hphase => ?_⟩
  · rw [hworks'] at hfalse
    exact absurd hfalse Bool.false_ne_true
  · refine ⟨fun _ => ?_, fun _ => hprogress⟩
    obtain ⟨j, x, hj, hx⟩ := h.atWork.1 hprogress
    exact ⟨j, x, by rwa [get_set_other (hother hj hx)], hx⟩
  · have hmarked : pending = true → ∃ (j : Nat) (x : Phase), (s.calls.set i phase')[j]? = some x ∧
        x.works = true ∧ (x.begins = true ∨ pending = true) := by
      intro hmark
      obtain ⟨j, x, hj, hx⟩ := h.atWork.1 hprogress
      exact ⟨j, x, by rwa [get_set_other (hother hj hx)], hx, Or.inr hmark⟩
    rcases hnew p k hp with hp | hmark
    · rcases h.owed p k hp with hstarted | ⟨j, x, hj, hx, howed⟩
      · exact Or.inl (hafter p _ hstarted)
      · exact Or.inr ⟨j, x, by rwa [get_set_other (hother hj hx)], hx, howed.imp_right hpending⟩
    · exact Or.inr (hmarked hmark)
  · rcases hphase with rfl | rfl
    · exact absurd hworks (by simp [Phase.works])
    · exact absurd hworks (by simp [Phase.works])

omit hcall in
theorem begins_inv (hcall : s.calls[i]? = some .enter)
    (hworks : phase'.works = true) (hfree : s.inProgress = false) :
    Inv ⟨true, s.pending, s.calls.set i phase', s.log⟩ := by
  refine ⟨single_set h hcall fun _ => Or.inr hfree, ?_, fun _ _ _ _ => rfl, fun p k hp => ?_,
    ends_set h hcall (fun _ _ hq => hq) (fun _ _ hq => hq) fun q hq hphase => ?_⟩
  · exact ⟨fun _ => ⟨i, phase', get_set_self hcall, hworks⟩, fun _ => rfl⟩
  · rcases h.owed p k hp with hstarted | ⟨j, x, hj, hx, -⟩
    · exact Or.inl hstarted
    · rw [h.atWork.2 ⟨j, x, hj, hx⟩] at hfree
      exact absurd hfree.symm Bool.false_ne_true
  · rcases hphase with hphase | hphase
    · exact absurd hphase (by simp)
    · exact absurd hphase (by simp)

theorem owed_of_clean (hworks : phase.works = true)
    (hbegins : phase.begins = false) (hclean : s.pending = false) :
    ∀ p k, At s.log p (.coalesced k) → After s.log p Entry.isStarted := by
  intro p k hp
  rcases h.owed p k hp with hstarted | ⟨j, x, hj, hx, howed⟩
  · exact hstarted
  · obtain rfl := h.single j i x phase hj hcall hx hworks
    cases hcall.symm.trans hj
    rcases howed with howed | howed
    · rw [hbegins] at howed
      exact absurd howed Bool.false_ne_true
    · rw [hclean] at howed
      exact absurd howed Bool.false_ne_true

theorem owed_of_works (hworks : phase.works = true) :
    ∀ p k, At s.log p (.coalesced k) → After s.log p Entry.isStarted ∨
      phase.begins = true ∨ s.pending = true := by
  intro p k hp
  rcases h.owed p k hp with hstarted | ⟨j, x, hj, hx, howed⟩
  · exact Or.inl hstarted
  · obtain rfl := h.single j i x phase hj hcall hx hworks
    cases hcall.symm.trans hj
    exact Or.inr howed

end Goto

section Log

variable {log : List Entry} {x : Entry} {q i j : Nat}

theorem started_of_concat (hx : x ≠ .started j) (h : At (log ++ [x]) q (.started j)) :
    At log q (.started j) := by
  rcases at_concat.mp h with h | ⟨-, heq⟩
  · exact h
  · exact absurd heq.symm hx

theorem coalesced_of_concat (hx : x ≠ .coalesced j) (h : At (log ++ [x]) q (.coalesced j)) :
    At log q (.coalesced j) := by
  rcases at_concat.mp h with h | ⟨-, heq⟩
  · exact h
  · exact absurd heq.symm hx

end Log

/-! ## The steps -/

theorem call_inv {s : Coalesce} (h : s.Inv) : { s with calls := s.calls ++ [Phase.enter] }.Inv := by
  have hget : ∀ {j : Nat} {x : Phase}, s.calls[j]? = some x → (s.calls ++ [Phase.enter])[j]? = some x := by
    intro j x hj
    rw [List.getElem?_append_left (List.getElem?_eq_some_iff.1 hj).1]
    exact hj
  have hold : ∀ (j : Nat) (x : Phase), (s.calls ++ [Phase.enter])[j]? = some x → x ≠ .enter →
      s.calls[j]? = some x :=
    forall_concat (fun j x hj _ => hj) fun hne => absurd rfl hne
  have hworks : ∀ {x : Phase}, x.works = true → x ≠ .enter := by
    rintro x hx rfl
    exact Bool.false_ne_true hx
  refine ⟨fun j k a b hj hk ha hb => ?_, ?_, fun j x hj heq => ?_, fun p k hp => ?_,
    fun q j hq => ?_⟩
  · exact h.single j k a b (hold j a hj (hworks ha)) (hold k b hk (hworks hb)) ha hb
  · rw [h.atWork]
    constructor
    · rintro ⟨j, x, hj, hx⟩
      exact ⟨j, x, hget hj, hx⟩
    · rintro ⟨j, x, hj, hx⟩
      exact ⟨j, x, hold j x hj (hworks hx), hx⟩
  · subst heq
    exact h.marking j .mark (hold j .mark hj (by simp)) rfl
  · rcases h.owed p k hp with hstarted | ⟨j, x, hj, hx, howed⟩
    · exact Or.inl hstarted
    · exact Or.inr ⟨j, x, hget hj, hx, howed⟩
  · exact (h.ends q j hq).imp_right (Or.imp hget hget)

theorem advanceRun_inv {s s' : Coalesce} (h : s.Inv) {i : Nat} (ok : Bool) {phase : Phase}
    (hcall : s.calls[i]? = some phase) (hstep : s.advanceRun i ok phase = some s') : s'.Inv := by
  cases phase with
  | start =>
    cases hstep
    refine works_inv h hcall rfl rfl (fun p k hp => ?_) fun q j hq => ?_
    · -- the new run is after all that was owed
      have hold := coalesced_of_concat (by simp) hp
      exact Or.inl (after_concat_self hold.lt trivial)
    · rcases at_concat.mp hq with hq | ⟨-, heq⟩
      · by_cases hji : j = i
        · subst hji
          exact Or.inr (Or.inl (get_set_self hcall))
        · rw [get_set_other hji]
          exact (h.ends q j hq).imp_left fun hend => hend.concat _
      · obtain rfl : j = i := by simpa using heq
        exact Or.inr (Or.inl (get_set_self hcall))
  | await =>
    unfold advanceRun at hstep
    dsimp only at hstep
    split at hstep
    · cases hstep
      refine works_inv h hcall rfl rfl (fun p k hp => ?_) (ends_set h hcall
        (fun q j hq => started_of_concat (by simp) hq) (fun q j hend => hend.concat _)
        fun q hq _ => Or.inl (after_concat_self hq.lt (Or.inl rfl)))
      have howed := owed_of_works h hcall rfl p k (coalesced_of_concat (by simp) hp)
      rcases howed with hstarted | howed
      · exact Or.inl (hstarted.concat _)
      · exact Or.inr howed
    · cases hstep
      have howed := owed_of_works h hcall rfl
      exact works_inv h hcall rfl rfl howed
        (ends_set h hcall (fun _ _ hq => hq) (fun _ _ hq => hq) fun _ _ _ => Or.inr (Or.inr rfl))
  | _ => exact absurd hstep (by simp [advanceRun])

theorem goes_on {s : Coalesce} (h : s.Inv) {i : Nat} {phase phase' : Phase}
    (hcall : s.calls[i]? = some phase) (hworks : phase.works = true)
    (hworks' : phase'.works = true) (hphase : phase ≠ .await ∧ phase ≠ .fail) {pending : Bool}
    (howed : ∀ p k, At s.log p (.coalesced k) → After s.log p Entry.isStarted ∨
      phase'.begins = true ∨ pending = true) :
    Inv ⟨s.inProgress, pending, s.calls.set i phase', s.log⟩ := by
  refine works_inv h hcall hworks hworks' howed
    (ends_set h hcall (fun _ _ hq => hq) (fun _ _ hq => hq) fun q _ hor => ?_)
  rcases hor with heq | heq
  · exact absurd heq hphase.1
  · exact absurd heq hphase.2

theorem fails_inv {s : Coalesce} (h : s.Inv) {i : Nat} (hcall : s.calls[i]? = some .fail)
    (hclean : s.pending = false) (hmark : s.NoneMarks) (pending : Bool) :
    Inv ⟨false, pending, s.calls.set i .done, s.log ++ [.returned i]⟩ := by
  refine stops_inv h hcall rfl hmark (fun p k hp => ?_) (ends_set h hcall
    (fun q j hq => started_of_concat (by simp) hq) (fun q j hend => hend.concat _)
    fun q hq _ => Or.inl (after_concat_self hq.lt (Or.inr rfl)))
  exact (owed_of_clean h hcall rfl rfl hclean p k (coalesced_of_concat (by simp) hp)).concat _

theorem advanceResync_inv {s s' : Coalesce} (h : s.Inv) {i : Nat} {ok : Bool} {phase : Phase}
    (hcall : s.calls[i]? = some phase)
    (hmeets : phase = .release ∨ phase = .fail → s.pending = false ∧ s.NoneMarks)
    (hstep : s.advanceResync i ok phase = some s') : s'.Inv := by
  cases phase with
  | enter =>
    unfold advanceResync at hstep
    dsimp only at hstep
    split at hstep
    · next hprogress =>
      cases hstep
      exact waits_inv h hcall rfl rfl hprogress id (fun _ _ hq => hq) (fun _ _ hq => hq)
        fun _ _ hp => Or.inl hp
    · next hfree =>
      cases hstep
      exact begins_inv (s := s) h hcall rfl (by simpa using hfree)
  | mark =>
    cases hstep
    exact waits_inv h hcall rfl rfl (h.marking i .mark hcall rfl) (fun _ => rfl)
      (fun q j hq => started_of_concat (by simp) hq) (fun q p hafter => hafter.concat _)
      fun _ _ _ => Or.inr rfl
  | clear =>
    cases hstep
    exact goes_on h hcall rfl rfl (by simp) fun _ _ _ => Or.inr (Or.inl rfl)
  | test =>
    unfold advanceResync at hstep
    dsimp only at hstep
    split at hstep
    · cases hstep
      exact goes_on h hcall rfl rfl (by simp) fun _ _ _ => Or.inr (Or.inl rfl)
    · next hclean =>
      cases hstep
      exact goes_on h hcall rfl rfl (by simp) fun p k hp =>
        Or.inl (owed_of_clean h hcall rfl rfl (by simpa using hclean) p k hp)
  | release =>
    cases hstep
    obtain ⟨hclean, hmark⟩ := hmeets (Or.inl rfl)
    have howed := owed_of_clean h hcall rfl rfl hclean
    refine stops_inv (s := s) h hcall rfl hmark howed
      (ends_set h hcall (fun _ _ hq => hq) (fun _ _ hq => hq) fun q _ hor => ?_)
    rcases hor with heq | heq
    · exact absurd heq (by simp)
    · exact absurd heq (by simp)
  | fail =>
    cases hstep
    obtain ⟨hclean, hmark⟩ := hmeets (Or.inr rfl)
    exact fails_inv h hcall hclean hmark s.pending
  | start => exact advanceRun_inv h ok hcall hstep
  | await => exact advanceRun_inv h ok hcall hstep
  | done => exact advanceRun_inv h ok hcall hstep

theorem advanceRefresh_inv {s s' : Coalesce} (h : s.Inv) {i : Nat} {ok : Bool} {phase : Phase}
    (hcall : s.calls[i]? = some phase)
    (hmark : s.NoneMarks) (hmeets : phase = .fail → s.pending = false)
    (hstep : s.advanceRefresh i ok phase = some s') : s'.Inv := by
  cases phase with
  | enter =>
    unfold advanceRefresh at hstep
    dsimp only at hstep
    split at hstep
    · next hprogress =>
      cases hstep
      exact waits_inv h hcall rfl rfl hprogress (fun _ => rfl)
        (fun q j hq => started_of_concat (by simp) hq) (fun q p hafter => hafter.concat _)
        fun _ _ _ => Or.inr rfl
    · next hfree =>
      cases hstep
      exact begins_inv (s := s) h hcall rfl (by simpa using hfree)
  | test =>
    unfold advanceRefresh at hstep
    dsimp only at hstep
    split at hstep
    · cases hstep
      exact goes_on h hcall rfl rfl (by simp) fun _ _ _ => Or.inr (Or.inl rfl)
    · next hclean =>
      cases hstep
      have howed := owed_of_clean h hcall rfl rfl (by simpa using hclean)
      refine stops_inv (s := s) h hcall rfl hmark howed
        (ends_set h hcall (fun _ _ hq => hq) (fun _ _ hq => hq) fun q _ hor => ?_)
      rcases hor with heq | heq
      · exact absurd heq (by simp)
      · exact absurd heq (by simp)
  | fail =>
    cases hstep
    exact fails_inv h hcall (hmeets rfl) hmark false
  | start => exact advanceRun_inv h ok hcall hstep
  | await => exact advanceRun_inv h ok hcall hstep
  | done => exact advanceRun_inv h ok hcall hstep
  | mark => exact absurd hstep (by simp [advanceRefresh])
  | clear => exact absurd hstep (by simp [advanceRefresh])
  | release => exact absurd hstep (by simp [advanceRefresh])

theorem advanceRefresh_noneMarks {s s' : Coalesce} (h : s.NoneMarks) {i : Nat} {ok : Bool}
    {phase : Phase} (hstep : s.advanceRefresh i ok phase = some s') : s'.NoneMarks := by
  have hset : ∀ phase' : Phase, phase' ≠ .mark → ∀ other ∈ s.calls.set i phase', other ≠ .mark := by
    intro phase' hne other hother
    rcases List.mem_or_eq_of_mem_set hother with hother | rfl
    · exact h other hother
    · exact hne
  cases phase with
  | enter =>
    unfold advanceRefresh at hstep
    dsimp only at hstep
    split at hstep
    · cases hstep
      exact hset _ (by simp)
    · cases hstep
      exact hset _ (by simp)
  | test =>
    unfold advanceRefresh at hstep
    dsimp only at hstep
    split at hstep
    · cases hstep
      exact hset _ (by simp)
    · cases hstep
      exact hset _ (by simp)
  | fail =>
    cases hstep
    exact hset _ (by simp)
  | start =>
    cases hstep
    exact hset _ (by simp)
  | await =>
    unfold advanceRefresh advanceRun at hstep
    dsimp only at hstep
    split at hstep
    · cases hstep
      exact hset _ (by simp)
    · cases hstep
      exact hset _ (by simp)
  | mark => exact absurd hstep (by simp [advanceRefresh])
  | clear => exact absurd hstep (by simp [advanceRefresh])
  | release => exact absurd hstep (by simp [advanceRefresh])
  | done => exact absurd hstep (by simp [advanceRefresh, advanceRun])

theorem stepResync_inv {s s' : Coalesce} {e : Event} (h : s.Inv) (hmeets : s.MeetsResync e)
    (hstep : step advanceResync s e = some s') : s'.Inv := by
  cases e with
  | call =>
    cases hstep
    exact call_inv h
  | advance i ok =>
    obtain ⟨phase, hcall, hadvance⟩ := Option.bind_eq_some_iff.1 hstep
    refine advanceResync_inv h hcall (fun hor => hmeets ?_) hadvance
    rcases hor with rfl | rfl
    · exact Or.inl hcall
    · exact Or.inr hcall

theorem stepRefresh_inv {s s' : Coalesce} {e : Event} (h : s.Inv ∧ s.NoneMarks)
    (hmeets : s.MeetsRefresh e) (hstep : step advanceRefresh s e = some s') :
    s'.Inv ∧ s'.NoneMarks := by
  cases e with
  | call =>
    cases hstep
    refine ⟨call_inv h.1, fun phase hphase => ?_⟩
    rcases List.mem_append.1 hphase with hphase | hphase
    · exact h.2 phase hphase
    · rw [List.mem_singleton.1 hphase]
      simp
  | advance i ok =>
    obtain ⟨phase, hcall, hadvance⟩ := Option.bind_eq_some_iff.1 hstep
    refine ⟨advanceRefresh_inv h.1 hcall h.2 (fun heq => hmeets (heq ▸ hcall)) hadvance, ?_⟩
    exact advanceRefresh_noneMarks h.2 hadvance

end Coalesce

end Wakterm.Client.Coalescing
