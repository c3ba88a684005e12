import Mathlib.Data.Finset.Card
import Wakterm.MuxServer.Alerts

/-!
# Which states reach the client

Of the alerts that are pushed between two drains, those that tell a state are merged, so each state
waits at most once and with its last value.
-/

namespace Wakterm.Theorems.Alerts

open Wakterm.MuxServer

/-- The alert tells the state of this key. -/
def hasKey (key : AlertStateKey) (a : Alert) : Bool := alertStateKey a = some key

/-- The keys of a list of alerts. -/
def keys (as : List Alert) : List AlertStateKey := as.filterMap alertStateKey

/-- The last of the alerts about a state. -/
def lastWith (key : AlertStateKey) (as : List Alert) : Option Alert :=
  (as.filter (hasKey key)).getLast?

/-- How many alerts would wait if the list had no bound: all events, and each
state once. -/
def backlog (as : List Alert) : Nat :=
  (as.filter fun a => (alertStateKey a).isNone).length + (keys as).toFinset.card

/-- The state is first told while there is room. -/
def InTime (key : AlertStateKey) (as : List Alert) : Prop :=
  ∃ pre a post, as = pre ++ a :: post ∧ alertStateKey a = some key ∧ key ∉ keys pre ∧
    backlog pre < maxPendingPaneAlerts

/-- Of each state told, one alert is drained, and it is the last. -/
def Kept (as drained : List Alert) : Prop :=
  ∀ key ∈ keys as, ∃ a, drained.filter (hasKey key) = [a] ∧ lastWith key as = some a

/-! ## One more alert -/

variable {key : AlertStateKey} {as st : List Alert} {a : Alert}

theorem mem_keys : key ∈ keys as ↔ ∃ a ∈ as, alertStateKey a = some key := by
  rw [keys, List.mem_filterMap]

theorem mem_keys_of_filter (h : a ∈ as.filter (hasKey key)) : key ∈ keys as := by
  rw [List.mem_filter, hasKey, decide_eq_true_eq] at h
  exact mem_keys.mpr ⟨a, h⟩

theorem keys_append (as bs : List Alert) : keys (as ++ bs) = keys as ++ keys bs := by
  rw [keys, keys, keys, List.filterMap_append]

theorem keys_singleton_none (h : alertStateKey a = none) : keys [a] = [] := by
  simp [keys, h]

theorem keys_singleton_some (h : alertStateKey a = some key) : keys [a] = [key] := by
  simp [keys, h]

theorem backlog_event (h : alertStateKey a = none) : backlog (as ++ [a]) = backlog as + 1 := by
  simp only [backlog, keys_append, keys_singleton_none h, List.append_nil, List.filter_append,
    List.length_append, List.filter_cons, h, Option.isNone_none, if_true, List.filter_nil,
    List.length_singleton]
  omega

theorem backlog_old (h : alertStateKey a = some key) (hold : key ∈ keys as) :
    backlog (as ++ [a]) = backlog as := by
  have hset : (keys as ++ [key]).toFinset = (keys as).toFinset := by
    ext k
    simp only [List.mem_toFinset, List.mem_append, List.mem_singleton]
    exact ⟨fun hk => hk.elim id fun he => he ▸ hold, .inl⟩
  simp only [backlog, keys_append, keys_singleton_some h, hset, List.filter_append,
    List.filter_cons, h, Option.isNone_some, Bool.false_eq_true, if_false, List.filter_nil,
    List.append_nil]

theorem backlog_new (h : alertStateKey a = some key) (hnew : key ∉ keys as) :
    backlog (as ++ [a]) = backlog as + 1 := by
  have hset : (keys as ++ [key]).toFinset = insert key (keys as).toFinset := by
    ext k
    simp only [List.mem_toFinset, List.mem_append, List.mem_singleton, Finset.mem_insert]
    exact or_comm
  have hcard : (insert key (keys as).toFinset).card = (keys as).toFinset.card + 1 :=
    Finset.card_insert_of_notMem fun hm => hnew (List.mem_toFinset.mp hm)
  simp only [backlog, keys_append, keys_singleton_some h, hset, hcard, List.filter_append,
    List.filter_cons, h, Option.isNone_some, Bool.false_eq_true, if_false, List.filter_nil,
    List.append_nil]
  omega

theorem backlog_le (as : List Alert) (a : Alert) : backlog as ≤ backlog (as ++ [a]) := by
  cases h : alertStateKey a with
  | none => exact Nat.le_of_lt (backlog_event h ▸ Nat.lt_succ_self _)
  | some key =>
    by_cases hold : key ∈ keys as
    · exact Nat.le_of_eq (backlog_old h hold).symm
    · exact Nat.le_of_lt (backlog_new h hold ▸ Nat.lt_succ_self _)

theorem lastWith_append (key : AlertStateKey) (as : List Alert) (a : Alert) :
    lastWith key (as ++ [a]) = if hasKey key a then some a else lastWith key as := by
  unfold lastWith
  rw [List.filter_append, List.filter_cons, List.filter_nil]
  split
  · exact List.getLast?_concat
  · rw [List.append_nil]

theorem inTime_append (key : AlertStateKey) (as : List Alert) (a : Alert) :
    InTime key (as ++ [a]) ↔ InTime key as ∨
      alertStateKey a = some key ∧ key ∉ keys as ∧ backlog as < maxPendingPaneAlerts := by
  constructor
  · rintro ⟨pre, b, post, hsplit, hkey, hnew, hroom⟩
    rcases List.eq_nil_or_concat post with rfl | ⟨post', last, rfl⟩
    · obtain ⟨rfl, hlast⟩ := List.append_inj' hsplit rfl
      obtain rfl := List.singleton_inj.mp hlast
      exact .inr ⟨hkey, hnew, hroom⟩
    · rw [List.concat_eq_append, ← List.cons_append, ← List.append_assoc] at hsplit
      exact .inl ⟨pre, b, post', (List.append_inj' hsplit rfl).1, hkey, hnew, hroom⟩
  · rintro (⟨pre, b, post, rfl, hkey, hnew, hroom⟩ | ⟨hkey, hnew, hroom⟩)
    · exact ⟨pre, b, post ++ [a], by rw [List.append_assoc, List.cons_append], hkey, hnew, hroom⟩
    · exact ⟨as, a, [], rfl, hkey, hnew, hroom⟩

theorem pushAlert_cases (st : List Alert) (a : Alert) :
    (∃ key l x r, alertStateKey a = some key ∧ st = l ++ x :: r ∧ alertStateKey x = some key ∧
      pushAlert st a = l ++ a :: r) ∨ (∀ key, alertStateKey a = some key → key ∉ keys st) ∧
      (maxPendingPaneAlerts ≤ st.length ∧ pushAlert st a = st ∨
        st.length < maxPendingPaneAlerts ∧ pushAlert st a = st ++ [a]) := by
  have happend : maxPendingPaneAlerts ≤ st.length ∧ appendAlert st a = st ∨
      st.length < maxPendingPaneAlerts ∧ appendAlert st a = st ++ [a] := by
    unfold appendAlert
    split
    · rename_i hfull
      exact .inl ⟨hfull, rfl⟩
    · rename_i hroom
      exact .inr ⟨Nat.lt_of_not_le hroom, rfl⟩
  unfold pushAlert
  cases hkey : alertStateKey a with
  | none =>
    refine .inr ⟨?_, happend⟩
    intro key h
    cases h
  | some key =>
    dsimp only
    cases hfind : st.findIdx? fun existing => alertStateKey existing = some key with
    | none =>
      simp only
      refine .inr ⟨?_, happend⟩
      intro key' h hmem
      cases h
      obtain ⟨x, hx, hxkey⟩ := mem_keys.mp hmem
      have hnot := List.findIdx?_eq_none_iff.mp hfind x hx
      simp only [hxkey, decide_true, reduceCtorEq] at hnot
    | some i =>
      obtain ⟨hi, hpred, _⟩ := List.findIdx?_eq_some_iff_getElem.mp hfind
      simp only
      refine .inl ⟨key, st.take i, st[i], st.drop (i + 1), rfl, ?_, ?_, ?_⟩
      · rw [List.getElem_cons_drop, List.take_append_drop]
      · exact decide_eq_true_eq.mp hpred
      · exact List.set_eq_take_append_cons_drop.trans (if_pos hi)

/-! ## Any number of alerts -/

/-- The list after the alerts `as`, which began empty. -/
structure Waiting (as st : List Alert) : Prop where
  length : st.length = min maxPendingPaneAlerts (backlog as)
  one : ∀ key ∈ keys st, ∃ a, st.filter (hasKey key) = [a] ∧ lastWith key as = some a
  all : backlog as < maxPendingPaneAlerts → ∀ key ∈ keys as, key ∈ keys st
  inTime : ∀ key, key ∈ keys st ↔ InTime key as

theorem hasKey_iff : hasKey key a = true ↔ alertStateKey a = some key := decide_eq_true_iff

theorem Waiting.replace {l r : List Alert} {x : Alert} (h : Waiting as (l ++ x :: r))
    (hx : alertStateKey x = some key) (ha : alertStateKey a = some key) :
    Waiting (as ++ [a]) (l ++ a :: r) := by
  have hkeys : keys (l ++ a :: r) = keys (l ++ x :: r) := by
    simp only [keys, List.filterMap_append, List.filterMap_cons, hx, ha]
  have hmem : key ∈ keys (l ++ x :: r) :=
    mem_keys.mpr ⟨x, List.mem_append_right _ List.mem_cons_self, hx⟩
  have hold : key ∈ keys as := by
    obtain ⟨y, _, hlast⟩ := h.one key hmem
    exact mem_keys_of_filter (List.mem_of_getLast? hlast)
  have hlen : (l ++ a :: r).length = (l ++ x :: r).length := by
    rw [List.length_append, List.length_append, List.length_cons, List.length_cons]
  refine ⟨?_, ?_, ?_, ?_⟩
  · rw [hlen, h.length, backlog_old ha hold]
  · intro key' hkey'
    rw [hkeys] at hkey'
    obtain ⟨y, hone, hlast⟩ := h.one key' hkey'
    by_cases hk : key' = key
    · -- the one alert about this state is replaced
      subst hk
      refine ⟨a, ?_, ?_⟩
      · have hcount := congrArg List.length hone
        simp only [List.filter_append, List.filter_cons, hasKey_iff.mpr hx, if_true,
          List.length_append, List.length_cons, List.length_nil] at hcount
        have hl : l.filter (hasKey key') = [] := List.length_eq_zero_iff.mp (by omega)
        have hr : r.filter (hasKey key') = [] := List.length_eq_zero_iff.mp (by omega)
        rw [List.filter_append, List.filter_cons, hasKey_iff.mpr ha, hl, hr]
        rfl
      · rw [lastWith_append, if_pos (hasKey_iff.mpr ha)]
    · have hne : ∀ y, alertStateKey y = some key → hasKey key' y = false := by
        intro y hy
        rw [hasKey, hy]
        exact decide_eq_false fun he => hk (Option.some.inj he).symm
      refine ⟨y, ?_, ?_⟩
      · rw [← hone]
        simp only [List.filter_append, List.filter_cons, hne x hx, hne a ha, Bool.false_eq_true,
          if_false]
      · rw [lastWith_append, hne a ha]
        exact hlast
  · intro hroom key' hkey'
    rw [backlog_old ha hold] at hroom
    rw [hkeys]
    refine h.all hroom key' ?_
    rw [keys_append, keys_singleton_some ha, List.mem_append, List.mem_singleton] at hkey'
    exact hkey'.elim id fun he => he ▸ hold
  · intro key'
    rw [hkeys, h.inTime, inTime_append]
    refine ⟨.inl, ?_⟩
    rintro (h' | ⟨hkey', hnew, _⟩)
    · exact h'
    · rw [ha] at hkey'
      exact absurd (Option.some.inj hkey' ▸ hold) hnew

theorem Waiting.drop (h : Waiting as st) (hnew : ∀ key, alertStateKey a = some key → key ∉ keys st)
    (hfull : maxPendingPaneAlerts ≤ st.length) : Waiting (as ++ [a]) st := by
  have hbacklog : maxPendingPaneAlerts ≤ backlog as := by
    rw [h.length] at hfull
    exact (Nat.le_min.mp hfull).2
  have hmore := backlog_le as a
  have hfull' : ¬ backlog (as ++ [a]) < maxPendingPaneAlerts := by omega
  refine ⟨?_, ?_, fun hroom => absurd hroom hfull', ?_⟩
  · rw [h.length, Nat.min_eq_left hbacklog, Nat.min_eq_left (Nat.le_of_not_lt hfull')]
  · intro key hkey
    obtain ⟨y, hone, hlast⟩ := h.one key hkey
    refine ⟨y, hone, ?_⟩
    rw [lastWith_append, if_neg, hlast]
    exact fun hk => hnew key (hasKey_iff.mp hk) hkey
  · intro key
    rw [h.inTime, inTime_append]
    exact ⟨.inl, fun h' => h'.elim id fun hlate => absurd hlate.2.2 (Nat.not_lt.mpr hbacklog)⟩

theorem Waiting.append (h : Waiting as st)
    (hnew : ∀ key, alertStateKey a = some key → key ∉ keys st)
    (hroom : st.length < maxPendingPaneAlerts) : Waiting (as ++ [a]) (st ++ [a]) := by
  have hbacklog : backlog as < maxPendingPaneAlerts := by
    rw [h.length] at hroom
    omega
  have hfresh : ∀ key, alertStateKey a = some key → key ∉ keys as :=
    fun key hkey hmem => hnew key hkey (h.all hbacklog key hmem)
  have hmore : backlog (as ++ [a]) = backlog as + 1 := by
    cases hkey : alertStateKey a with
    | none => exact backlog_event hkey
    | some key => exact backlog_new hkey (hfresh key hkey)
  refine ⟨?_, ?_, ?_, ?_⟩
  · rw [List.length_append, List.length_singleton, h.length, hmore]
    omega
  · intro key hkey
    rw [keys_append, List.mem_append] at hkey
    rw [List.filter_append, lastWith_append, List.filter_cons, List.filter_nil]
    by_cases hk : hasKey key a = true
    · -- this is the first alert about the state
      have hnone : st.filter (hasKey key) = [] := by
        rw [List.filter_eq_nil_iff]
        intro x hx hxkey
        exact hnew key (hasKey_iff.mp hk) (mem_keys.mpr ⟨x, hx, hasKey_iff.mp hxkey⟩)
      refine ⟨a, ?_, if_pos hk⟩
      rw [hnone, if_pos hk, List.nil_append]
    · have hst : key ∈ keys st := by
        refine hkey.elim id fun hsingle => absurd ?_ hk
        obtain ⟨x, hx, hxkey⟩ := mem_keys.mp hsingle
        rw [List.mem_singleton.mp hx] at hxkey
        exact hasKey_iff.mpr hxkey
      obtain ⟨y, hone, hlast⟩ := h.one key hst
      rw [if_neg hk, if_neg hk, List.append_nil]
      exact ⟨y, hone, hlast⟩
  · intro _ key hkey
    rw [keys_append, List.mem_append] at hkey ⊢
    exact hkey.imp (h.all hbacklog key) id
  · intro key
    rw [keys_append, List.mem_append, h.inTime, inTime_append]
    refine or_congr Iff.rfl ?_
    rw [mem_keys]
    constructor
    · rintro ⟨x, hx, hxkey⟩
      obtain rfl := List.mem_singleton.mp hx
      exact ⟨hxkey, hfresh key hxkey, hbacklog⟩
    · rintro ⟨hkey, _⟩
      exact ⟨a, List.mem_singleton.mpr rfl, hkey⟩

theorem Waiting.push (h : Waiting as st) (a : Alert) : Waiting (as ++ [a]) (pushAlert st a) := by
  rcases pushAlert_cases st a with ⟨key, l, x, r, ha, rfl, hx, hpush⟩ |
    ⟨hnew, ⟨hfull, hpush⟩ | ⟨hroom, hpush⟩⟩
  · rw [hpush]
    exact h.replace hx ha
  · rw [hpush]
    exact h.drop hnew hfull
  · rw [hpush]
    exact h.append hnew hroom

theorem waiting_foldl (as : List Alert) : Waiting as (as.foldl pushAlert []) := by
  induction as using List.reverseRecOn with
  | nil =>
    refine ⟨rfl, fun key h => absurd h List.not_mem_nil, fun _ key h => absurd h List.not_mem_nil,
      fun key => ⟨fun h => absurd h List.not_mem_nil, ?_⟩⟩
    rintro ⟨pre, a, post, hsplit, _⟩
    exact absurd hsplit.symm (List.append_ne_nil_of_right_ne_nil _ (List.cons_ne_nil _ _))
  | append_singleton as a ih =>
    rw [List.foldl_append]
    exact ih.push a

theorem Waiting.kept_iff (h : Waiting as st) : Kept as st ↔ ∀ key ∈ keys as, InTime key as := by
  constructor
  · intro hkept key hkey
    obtain ⟨a, hone, _⟩ := hkept key hkey
    refine (h.inTime key).mp (mem_keys_of_filter (a := a) ?_)
    rw [hone]
    exact List.mem_singleton.mpr rfl
  · intro htime key hkey
    exact h.one key ((h.inTime key).mpr (htime key hkey))

/-! ## From drain to drain -/

theorem collectAlerts_snd {Palette : Type} (q : PaneAlerts) (paneId : Nat) (palette : Palette)
    (generation : Nat) : (q.collectAlerts paneId palette generation).2 = ⟨true, generation, []⟩ := by
  unfold PaneAlerts.collectAlerts PaneAlerts.announcePalette PaneAlerts.pushNotification
  obtain ⟨sent, configGeneration, notifications⟩ := q
  by_cases hgen : configGeneration = generation
  · subst hgen
    cases sent <;> simp
  · simp [hgen]

theorem foldl_pushNotification (alerts : List Alert) (p : PaneAlerts) :
    alerts.foldl PaneAlerts.pushNotification p =
      { p with notifications := alerts.foldl pushAlert p.notifications } := by
  induction alerts generalizing p with
  | nil => rfl
  | cons a alerts ih => exact ih (p.pushNotification a)

/-- What is pushed between two drains: the alerts of the terminal, and one of the
drain itself when the configuration is another one. -/
def pushedBetween (g₀ g₁ : Nat) (alerts : List Alert) : List Alert :=
  alerts ++ if g₀ = g₁ then [] else [.paletteChanged]

def drained (g₀ g₁ : Nat) (alerts : List Alert) : List Alert :=
  (pushedBetween g₀ g₁ alerts).foldl pushAlert []

theorem collectAlerts_drained {Palette : Type} (q : PaneAlerts) (paneId : Nat)
    (palette palette' : Palette) (g₀ g₁ : Nat) (alerts : List Alert) :
    ((alerts.foldl PaneAlerts.pushNotification
        (q.collectAlerts paneId palette g₀).2).collectAlerts paneId palette' g₁).1 =
      (drained g₀ g₁ alerts).map (PaneAlerts.alertPdu paneId palette') := by
  rw [collectAlerts_snd, foldl_pushNotification]
  unfold PaneAlerts.collectAlerts PaneAlerts.announcePalette PaneAlerts.pushNotification drained
    pushedBetween
  by_cases hgen : g₀ = g₁
  · simp [hgen]
  · simp [hgen]

/-- **When no state is lost.** Between two drains, whatever the terminal announces:
the second drain sends, of every state told, exactly the last alert if and only if
every state was first told while fewer than 256 alerts, with each event counted
and each state counted once, had been pushed. -/
theorem alerts_kept_iff {Palette : Type} (q : PaneAlerts) (paneId : Nat)
    (palette palette' : Palette) (g₀ g₁ : Nat) (alerts : List Alert) :
    ((alerts.foldl PaneAlerts.pushNotification
        (q.collectAlerts paneId palette g₀).2).collectAlerts paneId palette' g₁).1 =
      (drained g₀ g₁ alerts).map (PaneAlerts.alertPdu paneId palette') ∧
    (Kept (pushedBetween g₀ g₁ alerts) (drained g₀ g₁ alerts) ↔
      ∀ key ∈ keys (pushedBetween g₀ g₁ alerts), InTime key (pushedBetween g₀ g₁ alerts)) :=
  ⟨collectAlerts_drained q paneId palette palette' g₀ g₁ alerts,
    (waiting_foldl (pushedBetween g₀ g₁ alerts)).kept_iff⟩

/-- A bell rung often enough, and then a new working directory. -/
def manyBells : List Alert :=
  List.replicate maxPendingPaneAlerts .bell ++ [.currentWorkingDirectoryChanged]

/-- **A state is lost behind events.** -/
theorem manyBells_lose_a_state : ¬ ∀ (g₀ g₁ : Nat) (alerts : List Alert),
      Kept (pushedBetween g₀ g₁ alerts) (drained g₀ g₁ alerts) := by
  intro h
  obtain ⟨a, hone, _⟩ := h 0 0 manyBells .currentWorkingDirectory (by decide +kernel)
  have hnone : (drained 0 0 manyBells).filter (hasKey .currentWorkingDirectory) = [] := by
    decide +kernel
  rw [hnone] at hone
  cases hone

end Wakterm.Theorems.Alerts
