import Mathlib.Data.List.Infix
import Wakterm.Lfucache.Logic.Containers

/-!
# The operations of the cache

One lemma for each function of the cache: on a cache that meets `Inv` it returns, the new cache
meets `Inv`, and what the cache holds for a key changes as the events say (`Tracks`).
-/

namespace Wakterm.Lfucache

open Wakterm.Machine

variable {K V : Type} {env : Env K} {s : LfuCache K V}

def Eviction.key (ev : Eviction K V) : Option K := (ev.decayed.heap ev.victim).map (·.key)

/-- The victim has the smallest frequency after the decay step. -/
def Minimal (ev : Eviction K V) : Prop :=
  ev.victim ∈ ev.decayed.recencyIndex ∧
    ∀ q ∈ ev.decayed.recencyIndex, freqOf ev.decayed.heap ev.victim ≤ freqOf ev.decayed.heap q

/-- The parts of the cache that eviction does not change. -/
structure Frame (s s' : LfuCache K V) : Prop where
  cap : s'.cap = s.cap
  tick : s'.tick = s.tick
  numBuckets : s'.buckets.length = s.buckets.length

theorem Frame.trans {s₁ s₂ s₃ : LfuCache K V} (h : Frame s₁ s₂) (h' : Frame s₂ s₃) : Frame s₁ s₃ :=
  ⟨h'.cap.trans h.cap, h'.tick.trans h.tick, h'.numBuckets.trans h.numBuckets⟩

variable {heap : Nat → Option (Entry K V)}

theorem Placed.set_cons {buckets : List (List Nat)} (h : Placed env heap buckets) {i p : Nat}
    {bucket : List Nat} {e : Entry K V} (hb : buckets[i]? = some bucket) (he : heap p = some e)
    (hi : env.hash e.key % buckets.length = i) : Placed env heap (buckets.set i (p :: bucket)) := by
  intro j c hc q hq d hd
  rw [List.length_set]
  rw [List.getElem?_set] at hc
  split at hc
  · rename_i hij
    subst hij
    split at hc
    · rw [Option.some.injEq] at hc
      subst hc
      rcases List.mem_cons.mp hq with rfl | hq
      · rw [he, Option.some.injEq] at hd
        rw [← hd]
        exact hi
      · exact h i bucket hb q hq d hd
    · cases hc
  · exact h j c hc q hq d hd

theorem rehash_eq (ps : List Nat) (buckets : List (List Nat))
    (hlive : ∀ p ∈ ps, ∃ e, heap p = some e) (hpos : 0 < buckets.length)
    (hplaced : Placed env heap buckets) :
    ∃ buckets', LfuCache.rehash env heap ps buckets = some buckets' ∧
      buckets'.length = buckets.length ∧ buckets'.flatten.Perm (ps ++ buckets.flatten) ∧
      Placed env heap buckets' := by
  induction ps generalizing buckets with
  | nil => exact ⟨buckets, rfl, rfl, List.Perm.refl _, hplaced⟩
  | cons p ps ih =>
    obtain ⟨e, he⟩ := hlive p List.mem_cons_self
    have hlt : env.hash e.key % buckets.length < buckets.length := Nat.mod_lt _ hpos
    have hb := List.getElem?_eq_getElem hlt
    obtain ⟨buckets', hre, hlen, hperm, hpl⟩ := ih
      (buckets.set (env.hash e.key % buckets.length)
        (p :: buckets[env.hash e.key % buckets.length]))
      (fun q hq => hlive q (List.mem_cons_of_mem _ hq))
      (by rw [List.length_set]; exact hpos) (hplaced.set_cons hb he rfl)
    refine ⟨buckets', ?_, ?_, ?_, hpl⟩
    · unfold LfuCache.rehash
      simp only [he, hb, Option.bind_eq_bind, Option.bind_some]
      exact hre
    · rw [hlen, List.length_set]
    · refine hperm.trans ?_
      refine ((flatten_set_cons hb p).append_left ps).trans ?_
      exact List.perm_middle

theorem flatten_replicate_nil (n : Nat) : (List.replicate n ([] : List Nat)).flatten = [] := by
  simp

theorem placed_replicate_nil (heap : Nat → Option (Entry K V)) (n : Nat) :
    Placed env heap (List.replicate n []) := by
  intro i bucket hb p hp
  have hnil := List.eq_of_mem_replicate (List.mem_of_getElem? hb)
  rw [hnil] at hp
  cases hp

theorem growHash_eq (h : Inv env s) :
    ∃ buckets, s.growHash env = some { s with buckets := buckets } ∧
      Inv env { s with buckets := buckets } := by
  have hpos : 0 < (List.replicate (s.buckets.length * 2) ([] : List Nat)).length := by
    have := h.someBucket
    rw [List.length_replicate]
    omega
  obtain ⟨buckets, hre, hlen, hperm, hplaced⟩ := rehash_eq s.buckets.flatten
    (List.replicate (s.buckets.length * 2) [])
    (fun p hp => by
      obtain ⟨e, he, -⟩ := h.live p (h.mem_buckets.mp hp)
      exact ⟨e, he⟩)
    hpos (placed_replicate_nil s.heap _)
  rw [flatten_replicate_nil, List.append_nil] at hperm
  refine ⟨buckets, ?_, h.rebucket hperm hplaced (by omega)⟩
  simp only [LfuCache.growHash, hre, Option.bind_eq_bind, Option.bind_some, Option.pure_def]

/-- **The decay step returns**, and the division in it is by two or more. -/
theorem decayLeastRecent_eq (h : Inv env s) :
    ∃ s', s.decayLeastRecent env = some s' ∧ Inv env s' ∧ Frame s s' ∧ s'.len = s.len ∧
      ∀ k v, Holds s' k v ↔ Holds s k v := by
  have hsame : Frame s s := ⟨rfl, rfl, rfl⟩
  unfold LfuCache.decayLeastRecent
  cases hlast : s.recencyIndex.getLast? with
  | none => exact ⟨s, rfl, h, hsame, rfl, fun _ _ => Iff.rfl⟩
  | some p =>
    have hp : p ∈ s.recencyIndex := List.mem_of_getLast? hlast
    obtain ⟨e, he, htick⟩ := h.live p hp
    simp only [he, Option.bind_eq_bind, Option.bind_some]
    by_cases hfreq : e.freq = 0
    · rw [if_pos hfreq]
      exact ⟨s, rfl, h, hsame, rfl, fun _ _ => Iff.rfl⟩
    rw [if_neg hfreq]
    generalize LfuCache.delta s.tick e.lastTick = delta
    by_cases hdelta : delta ≤ 1
    · rw [if_pos hdelta]
      exact ⟨s, rfl, h, hsame, rfl, fun _ _ => Iff.rfl⟩
    have hdiv : div e.freq delta = some (e.freq / delta) := if_neg (by omega)
    rw [if_neg hdelta, unlink_eq (h.mem_frequency.mpr hp), Option.bind_some, hdiv,
      Option.bind_some]
    have hrec : (p :: s.recencyIndex.dropLast).Perm s.recencyIndex := by
      have hsplit := List.dropLast_append_getLast? p hlast
      have hrot : (p :: s.recencyIndex.dropLast).Perm (s.recencyIndex.dropLast ++ [p]) :=
        (List.perm_append_singleton p _).symm
      rwa [hsplit] at hrot
    refine ⟨s.touched env p
      { e with freq := e.freq / delta }
      (p :: s.recencyIndex.dropLast) s.tick, rfl, ?_, ⟨rfl, rfl, rfl⟩, rfl, ?_⟩
    · exact h.touch _ hp he rfl hrec (Nat.le_refl _) htick h.tick
    · exact holds_touched _ he rfl rfl hrec

theorem decr_eq {n : Nat} (h : 0 < n) : decr n = some (n - 1) := if_pos h

theorem Inv.lowerBound (h : Inv env s) (hpos : 0 < s.len) :
    ∃ p, s.frequencyIndex.find? (fun p => 0 ≤ freqOf s.heap p) = some p ∧ Minimal ⟨s, p⟩ := by
  have hlen : s.frequencyIndex.length = s.len := h.frequency.length_eq.trans h.len.symm
  cases hl : s.frequencyIndex with
  | nil =>
    rw [hl, List.length_nil] at hlen
    omega
  | cons p ps =>
    have hsorted := h.sorted
    rw [hl, List.pairwise_cons] at hsorted
    refine ⟨p, ?_, ?_, ?_⟩
    · rw [List.find?_cons_of_pos]
      exact decide_eq_true (Nat.zero_le _)
    · apply h.mem_frequency.mp
      rw [hl]
      exact List.mem_cons_self
    · intro q hq
      have hq' : q ∈ p :: ps := by
        rw [← hl]
        exact h.mem_frequency.mpr hq
      rcases List.mem_cons.mp hq' with rfl | hq'
      · exact Nat.le_refl _
      · exact hsorted.1 q hq'

variable [DecidableEq K]

/-- What a key maps to after an event, when it mapped to `c` before. -/
def Event.update (k : K) (c : Option V) : Event K V → Option V
  | .put k' v => if k' = k then some v else c
  | .evict ev => if ev.key = some k then none else c
  | .clear => none

/-- What the cache holds for `k` is `c`. -/
def Tracks (s : LfuCache K V) (k : K) (c : Option V) : Prop := ∀ v, Holds s k v ↔ c = some v

/-- **`evict_one` removes an entry with the smallest frequency after the decay step.** -/
theorem evictOne_eq (h : Inv env s) (hpos : 0 < s.len) :
    ∃ s' ev, s.evictOne env = some (s', [.evict ev]) ∧ s.decayLeastRecent env = some ev.decayed ∧
      Inv env s' ∧ Frame s s' ∧ s'.len = s.len - 1 ∧ Minimal ev ∧
      ∀ k c, Tracks s k c → Tracks s' k (Event.update k c (.evict ev)) := by
  obtain ⟨d, hdecay, hd, hframe, hlen, hholds⟩ := decayLeastRecent_eq h
  obtain ⟨p, hfind, hmin⟩ := hd.lowerBound (by omega)
  have hp : p ∈ d.recencyIndex := hmin.1
  obtain ⟨e, he, -⟩ := hd.live p hp
  obtain ⟨bucket, hb, -, hall⟩ := hd.bucket e.key
  have hpb : p ∈ bucket := hall p hp e he rfl
  refine ⟨d.detached p (env.hash e.key % d.buckets.length) bucket, ⟨d, p⟩, ?_, hdecay,
    hd.detach hp hb hpb, ?_, ?_, hmin, ?_⟩
  · simp only [LfuCache.evictOne, hdecay, hfind, unlink_eq (hd.mem_frequency.mpr hp), he,
      bucketForKey_eq hd.someBucket, hb, unlink_eq hpb, unlink_eq hp,
      decr_eq (show 0 < d.len by omega), Option.bind_eq_bind, Option.bind_some, Option.pure_def]
    rfl
  · refine hframe.trans ⟨rfl, rfl, ?_⟩
    show (d.buckets.set _ _).length = d.buckets.length
    rw [List.length_set]
  · show d.len - 1 = s.len - 1
    rw [hlen]
  · intro k c hc v
    rw [hd.holds_detached hp he, hholds, hc v]
    have hkey : (Eviction.key ⟨d, p⟩ : Option K) = some e.key := by
      show (d.heap p).map (·.key) = some e.key
      rw [he]
      rfl
    simp only [Event.update, hkey, Option.some.injEq]
    by_cases hk : k = e.key
    · simp [hk]
    · simp [hk, Ne.symm hk]

/-- Evictions, each of an entry with the smallest frequency. -/
def Evictions (events : List (Event K V)) : Prop :=
  ∀ event ∈ events, ∃ ev, event = .evict ev ∧ Minimal ev

theorem evictWhile_eq {tooFull : Nat → Bool} (hover : tooFull 0 = false) (fuel : Nat)
    {s : LfuCache K V} (h : Inv env s) (hfuel : s.len < fuel) :
    ∃ s' events, LfuCache.evictWhile env tooFull fuel s = some (s', events) ∧ Inv env s' ∧
      Frame s s' ∧ s'.len ≤ s.len ∧ tooFull s'.len = false ∧ Evictions events ∧
      ∀ k c, Tracks s k c → Tracks s' k (events.foldl (Event.update k) c) := by
  induction fuel generalizing s with
  | zero => omega
  | succ fuel ih =>
    unfold LfuCache.evictWhile
    cases ho : tooFull s.len with
    | false =>
      exact ⟨s, [], by rw [if_neg (by decide)], h, ⟨rfl, rfl, rfl⟩, Nat.le_refl _, ho,
        fun _ hm => absurd hm List.not_mem_nil, fun _ _ hc => hc⟩
    | true =>
      have hpos : 0 < s.len := by
        rcases Nat.eq_zero_or_pos s.len with h0 | h0
        · rw [h0, hover] at ho
          cases ho
        · exact h0
      obtain ⟨s₁, ev, hone, -, h₁, hf₁, hl₁, hmin, ht₁⟩ := evictOne_eq h hpos
      obtain ⟨s₂, events, hrest, h₂, hf₂, hl₂, ho₂, hev, ht₂⟩ := ih h₁ (by omega)
      refine ⟨s₂, .evict ev :: events, ?_, h₂, hf₁.trans hf₂, by omega, ho₂, ?_, ?_⟩
      · simp only [if_true, hone, hrest, Option.bind_eq_bind, Option.bind_some,
          Option.pure_def, List.singleton_append]
      · intro event hm
        rcases List.mem_cons.mp hm with rfl | hm
        · exact ⟨ev, rfl, hmin⟩
        · exact hev event hm
      · intro k c hc
        exact ht₂ k _ (ht₁ k c hc)

omit [DecidableEq K] in
theorem evictWhile_endless {tooFull : Nat → Bool} (hover : ∀ n, tooFull n = true) (fuel : Nat)
    (s : LfuCache K V) : LfuCache.evictWhile env tooFull fuel s = none := by
  induction fuel generalizing s with
  | zero => rfl
  | succ fuel ih =>
    unfold LfuCache.evictWhile
    rw [if_pos (hover s.len)]
    cases s.evictOne env with
    | none => rfl
    | some out =>
      simp only [Option.bind_eq_bind, Option.bind_some, ih, Option.bind_none]

/-- **`get` answers what the cache holds** and changes nothing of it. A miss does not advance
the clock. -/
theorem get_eq (h : Inv env s) (k : K) (hwrap : ∀ v, Holds s k v → s.tick + 1 < 2 ^ 32) :
    ∃ s' r, s.get env k = some (s', r) ∧ Inv env s' ∧ s'.len = s.len ∧ s'.cap = s.cap ∧
      Tracks s k r ∧ ∀ k' c, Tracks s k' c → Tracks s' k' c := by
  obtain ⟨bucket, hb, -⟩ := h.bucket k
  unfold LfuCache.get
  simp only [bucketForKey_eq h.someBucket, hb, Option.bind_eq_bind, Option.bind_some]
  rcases h.findKey_cases k hb with ⟨hnone, habsent⟩ | ⟨p, e, hsome, hpb, hp, he, hk⟩
  · simp only [hnone]
    refine ⟨s, none, rfl, h, rfl, rfl, ?_, fun _ _ hc => hc⟩
    intro v
    constructor
    · rintro ⟨q, hq, d, hd, hdk, -⟩
      exact absurd hdk (habsent q hq d hd)
    · intro hc
      cases hc
  · have hwrap := hwrap e.value ⟨p, hp, e, he, hk, rfl⟩
    have hrec : (p :: s.recencyIndex.erase p).Perm s.recencyIndex := (List.perm_cons_erase hp).symm
    have htick : (s.tick + 1) % 2 ^ 32 = s.tick + 1 := Nat.mod_eq_of_lt hwrap
    simp only [hsome, unlink_eq hp, he, unlink_eq (h.mem_frequency.mpr hp), Option.bind_some,
      htick, Option.pure_def]
    refine ⟨s.touched env p
      { e with lastTick := s.tick + 1, freq := min (e.freq + 1) (2 ^ 16 - 1) }
      (p :: s.recencyIndex.erase p) (s.tick + 1), some e.value, rfl, ?_, rfl, rfl, ?_, ?_⟩
    · exact h.touch _ hp he rfl hrec (Nat.le_succ _) (Nat.le_refl _) hwrap
    · intro v
      constructor
      · intro hv
        rw [h.holds_unique hv ⟨p, hp, e, he, hk, rfl⟩]
      · intro hv
        exact ⟨p, hp, e, he, hk, Option.some.inj hv⟩
    · intro k' c hc v
      refine Iff.trans ?_ (hc v)
      exact holds_touched
        { e with lastTick := s.tick + 1, freq := min (e.freq + 1) (2 ^ 16 - 1) }
        he rfl rfl hrec k' v

omit [DecidableEq K] in
theorem Inv.advance (h : Inv env s) (hwrap : s.tick + 1 < 2 ^ 32) :
    Inv env { s with tick := s.tick + 1 } :=
  { h with
    live := fun p hp => by
      obtain ⟨e, he, hle⟩ := h.live p hp
      exact ⟨e, he, Nat.le_succ_of_le hle⟩
    tick := hwrap }

theorem removePrior_eq (h : Inv env s) (k : K) :
    ∃ s', s.removePrior (env.hash k % s.buckets.length) k = some s' ∧ Inv env s' ∧ Frame s s' ∧
      s'.len ≤ s.len ∧ (∀ p ∈ s'.recencyIndex, ∀ e, s'.heap p = some e → e.key ≠ k) ∧
      ∀ k' v, k' ≠ k → (Holds s' k' v ↔ Holds s k' v) := by
  obtain ⟨bucket, hb, -⟩ := h.bucket k
  unfold LfuCache.removePrior
  simp only [hb, Option.bind_eq_bind, Option.bind_some]
  rcases h.findKey_cases k hb with ⟨hnone, habsent⟩ | ⟨p, e, hsome, hpb, hp, he, hk⟩
  · simp only [hnone]
    exact ⟨s, rfl, h, ⟨rfl, rfl, rfl⟩, Nat.le_refl _, habsent, fun _ _ _ => Iff.rfl⟩
  · have hpos : 0 < s.len := by
      rw [h.len]
      exact List.length_pos_of_mem hp
    simp only [hsome, unlink_eq (h.mem_frequency.mpr hp), unlink_eq hp, unlink_eq hpb,
      decr_eq hpos, Option.bind_some, Option.pure_def]
    refine ⟨s.detached p (env.hash k % s.buckets.length) bucket, rfl, h.detach hp hb hpb, ?_, ?_,
      ?_, ?_⟩
    · refine ⟨rfl, rfl, ?_⟩
      show (s.buckets.set _ _).length = s.buckets.length
      rw [List.length_set]
    · exact Nat.sub_le _ _
    · intro q hq d hd hdk
      have hholds : Holds (s.detached p (env.hash k % s.buckets.length) bucket) k d.value :=
        ⟨q, hq, d, hd, hdk, rfl⟩
      exact ((h.holds_detached hp he k d.value).mp hholds).2 hk.symm
    · intro k' v hne
      rw [h.holds_detached hp he]
      exact ⟨fun hc => hc.1, fun hc => ⟨hc, fun hke => hne (hke.trans hk)⟩⟩

omit [DecidableEq K] in
theorem insertNew_eq (h : Inv env s) {k : K}
    (hnew : ∀ p ∈ s.recencyIndex, ∀ e, s.heap p = some e → e.key ≠ k) (v : V) :
    ∃ s', s.insertNew env (env.hash k % s.buckets.length) k v = some s' ∧ Inv env s' ∧
      s'.cap = s.cap ∧ s'.len = s.len + 1 ∧
      ∀ k' v', Holds s' k' v' ↔ (k' = k ∧ v' = v) ∨ Holds s k' v' := by
  obtain ⟨bucket, hb, -⟩ := h.bucket k
  refine ⟨s.attached env (env.hash k % s.buckets.length) bucket k v, ?_,
    h.attach hnew rfl hb, rfl, rfl, fun k' v' => h.holds_attached k' v'⟩
  simp only [LfuCache.insertNew, hb, Option.bind_eq_bind, Option.bind_some, Option.pure_def]
  rfl

omit [DecidableEq K] in
theorem growIfNeeded_eq (h : Inv env s) :
    ∃ s', s.growIfNeeded env = some s' ∧ Inv env s' ∧ s'.cap = s.cap ∧ s'.len = s.len ∧
      ∀ k v, Holds s' k v ↔ Holds s k v := by
  unfold LfuCache.growIfNeeded
  split
  · obtain ⟨buckets, hgrow, hinv⟩ := growHash_eq h
    exact ⟨_, hgrow, hinv, rfl, rfl, fun _ _ => Iff.rfl⟩
  · exact ⟨s, rfl, h, rfl, rfl, fun _ _ => Iff.rfl⟩

/-- **`put` stores the value**, after evicting what there is no room for. -/
theorem put_eq (h : Inv env s) (hwrap : s.tick + 1 < 2 ^ 32) (hcap : 0 < s.cap) (k : K) (v : V) :
    ∃ s' evicted, s.put env k v = some (s', evicted) ∧ Inv env s' ∧
      s'.cap = s.cap ∧ s'.len ≤ s'.cap ∧ Evictions evicted ∧ ∀ k' c, Tracks s k' c →
        Tracks s' k' ((evicted ++ [Event.put k v]).foldl (Event.update k') c) := by
  have htick : (s.tick + 1) % 2 ^ 32 = s.tick + 1 := Nat.mod_eq_of_lt hwrap
  obtain ⟨s₁, hprior, h₁, hf₁, hl₁, hnew₁, hholds₁⟩ := removePrior_eq (h.advance hwrap) k
  obtain ⟨s₂, evicted, hloop, h₂, hf₂, hl₂, hover, hev, htracks⟩ :=
    @evictWhile_eq K V env _ (fun len => len ≥ s₁.cap)
      (decide_eq_false (by rw [hf₁.cap]; exact Nat.not_le.mpr hcap)) (s₁.len + 1) s₁ h₁
      (Nat.lt_succ_self _)
  have hroom : s₂.len < s₂.cap := by
    have hlt : ¬ s₂.len ≥ s₁.cap := of_decide_eq_false hover
    rw [hf₂.cap]
    omega
  have hnew₂ : ∀ p ∈ s₂.recencyIndex, ∀ e, s₂.heap p = some e → e.key ≠ k := by
    -- nothing was held for `k` before the loop, so nothing is after it
    have habsent : Tracks s₁ k none := by
      intro w
      constructor
      · rintro ⟨p, hp, e, he, hk, -⟩
        exact absurd hk (hnew₁ p hp e he)
      · intro hc
        cases hc
    have hnone : evicted.foldl (Event.update k) (none : Option V) = none := by
      clear hloop htracks
      induction evicted with
      | nil => rfl
      | cons event events ih =>
        obtain ⟨ev, rfl, -⟩ := hev event List.mem_cons_self
        have hstep : Event.update k (none : Option V) (.evict ev) = none := by
          simp only [Event.update, ite_self]
        rw [List.foldl_cons, hstep]
        exact ih fun e he => hev e (List.mem_cons_of_mem _ he)
    have habsent₂ := htracks k none habsent
    rw [hnone] at habsent₂
    intro p hp e he hk
    have hheld := (habsent₂ e.value).mp ⟨p, hp, e, he, hk, rfl⟩
    cases hheld
  obtain ⟨s₃, hinsert, h₃, hc₃, hl₃, hholds₃⟩ := insertNew_eq h₂ hnew₂ v
  obtain ⟨s₄, hgrow, h₄, hc₄, hl₄, hholds₄⟩ := growIfNeeded_eq h₃
  -- the buckets are as many as when the index was computed
  have hindex : s₂.buckets.length = s.buckets.length := hf₂.numBuckets.trans hf₁.numBuckets
  rw [hindex] at hinsert
  refine ⟨s₄, evicted, ?_, h₄, ?_, by omega, hev, ?_⟩
  · have hprior' : LfuCache.removePrior { s with tick := s.tick + 1 }
        (env.hash k % s.buckets.length) k = some s₁ := hprior
    simp only [LfuCache.put, bucketForKey_eq h.someBucket, htick, hprior', hloop,
      Option.bind_eq_bind, Option.bind_some, hinsert, hgrow, Option.pure_def]
  · rw [hc₄, hc₃, hf₂.cap, hf₁.cap]
  · intro k' c hc w
    rw [hholds₄, hholds₃, List.foldl_append]
    show (k' = k ∧ w = v) ∨ Holds s₂ k' w ↔
      (if k = k' then some v else evicted.foldl (Event.update k') c) = some w
    by_cases hk : k = k'
    · subst hk
      rw [if_pos rfl]
      constructor
      · rintro (⟨-, rfl⟩ | ⟨p, hp, e, he, hek, -⟩)
        · rfl
        · exact absurd hek (hnew₂ p hp e he)
      · intro hw
        exact .inl ⟨rfl, (Option.some.inj hw).symm⟩
    · rw [if_neg hk]
      have htrack : Tracks s₁ k' c := fun u => (hholds₁ k' u (Ne.symm hk)).trans (hc u)
      rw [← htracks k' c htrack w]
      exact ⟨fun hor => hor.resolve_left fun hc' => hk hc'.1.symm, .inr⟩

theorem put_endless (h : Inv env s) (hwrap : s.tick + 1 < 2 ^ 32) (hcap : s.cap = 0) (k : K)
    (v : V) : s.put env k v = none := by
  have htick : (s.tick + 1) % 2 ^ 32 = s.tick + 1 := Nat.mod_eq_of_lt hwrap
  obtain ⟨s₁, hprior, -, hf₁, -⟩ := removePrior_eq (h.advance hwrap) k
  have hprior' : LfuCache.removePrior { s with tick := s.tick + 1 }
      (env.hash k % s.buckets.length) k = some s₁ := hprior
  have hover : ∀ n, decide (n ≥ s₁.cap) = true := by
    intro n
    rw [hf₁.cap]
    exact decide_eq_true (by rw [hcap]; exact Nat.zero_le n)
  simp only [LfuCache.put, bucketForKey_eq h.someBucket, htick, hprior',
    evictWhile_endless hover, Option.bind_eq_bind, Option.bind_some, Option.bind_none]

omit [DecidableEq K] in
theorem clear_eq (h : Inv env s) : Inv env s.clear ∧ ∀ k, Tracks s.clear k none := by
  have hflat : (s.buckets.map fun _ => ([] : List Nat)).flatten = [] := by
    rw [List.map_const', flatten_replicate_nil]
  refine ⟨⟨List.nodup_nil, List.Perm.refl _, ?_, ?_, ?_, ?_, ?_, List.Pairwise.nil, rfl, ?_,
    h.tick⟩, ?_⟩
  · show (s.buckets.map fun _ => []).flatten.Perm []
    rw [hflat]
  · intro p hp
    cases hp
  · intro p hp
    cases hp
  · intro p hp
    cases hp
  · show Placed env s.heap (s.buckets.map fun _ => [])
    rw [List.map_const']
    exact placed_replicate_nil s.heap _
  · show 0 < (s.buckets.map fun _ => ([] : List Nat)).length
    rw [List.length_map]
    exact h.someBucket
  · intro k v
    constructor
    · rintro ⟨p, hp, -⟩
      cases hp
    · intro hc
      cases hc

theorem updateConfig_eq (h : Inv env s) (hle : s.len ≤ s.cap) (newCap : Nat) :
    ∃ s' evicted, s.updateConfig env newCap = some (s', evicted) ∧ Inv env s' ∧
      s'.cap = newCap ∧ s'.len ≤ s'.cap ∧ Evictions evicted ∧
      ∀ k c, Tracks s k c → Tracks s' k (evicted.foldl (Event.update k) c) := by
  unfold LfuCache.updateConfig
  by_cases hcap : newCap = s.cap
  · rw [if_neg (not_not.mpr hcap)]
    exact ⟨s, [], rfl, h, hcap.symm, hle, fun _ hm => absurd hm List.not_mem_nil,
      fun _ _ hc => hc⟩
  · rw [if_pos hcap]
    have h₀ : Inv env { s with cap := newCap } := { h with }
    obtain ⟨s', evicted, hloop, h', hf, -, hover, hev, htracks⟩ :=
      @evictWhile_eq K V env _ (fun len => len > newCap)
        (decide_eq_false (Nat.not_lt_zero newCap)) (s.len + 1) { s with cap := newCap } h₀
        (Nat.lt_succ_self _)
    have hlt : ¬ s'.len > newCap := of_decide_eq_false hover
    have hcap' : s'.cap = newCap := hf.cap
    exact ⟨s', evicted, hloop, h', hcap', by omega, hev, htracks⟩

end Wakterm.Lfucache
