import Mathlib.Data.List.Flatten
import Mathlib.Data.List.Perm.Basic
import Wakterm.Lfucache.LfuCache

/-!
# The containers of the cache agree

`Inv`: the three containers hold the same entries, each once, with distinct keys, each in the bucket
of its key; the tree is in order and `len` counts them.
-/

namespace Wakterm.Lfucache

open Wakterm.Machine

variable {K V : Type} {env : Env K} {s : LfuCache K V}

variable {buckets : List (List Nat)} {i p : Nat}

theorem flatten_set {bucket : List Nat} (h : buckets[i]? = some bucket) :
    ∃ rest, buckets.flatten.Perm (bucket ++ rest) ∧
      ∀ bucket', (buckets.set i bucket').flatten.Perm (bucket' ++ rest) := by
  induction buckets generalizing i with
  | nil => simp at h
  | cons b bs ih =>
    cases i with
    | zero =>
      simp only [List.getElem?_cons_zero] at h
      cases h
      exact ⟨bs.flatten, List.Perm.refl _, fun _ => List.Perm.refl _⟩
    | succ i =>
      simp only [List.getElem?_cons_succ] at h
      obtain ⟨rest, hperm, hset⟩ := ih h
      refine ⟨b ++ rest, ?_, ?_⟩
      · exact (hperm.append_left b).trans (List.perm_append_comm_assoc _ _ _)
      · intro bucket'
        exact ((hset bucket').append_left b).trans (List.perm_append_comm_assoc _ _ _)

theorem flatten_set_cons {bucket : List Nat} (h : buckets[i]? = some bucket) (p : Nat) :
    (buckets.set i (p :: bucket)).flatten.Perm (p :: buckets.flatten) := by
  obtain ⟨rest, hperm, hset⟩ := flatten_set h
  exact (hset (p :: bucket)).trans (hperm.symm.cons p)

theorem flatten_set_erase {bucket : List Nat} (h : buckets[i]? = some bucket) (hp : p ∈ bucket) :
    (p :: (buckets.set i (bucket.erase p)).flatten).Perm buckets.flatten := by
  obtain ⟨rest, hperm, hset⟩ := flatten_set h
  refine ((hset (bucket.erase p)).cons p).trans ?_
  exact (((List.perm_cons_erase hp).symm).append_right rest).trans hperm.symm

theorem mem_flatten_of_getElem? {bucket : List Nat} (h : buckets[i]? = some bucket)
    (hp : p ∈ bucket) : p ∈ buckets.flatten :=
  List.mem_flatten.mpr ⟨bucket, List.mem_of_getElem? h, hp⟩

theorem unlink_eq {l : List Nat} (h : p ∈ l) : unlink p l = some (l.erase p) := if_pos h

/-- An entry is in the bucket that its key hashes to. -/
def Placed (env : Env K) (heap : Nat → Option (Entry K V)) (buckets : List (List Nat)) : Prop :=
  ∀ i bucket, buckets[i]? = some bucket → ∀ p ∈ bucket, ∀ e, heap p = some e →
    env.hash e.key % buckets.length = i

/-- The three containers hold the same entries. -/
structure Inv (env : Env K) (s : LfuCache K V) : Prop where
  nodup : s.recencyIndex.Nodup
  frequency : s.frequencyIndex.Perm s.recencyIndex
  hashed : s.buckets.flatten.Perm s.recencyIndex
  fresh : ∀ p ∈ s.recencyIndex, p < s.next
  live : ∀ p ∈ s.recencyIndex, ∃ e, s.heap p = some e ∧ e.lastTick ≤ s.tick
  keys : ∀ p ∈ s.recencyIndex, ∀ q ∈ s.recencyIndex, ∀ e e', s.heap p = some e →
    s.heap q = some e' → e.key = e'.key → p = q
  placed : Placed env s.heap s.buckets
  sorted : s.frequencyIndex.Pairwise fun p q => freqOf s.heap p ≤ freqOf s.heap q
  len : s.len = s.recencyIndex.length
  someBucket : 0 < s.buckets.length
  tick : s.tick < 2 ^ 32

/-- The cache holds `v` for `k`. -/
def Holds (s : LfuCache K V) (k : K) (v : V) : Prop :=
  ∃ p ∈ s.recencyIndex, ∃ e, s.heap p = some e ∧ e.key = k ∧ e.value = v

theorem bucketForKey_eq (h : 0 < s.buckets.length) (k : K) :
    s.bucketForKey env k = some (env.hash k % s.buckets.length) := by
  unfold LfuCache.bucketForKey
  rw [if_neg (by omega)]

theorem Inv.mem_frequency (h : Inv env s) :
    p ∈ s.frequencyIndex ↔ p ∈ s.recencyIndex := h.frequency.mem_iff

theorem Inv.mem_buckets (h : Inv env s) :
    p ∈ s.buckets.flatten ↔ p ∈ s.recencyIndex := h.hashed.mem_iff

theorem Inv.bucket (h : Inv env s) (k : K) :
    ∃ bucket, s.buckets[env.hash k % s.buckets.length]? = some bucket ∧
      (∀ p ∈ bucket, p ∈ s.recencyIndex) ∧
      ∀ p ∈ s.recencyIndex, ∀ e, s.heap p = some e → e.key = k → p ∈ bucket := by
  have hlt : env.hash k % s.buckets.length < s.buckets.length := Nat.mod_lt _ h.someBucket
  refine ⟨s.buckets[env.hash k % s.buckets.length], List.getElem?_eq_getElem hlt, ?_, ?_⟩
  · intro p hp
    exact h.mem_buckets.mp (mem_flatten_of_getElem? (List.getElem?_eq_getElem hlt) hp)
  · intro p hp e he hk
    obtain ⟨b, hb, hpb⟩ := List.mem_flatten.mp (h.mem_buckets.mpr hp)
    obtain ⟨i, hi⟩ := List.mem_iff_getElem?.mp hb
    have hplace := h.placed i b hi p hpb e he
    rw [hk] at hplace
    subst hplace
    rw [List.getElem?_eq_getElem hlt, Option.some.injEq] at hi
    rw [hi]
    exact hpb

theorem Inv.findKey_cases [DecidableEq K] (h : Inv env s) (k : K) {bucket : List Nat}
    (hb : s.buckets[env.hash k % s.buckets.length]? = some bucket) :
    (findKey s.heap k bucket = none ∧ ∀ p ∈ s.recencyIndex, ∀ e, s.heap p = some e → e.key ≠ k) ∨
    ∃ p e, findKey s.heap k bucket = some p ∧ p ∈ bucket ∧ p ∈ s.recencyIndex ∧
      s.heap p = some e ∧ e.key = k := by
  obtain ⟨bucket', hb', hsub, hall⟩ := h.bucket k
  rw [hb] at hb'
  cases hb'
  cases hf : findKey s.heap k bucket with
  | none =>
    refine .inl ⟨rfl, ?_⟩
    intro p hp e he hk
    have hnone := List.find?_eq_none.mp hf p (hall p hp e he hk)
    simp [he, hk] at hnone
  | some p =>
    have hmem := List.mem_of_find?_eq_some hf
    have hkey := List.find?_some hf
    obtain ⟨e, he, -⟩ := h.live p (hsub p hmem)
    simp only [he, decide_eq_true_eq] at hkey
    exact .inr ⟨p, e, rfl, hmem, hsub p hmem, he, hkey⟩

theorem Inv.holds_unique (h : Inv env s) {k : K} {v v' : V} (hv : Holds s k v)
    (hv' : Holds s k v') : v = v' := by
  obtain ⟨p, hp, e, he, hk, rfl⟩ := hv
  obtain ⟨q, hq, e', he', hk', rfl⟩ := hv'
  obtain rfl := h.keys p hp q hq e e' he he' (hk.trans hk'.symm)
  rw [he, Option.some.injEq] at he'
  rw [he']

/-- An entry of the cache gets a new frequency and a new time, and a new place in the tree and
in the recency list. -/
def LfuCache.touched (env : Env K) (s : LfuCache K V) (p : Nat) (e : Entry K V)
    (recency : List Nat) (tick : Nat) : LfuCache K V :=
  { s with
    heap := Function.update s.heap p (some e)
    frequencyIndex :=
      env.tree.insert (freqOf (Function.update s.heap p (some e))) p (s.frequencyIndex.erase p)
    recencyIndex := recency
    tick := tick }

section Touch

variable {p tick : Nat} {e : Entry K V} (e' : Entry K V) {recency : List Nat}

variable {heap : Nat → Option (Entry K V)}

theorem freqOf_update_of_ne {q : Nat} (h : q ≠ p) (e : Option (Entry K V)) :
    freqOf (Function.update heap p e) q = freqOf heap q := by
  unfold freqOf
  rw [Function.update_of_ne h]

theorem heap_touched {e' : Entry K V} (he : heap p = some e) (hkey : e'.key = e.key) {q : Nat}
    {d : Entry K V} (hd : Function.update heap p (some e') q = some d) :
    ∃ d₀, heap q = some d₀ ∧ d.key = d₀.key ∧ (q ≠ p → d = d₀) := by
  by_cases hq : q = p
  · subst hq
    rw [Function.update_self] at hd
    cases hd
    exact ⟨e, he, hkey, fun hne => absurd rfl hne⟩
  · rw [Function.update_of_ne hq] at hd
    exact ⟨d, hd, rfl, fun _ => rfl⟩

theorem Inv.touch (h : Inv env s) (hp : p ∈ s.recencyIndex) (he : s.heap p = some e)
    (hkey : e'.key = e.key) (hrec : recency.Perm s.recencyIndex) (htick : s.tick ≤ tick)
    (hlast : e'.lastTick ≤ tick) (hlt : tick < 2 ^ 32) :
    Inv env (s.touched env p e' recency tick) where
  nodup := hrec.nodup_iff.mpr h.nodup
  frequency := by
    have hmem : p ∈ s.frequencyIndex := h.mem_frequency.mpr hp
    refine (env.tree.insert_perm _ _ _).trans ?_
    exact ((List.perm_cons_erase hmem).symm.trans h.frequency).trans hrec.symm
  hashed := h.hashed.trans hrec.symm
  fresh q hq := h.fresh q (hrec.mem_iff.mp hq)
  live q hq := by
    by_cases hqp : q = p
    · subst hqp
      exact ⟨e', Function.update_self _ _ _, hlast⟩
    · obtain ⟨d, hd, hdl⟩ := h.live q (hrec.mem_iff.mp hq)
      exact ⟨d, (Function.update_of_ne hqp _ _).trans hd, Nat.le_trans hdl htick⟩
  keys q hq q' hq' d d' hd hd' hdk := by
    obtain ⟨c, hc, hck, -⟩ := heap_touched he hkey hd
    obtain ⟨c', hc', hck', -⟩ := heap_touched he hkey hd'
    exact h.keys q (hrec.mem_iff.mp hq) q' (hrec.mem_iff.mp hq') c c' hc hc'
      (hck.symm.trans (hdk.trans hck'))
  placed i bucket hb q hq d hd := by
    obtain ⟨c, hc, hck, -⟩ := heap_touched he hkey hd
    rw [hck]
    exact h.placed i bucket hb q hq c hc
  sorted := by
    apply env.tree.insert_sorted
    have hnodup : s.frequencyIndex.Nodup := h.frequency.nodup_iff.mpr h.nodup
    have hsorted := h.sorted.sublist (List.erase_sublist (a := p))
    refine hsorted.imp_of_mem ?_
    intro a b ha hb hab
    have hap : a ≠ p := fun hc => (hnodup.not_mem_erase) (hc ▸ ha)
    have hbp : b ≠ p := fun hc => (hnodup.not_mem_erase) (hc ▸ hb)
    show freqOf (Function.update s.heap p (some e')) a ≤
      freqOf (Function.update s.heap p (some e')) b
    rw [freqOf_update_of_ne hap, freqOf_update_of_ne hbp]
    exact hab
  len := h.len.trans hrec.length_eq.symm
  someBucket := h.someBucket
  tick := hlt

theorem holds_touched (he : s.heap p = some e) (hkey : e'.key = e.key)
    (hvalue : e'.value = e.value) (hrec : recency.Perm s.recencyIndex) (k : K) (v : V) :
    Holds (s.touched env p e' recency tick) k v ↔ Holds s k v := by
  constructor
  · rintro ⟨q, hq, d, hd, hk, hv⟩
    refine ⟨q, hrec.mem_iff.mp hq, ?_⟩
    by_cases hqp : q = p
    · subst hqp
      rw [show (s.touched env q e' recency tick).heap q = some e' from Function.update_self _ _ _,
        Option.some.injEq] at hd
      subst hd
      exact ⟨e, he, hkey ▸ hk, hvalue ▸ hv⟩
    · exact ⟨d, (Function.update_of_ne hqp _ _).symm.trans hd, hk, hv⟩
  · rintro ⟨q, hq, d, hd, hk, hv⟩
    refine ⟨q, hrec.mem_iff.mpr hq, ?_⟩
    by_cases hqp : q = p
    · subst hqp
      rw [he] at hd
      cases hd
      exact ⟨e', Function.update_self _ _ _, hkey.trans hk, hvalue.trans hv⟩
    · exact ⟨d, (Function.update_of_ne hqp _ _).trans hd, hk, hv⟩

end Touch

/-- An entry leaves the three containers. -/
def LfuCache.detached (s : LfuCache K V) (p i : Nat) (bucket : List Nat) : LfuCache K V :=
  { s with
    buckets := s.buckets.set i (bucket.erase p)
    frequencyIndex := s.frequencyIndex.erase p
    recencyIndex := s.recencyIndex.erase p
    len := s.len - 1 }

section Detach

variable {p i : Nat} {e : Entry K V} {bucket : List Nat}

theorem Inv.detach (h : Inv env s) (hp : p ∈ s.recencyIndex)
    (hb : s.buckets[i]? = some bucket) (hpb : p ∈ bucket) : Inv env (s.detached p i bucket) where
  nodup := h.nodup.erase p
  frequency := h.frequency.erase p
  hashed := by
    apply List.Perm.cons_inv (a := p)
    exact ((flatten_set_erase hb hpb).trans h.hashed).trans (List.perm_cons_erase hp)
  fresh q hq := h.fresh q (List.mem_of_mem_erase hq)
  live q hq := h.live q (List.mem_of_mem_erase hq)
  keys q hq q' hq' := h.keys q (List.mem_of_mem_erase hq) q' (List.mem_of_mem_erase hq')
  placed j c hc q hq d hd := by
    show env.hash d.key % (s.buckets.set i (bucket.erase p)).length = j
    rw [List.length_set]
    have hc' : (s.buckets.set i (bucket.erase p))[j]? = some c := hc
    rw [List.getElem?_set] at hc'
    split at hc'
    · rename_i hij
      subst hij
      split at hc'
      · rw [Option.some.injEq] at hc'
        subst hc'
        exact h.placed i bucket hb q (List.mem_of_mem_erase hq) d hd
      · cases hc'
    · exact h.placed j c hc' q hq d hd
  sorted := h.sorted.sublist List.erase_sublist
  len := by
    show s.len - 1 = (s.recencyIndex.erase p).length
    rw [List.length_erase_of_mem hp, h.len]
  someBucket := by
    show 0 < (s.buckets.set i (bucket.erase p)).length
    rw [List.length_set]
    exact h.someBucket
  tick := h.tick

theorem Inv.holds_detached (h : Inv env s) (hp : p ∈ s.recencyIndex) (he : s.heap p = some e)
    (k : K) (v : V) : Holds (s.detached p i bucket) k v ↔ Holds s k v ∧ k ≠ e.key := by
  constructor
  · rintro ⟨q, hq, d, hd, hk, hv⟩
    have hq' : q ∈ s.recencyIndex := List.mem_of_mem_erase hq
    refine ⟨⟨q, hq', d, hd, hk, hv⟩, ?_⟩
    intro hke
    obtain rfl := h.keys q hq' p hp d e hd he (hk.trans hke)
    exact h.nodup.not_mem_erase hq
  · rintro ⟨⟨q, hq, d, hd, hk, hv⟩, hne⟩
    refine ⟨q, ?_, d, hd, hk, hv⟩
    apply (List.mem_erase_of_ne ?_).mpr hq
    rintro rfl
    apply hne
    have hde : s.heap q = some d := hd
    rw [he, Option.some.injEq] at hde
    rw [← hk, hde]

end Detach

section Attach

variable {i : Nat} {k : K} {v : V} {bucket : List Nat}

/-- The cache with a new entry. -/
def LfuCache.attached (env : Env K) (s : LfuCache K V) (i : Nat) (bucket : List Nat) (k : K)
    (v : V) : LfuCache K V :=
  { s with
    heap := Function.update s.heap s.next (some ⟨0, s.tick, k, v⟩)
    next := s.next + 1
    buckets := s.buckets.set i (s.next :: bucket)
    frequencyIndex :=
      env.tree.insert (freqOf (Function.update s.heap s.next (some ⟨0, s.tick, k, v⟩))) s.next
        s.frequencyIndex
    recencyIndex := s.next :: s.recencyIndex
    len := s.len + 1 }

theorem Inv.ne_next (h : Inv env s) {q : Nat} (hq : q ∈ s.recencyIndex) : q ≠ s.next := by
  have := h.fresh q hq
  omega

theorem Inv.attach (h : Inv env s) (hnew : ∀ p ∈ s.recencyIndex, ∀ e, s.heap p = some e → e.key ≠ k)
    (hi : env.hash k % s.buckets.length = i) (hb : s.buckets[i]? = some bucket) :
    Inv env (s.attached env i bucket k v) where
  nodup := List.nodup_cons.mpr ⟨fun hm => h.ne_next hm rfl, h.nodup⟩
  frequency := (env.tree.insert_perm _ _ _).trans (h.frequency.cons s.next)
  hashed := (flatten_set_cons hb s.next).trans (h.hashed.cons s.next)
  fresh q hq := by
    show q < s.next + 1
    rcases List.mem_cons.mp hq with rfl | hq
    · omega
    · have := h.fresh q hq
      omega
  live q hq := by
    rcases List.mem_cons.mp hq with rfl | hq
    · exact ⟨_, Function.update_self _ _ _, Nat.le_refl _⟩
    · obtain ⟨d, hd, hdl⟩ := h.live q hq
      exact ⟨d, (Function.update_of_ne (h.ne_next hq) _ _).trans hd, hdl⟩
  keys q hq q' hq' d d' hd hd' hk := by
    have hread : ∀ r ∈ s.recencyIndex, ∀ c, (s.attached env i bucket k v).heap r = some c →
        s.heap r = some c := fun r hr c hc =>
      (Function.update_of_ne (h.ne_next hr) _ _).symm.trans hc
    have hself : ∀ c, (s.attached env i bucket k v).heap s.next = some c → c.key = k := by
      intro c hc
      rw [show (s.attached env i bucket k v).heap s.next = some ⟨0, s.tick, k, v⟩ from
        Function.update_self _ _ _, Option.some.injEq] at hc
      rw [← hc]
    rcases List.mem_cons.mp hq with rfl | hq <;> rcases List.mem_cons.mp hq' with rfl | hq'
    · rfl
    · exact absurd ((hself d hd).symm.trans hk).symm (hnew q' hq' d' (hread q' hq' d' hd'))
    · exact absurd (hk.trans (hself d' hd')) (hnew q hq d (hread q hq d hd))
    · exact h.keys q hq q' hq' d d' (hread q hq d hd) (hread q' hq' d' hd') hk
  placed j c hc q hq d hd := by
    show env.hash d.key % (s.buckets.set i (s.next :: bucket)).length = j
    rw [List.length_set]
    have hold : ∀ r b, s.buckets[j]? = some b → r ∈ b → s.heap r = some d →
        env.hash d.key % s.buckets.length = j := fun r b hjb hrb hrd => h.placed j b hjb r hrb d hrd
    have hread : ∀ b, s.buckets[j]? = some b → q ∈ b → s.heap q = some d := by
      intro b hjb hqb
      have hq' : q ∈ s.recencyIndex := h.mem_buckets.mp (mem_flatten_of_getElem? hjb hqb)
      exact (Function.update_of_ne (h.ne_next hq') _ _).symm.trans hd
    have hc' : (s.buckets.set i (s.next :: bucket))[j]? = some c := hc
    rw [List.getElem?_set] at hc'
    split at hc'
    · rename_i hij
      subst hij
      split at hc'
      · rw [Option.some.injEq] at hc'
        subst hc'
        rcases List.mem_cons.mp hq with rfl | hq
        · rw [show (s.attached env i bucket k v).heap s.next = some ⟨0, s.tick, k, v⟩ from
            Function.update_self _ _ _, Option.some.injEq] at hd
          rw [← hd]
          exact hi
        · exact hold q bucket hb hq (hread bucket hb hq)
      · cases hc'
    · exact hold q c hc' hq (hread c hc' hq)
  sorted := by
    apply env.tree.insert_sorted
    refine h.sorted.imp_of_mem ?_
    intro a b ha hb hab
    show freqOf (Function.update s.heap s.next _) a ≤ freqOf (Function.update s.heap s.next _) b
    rw [freqOf_update_of_ne (h.ne_next (h.mem_frequency.mp ha)),
      freqOf_update_of_ne (h.ne_next (h.mem_frequency.mp hb))]
    exact hab
  len := by
    show s.len + 1 = (s.next :: s.recencyIndex).length
    rw [List.length_cons, h.len]
  someBucket := by
    show 0 < (s.buckets.set i (s.next :: bucket)).length
    rw [List.length_set]
    exact h.someBucket
  tick := h.tick

theorem Inv.holds_attached (h : Inv env s) (k' : K) (v' : V) :
    Holds (s.attached env i bucket k v) k' v' ↔ (k' = k ∧ v' = v) ∨ Holds s k' v' := by
  constructor
  · rintro ⟨q, hq, d, hd, hk, hv⟩
    rcases List.mem_cons.mp hq with rfl | hq
    · rw [show (s.attached env i bucket k v).heap s.next = some ⟨0, s.tick, k, v⟩ from
        Function.update_self _ _ _, Option.some.injEq] at hd
      subst hd
      exact .inl ⟨hk.symm, hv.symm⟩
    · exact .inr ⟨q, hq, d, (Function.update_of_ne (h.ne_next hq) _ _).symm.trans hd, hk, hv⟩
  · rintro (⟨rfl, rfl⟩ | ⟨q, hq, d, hd, hk, hv⟩)
    · exact ⟨s.next, List.mem_cons_self, _, Function.update_self _ _ _, rfl, rfl⟩
    · exact ⟨q, List.mem_cons_of_mem _ hq, d,
        (Function.update_of_ne (h.ne_next hq) _ _).trans hd, hk, hv⟩

end Attach

theorem Inv.rebucket (h : Inv env s) (hperm : buckets.flatten.Perm s.buckets.flatten)
    (hplaced : Placed env s.heap buckets) (hpos : 0 < buckets.length) :
    Inv env { s with buckets := buckets } :=
  { h with hashed := hperm.trans h.hashed, placed := hplaced, someBucket := hpos }

end Wakterm.Lfucache
