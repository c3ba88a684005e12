import Wakterm.Lfucache.Logic.Operations

/-!
# The cache over whole runs

After any puts, gets, clears and changes of the capacity, the containers of the cache agree with
each other, it holds no more than its capacity, and for every key it holds what was put last, unless
that was evicted or cleared.
-/

namespace Wakterm.Theorems.LfuCache

open Wakterm.Machine Wakterm.Lfucache

variable {K V : Type} [DecidableEq K]

inductive CacheOp (K V : Type) where
  | put (k : K) (v : V)
  | get (k : K)
  | clear
  | updateConfig (newCap : Nat)

/-- Run an operation: the cache and what happened to its contents. -/
def CacheOp.apply (env : Env K) (s : LfuCache K V) :
    CacheOp K V → Option (LfuCache K V × List (Event K V))
  | .put k v => (s.put env k v).map fun (s, evicted) => (s, evicted ++ [.put k v])
  | .get k => (s.get env k).map fun (s, _) => (s, [])
  | .clear => some (s.clear, [.clear])
  | .updateConfig newCap => s.updateConfig env newCap

/-- The operation does not wrap the clock: a `put` and a hit advance it. -/
def CacheOp.NoWrap (s : LfuCache K V) : CacheOp K V → Prop
  | .put _ _ => s.tick + 1 < 2 ^ 32
  | .get k => ∀ v, Holds s k v → s.tick + 1 < 2 ^ 32
  | .clear => True
  | .updateConfig _ => True

/-- The caches that runs make of a new one, with what happened to their contents. -/
inductive Reaches (env : Env K) : LfuCache K V → List (Event K V) → Prop
  | new (cap : Nat) : Reaches env (LfuCache.new cap) []
  | step {s s' : LfuCache K V} {trace events : List (Event K V)} (op : CacheOp K V) :
      Reaches env s trace → op.NoWrap s → op.apply env s = some (s', events) →
      Reaches env s' (trace ++ events)

/-- What was put last for a key, unless it was evicted or cleared since. -/
def latest (trace : List (Event K V)) (k : K) : Option V :=
  trace.foldl (Event.update k) none

/-- What holds after every operation. -/
structure Good (env : Env K) (s : LfuCache K V) (trace : List (Event K V)) : Prop where
  inv : Inv env s
  len_le : s.len ≤ s.cap
  holds : ∀ k, Tracks s k (latest trace k)
  evictions : ∀ ev, .evict ev ∈ trace → Minimal ev

omit [DecidableEq K] in
theorem inv_new (env : Env K) (cap : Nat) : Inv env (LfuCache.new cap : LfuCache K V) where
  nodup := List.nodup_nil
  frequency := List.Perm.refl _
  hashed := by
    show (List.replicate _ ([] : List Nat)).flatten.Perm []
    rw [flatten_replicate_nil]
  fresh p hp := by cases hp
  live p hp := by cases hp
  keys p hp := by cases hp
  placed := placed_replicate_nil _ _
  sorted := List.Pairwise.nil
  len := rfl
  someBucket := by
    show 0 < (List.replicate (nextPowerOfTwo (cap / 10)) ([] : List Nat)).length
    rw [List.length_replicate, nextPowerOfTwo]
    split
    · decide
    · exact Nat.two_pow_pos _
  tick := Nat.two_pow_pos 32

theorem good_new (env : Env K) (cap : Nat) : Good env (LfuCache.new cap : LfuCache K V) [] where
  inv := inv_new env cap
  len_le := Nat.zero_le _
  holds k v := by
    constructor
    · rintro ⟨p, hp, -⟩
      cases hp
    · intro hc
      cases hc
  evictions ev hev := by cases hev

variable {s : LfuCache K V} {trace : List (Event K V)}

theorem Good.extend {env : Env K} {s' : LfuCache K V} {events : List (Event K V)}
    (h : Good env s trace) (hinv : Inv env s') (hle : s'.len ≤ s'.cap)
    (htracks : ∀ k c, Tracks s k c → Tracks s' k (events.foldl (Event.update k) c))
    (hev : ∀ ev, .evict ev ∈ events → Minimal ev) : Good env s' (trace ++ events) where
  inv := hinv
  len_le := hle
  holds k := by
    unfold latest
    rw [List.foldl_append]
    exact htracks k _ (h.holds k)
  evictions ev hmem := by
    rcases List.mem_append.mp hmem with hmem | hmem
    · exact h.evictions ev hmem
    · exact hev ev hmem

/-- **Every operation returns**, and the cache is as good afterwards. A `put` needs room for one
entry. -/
theorem good_apply {env : Env K} (h : Good env s trace) (op : CacheOp K V) (hwrap : op.NoWrap s)
    (hroom : ∀ k v, op = .put k v → 0 < s.cap) :
    ∃ s' events, op.apply env s = some (s', events) ∧ Good env s' (trace ++ events) := by
  cases op with
  | put k v =>
    obtain ⟨s', evicted, hput, hinv, -, hle, hev, htracks⟩ := put_eq h.inv hwrap (hroom k v rfl) k v
    refine ⟨s', evicted ++ [.put k v], ?_, h.extend hinv hle htracks ?_⟩
    · simp only [CacheOp.apply, hput, Option.map_some]
    intro ev hmem
    rcases List.mem_append.mp hmem with hmem | hmem
    · obtain ⟨ev', heq, hmin⟩ := hev _ hmem
      cases heq
      exact hmin
    · cases hmem with
      | tail _ hmem => cases hmem
  | get k =>
    obtain ⟨s', r, hget, hinv, hlen, hcap, -, htracks⟩ := get_eq h.inv k hwrap
    refine ⟨s', [], ?_, h.extend hinv ?_ htracks ?_⟩
    · simp only [CacheOp.apply, hget, Option.map_some]
    · rw [hlen, hcap]
      exact h.len_le
    · intro ev hmem
      cases hmem
  | clear =>
    obtain ⟨hinv, htracks⟩ := clear_eq h.inv
    refine ⟨s.clear, [.clear], rfl, h.extend hinv (Nat.zero_le _) ?_ ?_⟩
    · intro k c _
      exact htracks k
    · intro ev hmem
      cases hmem with
      | tail _ hmem => cases hmem
  | updateConfig newCap =>
    obtain ⟨s', evicted, hupdate, hinv, -, hle, hev, htracks⟩ :=
      updateConfig_eq h.inv h.len_le newCap
    refine ⟨s', evicted, hupdate, h.extend hinv hle htracks ?_⟩
    intro ev hmem
    obtain ⟨ev', heq, hmin⟩ := hev _ hmem
    cases heq
    exact hmin

theorem good_of_reaches {env : Env K} (h : Reaches env s trace) : Good env s trace := by
  induction h with
  | new cap => exact good_new env cap
  | step op _ hwrap happly ih =>
    rename_i s s' trace events _
    have hroom : ∀ k v, op = .put k v → 0 < s.cap := by
      rintro k v rfl
      rcases Nat.eq_zero_or_pos s.cap with h0 | h0
      · simp only [CacheOp.apply, put_endless ih.inv hwrap h0, Option.map_none] at happly
        cases happly
      · exact h0
    obtain ⟨s₁, events₁, happly₁, hgood⟩ := good_apply ih op hwrap hroom
    rw [happly] at happly₁
    cases happly₁
    exact hgood

/-- **The cache over whole runs.** In every cache that a run reaches, the buckets, the tree and
the recency list hold the same entries, with different keys and each in its bucket, and `len`
counts them and is within the capacity (`Inv`); every eviction so far was of an entry with the
smallest frequency after the decay step; and unless the clock wraps, `get` answers with what was
put last for the key, if it was not evicted or cleared, and every operation returns, `put` with
any capacity but none. `update_config` leaves the new capacity. -/
theorem consistent_of_reaches (env : Env K) (s : LfuCache K V) (trace : List (Event K V))
    (h : Reaches env s trace) : Inv env s ∧ s.len ≤ s.cap ∧ (∀ ev, .evict ev ∈ trace → Minimal ev) ∧
    (∀ k, (CacheOp.get k : CacheOp K V).NoWrap s → ∃ s', s.get env k = some (s', latest trace k)) ∧
    (∀ op : CacheOp K V, op.NoWrap s → (∀ k v, op = .put k v → 1 ≤ s.cap) →
      (op.apply env s).isSome) ∧
    ∀ newCap, ∃ s' evicted, s.updateConfig env newCap = some (s', evicted) ∧ s'.cap = newCap := by
  have hgood := good_of_reaches h
  refine ⟨hgood.inv, hgood.len_le, hgood.evictions, ?_, ?_, ?_⟩
  · intro k hwrap
    obtain ⟨s', r, hget, -, -, -, hr, -⟩ := get_eq hgood.inv k hwrap
    have heq : r = latest trace k := by
      apply Option.ext
      intro v
      exact (hr v).symm.trans (hgood.holds k v)
    exact ⟨s', heq ▸ hget⟩
  · intro op hwrap hroom
    obtain ⟨s', events, happly, -⟩ := good_apply hgood op hwrap hroom
    rw [happly]
    rfl
  · intro newCap
    obtain ⟨s', evicted, hupdate, -, hcap, -⟩ := updateConfig_eq hgood.inv hgood.len_le newCap
    exact ⟨s', evicted, hupdate, hcap⟩

/-! ## A small cache -/

/-- Numbers that hash to themselves, and a tree that keeps equal frequencies in order. -/
def plainEnv : Env Nat := ⟨id, OrderedIndex.stable⟩

/-- Two puts into a cache for one entry: the first is evicted. -/
theorem consistent_of_reaches_two : ∃ (s s' : LfuCache Nat String) (ev : Eviction Nat String),
      Reaches plainEnv s [.put 1 "hello", .evict ev, .put 2 "there"] ∧ Minimal ev ∧
        s.get plainEnv 2 = some (s', some "there") := by
  have h₁ : Reaches plainEnv (V := String) _ _ :=
    (Reaches.new 1).step (.put 1 "hello") (show 0 + 1 < 2 ^ 32 by decide) rfl
  have h₂ := h₁.step (.put 2 "there") (show 1 + 1 < 2 ^ 32 by decide) rfl
  obtain ⟨-, -, hmin, hget, -⟩ := consistent_of_reaches plainEnv _ _ h₂
  obtain ⟨s', hget⟩ := hget 2 (fun _ _ => by decide)
  exact ⟨_, s', _, h₂, hmin _ (List.mem_cons_of_mem _ List.mem_cons_self), hget⟩

end Wakterm.Theorems.LfuCache
