import Mathlib.Algebra.Group.Nat.Defs
import Mathlib.Logic.Function.Basic
import Wakterm.Machine.BinarySearch

/-!
# The `lfucache` crate

`LfuCache` from `lfucache/src/lib.rs`.
-/

namespace Wakterm.Lfucache

open Wakterm.Machine

variable {K V : Type} [DecidableEq K]

structure Entry (K V : Type) where
  freq : Nat
  lastTick : Nat
  key : K
  value : V

/-- `LfuCache`, with the heap of its entries and the next free place in it. -/
structure LfuCache (K V : Type) where
  cap : Nat
  buckets : List (List Nat)
  frequencyIndex : List Nat
  recencyIndex : List Nat
  len : Nat
  tick : Nat
  heap : Nat → Option (Entry K V)
  next : Nat

/-- The hasher and the tree. -/
structure Env (K : Type) where
  hash : K → Nat
  tree : OrderedIndex

/-- An eviction: the cache after the decay step, and the entry removed from it. -/
structure Eviction (K V : Type) where
  decayed : LfuCache K V
  victim : Nat

/-- What happened to the contents. -/
inductive Event (K V : Type) where
  | put (k : K) (v : V)
  | evict (eviction : Eviction K V)
  | clear

/-- `FrequenceAdapter::get_key`. -/
def freqOf (heap : Nat → Option (Entry K V)) (p : Nat) : Nat :=
  match heap p with
  | some e => e.freq
  | none => 0

/-- `cursor_mut_from_ptr(entry).remove()`: the entry has to be in the list. -/
def unlink (p : Nat) (l : List Nat) : Option (List Nat) :=
  if p ∈ l then some (l.erase p) else none

/-- The first entry of a bucket with this key. -/
def findKey (heap : Nat → Option (Entry K V)) (k : K) (bucket : List Nat) : Option Nat :=
  bucket.find? fun p => match heap p with
    | some e => e.key = k
    | none => false

/-- `len -= 1`. -/
def decr (n : Nat) : Option Nat := if 0 < n then some (n - 1) else none

/-- `usize::next_power_of_two`: the smallest power of two that is not below `n`. -/
def nextPowerOfTwo (n : Nat) : Nat := if n ≤ 1 then 1 else 2 ^ (Nat.log2 (n - 1) + 1)

/-- `a / b`. -/
def div (a b : Nat) : Option Nat := if b = 0 then none else some (a / b)

namespace LfuCache

def new (cap : Nat) : LfuCache K V where
  cap := cap
  buckets := List.replicate (nextPowerOfTwo (cap / 10)) []
  frequencyIndex := []
  recencyIndex := []
  len := 0
  tick := 0
  heap := fun _ => none
  next := 0

def bucketForKey (env : Env K) (s : LfuCache K V) (k : K) : Option Nat :=
  if s.buckets.length = 0 then none else some (env.hash k % s.buckets.length)

/-- The loops of `grow_hash`: entries are taken from the front of the old buckets and put at
the front of the new ones. -/
def rehash (env : Env K) (heap : Nat → Option (Entry K V)) :
    List Nat → List (List Nat) → Option (List (List Nat))
  | [], buckets => some buckets
  | p :: ps, buckets => do
    let e ← heap p
    let i := env.hash e.key % buckets.length
    let bucket ← buckets[i]?
    rehash env heap ps (buckets.set i (p :: bucket))

def growHash (env : Env K) (s : LfuCache K V) : Option (LfuCache K V) := do
  let buckets ← rehash env s.heap s.buckets.flatten (List.replicate (s.buckets.length * 2) [])
  return { s with buckets := buckets }

/-- The divisor of the decay step: the ticks since the last use by `u32` subtraction, tens of
them, cast to `u16`. -/
def delta (tick lastTick : Nat) : Nat := (tick + 2 ^ 32 - lastTick) % 2 ^ 32 / 10 % 2 ^ 16

def decayLeastRecent (env : Env K) (s : LfuCache K V) : Option (LfuCache K V) :=
  match s.recencyIndex.getLast? with
  | none => some s
  | some p => do
    let e ← s.heap p
    if e.freq = 0 then return s
    else
      let delta := delta s.tick e.lastTick
      if delta ≤ 1 then return s
      else
        let frequencyIndex ← unlink p s.frequencyIndex
        let freq ← div e.freq delta
        let heap := Function.update s.heap p (some { e with freq := freq })
        return { s with
          heap := heap
          frequencyIndex := env.tree.insert (freqOf heap) p frequencyIndex
          recencyIndex := p :: s.recencyIndex.dropLast }

def evictOne (env : Env K) (s : LfuCache K V) : Option (LfuCache K V × List (Event K V)) := do
  let s ← s.decayLeastRecent env
  -- `lower_bound_mut(Bound::Included(&0))`
  match s.frequencyIndex.find? (fun p => 0 ≤ freqOf s.heap p) with
  | none => return (s, [])
  | some p =>
    let frequencyIndex ← unlink p s.frequencyIndex
    let e ← s.heap p
    let i ← s.bucketForKey env e.key
    let bucket ← s.buckets[i]?
    let bucket ← unlink p bucket
    let recencyIndex ← unlink p s.recencyIndex
    let len ← decr s.len
    return ({ s with
      buckets := s.buckets.set i bucket
      frequencyIndex := frequencyIndex
      recencyIndex := recencyIndex
      len := len }, [.evict ⟨s, p⟩])

/-- The loops around `evict_one`, as long as `tooFull` holds of the number of entries. An eviction
takes one entry away and none is left after `len` turns: a loop that goes on then does not end. -/
def evictWhile (env : Env K) (tooFull : Nat → Bool) :
    Nat → LfuCache K V → Option (LfuCache K V × List (Event K V))
  | 0, _ => none
  | fuel + 1, s =>
    if tooFull s.len then do
      let (s, events) ← s.evictOne env
      let (s, more) ← evictWhile env tooFull fuel s
      return (s, events ++ more)
    else some (s, [])

/-- `update_config`, with the capacity that the configuration gives. -/
def updateConfig (env : Env K) (s : LfuCache K V) (newCap : Nat) :
    Option (LfuCache K V × List (Event K V)) :=
  if newCap ≠ s.cap then
    evictWhile env (fun len => len > newCap) (s.len + 1) { s with cap := newCap }
  else some (s, [])

def clear (s : LfuCache K V) : LfuCache K V :=
  { s with
    frequencyIndex := []
    recencyIndex := []
    buckets := s.buckets.map fun _ => []
    len := 0 }

def get (env : Env K) (s : LfuCache K V) (k : K) : Option (LfuCache K V × Option V) := do
  let i ← s.bucketForKey env k
  match s.buckets[i]? with
  | none => return (s, none)
  | some bucket =>
    match findKey s.heap k bucket with
    | none => return (s, none)
    | some p =>
      let recencyIndex ← unlink p s.recencyIndex
      let tick := (s.tick + 1) % 2 ^ 32
      let e ← s.heap p
      let frequencyIndex ← unlink p s.frequencyIndex
      let heap := Function.update s.heap p
        (some { e with lastTick := tick, freq := min (e.freq + 1) (2 ^ 16 - 1) })
      return ({ s with
        recencyIndex := p :: recencyIndex
        tick := tick
        heap := heap
        frequencyIndex := env.tree.insert (freqOf heap) p frequencyIndex }, some e.value)

/-- The first part of `put`: a prior value of the key is removed. -/
def removePrior (s : LfuCache K V) (i : Nat) (k : K) : Option (LfuCache K V) := do
  let bucket ← s.buckets[i]?
  match findKey s.heap k bucket with
  | none => return s
  | some p =>
    let frequencyIndex ← unlink p s.frequencyIndex
    let recencyIndex ← unlink p s.recencyIndex
    let bucket ← unlink p bucket
    let len ← decr s.len
    return { s with
      buckets := s.buckets.set i bucket
      frequencyIndex := frequencyIndex
      recencyIndex := recencyIndex
      len := len }

/-- The last part of `put`: the new entry goes into the containers. -/
def insertNew (env : Env K) (s : LfuCache K V) (i : Nat) (k : K) (v : V) :
    Option (LfuCache K V) := do
  let p := s.next
  let heap := Function.update s.heap p (some ⟨0, s.tick, k, v⟩)
  let bucket ← s.buckets[i]?
  return { s with
    heap := heap
    next := p + 1
    buckets := s.buckets.set i (p :: bucket)
    frequencyIndex := env.tree.insert (freqOf heap) p s.frequencyIndex
    recencyIndex := p :: s.recencyIndex
    len := s.len + 1 }

/-- The end of `put`: more buckets when there are many entries for them. -/
def growIfNeeded (env : Env K) (s : LfuCache K V) : Option (LfuCache K V) :=
  if s.buckets.length < s.cap ∧ s.len > s.buckets.length / 2 then s.growHash env else some s

def put (env : Env K) (s : LfuCache K V) (k : K) (v : V) :
    Option (LfuCache K V × List (Event K V)) := do
  let i ← s.bucketForKey env k
  let s := { s with tick := (s.tick + 1) % 2 ^ 32 }
  let s ← s.removePrior i k
  let (s, evicted) ← evictWhile env (fun len => len ≥ s.cap) (s.len + 1) s
  let s ← s.insertNew env i k v
  let s ← s.growIfNeeded env
  return (s, evicted)

end LfuCache

end Wakterm.Lfucache
