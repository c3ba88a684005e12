import Mathlib.Data.List.Perm.Basic
import Mathlib.Tactic.ByContra
import Wakterm.Blob.SimpleTempDir

/-!
# The references are the holders

A lease or a reader lives from the step that counts it to the step of its drop that gives the count
back.
-/

namespace Wakterm.Blob

open Machine

def Call.holds : Call → Bool
  | .running (.getReader _) _ => false
  | .running _ .lock => false
  | .running _ _ => true
  | .done _ => false

def Call.locks : Call → Bool
  | .running (.store _ _) .lock | .running (.leaseByContent _) .lock | .running (.getData _) .lock
  | .running (.drop _) .lock | .running (.getReader _) .addRef
  | .running (.leaseByContent _) .addRef => true
  | _ => false

/-- Does the call drop a lease or a reader of the content, that it has not yet given back? -/
def Call.drops (contentId : ContentId) : Call → Bool
  | .running (.drop dropped) _ => dropped = contentId
  | _ => false

namespace SimpleTempDir

/-- The leases and readers of a content that are alive. -/
def holders (s : SimpleTempDir) (contentId : ContentId) : Nat :=
  s.live.count contentId + s.calls.countP (·.drops contentId)

/-- No other content of the same name is alive. -/
def Alone (s : SimpleTempDir) (contentId : ContentId) : Prop :=
  ∀ other, other ≠ contentId → other.path = contentId.path → s.holders other = 0

/-- What the steps of a run have to meet: a content is leased by its id only when it is not there,
a reader is counted while there is another holder, what is stored is alone of its name, and a
removal does not fail. -/
def Fair (s : SimpleTempDir) (ok : Bool) : Call → Prop
  | .running (.leaseByContent contentId) .exists => s.files contentId.path = none
  | .running (.getReader contentId) .addRef => 0 < s.holders contentId
  | .running (.store contentId _) .exists => s.Alone contentId
  | .running (.drop _) .createDir | .running (.drop _) .remove => ok = true
  | _ => True

/-- The condition on a step. -/
def Meets (s : SimpleTempDir) : Event → Prop
  | .advance i ok => ∀ call, s.calls[i]? = some call → s.Fair ok call
  | _ => True

/-- What blob leases are for. -/
structure Sound (s : SimpleTempDir) : Prop where
  relock : ∀ (i : Nat) (call : Call), s.calls[i]? = some call → call.locks = true → s.locked ≠ some i
  counted : ∀ contentId, (s.refs contentId).getD 0 = s.holders contentId
  underflow : s.underflow = false
  kept : ∀ contentId, 0 < s.holders contentId → (s.files contentId.path).isSome
  removed : ∀ path, (s.files path).isSome →
    ∃ contentId : ContentId, contentId.path = path ∧ 0 < s.holders contentId

/-- What a call that has the lock knows. -/
def Fits (s : SimpleTempDir) : Call → Prop
  | .running (.store contentId _) .createFile | .running (.store contentId _) .write
  | .running (.store contentId _) .persist => s.Alone contentId
  | .running (.leaseByContent _) .addRef => False
  | .running (.drop contentId) .createDir | .running (.drop contentId) .remove =>
    s.refs contentId = some 1
  | _ => True

/-- The references, the files and the holders agree. -/
structure Agrees (s : SimpleTempDir) : Prop where
  counted : ∀ contentId, (s.refs contentId).getD 0 = s.holders contentId
  underflow : s.underflow = false
  kept : ∀ contentId, 0 < s.holders contentId → (s.files contentId.path).isSome
  removed : ∀ path, (s.files path).isSome →
    ∃ contentId : ContentId, contentId.path = path ∧ 0 < s.holders contentId
  apart : ∀ contentId, 0 < s.holders contentId → s.Alone contentId

/-- What is preserved. -/
structure Inv (s : SimpleTempDir) : Prop extends s.Agrees where
  holder : ∀ i : Nat, s.locked = some i → i < s.calls.length
  lock : ∀ (i : Nat) (call : Call), s.calls[i]? = some call →
    (call.holds = true ↔ s.locked = some i)
  fits : ∀ (i : Nat) (call : Call), s.calls[i]? = some call → s.Fits call

theorem new_inv : new.Inv := by
  have hnone : ∀ contentId, new.holders contentId = 0 := fun _ => rfl
  refine ⟨⟨fun _ => rfl, rfl, fun contentId h => ?_, fun path h => ?_, fun contentId h => ?_⟩,
    fun i h => ?_, fun i call h => ?_, fun i call h => ?_⟩
  · exact absurd h (by simp [hnone])
  · exact absurd h (by simp [new])
  · exact absurd h (by simp [hnone])
  · exact absurd h (by simp [new])
  · exact absurd h (by simp [new])
  · exact absurd h (by simp [new])

variable {s s' : SimpleTempDir} {call call' : Call} {i : Nat}
  {files : List Char → Option (List UInt8)}

theorem Inv.sound (h : s.Inv) : s.Sound := by
  refine ⟨fun i call hcall hlocks heq => ?_, h.counted, h.underflow, h.kept, h.removed⟩
  have hholds := (h.lock i call hcall).2 heq
  have hfits := h.fits i call hcall
  cases call with
  | done outcome => simp [Call.locks] at hlocks
  | running op phase =>
    cases op <;> cases phase <;>
      first
        | exact absurd hlocks Bool.false_ne_true
        | exact absurd hholds Bool.false_ne_true
        | exact hfits

/-! ## What a step leaves as it is -/

theorem fits_of_not_holds (h : call.holds = false) : s.Fits call := by
  cases call with
  | done outcome => trivial
  | running op phase => cases op <;> cases phase <;> trivial

theorem Fits.congr (h : s.Fits call) (hrefs : s'.refs = s.refs)
    (hholders : ∀ contentId, s'.holders contentId = s.holders contentId) : s'.Fits call := by
  have halone : ∀ contentId, s.Alone contentId → s'.Alone contentId := by
    intro contentId halone other hne hpath
    rw [hholders]
    exact halone other hne hpath
  cases call with
  | done outcome => trivial
  | running op phase =>
    cases op <;> cases phase <;>
      first
        | trivial
        | exact halone _ h
        | exact h
        | (show s'.refs _ = some 1
           rw [hrefs]
           exact h)

theorem Inv.not_holds (h : s.Inv) {j : Nat} (hlock : s.locked = none ∨ s.locked = some i)
    (hne : j ≠ i) (hcall : s.calls[j]? = some call) : call.holds = false := by
  cases hholds : call.holds with
  | false => rfl
  | true =>
    have heq := (h.lock j call hcall).1 hholds
    rcases hlock with hlock | hlock
    · rw [hlock] at heq
      exact absurd heq (by simp)
    · rw [hlock, Option.some.injEq] at heq
      exact absurd heq.symm hne

theorem Inv.released (h : s.Inv) (outcome : Outcome) (hlock : s.locked = none ∨ s.locked = some i) :
    ∀ (j : Nat) (call : Call), (s.calls.set i (.done outcome))[j]? = some call →
      call.holds = false := by
  intro j call hj
  rw [List.getElem?_set] at hj
  split at hj
  · split at hj
    · cases hj
      rfl
    · simp at hj
  · next hne => exact h.not_holds hlock (Ne.symm hne) hj

theorem count_set {calls : List Call} (hcall : calls[i]? = some call)
    (hdrops : ∀ contentId, call'.drops contentId = call.drops contentId) (contentId : ContentId) :
    (calls.set i call').countP (·.drops contentId) = calls.countP (·.drops contentId) := by
  have hset := countP_set_of_get (p := (·.drops contentId)) (b := call') hcall
  rw [hdrops] at hset
  omega

theorem Agrees.congr (h : s.Agrees) (hrefs : s'.refs = s.refs) (hfiles : s'.files = s.files)
    (hunderflow : s'.underflow = s.underflow)
    (hholders : ∀ contentId, s'.holders contentId = s.holders contentId) : s'.Agrees := by
  refine ⟨fun contentId => ?_, hunderflow.trans h.underflow, fun contentId hpos => ?_,
    fun path hfile => ?_, fun contentId hpos => ?_⟩
  · rw [hrefs, hholders]
    exact h.counted contentId
  · rw [hholders] at hpos
    rw [hfiles]
    exact h.kept contentId hpos
  · rw [hfiles] at hfile
    obtain ⟨contentId, hpath, hpos⟩ := h.removed path hfile
    exact ⟨contentId, hpath, by rwa [hholders]⟩
  · rw [hholders] at hpos
    intro other hne hpath
    rw [hholders]
    exact h.apart contentId hpos other hne hpath

theorem Agrees.inv (h : s.Agrees) (hlock : s.locked = none)
    (hcalls : ∀ (i : Nat) (call : Call), s.calls[i]? = some call → call.holds = false) : s.Inv := by
  refine ⟨h, fun i hi => ?_, fun i call hi => ?_, fun i call hi => ?_⟩
  · rw [hlock] at hi
    exact absurd hi (by simp)
  · rw [hlock, hcalls i call hi]
    simp
  · exact fits_of_not_holds (hcalls i call hi)

/-! ## The parts of a step -/

theorem begin_inv (h : s.Inv) {live : List ContentId} {op : Op} {phase : Phase}
    (hholds : (Call.running op phase).holds = false) (hlive : ∀ contentId, live.count contentId +
      (if (Call.running op phase).drops contentId then 1 else 0) = s.live.count contentId) :
    ({ s with live := live }.begin op phase).Inv := by
  have hholders : ∀ contentId,
      ({ s with live := live }.begin op phase).holders contentId = s.holders contentId := by
    intro contentId
    show live.count contentId + (s.calls ++ [_]).countP _ = s.live.count contentId + _
    rw [List.countP_append, List.countP_singleton, ← hlive]
    omega
  refine ⟨h.toAgrees.congr rfl rfl rfl hholders, fun i hi => ?_,
    forall_concat (fun i call hi => h.lock i call hi) ?_, forall_concat (fun i call hi => ?_) ?_⟩
  · show i < (s.calls ++ [_]).length
    have hlt := h.holder i hi
    rw [List.length_append]
    omega
  · rw [hholds]
    refine ⟨fun hfalse => absurd hfalse Bool.false_ne_true, fun heq => ?_⟩
    exact absurd (h.holder _ heq) (Nat.lt_irrefl _)
  · exact (h.fits i call hi).congr rfl hholders
  · exact fits_of_not_holds hholds

theorem holders_goto (hcall : s.calls[i]? = some call)
    (hdrops : ∀ contentId, call'.drops contentId = call.drops contentId) (contentId : ContentId) :
    (s.goto i call').holders contentId = s.holders contentId := by
  show _ + (s.calls.set i call').countP _ = _
  rw [count_set hcall hdrops]
  rfl

theorem goto_inv (h : s.Inv) (hcall : s.calls[i]? = some call) (hholds : call'.holds = call.holds)
    (hdrops : ∀ contentId, call'.drops contentId = call.drops contentId) (hfits : s.Fits call') :
    (s.goto i call').Inv := by
  have hholders := holders_goto hcall hdrops
  refine ⟨h.toAgrees.congr rfl rfl rfl hholders, fun i hi => ?_,
    forall_set (fun i call _ hi => h.lock i call hi) ?_, forall_set (fun i call _ hi => ?_) ?_⟩
  · show i < (s.calls.set _ _).length
    rw [List.length_set]
    exact h.holder i hi
  · rw [hholds]
    exact h.lock i call hcall
  · exact (h.fits i call hi).congr rfl hholders
  · exact hfits.congr rfl hholders

theorem acquire_inv (h : s.Inv) (hcall : s.calls[i]? = some call) (hlock : s.locked = none)
    (hholds : call'.holds = true)
    (hdrops : ∀ contentId, call'.drops contentId = call.drops contentId) (hfits : s.Fits call') :
    ({ s with locked := some i }.goto i call').Inv := by
  have hholders : ∀ contentId,
      ({ s with locked := some i }.goto i call').holders contentId = s.holders contentId :=
    holders_goto hcall hdrops
  have hothers : ∀ (j : Nat) (call : Call), (s.calls.set i call')[j]? = some call →
      call.holds = true → j = i := by
    intro j other hj hother
    by_contra hne
    rw [get_set_other hne] at hj
    rw [h.not_holds (.inl hlock) (i := i) hne hj] at hother
    exact Bool.false_ne_true hother
  have hat : (s.calls.set i call')[i]? = some call' := get_set_self hcall
  refine ⟨h.toAgrees.congr rfl rfl rfl hholders, fun j hj => ?_, fun j other hj => ?_,
    forall_set (fun i call _ hi => ?_) ?_⟩
  · cases hj
    show i < (s.calls.set _ _).length
    rw [List.length_set]
    exact (List.getElem?_eq_some_iff.1 hcall).1
  · constructor
    · intro hother
      rw [hothers j other hj hother]
      rfl
    · intro heq
      obtain rfl : i = j := Option.some.inj heq
      obtain rfl : call' = other := Option.some.inj (hat.symm.trans hj)
      exact hholds
  · exact (h.fits i call hi).congr rfl hholders
  · exact hfits.congr rfl hholders

theorem leave_inv (h : s.Inv) (hcall : s.calls[i]? = some call) (hholds : call.holds = true)
    (hdrops : ∀ contentId, call.drops contentId = false) (outcome : Outcome) :
    (s.leave i outcome).Inv := by
  have hlock := (h.lock i call hcall).1 hholds
  refine Agrees.inv (h.toAgrees.congr rfl rfl rfl ?_) rfl (h.released outcome (.inr hlock))
  exact holders_goto hcall fun contentId => (hdrops contentId).symm

theorem increment_inv (h : s.Inv) (hcall : s.calls[i]? = some call)
    (hlock : s.locked = none ∨ s.locked = some i)
    (hdrops : ∀ contentId, call.drops contentId = false) {contentId : ContentId}
    (halone : s.Alone contentId) (hfile : (files contentId.path).isSome)
    (hothers : ∀ path, path ≠ contentId.path → files path = s.files path) (locked : Option Nat) :
    (({ s with locked := locked, files := files }.increment contentId).handOut i contentId).Inv := by
  have hholders : ∀ other,
      (({ s with locked := locked, files := files }.increment contentId).handOut i contentId).holders
        other = s.holders other + if other = contentId then 1 else 0 := by
    intro other
    have hdone : ∀ other, (Call.done (.ok [])).drops other = call.drops other :=
      fun other => (hdrops other).symm
    have hset := count_set hcall hdone other
    show (contentId :: s.live).count other + (s.calls.set i _).countP _ = _
    rw [hset, List.count_cons]
    unfold holders
    by_cases heq : other = contentId
    · rw [if_pos heq, if_pos (beq_iff_eq.2 heq.symm)]
      omega
    · rw [if_neg heq, if_neg (by simpa using Ne.symm heq)]
      omega
  refine Agrees.inv ⟨fun other => ?_, h.underflow, fun other hpos => ?_, fun path hpath => ?_,
    fun other hpos => ?_⟩ rfl (h.released (.ok []) hlock)
  · rw [hholders]
    have hcount := h.counted other
    show (Function.update s.refs contentId _ other).getD 0 = _
    by_cases heq : other = contentId
    · subst heq
      rw [Function.update_self, if_pos rfl, ← hcount]
      rfl
    · rw [Function.update_of_ne heq, if_neg heq, hcount]
      rfl
  · rw [hholders] at hpos
    show (files other.path).isSome
    by_cases hpath : other.path = contentId.path
    · rw [hpath]
      exact hfile
    · rw [hothers _ hpath]
      refine h.kept other ?_
      rw [if_neg (fun heq => hpath (congrArg ContentId.path heq))] at hpos
      exact hpos
  · by_cases heq : path = contentId.path
    · refine ⟨contentId, heq.symm, ?_⟩
      rw [hholders, if_pos rfl]
      omega
    · change (files path).isSome at hpath
      rw [hothers _ heq] at hpath
      obtain ⟨other, hother, hpos⟩ := h.removed path hpath
      refine ⟨other, hother, ?_⟩
      rw [hholders]
      omega
  · rw [hholders] at hpos
    intro other' hne hpath
    rw [hholders]
    -- two of one name: one of them is the new one, and that is alone
    by_cases heq : other' = contentId
    · subst heq
      have hzero := halone other (Ne.symm hne) hpath.symm
      rw [if_neg (Ne.symm hne)] at hpos
      omega
    · rw [if_neg heq]
      by_cases hself : other = contentId
      · subst hself
        exact halone other' hne hpath
      · rw [if_neg hself] at hpos
        exact h.apart other hpos other' hne hpath

theorem decrement_inv (h : s.Inv) {contentId : ContentId} {phase : Phase}
    (hcall : s.calls[i]? = some (.running (.drop contentId) phase))
    (hlock : s.locked = none ∨ s.locked = some i) {count : Nat}
    (hrefs : s.refs contentId = some (count + 1)) (hlast : count = 0 → files contentId.path = none)
    (hkept : 0 < count → files contentId.path = s.files contentId.path)
    (hothers : ∀ path, path ≠ contentId.path → files path = s.files path) (locked : Option Nat) :
    (({ s with locked := locked, files := files }.setCount contentId count).leave i (.ok [])).Inv := by
  have hcount : s.holders contentId = count + 1 := by
    rw [← h.counted, hrefs]
    rfl
  have hholders : ∀ other,
      (({ s with locked := locked, files := files }.setCount contentId count).leave i
        (.ok [])).holders other + (if other = contentId then 1 else 0) = s.holders other := by
    intro other
    have hset := countP_set_of_get (p := (·.drops other)) (b := .done (.ok [])) hcall
    show s.live.count other + (s.calls.set i _).countP _ + _ = _
    unfold holders
    by_cases heq : other = contentId
    · subst heq
      simp only [Call.drops, decide_true, if_true, Bool.false_eq_true, if_false] at hset ⊢
      omega
    · simp only [Call.drops, decide_eq_false (Ne.symm heq), heq, Bool.false_eq_true,
        if_false] at hset ⊢
      omega
  have hsame : ∀ other, other ≠ contentId →
      (({ s with locked := locked, files := files }.setCount contentId count).leave i
        (.ok [])).holders other = s.holders other := by
    intro other hne
    have hother := hholders other
    rwa [if_neg hne] at hother
  have hself := hholders contentId
  rw [if_pos rfl] at hself
  have halone := h.apart contentId (by omega)
  refine Agrees.inv ⟨fun other => ?_, h.underflow, fun other hpos => ?_, fun path hpath => ?_,
    fun other hpos other' hne hpath => ?_⟩ rfl (h.released _ hlock)
  · show (Function.update s.refs contentId (some count) other).getD 0 = _
    by_cases heq : other = contentId
    · subst heq
      rw [Function.update_self]
      show count = _
      omega
    · rw [Function.update_of_ne heq, hsame other heq]
      exact h.counted other
  · show (files other.path).isSome
    by_cases heq : other = contentId
    · subst heq
      rw [hkept (by omega)]
      exact h.kept other (by omega)
    · rw [hsame other heq] at hpos
      rw [hothers _ fun hpath => by have := halone other heq hpath; omega]
      exact h.kept other hpos
  · change (files path).isSome at hpath
    by_cases heq : path = contentId.path
    · subst heq
      have hcount' : count ≠ 0 := fun hzero => by simp [hlast hzero] at hpath
      exact ⟨contentId, rfl, by omega⟩
    · rw [hothers _ heq] at hpath
      obtain ⟨other, hother, hpos⟩ := h.removed path hpath
      refine ⟨other, hother, ?_⟩
      rw [hsame other fun hc => heq (hother ▸ hc ▸ rfl)]
      exact hpos
  · have hle := hholders other'
    have hle' := hholders other
    have := h.apart other (by omega) other' hne hpath
    omega

/-! ## The operations -/

theorem acquire_eq_some (h : s.acquire i = some s') :
    s.locked = none ∧ s' = { s with locked := some i } := by
  unfold acquire at h
  split at h
  · next hfree => exact ⟨hfree, (Option.some.inj h).symm⟩
  · exact absurd h (by simp)

section Operations

variable {s s' : SimpleTempDir} {i : Nat} {ok : Bool} {contentId : ContentId} {phase : Phase}

theorem stepStore_inv {data : List UInt8} (h : s.Inv)
    (hcall : s.calls[i]? = some (.running (.store contentId data) phase))
    (hfair : s.Fair ok (.running (.store contentId data) phase))
    (hstep : s.stepStore i contentId data ok phase = some s') : s'.Inv := by
  have hfits := h.fits i _ hcall
  have hlock := h.lock i _ hcall
  cases phase <;> simp only [stepStore, reduceCtorEq, Option.map_eq_some_iff] at hstep
  case lock =>
    obtain ⟨t, ht, rfl⟩ := hstep
    obtain ⟨hfree, rfl⟩ := acquire_eq_some ht
    exact acquire_inv h hcall hfree rfl (fun _ => rfl) trivial
  case createDir =>
    split at hstep
    · cases hstep
      exact goto_inv h hcall rfl (fun _ => rfl) trivial
    · cases hstep
      exact leave_inv h hcall rfl (fun _ => rfl) _
  case «exists» =>
    split at hstep
    · next hthere =>
      cases hstep
      rw [Bool.and_eq_true] at hthere
      exact increment_inv h hcall (.inr (hlock.1 rfl)) (fun _ => rfl) hfair hthere.2
        (fun _ _ => rfl) s.locked
    · cases hstep
      exact goto_inv h hcall rfl (fun _ => rfl) hfair
  case createFile =>
    split at hstep
    · cases hstep
      exact goto_inv h hcall rfl (fun _ => rfl) hfits
    · cases hstep
      exact leave_inv h hcall rfl (fun _ => rfl) _
  case write =>
    split at hstep
    · cases hstep
      exact goto_inv h hcall rfl (fun _ => rfl) hfits
    · cases hstep
      exact leave_inv h hcall rfl (fun _ => rfl) _
  case persist =>
    split at hstep
    · cases hstep
      refine increment_inv h hcall (.inr (hlock.1 rfl)) (fun _ => rfl) hfits ?_ ?_ s.locked
      · rw [Function.update_self]
        rfl
      · exact fun path hne => Function.update_of_ne hne _ _
    · cases hstep
      exact leave_inv h hcall rfl (fun _ => rfl) _

theorem stepLease_inv (h : s.Inv)
    (hcall : s.calls[i]? = some (.running (.leaseByContent contentId) phase))
    (hfair : s.Fair ok (.running (.leaseByContent contentId) phase))
    (hstep : s.stepLease i contentId ok phase = some s') : s'.Inv := by
  have hfits := h.fits i _ hcall
  cases phase <;> simp only [stepLease, reduceCtorEq, Option.map_eq_some_iff] at hstep
  case lock =>
    obtain ⟨t, ht, rfl⟩ := hstep
    obtain ⟨hfree, rfl⟩ := acquire_eq_some ht
    exact acquire_inv h hcall hfree rfl (fun _ => rfl) trivial
  case createDir =>
    split at hstep
    · cases hstep
      exact goto_inv h hcall rfl (fun _ => rfl) trivial
    · cases hstep
      exact leave_inv h hcall rfl (fun _ => rfl) _
  case «exists» =>
    -- the content is not there
    have hnone : s.files contentId.path = none := hfair
    rw [hnone] at hstep
    simp only [Option.isSome_none, Bool.and_false, Bool.false_eq_true, if_false,
      Option.some.injEq] at hstep
    subst hstep
    exact leave_inv h hcall rfl (fun _ => rfl) _
  case addRef => exact hfits.elim

theorem stepData_inv (h : s.Inv) (hcall : s.calls[i]? = some (.running (.getData contentId) phase))
    (hstep : s.stepData i contentId ok phase = some s') : s'.Inv := by
  cases phase <;> simp only [stepData, reduceCtorEq, Option.map_eq_some_iff] at hstep
  case lock =>
    obtain ⟨t, ht, rfl⟩ := hstep
    obtain ⟨hfree, rfl⟩ := acquire_eq_some ht
    exact acquire_inv h hcall hfree rfl (fun _ => rfl) trivial
  case createDir =>
    split at hstep
    · cases hstep
      exact goto_inv h hcall rfl (fun _ => rfl) trivial
    · cases hstep
      exact leave_inv h hcall rfl (fun _ => rfl) _
  case read =>
    have hleave : ∃ outcome, s' = s.leave i outcome := by
      split at hstep
      · split at hstep
        · exact ⟨_, (Option.some.inj hstep).symm⟩
        · exact ⟨_, (Option.some.inj hstep).symm⟩
      · exact ⟨_, (Option.some.inj hstep).symm⟩
    obtain ⟨outcome, rfl⟩ := hleave
    exact leave_inv h hcall rfl (fun _ => rfl) outcome

theorem stepReader_inv (h : s.Inv)
    (hcall : s.calls[i]? = some (.running (.getReader contentId) phase))
    (hfair : s.Fair ok (.running (.getReader contentId) phase))
    (hstep : s.stepReader i contentId ok phase = some s') : s'.Inv := by
  cases phase <;> simp only [stepReader, reduceCtorEq, Option.map_eq_some_iff] at hstep
  case createDir =>
    split at hstep
    · cases hstep
      exact goto_inv h hcall rfl (fun _ => rfl) trivial
    · cases hstep
      exact goto_inv h hcall rfl (fun _ => rfl) trivial
  case «open» =>
    split at hstep
    · cases hstep
      exact goto_inv h hcall rfl (fun _ => rfl) trivial
    · cases hstep
      exact goto_inv h hcall rfl (fun _ => rfl) trivial
  case addRef =>
    obtain ⟨t, ht, rfl⟩ := hstep
    obtain ⟨hfree, rfl⟩ := acquire_eq_some ht
    -- another holder keeps the file
    have hpos : 0 < s.holders contentId := hfair
    exact increment_inv h hcall (.inl hfree) (fun _ => rfl) (h.apart contentId hpos)
      (h.kept contentId hpos) (fun _ _ => rfl) (some i)

theorem stepDrop_inv (h : s.Inv) (hcall : s.calls[i]? = some (.running (.drop contentId) phase))
    (hfair : s.Fair ok (.running (.drop contentId) phase))
    (hstep : s.stepDrop i contentId ok phase = some s') : s'.Inv := by
  have hfits := h.fits i _ hcall
  have hlock := h.lock i _ hcall
  have hpos : 0 < s.holders contentId := by
    have hcount := countP_pos_of_get (p := (·.drops contentId)) hcall (by simp [Call.drops])
    unfold holders
    omega
  cases phase <;> simp only [stepDrop, reduceCtorEq, Option.map_eq_some_iff] at hstep
  case lock =>
    obtain ⟨t, ht, hstep⟩ := hstep
    obtain ⟨hfree, rfl⟩ := acquire_eq_some ht
    have hcounted := h.counted contentId
    unfold delRef at hstep
    split at hstep
    · next hzero =>
      rw [hzero] at hcounted
      simp only [Option.getD_some] at hcounted
      omega
    · next hone =>
      subst hstep
      exact acquire_inv h hcall hfree rfl (fun _ => rfl) hone
    · next count hmore =>
      subst hstep
      exact decrement_inv h hcall (.inl hfree) hmore (fun hzero => absurd hzero (by omega))
        (fun _ => rfl) (fun _ _ => rfl) (some i)
    · next hnone =>
      rw [hnone] at hcounted
      simp only [Option.getD_none] at hcounted
      omega
  case createDir =>
    have hok : ok = true := hfair
    subst hok
    cases hstep
    exact goto_inv h hcall rfl (fun _ => rfl) hfits
  case remove =>
    have hok : ok = true := hfair
    subst hok
    cases hstep
    refine decrement_inv h hcall (.inr (hlock.1 rfl)) hfits (fun _ => ?_)
      (fun hfalse => absurd hfalse (Nat.lt_irrefl _))
      (fun path hne => Function.update_of_ne hne _ _) s.locked
    rw [Function.update_self]

end Operations

theorem step_inv {e : Event} (h : s.Inv) (hmeets : s.Meets e) (hstep : s.step e = some s') :
    s'.Inv := by
  cases e with
  | store contentId data =>
    cases hstep
    exact begin_inv h rfl fun _ => rfl
  | leaseByContent contentId =>
    cases hstep
    exact begin_inv h rfl fun _ => rfl
  | getData contentId =>
    cases hstep
    exact begin_inv h rfl fun _ => rfl
  | getReader contentId =>
    cases hstep
    exact begin_inv h rfl fun _ => rfl
  | drop holder =>
    obtain ⟨contentId, hat, rfl⟩ := Option.map_eq_some_iff.1 hstep
    refine begin_inv h rfl fun other => ?_
    obtain ⟨hlt, hget⟩ := List.getElem?_eq_some_iff.1 hat
    have hperm := (List.getElem_cons_eraseIdx_perm hlt).count_eq other
    rw [hget, List.count_cons] at hperm
    rw [← hperm]
    by_cases heq : contentId = other
    · simp [Call.drops, heq]
    · simp [Call.drops, heq]
  | advance i ok =>
    obtain ⟨call, hcall, hadvance⟩ := Option.bind_eq_some_iff.1 hstep
    have hfair := hmeets call hcall
    cases call with
    | done outcome => exact absurd hadvance (by simp [advance])
    | running op phase =>
      cases op with
      | store contentId data => exact stepStore_inv h hcall hfair hadvance
      | leaseByContent contentId => exact stepLease_inv h hcall hfair hadvance
      | getData contentId => exact stepData_inv h hcall hadvance
      | getReader contentId => exact stepReader_inv h hcall hfair hadvance
      | drop contentId => exact stepDrop_inv h hcall hfair hadvance

end SimpleTempDir

end Wakterm.Blob
