import Mathlib.Data.List.Basic
import Mathlib.Data.List.Induction
import Mathlib.Data.List.Infix

/-!
# Append-only logs

What a run has done, oldest entry first. An entry is known by its position, which no later
entry changes; "afterwards" means at a later position.
-/

namespace Wakterm.Machine

variable {E : Type*} {log : List E} {i j : Nat} {e x : E} {p q : E → Prop}

/-- Entry `e` stands at position `i`. -/
def At (log : List E) (i : Nat) (e : E) : Prop := log[i]? = some e

/-- An entry past position `i` satisfies `p`. -/
def After (log : List E) (i : Nat) (p : E → Prop) : Prop := ∃ j e, i < j ∧ At log j e ∧ p e

theorem At.lt (h : At log i e) : i < log.length := by
  obtain ⟨hi, -⟩ := List.getElem?_eq_some_iff.mp h
  exact hi

theorem At.unique (h : At log i e) (h' : At log i x) : e = x :=
  Option.some.inj (h.symm.trans h')

theorem at_nil : ¬ At ([] : List E) i e := by
  simp [At]

theorem at_concat : At (log ++ [x]) i e ↔ At log i e ∨ i = log.length ∧ e = x := by
  unfold At
  rw [List.getElem?_append]
  split
  · next hi =>
    constructor
    · exact .inl
    · rintro (h | ⟨rfl, -⟩)
      · exact h
      · exact absurd hi (Nat.lt_irrefl _)
  · next hi =>
    rw [List.getElem?_eq_none (Nat.le_of_not_lt hi), List.getElem?_singleton]
    constructor
    · intro h
      split at h
      · next h0 => exact .inr ⟨by omega, (Option.some.inj h).symm⟩
      · cases h
    · rintro (h | ⟨rfl, rfl⟩)
      · cases h
      · simp

theorem At.concat (h : At log i e) (x : E) : At (log ++ [x]) i e :=
  at_concat.mpr (.inl h)

theorem After.concat (h : After log i p) (x : E) : After (log ++ [x]) i p := by
  obtain ⟨j, e, hj, hat, hp⟩ := h
  exact ⟨j, e, hj, hat.concat x, hp⟩

theorem after_concat_self (hi : i < log.length) (hp : p x) : After (log ++ [x]) i p :=
  ⟨log.length, x, hi, at_concat.mpr (.inr ⟨rfl, rfl⟩), hp⟩

theorem after_concat (h : After (log ++ [x]) i p) : After log i p ∨ p x := by
  obtain ⟨j, e, hj, hat, hp⟩ := h
  rcases at_concat.mp hat with hat | ⟨-, rfl⟩
  · exact .inl ⟨j, e, hj, hat, hp⟩
  · exact .inr hp

theorem not_after_end (h : log.length ≤ i + 1) : ¬ After log i p := by
  rintro ⟨j, e, hj, hat, -⟩
  have := hat.lt
  omega

end Wakterm.Machine

/-!
## Logs that are pruned

Entries are numbered from the outset; the oldest ones may be gone.
-/

namespace Wakterm.Machine

variable {E : Type*}

/-- What is left of a log: `first` is the number of its oldest entry. -/
structure Pruned (E : Type*) where
  first : Nat
  entries : List E

namespace Pruned

variable {l m n : Pruned E}

def entry (l : Pruned E) (i : Nat) : Option E :=
  if i < l.first then none else l.entries[i - l.first]?

/-- The log `m` has gone on from `l`: some of the oldest entries are gone, and others came in behind
the newest. -/
def Extends (m l : Pruned E) : Prop :=
  ∃ gone, m.first = l.first + gone ∧ l.entries.drop gone <+: m.entries

theorem Extends.refl (l : Pruned E) : l.Extends l := ⟨0, rfl, List.prefix_rfl⟩

theorem Extends.trans (h : n.Extends m) (h' : m.Extends l) : n.Extends l := by
  obtain ⟨gone, hfirst, hentries⟩ := h
  obtain ⟨gone', hfirst', hentries'⟩ := h'
  refine ⟨gone' + gone, by omega, ?_⟩
  rw [← List.drop_drop]
  exact (hentries'.drop gone).trans hentries

theorem Extends.entry (h : m.Extends l) {i : Nat} {e : E} (hi : l.entry i = some e) :
    i < m.first ∨ m.entry i = some e := by
  obtain ⟨gone, hfirst, hentries⟩ := h
  unfold Pruned.entry at hi ⊢
  split at hi
  · cases hi
  · by_cases hgone : i < m.first
    · exact .inl hgone
    · right
      rw [if_neg hgone]
      have hleft : (l.entries.drop gone)[i - m.first]? = some e := by
        rw [List.getElem?_drop, hfirst]
        rw [show gone + (i - (l.first + gone)) = i - l.first by omega]
        exact hi
      obtain ⟨rest, hrest⟩ := hentries
      rw [← hrest, List.getElem?_append_left (List.getElem?_eq_some_iff.mp hleft).1]
      exact hleft

end Pruned

/-! ### Edits behind the front -/

section Front

variable {front l : List E} {i : Nat} {a : E}

theorem prefix_set (h : front <+: l) (hi : front.length ≤ i) (a : E) : front <+: l.set i a := by
  obtain ⟨rest, rfl⟩ := h
  rw [List.set_append_right _ _ hi]
  exact List.prefix_append front _

theorem prefix_eraseIdx (h : front <+: l) (hi : front.length ≤ i) : front <+: l.eraseIdx i := by
  obtain ⟨rest, rfl⟩ := h
  rw [List.eraseIdx_append_of_length_le hi]
  exact List.prefix_append front _

theorem prefix_insertIdx (h : front <+: l) (hi : front.length ≤ i) (a : E) :
    front <+: l.insertIdx i a := by
  induction front generalizing l i with
  | nil => exact List.nil_prefix
  | cons b front ih =>
    obtain ⟨rest, rfl⟩ := h
    obtain ⟨i, rfl⟩ := Nat.exists_eq_add_of_le' (Nat.one_le_of_lt hi)
    rw [List.cons_append, List.insertIdx_succ_cons, List.cons_prefix_cons]
    exact ⟨rfl, ih (List.prefix_append front rest) (Nat.le_of_succ_le_succ hi)⟩

end Front

end Wakterm.Machine

/-!
## Machines that take steps

A machine takes a step on an event, or refuses it.
-/

namespace Wakterm.Machine

section Steps

variable {σ ε : Type} {step : σ → ε → Option σ} {ok : σ → ε → Prop} {start s s' : σ}

/-- The states that steps under a condition lead to. -/
inductive Steps (step : σ → ε → Option σ) (ok : σ → ε → Prop) (start : σ) : σ → Prop
  | refl : Steps step ok start start
  | tail {s s' : σ} {e : ε} (h : Steps step ok start s) (hok : ok s e)
      (hstep : step s e = some s') : Steps step ok start s'

theorem Steps.invariant (inv : σ → Prop) (h : Steps step ok start s) (hstart : inv start)
    (hpres : ∀ s e s', inv s → ok s e → step s e = some s' → inv s') : inv s := by
  induction h with
  | refl => exact hstart
  | tail _ hok hstep ih => exact hpres _ _ _ ih hok hstep

theorem Steps.mono {ok' : σ → ε → Prop} (h : Steps step ok start s)
    (hok : ∀ s e, ok s e → ok' s e) : Steps step ok' start s := by
  induction h with
  | refl => exact .refl
  | tail _ he hstep ih => exact ih.tail (hok _ _ he) hstep

/-- The states that steps under a condition lead to, with the events on the way. -/
inductive Runs (step : σ → ε → Option σ) (ok : σ → ε → Prop) (start : σ) : List ε → σ → Prop
  | nil : Runs step ok start [] start
  | snoc {es : List ε} {s s' : σ} {e : ε} (h : Runs step ok start es s) (hok : ok s e)
      (hstep : step s e = some s') : Runs step ok start (es ++ [e]) s'

theorem Runs.steps {es : List ε} (h : Runs step ok start es s) : Steps step ok start s := by
  induction h with
  | nil => exact .refl
  | snoc _ hok hstep ih => exact ih.tail hok hstep

/-- The state after a list of events, if the machine takes them all. -/
def runSteps (step : σ → ε → Option σ) : σ → List ε → Option σ
  | s, [] => some s
  | s, e :: es => (step s e).bind fun s => runSteps step s es

theorem runSteps_concat (es : List ε) (e : ε) :
    runSteps step start (es ++ [e]) = (runSteps step start es).bind fun s => step s e := by
  induction es generalizing start with
  | nil => simp [runSteps]
  | cons first es ih =>
    show ((step start first).bind fun s => runSteps step s (es ++ [e])) = _
    simp only [ih, runSteps, Option.bind_assoc]

theorem Runs.of_run {es : List ε} (h : runSteps step start es = some s) (hok : ∀ s e, ok s e) :
    Runs step ok start es s := by
  induction es using List.reverseRecOn generalizing s with
  | nil =>
    cases h
    exact .nil
  | append_singleton es e ih =>
    rw [runSteps_concat] at h
    obtain ⟨t, ht, hstep⟩ := Option.bind_eq_some_iff.1 h
    exact (ih ht).snoc (hok t e) hstep

theorem Runs.of_checked [∀ s e, Decidable (ok s e)] {es : List ε}
    (h : runSteps (fun s e => if ok s e then step s e else none) start es = some s) :
    Runs step ok start es s := by
  induction es using List.reverseRecOn generalizing s with
  | nil =>
    cases h
    exact .nil
  | append_singleton es e ih =>
    rw [runSteps_concat] at h
    obtain ⟨t, ht, hstep⟩ := Option.bind_eq_some_iff.1 h
    split at hstep
    · next hok => exact (ih ht).snoc hok hstep
    · exact absurd hstep (by simp)

end Steps

section Calls

variable {α : Type} {p : α → Bool} {l : List α} {i j : Nat} {a b : α}

theorem countP_set_of_get (h : l[i]? = some a) :
    (l.set i b).countP p + (if p a then 1 else 0) = l.countP p + if p b then 1 else 0 := by
  induction l generalizing i with
  | nil => simp at h
  | cons first l ih =>
    cases i with
    | zero =>
      simp only [List.getElem?_cons_zero] at h
      cases h
      simp only [List.set_cons_zero, List.countP_cons]
      omega
    | succ i =>
      simp only [List.getElem?_cons_succ] at h
      have hrest := ih h
      simp only [List.set_cons_succ, List.countP_cons]
      omega

theorem countP_pos_of_get (h : l[i]? = some a) (ha : p a = true) : 0 < l.countP p :=
  List.countP_pos_iff.2 ⟨a, List.mem_of_getElem? h, ha⟩

theorem get_set_self (h : l[i]? = some a) : (l.set i b)[i]? = some b :=
  List.getElem?_set_self (List.getElem?_eq_some_iff.1 h).1

theorem get_set_other (hne : j ≠ i) : (l.set i b)[j]? = l[j]? :=
  List.getElem?_set_ne (Ne.symm hne)

theorem forall_set {q : Nat → α → Prop} (hl : ∀ j a, j ≠ i → l[j]? = some a → q j a)
    (hb : q i b) : ∀ j a, (l.set i b)[j]? = some a → q j a := by
  intro j a hj
  rw [List.getElem?_set] at hj
  split at hj
  · next heq =>
    split at hj
    · cases hj
      exact heq ▸ hb
    · simp at hj
  · next hne => exact hl j a (Ne.symm hne) hj

theorem forall_concat {q : Nat → α → Prop} (hl : ∀ i a, l[i]? = some a → q i a)
    (hb : q l.length b) : ∀ j a, (l ++ [b])[j]? = some a → q j a := by
  intro j a hj
  rw [List.getElem?_append] at hj
  split at hj
  · exact hl j a hj
  · rw [List.getElem?_singleton] at hj
    split at hj
    · cases hj
      have hlen : j = l.length := by omega
      exact hlen ▸ hb
    · simp at hj

end Calls

end Wakterm.Machine
