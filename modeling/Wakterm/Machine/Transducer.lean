import Mathlib.Data.List.Basic
import Wakterm.Machine.Loop

/-!
# Transducers that may fail

A transducer takes its input symbol by symbol; on each it goes on with a new state and puts out a
list, or it fails.
-/

namespace Wakterm.Machine

universe u

variable {ε α ω ι : Type u}

theorem ok_bind {β γ : Type u} (b : β) (f : β → Except ε γ) : (Except.ok b >>= f) = f b := rfl

/-- One step and then another. -/
def andThen (x : Except ε (α × List ω)) (f : α → Except ε (α × List ω)) :
    Except ε (α × List ω) :=
  match x with
  | .error e => .error e
  | .ok (a, out) =>
    match f a with
    | .error e => .error e
    | .ok (a', out') => .ok (a', out ++ out')

@[simp] theorem andThen_ok (a : α) (out : List ω) (f : α → Except ε (α × List ω)) :
    andThen (.ok (a, out)) f =
      match f a with
      | .error e => .error e
      | .ok (a', out') => .ok (a', out ++ out') := rfl

theorem andThen_nothing (a : α) (f : α → Except ε (α × List ω)) :
    andThen (.ok (a, [])) f = f a := by
  rw [andThen_ok]
  cases f a with
  | error e => rfl
  | ok r => rfl

/-- A step for each symbol. -/
def feed (step : α → ι → Except ε (α × List ω)) : α → List ι → Except ε (α × List ω)
  | a, [] => .ok (a, [])
  | a, i :: is => andThen (step a i) fun a => feed step a is

variable {f : α → Except ε (α × List ω)}

theorem andThen_eq_ok {x : Except ε (α × List ω)} {a a' : α} {out out' : List ω}
    (hx : x = .ok (a, out)) (hf : f a = .ok (a', out')) : andThen x f = .ok (a', out ++ out') := by
  rw [hx, andThen_ok, hf]

theorem andThen_ok_iff {x : Except ε (α × List ω)} {a' : α} {out : List ω} :
    andThen x f = .ok (a', out) ↔
      ∃ a out1 out2, x = .ok (a, out1) ∧ f a = .ok (a', out2) ∧ out = out1 ++ out2 := by
  constructor
  · intro h
    cases x with
    | error e => cases h
    | ok r =>
      obtain ⟨a, out1⟩ := r
      rw [andThen_ok] at h
      cases hf : f a with
      | error e =>
        rw [hf] at h
        cases h
      | ok r =>
        obtain ⟨a2, out2⟩ := r
        rw [hf] at h
        cases h
        exact ⟨a, out1, out2, rfl, hf, rfl⟩
  · rintro ⟨a, out1, out2, hx, hf, rfl⟩
    exact andThen_eq_ok hx hf

theorem andThen_assoc (x : Except ε (α × List ω)) (f g : α → Except ε (α × List ω)) :
    andThen (andThen x f) g = andThen x fun a => andThen (f a) g := by
  cases x with
  | error e => rfl
  | ok r =>
    obtain ⟨a, out⟩ := r
    rw [andThen_ok, andThen_ok]
    cases f a with
    | error e => rfl
    | ok r =>
      obtain ⟨a1, out1⟩ := r
      show andThen (.ok (a1, out ++ out1)) g = _
      rw [andThen_ok, andThen_ok]
      cases g a1 with
      | error e => rfl
      | ok r => simp

theorem feed_append (step : α → ι → Except ε (α × List ω)) (a : α) (is js : List ι) :
    feed step a (is ++ js) = andThen (feed step a is) fun a => feed step a js := by
  induction is generalizing a with
  | nil =>
    show feed step a js = andThen (.ok (a, [])) _
    rw [andThen_nothing]
  | cons i is ih =>
    show andThen (step a i) _ = andThen (andThen (step a i) _) _
    rw [andThen_assoc]
    refine congrArg (andThen (step a i)) ?_
    funext a
    exact ih a

theorem feed_flatten (step : α → ι → Except ε (α × List ω)) (a : α) (chunks : List (List ι)) :
    feed (fun a is => feed step a is) a chunks = feed step a chunks.flatten := by
  induction chunks generalizing a with
  | nil => rfl
  | cons is chunks ih =>
    rw [List.flatten_cons, feed_append]
    show andThen (feed step a is) _ = _
    refine congrArg (andThen (feed step a is)) ?_
    funext a
    exact ih a

/-- A run of which each thing that is put out is looked at, and seen as some things or none. -/
def seen {ψ : Type u} (see : ω → List ψ) (x : Except ε (α × List ω)) : Except ε (α × List ψ) :=
  x.map fun r => (r.1, r.2.flatMap see)

theorem seen_andThen {ψ : Type u} (see : ω → List ψ) (x : Except ε (α × List ω))
    (f : α → Except ε (α × List ω)) :
    seen see (andThen x f) = andThen (seen see x) fun a => seen see (f a) := by
  cases x with
  | error e => rfl
  | ok r =>
    obtain ⟨a, out⟩ := r
    show seen see (andThen (.ok (a, out)) f) = andThen (.ok (a, out.flatMap see)) _
    rw [andThen_ok, andThen_ok]
    cases f a with
    | error e => rfl
    | ok r =>
      obtain ⟨a', out'⟩ := r
      show Except.ok (a', (out ++ out').flatMap see) = _
      rw [List.flatMap_append]
      rfl

/-- **The rule of runs**: each step goes well from where the invariant holds and keeps it, and what
it puts out takes one observation to the next. So does every run. -/
theorem feed_invariant {step : α → ι → Except ε (α × List ω)} (inv : α → Prop) {β : Type}
    (observe : α → β) (scan : β → List ω → Option β) (hnil : ∀ b, scan b [] = some b)
    (happend : ∀ b out out', scan b (out ++ out') = (scan b out).bind fun b => scan b out')
    (hstep : ∀ a i, inv a → ∃ a' out, step a i = .ok (a', out) ∧ inv a' ∧
      scan (observe a) out = some (observe a')) {a : α} (ha : inv a) (is : List ι) :
    ∃ a' out, feed step a is = .ok (a', out) ∧ inv a' ∧
      scan (observe a) out = some (observe a') := by
  induction is generalizing a with
  | nil => exact ⟨a, [], rfl, ha, hnil _⟩
  | cons i is ih =>
    obtain ⟨a1, out1, h1, hinv1, hscan1⟩ := hstep a i ha
    obtain ⟨a2, out2, h2, hinv2, hscan2⟩ := ih hinv1
    refine ⟨a2, out1 ++ out2, andThen_eq_ok h1 h2, hinv2, ?_⟩
    rw [happend, hscan1]
    exact hscan2

/-- Both have put out the same, and their states are related. -/
def Told {γ : Type u} (R : α → γ → Prop) (x : α × List ω) (y : γ × List ω) : Prop :=
  x.2 = y.2 ∧ R x.1 y.1

section Told

variable {β γ δ : Type u} {R : α → γ → Prop} {S : β → δ → Prop}

theorem both_told {a : α} {b : γ} (h : R a b) (out : List ω) :
    Both (Told R) (.ok (a, out) : Except ε (α × List ω)) (.ok (b, out)) :=
  .ok ⟨rfl, h⟩

variable {x : Except ε (α × List ω)}

theorem Both.andThen {R' : α → γ → Prop} {y : Except ε (γ × List ω)} {f : α → Except ε (α × List ω)}
    {g : γ → Except ε (γ × List ω)} (h : Both (Told R) x y)
    (hf : ∀ a b, R a b → Both (Told R') (f a) (g b)) :
    Both (Told R') (andThen x f) (andThen y g) := by
  cases h with
  | error e => exact .error e
  | @ok r r' hr =>
    obtain ⟨a, out⟩ := r
    obtain ⟨b, out'⟩ := r'
    obtain ⟨rfl, hab⟩ := hr
    rw [andThen_ok, andThen_ok]
    have hrest := hf a b hab
    generalize f a = x at hrest
    generalize g b = y at hrest
    cases hrest with
    | error e => exact .error e
    | @ok r r' hr =>
      obtain ⟨hout, hab'⟩ := hr
      exact .ok ⟨congrArg _ hout, hab'⟩

theorem Both.eq_ok {b : γ} {out : List ω} (h : Both (Told R) x (.ok (b, out))) :
    ∃ a, x = .ok (a, out) ∧ R a b := by
  cases h with
  | @ok r _ hr =>
    obtain ⟨a, out'⟩ := r
    obtain ⟨rfl, hab⟩ := hr
    exact ⟨a, rfl, hab⟩

/-- **The rule of simulation**: steps from related states put out the same and end in related
states. So do runs on the same input. -/
theorem both_feed {step : α → ι → Except ε (α × List ω)} {step' : γ → ι → Except ε (γ × List ω)}
    (hstep : ∀ a b i, R a b → Both (Told R) (step a i) (step' b i)) {a : α} {b : γ} (h : R a b)
    (is : List ι) : Both (Told R) (feed step a is) (feed step' b is) := by
  induction is generalizing a b with
  | nil => exact both_told h []
  | cons i is ih => exact (hstep a b i h).andThen fun a b hab => ih hab

theorem Both.told_eq {y : Except ε (γ × List ω)} (h : Both (Told R) x y) :
    x.map Prod.snd = y.map Prod.snd :=
  h.map_eq fun _ _ hr => hr.1

end Told

end Wakterm.Machine
