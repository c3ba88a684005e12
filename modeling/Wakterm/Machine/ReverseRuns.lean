import Mathlib.Data.List.Chain
import Mathlib.Data.List.Perm.Basic

/-!
# Reversing the runs of a list

Every maximal run of elements that pass a test is reversed in its place.
-/

namespace Wakterm.Machine

variable {α β : Type} {p q k : α → Bool} {run r l l' : List α} {x : α}

/-- Reverse the runs, with the elements of the run so far, the last one first. -/
@[simp] def reverseRunsFrom (p : α → Bool) : List α → List α → List α
  | run, [] => run
  | run, x :: l =>
    if p x then reverseRunsFrom p (x :: run) l else run ++ x :: reverseRunsFrom p [] l

/-- Reverse every maximal run of elements that pass the test. -/
def reverseRuns (p : α → Bool) (l : List α) : List α := reverseRunsFrom p [] l

theorem reverseRunsFrom_append (hr : ∀ x ∈ r, p x = true) :
    reverseRunsFrom p run (r ++ l) = reverseRunsFrom p (r.reverse ++ run) l := by
  induction r generalizing run with
  | nil => rfl
  | cons x r ih =>
    obtain ⟨hx, hr⟩ := List.forall_mem_cons.mp hr
    rw [List.cons_append, reverseRunsFrom, if_pos hx, ih hr, List.reverse_cons, List.append_assoc]
    rfl

theorem reverseRunsFrom_of_head (h : ∀ x ∈ l.head?, p x = false) :
    reverseRunsFrom p run l = run ++ reverseRuns p l := by
  cases l with
  | nil => simp [reverseRuns, reverseRunsFrom]
  | cons x l =>
    have hx : p x = false := h x rfl
    simp [reverseRuns, reverseRunsFrom, hx]

theorem reverseRuns_run (hr : ∀ x ∈ r, p x = true) (h : ∀ x ∈ l.head?, p x = false) :
    reverseRuns p (r ++ l) = r.reverse ++ reverseRuns p l := by
  rw [reverseRuns, reverseRunsFrom_append hr, reverseRunsFrom_of_head h, List.append_nil]

theorem reverseRuns_skip (hx : p x = false) : reverseRuns p (x :: l) = x :: reverseRuns p l := by
  simp [reverseRuns, reverseRunsFrom, hx]

theorem reverseRunsFrom_perm (p : α → Bool) (run l : List α) :
    (reverseRunsFrom p run l).Perm (run ++ l) := by
  induction l generalizing run with
  | nil => rw [reverseRunsFrom, List.append_nil]
  | cons x l ih =>
    rw [reverseRunsFrom]
    split
    · exact (ih (x :: run)).trans List.perm_middle.symm
    · exact ((ih []).cons x).append_left run

theorem reverseRuns_perm (p : α → Bool) (l : List α) : (reverseRuns p l).Perm l :=
  reverseRunsFrom_perm p [] l

theorem reverseRunsFrom_map (g : β → α) (run l : List β) :
    reverseRunsFrom p (run.map g) (l.map g) = (reverseRunsFrom (fun y => p (g y)) run l).map g := by
  induction l generalizing run with
  | nil => rfl
  | cons y l ih =>
    rw [List.map_cons, reverseRunsFrom, reverseRunsFrom]
    split
    · exact ih (y :: run)
    · rw [List.map_append, List.map_cons]
      exact congrArg (fun rest => run.map g ++ g y :: rest) (ih [])

theorem reverseRuns_map (g : β → α) (l : List β) :
    reverseRuns p (l.map g) = (reverseRuns (fun y => p (g y)) l).map g :=
  reverseRunsFrom_map g [] l

theorem head_reverseRunsFrom (p : α → Bool) (x : α) (run l : List α) :
    ∃ y rest, reverseRunsFrom p (x :: run) l = y :: rest ∧ y ∈ x :: l := by
  induction l generalizing x run with
  | nil => exact ⟨x, run, rfl, List.mem_cons_self⟩
  | cons z l ih =>
    rw [reverseRunsFrom]
    split
    · obtain ⟨y, rest, heq, hmem⟩ := ih z (x :: run)
      exact ⟨y, rest, heq, List.mem_cons_of_mem x hmem⟩
    · exact ⟨x, _, rfl, List.mem_cons_self⟩

theorem reverseRuns_eq_self_iff (hnodup : l.Nodup) :
    reverseRuns p l = l ↔ l.IsChain fun a b => ¬(p a = true ∧ p b = true) := by
  induction l with
  | nil => exact ⟨fun _ => .nil, fun _ => rfl⟩
  | cons x l ih =>
    obtain ⟨hfresh, hrest⟩ := List.nodup_cons.mp hnodup
    cases hx : p x with
    | false =>
      rw [reverseRuns_skip hx, List.cons.injEq, ih hrest, List.isChain_cons]
      simp [hx]
    | true =>
      cases l with
      | nil => simp [reverseRuns, reverseRunsFrom, hx]
      | cons y l =>
        cases hy : p y with
        | false =>
          have hrun : reverseRuns p (x :: y :: l) = x :: reverseRuns p (y :: l) :=
            reverseRuns_run (r := [x]) (by simp [hx]) (by simp [hy])
          have hpair : ¬(p x = true ∧ p y = true) := by simp [hy]
          rw [hrun, List.cons.injEq, ih hrest, List.isChain_cons_cons]
          exact ⟨fun h => ⟨hpair, h.2⟩, fun h => ⟨rfl, h.2⟩⟩
        | true =>
          -- the first element does not stay the first
          refine iff_of_false (fun heq => ?_) (fun hchain => ?_)
          · obtain ⟨z, rest, hhead, hmem⟩ := head_reverseRunsFrom p y [x] l
            have hrun : reverseRuns p (x :: y :: l) = reverseRunsFrom p [y, x] l := by
              simp [reverseRuns, reverseRunsFrom, hx, hy]
            rw [hrun, hhead] at heq
            exact hfresh ((List.cons.inj heq).1 ▸ hmem)
          · exact (List.isChain_cons_cons.mp hchain).1 ⟨hx, hy⟩

/-- The second list is the first with its runs reversed, but for some with at most one element that
counts. -/
inductive Turned (p k : α → Bool) : List α → List α → Prop
  | nil : Turned p k [] []
  | skip {x : α} {l l' : List α} (hx : p x = false) (h : Turned p k l l') :
      Turned p k (x :: l) (x :: l')
  | run {r r' l l' : List α} (hr : ∀ x ∈ r, p x = true) (hnext : ∀ x ∈ l.head?, p x = false)
      (hturn : r' = r.reverse ∨ r' = r ∧ r.countP k ≤ 1) (h : Turned p k l l') :
      Turned p k (r ++ l) (r' ++ l')

/-- How many elements count, in each run and the rest of the list. -/
@[simp] def tally (q k : α → Bool) : Nat → List α → List Nat
  | c, [] => [c]
  | c, x :: l => if q x then tally q k (c + if k x then 1 else 0) l else c :: tally q k 0 l

theorem tally_run (hr : ∀ x ∈ r, q x = true) (c : Nat) :
    tally q k c (r ++ l) = tally q k (c + r.countP k) l := by
  induction r generalizing c with
  | nil => rfl
  | cons x r ih =>
    obtain ⟨hx, hr⟩ := List.forall_mem_cons.mp hr
    rw [List.cons_append, tally, if_pos hx, ih hr, List.countP_cons]
    congr 1
    omega

namespace Turned

theorem of_perm_run {r r' : List α} (hturn : r' = r.reverse ∨ r' = r ∧ r.countP k ≤ 1) :
    r'.Perm r := by
  rcases hturn with rfl | ⟨rfl, -⟩
  · exact r.reverse_perm
  · exact .refl r'

theorem map_eq {f : α → β} (hf : ∀ x y, p x = true → p y = true → f x = f y)
    (h : Turned p k l l') : l'.map f = l.map f := by
  induction h with
  | nil => rfl
  | skip _ _ ih => rw [List.map_cons, List.map_cons, ih]
  | @run r r' l l' hr _ hturn _ ih =>
    have hrun : r'.map f = r.map f := by
      rcases hturn with rfl | ⟨rfl, -⟩
      · cases r with
        | nil => rfl
        | cons x r =>
          have hsame : (x :: r).map f = List.replicate (x :: r).length (f x) := by
            refine List.eq_replicate_iff.mpr ⟨List.length_map f, fun y hy => ?_⟩
            obtain ⟨z, hz, rfl⟩ := List.mem_map.mp hy
            exact hf z x (hr z hz) (hr x List.mem_cons_self)
          rw [List.map_reverse, hsame, List.reverse_replicate]
      · rfl
    rw [List.map_append, List.map_append, hrun, ih]

theorem tally_eq (hpq : ∀ x, p x = true → q x = true) (h : Turned p k l l') (c : Nat) :
    tally q k c l' = tally q k c l := by
  induction h generalizing c with
  | nil => rfl
  | skip _ _ ih =>
    rw [tally, tally]
    split
    · exact ih _
    · rw [ih 0]
  | @run r r' l l' hr _ hturn _ ih =>
    have hperm := of_perm_run hturn
    have hr' : ∀ x ∈ r', p x = true := fun x hx => hr x (hperm.mem_iff.mp hx)
    rw [tally_run fun x hx => hpq x (hr' x hx), tally_run fun x hx => hpq x (hr x hx),
      hperm.countP_eq, ih]

theorem filter_eq (h : Turned p k l l')
    (hchain : l.IsChain fun a b => p a = true → p b = false → k b = true) :
    l'.filter k = reverseRuns p (l.filter k) := by
  induction h with
  | nil => rfl
  | @skip x l l' hx _ ih =>
    have hrest := ih hchain.tail
    rw [List.filter_cons, List.filter_cons]
    split
    · rw [reverseRuns_skip hx, hrest]
    · exact hrest
  | @run r r' l l' hr hnext hturn _ ih =>
    have hrest := ih hchain.right_of_append
    have hturned : r'.filter k = (r.filter k).reverse := by
      rcases hturn with rfl | ⟨rfl, hle⟩
      · exact List.filter_reverse
      · rw [List.countP_eq_length_filter] at hle
        cases hkept : r'.filter k with
        | nil => rfl
        | cons y rest =>
          rw [hkept, List.length_cons] at hle
          have hnil : rest = [] := List.length_eq_zero_iff.mp (by omega)
          rw [hnil]
          rfl
    have hnext' : ∀ x ∈ (l.filter k).head?, r ≠ [] → p x = false := by
      cases l with
      | nil => simp
      | cons y l =>
        intro x hx hne
        have hy : p y = false := hnext y rfl
        have hlast : p (r.getLast hne) = true := hr _ (List.getLast_mem hne)
        have hcounts : k y = true :=
          List.isChain_append.mp hchain |>.2.2 _ (List.getLast_mem_getLast? hne) y rfl hlast hy
        rw [List.filter_cons_of_pos hcounts] at hx
        exact Option.some.inj hx ▸ hy
    rw [List.filter_append, List.filter_append, hturned, hrest]
    cases r with
    | nil => rfl
    | cons x r =>
      refine (reverseRuns_run (fun y hy => hr y (List.mem_filter.mp hy).1) ?_).symm
      exact fun y hy => hnext' y hy (List.cons_ne_nil x r)

end Turned

end Wakterm.Machine
