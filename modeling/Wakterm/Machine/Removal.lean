import Mathlib.Data.List.Infix

/-!
# Taking a pattern out of a text

`remove` takes every occurrence of a pattern out of a text, from left to right.
-/

namespace Wakterm.Machine

variable {α : Type}

/-- A text that is pieces of some kind, one after the other. -/
inductive Pieces (R : List α → Prop) : List α → Prop
  | nil : Pieces R []
  | cons {r g : List α} : R r → Pieces R g → Pieces R (r ++ g)

/-- The letters of `u` with pieces in front of each of them. -/
inductive Spread (R : List α → Prop) : List α → List α → Prop
  | nil : Spread R [] []
  | cons {a : α} {g u s : List α} : Pieces R g → Spread R u s → Spread R (a :: u) (g ++ a :: s)

section Pieces

variable {R R' : List α → Prop} {p : List α}

variable {g u s : List α}

theorem Pieces.append {g' : List α} (h : Pieces R g) (h' : Pieces R g') : Pieces R (g ++ g') := by
  induction h with
  | nil => exact h'
  | cons hr _ ih =>
    rw [List.append_assoc]
    exact .cons hr ih

theorem Pieces.single {r : List α} (h : R r) : Pieces R r := by
  have hone := Pieces.cons h Pieces.nil
  rwa [List.append_nil] at hone

theorem Pieces.mono (h : Pieces R g) (hmono : ∀ r, R r → R' r) : Pieces R' g := by
  induction h with
  | nil => exact .nil
  | cons hr _ ih => exact .cons (hmono _ hr) ih

theorem Pieces.head {h : α} (hg : Pieces R g) (hR : ∀ r, R r → r.head? = some h) :
    g = [] ∨ ∃ g', g = h :: g' := by
  cases hg with
  | nil => exact .inl rfl
  | @cons r g hr _ =>
    right
    obtain ⟨r', rfl⟩ := List.head?_eq_some_iff.mp (hR r hr)
    exact ⟨r' ++ g, rfl⟩

theorem Spread.append_inv {u' : List α} (h : Spread R (u ++ u') s) :
    ∃ s₁ s₂, s = s₁ ++ s₂ ∧ Spread R u s₁ ∧ Spread R u' s₂ := by
  induction u generalizing s with
  | nil => exact ⟨[], s, rfl, .nil, h⟩
  | cons a u ih =>
    cases h with
    | @cons _ g _ s hg hrest =>
      obtain ⟨s₁, s₂, rfl, h1, h2⟩ := ih hrest
      refine ⟨g ++ a :: s₁, s₂, ?_, .cons hg h1, h2⟩
      rw [List.append_assoc, List.cons_append]

theorem Spread.eq_of_prefix {h : α} (hR : ∀ r, R r → r.head? = some h) {t z : List α}
    (hspread : Spread R u s) (hlen : t.length = u.length) (ht : h ∉ t) (hstarts : t <+: s ++ z) :
    t = u ∧ s = u := by
  induction hspread generalizing t with
  | nil => exact ⟨List.length_eq_zero_iff.mp hlen, rfl⟩
  | @cons a g u s hg _ ih =>
    cases t with
    | nil => cases hlen
    | cons b t =>
      rcases hg.head hR with rfl | ⟨g', rfl⟩
      · obtain ⟨rfl, hrest⟩ := List.cons_prefix_cons.mp hstarts
        have hlen : t.length = u.length := Nat.succ.inj hlen
        obtain ⟨rfl, rfl⟩ := ih hlen (fun hin => ht (List.mem_cons_of_mem _ hin)) hrest
        exact ⟨rfl, rfl⟩
      · obtain ⟨rfl, -⟩ := List.cons_prefix_cons.mp hstarts
        exact absurd List.mem_cons_self ht

end Pieces

variable {t w z : List α}

theorem prefix_of_prefix_append {h : α} (ht : h ∉ t) (hw : w ≠ [])
    (hstarts : h :: t <+: w ++ h :: z) : h :: t <+: w := by
  rcases List.prefix_or_prefix_of_prefix hstarts (List.prefix_append w (h :: z)) with hin | hout
  · exact hin
  · obtain ⟨r, hr⟩ := hout
    cases r with
    | nil =>
      rw [List.append_nil] at hr
      rw [hr]
    | cons b r =>
      rw [← hr] at hstarts
      have hb := (List.prefix_append_right_inj w).mp hstarts
      obtain ⟨rfl, -⟩ := List.cons_prefix_cons.mp hb
      cases w with
      | nil => exact absurd rfl hw
      | cons c w =>
        obtain ⟨-, rfl⟩ := List.cons.inj hr
        exact absurd (List.mem_append_right w List.mem_cons_self) ht

theorem prefix_drop_of_not_mem {h : α} {s : List α} (hw : h ∉ w) (j : Nat) :
    h :: t <+: (w ++ s).drop j ↔ w.length ≤ j ∧ h :: t <+: s.drop (j - w.length) := by
  rw [List.drop_append]
  by_cases hj : w.length ≤ j
  · rw [List.drop_eq_nil_of_le hj]
    exact ⟨fun hstarts => ⟨hj, hstarts⟩, fun hstarts => hstarts.2⟩
  · refine ⟨fun hstarts => ?_, fun hstarts => absurd hstarts.1 hj⟩
    cases hdrop : w.drop j with
    | nil => exact absurd (List.drop_eq_nil_iff.mp hdrop) hj
    | cons a l =>
      rw [hdrop] at hstarts
      obtain ⟨rfl, -⟩ := List.cons_prefix_cons.mp hstarts
      exact absurd (List.mem_of_mem_drop (hdrop ▸ List.mem_cons_self)) hw

theorem prefix_drop_append {h : α} (ht : h ∉ t) (j : Nat) : h :: t <+: (w ++ h :: z).drop j ↔
      h :: t <+: w.drop j ∨ (w.length ≤ j ∧ h :: t <+: (h :: z).drop (j - w.length)) := by
  rw [List.drop_append]
  by_cases hj : w.length ≤ j
  · rw [List.drop_eq_nil_of_le hj]
    constructor
    · intro hstarts
      exact .inr ⟨hj, hstarts⟩
    · rintro (hnil | ⟨-, hstarts⟩)
      · exact absurd hnil (by simp)
      · exact hstarts
  · have hzero : j - w.length = 0 := by omega
    rw [hzero, List.drop_zero]
    constructor
    · intro hstarts
      refine .inl (prefix_of_prefix_append ht ?_ hstarts)
      intro hnil
      exact hj (List.drop_eq_nil_iff.mp hnil)
    · rintro (hstarts | ⟨hlow, -⟩)
      · exact hstarts.trans (List.prefix_append _ _)
      · exact absurd hlow hj

/-! ## Two patterns -/

section Gone

variable {h : α} {t t' : List α}

/-- A piece that is gone after both: an occurrence of the first pattern, or of the second one with
occurrences of the first between its letters. -/
def Gone (h : α) (t t' : List α) (r : List α) : Prop :=
  r = h :: t ∨ ∃ v, r = h :: v ∧ Spread (· = h :: t) t' v

/-- The text has the first pattern with something between its letters that is gone after both, or
the second pattern with more than occurrences of the first one between its letters. -/
def Nested (h : α) (t t' s : List α) : Prop :=
  ∃ x v y, s = x ++ h :: (v ++ y) ∧
    ((Spread (Gone h t t') t v ∧ v ≠ t) ∨
      (Spread (Gone h t t') t' v ∧ ¬ Spread (· = h :: t) t' v))

theorem head_pattern (r : List α) (hr : r = h :: t) : r.head? = some h := by
  rw [hr]
  rfl

theorem head_gone (r : List α) (hr : Gone h t t' r) : r.head? = some h := by
  rcases hr with rfl | ⟨v, rfl, -⟩
  · rfl
  · rfl

theorem spread_trans {u v w : List α} (hv : Spread (· = h :: t') u v)
    (hw : Spread (· = h :: t) v w) : Spread (Gone h t t') u w := by
  have hpieces : ∀ g w, Pieces (· = h :: t') g → Spread (· = h :: t) g w →
      Pieces (Gone h t t') w := by
    intro g w hg hw
    induction hg generalizing w with
    | nil =>
      cases hw
      exact .nil
    | cons hr _ ih =>
      subst hr
      obtain ⟨w₁, w₂, rfl, h1, h2⟩ := hw.append_inv
      refine Pieces.append ?_ (ih w₂ h2)
      cases h1 with
      | @cons _ g _ s hg hs =>
        refine Pieces.append (hg.mono fun r hr => .inl hr) (Pieces.single (.inr ⟨s, rfl, hs⟩))
  induction hv generalizing w with
  | nil =>
    cases hw
    exact .nil
  | @cons a g u v hg _ ih =>
    obtain ⟨w₁, w₂, rfl, h1, h2⟩ := hw.append_inv
    cases h2 with
    | @cons _ g' _ s hg' hs =>
      rw [← List.append_assoc]
      exact .cons ((hpieces g w₁ hg h1).append (hg'.mono fun r hr => .inl hr)) (ih hs)

end Gone

/-! ## Removal -/

variable [DecidableEq α]

/-- The occurrences are taken out; some letters of one may still have to be skipped. -/
def removeFrom (p : List α) : Nat → List α → List α
  | _, [] => []
  | skip + 1, _ :: s => removeFrom p skip s
  | 0, a :: s =>
    if p.isPrefixOf (a :: s) then removeFrom p (p.length - 1) s else a :: removeFrom p 0 s

/-- `str::replace` with nothing. -/
def remove (p s : List α) : List α := removeFrom p 0 s

section Remove

variable {h : α} {t : List α}

theorem removeFrom_drop (p : List α) (skip : Nat) (s : List α) :
    removeFrom p skip s = remove p (s.drop skip) := by
  induction s generalizing skip with
  | nil =>
    rw [List.drop_nil]
    cases skip <;> rfl
  | cons a s ih =>
    cases skip with
    | zero => rfl
    | succ skip => exact ih skip

theorem remove_pattern_append (s : List α) : remove (h :: t) (h :: t ++ s) = remove (h :: t) s := by
  have hstarts : (h :: t).isPrefixOf (h :: (t ++ s)) = true := by
    rw [List.isPrefixOf_iff_prefix]
    exact List.prefix_append (h :: t) s
  show removeFrom (h :: t) 0 (h :: (t ++ s)) = _
  rw [removeFrom, if_pos hstarts, removeFrom_drop]
  show remove (h :: t) ((t ++ s).drop t.length) = _
  rw [List.drop_left]

variable {s u : List α}

theorem remove_cons {p : List α} {a : α} (hnot : ¬ p <+: a :: s) :
    remove p (a :: s) = a :: remove p s := by
  show removeFrom p 0 (a :: s) = _
  rw [removeFrom, if_neg (by rw [List.isPrefixOf_iff_prefix]; exact hnot)]
  rfl

theorem remove_cons_of_ne {a : α} (hne : a ≠ h) :
    remove (h :: t) (a :: s) = a :: remove (h :: t) s := by
  refine remove_cons ?_
  intro hstarts
  exact hne (List.cons_prefix_cons.mp hstarts).1.symm

/-- The text in front of a letter that only occurrences begin with is taken by itself. -/
theorem remove_append (ht : h ∉ t) (s z : List α) :
    remove (h :: t) (s ++ h :: z) = remove (h :: t) s ++ remove (h :: t) (h :: z) := by
  induction hlen : s.length using Nat.strong_induction_on generalizing s with
  | _ n ih =>
    cases s with
    | nil => rfl
    | cons a s =>
      by_cases hstarts : h :: t <+: a :: s
      · obtain ⟨s', hs⟩ := hstarts
        have hless : s'.length < n := by
          rw [← hlen, ← hs, List.length_append, List.length_cons]
          omega
        rw [← hs, List.append_assoc, remove_pattern_append, remove_pattern_append]
        exact ih s'.length hless s' rfl
      · have hnot : ¬ h :: t <+: a :: s ++ h :: z := by
          intro hin
          exact hstarts (prefix_of_prefix_append ht (List.cons_ne_nil _ _) hin)
        rw [List.cons_append] at hnot ⊢
        rw [remove_cons hnot, remove_cons hstarts,
          ih s.length (by rw [← hlen]; exact Nat.lt_succ_self _) s rfl]
        rfl

theorem remove_eq_cons {a : α} {d : List α} (hd : remove (h :: t) s = a :: d) :
    ∃ g s', s = g ++ a :: s' ∧ Pieces (· = h :: t) g ∧ ¬ h :: t <+: a :: s' ∧
      remove (h :: t) s' = d := by
  induction hlen : s.length using Nat.strong_induction_on generalizing s with
  | _ n ih =>
    cases s with
    | nil => cases hd
    | cons b s =>
      by_cases hstarts : h :: t <+: b :: s
      · obtain ⟨s', hs⟩ := hstarts
        have hless : s'.length < n := by
          rw [← hlen, ← hs, List.length_append, List.length_cons]
          omega
        rw [← hs, remove_pattern_append] at hd
        obtain ⟨g, s'', rfl, hg, hnot, hrest⟩ := ih s'.length hless hd rfl
        refine ⟨h :: t ++ g, s'', ?_, .cons rfl hg, hnot, hrest⟩
        rw [← hs, List.append_assoc]
      · rw [remove_cons hstarts] at hd
        obtain ⟨rfl, rfl⟩ := List.cons.inj hd
        exact ⟨[], s, rfl, .nil, hstarts, rfl⟩

theorem remove_eq_append {z : List α} (hd : remove (h :: t) s = u ++ z) :
    ∃ s₁ s₂, s = s₁ ++ s₂ ∧ Spread (· = h :: t) u s₁ ∧ remove (h :: t) s₂ = z := by
  induction u generalizing s with
  | nil => exact ⟨[], s, rfl, .nil, hd⟩
  | cons a u ih =>
    obtain ⟨g, s', rfl, hg, -, hrest⟩ := remove_eq_cons hd
    obtain ⟨s₁, s₂, rfl, hspread, hz⟩ := ih hrest
    refine ⟨g ++ a :: s₁, s₂, ?_, .cons hg hspread, hz⟩
    rw [List.append_assoc, List.cons_append]

theorem remove_infix (hin : h :: u <:+: remove (h :: t) s) :
    ∃ x v y, s = x ++ h :: (v ++ y) ∧ Spread (· = h :: t) u v ∧ ¬ h :: t <+: h :: (v ++ y) ∧
      ∃ z, remove (h :: t) (v ++ y) = u ++ z ∧ remove (h :: t) y = z := by
  obtain ⟨before, after, hd⟩ := hin
  rw [List.append_assoc] at hd
  obtain ⟨x, s', rfl, -, hd⟩ := remove_eq_append hd.symm
  obtain ⟨g, s'', rfl, -, hnot, hd⟩ := remove_eq_cons hd
  obtain ⟨v, y, rfl, hspread, hz⟩ := remove_eq_append hd
  refine ⟨x ++ g, v, y, ?_, hspread, hnot, after, hd, hz⟩
  rw [List.append_assoc]

end Remove

/-! ## Two removals -/

section Two

variable {h : α} {t t' : List α}

variable {v u : List α}

theorem remove_spread (hu : h ∉ u) (hv : Spread (· = h :: t) u v) (y : List α) :
    remove (h :: t) (v ++ y) = u ++ remove (h :: t) y := by
  have hpieces : ∀ g z, Pieces (· = h :: t) g →
      remove (h :: t) (g ++ z) = remove (h :: t) z := by
    intro g z hg
    induction hg with
    | nil => rfl
    | cons hr _ ih =>
      rw [hr, List.append_assoc, remove_pattern_append, ih]
  induction hv with
  | nil => rfl
  | @cons a g u v hg _ ih =>
    have ha : a ≠ h := fun heq => hu (heq ▸ List.mem_cons_self)
    rw [List.append_assoc, hpieces g _ hg, List.cons_append, remove_cons_of_ne ha,
      ih fun hin => hu (List.mem_cons_of_mem _ hin)]
    rfl

/-- A pattern of the length of the first one, with occurrences of that between its letters. -/
theorem remove_woven (ht : h ∉ t) (ht' : h ∉ t') (hlen : t.length = t'.length) (hne : t ≠ t')
    (hv : Spread (· = h :: t) t' v) (y : List α) :
    remove (h :: t) (h :: (v ++ y)) = h :: t' ++ remove (h :: t) y := by
  have hnot : ¬ h :: t <+: h :: (v ++ y) := by
    intro hstarts
    obtain ⟨-, hstarts⟩ := List.cons_prefix_cons.mp hstarts
    exact hne (hv.eq_of_prefix head_pattern hlen ht hstarts).1
  rw [remove_cons hnot, remove_spread ht' hv]
  rfl

/-- The first removal leaves occurrences of the second pattern between the letters, or none if
there were only occurrences of the first. -/
theorem remove_spread_gone (ht : h ∉ t) (ht' : h ∉ t') (hlen : t.length = t'.length) (hne : t ≠ t')
    (hu : h ∉ u) (hv : Spread (Gone h t t') u v) (y : List α) :
    ∃ v', remove (h :: t) (v ++ y) = v' ++ remove (h :: t) y ∧ Spread (· = h :: t') u v' ∧
      (v' = u → Spread (· = h :: t) u v) := by
  have hpieces : ∀ g z, Pieces (Gone h t t') g →
      ∃ g', remove (h :: t) (g ++ z) = g' ++ remove (h :: t) z ∧ Pieces (· = h :: t') g' ∧
        (g' = [] → Pieces (· = h :: t) g) := by
    intro g z hg
    induction hg with
    | nil => exact ⟨[], rfl, .nil, fun _ => .nil⟩
    | @cons r g hr _ ih =>
      obtain ⟨g', heq, hg', honly⟩ := ih
      rcases hr with rfl | ⟨w, rfl, hw⟩
      · refine ⟨g', ?_, hg', fun hnil => .cons rfl (honly hnil)⟩
        rw [List.append_assoc, remove_pattern_append, heq]
      · refine ⟨h :: t' ++ g', ?_, .cons rfl hg', fun hnil => ?_⟩
        · rw [List.append_assoc, List.cons_append, remove_woven ht ht' hlen hne hw, heq,
            List.append_assoc]
        · cases hnil
  induction hv with
  | nil => exact ⟨[], rfl, .nil, fun _ => .nil⟩
  | @cons a g u v hg _ ih =>
    have ha : a ≠ h := fun heq => hu (heq ▸ List.mem_cons_self)
    obtain ⟨v', heq, hspread, honly⟩ := ih fun hin => hu (List.mem_cons_of_mem _ hin)
    obtain ⟨g', hgap, hg', hgaponly⟩ := hpieces g (a :: v ++ y) hg
    refine ⟨g' ++ a :: v', ?_, .cons hg' hspread, ?_⟩
    · rw [List.append_assoc, hgap, List.cons_append, remove_cons_of_ne ha, heq,
        List.append_assoc]
      rfl
    · intro hsame
      rcases hg'.head head_pattern with rfl | ⟨g'', rfl⟩
      · obtain ⟨-, hsame⟩ := List.cons.inj hsame
        exact .cons (hgaponly rfl) (honly hsame)
      · exact absurd (List.cons.inj hsame).1.symm ha

/-- **Two removals.** One of the patterns is left if and only if the text has one of them nested in
this way. -/
theorem remove_remove_iff (ht : h ∉ t) (ht' : h ∉ t') (hlen : t.length = t'.length) (hne : t ≠ t')
    (s : List α) : (h :: t <:+: remove (h :: t') (remove (h :: t) s) ∨
      h :: t' <:+: remove (h :: t') (remove (h :: t) s)) ↔ Nested h t t' s := by
  -- a part of the text that stays together through the first removal, and then through the second
  have hkept : ∀ u x v y, h ∉ u → u.length = t'.length → Spread (Gone h t t') u v →
      ¬ h :: t <+: h :: (v ++ y) → (u = t' → ¬ Spread (· = h :: t) t' v) →
      h :: u <:+: remove (h :: t') (remove (h :: t) (x ++ h :: (v ++ y))) := by
    intro u x v y hu hulen hv hnot honly
    obtain ⟨v', heq, hspread, hsame⟩ := remove_spread_gone ht ht' hlen hne hu hv y
    have hfirst : remove (h :: t) (x ++ h :: (v ++ y)) =
        remove (h :: t) x ++ h :: (v' ++ remove (h :: t) y) := by
      rw [remove_append ht, remove_cons hnot, heq]
    have hnot' : ¬ h :: t' <+: h :: (v' ++ remove (h :: t) y) := by
      intro hstarts
      obtain ⟨-, hstarts⟩ := List.cons_prefix_cons.mp hstarts
      obtain ⟨rfl, rfl⟩ := hspread.eq_of_prefix head_pattern hulen.symm ht' hstarts
      exact honly rfl (hsame rfl)
    rw [hfirst, remove_append ht', remove_cons hnot', remove_spread hu hspread]
    exact ⟨remove (h :: t') (remove (h :: t) x), remove (h :: t') (remove (h :: t) y), by simp⟩
  -- a part of what is left after both, and where it comes from
  have hsource : ∀ u, h :: u <:+: remove (h :: t') (remove (h :: t) s) →
      ∃ x w y, s = x ++ h :: (w ++ y) ∧ Spread (Gone h t t') u w ∧ ¬ h :: t <+: h :: (w ++ y) ∧
        (u = t' → ¬ Spread (· = h :: t) t' w) := by
    intro u hin
    obtain ⟨x₁, v, y₁, hd₁, hv, hnot₁, -⟩ := remove_infix hin
    have hin₁ : h :: v <:+: remove (h :: t) s := by
      rw [hd₁]
      exact ⟨x₁, y₁, by simp⟩
    obtain ⟨x, w, y, rfl, hw, hnot, z, hz, hy⟩ := remove_infix hin₁
    refine ⟨x, w, y, rfl, spread_trans hv hw, hnot, ?_⟩
    rintro rfl hspread
    rw [remove_spread ht' hspread, hy] at hz
    have hsame := List.append_cancel_right hz
    subst hsame
    exact hnot₁ (List.prefix_append (h :: u) y₁)
  constructor
  · rintro (hin | hin)
    · obtain ⟨x, w, y, rfl, hspread, hnot, -⟩ := hsource t hin
      refine ⟨x, w, y, rfl, .inl ⟨hspread, ?_⟩⟩
      rintro rfl
      exact hnot (List.prefix_append (h :: w) y)
    · obtain ⟨x, w, y, rfl, hspread, -, honly⟩ := hsource t' hin
      exact ⟨x, w, y, rfl, .inr ⟨hspread, honly rfl⟩⟩
  · rintro ⟨x, v, y, rfl, ⟨hv, hgap⟩ | ⟨hv, honly⟩⟩
    · left
      refine hkept t x v y ht hlen hv ?_ fun heq => absurd heq hne
      intro hstarts
      obtain ⟨-, hstarts⟩ := List.cons_prefix_cons.mp hstarts
      exact hgap (hv.eq_of_prefix head_gone rfl ht hstarts).2
    · right
      refine hkept t' x v y ht' rfl hv ?_ fun _ => honly
      intro hstarts
      obtain ⟨-, hstarts⟩ := List.cons_prefix_cons.mp hstarts
      exact hne (hv.eq_of_prefix head_gone hlen ht hstarts).1

end Two

end Wakterm.Machine
