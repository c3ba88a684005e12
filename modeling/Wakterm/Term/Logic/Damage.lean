import Wakterm.Machine.Steps
import Wakterm.Term.Logic.Line
import Wakterm.Term.Screen

/-!
# Which rows have changed

A screen is watched by its stable rows: whoever has seen it at some sequence number asks for the
rows that changed since.
-/

namespace Wakterm.Term

open Wakterm.Machine

/-! ## Rows -/

/-- The line in a stable row. -/
def Screen.lineAt (s : Screen) (row : Int) : Option Line :=
  (s.stableRowToPhys row).bind fun phys => s.lines[phys]?

theorem Screen.lineAt_iff {s : Screen} {row : Int} {line : Line} :
    s.lineAt row = some line ↔ ∃ i, At s.lines i line ∧ row = s.physToStableRowIndex i := by
  unfold lineAt stableRowToPhys physToStableRowIndex
  dsimp only
  constructor
  · intro h
    split at h
    · cases h
    · refine ⟨_, h, ?_⟩
      omega
  · rintro ⟨i, hi, rfl⟩
    have hlt := hi.lt
    rw [if_neg (by omega)]
    show s.lines[_]? = some line
    rw [show ((i + s.stableRowIndexOffset : Nat) - (s.stableRowIndexOffset : Int)).toNat = i by
      omega]
    exact hi

/-- All stable rows of the screen. -/
def Screen.wholeRange (s : Screen) : Span Int :=
  ⟨s.physToStableRowIndex 0, s.physToStableRowIndex s.lines.length⟩

theorem Screen.mem_getChangedStableRows {s : Screen} {seen : Nat} {row : Int} :
    row ∈ s.getChangedStableRows s.wholeRange seen ↔
      ∃ line, s.lineAt row = some line ∧ line.changedSince seen = true := by
  have hphys : s.stableRange s.wholeRange = ⟨0, s.lines.length⟩ ∨ s.lines = [] := by
    by_cases hempty : s.lines.length = 0
    · exact .inr (List.length_eq_zero_iff.mp hempty)
    · left
      unfold stableRange wholeRange stableRowToPhys physToStableRowIndex
      dsimp only
      rw [if_neg (by omega)]
      dsimp only
      rw [if_neg (by omega)]
      rw [Span.mk.injEq]
      omega
  have hrows : row ∈ s.getChangedStableRows s.wholeRange seen ↔
      ∃ i line, At s.lines i line ∧ line.changedSince seen = true ∧
        s.physToStableRowIndex i = row := by
    unfold getChangedStableRows
    rcases hphys with hphys | hempty
    · rw [hphys]
      dsimp only
      rw [List.drop_zero, List.take_of_length_le (by rw [List.length_zipIdx]; omega),
        List.mem_filterMap]
      constructor
      · rintro ⟨⟨line, i⟩, hmem, hrow⟩
        obtain ⟨j, hj⟩ := List.mem_iff_getElem?.mp hmem
        rw [List.getElem?_zipIdx, Option.map_eq_some_iff] at hj
        obtain ⟨line', hline, hpair⟩ := hj
        obtain ⟨rfl, rfl⟩ := Prod.mk.inj hpair
        dsimp only at hrow
        split at hrow
        · next hchanged =>
          refine ⟨j, line', hline, hchanged, ?_⟩
          rw [Nat.zero_add] at hrow
          exact Option.some.inj hrow
        · cases hrow
      · rintro ⟨i, line, hline, hchanged, rfl⟩
        refine ⟨(line, i), ?_, ?_⟩
        · refine List.mem_iff_getElem?.mpr ⟨i, ?_⟩
          rw [List.getElem?_zipIdx, hline, Option.map_some, Nat.zero_add]
        · dsimp only
          rw [if_pos hchanged]
    · rw [hempty]
      constructor
      · intro h
        simp at h
      · rintro ⟨i, line, hline, -⟩
        exact absurd hline at_nil
  rw [hrows]
  constructor
  · rintro ⟨i, line, hline, hchanged, rfl⟩
    exact ⟨line, lineAt_iff.mpr ⟨i, hline, rfl⟩, hchanged⟩
  · rintro ⟨line, hline, hchanged⟩
    obtain ⟨i, hi, rfl⟩ := lineAt_iff.mp hline
    exact ⟨i, line, hi, hchanged, rfl⟩

/-! ## Lines that stay -/

/-- The line shows what the other did, and has not changed since. -/
def Line.Alike (graphemes : Graphemes) (line old : Line) : Prop :=
  line.seqno = old.seqno ∧ line.content graphemes = old.content graphemes

theorem Line.Alike.trans {graphemes : Graphemes} {a b c : Line}
    (h : a.Alike graphemes b) (h' : b.Alike graphemes c) : a.Alike graphemes c :=
  ⟨h.1.trans h'.1, h.2.trans h'.2⟩

/-- Each line is new, or was in the same stable row. -/
def Kept (graphemes : Graphemes) (seqno : Nat) (s s' : Screen) : Prop :=
  ∀ i line, At s'.lines i line → seqno ≤ line.seqno ∨
    ∃ j old, At s.lines j old ∧ s.physToStableRowIndex j = s'.physToStableRowIndex i ∧
      line.Alike graphemes old

section Kept

variable {graphemes : Graphemes} {seqno : Nat} {s s' : Screen}

theorem Kept.refl (s : Screen) : Kept graphemes seqno s s :=
  fun i line h => .inr ⟨i, line, h, rfl, rfl, rfl⟩

theorem Kept.trans {seen seqno' : Nat} {s'' : Screen} (h : Kept graphemes seqno s s')
    (h' : Kept graphemes seqno' s' s'') (hseen : seen ≤ seqno) (hseen' : seen ≤ seqno') :
    Kept graphemes seen s s'' := by
  intro i line hline
  rcases h' i line hline with hnew | ⟨j, old, hold, hrow, halike⟩
  · exact .inl (Nat.le_trans hseen' hnew)
  · rcases h j old hold with hnew | ⟨k, older, holder, hrow', halike'⟩
    · left
      rw [halike.1]
      exact Nat.le_trans hseen hnew
    · exact .inr ⟨k, older, holder, hrow'.trans hrow, halike.trans halike'⟩

/-- Lines that are looked at one by one, each in its place. -/
structure Pointwise (graphemes : Graphemes) (seqno : Nat) (s s' : Screen) : Prop where
  frame : s' = { s with lines := s'.lines }
  length : s'.lines.length = s.lines.length
  kept : ∀ i line, At s'.lines i line → seqno ≤ line.seqno ∨
    ∃ old, At s.lines i old ∧ line.Alike graphemes old

theorem Pointwise.refl (s : Screen) : Pointwise graphemes seqno s s :=
  ⟨rfl, rfl, fun _ line h => .inr ⟨line, h, rfl, rfl⟩⟩

theorem Pointwise.trans {s'' : Screen} (h : Pointwise graphemes seqno s s')
    (h' : Pointwise graphemes seqno s' s'') : Pointwise graphemes seqno s s'' := by
  refine ⟨?_, h'.length.trans h.length, ?_⟩
  · rw [h'.frame, h.frame]
  · intro i line hline
    rcases h'.kept i line hline with hnew | ⟨old, hold, halike⟩
    · exact .inl hnew
    · rcases h.kept i old hold with hnew | ⟨older, holder, halike'⟩
      · left
        rw [halike.1]
        exact hnew
      · exact .inr ⟨older, holder, halike.trans halike'⟩

theorem Pointwise.toKept (h : Pointwise graphemes seqno s s') : Kept graphemes seqno s s' := by
  intro i line hline
  rcases h.kept i line hline with hnew | ⟨old, hold, halike⟩
  · exact .inl hnew
  · refine .inr ⟨i, old, hold, ?_, halike⟩
    rw [h.frame]
    rfl

variable {idx a n b c k p r : Nat} {f : Line → Except Panic Line} {margins : Span Nat}
  {attr : CellAttributes}

theorem modifyLine_pointwise (h : s.modifyLine idx f = .ok s')
    (hf : ∀ line line', At s.lines idx line → f line = .ok line' →
      seqno ≤ line'.seqno ∨ line'.Alike graphemes line) : Pointwise graphemes seqno s s' := by
  unfold Screen.modifyLine at h
  split at h
  · cases h
  · next old hold =>
    obtain ⟨new, hnew, rfl⟩ := map_eq_ok.mp h
    refine ⟨rfl, List.length_set, ?_⟩
    intro i line hline
    unfold At at hline
    dsimp only at hline
    rw [List.getElem?_set] at hline
    split at hline
    · next hidx =>
      subst hidx
      split at hline
      · cases hline
        rcases hf old new hold hnew with hseq | halike
        · exact .inl hseq
        · exact .inr ⟨old, hold, halike⟩
      · cases hline
    · exact .inr ⟨line, hline, rfl, rfl⟩

theorem modifyLine_at (h : s.modifyLine idx f = .ok s') :
    s' = { s with lines := s'.lines } ∧ s'.lines.length = s.lines.length ∧
      ∃ old new, At s.lines idx old ∧ f old = .ok new ∧ At s'.lines idx new ∧
        ∀ i, i ≠ idx → s'.lines[i]? = s.lines[i]? := by
  unfold Screen.modifyLine at h
  split at h
  · cases h
  · next old hold =>
    obtain ⟨new, hnew, rfl⟩ := map_eq_ok.mp h
    refine ⟨rfl, List.length_set, old, new, hold, hnew, ?_, ?_⟩
    · exact List.getElem?_set_self (At.lt hold)
    · intro i hi
      exact List.getElem?_set_ne (Ne.symm hi)

theorem rowsFrom_modify {f : Line → Line}
    (h : rowsFrom a n (fun y s => s.modifyLine y fun line => .ok (f line)) s = .ok s') :
    s' = { s with lines := s'.lines } ∧ s'.lines.length = s.lines.length ∧
      (n = 0 ∨ a + n ≤ s.lines.length) ∧
      ∀ i, s'.lines[i]? = if a ≤ i ∧ i < a + n then s.lines[i]?.map f else s.lines[i]? := by
  induction n generalizing a s with
  | zero =>
    cases h
    refine ⟨rfl, rfl, .inl rfl, ?_⟩
    intro i
    rw [if_neg (by omega)]
  | succ n ih =>
    obtain ⟨s1, h1, h2⟩ := bind_eq_ok.mp h
    obtain ⟨hframe1, hlen1, old, new, hold, hnew, hat, hothers⟩ := modifyLine_at h1
    obtain ⟨hframe2, hlen2, hfit, hrows⟩ := ih h2
    cases hnew
    refine ⟨by rw [hframe2, hframe1], hlen2.trans hlen1, ?_, ?_⟩
    · have hlt := At.lt hold
      omega
    · intro i
      rw [hrows i]
      by_cases hi : i = a
      · subst hi
        rw [if_neg (by omega), if_pos (by omega)]
        rw [show s.lines[i]? = some old from hold]
        exact hat
      · rw [hothers i hi]
        by_cases hin : a + 1 ≤ i ∧ i < a + 1 + n
        · rw [if_pos hin, if_pos (by omega)]
        · rw [if_neg hin, if_neg (by omega)]

theorem rowsFrom_touch (graphemes : Graphemes)
    (h : rowsFrom a n (Screen.touch seqno) s = .ok s') : Pointwise graphemes seqno s s' ∧
      (∀ i line, a ≤ i → i < a + n → At s'.lines i line → seqno ≤ line.seqno) ∧
      (n = 0 ∨ a + n ≤ s.lines.length) := by
  obtain ⟨hframe, hlen, hfit, hrows⟩ := rowsFrom_modify (f := (·.updateLastChangeSeqno seqno)) h
  have hnew : ∀ i line, a ≤ i → i < a + n → At s'.lines i line → seqno ≤ line.seqno := by
    intro i line hi hi' hline
    unfold At at hline
    rw [hrows i, if_pos ⟨hi, hi'⟩] at hline
    obtain ⟨old, -, rfl⟩ := Option.map_eq_some_iff.mp hline
    exact Nat.le_max_right _ _
  refine ⟨⟨hframe, hlen, ?_⟩, hnew, hfit⟩
  intro i line hline
  by_cases hi : a ≤ i ∧ i < a + n
  · exact .inl (hnew i line hi.1 hi.2 hline)
  · right
    unfold At at hline
    rw [hrows i, if_neg hi] at hline
    exact ⟨line, hline, rfl, rfl⟩

theorem rowsFrom_compress
    (h : rowsFrom a n (fun y s => s.modifyLine y fun line => .ok line.compressForScrollback) s =
      .ok s') (hread : ∀ i line, a ≤ i → i < a + n → At s.lines i line → line.Readable graphemes) :
    Pointwise graphemes seqno s s' := by
  obtain ⟨hframe, hlen, -, hrows⟩ := rowsFrom_modify h
  refine ⟨hframe, hlen, ?_⟩
  intro i line hline
  right
  unfold At at hline
  rw [hrows i] at hline
  split at hline
  · next hi =>
    obtain ⟨old, hold, rfl⟩ := Option.map_eq_some_iff.mp hline
    have hsame := Line.content_compress (hread i old hi.1 hi.2 hold)
    exact ⟨old, hold, old.seqno_compress, hsame⟩
  · exact ⟨line, hline, rfl, rfl⟩

theorem rowsFrom_compress_new
    (h : rowsFrom a n (fun y s => s.modifyLine y fun line => .ok line.compressForScrollback) s =
      .ok s') (hnew : ∀ i line, a ≤ i → i < a + n → At s.lines i line → seqno ≤ line.seqno) :
    Pointwise graphemes seqno s s' := by
  obtain ⟨hframe, hlen, -, hrows⟩ := rowsFrom_modify h
  refine ⟨hframe, hlen, ?_⟩
  intro i line hline
  unfold At at hline
  rw [hrows i] at hline
  split at hline
  · next hi =>
    obtain ⟨old, hold, rfl⟩ := Option.map_eq_some_iff.mp hline
    left
    rw [Line.seqno_compress]
    exact hnew i old hi.1 hi.2 hold
  · exact .inr ⟨line, hline, rfl, rfl⟩

/-! ## Regions -/

/-- Only the rows from `a` to `b` were touched, and no line went back. -/
structure Grown (a b : Nat) (s s' : Screen) : Prop where
  frame : s' = { s with lines := s'.lines }
  length : s'.lines.length = s.lines.length
  outside : ∀ i, i < a ∨ b ≤ i → s'.lines[i]? = s.lines[i]?
  mono : ∀ i line, At s'.lines i line → ∃ old, At s.lines i old ∧ old.seqno ≤ line.seqno

theorem Grown.refl (a b : Nat) (s : Screen) : Grown a b s s :=
  ⟨rfl, rfl, fun _ _ => rfl, fun _ line h => ⟨line, h, Nat.le_refl _⟩⟩

theorem Grown.trans {s'' : Screen} (h : Grown a b s s') (h' : Grown a b s' s'') :
    Grown a b s s'' := by
  refine ⟨by rw [h'.frame, h.frame], h'.length.trans h.length, ?_, ?_⟩
  · intro i hi
    rw [h'.outside i hi, h.outside i hi]
  · intro i line hline
    obtain ⟨old, hold, hle⟩ := h'.mono i line hline
    obtain ⟨older, holder, hle'⟩ := h.mono i old hold
    exact ⟨older, holder, Nat.le_trans hle' hle⟩

theorem Grown.pointwise (h : Grown a b s s')
    (hnew : ∀ i line, a ≤ i → i < b → At s'.lines i line → seqno ≤ line.seqno) :
    Pointwise graphemes seqno s s' := by
  refine ⟨h.frame, h.length, ?_⟩
  intro i line hline
  by_cases hi : a ≤ i ∧ i < b
  · exact .inl (hnew i line hi.1 hi.2 hline)
  · right
    unfold At at hline
    rw [h.outside i (by omega)] at hline
    exact ⟨line, hline, rfl, rfl⟩

theorem modifyLine_grown (h : s.modifyLine idx f = .ok s') (ha : a ≤ idx) (hb : idx < b)
    (hf : ∀ line line', f line = .ok line' → line.seqno ≤ line'.seqno) : Grown a b s s' := by
  obtain ⟨hframe, hlen, old, new, hold, hnew, hat, hothers⟩ := modifyLine_at h
  refine ⟨hframe, hlen, ?_, ?_⟩
  · intro i hi
    exact hothers i (by omega)
  · intro i line hline
    by_cases hi : i = idx
    · subst hi
      obtain rfl := hline.unique hat
      exact ⟨old, hold, hf old line hnew⟩
    · unfold At at hline
      rw [hothers i hi] at hline
      exact ⟨line, hline, Nat.le_refl _⟩

theorem rowsFrom_grown {f : Nat → Screen → Except Panic Screen} {dest : Nat → Nat}
    (hf : ∀ i, c ≤ i → i < c + k → ∀ s s', f i s = .ok s' →
      Grown a b s s' ∧ ∀ line, At s'.lines (dest i) line → seqno ≤ line.seqno)
    (h : rowsFrom c k f s = .ok s') : Grown a b s s' ∧
      ∀ i, c ≤ i → i < c + k → ∀ line, At s'.lines (dest i) line → seqno ≤ line.seqno := by
  induction k generalizing c s with
  | zero =>
    obtain rfl := Except.ok.inj h
    exact ⟨Grown.refl a b s, fun i hi hi' => by omega⟩
  | succ k ih =>
    obtain ⟨s1, h1, h2⟩ := bind_eq_ok.mp h
    obtain ⟨hgrown, hnew⟩ := hf c (Nat.le_refl _) (by omega) s s1 h1
    obtain ⟨hgrown', hnew'⟩ := ih (fun i hi hi' => hf i (by omega) (by omega)) h2
    refine ⟨hgrown.trans hgrown', ?_⟩
    intro i hi hi' line hline
    by_cases hc : i = c
    · subst hc
      obtain ⟨old, hold, hle⟩ := hgrown'.mono _ line hline
      exact Nat.le_trans (hnew old hold) hle
    · exact hnew' i (by omega) (by omega) line hline

/-! ## Copying between margins -/

theorem seqno_placeCells {cells : List Cell} {line line' : Line}
    (h : Screen.placeCells graphemes margins cells seqno attr line = .ok line') :
    max line.seqno seqno ≤ line'.seqno := by
  unfold Screen.placeCells at h
  dsimp only at h
  generalize hwide : (if (line.updateLastChangeSeqno seqno).len < margins.start + cells.length then
      (line.updateLastChangeSeqno seqno).resize graphemes (margins.start + cells.length) seqno
    else line.updateLastChangeSeqno seqno) = wide at h
  have hraised : max line.seqno seqno ≤ wide.seqno := by
    rw [← hwide]
    split
    · exact Nat.le_max_left _ _
    · exact Nat.le_refl _
  split at h
  · cases h
  · cases h
    refine Nat.le_trans hraised ?_
    exact Line.seqno_fillRange graphemes (wide.setCells _) _ _ _ _

theorem copyRow_grown {src dest : Nat}
    (h : Screen.copyRow graphemes margins seqno attr src dest s = .ok s') (hsrc : a ≤ src)
    (hsrc' : src < b) (hdest : a ≤ dest) (hdest' : dest < b) :
    Grown a b s s' ∧ ∀ line, At s'.lines dest line → seqno ≤ line.seqno := by
  unfold Screen.copyRow at h
  split at h
  · cases h
  · split at h
    · cases h
    · obtain ⟨s1, h1, h2⟩ := bind_eq_ok.mp h
      have hgrown1 : Grown a b s s1 := by
        refine modifyLine_grown h1 hsrc hsrc' ?_
        intro l l' hl
        cases hl
        exact Nat.le_refl _
      have hgrown2 : Grown a b s1 s' :=
        modifyLine_grown h2 hdest hdest' fun l l' hl =>
          Nat.le_trans (Nat.le_max_left _ _) (seqno_placeCells hl)
      refine ⟨hgrown1.trans hgrown2, ?_⟩
      intro l hl
      obtain ⟨-, -, old, new, -, hnew, hat, -⟩ := modifyLine_at h2
      obtain rfl := hl.unique hat
      exact Nat.le_trans (Nat.le_max_right _ _) (seqno_placeCells hnew)

theorem blankRow_grown {row : Nat} (h : Screen.blankRow graphemes margins seqno attr row s = .ok s')
    (hrow : a ≤ row) (hrow' : row < b) :
    Grown a b s s' ∧ ∀ line, At s'.lines row line → seqno ≤ line.seqno := by
  have hraised : ∀ l l' : Line, (if margins.stop < margins.start then
        (.error .arithmetic : Except Panic Line)
      else
        .ok ((l.updateLastChangeSeqno seqno).setCells
          (((l.updateLastChangeSeqno seqno).vec graphemes).mapIdx fun x cell =>
            if margins.start ≤ x ∧ x < margins.stop then .blankWithAttrs attr else cell))) =
        .ok l' → max l.seqno seqno ≤ l'.seqno := by
    intro l l' hl
    split at hl
    · cases hl
    · cases hl
      exact Nat.le_refl _
  refine ⟨modifyLine_grown h hrow hrow' fun l l' hl =>
    Nat.le_trans (Nat.le_max_left _ _) (hraised l l' hl), ?_⟩
  intro l hl
  obtain ⟨-, -, old, new, -, hnew, hat, -⟩ := modifyLine_at h
  obtain rfl := hl.unique hat
  exact Nat.le_trans (Nat.le_max_right _ _) (hraised old l hnew)

theorem copyRows_pointwise {f : Nat → Screen → Except Panic Screen} (dest : Nat → Nat) {fill : Nat}
    {s1 : Screen}
    (hf : ∀ i, c ≤ i → i < c + k → ∃ src, a ≤ src ∧ src < b ∧ a ≤ dest i ∧ dest i < b ∧
      f i = Screen.copyRow graphemes margins seqno attr src (dest i))
    (hfill : ∀ i, fill ≤ i → i < fill + n → a ≤ i ∧ i < b)
    (hall : ∀ i, a ≤ i → i < b → (fill ≤ i ∧ i < fill + n) ∨ ∃ j, c ≤ j ∧ j < c + k ∧ dest j = i)
    (h : rowsFrom c k f s = .ok s1)
    (h' : rowsFrom fill n (Screen.blankRow graphemes margins seqno attr) s1 = .ok s') :
    Pointwise graphemes seqno s s' := by
  have hcopied : Grown a b s s1 ∧ ∀ i, c ≤ i → i < c + k →
      ∀ line, At s1.lines (dest i) line → seqno ≤ line.seqno := by
    refine rowsFrom_grown ?_ h
    intro i hi hi' t t' ht
    obtain ⟨src, hsrc, hsrc', hdest, hdest', hfi⟩ := hf i hi hi'
    rw [hfi] at ht
    exact copyRow_grown ht hsrc hsrc' hdest hdest'
  have hblanked : Grown a b s1 s' ∧ ∀ i, fill ≤ i → i < fill + n →
      ∀ line, At s'.lines i line → seqno ≤ line.seqno := by
    refine rowsFrom_grown ?_ h'
    intro i hi hi' t t' ht
    exact blankRow_grown ht (hfill i hi hi').1 (hfill i hi hi').2
  obtain ⟨hgrown1, hnew1⟩ := hcopied
  obtain ⟨hgrown2, hnew2⟩ := hblanked
  refine (hgrown1.trans hgrown2).pointwise ?_
  intro i line hi hi' hline
  rcases hall i hi hi' with ⟨hlo, hhi⟩ | ⟨j, hj, hj', rfl⟩
  · exact hnew2 i hlo hhi line hline
  · obtain ⟨old, hold, hle⟩ := hgrown2.mono _ line hline
    exact Nat.le_trans (hnew1 j hj hj' old hold) hle

/-! ## Scrolling -/

theorem seqno_blankLine (cols seqno : Nat) (attr : CellAttributes) (bidi : BidiMode) :
    seqno ≤ (blankLine cols seqno attr bidi).seqno := by
  unfold blankLine
  exact Nat.le_max_right _ _

theorem moveLine_at {atEnd : Bool} (h : Screen.moveLine r seqno attr atEnd p s = .ok s')
    (hrp : atEnd = false → r ≤ p) :
    s' = { s with lines := s'.lines } ∧ s'.lines.length = s.lines.length ∧
      ∀ i line, At s'.lines i line → seqno ≤ line.seqno ∨ (i < r ∧ At s.lines i line) ∨
        (r ≤ i ∧ (atEnd = false → i + 1 ≤ p) ∧ At s.lines (i + 1) line) ∨
        (atEnd = false ∧ p < i ∧ At s.lines i line) := by
  unfold Screen.moveLine at h
  split at h
  · cases h
  · next old hold =>
    dsimp only at h
    have hlt : r < s.lines.length := At.lt hold
    generalize hnew : (if attr = .blank then Line.new seqno
      else (old.resizeAndClear s.physicalCols seqno attr).updateLastChangeSeqno seqno) = new at h
    have hseq : seqno ≤ new.seqno := by
      rw [← hnew]
      split
      · exact Nat.le_refl _
      · exact Nat.le_max_right _ _
    cases atEnd with
    | true =>
      cases h
      refine ⟨rfl, ?_, ?_⟩
      · show (s.lines.eraseIdx r ++ [new]).length = _
        rw [List.length_append, List.length_eraseIdx, if_pos hlt, List.length_singleton]
        omega
      · intro i line hline
        rcases at_concat.mp hline with hline | ⟨-, rfl⟩
        · unfold At at hline
          rw [List.getElem?_eraseIdx] at hline
          split at hline
          · next hi => exact .inr (.inl ⟨hi, hline⟩)
          · next hi => exact .inr (.inr (.inl ⟨by omega, by simp, hline⟩))
        · exact .inl hseq
    | false =>
      rw [if_neg (by decide)] at h
      split at h
      · cases h
      · next hfit =>
        cases h
        have hrp := hrp rfl
        rw [List.length_eraseIdx, if_pos hlt] at hfit
        refine ⟨rfl, ?_, ?_⟩
        · show ((s.lines.eraseIdx r).insertIdx p new).length = _
          rw [List.length_insertIdx, List.length_eraseIdx, if_pos hlt, if_pos (by omega)]
          omega
        · intro i line hline
          unfold At at hline
          dsimp only at hline
          rw [List.getElem?_insertIdx] at hline
          split at hline
          · next hi =>
            rw [List.getElem?_eraseIdx] at hline
            split at hline
            · next hi' => exact .inr (.inl ⟨hi', hline⟩)
            · exact .inr (.inr (.inl ⟨by omega, fun _ => by omega, hline⟩))
          · split at hline
            · split at hline
              · cases hline
                exact .inl hseq
              · cases hline
            · rw [List.getElem?_eraseIdx, if_neg (by omega)] at hline
              refine .inr (.inr (.inr ⟨rfl, by omega, ?_⟩))
              rw [show i - 1 + 1 = i by omega] at hline
              exact hline

theorem rounds_moveLine {atEnd : Bool}
    (h : rounds n (Screen.moveLine r seqno attr atEnd p) s = .ok s')
    (hrp : 0 < n → atEnd = false → r ≤ p) :
    s' = { s with lines := s'.lines } ∧ s'.lines.length = s.lines.length ∧
      ∀ i line, At s'.lines i line → seqno ≤ line.seqno ∨ (i < r ∧ At s.lines i line) ∨
        (r ≤ i ∧ (0 < n → atEnd = false → i + n ≤ p) ∧ At s.lines (i + n) line) ∨
        (atEnd = false ∧ p < i ∧ At s.lines i line) := by
  induction n generalizing s with
  | zero =>
    cases h
    refine ⟨rfl, rfl, ?_⟩
    intro i line hline
    by_cases hi : i < r
    · exact .inr (.inl ⟨hi, hline⟩)
    · exact .inr (.inr (.inl ⟨by omega, fun hn => absurd hn (Nat.lt_irrefl _), hline⟩))
  | succ n ih =>
    obtain ⟨s1, h1, h2⟩ := bind_eq_ok.mp h
    have hrp := hrp (Nat.succ_pos n)
    obtain ⟨hframe1, hlen1, hrows1⟩ := moveLine_at h1 hrp
    obtain ⟨hframe2, hlen2, hrows2⟩ := ih h2 (fun _ => hrp)
    refine ⟨by rw [hframe2, hframe1], hlen2.trans hlen1, ?_⟩
    intro i line hline
    rcases hrows2 i line hline with hnew | ⟨hi, hat⟩ | ⟨hi, hp, hat⟩ | ⟨hend, hi, hat⟩
    · exact .inl hnew
    · rcases hrows1 i line hat with hnew | ⟨-, hat⟩ | ⟨hi', -, -⟩ | ⟨hend, hi', -⟩
      · exact .inl hnew
      · exact .inr (.inl ⟨hi, hat⟩)
      · omega
      · have := hrp hend
        omega
    · rcases hrows1 (i + n) line hat with hnew | ⟨hi', -⟩ | ⟨-, hp', hat⟩ | ⟨hend, hi', hat⟩
      · exact .inl hnew
      · omega
      · exact .inr (.inr (.inl ⟨hi, fun _ hend => by have := hp' hend; omega, hat⟩))
      · -- below the place where lines come in nothing moves
        by_cases hn : 0 < n
        · have := hp hn hend
          omega
        · obtain rfl : n = 0 := by omega
          exact .inr (.inr (.inr ⟨hend, hi', hat⟩))
    · rcases hrows1 i line hat with hnew | ⟨hi', -⟩ | ⟨-, hp', -⟩ | ⟨-, -, hat⟩
      · exact .inl hnew
      · have := hrp hend
        omega
      · have := hp' hend
        omega
      · exact .inr (.inr (.inr ⟨hend, hi, hat⟩))

theorem rounds_addLine {bidi : BidiMode} {atEnd : Bool}
    (h : rounds n (Screen.addLine seqno attr bidi atEnd p) s = .ok s') :
    s' = { s with lines := s'.lines } ∧ s'.lines.length = s.lines.length + n ∧
      ∀ i line, At s'.lines i line → seqno ≤ line.seqno ∨ (atEnd = true ∧ At s.lines i line) ∨
        (atEnd = false ∧ i < p ∧ At s.lines i line) ∨
        (atEnd = false ∧ p + n ≤ i ∧ At s.lines (i - n) line) := by
  induction n generalizing s with
  | zero =>
    cases h
    refine ⟨rfl, rfl, ?_⟩
    intro i line hline
    cases atEnd with
    | true => exact .inr (.inl ⟨rfl, hline⟩)
    | false =>
      by_cases hi : i < p
      · exact .inr (.inr (.inl ⟨rfl, hi, hline⟩))
      · exact .inr (.inr (.inr ⟨rfl, by omega, hline⟩))
  | succ n ih =>
    obtain ⟨s1, h1, h2⟩ := bind_eq_ok.mp h
    obtain ⟨hframe2, hlen2, hrows2⟩ := ih h2
    have hseq := seqno_blankLine s.physicalCols seqno attr bidi
    unfold Screen.addLine at h1
    dsimp only at h1
    cases atEnd with
    | true =>
      cases h1
      refine ⟨by rw [hframe2], ?_, ?_⟩
      · rw [hlen2]
        show (s.lines ++ [_]).length + n = _
        rw [List.length_append, List.length_singleton]
        omega
      · intro i line hline
        rcases hrows2 i line hline with hnew | ⟨-, hat⟩ | ⟨hend, -⟩ | ⟨hend, -⟩
        · exact .inl hnew
        · rcases at_concat.mp hat with hat | ⟨-, rfl⟩
          · exact .inr (.inl ⟨rfl, hat⟩)
          · exact .inl hseq
        · cases hend
        · cases hend
    | false =>
      rw [if_neg (by decide)] at h1
      split at h1
      · cases h1
      · cases h1
        -- one line came in at the place: those from there on are one further down
        have hstep : ∀ j line, At (s.lines.insertIdx p
            (blankLine s.physicalCols seqno attr bidi)) j line → seqno ≤ line.seqno ∨
            (j < p ∧ At s.lines j line) ∨ (p < j ∧ At s.lines (j - 1) line) := by
          intro j line hat
          unfold At at hat
          rw [List.getElem?_insertIdx] at hat
          split at hat
          · next hj => exact .inr (.inl ⟨hj, hat⟩)
          · split at hat
            · split at hat
              · cases hat
                exact .inl hseq
              · cases hat
            · exact .inr (.inr ⟨by omega, hat⟩)
        refine ⟨by rw [hframe2], ?_, ?_⟩
        · rw [hlen2]
          show (s.lines.insertIdx p _).length + n = _
          rw [List.length_insertIdx, if_pos (by omega)]
          omega
        · intro i line hline
          rcases hrows2 i line hline with hnew | ⟨hend, -⟩ | ⟨-, hi, hat⟩ | ⟨-, hi, hat⟩
          · exact .inl hnew
          · cases hend
          · rcases hstep i line hat with hnew | ⟨-, hat⟩ | ⟨hi', -⟩
            · exact .inl hnew
            · exact .inr (.inr (.inl ⟨rfl, hi, hat⟩))
            · omega
          · rcases hstep (i - n) line hat with hnew | ⟨hi', -⟩ | ⟨hi', hat⟩
            · exact .inl hnew
            · omega
            · refine .inr (.inr (.inr ⟨rfl, by omega, ?_⟩))
              rw [show i - (n + 1) = i - n - 1 by omega]
              exact hat

theorem rounds_removeLine (h : rounds n (Screen.removeLine r) s = .ok s') :
    s' = { s with lines := s'.lines } ∧
      (r + n ≤ s.lines.length → s'.lines.length = s.lines.length - n) ∧
      ∀ i line, At s'.lines i line →
        (i < r ∧ At s.lines i line) ∨ (r ≤ i ∧ At s.lines (i + n) line) := by
  induction n generalizing s with
  | zero =>
    cases h
    refine ⟨rfl, fun _ => rfl, ?_⟩
    intro i line hline
    by_cases hi : i < r
    · exact .inl ⟨hi, hline⟩
    · exact .inr ⟨by omega, hline⟩
  | succ n ih =>
    have h2 : rounds n (Screen.removeLine r)
      { s with lines := s.lines.eraseIdx r } = .ok s' := h
    obtain ⟨hframe2, hlen2, hrows2⟩ := ih h2
    refine ⟨by rw [hframe2], ?_, ?_⟩
    · intro hfit
      have hlen : (s.lines.eraseIdx r).length = s.lines.length - 1 := by
        rw [List.length_eraseIdx, if_pos (by omega)]
      rw [hlen2 (by show r + n ≤ (s.lines.eraseIdx r).length; omega)]
      show (s.lines.eraseIdx r).length - n = _
      omega
    · intro i line hline
      rcases hrows2 i line hline with ⟨hi, hat⟩ | ⟨hi, hat⟩
      · unfold At at hat
        dsimp only at hat
        rw [List.getElem?_eraseIdx, if_pos hi] at hat
        exact .inl ⟨hi, hat⟩
      · unfold At at hat
        dsimp only at hat
        rw [List.getElem?_eraseIdx, if_neg (by omega)] at hat
        exact .inr ⟨hi, hat⟩

end Kept

end Wakterm.Term
