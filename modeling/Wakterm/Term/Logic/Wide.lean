import Wakterm.Term.Logic.Clusters

/-!
# Wide cells and what they cover

A wide cell is followed by a blank one, which it covers.
-/

namespace Wakterm.Term

/-- A cell that a wide one may cover. -/
def Cell.Filler (c : Cell) : Prop := c.text = space ∧ c.wide = false

instance (c : Cell) : Decidable c.Filler := inferInstanceAs (Decidable (_ ∧ _))

theorem filler_blankWithAttrs (attrs : CellAttributes) : (Cell.blankWithAttrs attrs).Filler :=
  ⟨rfl, rfl⟩

/-- There is a cell in the column that a wide one may cover. -/
def FillerAt (cells : List Cell) (i : Nat) : Prop := ∃ f, cells[i]? = some f ∧ f.Filler

/-- There is no wide cell in the column. -/
def NarrowAt (cells : List Cell) (i : Nat) : Prop := ∀ c, cells[i]? = some c → c.wide = false

/-- Every wide cell is followed by one that it covers. -/
def Paired (cells : List Cell) : Prop :=
  ∀ i c, cells[i]? = some c → c.wide = true → FillerAt cells (i + 1)

instance (cells : List Cell) (i : Nat) : Decidable (FillerAt cells i) :=
  decidable_of_iff ((cells[i]?.map fun f => decide f.Filler).getD false = true) (by
    unfold FillerAt
    cases cells[i]? with
    | none => simp
    | some f => simp)

instance (cells : List Cell) (i : Nat) : Decidable (NarrowAt cells i) :=
  decidable_of_iff ((cells[i]?.map fun c => !c.wide).getD true = true) (by
    unfold NarrowAt
    cases cells[i]? with
    | none => simp
    | some f => simp)

/-! ## Lists of cells -/

section Lists

variable {cells : List Cell}

theorem paired_nil : Paired [] := by
  intro i c h
  cases h

variable {i x : Nat} {cells' : List Cell} {c cell : Cell}

theorem FillerAt.lt (h : FillerAt cells i) : i < cells.length := by
  obtain ⟨f, hf, -⟩ := h
  exact (List.getElem?_eq_some_iff.mp hf).1

/-- The texts and the widths of the cells, which are all that counts here. -/
def shape (cells : List Cell) : List (Text × Bool) := cells.map fun c => (c.text, c.wide)

theorem getElem?_of_shape (h : shape cells = shape cells') (hc : cells[i]? = some c) :
    ∃ c', cells'[i]? = some c' ∧ c'.text = c.text ∧ c'.wide = c.wide := by
  have hi : (shape cells')[i]? = some (c.text, c.wide) := by
    rw [← h]
    unfold shape
    rw [List.getElem?_map, hc]
    rfl
  unfold shape at hi
  rw [List.getElem?_map] at hi
  obtain ⟨c', hc', heq⟩ := Option.map_eq_some_iff.mp hi
  exact ⟨c', hc', (Prod.mk.inj heq).1, (Prod.mk.inj heq).2⟩

theorem FillerAt.of_shape (h : FillerAt cells i) (hshape : shape cells = shape cells') :
    FillerAt cells' i := by
  obtain ⟨f, hf, hfiller⟩ := h
  obtain ⟨f', hf', htext, hwide⟩ := getElem?_of_shape hshape hf
  exact ⟨f', hf', htext.trans hfiller.1, hwide.trans hfiller.2⟩

theorem NarrowAt.of_shape (h : NarrowAt cells i) (hshape : shape cells = shape cells') :
    NarrowAt cells' i := by
  intro c hc
  obtain ⟨c', hc', -, hwide⟩ := getElem?_of_shape hshape.symm hc
  rw [← hwide]
  exact h c' hc'

theorem Paired.of_shape (h : Paired cells) (hshape : shape cells = shape cells') :
    Paired cells' := by
  intro i c hc hwide
  obtain ⟨c', hc', -, hw⟩ := getElem?_of_shape hshape.symm hc
  exact (h i c' hc' (hw.trans hwide)).of_shape hshape

theorem Paired.narrow_last (h : Paired cells) (hi : cells.length ≤ i + 1) : NarrowAt cells i := by
  intro c hc
  cases hwide : c.wide with
  | false => rfl
  | true =>
    have hlt := (h i c hc hwide).lt
    omega

theorem Paired.set (h : Paired cells) {idx : Nat}
    (hbefore : ∀ j, j + 1 = idx → NarrowAt cells j ∨ c.Filler)
    (hafter : c.wide = true → FillerAt cells (idx + 1)) : Paired (cells.set idx c) := by
  intro i d hd hwide
  unfold FillerAt
  rw [List.getElem?_set] at hd ⊢
  split at hd
  · next hi =>
    subst hi
    split at hd
    · cases hd
      rw [if_neg (by omega)]
      exact hafter hwide
    · cases hd
  · obtain ⟨f, hf, hfiller⟩ := h i d hd hwide
    have hlt := (List.getElem?_eq_some_iff.mp hf).1
    by_cases hi : idx = i + 1
    · rw [if_pos hi, if_pos (by omega)]
      refine ⟨c, rfl, ?_⟩
      rcases hbefore i hi.symm with hnarrow | hc
      · rw [hnarrow d hd] at hwide
        cases hwide
      · exact hc
    · rw [if_neg hi]
      exact ⟨f, hf, hfiller⟩

theorem Paired.set_filler (h : Paired cells) (idx : Nat) (hc : c.Filler) :
    Paired (cells.set idx c) := by
  refine h.set (fun _ _ => .inr hc) ?_
  intro hwide
  rw [hc.2] at hwide
  cases hwide

theorem Paired.eraseIdx (h : Paired cells)
    (hbefore : ∀ j, j + 1 = x → NarrowAt cells j ∨ FillerAt cells (x + 1)) :
    Paired (cells.eraseIdx x) := by
  intro i c hc hwide
  unfold FillerAt
  rw [List.getElem?_eraseIdx] at hc ⊢
  split at hc
  · next hi =>
    obtain ⟨f, hf, hfiller⟩ := h i c hc hwide
    by_cases hlast : i + 1 = x
    · rw [if_neg (by omega)]
      rcases hbefore i hlast with hnarrow | hnext
      · rw [hnarrow c hc] at hwide
        cases hwide
      · rw [hlast]
        exact hnext
    · rw [if_pos (by omega)]
      exact ⟨f, hf, hfiller⟩
  · rw [if_neg (by omega)]
    exact h (i + 1) c hc hwide

theorem Paired.insertIdx (h : Paired cells) (hx : x ≤ cells.length)
    (hbefore : ∀ j, j + 1 = x → NarrowAt cells j ∨ c.Filler)
    (hafter : c.wide = true → FillerAt cells x) : Paired (cells.insertIdx x c) := by
  intro i d hd hwide
  unfold FillerAt
  rw [List.getElem?_insertIdx] at hd ⊢
  split at hd
  · next hi =>
    obtain ⟨f, hf, hfiller⟩ := h i d hd hwide
    by_cases hlast : i + 1 = x
    · rw [if_neg (by omega), if_pos hlast, if_pos (by omega)]
      refine ⟨c, rfl, ?_⟩
      rcases hbefore i hlast with hnarrow | hc
      · rw [hnarrow d hd] at hwide
        cases hwide
      · exact hc
    · rw [if_pos (by omega)]
      exact ⟨f, hf, hfiller⟩
  · split at hd
    · next hi =>
      subst hi
      rw [if_pos hx] at hd
      cases hd
      rw [if_neg (by omega), if_neg (by omega), Nat.add_sub_cancel]
      exact hafter hwide
    · rw [if_neg (by omega), if_neg (by omega)]
      have hnext := h (i - 1) d hd hwide
      rw [Nat.sub_add_cancel (by omega)] at hnext
      rw [Nat.add_sub_cancel]
      exact hnext

theorem getElem?_resizeCells (cells : List Cell) (width i : Nat) : (resizeCells cells width)[i]? =
      if i < width then some (cells[i]?.getD .blank) else none := by
  unfold resizeCells
  rw [List.getElem?_append, List.length_take, List.getElem?_take, List.getElem?_replicate]
  by_cases hi : i < width
  · by_cases hlt : i < cells.length
    · rw [if_pos (by omega), if_pos hi, if_pos hi, List.getElem?_eq_getElem hlt]
      rfl
    · rw [if_neg (by omega), if_pos (by omega), if_pos hi,
        List.getElem?_eq_none (Nat.le_of_not_lt hlt)]
      rfl
  · rw [if_neg (by omega), if_neg (by omega), if_neg hi]

theorem Paired.resizeCells (h : Paired cells) {width : Nat}
    (hcut : ∀ j, j + 1 = width → width < cells.length → NarrowAt cells j) :
    Paired (resizeCells cells width) := by
  intro i c hc hwide
  rw [getElem?_resizeCells] at hc
  split at hc
  · next hi =>
    have hc := Option.some.inj hc
    cases hcell : cells[i]? with
    | none =>
      rw [hcell] at hc
      rw [← hc] at hwide
      cases hwide
    | some c' =>
      rw [hcell] at hc
      obtain rfl : c' = c := hc
      obtain ⟨f, hf, hfiller⟩ := h i c' hcell hwide
      have hlt := (List.getElem?_eq_some_iff.mp hf).1
      by_cases hlast : i + 1 = width
      · rw [hcut i hlast (by omega) c' hcell] at hwide
        cases hwide
      · refine ⟨f, ?_, hfiller⟩
        rw [getElem?_resizeCells, if_pos (by omega), hf]
        rfl
  · cases hc

theorem length_resizeCells (cells : List Cell) (width : Nat) :
    (resizeCells cells width).length = width := by
  unfold resizeCells
  rw [List.length_append, List.length_take, List.length_replicate]
  omega

theorem Paired.snoc (h : Paired cells) {c : Cell} (hc : c.wide = false) : Paired (cells ++ [c]) := by
  have hinsert := h.insertIdx (Nat.le_refl _) (c := c) ?_ ?_
  · rw [List.insertIdx_length_self] at hinsert
    exact hinsert
  · intro j hj
    exact .inl (h.narrow_last (by omega))
  · intro hwide
    rw [hc] at hwide
    cases hwide

theorem Paired.front {front back : List Cell} (h : Paired (front ++ back))
    (hlast : ∀ c, front.getLast? = some c → c.wide = false) : Paired front := by
  intro i c hc hwide
  have hlt := (List.getElem?_eq_some_iff.mp hc).1
  obtain ⟨f, hf, hfiller⟩ := h i c (by rw [List.getElem?_append_left hlt]; exact hc) hwide
  by_cases hi : i + 1 < front.length
  · rw [List.getElem?_append_left hi] at hf
    exact ⟨f, hf, hfiller⟩
  · have hend : front.getLast? = some c := by
      rw [List.getLast?_eq_getElem?, show front.length - 1 = i by omega]
      exact hc
    rw [hlast c hend] at hwide
    cases hwide

/-! ## Setting cells -/

theorem shape_setVec (cells : List Cell) (idx : Nat) (cell : Cell) (clear : Bool) :
    shape (cells.set idx cell) = shape (setVec cells idx cell clear) := by
  have hshape : ∀ c, shape (cells.set idx c) = (shape cells).set idx (c.text, c.wide) := by
    intro c
    unfold shape
    rw [List.map_set]
  unfold setVec
  rw [hshape, hshape]

theorem length_invalidateVec (cells : List Cell) (idx : Nat) :
    (invalidateVec cells idx).length = cells.length := by
  unfold invalidateVec
  split
  · rfl
  · split
    · split
      · rw [List.length_set, List.length_set]
      · rfl
    · rfl

theorem Paired.invalidateVec (h : Paired cells) (idx : Nat) : Paired (invalidateVec cells idx) := by
  unfold Term.invalidateVec
  split
  · exact h
  · split
    · split
      · exact (h.set_filler _ (filler_blankWithAttrs _)).set_filler _ (filler_blankWithAttrs _)
      · exact h
    · exact h

theorem narrowAt_invalidateVec (cells : List Cell) (j : Nat) :
    NarrowAt (invalidateVec cells (j + 1)) j := by
  intro c hc
  unfold invalidateVec at hc
  dsimp only at hc
  cases hcell : cells[j]? with
  | none =>
    rw [hcell] at hc
    dsimp only at hc
    rw [hcell] at hc
    cases hc
  | some d =>
    rw [hcell] at hc
    dsimp only at hc
    have hlt := (List.getElem?_eq_some_iff.mp hcell).1
    split at hc
    · rw [List.getElem?_set_ne (by omega), List.getElem?_set_self hlt] at hc
      rw [← Option.some.inj hc]
      rfl
    · next hnarrow =>
      rw [hcell] at hc
      rw [← Option.some.inj hc, ← Bool.not_eq_true]
      exact hnarrow

theorem Paired.setCellVec (h : Paired cells) (idx : Nat) (cell : Cell) (clear : Bool) :
    Paired (Line.setCellVec cells idx cell clear) := by
  have hpos := cellWidth_pos cell.wide
  have hcw : cell.width = cellWidth cell.wide := rfl
  -- the line is made long enough, and nothing is cut off
  obtain ⟨grown, hgrown, hpaired, hfit⟩ : ∃ grown, (if cells.length < idx + cell.width then
      Term.resizeCells cells (idx + cell.width) else cells) = grown ∧ Paired grown ∧
        idx + cell.width ≤ grown.length := by
    refine ⟨_, rfl, ?_, ?_⟩
    · split
      · next hshort =>
        refine h.resizeCells ?_
        intro j _ hcut
        omega
      · exact h
    · split
      · rw [length_resizeCells]
      · omega
  have hcleared := hpaired.invalidateVec idx
  have hnarrow : ∀ j, j + 1 = idx → NarrowAt (Term.invalidateVec grown idx) j := by
    rintro j rfl
    exact narrowAt_invalidateVec grown j
  have hlen := length_invalidateVec grown idx
  unfold Line.setCellVec
  rw [hgrown]
  dsimp only
  generalize Term.invalidateVec grown idx = cleared at hcleared hnarrow hlen ⊢
  cases hwide : cell.wide with
  | false =>
    refine Paired.of_shape ?_ (shape_setVec _ _ _ _)
    refine hcleared.set (fun j hj => .inl (hnarrow j hj)) ?_
    intro hw
    rw [hwide] at hw
    cases hw
  | true =>
    have htwo : cell.width = 2 := by
      rw [hcw, hwide]
      rfl
    have hshape := shape_setVec cleared (idx + 1) (.blankWithAttrs cell.attrs) clear
    have hfilled : Paired (setVec cleared (idx + 1) (.blankWithAttrs cell.attrs) clear) :=
      (hcleared.set_filler _ (filler_blankWithAttrs _)).of_shape hshape
    refine Paired.of_shape ?_ (shape_setVec _ _ _ _)
    refine hfilled.set ?_ ?_
    · intro j hj
      refine .inl (NarrowAt.of_shape ?_ hshape)
      intro c hc
      rw [List.getElem?_set_ne (by omega)] at hc
      exact hnarrow j hj c hc
    · intro _
      refine FillerAt.of_shape ?_ hshape
      refine ⟨_, List.getElem?_set_self (by omega), filler_blankWithAttrs _⟩

theorem Paired.insertWide (h : Paired cells) (hx : x ≤ cells.length)
    (hbefore : ∀ j, j + 1 = x → NarrowAt cells j ∨ cell.Filler) :
    Paired ((if cell.wide then cells.insertIdx x (.blankWithAttrs cell.attrs) else cells).insertIdx x
      cell) := by
  cases hwide : cell.wide with
  | false =>
    refine h.insertIdx hx hbefore ?_
    intro hw
    rw [hwide] at hw
    cases hw
  | true =>
    have hfiller := filler_blankWithAttrs cell.attrs
    have hblank : Paired (cells.insertIdx x (.blankWithAttrs cell.attrs)) := by
      refine h.insertIdx hx (fun _ _ => .inr hfiller) ?_
      intro hw
      cases hw
    refine hblank.insertIdx ?_ ?_ ?_
    · rw [List.length_insertIdx_of_le_length hx]
      omega
    · intro j hj
      rcases hbefore j hj with hnarrow | hcell
      · refine .inl ?_
        intro c hc
        rw [List.getElem?_insertIdx_of_lt (by omega)] at hc
        exact hnarrow c hc
      · exact .inr hcell
    · intro _
      refine ⟨_, ?_, hfiller⟩
      rw [List.getElem?_insertIdx_self, if_pos (by omega)]

theorem Paired.insertCell (h : Paired cells) {rightMargin : Nat} (hx : x < rightMargin)
    (hbefore : ∀ j, j + 1 = x → NarrowAt cells j ∨ cell.Filler)
    (hmargin : ∀ j, j + 2 = rightMargin → x ≤ j → rightMargin ≤ cells.length →
      NarrowAt cells j ∨ FillerAt cells rightMargin) {erased grown : List Cell} (herased : erased =
      if rightMargin ≤ cells.length then cells.eraseIdx (rightMargin - 1) else cells)
    (hgrown : grown = if erased.length ≤ x then Term.resizeCells erased x else erased) :
    Paired ((if cell.wide then grown.insertIdx x (.blankWithAttrs cell.attrs) else grown).insertIdx x
      cell) := by
  by_cases hin : rightMargin ≤ cells.length
  · rw [if_pos hin] at herased
    have hlen : erased.length = cells.length - 1 := by
      rw [herased, List.length_eraseIdx_of_lt (by omega)]
    have hsame : grown = erased := by
      rw [hgrown]
      split
      · unfold Term.resizeCells
        rw [List.take_of_length_le (by omega), Nat.sub_eq_zero_of_le (by omega)]
        exact List.append_nil _
      · rfl
    rw [hsame]
    by_cases hcell : x + 1 = rightMargin ∧ cell.Filler
    · -- the blank takes the place of the cell at the margin
      obtain ⟨rfl, hcell⟩ := hcell
      have hset : erased.insertIdx x cell = cells.set x cell := by
        rw [herased, Nat.add_sub_cancel]
        refine List.ext_getElem? ?_
        intro i
        rw [List.getElem?_insertIdx, List.getElem?_eraseIdx, List.getElem?_eraseIdx,
          List.getElem?_set, List.length_eraseIdx_of_lt (by omega)]
        by_cases hlt : i < x
        · rw [if_pos hlt, if_pos hlt, if_neg (by omega)]
        · by_cases heq : i = x
          · rw [if_neg hlt, if_pos heq, if_pos (by omega), if_pos heq.symm, if_pos (by omega)]
          · rw [if_neg hlt, if_neg heq, if_neg (by omega), if_neg (by omega),
              Nat.sub_add_cancel (by omega)]
      rw [hcell.2]
      show Paired (erased.insertIdx x cell)
      rw [hset]
      exact h.set_filler x hcell
    · have hpaired : Paired erased := by
        rw [herased]
        refine h.eraseIdx ?_
        intro j hj
        by_cases hlast : x + 1 = rightMargin
        · rcases hbefore j (by omega) with hnarrow | hfiller
          · exact .inl hnarrow
          · exact absurd ⟨hlast, hfiller⟩ hcell
        · rw [Nat.sub_add_cancel (by omega)]
          exact hmargin j (by omega) (by omega) hin
      refine hpaired.insertWide (by omega) ?_
      intro j hj
      refine (hbefore j hj).imp_left ?_
      intro hnarrow c hc
      rw [herased, List.getElem?_eraseIdx_of_lt (by omega)] at hc
      exact hnarrow c hc
  · rw [if_neg hin] at herased
    subst herased
    have hpaired : Paired grown := by
      rw [hgrown]
      split
      · refine h.resizeCells ?_
        intro j _ hcut
        omega
      · exact h
    refine hpaired.insertWide ?_ ?_
    · rw [hgrown]
      split
      · rw [length_resizeCells]
      · omega
    · intro j hj
      refine (hbefore j hj).imp_left ?_
      intro hnarrow c hc
      rw [hgrown] at hc
      split at hc
      · rw [getElem?_resizeCells, if_pos (by omega)] at hc
        cases hcell : erased[j]? with
        | none =>
          rw [hcell] at hc
          rw [← Option.some.inj hc]
          rfl
        | some d =>
          rw [hcell] at hc
          rw [← Option.some.inj hc]
          exact hnarrow d hcell
      · exact hnarrow c hc

/-! ## What is visible -/

end Lists

theorem paired_expand (refs : List CellRef) : Paired (refs.flatMap CellRef.expand) := by
  induction refs with
  | nil => exact paired_nil
  | cons r refs ih =>
    rw [List.flatMap_cons]
    have hcons : ∀ {c : Cell} {l : List Cell}, Paired l → (c.wide = true → FillerAt l 0) →
        Paired (c :: l) := by
      intro c l hl hc i d hd hwide
      cases i with
      | zero =>
        cases hd
        exact hc hwide
      | succ i => exact hl i d hd hwide
    unfold CellRef.expand
    cases hwide : r.wide with
    | false =>
      refine hcons ih ?_
      intro h
      have h : r.wide = true := h
      rw [hwide] at h
      cases h
    | true =>
      refine hcons (hcons ih ?_) ?_
      · intro h
        cases h
      · intro _
        exact ⟨_, rfl, filler_blankWithAttrs _⟩

theorem length_expand (refs : List CellRef) :
    (refs.flatMap CellRef.expand).length = columns refs := by
  induction refs with
  | nil => rfl
  | cons r refs ih =>
    rw [List.flatMap_cons, List.length_append, ih, columns_cons]
    show r.expand.length + _ = cellWidth r.wide + _
    unfold CellRef.expand
    cases r.wide <;> rfl

end Wakterm.Term
