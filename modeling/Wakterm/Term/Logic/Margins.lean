import Mathlib.Data.List.TakeWhile
import Wakterm.Term.Logic.Damage
import Wakterm.Term.Logic.Edits
import Wakterm.Term.Logic.ScrollRows

/-!
# Scrolling between margins

Between margins on the left and on the right a scroll copies cells from row to row and blanks the
last rows out.
-/

namespace Wakterm.Term

open Wakterm.Machine

/-- What a cell shows: its text and its attributes, but for a link that was found in the text. -/
def Cell.look (c : Cell) : Text × CellAttributes :=
  (c.text, { c.attrs with hyperlink := c.attrs.hyperlink.filter fun link => !link.implicit })

/-- What a column shows; behind the end of the row that is a blank. -/
def lookAt (cells : List Cell) (x : Nat) : Text × CellAttributes := (cells[x]?.getD .blank).look

/-- The cell at `x` is a blank now, in its own attributes. -/
def Cut (cells cells' : List Cell) (x : Nat) : Prop := lookAt cells' x = (space, (lookAt cells x).2)

/-- There are blanks in the columns from `a` to `b`, and all else is as it was, but for a cell in
front of them that took two columns. -/
structure Overwritten (attr : CellAttributes) (a b : Nat) (cells cells' : List Cell) : Prop where
  inside : ∀ x, a ≤ x → x < b → lookAt cells' x = (Cell.blankWithAttrs attr).look
  outside : ∀ x, x < a ∨ b ≤ x → lookAt cells' x = lookAt cells x ∨
    x + 1 = a ∧ a < b ∧ Cut cells cells' x

section Cells

variable {graphemes : Graphemes} {cells : List Cell} {attr : CellAttributes} {a b x idx seqno : Nat}

theorem lookAt_set_ne {cell : Cell} (h : x ≠ idx) : lookAt (cells.set idx cell) x = lookAt cells x := by
  unfold lookAt
  rw [List.getElem?_set_ne (Ne.symm h)]

theorem lookAt_set_self {cell : Cell} (h : idx < cells.length) :
    lookAt (cells.set idx cell) idx = cell.look := by
  unfold lookAt
  rw [List.getElem?_set_self h]
  rfl

theorem lookAt_resizeCells {width : Nat} (h : x < width ∨ cells.length ≤ width) :
    lookAt (resizeCells cells width) x = lookAt cells x := by
  unfold lookAt
  rw [getElem?_resizeCells]
  split
  · rfl
  · rw [List.getElem?_eq_none (by omega)]

theorem lookAt_invalidateVec (h : x ≠ idx) : lookAt (invalidateVec cells idx) x = lookAt cells x ∨
      x + 1 = idx ∧ Cut cells (invalidateVec cells idx) x := by
  unfold invalidateVec
  split
  · exact .inl rfl
  · next prior =>
    cases hcell : cells[prior]? with
    | none => exact .inl rfl
    | some cell =>
      dsimp only
      split
      · by_cases hx : x = prior
        · subst hx
          refine .inr ⟨rfl, ?_⟩
          unfold Cut
          rw [lookAt_set_ne h, lookAt_set_self (At.lt hcell), lookAt, hcell]
          rfl
        · exact .inl (by rw [lookAt_set_ne h, lookAt_set_ne hx])
      · exact .inl rfl

/-- A blank that is set: what it does to its column, and to the others. -/
theorem setCellVec_blankWithAttrs (cells : List Cell) (attr : CellAttributes) (idx : Nat) :
    lookAt (Line.setCellVec cells idx (.blankWithAttrs attr) true) idx =
        (Cell.blankWithAttrs attr).look ∧
      ∀ x, x ≠ idx →
        lookAt (Line.setCellVec cells idx (.blankWithAttrs attr) true) x = lookAt cells x ∨
          x + 1 = idx ∧ Cut cells (Line.setCellVec cells idx (.blankWithAttrs attr) true) x := by
  obtain ⟨grown, hgrown, hlt, hsame⟩ : ∃ grown : List Cell,
      (if cells.length < idx + (Cell.blankWithAttrs attr).width then
        resizeCells cells (idx + (Cell.blankWithAttrs attr).width) else cells) = grown ∧
      idx < grown.length ∧ ∀ x, lookAt grown x = lookAt cells x := by
    refine ⟨_, rfl, ?_⟩
    have hwidth : (Cell.blankWithAttrs attr).width = 1 := rfl
    split
    · rw [length_resizeCells]
      exact ⟨by omega, fun x => lookAt_resizeCells (.inr (by omega))⟩
    · exact ⟨by omega, fun x => rfl⟩
  have hset : Line.setCellVec cells idx (.blankWithAttrs attr) true =
      (invalidateVec grown idx).set idx (.blankWithAttrs attr) := by
    unfold Line.setCellVec
    dsimp only
    rw [hgrown]
    rfl
  rw [hset]
  refine ⟨lookAt_set_self (by rw [length_invalidateVec]; exact hlt), fun x hx => ?_⟩
  unfold Cut
  rw [lookAt_set_ne hx, ← hsame x]
  exact lookAt_invalidateVec hx

/-! ## Filling with blanks -/

theorem lookAt_clearImplicit : lookAt (Line.clearImplicit graphemes cells) x = lookAt cells x := by
  unfold lookAt Line.clearImplicit
  rw [List.getElem?_map]
  cases cells[x]? with
  | none => rfl
  | some c =>
    simp only [Option.map_some, Option.getD_some]
    split
    · next himplicit =>
      obtain ⟨text, wide, attrs, clean⟩ := c
      obtain ⟨link, hlink, hyes⟩ := (Option.any_eq_true _ _).mp himplicit
      have hlink : attrs.hyperlink = some link := hlink
      simp [Cell.look, Cell.newGrapheme, Cell.newGraphemeWithWidth, clean, hlink, Option.filter,
        hyes]
    · rfl

variable {line : Line}

theorem vec_of_cells (h : line.cells = .V cells) : line.vec graphemes = cells := by
  unfold Line.vec
  rw [h]

theorem setCellImpl_V (h : (line.invalidateImplicitHyperlinks graphemes seqno).cells = .V cells)
    (cell : Cell) : (line.setCellImpl graphemes x cell true seqno).cells =
      .V (Line.setCellVec cells x cell true) := by
  unfold Line.setCellImpl
  generalize line.invalidateImplicitHyperlinks graphemes seqno = l at h ⊢
  obtain ⟨storage, n, bits⟩ := l
  obtain rfl : storage = .V cells := h
  rfl

/-- Blanks are set from `a` on, one after the other. Only the first of them may cut a cell that shows
something: the others come behind a blank. -/
theorem overwritten_fold (attr : CellAttributes) (a n : Nat)
    (h : (line.invalidateImplicitHyperlinks graphemes seqno).cells = .V cells) :
    ∃ cells', (((List.range' a n).foldl (fun line x =>
        line.setCellImpl graphemes x (.blankWithAttrs attr) true seqno) line
          ).invalidateImplicitHyperlinks graphemes seqno).cells = .V cells' ∧
      (∀ x, a ≤ x → x < a + n → lookAt cells' x = (Cell.blankWithAttrs attr).look) ∧
      ∀ x, x < a ∨ a + n ≤ x → lookAt cells' x = lookAt cells x ∨
        x + 1 = a ∧ 0 < n ∧ Cut cells cells' x := by
  induction n generalizing line cells a with
  | zero => exact ⟨cells, h, fun x hx hx' => by omega, fun x _ => .inl rfl⟩
  | succ n ih =>
    have hcells := setCellImpl_V (x := a) h (.blankWithAttrs attr)
    have hlinks : (line.setCellImpl graphemes a (.blankWithAttrs attr) true seqno).Unlinked :=
      Line.unlinked_setCellImpl graphemes line _ true
    obtain ⟨hset, hothers⟩ := setCellVec_blankWithAttrs cells attr a
    obtain ⟨cells', hfold, hinside, houtside⟩ :=
      ih (a + 1) ((hlinks.cells_invalidate seqno).trans hcells)
    refine ⟨cells', hfold, ?_, ?_⟩
    · intro x hx hx'
      by_cases hxa : x = a
      · subst hxa
        rcases houtside x (.inl (Nat.lt_succ_self x)) with hkept | ⟨-, -, hcut⟩
        · rw [hkept, hset]
        · rw [hcut, hset]
          rfl
      · exact hinside x (by omega) (by omega)
    · intro x hx
      rcases houtside x (by omega) with hkept | ⟨hxa, -⟩
      · unfold Cut
        rw [hkept]
        exact (hothers x (by omega)).imp_right fun ⟨hprior, hcut⟩ =>
          ⟨hprior, Nat.succ_pos n, hcut⟩
      · omega

theorem lookAt_pruneVec : lookAt (Line.pruneVec cells) x = lookAt cells x := by
  have hsplit : cells = Line.pruneVec cells ++ (cells.reverse.takeWhile Cell.isBlank).reverse := by
    unfold Line.pruneVec
    rw [← List.reverse_append, List.takeWhile_append_dropWhile, List.reverse_reverse]
  have hblank : ∀ c ∈ (cells.reverse.takeWhile Cell.isBlank).reverse, c.look = Cell.blank.look := by
    intro c hc
    have hc := List.mem_takeWhile_imp (List.mem_reverse.mp hc)
    obtain ⟨htext, hattrs⟩ := of_decide_eq_true hc
    unfold Cell.look
    rw [htext, hattrs]
    rfl
  generalize Line.pruneVec cells = front at hsplit ⊢
  generalize (cells.reverse.takeWhile Cell.isBlank).reverse = back at hsplit hblank
  subst hsplit
  unfold lookAt
  rcases Nat.lt_or_ge x front.length with hlt | hge
  · rw [List.getElem?_append_left hlt]
  · rw [List.getElem?_append_right hge, List.getElem?_eq_none hge]
    cases hc : back[x - front.length]? with
    | none => rfl
    | some c => exact (hblank c (List.mem_of_getElem? hc)).symm

theorem overwritten_fillRange (graphemes : Graphemes) (attr : CellAttributes) (line : Line)
    (h : line.cells = .V cells) (a b seqno : Nat) :
    ∃ cells', (line.fillRange graphemes a b (.blankWithAttrs attr) seqno).cells = .V cells' ∧
      Overwritten attr a b cells cells' := by
  unfold Line.fillRange
  split
  · next hempty =>
    obtain ⟨hlen, hattr⟩ := hempty
    have hnil : cells = [] := by
      unfold Line.len at hlen
      rw [h] at hlen
      exact List.eq_nil_of_length_eq_zero hlen
    obtain rfl : attr = .blank := (of_decide_eq_true hattr).2
    subst hnil
    exact ⟨[], h, fun _ _ _ => rfl, fun _ _ => .inl rfl⟩
  · obtain ⟨filled, hfilled, hover⟩ : ∃ filled, ((List.range' a (b - a)).foldl (fun line x =>
          line.setCellImpl graphemes x (.blankWithAttrs attr) true seqno) line).cells = .V filled ∧
        Overwritten attr a b cells filled := by
      cases hn : b - a with
      | zero => exact ⟨cells, h, fun x hx hx' => by omega, fun x _ => .inl rfl⟩
      | succ n =>
        -- the links go first
        obtain ⟨bare, hbare, hlook⟩ : ∃ bare,
            (line.invalidateImplicitHyperlinks graphemes seqno).cells = .V bare ∧
            ∀ x, lookAt bare x = lookAt cells x := by
          rcases Line.cells_invalidate graphemes line seqno with hsame | hcleared
          · exact ⟨cells, hsame.trans h, fun x => rfl⟩
          · rw [vec_of_cells h] at hcleared
            exact ⟨_, hcleared, fun x => lookAt_clearImplicit⟩
        obtain ⟨filled, hfold, hinside, houtside⟩ := overwritten_fold attr a (n + 1) hbare
        have hlinks : ((List.range' a (n + 1)).foldl (fun line x =>
            line.setCellImpl graphemes x (.blankWithAttrs attr) true seqno) line).Unlinked := by
          rw [List.range'_1_concat, List.foldl_append]
          exact Line.unlinked_setCellImpl graphemes _ _ _
        refine ⟨filled, (hlinks.cells_invalidate seqno).symm.trans hfold, ?_, ?_⟩
        · intro x hx hx'
          exact hinside x hx (by omega)
        · intro x hx
          unfold Cut
          rw [← hlook x]
          exact (houtside x (by omega)).imp_right fun ⟨hprior, _, hcut⟩ => ⟨hprior, by omega, hcut⟩
    generalize (List.range' a (b - a)).foldl (fun line x =>
      line.setCellImpl graphemes x (.blankWithAttrs attr) true seqno) line = l at hfilled ⊢
    unfold Line.pruneTrailingBlanks
    rw [hfilled]
    dsimp only
    split
    · exact ⟨filled, hfilled, hover⟩
    · refine ⟨Line.pruneVec filled, rfl, fun x hx hx' => ?_, fun x hx => ?_⟩
      · rw [lookAt_pruneVec]
        exact hover.inside x hx hx'
      · unfold Cut
        rw [lookAt_pruneVec]
        exact hover.outside x hx

end Cells

/-! ## Rows -/

/-- What the row `line` shows once it has the cells that the row `below` has between the margins:
these, as far as they go, and blanks behind them. All else is as it was; of a row that reads more
cells than it has columns, what is behind the columns may go. -/
structure TakesOver (graphemes : Graphemes) (margins : Span Nat) (attr : CellAttributes)
    (line below line' : Line) : Prop where
  copied : ∀ x, margins.start ≤ x → x < margins.stop → x < (below.vec graphemes).length →
    lookAt (line'.vec graphemes) x = lookAt (below.vec graphemes) x ∨
      x + 1 = (below.vec graphemes).length ∧ x + 1 < margins.stop ∧
        Cut (below.vec graphemes) (line'.vec graphemes) x
  blanked : ∀ x, margins.start ≤ x → x < margins.stop → (below.vec graphemes).length ≤ x →
    lookAt (line'.vec graphemes) x = (Cell.blankWithAttrs attr).look
  kept : ∀ x, x < margins.start ∨ margins.stop ≤ x →
    x < line.len ∨ (line.vec graphemes).length ≤ line.len →
    lookAt (line'.vec graphemes) x = lookAt (line.vec graphemes) x ∨
      x + 1 = margins.start ∧ (below.vec graphemes).length ≤ margins.start ∧
        Cut (line.vec graphemes) (line'.vec graphemes) x

/-- The cells between the margins are blanks, and the others are as they were. -/
structure BlanksOut (graphemes : Graphemes) (margins : Span Nat) (attr : CellAttributes)
    (line line' : Line) : Prop where
  blanked : ∀ x, margins.start ≤ x → x < margins.stop → x < (line.vec graphemes).length →
    lookAt (line'.vec graphemes) x = (Cell.blankWithAttrs attr).look
  kept : ∀ x, x < margins.start ∨ margins.stop ≤ x ∨ (line.vec graphemes).length ≤ x →
    lookAt (line'.vec graphemes) x = lookAt (line.vec graphemes) x

/-- **The rows of a region that has scrolled up by one between the margins.** Each shows what the one
below it showed there, and the last is blank there. -/
inductive RowsUp (graphemes : Graphemes) (margins : Span Nat) (attr : CellAttributes) :
    List Line → List Line → Prop
  | last {line line' : Line} (h : BlanksOut graphemes margins attr line line') :
      RowsUp graphemes margins attr [line] [line']
  | above {line below line' : Line} {rows rows' : List Line}
      (h : TakesOver graphemes margins attr line below line')
      (hrest : RowsUp graphemes margins attr (below :: rows) rows') :
      RowsUp graphemes margins attr (line :: below :: rows) (line' :: rows')

section Rows

variable {graphemes : Graphemes} {margins : Span Nat} {attr : CellAttributes} {seqno : Nat}
  {line line' below : Line} {s s' : Screen}

/-- The cells of the row below between the margins. -/
theorem placed_getElem? (row cells : List Cell) {left right : Nat} (hleft : left ≤ right)
    (hrow : left + ((cells.drop left).take (right - left)).length ≤ row.length) (x : Nat) :
    (row.take left ++ (cells.drop left).take (right - left) ++
      row.drop (left + ((cells.drop left).take (right - left)).length))[x]? =
        if left ≤ x ∧ x < right ∧ x < cells.length then cells[x]? else row[x]? := by
  have hlen : ((cells.drop left).take (right - left)).length =
      min (right - left) (cells.length - left) := by
    rw [List.length_take, List.length_drop]
  generalize hseg : (cells.drop left).take (right - left) = seg at hrow hlen ⊢
  have htake : (row.take left).length = left := by
    rw [List.length_take]
    omega
  rcases Nat.lt_or_ge x left with hx | hx
  · rw [if_neg (by omega), List.append_assoc, List.getElem?_append_left (by omega),
      List.getElem?_take, if_pos hx]
  · rcases Nat.lt_or_ge x (left + seg.length) with hin | hout
    · rw [if_pos (by omega), List.getElem?_append_left (by rw [List.length_append]; omega),
        List.getElem?_append_right (by omega), htake, ← hseg, List.getElem?_take,
        if_pos (by omega), List.getElem?_drop]
      exact congrArg (cells[·]?) (by omega)
    · rw [if_neg (by omega), List.getElem?_append_right (by rw [List.length_append]; omega),
        List.length_append, htake, List.getElem?_drop]
      exact congrArg (row[·]?) (by omega)

theorem placeCells_takesOver (hmargins : margins.start ≤ margins.stop)
    (h : Screen.placeCells graphemes margins (((below.vec graphemes).drop margins.start).take
      (margins.stop - margins.start)) seqno attr line = .ok line') :
    TakesOver graphemes margins attr line below line' := by
  unfold Screen.placeCells at h
  dsimp only at h
  generalize hcells : below.vec graphemes = cells at h
  have hlen : ((cells.drop margins.start).take (margins.stop - margins.start)).length =
      min (margins.stop - margins.start) (cells.length - margins.start) := by
    rw [List.length_take, List.length_drop]
  generalize hend : margins.start +
    ((cells.drop margins.start).take (margins.stop - margins.start)).length = stop at h
  generalize hgrown : (if (line.updateLastChangeSeqno seqno).len < stop then
      (line.updateLastChangeSeqno seqno).resize graphemes stop seqno
    else line.updateLastChangeSeqno seqno) = grown at h
  split at h
  · cases h
  · next hfit =>
    obtain rfl := Except.ok.inj h
    -- the row is made long enough; only behind its columns something may go
    have hrow : ∀ x, (x < stop ∨ x < line.len ∨ (line.vec graphemes).length ≤ line.len) →
        lookAt (grown.vec graphemes) x = lookAt (line.vec graphemes) x := by
      intro x hx
      rw [← hgrown]
      split
      · next hshort =>
        have hshort : line.len < stop := hshort
        show lookAt (resizeCells (line.vec graphemes) stop) x = _
        exact lookAt_resizeCells (by omega)
      · rfl
    have hplaced := placed_getElem? (grown.vec graphemes) cells hmargins
      (by rw [hend]; omega)
    rw [hend] at hplaced
    obtain ⟨out, hout, hover⟩ := overwritten_fillRange graphemes attr
      (grown.setCells ((grown.vec graphemes).take margins.start ++
        (cells.drop margins.start).take (margins.stop - margins.start) ++
          (grown.vec graphemes).drop stop)) rfl stop margins.stop seqno
    have hvec : ((grown.setCells ((grown.vec graphemes).take margins.start ++
        (cells.drop margins.start).take (margins.stop - margins.start) ++
          (grown.vec graphemes).drop stop)).fillRange graphemes stop margins.stop
            (.blankWithAttrs attr) seqno).vec graphemes = out := vec_of_cells hout
    have hlook : ∀ x, lookAt ((grown.vec graphemes).take margins.start ++
        (cells.drop margins.start).take (margins.stop - margins.start) ++
          (grown.vec graphemes).drop stop) x =
        if margins.start ≤ x ∧ x < margins.stop ∧ x < cells.length then lookAt cells x
        else lookAt (grown.vec graphemes) x := by
      intro x
      unfold lookAt
      rw [hplaced x]
      split
      · rfl
      · rfl
    refine ⟨?_, ?_, ?_⟩
    · intro x hx hx' hin
      rw [hcells] at hin ⊢
      rw [hvec]
      have hbefore : x < stop := by omega
      have hover := hover.outside x (.inl hbefore)
      unfold Cut at hover ⊢
      rw [hlook, if_pos ⟨hx, hx', hin⟩] at hover
      exact hover.imp_right fun ⟨hlast, hshort, hcut⟩ => ⟨by omega, by omega, hcut⟩
    · intro x hx hx' hout
      rw [hcells] at hout
      rw [hvec]
      exact hover.inside x (by omega) hx'
    · intro x hx hinside
      rw [hcells, hvec]
      have hnot : ¬ (margins.start ≤ x ∧ x < margins.stop ∧ x < cells.length) := by omega
      have hover := hover.outside x (by omega)
      unfold Cut at hover ⊢
      rw [hlook, if_neg hnot, hrow x (by omega)] at hover
      exact hover.imp_right fun ⟨hlast, hshort, hcut⟩ => ⟨by omega, by omega, hcut⟩

theorem placeCells_ok (margins : Span Nat) (cells : List Cell) (seqno : Nat) (attr : CellAttributes)
    (hreads : line.len ≤ (line.vec graphemes).length) :
    ∃ line', Screen.placeCells graphemes margins cells seqno attr line = .ok line' := by
  unfold Screen.placeCells
  dsimp only
  split
  · next hshort =>
    rw [if_neg]
    · exact ⟨_, rfl⟩
    · show ¬ (resizeCells (line.vec graphemes) (margins.start + cells.length)).length < _
      rw [length_resizeCells]
      exact Nat.lt_irrefl _
  · next hlong =>
    have hlong : ¬ line.len < margins.start + cells.length := hlong
    rw [if_neg]
    · exact ⟨_, rfl⟩
    · show ¬ (line.vec graphemes).length < _
      omega

/-! ## The region -/

variable {upper rows rows' lower : List Line} {top bottom : Nat} {bidi : BidiMode}

/-- A row reads as before once it is made into cells. -/
theorem RowsUp.of_setCells (h : RowsUp graphemes margins attr
    (line.setCells (line.vec graphemes) :: rows) rows') :
    RowsUp graphemes margins attr (line :: rows) rows' := by
  cases h with
  | last h => exact .last ⟨h.blanked, h.kept⟩
  | above h hrest =>
    exact .above ⟨h.copied, h.blanked, fun x hx _ => h.kept x hx (.inr (Nat.le_refl _))⟩ hrest

theorem RowsUp.length (h : RowsUp graphemes margins attr rows rows') :
    rows'.length = rows.length := by
  induction h with
  | last h => rfl
  | above h hrest ih => exact congrArg (· + 1) ih

theorem RowsUp.unstamped (h : RowsUp graphemes margins attr rows rows') :
    RowsUp graphemes margins attr (rows.map Line.unstamped) (rows'.map Line.unstamped) := by
  induction h with
  | last h => exact .last ⟨h.blanked, h.kept⟩
  | above h hrest ih => exact .above ⟨h.copied, h.blanked, h.kept⟩ ih

theorem modifyLine_append (hs : s.lines = upper ++ line :: lower) (f : Line → Except Panic Line) :
    s.modifyLine upper.length f =
      (f line).map fun line' => { s with lines := upper ++ line' :: lower } := by
  have hat : s.lines[upper.length]? = some line := by
    rw [hs, List.getElem?_append_right (Nat.le_refl _), Nat.sub_self]
    rfl
  have hset : ∀ line', s.lines.set upper.length line' = upper ++ line' :: lower := by
    intro line'
    rw [hs, List.set_append_right _ _ (Nat.le_refl _), Nat.sub_self]
    rfl
  unfold Screen.modifyLine
  rw [hat]
  simp only [hset]

/-- The row that is read is made into cells, and the one above it is written to. -/
theorem copyRow_append (graphemes : Graphemes) (seqno : Nat) (attr : CellAttributes)
    (hmargins : margins.start ≤ margins.stop)
    (hs : s.lines = upper ++ line :: below :: lower) :
    s.copyRow graphemes margins seqno attr (upper.length + 1) upper.length =
      (Screen.placeCells graphemes margins (((below.vec graphemes).drop margins.start).take
        (margins.stop - margins.start)) seqno attr line).map fun line' =>
          { s with lines := upper ++ line' :: below.setCells (below.vec graphemes) :: lower } := by
  have hsplit : s.lines = (upper ++ [line]) ++ below :: lower := by
    rw [hs, List.append_assoc]
    rfl
  have hlen : (upper ++ [line]).length = upper.length + 1 := by simp
  have hat : s.lines[upper.length + 1]? = some below := by
    rw [hsplit, ← hlen, List.getElem?_append_right (Nat.le_refl _), Nat.sub_self]
    rfl
  unfold Screen.copyRow
  rw [hat]
  dsimp only
  rw [if_neg (Nat.not_lt_of_le hmargins), ← hlen, modifyLine_append hsplit]
  refine (modifyLine_append ?_ _).trans rfl
  show (upper ++ [line]) ++ _ = _
  rw [List.append_assoc]
  rfl

theorem blankRow_append (seqno : Nat) (attr : CellAttributes) (hmargins : margins.start ≤ margins.stop)
    (hs : s.lines = upper ++ line :: lower) :
    ∃ line', BlanksOut graphemes margins attr line line' ∧
      s.blankRow graphemes margins seqno attr upper.length =
        .ok { s with lines := upper ++ line' :: lower } := by
  unfold Screen.blankRow
  rw [modifyLine_append hs, if_neg (Nat.not_lt_of_le hmargins)]
  refine ⟨_, ⟨?_, ?_⟩, rfl⟩
  · intro x hx hx' hin
    show lookAt ((line.vec graphemes).mapIdx _) x = _
    unfold lookAt
    rw [List.getElem?_mapIdx, List.getElem?_eq_getElem hin, Option.map_some, if_pos ⟨hx, hx'⟩]
    rfl
  · intro x hx
    show lookAt ((line.vec graphemes).mapIdx _) x = _
    unfold lookAt
    rw [List.getElem?_mapIdx]
    cases hc : (line.vec graphemes)[x]? with
    | none => rfl
    | some c =>
      have hin := (List.getElem?_eq_some_iff.mp hc).1
      rw [Option.map_some, if_neg (by omega)]

/-- The loops of a scroll by one: `n` rows from `a` on are written to, and the one behind them. -/
def Screen.moveUp (graphemes : Graphemes) (margins : Span Nat) (seqno : Nat) (attr : CellAttributes)
    (a n : Nat) (s : Screen) : Except Panic Screen :=
  rowsFrom a n (fun dest => copyRow graphemes margins seqno attr (dest + 1) dest) s >>=
    blankRow graphemes margins seqno attr (a + n)

theorem moveUp_succ (a n : Nat) : s.moveUp graphemes margins seqno attr a (n + 1) =
    s.copyRow graphemes margins seqno attr (a + 1) a >>=
      Screen.moveUp graphemes margins seqno attr (a + 1) n := by
  unfold Screen.moveUp
  rw [show a + (n + 1) = a + 1 + n by omega, rowsFrom]
  cases s.copyRow graphemes margins seqno attr (a + 1) a with
  | error panic => rfl
  | ok s1 => rfl

/-- The loop of the rows goes down, so that each is copied before it is written to. It ends well if
the first row reads as many cells as it has columns: the others are made into cells. -/
theorem copyRows_up (hmargins : margins.start ≤ margins.stop)
    (hs : s.lines = upper ++ line :: rows ++ lower) :
    (∀ s', s.moveUp graphemes margins seqno attr upper.length rows.length = .ok s' →
      ∃ rows', RowsUp graphemes margins attr (line :: rows) rows' ∧
        s' = { s with lines := upper ++ rows' ++ lower }) ∧
    (line.len ≤ (line.vec graphemes).length →
      ∃ s', s.moveUp graphemes margins seqno attr upper.length rows.length = .ok s') := by
  induction rows generalizing upper line s with
  | nil =>
    obtain ⟨line', hout, hrun⟩ := blankRow_append seqno attr hmargins
      (hs.trans (List.append_assoc _ _ _))
    have hrun : s.moveUp graphemes margins seqno attr upper.length 0 = _ := hrun
    refine ⟨fun s' h => ⟨[line'], .last hout, ?_⟩, fun _ => ⟨_, hrun⟩⟩
    rw [List.append_assoc]
    exact Except.ok.inj (h.symm.trans hrun)
  | cons below rows ih =>
    have hcopy := copyRow_append graphemes seqno attr hmargins
      (hs.trans (List.append_assoc _ _ _))
    have hnext : ∀ line', upper ++ line' :: below.setCells (below.vec graphemes) :: (rows ++ lower) =
        (upper ++ [line']) ++ below.setCells (below.vec graphemes) :: rows ++ lower := by
      intro line'
      simp only [List.append_assoc, List.cons_append, List.nil_append]
    rw [List.length_cons, moveUp_succ, hcopy]
    cases hplaced : Screen.placeCells graphemes margins (((below.vec graphemes).drop
        margins.start).take (margins.stop - margins.start)) seqno attr line with
    | error panic =>
      refine ⟨fun s' h => (by cases h), fun hreads => ?_⟩
      obtain ⟨line', hok⟩ := placeCells_ok margins (((below.vec graphemes).drop
        margins.start).take (margins.stop - margins.start)) seqno attr hreads
      rw [hok] at hplaced
      cases hplaced
    | ok line' =>
      obtain ⟨hrows, hends⟩ := ih (s := { s with lines := _ }) (hnext line')
      rw [List.length_append, List.length_singleton] at hrows hends
      refine ⟨fun s' h => ?_, fun _ => hends (Nat.le_refl _)⟩
      obtain ⟨rows', hup, rfl⟩ := hrows s' h
      refine ⟨line' :: rows', .above (placeCells_takesOver hmargins hplaced) hup.of_setCells, ?_⟩
      simp only [List.append_assoc, List.cons_append, List.nil_append]

theorem scrollUpWithinMargins_one (hnarrow : ¬ (margins.start = 0 ∧ margins.stop = s.physicalCols))
    (hregion : top < bottom) (hbottom : bottom ≤ s.physicalRows) :
    s.scrollUpWithinMargins graphemes ⟨top, bottom⟩ margins 1 seqno attr bidi =
      s.moveUp graphemes margins seqno attr (s.lines.length - s.physicalRows + top)
        (bottom - top - 1) := by
  have hphys : s.physRange ⟨(top : Int), (bottom : Int)⟩ =
      ⟨s.lines.length - s.physicalRows + top, s.lines.length - s.physicalRows + bottom⟩ := by
    unfold Screen.physRange Screen.physRow
    dsimp only
    rw [Int.toNat_natCast, Int.toNat_natCast, Nat.min_eq_left hbottom, Nat.min_eq_left (by omega)]
  unfold Screen.scrollUpWithinMargins
  rw [if_neg hnarrow, hphys]
  dsimp only
  rw [if_neg (by omega),
    show s.lines.length - s.physicalRows + bottom - (s.lines.length - s.physicalRows + top) =
      bottom - top by omega,
    show min 1 (bottom - top) = 1 by omega,
    show s.lines.length - s.physicalRows + bottom -
      (s.lines.length - s.physicalRows + top + (bottom - top - 1)) = 1 by omega]
  refine congrArg _ (funext fun s1 => ?_)
  show Screen.blankRow graphemes margins seqno attr _ s1 >>= rowsFrom _ 0 _ = _
  cases Screen.blankRow graphemes margins seqno attr _ s1 with
  | error panic => rfl
  | ok s2 => rfl

/-- **What a scroll by one leaves of the rows of the region** when the margins are not those of the
screen. -/
theorem scrollUpWithinMargins_rows (graphemes : Graphemes) (seqno : Nat) (attr : CellAttributes)
    (bidi : BidiMode) (hnarrow : ¬ (margins.start = 0 ∧ margins.stop = s.physicalCols))
    (hmargins : margins.start ≤ margins.stop) (hbottom : bottom ≤ s.physicalRows)
    (hs : s.lines = upper ++ line :: rows ++ lower)
    (hupper : upper.length = s.lines.length - s.physicalRows + top)
    (hrows : rows.length + 1 = bottom - top) :
    (∀ s', s.scrollUpWithinMargins graphemes ⟨top, bottom⟩ margins 1 seqno attr bidi = .ok s' →
      ∃ rows', RowsUp graphemes margins attr (line :: rows) rows' ∧
        s' = { s with lines := upper ++ rows' ++ lower }) ∧
    (line.len ≤ (line.vec graphemes).length → ∃ s',
      s.scrollUpWithinMargins graphemes ⟨top, bottom⟩ margins 1 seqno attr bidi = .ok s') := by
  rw [scrollUpWithinMargins_one hnarrow (by omega) hbottom, ← hupper,
    show bottom - top - 1 = rows.length by omega]
  exact copyRows_up hmargins hs

end Rows

end Wakterm.Term
