import Wakterm.Machine.Loop
import Wakterm.Term.Logic.Wide

/-!
# Runs of edits

The edits of a line one after the other. A line is `Intact` if each of its wide cells has a blank to
cover, and if its runs are read as what was put there.
-/

namespace Wakterm.Term

open Wakterm.Machine

inductive LineEdit where
  | setCell (idx : Nat) (cell : Cell)
  | setCellGrapheme (idx : Nat) (text : Text) (wide : Bool) (attr : CellAttributes)
  | insertCell (x : Nat) (cell : Cell) (rightMargin : Nat)
  | eraseCell (x : Nat)
  | eraseCellWithMargin (x rightMargin : Nat) (blankAttr : CellAttributes)
  | removeCell (x : Nat)
  | fillRange (start stop : Nat) (cell : Cell)
  | resize (width : Nat)

def LineEdit.WithinMargin : LineEdit → Prop
  | .insertCell x _ rightMargin => x < rightMargin
  | .eraseCellWithMargin x rightMargin _ => x < rightMargin
  | _ => True

namespace Line

variable (graphemes : Graphemes)

def edit (line : Line) (seqno : Nat) : LineEdit → Except Panic Line
  | .setCell idx cell => .ok (line.setCell graphemes idx cell seqno)
  | .setCellGrapheme idx text wide attr =>
    .ok (line.setCellGrapheme graphemes idx text wide attr seqno)
  | .insertCell x cell rightMargin => line.insertCell graphemes x cell rightMargin seqno
  | .eraseCell x => line.eraseCell graphemes x seqno
  | .eraseCellWithMargin x rightMargin attr =>
    line.eraseCellWithMargin graphemes x rightMargin seqno attr
  | .removeCell x => line.removeCell graphemes x seqno
  | .fillRange start stop cell => .ok (line.fillRange graphemes start stop cell seqno)
  | .resize width => .ok (line.resize graphemes width seqno)

/-- Edits one after the other, each with its sequence number. -/
def edits : Line → List (LineEdit × Nat) → Except Panic Line
  | line, [] => .ok line
  | line, (e, seqno) :: es => line.edit graphemes seqno e >>= fun line => line.edits es

/-! ## What an edit needs -/

/-- The text is a grapheme of its own behind the text of the runs and the blanks up to `idx`. -/
def SetsApart (cl : ClusteredLine) (idx : Nat) (text : Text) : Prop :=
  graphemes (cl.text ++ List.replicate (idx - cl.len) ' ' ++ text) =
    graphemes cl.text ++ List.replicate (idx - cl.len) space ++ [text]

/-- A cell that is appended to runs is read as one. -/
def SetFits (line : Line) (idx : Nat) (cell : Cell) : Prop :=
  match line.cells with
  | .V _ => True
  | .C cl => cl.len ≤ idx → ¬ (cl.len < idx ∧ cell.isBlank) → SetsApart graphemes cl idx cell.text

def endSpaces (text : Text) : Nat := (text.reverse.takeWhile (· = ' ')).length

/-- What pruning takes away is blank cells of one column, and never what a wide cell covers. -/
def PruneFits (line : Line) : Prop :=
  match line.cells with
  | .V cells => ∀ c, (pruneVec cells).getLast? = some c → c.wide = false
  | .C cl => ∃ front, (∀ c ∈ (cl.iter graphemes).drop front.length, c.wide = false) ∧
      ∀ m, m ≤ endSpaces cl.text →
        graphemes (cl.text.take (cl.text.length - m)) =
          front ++ List.replicate (endSpaces cl.text - m) space

/-- The cells that `fill_range` sets, one after the other. -/
def FillFits (cell : Cell) (seqno : Nat) : Line → List Nat → Prop
  | line, [] => line.PruneFits graphemes
  | line, x :: xs =>
    (line.invalidateImplicitHyperlinks graphemes seqno).SetFits graphemes x cell ∧
      FillFits cell seqno (line.setCellImpl graphemes x cell true seqno) xs

/-- The line lets the edit keep its wide cells whole. -/
def Fits (line : Line) (seqno : Nat) : LineEdit → Prop
  | .setCell idx cell =>
    (line.invalidateImplicitHyperlinks graphemes seqno).SetFits graphemes idx cell
  | .setCellGrapheme idx text _ attr =>
    match line.cells with
    | .V _ => True
    | .C cl => cl.len ≤ idx → ¬ (cl.len < idx ∧ text = space ∧ attr = .blank) →
        SetsApart graphemes cl idx text
  | .insertCell x cell rightMargin =>
    (∀ j, j + 1 = x → NarrowAt (line.vec graphemes) j ∨ cell.Filler) ∧
    ∀ j, j + 2 = rightMargin → x ≤ j → rightMargin ≤ line.len →
      NarrowAt (line.vec graphemes) j ∨ FillerAt (line.vec graphemes) rightMargin
  | .fillRange start stop cell =>
    ¬ (line.len = 0 ∧ cell.isBlank) →
      FillFits graphemes cell seqno line (List.range' start (stop - start))
  | .resize width =>
    ∀ j, j + 1 = width → width < line.len → NarrowAt (line.vec graphemes) j
  | _ => True

/-- Each edit fits the line that it comes to. -/
def RunFits : Line → List (LineEdit × Nat) → Prop
  | _, [] => True
  | line, (e, seqno) :: es => e.WithinMargin ∧ line.Fits graphemes seqno e ∧
      ∀ line', line.edit graphemes seqno e = .ok line' → line'.RunFits es

/-! ## Intact lines -/

/-- Wide cells are whole, and runs are read as they are stored. -/
def Intact (line : Line) : Prop :=
  match line.cells with
  | .V cells => Paired cells
  | .C cl => ∃ cells, cl.Reads graphemes cells

variable {graphemes} {line : Line}

theorem Intact.paired (h : line.Intact graphemes) : Paired (line.vec graphemes) := by
  unfold Intact at h
  unfold vec
  cases hcells : line.cells with
  | V cells =>
    rw [hcells] at h
    exact h
  | C cl => exact paired_expand _

theorem Intact.length_vec (h : line.Intact graphemes) : (line.vec graphemes).length = line.len := by
  unfold Intact at h
  unfold vec len
  cases hcells : line.cells with
  | V cells => rfl
  | C cl =>
    rw [hcells] at h
    obtain ⟨cells, hreads⟩ := h
    show (cl.toCellVec graphemes).length = cl.len
    unfold ClusteredLine.toCellVec
    rw [hreads.iter, length_expand, hreads.len]

theorem intact_setCells {cells : List Cell} (h : Paired cells) (seqno : Nat) :
    ((line.setCells cells).updateLastChangeSeqno seqno).Intact graphemes := h

theorem cells_invalidate (graphemes : Graphemes) (line : Line) (seqno : Nat) :
    (line.invalidateImplicitHyperlinks graphemes seqno).cells = line.cells ∨
      (line.invalidateImplicitHyperlinks graphemes seqno).cells =
        .V (clearImplicit graphemes (line.vec graphemes)) := by
  unfold invalidateImplicitHyperlinks
  split
  · exact .inl rfl
  · dsimp only
    split
    · exact .inl rfl
    · exact .inr rfl

/-- No cell was given an implicit link since these were taken away: there is none to measure. -/
def Unlinked (line : Line) : Prop := line.bits.hasImplicitHyperlinks = false

theorem bits_invalidate (graphemes : Graphemes) (line : Line) (seqno : Nat) :
    (line.invalidateImplicitHyperlinks graphemes seqno).bits = { line.bits with
      scannedImplicitHyperlinks := false, hasImplicitHyperlinks := false } := by
  obtain ⟨cells, n, ⟨b1, scanned, has, b4, b5, b6, b7, b8, b9⟩⟩ := line
  unfold invalidateImplicitHyperlinks
  cases scanned with
  | false =>
    cases has with
    | false => rfl
    | true => rfl
  | true =>
    cases has with
    | false => rfl
    | true => rfl

theorem unlinked_invalidate (graphemes : Graphemes) (line : Line) (seqno : Nat) :
    (line.invalidateImplicitHyperlinks graphemes seqno).Unlinked := by
  unfold Unlinked
  rw [bits_invalidate]

theorem Unlinked.cells_invalidate (h : line.Unlinked) (seqno : Nat) :
    (line.invalidateImplicitHyperlinks graphemes seqno).cells = line.cells := by
  unfold Unlinked at h
  unfold invalidateImplicitHyperlinks
  dsimp only
  rw [h]
  split
  · rfl
  · rfl

theorem Intact.invalidate (h : line.Intact graphemes) (hlinks : line.Unlinked) (seqno : Nat) :
    (line.invalidateImplicitHyperlinks graphemes seqno).Intact graphemes ∧
      line.vec graphemes = (line.invalidateImplicitHyperlinks graphemes seqno).vec graphemes ∧
      (line.invalidateImplicitHyperlinks graphemes seqno).len = line.len := by
  have hcells : (line.invalidateImplicitHyperlinks graphemes seqno).cells = line.cells :=
    hlinks.cells_invalidate seqno
  refine ⟨?_, ?_, ?_⟩
  · unfold Intact at h ⊢
    rw [hcells]
    exact h
  · unfold vec
    rw [hcells]
  · unfold len
    rw [hcells]

/-! ## Runs -/

variable {cells : List CellRef} {cl : ClusteredLine} {idx seqno x rightMargin : Nat}

theorem stores_fillOut (h : cl.Stores cells) (hidx : cl.len ≤ idx) :
    ∃ blanks, (fillOut cl idx).Stores (cells ++ blanks) ∧
      blanks.map CellRef.text = List.replicate (idx - cl.len) space ∧ (fillOut cl idx).len = idx ∧
      (fillOut cl idx).text = cl.text ++ List.replicate (idx - cl.len) ' ' := by
  obtain ⟨n, rfl⟩ := Nat.exists_eq_add_of_le hidx
  unfold fillOut
  rw [Nat.add_sub_cancel_left]
  induction n generalizing cl cells with
  | zero =>
    refine ⟨[], ?_, rfl, rfl, (List.append_nil _).symm⟩
    rw [List.append_nil]
    exact h
  | succ n ih =>
    have hlen : (cl.appendGrapheme space false .blank).len = cl.len + 1 := rfl
    obtain ⟨blanks, hstores, htexts, hend, htext⟩ :=
      ih (h.appendGrapheme space false .blank) (Nat.le_add_right _ n)
    refine ⟨cl.nextCell space false .blank :: blanks, ?_, ?_, ?_, ?_⟩
    · rw [List.append_assoc] at hstores
      exact hstores
    · rw [List.map_cons, htexts]
      rfl
    · show (List.foldl _ (cl.appendGrapheme space false .blank) (List.replicate n ())).len = _
      rw [hend, hlen]
      omega
    · show (List.foldl _ (cl.appendGrapheme space false .blank) (List.replicate n ())).text = _
      rw [htext]
      show cl.text ++ space ++ _ = _
      rw [List.append_assoc]
      rfl

theorem reads_append (h : cl.Reads graphemes cells) (hidx : cl.len ≤ idx) {text : Text}
    (wide : Bool) (attrs : CellAttributes) (hapart : SetsApart graphemes cl idx text) :
    ∃ cells', ((fillOut cl idx).appendGrapheme text wide attrs).Reads graphemes cells' := by
  obtain ⟨blanks, hstores, htexts, -, htext⟩ := stores_fillOut h.toStores hidx
  refine ⟨_, hstores.appendGrapheme text wide attrs, ?_⟩
  show graphemes ((fillOut cl idx).text ++ text) = _
  rw [htext, hapart, h.segments, List.map_append, List.map_append, htexts]
  rfl

theorem take_text {front back : List CellRef} (hback : ∀ c ∈ back, c.text = space) :
    ((front ++ back).flatMap CellRef.text).take
      (((front ++ back).flatMap CellRef.text).length - back.length) =
        front.flatMap CellRef.text := by
  have hlen : (back.flatMap CellRef.text).length = back.length := by
    induction back with
    | nil => rfl
    | cons c back ih =>
      rw [List.flatMap_cons, List.length_append, hback c List.mem_cons_self,
        ih fun d hd => hback d (List.mem_cons_of_mem _ hd), List.length_cons]
      show 1 + back.length = _
      omega
  rw [List.flatMap_append, List.length_append, hlen, Nat.add_sub_cancel]
  exact List.take_left

theorem reads_prune {texts : List Text} (hreads : cl.Reads graphemes cells)
    (hnarrow : ∀ c ∈ (cl.iter graphemes).drop texts.length, c.wide = false)
    (htexts : ∀ m, m ≤ endSpaces cl.text → graphemes (cl.text.take (cl.text.length - m)) =
        texts ++ List.replicate (endSpaces cl.text - m) space) :
    ∃ cells', (ClusteredLine.pruneLoop (endSpaces cl.text) cl false).1.Reads graphemes cells' := by
  rw [hreads.iter] at hnarrow
  have hsegments := htexts 0 (Nat.zero_le _)
  rw [Nat.sub_zero, Nat.sub_zero, List.take_length, hreads.segments] at hsegments
  -- the cells whose texts are the spaces at the end
  obtain ⟨front, back, rfl, hfront, hspaces⟩ := List.map_eq_append_iff.mp hsegments
  have hlen : front.length = texts.length := by rw [← hfront, List.length_map]
  have hcount : back.length = endSpaces cl.text := by
    rw [← List.length_map (f := CellRef.text), hspaces, List.length_replicate]
  have hback : ∀ c ∈ back, c.text = space ∧ c.wide = false := by
    intro c hc
    refine ⟨?_, hnarrow c ?_⟩
    · have hin := List.mem_map_of_mem (f := CellRef.text) hc
      rw [hspaces] at hin
      exact (List.mem_replicate.mp hin).2
    · rw [← hlen, List.drop_left]
      exact hc
  obtain ⟨kept, gone, rfl, hkept⟩ := hreads.toStores.pruneLoop (b := false) hback
  rw [hcount] at hkept
  refine ⟨_, hkept, ?_⟩
  have hgone := htexts gone.length (by rw [← hcount, List.length_append]; omega)
  rw [List.map_append, hkept.text]
  rw [hreads.text, ← List.append_assoc, take_text (fun c hc =>
    (hback c (List.mem_append_right _ hc)).1)] at hgone
  rw [hgone, hfront]
  refine congrArg (texts ++ ·) ?_
  rw [List.append_assoc, ← hreads.text, ← hcount, List.length_append, Nat.add_sub_cancel]
  rw [List.map_append] at hspaces
  have hfirst := congrArg (List.take kept.length) hspaces
  rw [List.take_left' (List.length_map _), List.take_replicate, ← hcount,
    List.length_append, Nat.min_eq_left (Nat.le_add_right _ _)] at hfirst
  exact hfirst.symm

/-! ## One edit -/

theorem Intact.setCellImpl (h : line.Intact graphemes) (hlinks : line.Unlinked) {cell : Cell}
    (clear : Bool)
    (hfits : (line.invalidateImplicitHyperlinks graphemes seqno).SetFits graphemes idx cell) :
    (line.setCellImpl graphemes idx cell clear seqno).Intact graphemes := by
  have hline := (h.invalidate hlinks seqno).1
  unfold Line.setCellImpl
  generalize line.invalidateImplicitHyperlinks graphemes seqno = l at hline hfits ⊢
  unfold Intact at hline
  unfold SetFits at hfits
  dsimp only [updateLastChangeSeqno]
  cases hcells : l.cells with
  | V cells =>
    rw [hcells] at hline
    exact hline.setCellVec idx cell clear
  | C cl =>
    rw [hcells] at hline hfits
    dsimp only at hline hfits ⊢
    split
    · exact hline
    · next hnot =>
      obtain ⟨cells, hreads⟩ := hline
      by_cases hidx : cl.len ≤ idx
      · obtain ⟨-, -, -, hend, -⟩ := stores_fillOut hreads.toStores hidx
        rw [if_pos hend.symm]
        exact reads_append hreads hidx cell.wide cell.attrs (hfits hidx hnot)
      · have hsame : fillOut cl idx = cl := by
          unfold fillOut
          rw [Nat.sub_eq_zero_of_le (by omega)]
          rfl
        rw [hsame, if_neg (by omega)]
        exact (paired_expand _).setCellVec idx cell clear

theorem unlinked_setCellImpl (graphemes : Graphemes) (line : Line) (cell : Cell) (clear : Bool) :
    (line.setCellImpl graphemes idx cell clear seqno).Unlinked := by
  have hline := unlinked_invalidate graphemes line seqno
  unfold Line.setCellImpl
  generalize line.invalidateImplicitHyperlinks graphemes seqno = l at hline ⊢
  dsimp only [updateLastChangeSeqno]
  cases l.cells with
  | V cells => exact hline
  | C cl =>
    dsimp only
    split
    · exact hline
    · split
      · exact hline
      · exact hline

theorem Unlinked.setCellGrapheme (h : line.Unlinked) (text : Text) (wide : Bool)
    (attr : CellAttributes) :
    (line.setCellGrapheme graphemes idx text wide attr seqno).Unlinked := by
  unfold Line.setCellGrapheme
  dsimp only
  cases line.cells with
  | V cells => exact unlinked_setCellImpl graphemes _ _ _
  | C cl =>
    dsimp only
    split
    · exact h
    · split
      · exact unlinked_invalidate graphemes _ seqno
      · exact unlinked_setCellImpl graphemes _ _ _

theorem Intact.setCellGrapheme (h : line.Intact graphemes) (hlinks : line.Unlinked) {text : Text}
    {wide : Bool} {attr : CellAttributes}
    (hfits : line.Fits graphemes seqno (.setCellGrapheme idx text wide attr)) :
    (line.setCellGrapheme graphemes idx text wide attr seqno).Intact graphemes := by
  have hset : ∀ l : Line, l.Intact graphemes → l.Unlinked →
      (∀ cl, l.cells = .C cl → idx < cl.len) →
      (l.setCell graphemes idx (.newGraphemeWithWidth text wide attr) seqno).Intact graphemes := by
    intro l hl hplain hinside
    refine hl.setCellImpl hplain false ?_
    unfold SetFits
    rw [hplain.cells_invalidate]
    cases hl' : l.cells with
    | V cells => trivial
    | C cl =>
      intro hidx
      have hlt := hinside cl hl'
      omega
  unfold Line.setCellGrapheme
  unfold Fits at hfits
  dsimp only
  cases hcells : line.cells with
  | V cells =>
    refine hset _ ?_ hlinks ?_
    · unfold Intact at h ⊢
      rw [hcells] at h
      exact h
    · intro cl hcl
      cases hcl
  | C cl =>
    unfold Intact at h
    rw [hcells] at h hfits
    obtain ⟨cells, hreads⟩ := h
    dsimp only at hfits ⊢
    split
    · unfold Intact
      exact ⟨cells, hreads⟩
    · next hnot =>
      by_cases hidx : cl.len ≤ idx
      · obtain ⟨-, -, -, hend, -⟩ := stores_fillOut hreads.toStores hidx
        rw [if_pos hend.symm]
        have hgrown : Intact graphemes ⟨.C ((fillOut cl idx).appendGrapheme text wide attr),
            line.seqno, { line.bits with
              hasHyperlink := line.bits.hasHyperlink || attr.hyperlink.isSome }⟩ :=
          reads_append hreads hidx wide attr (hfits hidx hnot)
        exact (hgrown.invalidate hlinks seqno).1
      · have hsame : fillOut cl idx = cl := by
          unfold fillOut
          rw [Nat.sub_eq_zero_of_le (by omega)]
          rfl
        rw [hsame, if_neg (by omega)]
        refine hset _ ⟨cells, hreads⟩ hlinks ?_
        intro cl' hcl
        obtain rfl := CellStorage.C.inj hcl
        omega

theorem Intact.pruneTrailingBlanks (h : line.Intact graphemes) (hfits : line.PruneFits graphemes)
    (seqno : Nat) : (line.pruneTrailingBlanks seqno).Intact graphemes := by
  unfold Intact at h
  unfold PruneFits at hfits
  unfold Line.pruneTrailingBlanks
  cases hcells : line.cells with
  | V cells =>
    rw [hcells] at h hfits
    dsimp only at h hfits ⊢
    split
    · unfold Intact
      rw [hcells]
      exact h
    · refine intact_setCells ?_ seqno
      obtain ⟨gone, hgone⟩ : pruneVec cells <+: cells := by
        unfold pruneVec
        rw [← List.reverse_suffix, List.reverse_reverse]
        exact List.dropWhile_suffix _
      rw [← hgone] at h
      exact h.front hfits
  | C cl =>
    rw [hcells] at h hfits
    obtain ⟨cells, hreads⟩ := h
    obtain ⟨texts, hnarrow, htexts⟩ := hfits
    have hpruned := reads_prune hreads hnarrow htexts
    dsimp only
    unfold ClusteredLine.pruneTrailingBlanks
    split
    · exact hpruned
    · exact hpruned

theorem Unlinked.pruneTrailingBlanks (h : line.Unlinked) (seqno : Nat) :
    (line.pruneTrailingBlanks seqno).Unlinked := by
  unfold Line.pruneTrailingBlanks
  cases line.cells with
  | V cells =>
    dsimp only
    split
    · exact h
    · exact h
  | C cl =>
    dsimp only
    split
    · exact h
    · exact h

theorem Unlinked.fillRange (h : line.Unlinked) (start stop : Nat) (cell : Cell) :
    (line.fillRange graphemes start stop cell seqno).Unlinked := by
  unfold Line.fillRange
  split
  · exact h
  · next hnot =>
    clear hnot
    generalize List.range' start (stop - start) = xs
    induction xs generalizing line with
    | nil => exact h.pruneTrailingBlanks seqno
    | cons x xs ih => exact ih (unlinked_setCellImpl graphemes line cell true)

theorem Intact.fillRange (h : line.Intact graphemes) (hlinks : line.Unlinked) {start stop : Nat} {cell : Cell}
    (hfits : line.Fits graphemes seqno (.fillRange start stop cell)) :
    (line.fillRange graphemes start stop cell seqno).Intact graphemes := by
  unfold Line.fillRange
  unfold Fits at hfits
  split
  · exact h
  · next hnot =>
    replace hfits := hfits hnot
    clear hnot
    generalize List.range' start (stop - start) = xs at hfits ⊢
    induction xs generalizing line with
    | nil => exact h.pruneTrailingBlanks hfits seqno
    | cons x xs ih =>
      exact ih (h.setCellImpl hlinks true hfits.1) (unlinked_setCellImpl graphemes line cell true)
        hfits.2

theorem Intact.insertCell (h : line.Intact graphemes) (hlinks : line.Unlinked) {cell : Cell}
    (hx : x < rightMargin) (hfits : line.Fits graphemes seqno (.insertCell x cell rightMargin)) :
    ∃ line', line.insertCell graphemes x cell rightMargin seqno = .ok line' ∧
      line'.Intact graphemes ∧ line'.Unlinked := by
  obtain ⟨hline, hvec, hlen⟩ := h.invalidate hlinks seqno
  obtain ⟨hbefore, hmargin⟩ := hfits
  unfold Line.insertCell
  dsimp only
  rw [if_neg (by omega)]
  refine ⟨_, rfl, intact_setCells ?_ seqno, unlinked_invalidate graphemes line seqno⟩
  rw [← hvec]
  refine h.paired.insertCell hx hbefore ?_ rfl rfl
  intro j hj hle hin
  rw [h.length_vec] at hin
  exact hmargin j hj hle hin

theorem paired_eraseIdx_invalidateVec {cells : List Cell} (h : Paired cells) (x : Nat) :
    Paired ((invalidateVec cells x).eraseIdx x) := by
  refine (h.invalidateVec x).eraseIdx ?_
  rintro j rfl
  exact .inl (narrowAt_invalidateVec cells j)

theorem Intact.length_cleared (h : line.Intact graphemes) (hlinks : line.Unlinked) (x seqno : Nat) :
    (invalidateVec ((line.invalidateImplicitHyperlinks graphemes seqno).vec graphemes) x).length =
      line.len := by
  obtain ⟨hline, -, hlen⟩ := h.invalidate hlinks seqno
  rw [length_invalidateVec, hline.length_vec, hlen]

theorem Intact.eraseCell (h : line.Intact graphemes) (hlinks : line.Unlinked) (x seqno : Nat) :
    ∃ line', line.eraseCell graphemes x seqno = .ok line' ∧ line'.Intact graphemes ∧
      line'.Unlinked := by
  unfold Line.eraseCell
  split
  · exact ⟨line, rfl, h, hlinks⟩
  · next hx =>
    dsimp only
    rw [if_neg (by rw [h.length_cleared hlinks]; exact hx)]
    refine ⟨_, rfl, intact_setCells ?_ seqno, unlinked_invalidate graphemes line seqno⟩
    exact (paired_eraseIdx_invalidateVec (h.invalidate hlinks seqno).1.paired x).snoc rfl

theorem Intact.removeCell (h : line.Intact graphemes) (hlinks : line.Unlinked) (x seqno : Nat) :
    ∃ line', line.removeCell graphemes x seqno = .ok line' ∧ line'.Intact graphemes ∧
      line'.Unlinked := by
  unfold Line.removeCell
  split
  · exact ⟨line, rfl, h, hlinks⟩
  · next hx =>
    dsimp only
    rw [if_neg (by rw [h.length_cleared hlinks]; exact hx)]
    refine ⟨_, rfl, intact_setCells ?_ seqno, unlinked_invalidate graphemes line seqno⟩
    exact paired_eraseIdx_invalidateVec (h.invalidate hlinks seqno).1.paired x

theorem Intact.eraseCellWithMargin (h : line.Intact graphemes) (hlinks : line.Unlinked)
    (hx : x < rightMargin) (seqno : Nat) (attr : CellAttributes) :
    ∃ line', line.eraseCellWithMargin graphemes x rightMargin seqno attr = .ok line' ∧
      line'.Intact graphemes ∧ line'.Unlinked := by
  obtain ⟨hline, -, hlen⟩ := h.invalidate hlinks seqno
  have hcleared := h.length_cleared hlinks x seqno
  have hplain := unlinked_invalidate graphemes line seqno
  unfold Line.eraseCellWithMargin
  dsimp only
  -- what is left once the cell is gone, with the columns up to the margin
  obtain ⟨erased, herased, hintact, hunlinked⟩ : ∃ erased : Line,
      (if x < (line.invalidateImplicitHyperlinks graphemes seqno).len then
        if (invalidateVec ((line.invalidateImplicitHyperlinks graphemes seqno).vec graphemes)
            x).length ≤ x then (.error .column : Except Panic Line)
        else .ok ((line.invalidateImplicitHyperlinks graphemes seqno).setCells
          ((invalidateVec ((line.invalidateImplicitHyperlinks graphemes seqno).vec graphemes)
            x).eraseIdx x))
      else .ok (line.invalidateImplicitHyperlinks graphemes seqno)) = .ok erased ∧
        erased.Intact graphemes ∧ erased.Unlinked := by
    split
    · next hin =>
      rw [if_neg (by omega)]
      exact ⟨_, rfl, paired_eraseIdx_invalidateVec hline.paired x, hplain⟩
    · exact ⟨_, rfl, hline, hplain⟩
  rw [herased]
  dsimp only
  split
  · rw [if_neg (by omega)]
    refine ⟨_, rfl, intact_setCells ?_ seqno, hunlinked⟩
    have hfiller := filler_blankWithAttrs attr
    refine hintact.paired.insertIdx ?_ (fun _ _ => .inr hfiller) ?_
    · rw [hintact.length_vec]
      omega
    · intro hwide
      cases hwide
  · exact ⟨_, rfl, hintact, hunlinked⟩

/-- The step: an edit that fits leaves an intact line, and still no implicit links. -/
theorem Intact.edit (h : line.Intact graphemes) (hlinks : line.Unlinked) {e : LineEdit}
    (hmargin : e.WithinMargin) (hfits : line.Fits graphemes seqno e) :
    ∃ line', line.edit graphemes seqno e = .ok line' ∧ line'.Intact graphemes ∧
      line'.Unlinked := by
  cases e with
  | setCell idx cell =>
    exact ⟨_, rfl, h.setCellImpl hlinks false hfits, unlinked_setCellImpl graphemes line cell false⟩
  | setCellGrapheme idx text wide attr =>
    exact ⟨_, rfl, h.setCellGrapheme hlinks hfits, hlinks.setCellGrapheme text wide attr⟩
  | insertCell x cell rightMargin => exact h.insertCell hlinks hmargin hfits
  | eraseCell x => exact h.eraseCell hlinks x seqno
  | eraseCellWithMargin x rightMargin attr =>
    exact h.eraseCellWithMargin hlinks hmargin seqno attr
  | removeCell x => exact h.removeCell hlinks x seqno
  | fillRange start stop cell =>
    exact ⟨_, rfl, h.fillRange hlinks hfits, hlinks.fillRange start stop cell⟩
  | resize width =>
    refine ⟨_, rfl, intact_setCells (h.paired.resizeCells ?_) seqno, hlinks⟩
    rw [h.length_vec]
    exact hfits

/-- The run: every line that fitting edits lead to is intact. -/
theorem Intact.edits (h : line.Intact graphemes) (hlinks : line.Unlinked)
    {es : List (LineEdit × Nat)} (hfits : line.RunFits graphemes es) :
    ∃ line', line.edits graphemes es = .ok line' ∧ line'.Intact graphemes := by
  induction es generalizing line with
  | nil => exact ⟨line, rfl, h⟩
  | cons e es ih =>
    obtain ⟨e, seqno⟩ := e
    obtain ⟨hmargin, hstep, hrest⟩ := hfits
    obtain ⟨line1, h1, hintact, hplain⟩ := h.edit hlinks hmargin hstep
    obtain ⟨line2, h2, hintact2⟩ := ih hintact hplain (hrest line1 h1)
    exact ⟨line2, bind_eq_ok.mpr ⟨line1, h1, h2⟩, hintact2⟩

theorem RunFits.take {es : List (LineEdit × Nat)} (h : line.RunFits graphemes es) (n : Nat) :
    line.RunFits graphemes (es.take n) := by
  induction es generalizing line n with
  | nil =>
    rw [List.take_nil]
    exact h
  | cons e es ih =>
    cases n with
    | zero => exact trivial
    | succ n => exact ⟨h.1, h.2.1, fun line' h' => ih (h.2.2 line' h') n⟩

end Line

end Wakterm.Term
