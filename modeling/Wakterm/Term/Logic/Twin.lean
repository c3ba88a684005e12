import Wakterm.Machine.Loop
import Wakterm.Term.Csi

/-!
# Screens that differ in their numbers only

The numbers of the changes are written into the lines, and the rows that were dropped from the top
are counted; neither is read where a screen is written to.
-/

namespace Wakterm.Term

open Wakterm.Machine

/-! ## Lines -/

/-- The bits that decide how the line is shown and written to. -/
def LineBits.plain (bits : LineBits) : LineBits := { bits with hasHyperlink := false }

/-- Lines with the same cells in the same form of storage. -/
structure Line.Twin (line line' : Line) : Prop where
  cells : line.cells = line'.cells
  bits : line.bits.plain = line'.bits.plain

namespace Line

variable {graphemes : Graphemes} {line line' : Line} {seqno seqno' : Nat}

theorem Twin.refl (line : Line) : line.Twin line := ⟨rfl, rfl⟩

theorem twin_new (seqno seqno' : Nat) : (Line.new seqno).Twin (.new seqno') := ⟨rfl, rfl⟩

theorem twin_withWidthAndCell (width : Nat) (cell : Cell) (seqno seqno' : Nat) :
    (withWidthAndCell width cell seqno).Twin (.withWidthAndCell width cell seqno') := ⟨rfl, rfl⟩

variable (h : line.Twin line')
include h

theorem Twin.update (seqno seqno' : Nat) :
    (line.updateLastChangeSeqno seqno).Twin (line'.updateLastChangeSeqno seqno') :=
  ⟨h.cells, h.bits⟩

theorem Twin.withCells (cells : CellStorage) :
    ({ line with cells := cells } : Line).Twin { line' with cells := cells } := ⟨rfl, h.bits⟩

theorem Twin.setCells (cells : List Cell) :
    (line.setCells cells).Twin (line'.setCells cells) := h.withCells _

theorem Twin.withBits {f : LineBits → LineBits}
    (hf : ∀ bits, (f bits).plain = (f bits.plain).plain) :
    ({ line with bits := f line.bits } : Line).Twin { line' with bits := f line'.bits } := by
  refine ⟨h.cells, ?_⟩
  show (f line.bits).plain = (f line'.bits).plain
  rw [hf line.bits, h.bits, ← hf line'.bits]

theorem Twin.setSingleWidth (seqno seqno' : Nat) :
    (line.setSingleWidth seqno).Twin (line'.setSingleWidth seqno') :=
  (h.withBits (f := fun bits => { bits with
    doubleWidth := false, doubleHeightTop := false, doubleHeightBottom := false })
    fun _ => rfl).update seqno seqno'

theorem Twin.setBidiInfo (enabled : Bool)
    (direction : ParagraphDirectionHint) (seqno seqno' : Nat) :
    (line.setBidiInfo enabled direction seqno).Twin
      (line'.setBidiInfo enabled direction seqno') := by
  cases direction
  all_goals exact (h.withBits (f := fun bits => { bits with
    bidiEnabled := enabled, autoDetectDirection := _, rtl := _ }) fun _ => rfl).update seqno seqno'

theorem Twin.applyToLine (mode : BidiMode) (seqno seqno' : Nat) :
    (mode.applyToLine line seqno).Twin (mode.applyToLine line' seqno') :=
  h.setBidiInfo mode.enabled mode.hint seqno seqno'

theorem Twin.len : line.len = line'.len := by
  unfold Line.len
  rw [h.cells]

theorem Twin.vec : line.vec graphemes = line'.vec graphemes := by
  unfold Line.vec
  rw [h.cells]

theorem Twin.visibleCells : line.visibleCells graphemes = line'.visibleCells graphemes := by
  unfold Line.visibleCells
  rw [h.cells]

theorem Twin.compress : line.compressForScrollback.Twin line'.compressForScrollback := by
  unfold compressForScrollback
  rw [h.cells]
  split
  · exact h.withCells _
  · exact h

theorem Twin.setLastCellWasWrapped (wrapped : Bool) (seqno seqno' : Nat) :
    (line.setLastCellWasWrapped graphemes wrapped seqno).Twin
      (line'.setLastCellWasWrapped graphemes wrapped seqno') := by
  have hnew := h.update seqno seqno'
  unfold Line.setLastCellWasWrapped
  dsimp only
  rw [hnew.cells]
  split
  · exact hnew.withCells _
  · split
    · exact hnew
    · exact hnew.setCells _

theorem Twin.scanned :
    line.bits.scannedImplicitHyperlinks = line'.bits.scannedImplicitHyperlinks := by
  have hbits := congrArg LineBits.scannedImplicitHyperlinks h.bits
  exact hbits

theorem Twin.hasImplicit : line.bits.hasImplicitHyperlinks = line'.bits.hasImplicitHyperlinks := by
  have hbits := congrArg LineBits.hasImplicitHyperlinks h.bits
  exact hbits

theorem Twin.invalidate (seqno seqno' : Nat) :
    (line.invalidateImplicitHyperlinks graphemes seqno).Twin
      (line'.invalidateImplicitHyperlinks graphemes seqno') := by
  have hunscanned := h.withBits (f := fun bits => { bits with scannedImplicitHyperlinks := false })
    fun _ => rfl
  have hcleared := ((h.setCells (clearImplicit graphemes (line.vec graphemes))).withBits
    (f := fun bits => { bits with
      scannedImplicitHyperlinks := false, hasImplicitHyperlinks := false })
    fun _ => rfl).update seqno seqno'
  have hscanned := h.scanned
  have hhas := h.hasImplicit
  unfold invalidateImplicitHyperlinks
  dsimp only
  by_cases hskip : (!line.bits.scannedImplicitHyperlinks &&
      !line.bits.hasImplicitHyperlinks) = true
  · have hskip' := hskip
    rw [hscanned, hhas] at hskip'
    rw [if_pos hskip, if_pos hskip']
    exact h
  · have hskip' := hskip
    rw [hscanned, hhas] at hskip'
    rw [if_neg hskip, if_neg hskip']
    by_cases hnone : (!line.bits.hasImplicitHyperlinks) = true
    · have hnone' := hnone
      rw [hhas] at hnone'
      rw [if_pos hnone, if_pos hnone']
      exact hunscanned
    · have hnone' := hnone
      rw [hhas] at hnone'
      rw [if_neg hnone, if_neg hnone']
      refine ⟨?_, hcleared.bits⟩
      show CellStorage.V (clearImplicit graphemes (line.vec graphemes)) =
        .V (clearImplicit graphemes (line'.vec graphemes))
      rw [h.vec]

theorem Twin.resize (width seqno seqno' : Nat) :
    (line.resize graphemes width seqno).Twin (line'.resize graphemes width seqno') := by
  unfold Line.resize
  rw [h.vec]
  exact (h.setCells _).update seqno seqno'

omit h in
theorem twin_resizeAndClear (line line' : Line) (width : Nat) (attr : CellAttributes)
    (seqno seqno' : Nat) :
    (line.resizeAndClear width seqno attr).Twin (line'.resizeAndClear width seqno' attr) :=
  ⟨rfl, rfl⟩

theorem Twin.link (link : Bool) :
    ({ line with bits := { line.bits with
        hasHyperlink := line.bits.hasHyperlink || link } } : Line).Twin
      { line' with bits := { line'.bits with
        hasHyperlink := line'.bits.hasHyperlink || link } } := ⟨h.cells, h.bits⟩

theorem Twin.setCellImpl (idx : Nat) (cell : Cell) (clear : Bool)
    (seqno seqno' : Nat) : (line.setCellImpl graphemes idx cell clear seqno).Twin
      (line'.setCellImpl graphemes idx cell clear seqno') := by
  have hnew : (line.invalidateImplicitHyperlinks graphemes seqno).Twin
      (line'.invalidateImplicitHyperlinks graphemes seqno') := h.invalidate seqno seqno'
  unfold Line.setCellImpl
  generalize line.invalidateImplicitHyperlinks graphemes seqno = l at hnew ⊢
  generalize line'.invalidateImplicitHyperlinks graphemes seqno' = l' at hnew ⊢
  obtain ⟨cells, n, bits⟩ := l
  obtain ⟨cells', n', bits'⟩ := l'
  obtain rfl : cells = cells' := hnew.cells
  cases cells with
  | V cells => exact ⟨rfl, hnew.bits⟩
  | C cl =>
    dsimp only [updateLastChangeSeqno]
    split
    · exact ⟨rfl, hnew.bits⟩
    · split
      · exact ⟨rfl, hnew.bits⟩
      · exact ⟨rfl, hnew.bits⟩

theorem Twin.setCell (idx : Nat) (cell : Cell) (seqno seqno' : Nat) :
    (line.setCell graphemes idx cell seqno).Twin (line'.setCell graphemes idx cell seqno') :=
  h.setCellImpl idx cell false seqno seqno'

theorem Twin.setCellGrapheme (idx : Nat) (text : Text) (wide : Bool)
    (attr : CellAttributes) (seqno seqno' : Nat) :
    (line.setCellGrapheme graphemes idx text wide attr seqno).Twin
      (line'.setCellGrapheme graphemes idx text wide attr seqno') := by
  obtain ⟨cells, n, bits⟩ := line
  obtain ⟨cells', n', bits'⟩ := line'
  obtain rfl : cells = cells' := h.cells
  have hnew := h.link attr.hyperlink.isSome
  unfold Line.setCellGrapheme
  cases cells with
  | V cells => exact hnew.setCell idx _ seqno seqno'
  | C cl =>
    dsimp only
    split
    · exact hnew
    · split
      · exact ((hnew.withCells _).invalidate seqno seqno').update seqno seqno'
      · exact (hnew.withCells _).setCell idx _ seqno seqno'

theorem Twin.insertCell (x : Nat) (cell : Cell)
    (rightMargin seqno seqno' : Nat) :
    Both Twin (line.insertCell graphemes x cell rightMargin seqno)
      (line'.insertCell graphemes x cell rightMargin seqno') := by
  have hnew : (line.invalidateImplicitHyperlinks graphemes seqno).Twin
      (line'.invalidateImplicitHyperlinks graphemes seqno') := h.invalidate seqno seqno'
  unfold Line.insertCell
  dsimp only
  rw [hnew.vec]
  split
  · exact .error _
  · exact .ok ((hnew.setCells _).update seqno seqno')

theorem Twin.eraseCellWithMargin (x rightMargin : Nat)
    (attr : CellAttributes) (seqno seqno' : Nat) :
    Both Twin (line.eraseCellWithMargin graphemes x rightMargin seqno attr)
      (line'.eraseCellWithMargin graphemes x rightMargin seqno' attr) := by
  have hnew : (line.invalidateImplicitHyperlinks graphemes seqno).Twin
      (line'.invalidateImplicitHyperlinks graphemes seqno') := h.invalidate seqno seqno'
  have herased : Both Twin
      (if x < (line.invalidateImplicitHyperlinks graphemes seqno).len then
        if (invalidateVec ((line.invalidateImplicitHyperlinks graphemes seqno).vec graphemes)
            x).length ≤ x then .error Panic.column
        else .ok ((line.invalidateImplicitHyperlinks graphemes seqno).setCells ((invalidateVec
          ((line.invalidateImplicitHyperlinks graphemes seqno).vec graphemes) x).eraseIdx x))
      else .ok (line.invalidateImplicitHyperlinks graphemes seqno))
      (if x < (line'.invalidateImplicitHyperlinks graphemes seqno').len then
        if (invalidateVec ((line'.invalidateImplicitHyperlinks graphemes seqno').vec graphemes)
            x).length ≤ x then .error Panic.column
        else .ok ((line'.invalidateImplicitHyperlinks graphemes seqno').setCells ((invalidateVec
          ((line'.invalidateImplicitHyperlinks graphemes seqno').vec graphemes) x).eraseIdx x))
      else .ok (line'.invalidateImplicitHyperlinks graphemes seqno')) := by
    rw [hnew.len, hnew.vec]
    split
    · split
      · exact .error _
      · exact .ok (hnew.setCells _)
    · exact .ok hnew
  unfold Line.eraseCellWithMargin
  dsimp only
  generalize (if x < (line.invalidateImplicitHyperlinks graphemes seqno).len then _ else _) = a
    at herased ⊢
  generalize (if x < (line'.invalidateImplicitHyperlinks graphemes seqno').len then _ else _) = b
    at herased ⊢
  cases herased with
  | error e => exact .error e
  | ok htwin =>
    dsimp only
    rw [htwin.len, htwin.vec]
    split
    · split
      · exact .error _
      · exact .ok ((htwin.setCells _).update seqno seqno')
    · exact .ok (htwin.update seqno seqno')

theorem Twin.pruneTrailingBlanks (seqno seqno' : Nat) :
    (line.pruneTrailingBlanks seqno).Twin (line'.pruneTrailingBlanks seqno') := by
  unfold Line.pruneTrailingBlanks
  rw [h.cells]
  split
  · dsimp only
    split
    · exact (h.withCells _).update seqno seqno'
    · exact h.withCells _
  · split
    · exact h
    · exact (h.setCells _).update seqno seqno'

theorem Twin.setCells_of (xs : List Nat) (cell : Cell) (seqno seqno' : Nat) :
    (xs.foldl (fun line x => line.setCellImpl graphemes x cell true seqno) line).Twin
      (xs.foldl (fun line x => line.setCellImpl graphemes x cell true seqno') line') := by
  induction xs generalizing line line' with
  | nil => exact h
  | cons x xs ih => exact ih (h.setCellImpl x cell true seqno seqno')

theorem Twin.fillRange (start stop : Nat) (cell : Cell) (seqno seqno' : Nat) :
    (line.fillRange graphemes start stop cell seqno).Twin
      (line'.fillRange graphemes start stop cell seqno') := by
  unfold Line.fillRange
  rw [h.len]
  split
  · exact h
  · exact (h.setCells_of _ cell seqno seqno').pruneTrailingBlanks seqno seqno'

end Line

/-! ## Screens -/

/-- Screens whose lines are the same but for their numbers, wherever the rows are counted from. -/
structure Screen.Twin (s s' : Screen) : Prop where
  lines : List.Forall₂ Line.Twin s.lines s'.lines
  frame : s' = { s with lines := s'.lines, stableRowIndexOffset := s'.stableRowIndexOffset }

namespace Screen

variable {graphemes : Graphemes} {s s' : Screen} {seqno seqno' : Nat}

theorem Twin.refl (s : Screen) : s.Twin s := ⟨List.forall₂_same.mpr fun _ _ => .refl _, rfl⟩

variable (h : s.Twin s')
include h

theorem Twin.rows : s'.physicalRows = s.physicalRows := by rw [h.frame]

theorem Twin.cols : s'.physicalCols = s.physicalCols := by rw [h.frame]

theorem Twin.allow : s'.allowScrollback = s.allowScrollback := by rw [h.frame]

theorem Twin.scrollback : s'.scrollbackSize = s.scrollbackSize := by
  rw [h.frame]
  rfl

theorem Twin.length : s'.lines.length = s.lines.length := h.lines.length_eq.symm

theorem Twin.physRow (y : Int) : s'.physRow y = s.physRow y := by
  unfold Screen.physRow
  rw [h.length, h.rows]

theorem Twin.physRange (range : Span Int) : s'.physRange range = s.physRange range := by
  unfold Screen.physRange
  rw [h.physRow, h.physRow]

theorem Twin.withLines {lines lines' : List Line} (offset offset' : Nat)
    (hlines : List.Forall₂ Line.Twin lines lines') :
    ({ s with lines := lines, stableRowIndexOffset := offset } : Screen).Twin
      { s' with lines := lines', stableRowIndexOffset := offset' } := by
  refine ⟨hlines, ?_⟩
  rw [h.frame]

theorem Twin.modifyLine (idx : Nat) {f g : Line → Except Panic Line}
    (hfg : ∀ line line', line.Twin line' → Both Line.Twin (f line) (g line')) :
    Both Twin (s.modifyLine idx f) (s'.modifyLine idx g) := by
  unfold Screen.modifyLine
  have hline := forall₂_getElem? h.lines idx
  generalize s.lines[idx]? = line at hline ⊢
  generalize s'.lines[idx]? = line' at hline ⊢
  cases hline with
  | none => exact .error _
  | some htwin =>
    refine (hfg _ _ htwin).map fun new new' hnew => ?_
    exact h.withLines _ _ (forall₂_set h.lines hnew idx)

theorem Twin.touch (idx : Nat) : Both Twin (s.touch seqno idx) (s'.touch seqno' idx) :=
  h.modifyLine idx fun _ _ hline => .ok (hline.update seqno seqno')

theorem Twin.touchRows (start n : Nat) :
    Both Twin (rowsFrom start n (Screen.touch seqno) s) (rowsFrom start n (Screen.touch seqno') s') :=
  both_rowsFrom (fun i _ _ hs => hs.touch i) h

theorem Twin.insertCell (x : Nat) (y : Int) (rightMargin : Nat) :
    Both Twin (s.insertCell graphemes x y rightMargin seqno)
      (s'.insertCell graphemes x y rightMargin seqno') := by
  unfold Screen.insertCell
  rw [h.physRow]
  refine h.modifyLine _ fun line line' hline => ?_
  refine ((hline.update seqno seqno').insertCell x .blank rightMargin seqno seqno').map ?_
  intro new new' hnew
  rw [h.cols, hnew.len]
  split
  · exact hnew.resize _ seqno seqno'
  · exact hnew

theorem Twin.eraseCell (x : Nat) (y : Int) (rightMargin : Nat)
    (attr : CellAttributes) : Both Twin (s.eraseCell graphemes x y rightMargin seqno attr)
      (s'.eraseCell graphemes x y rightMargin seqno' attr) := by
  unfold Screen.eraseCell
  rw [h.physRow]
  exact h.modifyLine _ fun line line' hline =>
    hline.eraseCellWithMargin x rightMargin attr seqno seqno'

theorem Twin.setCell (x : Nat) (y : Int) (cell : Cell) :
    Both Twin (s.setCell graphemes x y cell seqno) (s'.setCell graphemes x y cell seqno') := by
  unfold Screen.setCell
  rw [h.physRow]
  exact h.modifyLine _ fun line line' hline => .ok (hline.setCell x cell seqno seqno')

theorem Twin.setCellGrapheme (x : Nat) (y : Int) (text : Text) (wide : Bool)
    (attr : CellAttributes) : Both Twin (s.setCellGrapheme graphemes x y text wide attr seqno)
      (s'.setCellGrapheme graphemes x y text wide attr seqno') := by
  unfold Screen.setCellGrapheme
  rw [h.physRow]
  exact h.modifyLine _ fun line line' hline =>
    .ok (hline.setCellGrapheme x text wide attr seqno seqno')

theorem Twin.clearLine (y : Int) (cols : Span Nat) (attr : CellAttributes)
    (bidi : BidiMode) : Both Twin (s.clearLine graphemes y cols attr seqno bidi)
      (s'.clearLine graphemes y cols attr seqno' bidi) := by
  unfold Screen.clearLine
  rw [h.physRow]
  refine h.modifyLine _ fun line line' hline => ?_
  dsimp only
  split
  · exact .ok ((hline.applyToLine bidi seqno seqno').fillRange _ _ _ seqno seqno')
  · exact .ok (hline.fillRange _ _ _ seqno seqno')

theorem Twin.vecLine (idx : Nat) :
    Both Twin (s.modifyLine idx fun line => .ok (line.setCells (line.vec graphemes)))
      (s'.modifyLine idx fun line => .ok (line.setCells (line.vec graphemes))) := by
  refine h.modifyLine idx fun line line' hline => ?_
  rw [hline.vec]
  exact .ok (hline.setCells _)

omit h in
theorem twin_blankLine (cols : Nat) (attr : CellAttributes) (bidi : BidiMode) (seqno seqno' : Nat) :
    (blankLine cols seqno attr bidi).Twin (blankLine cols seqno' attr bidi) := by
  unfold blankLine
  split
  · exact (Line.twin_new seqno seqno').applyToLine bidi seqno seqno'
  · exact (Line.twin_withWidthAndCell cols _ seqno seqno').applyToLine bidi seqno seqno'

theorem Twin.moveLine (removeIdx : Nat) (attr : CellAttributes)
    (insertAtEnd : Bool) (insertAt : Nat) :
    Both Twin (s.moveLine removeIdx seqno attr insertAtEnd insertAt)
      (s'.moveLine removeIdx seqno' attr insertAtEnd insertAt) := by
  unfold Screen.moveLine
  have hline := forall₂_getElem? h.lines removeIdx
  generalize s.lines[removeIdx]? = line at hline ⊢
  generalize s'.lines[removeIdx]? = line' at hline ⊢
  cases hline with
  | none => exact .error _
  | some htwin =>
    rename_i line line'
    have hrest := forall₂_eraseIdx h.lines removeIdx
    have hnew : (if attr = .blank then Line.new seqno
          else (line.resizeAndClear s.physicalCols seqno attr).updateLastChangeSeqno seqno).Twin
        (if attr = .blank then Line.new seqno'
          else (line'.resizeAndClear s'.physicalCols seqno' attr).updateLastChangeSeqno seqno') := by
      rw [h.cols]
      split
      · exact Line.twin_new seqno seqno'
      · exact (Line.twin_resizeAndClear line line' _ attr seqno seqno').update seqno seqno'
    dsimp only
    rw [hrest.length_eq]
    split
    · exact .ok (h.withLines _ _ (List.rel_append hrest (.cons hnew .nil)))
    · split
      · exact .error _
      · exact .ok (h.withLines _ _ (forall₂_insertIdx hrest hnew insertAt))

theorem Twin.addLine (attr : CellAttributes) (bidi : BidiMode)
    (insertAtEnd : Bool) (insertAt : Nat) :
    Both Twin (s.addLine seqno attr bidi insertAtEnd insertAt)
      (s'.addLine seqno' attr bidi insertAtEnd insertAt) := by
  have hnew : (blankLine s.physicalCols seqno attr bidi).Twin
      (blankLine s'.physicalCols seqno' attr bidi) := by
    rw [h.cols]
    exact twin_blankLine s.physicalCols attr bidi seqno seqno'
  unfold Screen.addLine
  dsimp only
  rw [h.length]
  split
  · exact .ok (h.withLines _ _ (List.rel_append h.lines (.cons hnew .nil)))
  · split
    · exact .error _
    · exact .ok (h.withLines _ _ (forall₂_insertIdx h.lines hnew insertAt))

theorem Twin.removeLine (idx : Nat) : Both Twin (s.removeLine idx) (s'.removeLine idx) :=
  .ok (h.withLines _ _ (forall₂_eraseIdx h.lines idx))

theorem Twin.linesRemoved (scrollbackOk : Bool) (numRows : Nat) :
    s'.linesRemoved scrollbackOk numRows = s.linesRemoved scrollbackOk numRows := by
  unfold Screen.linesRemoved
  rw [h.length, h.rows, h.scrollback]

theorem Twin.dropped {c : Prop} [Decidable c] (n n' : Nat) :
    Twin (if c then { s with stableRowIndexOffset := s.stableRowIndexOffset + n } else s)
      (if c then { s' with stableRowIndexOffset := s'.stableRowIndexOffset + n' } else s') := by
  split
  · exact h.withLines _ _ h.lines
  · exact h

theorem Twin.compressRows (start n : Nat) : Both Twin
      (rowsFrom start n (fun y s => s.modifyLine y fun line => .ok line.compressForScrollback) s)
      (rowsFrom start n (fun y s => s.modifyLine y fun line => .ok line.compressForScrollback) s') :=
  both_rowsFrom (fun i _ _ hs => hs.modifyLine i fun _ _ hline => .ok hline.compress) h

theorem Twin.scrollUp (region : Span Int) (numRows : Nat) (attr : CellAttributes)
    (bidi : BidiMode) : Both Twin (s.scrollUp region numRows seqno attr bidi)
      (s'.scrollUp region numRows seqno' attr bidi) := by
  unfold Screen.scrollUp
  dsimp only
  rw [h.physRange, h.allow, h.rows]
  split
  · exact .error _
  · refine Both.bind (R := Twin) ?_ fun s1 s1' h1 => ?_
    · split
      · exact .ok h
      · exact h.touchRows _ _
    · rw [h1.linesRemoved]
      refine Both.bind (R := Twin) ?_ fun s2 s2' h2 => ?_
      · split
        · rw [h1.physRow, h1.physRow]
          exact h1.compressRows _ _
        · exact .ok h1
      · refine Both.bind (both_rounds (fun _ _ hs => hs.moveLine _ attr _ _) h2) fun s3 s3' h3 => ?_
        refine Both.bind (both_rounds (fun _ _ hs => hs.removeLine _) h3) fun s4 s4' h4 => ?_
        refine Both.bind (both_rounds (fun _ _ hs => hs.addLine attr bidi _ _) (h4.dropped _ _))
          fun s5 s5' h5 => ?_
        split
        · rw [h5.physRange, h5.rows]
          exact h5.touchRows _ _
        · exact .ok h5

theorem Twin.eraseScrollback : Both Twin s.eraseScrollback s'.eraseScrollback := by
  have hdrop : List.Forall₂ Line.Twin (s.lines.drop (s.lines.length - s.physicalRows))
      (s'.lines.drop (s'.lines.length - s'.physicalRows)) := by
    rw [h.length, h.rows]
    exact List.forall₂_drop _ h.lines
  unfold Screen.eraseScrollback
  by_cases hshort : s.lines.length < s.physicalRows
  · have hshort' := hshort
    rw [← h.length, ← h.rows] at hshort'
    rw [if_pos hshort, if_pos hshort']
    exact .error _
  · have hshort' := hshort
    rw [← h.length, ← h.rows] at hshort'
    rw [if_neg hshort, if_neg hshort']
    exact .ok (h.withLines _ _ hdrop)

theorem Twin.scrollDown (region : Span Int) (numRows : Nat)
    (attr : CellAttributes) (bidi : BidiMode) :
    Both Twin (s.scrollDown region numRows seqno attr bidi)
      (s'.scrollDown region numRows seqno' attr bidi) := by
  unfold Screen.scrollDown
  dsimp only
  rw [h.physRange]
  split
  · exact .error _
  · refine (h.touchRows _ _).bind fun s1 s1' h1 => ?_
    refine Both.bind (both_rounds (fun _ _ hs => hs.removeLine _) h1) fun s2 s2' h2 => ?_
    exact both_rounds (fun _ _ hs => hs.addLine attr bidi _ _) h2

omit h in
theorem twin_placeCells {line line' : Line} (h : line.Twin line') (margins : Span Nat)
    (cells : List Cell) (attr : CellAttributes) :
    Both Line.Twin (placeCells graphemes margins cells seqno attr line)
      (placeCells graphemes margins cells seqno' attr line') := by
  have hwide : (if (line.updateLastChangeSeqno seqno).len < margins.start + cells.length then
        (line.updateLastChangeSeqno seqno).resize graphemes (margins.start + cells.length) seqno
        else line.updateLastChangeSeqno seqno).Twin
      (if (line'.updateLastChangeSeqno seqno').len < margins.start + cells.length then
        (line'.updateLastChangeSeqno seqno').resize graphemes (margins.start + cells.length) seqno'
        else line'.updateLastChangeSeqno seqno') := by
    have hnew := h.update seqno seqno'
    rw [hnew.len]
    split
    · exact hnew.resize _ seqno seqno'
    · exact hnew
  unfold placeCells
  dsimp only
  generalize (if (line.updateLastChangeSeqno seqno).len < _ then _ else _) = wide at hwide ⊢
  generalize (if (line'.updateLastChangeSeqno seqno').len < _ then _ else _) = wide' at hwide ⊢
  rw [hwide.vec]
  split
  · exact .error _
  · exact .ok ((hwide.setCells _).fillRange _ _ _ seqno seqno')

theorem Twin.copyRow (margins : Span Nat) (attr : CellAttributes) (src dest : Nat) :
    Both Twin (s.copyRow graphemes margins seqno attr src dest)
      (s'.copyRow graphemes margins seqno' attr src dest) := by
  unfold Screen.copyRow
  have hline := forall₂_getElem? h.lines src
  generalize s.lines[src]? = line at hline ⊢
  generalize s'.lines[src]? = line' at hline ⊢
  cases hline with
  | none => exact .error _
  | some htwin =>
    dsimp only
    rw [htwin.vec]
    split
    · exact .error _
    · refine (h.vecLine src).bind fun s1 s1' h1 => ?_
      exact h1.modifyLine dest fun _ _ hdest => twin_placeCells hdest margins _ attr

theorem Twin.blankRow (margins : Span Nat) (attr : CellAttributes) (row : Nat) :
    Both Twin (s.blankRow graphemes margins seqno attr row)
      (s'.blankRow graphemes margins seqno' attr row) := by
  refine h.modifyLine row fun line line' hline => ?_
  split
  · exact .error _
  · have hnew := hline.update seqno seqno'
    dsimp only
    rw [hnew.vec]
    exact .ok (hnew.setCells _)

theorem Twin.scrollUpWithinMargins (region : Span Int) (margins : Span Nat)
    (numRows : Nat) (attr : CellAttributes) (bidi : BidiMode) :
    Both Twin (s.scrollUpWithinMargins graphemes region margins numRows seqno attr bidi)
      (s'.scrollUpWithinMargins graphemes region margins numRows seqno' attr bidi) := by
  unfold Screen.scrollUpWithinMargins
  dsimp only
  rw [h.cols, h.physRange]
  split
  · exact h.scrollUp region numRows attr bidi
  · split
    · exact .error _
    · refine Both.bind (both_rowsFrom (fun i _ _ hs => hs.copyRow margins attr _ i) h)
        fun s1 s1' h1 => ?_
      exact both_rowsFrom (fun i _ _ hs => hs.blankRow margins attr i) h1

theorem Twin.scrollDownWithinMargins (region : Span Int) (margins : Span Nat)
    (numRows : Nat) (attr : CellAttributes) (bidi : BidiMode) :
    Both Twin (s.scrollDownWithinMargins graphemes region margins numRows seqno attr bidi)
      (s'.scrollDownWithinMargins graphemes region margins numRows seqno' attr bidi) := by
  unfold Screen.scrollDownWithinMargins
  dsimp only
  rw [h.cols, h.physRange]
  split
  · exact h.scrollDown region numRows attr bidi
  · split
    · exact .error _
    · refine Both.bind (both_rowsFrom (fun i _ _ hs => hs.copyRow margins attr _ _) h)
        fun s1 s1' h1 => ?_
      exact both_rowsFrom (fun i _ _ hs => hs.blankRow margins attr i) h1

end Screen

end Wakterm.Term
