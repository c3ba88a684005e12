import Mathlib.Algebra.Ring.Nat
import Wakterm.Term.Line

/-!
# What a line shows, and when it changed

Two things are followed through the operations on a line.
-/

namespace Wakterm.Term

theorem cellWidth_pos (wide : Bool) : 0 < cellWidth wide := by
  cases wide <;> decide

/-! ## Columns -/

/-- Visible cells that follow one another from a column on. -/
def Chain : Nat → List CellRef → Prop
  | _, [] => True
  | idx, c :: cells => c.cellIndex = idx ∧ Chain (idx + c.width) cells

theorem chain_visibleFrom (cells : List Cell) (idx : Nat) :
    Chain idx (visibleFrom false idx cells) ∧ Chain (idx + 1) (visibleFrom true idx cells) := by
  induction cells generalizing idx with
  | nil => exact ⟨trivial, trivial⟩
  | cons cell cells ih =>
    refine ⟨⟨rfl, ?_⟩, (ih (idx + 1)).1⟩
    show Chain (idx + cellWidth cell.wide) (visibleFrom cell.wide (idx + 1) cells)
    cases cell.wide with
    | false => exact (ih (idx + 1)).1
    | true => exact (ih (idx + 1)).2

theorem Chain.le_cellIndex {idx : Nat} {cells : List CellRef} (h : Chain idx cells)
    {c : CellRef} (hc : c ∈ cells) : idx ≤ c.cellIndex := by
  induction cells generalizing idx with
  | nil => exact absurd hc List.not_mem_nil
  | cons d cells ih =>
    rcases List.mem_cons.mp hc with rfl | hc
    · exact Nat.le_of_eq h.1.symm
    · exact Nat.le_trans (Nat.le_add_right _ _) (ih h.2 hc)

def wideColumns (cells : List CellRef) : List Nat :=
  (cells.filter CellRef.wide).map CellRef.cellIndex

theorem wideColumns_cons (c : CellRef) (cells : List CellRef) :
    wideColumns (c :: cells) = (if c.wide then [c.cellIndex] else []) ++ wideColumns cells := by
  unfold wideColumns
  rw [List.filter_cons]
  split <;> rfl

theorem Chain.contains_wideColumns {idx : Nat} {cells : List CellRef} (h : Chain idx cells)
    {c : CellRef} (hc : c ∈ cells) : (wideColumns cells).contains c.cellIndex = c.wide := by
  induction cells generalizing idx with
  | nil => exact absurd hc List.not_mem_nil
  | cons d cells ih =>
    have hpos : 0 < d.width := cellWidth_pos d.wide
    have hbehind : ∀ e ∈ cells, d.cellIndex < e.cellIndex := by
      intro e he
      have hle := h.2.le_cellIndex he
      rw [h.1]
      omega
    rw [wideColumns_cons, List.contains_append]
    rcases List.mem_cons.mp hc with rfl | hc
    · -- no cell behind this one has its column
      have hnot : (wideColumns cells).contains c.cellIndex = false := by
        rw [← Bool.not_eq_true, List.contains_iff_mem, wideColumns, List.mem_map]
        rintro ⟨e, he, hcol⟩
        exact absurd hcol.symm (Nat.ne_of_lt (hbehind e (List.mem_of_mem_filter he)))
      rw [hnot]
      cases c.wide <;> simp
    · rw [ih h.2 hc]
      have hne : c.cellIndex ≠ d.cellIndex := Nat.ne_of_gt (hbehind c hc)
      cases d.wide <;> simp [hne]

/-! ## Runs -/

/-- The columns of some cells. -/
def columns (cells : List CellRef) : Nat := (cells.map CellRef.width).sum

theorem columns_cons (c : CellRef) (cells : List CellRef) :
    columns (c :: cells) = c.width + columns cells := by
  unfold columns
  rw [List.map_cons, List.sum_cons]

namespace ClusteredLine

theorem runsFrom_some (cells : List CellRef) {w : Nat} {a : CellAttributes}
    (hfit : w + columns cells < 2 ^ 16) :
    ∃ more tail, runsFrom (some ⟨w, a⟩) cells = ⟨w + more, a⟩ :: tail := by
  induction cells generalizing w with
  | nil => exact ⟨0, [], rfl⟩
  | cons c cells ih =>
    rw [columns_cons] at hfit
    rw [runsFrom]
    split
    · next ha =>
      rw [Nat.mod_eq_of_lt (show w + c.width < 2 ^ 16 by omega)]
      obtain ⟨more, tail, htail⟩ := ih (w := w + c.width) (by omega)
      refine ⟨c.width + more, tail, ?_⟩
      rw [htail, Nat.add_assoc]
    · exact ⟨0, _, rfl⟩

/-- What is read behind a cell: the rest of its run, or the next one. -/
def readOn (wides : List Nat) (texts : List Text) (clusters : List Cluster) (idx total : Nat) :
    List CellRef :=
  match clusters with
  | [] => []
  | cluster :: rest =>
    if cluster.cellWidth ≤ total then iterFrom wides texts rest idx 0
    else iterFrom wides texts (cluster :: rest) idx total

theorem iterFrom_cons (wides : List Nat) (text : Text) (texts : List Text) (cluster : Cluster)
    (clusters : List Cluster) (idx total : Nat) :
    iterFrom wides (text :: texts) (cluster :: clusters) idx total =
      ⟨idx, text, wides.contains idx, cluster.attrs⟩ ::
        readOn wides texts (cluster :: clusters) (idx + cellWidth (wides.contains idx))
          (total + cellWidth (wides.contains idx)) := rfl

theorem readOn_runsFrom (wides : List Nat) {idx t : Nat} {a : CellAttributes}
    {cells : List CellRef} (hchain : Chain idx cells)
    (hwide : ∀ c ∈ cells, wides.contains c.cellIndex = c.wide) (hfit : t + columns cells < 2 ^ 16) :
    readOn wides (cells.map CellRef.text) (runsFrom (some ⟨t, a⟩) cells) idx t = cells := by
  induction cells generalizing idx t a with
  | nil =>
    show (if t ≤ t then iterFrom wides [] [] idx 0 else _) = []
    rw [if_pos (Nat.le_refl _)]
    rfl
  | cons c cells ih =>
    have hcontains : wides.contains idx = c.wide := by
      rw [← hchain.1]
      exact hwide c List.mem_cons_self
    have hcell : (⟨idx, c.text, c.wide, c.attrs⟩ : CellRef) = c := by
      rw [← hchain.1]
    rw [columns_cons] at hfit
    have htail := fun (w : Nat) (b : CellAttributes) (hw : w + columns cells < 2 ^ 16) =>
      ih (t := w) (a := b) hchain.2 (fun d hd => hwide d (List.mem_cons_of_mem _ hd)) hw
    rw [List.map_cons, runsFrom]
    by_cases ha : a = c.attrs
    · -- the run goes on
      subst ha
      rw [if_pos rfl, Nat.mod_eq_of_lt (show t + c.width < 2 ^ 16 by omega)]
      have hnext := htail (t + c.width) c.attrs (by omega)
      obtain ⟨more, tail, hruns⟩ := runsFrom_some cells (w := t + c.width) (a := c.attrs)
        (by omega)
      have hpos : 0 < c.width := cellWidth_pos c.wide
      rw [hruns] at hnext ⊢
      rw [readOn, if_neg (by show ¬ t + c.width + more ≤ t; omega), iterFrom_cons,
        hcontains, hcell]
      exact congrArg (c :: ·) hnext
    · -- a new run begins with this cell
      rw [if_neg ha, readOn, if_pos (Nat.le_refl _)]
      have hnext := htail c.width c.attrs (by omega)
      obtain ⟨more, tail, hruns⟩ := runsFrom_some cells (w := c.width) (a := c.attrs) (by omega)
      rw [hruns] at hnext ⊢
      rw [iterFrom_cons, hcontains, hcell, Nat.zero_add]
      exact congrArg (c :: ·) hnext

/-- **Runs are read back.** Cells of a line, made into runs, are the cells that are read from
them, where the text falls into the same graphemes again. -/
theorem iter_fromCellVec {graphemes : Graphemes} {cells : List CellRef}
    (hchain : Chain 0 cells) (hfit : columns cells < 2 ^ 16)
    (htext : graphemes (cells.flatMap CellRef.text) = cells.map CellRef.text) :
    (fromCellVec cells).iter graphemes = cells := by
  have hwide : ∀ c ∈ cells, (wideColumns cells).contains c.cellIndex = c.wide :=
    fun c hc => hchain.contains_wideColumns hc
  show iterFrom (wideColumns cells) (graphemes (cells.flatMap CellRef.text)) (runsFrom none cells)
    0 0 = cells
  rw [htext]
  cases cells with
  | nil => rfl
  | cons c cells =>
    -- the first cell begins the first run
    have hcell : (⟨0, c.text, c.wide, c.attrs⟩ : CellRef) = c := by
      rw [← hchain.1]
    have hcontains := hwide c List.mem_cons_self
    rw [hchain.1] at hcontains
    rw [columns_cons] at hfit
    have hnext := readOn_runsFrom (wideColumns (c :: cells)) (a := c.attrs) hchain.2
      (fun d hd => hwide d (List.mem_cons_of_mem _ hd)) hfit
    obtain ⟨more, tail, hruns⟩ := runsFrom_some cells (a := c.attrs) hfit
    rw [runsFrom]
    rw [hruns] at hnext ⊢
    rw [List.map_cons, iterFrom_cons, hcontains, hcell]
    refine congrArg (c :: ·) ?_
    rw [Nat.zero_add] at hnext ⊢
    exact hnext

end ClusteredLine

namespace Line

variable {graphemes : Graphemes} {line : Line} {seqno : Nat}

/-- Can the line be made into runs and read back? Its text has to fall into the same graphemes
again, and the columns of a run are counted with 16 bits. -/
def Readable (graphemes : Graphemes) (line : Line) : Prop :=
  match line.cells with
  | .V cells =>
    let refs := visibleFrom false 0 cells
    graphemes (refs.flatMap CellRef.text) = refs.map CellRef.text ∧ columns refs < 2 ^ 16
  | .C _ => True

theorem visibleCells_compress (h : line.Readable graphemes) :
    line.compressForScrollback.visibleCells graphemes = line.visibleCells graphemes := by
  obtain ⟨storage, seqno, bits⟩ := line
  cases storage with
  | V cells =>
    exact ClusteredLine.iter_fromCellVec (chain_visibleFrom cells 0).1 h.2 h.1
  | C cl => rfl

/-- What a line shows. -/
def content (graphemes : Graphemes) (line : Line) : List CellRef × LineBits :=
  (line.visibleCells graphemes, line.bits)

theorem seqno_compress (line : Line) : line.compressForScrollback.seqno = line.seqno := by
  obtain ⟨storage, seqno, bits⟩ := line
  cases storage <;> rfl

theorem content_compress (h : line.Readable graphemes) :
    line.compressForScrollback.content graphemes = line.content graphemes := by
  have hvisible := visibleCells_compress h
  unfold content
  rw [hvisible]
  obtain ⟨storage, seqno, bits⟩ := line
  cases storage <;> rfl

/-! ## Sequence numbers -/

@[simp] theorem seqno_update (line : Line) (seqno : Nat) :
    (line.updateLastChangeSeqno seqno).seqno = max line.seqno seqno := rfl

theorem seqno_setLastCellWasWrapped (wrapped : Bool) :
    (line.setLastCellWasWrapped graphemes wrapped seqno).seqno = max line.seqno seqno := by
  unfold setLastCellWasWrapped
  dsimp only
  split
  · rfl
  · split <;> rfl

theorem seqno_appendLine (other : Line) :
    (line.appendLine graphemes other seqno).seqno = max line.seqno seqno := by
  unfold appendLine
  dsimp only
  split <;> rfl

theorem seqno_invalidate (graphemes : Graphemes) (line : Line) (seqno : Nat) :
    line.seqno ≤ (line.invalidateImplicitHyperlinks graphemes seqno).seqno := by
  unfold invalidateImplicitHyperlinks
  split
  · exact Nat.le_refl _
  · dsimp only
    split
    · exact Nat.le_refl _
    · exact Nat.le_max_left _ _

theorem seqno_setCellImpl (line : Line) (seqno idx : Nat) (cell : Cell) (clear : Bool) :
    max line.seqno seqno ≤ (line.setCellImpl graphemes idx cell clear seqno).seqno := by
  have hmono : line.seqno ≤ (line.invalidateImplicitHyperlinks graphemes seqno).seqno :=
    seqno_invalidate graphemes line seqno
  have hbase : max line.seqno seqno ≤
      ((line.invalidateImplicitHyperlinks graphemes seqno).updateLastChangeSeqno seqno).seqno := by
    rw [seqno_update]
    omega
  unfold setCellImpl
  dsimp only
  split
  · exact hbase
  · split
    · exact hbase
    · split <;> exact hbase

theorem seqno_setCellGrapheme (line : Line) (idx : Nat) (text : Text) (wide : Bool)
    (attr : CellAttributes) :
    line.seqno ≤ (line.setCellGrapheme graphemes idx text wide attr seqno).seqno := by
  unfold setCellGrapheme setCell
  dsimp only
  split
  · refine Nat.le_trans ?_ (seqno_setCellImpl _ _ _ _ _)
    exact Nat.le_max_left _ _
  · split
    · exact Nat.le_refl _
    · split
      · rw [seqno_update]
        refine Nat.le_trans (Nat.le_trans ?_ (seqno_invalidate _ _ _)) (Nat.le_max_left _ _)
        exact Nat.le_refl _
      · refine Nat.le_trans ?_ (seqno_setCellImpl _ _ _ _ _)
        exact Nat.le_max_left _ _

theorem seqno_insertCell {x rightMargin : Nat} {cell : Cell} {line' : Line}
    (h : line.insertCell graphemes x cell rightMargin seqno = .ok line') : seqno ≤ line'.seqno := by
  unfold insertCell at h
  dsimp only at h
  split at h
  · cases h
  · cases h
    exact Nat.le_max_right _ _

theorem seqno_eraseCellWithMargin {x rightMargin : Nat} {attr : CellAttributes} {line' : Line}
    (h : line.eraseCellWithMargin graphemes x rightMargin seqno attr = .ok line') :
    seqno ≤ line'.seqno := by
  unfold eraseCellWithMargin at h
  dsimp only at h
  split at h
  · cases h
  · split at h
    · split at h
      · cases h
      · cases h
        exact Nat.le_max_right _ _
    · cases h
      exact Nat.le_max_right _ _

end Line

theorem ClusteredLine.pruneLoop_false (n : Nat) (cl : ClusteredLine) :
    (pruneLoop n cl false).2 = true ∨ (pruneLoop n cl false).1 = cl := by
  have htrue : ∀ n cl, (pruneLoop n cl true).2 = true := by
    intro n
    induction n with
    | zero =>
      intro cl
      rfl
    | succ n ih =>
      intro cl
      rw [pruneLoop]
      split
      · exact ih cl
      · split
        · rfl
        · exact ih _
  induction n with
  | zero => exact .inr rfl
  | succ n ih =>
    rw [pruneLoop]
    split
    · exact ih
    · split
      · exact .inr rfl
      · exact .inl (htrue _ _)

namespace Line

variable {graphemes : Graphemes} {line : Line} {seqno : Nat}

theorem pruneTrailingBlanks_kept (line : Line) (seqno : Nat) :
    max line.seqno seqno ≤ (line.pruneTrailingBlanks seqno).seqno ∨
      line.pruneTrailingBlanks seqno = line := by
  obtain ⟨storage, n, bits⟩ := line
  unfold pruneTrailingBlanks
  cases storage with
  | C cl =>
    dsimp only
    rcases ClusteredLine.pruneLoop_false (cl.text.reverse.takeWhile (· = ' ')).length cl
      with hpruned | hsame
    · left
      rw [ClusteredLine.pruneTrailingBlanks, hpruned]
      exact Nat.le_refl _
    · rw [ClusteredLine.pruneTrailingBlanks, hsame]
      split
      · exact .inl (Nat.le_refl _)
      · exact .inr rfl
  | V cells =>
    dsimp only
    split
    · exact .inr rfl
    · exact .inl (Nat.le_refl _)

theorem seqno_pruneTrailingBlanks (line : Line) (seqno : Nat) :
    line.seqno ≤ (line.pruneTrailingBlanks seqno).seqno := by
  rcases pruneTrailingBlanks_kept line seqno with h | h
  · exact Nat.le_trans (Nat.le_max_left _ _) h
  · rw [h]

theorem fillRange_kept (graphemes : Graphemes) (line : Line) (start stop : Nat) (cell : Cell)
    (seqno : Nat) : seqno ≤ (line.fillRange graphemes start stop cell seqno).seqno ∨
      line.fillRange graphemes start stop cell seqno = line := by
  unfold fillRange
  split
  · exact .inr rfl
  · have hfold : ∀ (xs : List Nat) (l : Line), seqno ≤ l.seqno →
        seqno ≤ (xs.foldl (fun line x => line.setCellImpl graphemes x cell true seqno) l).seqno := by
      intro xs
      induction xs with
      | nil => exact fun l hl => hl
      | cons x xs ih =>
        intro l hl
        exact ih _ (Nat.le_trans (Nat.le_max_right _ _) (seqno_setCellImpl _ _ x cell true))
    cases List.range' start (stop - start) with
    | nil =>
      rcases pruneTrailingBlanks_kept line seqno with h | h
      · exact .inl (Nat.le_trans (Nat.le_max_right _ _) h)
      · exact .inr h
    | cons x xs =>
      left
      refine Nat.le_trans ?_ (seqno_pruneTrailingBlanks _ _)
      exact hfold xs _ (Nat.le_trans (Nat.le_max_right _ _) (seqno_setCellImpl _ _ x cell true))

theorem seqno_fillRange (graphemes : Graphemes) (line : Line) (start stop : Nat) (cell : Cell)
    (seqno : Nat) : line.seqno ≤ (line.fillRange graphemes start stop cell seqno).seqno := by
  unfold fillRange
  split
  · exact Nat.le_refl _
  · have hfold : ∀ (xs : List Nat) (l : Line), l.seqno ≤
        (xs.foldl (fun line x => line.setCellImpl graphemes x cell true seqno) l).seqno := by
      intro xs
      induction xs with
      | nil => exact fun l => Nat.le_refl _
      | cons x xs ih =>
        intro l
        refine Nat.le_trans ?_ (ih _)
        exact Nat.le_trans (Nat.le_max_left _ _) (seqno_setCellImpl l seqno x cell true)
    exact Nat.le_trans (hfold _ _) (seqno_pruneTrailingBlanks _ _)

theorem seqno_wrap {width : Nat} (hline : seqno ≤ line.seqno) {piece : Line}
    (h : piece ∈ line.wrap graphemes width seqno) : seqno ≤ piece.seqno := by
  have hnew : ∀ idx (c : CellRef), seqno ≤
      ((new seqno).setCellGrapheme graphemes idx c.text c.wide c.attrs seqno).seqno := fun idx c =>
    seqno_setCellGrapheme (new seqno) idx c.text c.wide c.attrs
  have hfold : ∀ (cells : List CellRef) (acc : List Line × Option (Line × Nat)),
      (∀ l ∈ acc.1 ++ (acc.2.map Prod.fst).toList, seqno ≤ l.seqno) →
      ∀ l ∈ (cells.foldl (wrapCell graphemes width seqno) acc).1 ++
        ((cells.foldl (wrapCell graphemes width seqno) acc).2.map Prod.fst).toList,
        seqno ≤ l.seqno := by
    intro cells
    induction cells with
    | nil => exact fun acc hacc => hacc
    | cons c cells ih =>
      intro acc hacc
      refine ih _ ?_
      obtain ⟨lines, last⟩ := acc
      cases last with
      | none =>
        intro l hl
        rcases List.mem_append.mp hl with hl | hl
        · exact hacc l (List.mem_append_left _ hl)
        · obtain rfl : l = _ := by simpa [wrapCell] using hl
          exact hnew _ _
      | some last =>
        obtain ⟨line, delta⟩ := last
        have hlast : seqno ≤ line.seqno := hacc line (List.mem_append_right _ (by simp))
        intro l hl
        unfold wrapCell at hl
        dsimp only at hl
        split at hl
        · rcases List.mem_append.mp hl with hl | hl
          · rcases List.mem_append.mp hl with hl | hl
            · exact hacc l (List.mem_append_left _ hl)
            · obtain rfl := List.mem_singleton.mp hl
              rw [seqno_setLastCellWasWrapped]
              exact Nat.le_max_right _ _
          · obtain rfl : l = _ := by simpa using hl
            exact hnew _ _
        · rcases List.mem_append.mp hl with hl | hl
          · exact hacc l (List.mem_append_left _ hl)
          · obtain rfl : l = _ := by simpa using hl
            exact Nat.le_trans hlast (seqno_setCellGrapheme _ _ _ _ _)
  unfold wrap at h
  dsimp only at h
  split at h
  · rw [List.mem_singleton.mp h]
    exact hline
  · exact hfold _ ([], none) (by simp) piece h

end Line

end Wakterm.Term
