import Mathlib.Data.List.TakeWhile
import Wakterm.Term.Logic.Clusters

/-!
# Lines that are wrapped and joined again

`breakRows` are the rows that cells are broken into, each as long as the width allows.
-/

namespace Wakterm.Term

/-! ## Cells without their columns -/

/-- The cell without its column. -/
def CellRef.unplaced (c : CellRef) : CellRef := { c with cellIndex := 0 }

def CellRef.setWrapped (c : CellRef) (wrapped : Bool) : CellRef :=
  { c with attrs := c.attrs.setWrapped wrapped }

/-- The same cells, regardless of their columns. -/
def Same (a b : List CellRef) : Prop := a.map CellRef.unplaced = b.map CellRef.unplaced

section Same

variable {a b c d : List CellRef}

theorem Same.refl (a : List CellRef) : Same a a := rfl

theorem Same.symm (h : Same a b) : Same b a := Eq.symm h

theorem Same.trans (h : Same a b) (h' : Same b c) : Same a c := Eq.trans h h'

theorem Same.append (h : Same a b) (h' : Same c d) : Same (a ++ c) (b ++ d) := by
  unfold Same at *
  rw [List.map_append, List.map_append, h, h']

theorem Same.map_eq {β : Type} (h : Same a b) (f : CellRef → β) (hf : ∀ c, f c.unplaced = f c) :
    a.map f = b.map f := by
  have hmap := congrArg (List.map f) h
  rw [List.map_map, List.map_map] at hmap
  have hcomp : f ∘ CellRef.unplaced = f := funext hf
  rw [hcomp] at hmap
  exact hmap

theorem Same.columns (h : Same a b) : columns a = columns b := by
  have hwidth := h.map_eq CellRef.width fun _ => rfl
  unfold Term.columns
  rw [hwidth]

theorem Same.text (h : Same a b) : a.flatMap CellRef.text = b.flatMap CellRef.text := by
  have htext := h.map_eq CellRef.text fun _ => rfl
  rw [List.flatMap_def, List.flatMap_def, htext]

theorem Same.eq_nil (h : Same a []) : a = [] := List.map_eq_nil_iff.mp h

theorem Same.getLast? {β : Type} (h : Same a b) (f : CellRef → β) (hf : ∀ c, f c.unplaced = f c) :
    a.getLast?.map f = b.getLast?.map f := by
  rw [← List.getLast?_map, ← List.getLast?_map, h.map_eq f hf]

theorem Same.eq_of_chain {idx : Nat} (h : Same a b) (ha : Chain idx a) (hb : Chain idx b) :
    a = b := by
  induction a generalizing idx b with
  | nil => exact h.symm.eq_nil.symm
  | cons c a ih =>
    cases b with
    | nil => cases h
    | cons d b =>
      obtain ⟨hcell, hrest⟩ := List.cons.inj h
      obtain ⟨ci, ct, cw, ca⟩ := c
      obtain ⟨di, dt, dw, da⟩ := d
      obtain ⟨-, rfl, rfl, rfl⟩ := CellRef.mk.inj hcell
      obtain rfl : ci = idx := ha.1
      obtain rfl : di = ci := hb.1
      rw [ih hrest ha.2 hb.2]

end Same

/-- The last of the cells is marked as wrapped or not. -/
def setLastWrapped (wrapped : Bool) (row : List CellRef) : List CellRef :=
  row.dropLast ++ (row.getLast?.map fun c => c.setWrapped wrapped).toList

section SetLastWrapped

variable {wrapped : Bool} {row row' : List CellRef} {c : CellRef}

theorem setLastWrapped_concat (wrapped : Bool) (row : List CellRef) (c : CellRef) :
    setLastWrapped wrapped (row ++ [c]) = row ++ [c.setWrapped wrapped] := by
  unfold setLastWrapped
  rw [List.dropLast_concat, List.getLast?_concat]
  rfl

theorem row_cases (row : List CellRef) : row = [] ∨ ∃ front c, row = front ++ [c] := by
  rcases List.eq_nil_or_concat row with h | ⟨front, c, h⟩
  · exact .inl h
  · exact .inr ⟨front, c, by rw [h, List.concat_eq_append]⟩

theorem setLastWrapped_twice (w w' : Bool) (row : List CellRef) :
    setLastWrapped w (setLastWrapped w' row) = setLastWrapped w row := by
  rcases row_cases row with rfl | ⟨front, c, rfl⟩
  · rfl
  · rw [setLastWrapped_concat, setLastWrapped_concat, setLastWrapped_concat]
    rfl

theorem map_setLastWrapped {β : Type} (f : CellRef → β) (hf : ∀ c w, f (CellRef.setWrapped c w) = f c) :
    (setLastWrapped wrapped row).map f = row.map f := by
  rcases row_cases row with rfl | ⟨front, c, rfl⟩
  · rfl
  · rw [setLastWrapped_concat, List.map_append, List.map_append, List.map_singleton,
      List.map_singleton, hf]

theorem Same.setLastWrapped (h : Same row row') (wrapped : Bool) :
    Same (setLastWrapped wrapped row) (setLastWrapped wrapped row') := by
  rcases row_cases row with rfl | ⟨front, c, rfl⟩
  · rw [h.symm.eq_nil]
    exact .refl _
  · rcases row_cases row' with rfl | ⟨front', c', rfl⟩
    · have hnil := h.eq_nil
      simp at hnil
    · rw [setLastWrapped_concat, setLastWrapped_concat]
      unfold Same at h ⊢
      rw [List.map_append, List.map_append] at h ⊢
      obtain ⟨hfront, hlast⟩ := List.append_inj' h rfl
      have hcell : c.unplaced = c'.unplaced := List.head_eq_of_cons_eq hlast
      have hmarked : (c.setWrapped wrapped).unplaced = (c'.setWrapped wrapped).unplaced :=
        congrArg (fun c => CellRef.setWrapped c wrapped) hcell
      rw [hfront, List.map_singleton, List.map_singleton, hmarked]

end SetLastWrapped

/-! ## Marks on runs -/

namespace ClusteredLine

theorem Stores.setLastCellWasWrapped {cl : ClusteredLine} {front : List CellRef} {c : CellRef}
    (h : cl.Stores (front ++ [c])) (hwidth : cl.lastCellWidth = some c.width)
    (graphemes : Graphemes) (wrapped : Bool) :
    (cl.setLastCellWasWrapped graphemes wrapped).Stores (front ++ [c.setWrapped wrapped]) ∧
      (cl.setLastCellWasWrapped graphemes wrapped).lastCellWidth = some c.width := by
  have hone : ∀ c : CellRef, columns [c] = c.width := by
    intro c
    rw [columns_cons]
    rfl
  have hcompute : cl.computeLastCellWidth graphemes = some c.width := by
    unfold computeLastCellWidth
    rw [hwidth]
    rfl
  obtain ⟨last, hlast⟩ : ∃ last, cl.clusters.getLast? = some last := by
    cases hlast : cl.clusters.getLast? with
    | some last => exact ⟨last, rfl⟩
    | none =>
      have hnil := h.runs.eq_nil_iff.mp (List.getLast?_eq_none_iff.mp hlast)
      simp at hnil
  have hmarked : ∀ d ∈ [c.setWrapped wrapped], d.attrs = c.attrs.setWrapped wrapped := by
    intro d hd
    rw [List.mem_singleton.mp hd]
    rfl
  -- the last run ends with the cell
  obtain ⟨upper, run, hcells, hupper, hne, hattrs, hrunWidth⟩ := h.runs.last_inv hlast
  obtain ⟨run, d, rfl⟩ := (row_cases run).resolve_left hne
  rw [← List.append_assoc] at hcells
  obtain ⟨rfl, hd⟩ := List.append_inj' hcells rfl
  obtain rfl : c = d := List.head_eq_of_cons_eq hd
  rw [columns_append, hone] at hrunWidth
  have hsame : c.attrs = last.attrs := hattrs c (List.mem_append_right _ (List.mem_singleton.mpr rfl))
  have hruns : Runs (if last.cellWidth = c.width then
        cl.clusters.dropLast ++ [{ last with attrs := last.attrs.setWrapped wrapped }]
      else cl.clusters.dropLast ++ [{ last with cellWidth := last.cellWidth - c.width },
        ⟨c.width, last.attrs.setWrapped wrapped⟩])
      (upper ++ run ++ [c.setWrapped wrapped]) := by
    have hcell := Runs.single (List.cons_ne_nil _ _) hmarked
    rw [hone, hsame] at hcell
    split
    · next hwhole =>
      -- it is the only cell of the run
      have hnone : run = [] := by
        by_contra hsome
        have hpos := columns_pos hsome
        omega
      subst hnone
      rw [List.append_nil]
      rw [hwhole]
      exact hupper.append hcell
    · next hpart =>
      have hsome : run ≠ [] := by
        rintro rfl
        exact hpart (by rw [hrunWidth]; exact Nat.zero_add _)
      have hrest := Runs.single hsome fun e he => hattrs e (List.mem_append_left _ he)
      rw [hrunWidth, Nat.add_sub_cancel, List.append_assoc]
      exact hupper.append (hrest.append hcell)
  unfold ClusteredLine.setLastCellWasWrapped
  dsimp only
  rw [hcompute, hlast]
  refine ⟨⟨?_, ?_, ?_, h.within, ?_, hruns⟩, rfl⟩
  · obtain ⟨hfront, hchain⟩ := chain_append.mp h.chain
    exact chain_append.mpr ⟨hfront, hchain.1, trivial⟩
  · show cl.text = _
    rw [h.text]
    simp [CellRef.setWrapped]
  · intro e he
    rcases List.mem_append.mp he with he | he
    · exact h.wide e (List.mem_append_left _ he)
    · rw [List.mem_singleton.mp he]
      exact h.wide c (List.mem_append_right _ (List.mem_singleton.mpr rfl))
  · show cl.len = _
    rw [h.len, columns_append _ [c], columns_append _ [c.setWrapped wrapped], hone, hone]
    rfl

end ClusteredLine

/-! ## What a line of runs holds -/

/-- The line is one of runs that stores the cells, in columns of its own, and knows the width of the
last one. Nothing was found in it yet. -/
structure Line.Holds (line : Line) (row : List CellRef) : Prop where
  stores : ∃ cl cells, line.cells = .C cl ∧ cl.Stores cells ∧ Same cells row ∧
    cl.lastCellWidth = row.getLast?.map CellRef.width
  unscanned : line.bits.scannedImplicitHyperlinks = false ∧
    line.bits.hasImplicitHyperlinks = false

/-- The texts of the cells, strung together, fall into the same graphemes again. -/
def Segmented (graphemes : Graphemes) (row : List CellRef) : Prop :=
  graphemes (row.flatMap CellRef.text) = row.map CellRef.text

section Holds

variable {graphemes : Graphemes} {line other : Line} {row row' : List CellRef} {seqno : Nat}

theorem holds_new (seqno : Nat) : (Line.new seqno).Holds [] :=
  ⟨⟨.new, [], rfl, ClusteredLine.stores_new, .refl [], rfl⟩, rfl, rfl⟩

theorem Line.Holds.len (h : line.Holds row) : line.len = columns row := by
  obtain ⟨cl, cells, hcl, hstores, hsame, -⟩ := h.stores
  unfold Line.len
  rw [hcl, ← hsame.columns]
  exact hstores.len

theorem Line.Holds.visibleCells (h : line.Holds row) (hseg : Segmented graphemes row) :
    Same (line.visibleCells graphemes) row ∧ Chain 0 (line.visibleCells graphemes) := by
  obtain ⟨cl, cells, hcl, hstores, hsame, -⟩ := h.stores
  have hread : cl.iter graphemes = cells := by
    refine ClusteredLine.Reads.iter ⟨hstores, ?_⟩
    rw [hstores.text, hsame.text, hseg]
    exact (hsame.map_eq CellRef.text fun _ => rfl).symm
  unfold Line.visibleCells
  rw [hcl]
  show Same (cl.iter graphemes) row ∧ Chain 0 (cl.iter graphemes)
  rw [hread]
  exact ⟨hsame, hstores.chain⟩

theorem Line.Holds.lastCellWasWrapped (h : line.Holds row) (hseg : Segmented graphemes row) :
    line.lastCellWasWrapped graphemes =
      ((row.getLast?.map fun c => c.attrs.wrapped).getD false) := by
  unfold Line.lastCellWasWrapped
  rw [(h.visibleCells hseg).1.getLast? (fun c => c.attrs.wrapped) fun _ => rfl]

theorem invalidate_unscanned {line : Line} (h : line.bits.scannedImplicitHyperlinks = false ∧
    line.bits.hasImplicitHyperlinks = false) (seqno : Nat) :
    line.invalidateImplicitHyperlinks graphemes seqno = line := by
  unfold Line.invalidateImplicitHyperlinks
  rw [h.1, h.2]
  rfl

theorem fillOut_self (cl : ClusteredLine) : Line.fillOut cl cl.len = cl := by
  unfold Line.fillOut
  rw [Nat.sub_self]
  rfl

theorem Line.Holds.put (h : line.Holds row) (graphemes : Graphemes) (c : CellRef) {idx : Nat}
    (hidx : idx = columns row) (seqno : Nat) :
    (line.setCellGrapheme graphemes idx c.text c.wide c.attrs seqno).Holds (row ++ [c]) := by
  obtain ⟨cl, cells, hcl, hstores, hsame, -⟩ := h.stores
  have hlen : idx = cl.len := by rw [hidx, hstores.len, hsame.columns]
  obtain ⟨cellStorage, s, bits⟩ := line
  obtain rfl : cellStorage = .C cl := hcl
  subst hlen
  unfold Line.setCellGrapheme
  dsimp only
  rw [if_neg (by omega), fillOut_self, if_pos rfl]
  rw [invalidate_unscanned (by exact h.unscanned)]
  refine ⟨⟨_, _, rfl, hstores.appendGrapheme c.text c.wide c.attrs, ?_, ?_⟩, h.unscanned⟩
  · exact hsame.append rfl
  · rw [List.getLast?_concat]
    rfl

theorem Line.Holds.mark (h : line.Holds row) (graphemes : Graphemes) (hrow : row ≠ [])
    (wrapped : Bool) (seqno : Nat) :
    (line.setLastCellWasWrapped graphemes wrapped seqno).Holds (setLastWrapped wrapped row) := by
  obtain ⟨cl, cells, hcl, hstores, hsame, hwidth⟩ := h.stores
  obtain ⟨front, c, rfl⟩ := (row_cases cells).resolve_left (by
    rintro rfl
    exact hrow hsame.symm.eq_nil)
  rw [← hsame.getLast? CellRef.width fun _ => rfl, List.getLast?_concat] at hwidth
  obtain ⟨hmarked, hlast⟩ := hstores.setLastCellWasWrapped hwidth graphemes wrapped
  have hlen : cl.len ≠ 0 := by
    rw [hstores.len]
    exact Nat.ne_of_gt (columns_pos (by simp))
  obtain ⟨cellStorage, s, bits⟩ := line
  obtain rfl : cellStorage = .C cl := hcl
  unfold Line.setLastCellWasWrapped Line.updateLastChangeSeqno
  dsimp only
  rw [if_neg hlen]
  have hrow' := hsame.setLastWrapped wrapped
  rw [setLastWrapped_concat] at hrow'
  refine ⟨⟨_, _, rfl, hmarked, hrow', ?_⟩, h.unscanned⟩
  rw [hlast, ← hrow'.getLast? CellRef.width fun _ => rfl, List.getLast?_concat]
  rfl

theorem Line.Holds.appendLine (h : line.Holds row)
    (hclean : ∀ c ∈ other.visibleCells graphemes, defang c.text = c.text) (seqno : Nat) :
    (line.appendLine graphemes other seqno).Holds (row ++ other.visibleCells graphemes) := by
  have hfold : ∀ (others : List CellRef), (∀ c ∈ others, defang c.text = c.text) →
      ∀ (cl : ClusteredLine) (cells row : List CellRef), cl.Stores cells → Same cells row →
      cl.lastCellWidth = row.getLast?.map CellRef.width →
      ∃ cells', (others.foldl (fun cl other => cl.append (CellRef.asCell other)) cl).Stores cells' ∧
        Same cells' (row ++ others) ∧
        (others.foldl (fun cl other => cl.append (CellRef.asCell other)) cl).lastCellWidth =
          (row ++ others).getLast?.map CellRef.width := by
    intro others
    induction others with
    | nil =>
      intro _ cl cells row hstores hsame hwidth
      rw [List.append_nil]
      exact ⟨cells, hstores, hsame, hwidth⟩
    | cons c others ih =>
      intro hclean cl cells row hstores hsame hwidth
      have hnext := hstores.appendGrapheme c.text c.wide c.attrs
      have hplaced : Same [cl.nextCell c.text c.wide c.attrs] [c] := rfl
      have hmore := ih (fun d hd => hclean d (List.mem_cons_of_mem c hd))
        (cl.append c.asCell) _ (row ++ [c]) ?_ (hsame.append hplaced) ?_
      · rw [List.append_assoc] at hmore
        exact hmore
      · show (cl.appendGrapheme (defang c.text) c.wide c.attrs).Stores _
        rw [hclean c List.mem_cons_self]
        exact hnext
      · rw [List.getLast?_concat]
        rfl
  obtain ⟨cl, cells, hcl, hstores, hsame, hwidth⟩ := h.stores
  obtain ⟨cells', hstores', hsame', hwidth'⟩ := hfold _ hclean cl cells row hstores hsame hwidth
  obtain ⟨cellStorage, s, bits⟩ := line
  obtain rfl : cellStorage = .C cl := hcl
  exact ⟨⟨_, cells', rfl, hstores', hsame', hwidth'⟩, h.unscanned⟩

end Holds

/-! ## Rows -/

/-- The rows that cells are broken into, behind those of the row that is open. -/
def breakRows (width : Nat) : List CellRef → List CellRef → List (List CellRef)
  | row, [] => [row]
  | row, c :: cells =>
    if width < columns row + c.width then row :: breakRows width [c] cells
    else breakRows width (row ++ [c]) cells

/-- The rows that cells are broken into. -/
def rowsOf (width : Nat) : List CellRef → List (List CellRef)
  | [] => []
  | c :: cells => breakRows width [c] cells

/-- The visible cells without the spaces at the end. -/
def Line.shown (graphemes : Graphemes) (line : Line) : List CellRef :=
  ((line.visibleCells graphemes).reverse.dropWhile fun c => c.text = space).reverse

/-- No row but the last ends with a mark. -/
def unmarkRows (rows : List (List CellRef)) : List (List CellRef) :=
  rows.dropLast.map (setLastWrapped false) ++ rows.getLast?.toList

/-- The lines hold the rows, and all but the last are marked as wrapped. -/
inductive Pieces : List Line → List (List CellRef) → Prop
  | last {line : Line} {row : List CellRef} (hne : row ≠ []) (h : line.Holds row) :
      Pieces [line] [row]
  | cons {line : Line} {row : List CellRef} {lines : List Line} {rows : List (List CellRef)}
      (hne : row ≠ []) (h : line.Holds (setLastWrapped true row)) (hrest : Pieces lines rows) :
      Pieces (line :: lines) (row :: rows)

section Rows

variable {width : Nat} {row cells : List CellRef}

theorem flatten_breakRows (width : Nat) (row cells : List CellRef) :
    (breakRows width row cells).flatten = row ++ cells := by
  induction cells generalizing row with
  | nil => simp [breakRows]
  | cons c cells ih =>
    rw [breakRows]
    split
    · rw [List.flatten_cons, ih]
      rfl
    · rw [ih, List.append_assoc]
      rfl

theorem flatten_rowsOf (width : Nat) (cells : List CellRef) : (rowsOf width cells).flatten = cells := by
  cases cells with
  | nil => rfl
  | cons c cells => exact flatten_breakRows width [c] cells

theorem breakRows_fit (hrow : columns row ≤ width) (hcells : ∀ c ∈ cells, c.width ≤ width)
    {r : List CellRef} (hr : r ∈ breakRows width row cells) : columns r ≤ width := by
  induction cells generalizing row with
  | nil =>
    rw [List.mem_singleton.mp hr]
    exact hrow
  | cons c cells ih =>
    have hone : columns [c] = c.width := by
      rw [columns_cons]
      rfl
    have hrest := fun d hd => hcells d (List.mem_cons_of_mem c hd)
    rw [breakRows] at hr
    split at hr
    · rcases List.mem_cons.mp hr with rfl | hr
      · exact hrow
      · exact ih (hone ▸ hcells c List.mem_cons_self) hrest hr
    · refine ih ?_ hrest hr
      rw [columns_append, hone]
      omega

theorem rowsOf_fit (hcells : ∀ c ∈ cells, c.width ≤ width) {r : List CellRef}
    (hr : r ∈ rowsOf width cells) : columns r ≤ width := by
  cases cells with
  | nil => cases hr
  | cons c cells =>
    have hone : columns [c] = c.width := by
      rw [columns_cons]
      rfl
    exact breakRows_fit (hone ▸ hcells c List.mem_cons_self)
      (fun d hd => hcells d (List.mem_cons_of_mem c hd)) hr

theorem map_unmarkRows {β : Type} (f : CellRef → β) (hf : ∀ c w, f (CellRef.setWrapped c w) = f c)
    (rows : List (List CellRef)) : (unmarkRows rows).flatten.map f = rows.flatten.map f := by
  have hmap : ∀ rows : List (List CellRef),
      (rows.map (setLastWrapped false)).flatten.map f = rows.flatten.map f := by
    intro rows
    rw [List.map_flatten, List.map_flatten, List.map_map]
    refine congrArg List.flatten (List.map_congr_left ?_)
    intro row _
    exact map_setLastWrapped f hf
  unfold unmarkRows
  rcases List.eq_nil_or_concat rows with rfl | ⟨front, row, rfl⟩
  · rfl
  · rw [List.concat_eq_append, List.dropLast_concat, List.getLast?_concat, List.flatten_append,
      List.map_append, hmap, ← List.map_append, ← List.flatten_append]
    rfl

variable {rows : List (List CellRef)}

theorem unmarkRows_cons (row : List CellRef) (h : rows ≠ []) :
    unmarkRows (row :: rows) = setLastWrapped false row :: unmarkRows rows := by
  unfold unmarkRows
  rw [List.dropLast_cons_of_ne_nil h, List.getLast?_cons_of_ne_nil h]
  rfl

theorem tail_unmarkRows (rows : List (List CellRef)) :
    (unmarkRows rows).tail = unmarkRows rows.tail := by
  cases rows with
  | nil => rfl
  | cons row rows =>
    by_cases h : rows = []
    · rw [h]
      rfl
    · rw [unmarkRows_cons row h]
      rfl

theorem forall_unmarkRows {p : List CellRef → Prop} (hp : ∀ r, p r → p (setLastWrapped false r))
    (h : ∀ r ∈ rows, p r) : ∀ r ∈ unmarkRows rows, p r := by
  induction rows with
  | nil =>
    intro r hr
    cases hr
  | cons row rows ih =>
    have hrest := ih fun r hr => h r (List.mem_cons_of_mem _ hr)
    by_cases hnil : rows = []
    · subst hnil
      exact h
    · intro r hr
      rw [unmarkRows_cons row hnil] at hr
      rcases List.mem_cons.mp hr with rfl | hr
      · exact hp row (h row List.mem_cons_self)
      · exact hrest r hr

theorem unmarkRows_of_unmarked
    (h : ∀ row ∈ rows.dropLast, ∀ c ∈ row.getLast?, c.attrs.wrapped = false) :
    unmarkRows rows = rows := by
  induction rows with
  | nil => rfl
  | cons row rows ih =>
    by_cases hnil : rows = []
    · rw [hnil]
      rfl
    · rw [List.dropLast_cons_of_ne_nil hnil] at h
      rw [unmarkRows_cons row hnil, ih fun r hr => h r (List.mem_cons_of_mem _ hr)]
      rcases row_cases row with rfl | ⟨front, c, rfl⟩
      · rfl
      · have hc := h _ List.mem_cons_self c (by rw [List.getLast?_concat]; rfl)
        have hsame : c.setWrapped false = c := by
          unfold CellRef.setWrapped CellAttributes.setWrapped
          rw [← hc]
        rw [setLastWrapped_concat, hsame]

theorem Chain.congr {idx : Nat} {a b : List CellRef} (h : Chain idx a)
    (hmap : a.map (fun c => (c.cellIndex, c.wide)) = b.map fun c => (c.cellIndex, c.wide)) :
    Chain idx b := by
  induction a generalizing idx b with
  | nil =>
    rw [List.map_eq_nil_iff.mp hmap.symm]
    trivial
  | cons c a ih =>
    cases b with
    | nil => cases hmap
    | cons d b =>
      obtain ⟨hcell, hrest⟩ := List.cons.inj hmap
      obtain ⟨hindex, hwide⟩ := Prod.mk.inj hcell
      have hwidth : c.width = d.width := congrArg cellWidth hwide
      refine ⟨hindex ▸ h.1, ?_⟩
      rw [← hwidth]
      exact ih h.2 hrest

theorem chain_iterFrom (wides : List Nat) (texts : List Text) (clusters : List Cluster)
    (idx total : Nat) : Chain idx (ClusteredLine.iterFrom wides texts clusters idx total) := by
  induction texts generalizing clusters idx total with
  | nil =>
    rw [ClusteredLine.iterFrom]
    trivial
  | cons text texts ih =>
    cases clusters with
    | nil =>
      rw [ClusteredLine.iterFrom]
      trivial
    | cons cluster clusters =>
      rw [ClusteredLine.iterFrom]
      refine ⟨rfl, ?_⟩
      show Chain (idx + cellWidth (wides.contains idx)) _
      split
      · exact ih _ _ _
      · exact ih _ _ _

theorem Line.chain_visibleCells (graphemes : Graphemes) (line : Line) :
    Chain 0 (line.visibleCells graphemes) := by
  obtain ⟨storage, seqno, bits⟩ := line
  cases storage with
  | V cells => exact (chain_visibleFrom cells 0).1
  | C cl => exact chain_iterFrom _ _ _ 0 0

theorem Line.shown_prefix (graphemes : Graphemes) (line : Line) :
    line.shown graphemes <+: line.visibleCells graphemes := by
  have hsuffix := List.dropWhile_suffix (l := (line.visibleCells graphemes).reverse)
    (fun c => decide (c.text = space))
  have hrev := List.reverse_prefix.mpr hsuffix
  rw [List.reverse_reverse] at hrev
  exact hrev

theorem Line.shown_subset (graphemes : Graphemes) (line : Line) :
    line.shown graphemes ⊆ line.visibleCells graphemes := (line.shown_prefix graphemes).subset

theorem Line.shown_ne_nil {graphemes : Graphemes} {line : Line}
    (h : ∃ c ∈ line.visibleCells graphemes, c.text ≠ space) : line.shown graphemes ≠ [] := by
  obtain ⟨c, hc, htext⟩ := h
  unfold shown
  rw [Ne, List.reverse_eq_nil_iff, List.dropWhile_eq_nil_iff]
  intro hall
  exact htext (by simpa using hall c (List.mem_reverse.mpr hc))

theorem Line.chain_shown (graphemes : Graphemes) (line : Line) :
    Chain 0 (line.shown graphemes) := by
  obtain ⟨back, hback⟩ := line.shown_prefix graphemes
  have hchain := line.chain_visibleCells graphemes
  rw [← hback] at hchain
  exact (chain_append.mp hchain).1

end Rows

/-! ## Wrapping -/

section Wrap

variable {graphemes : Graphemes} {width seqno : Nat}

variable {lines : List Line} {line : Line} {row : List CellRef} {rows : List (List CellRef)}

theorem wrapCell_breaks {delta : Nat} {c : CellRef} (h : width < line.len + c.width) :
    Line.wrapCell graphemes width seqno (lines, some (line, delta)) c =
      (lines ++ [line.setLastCellWasWrapped graphemes true seqno],
        some ((Line.new seqno).setCellGrapheme graphemes (c.cellIndex - c.cellIndex) c.text c.wide
          c.attrs seqno, c.cellIndex)) := if_pos h

theorem wrapCell_goesOn {delta : Nat} {c : CellRef} (h : ¬ width < line.len + c.width) :
    Line.wrapCell graphemes width seqno (lines, some (line, delta)) c =
      (lines, some (line.setCellGrapheme graphemes (c.cellIndex - delta) c.text c.wide c.attrs
        seqno, delta)) := if_neg h

/-- The cells of a line are put into pieces, by induction on those that are left. -/
theorem foldl_wrapCell (width seqno : Nat) (lines : List Line) {cells : List CellRef} {delta : Nat}
    (h : line.Holds row) (hne : row ≠ []) (hchain : Chain delta (row ++ cells)) :
    ∃ more last delta', cells.foldl (Line.wrapCell graphemes width seqno)
        (lines, some (line, delta)) = (lines ++ more, some (last, delta')) ∧
      Pieces (more ++ [last]) (breakRows width row cells) := by
  induction cells generalizing row lines line delta with
  | nil => exact ⟨[], line, delta, by rw [List.append_nil]; rfl, .last hne h⟩
  | cons c cells ih =>
    obtain ⟨hrow, hc, hcells⟩ := chain_append.mp hchain
    rw [List.foldl_cons, breakRows]
    by_cases hbreak : width < columns row + c.width
    · rw [if_pos hbreak, wrapCell_breaks (h.len ▸ hbreak)]
      have hnew := (holds_new seqno).put graphemes c
        (show c.cellIndex - c.cellIndex = columns [] from Nat.sub_self _) seqno
      have hbehind : Chain c.cellIndex ([c] ++ cells) := ⟨rfl, by rw [hc]; exact hcells⟩
      obtain ⟨more, last, delta', hfold, hpieces⟩ :=
        ih (lines ++ [line.setLastCellWasWrapped graphemes true seqno]) hnew
          (List.cons_ne_nil _ _) hbehind
      refine ⟨line.setLastCellWasWrapped graphemes true seqno :: more, last, delta', ?_,
        .cons hne (h.mark graphemes hne true seqno) hpieces⟩
      rw [hfold, List.append_assoc]
      rfl
    · rw [if_neg hbreak, wrapCell_goesOn (h.len ▸ hbreak)]
      have hplace : c.cellIndex - delta = columns row := by
        rw [hc]
        omega
      exact ih lines (h.put graphemes c hplace seqno) (by simp) (by rw [List.append_assoc]; exact hchain)

/-- **The lines that `wrap` makes** hold the rows. -/
theorem Line.wrap_pieces (hshown : line.shown graphemes ≠ []) :
    Pieces (line.wrap graphemes width seqno) (rowsOf width (line.shown graphemes)) := by
  have hchain := line.chain_shown graphemes
  obtain ⟨c, cells, hcells⟩ := List.exists_cons_of_ne_nil hshown
  rw [hcells] at hchain
  have hnew := (holds_new seqno).put graphemes c
    (show c.cellIndex - c.cellIndex = columns [] from Nat.sub_self _) seqno
  have hbehind : Chain c.cellIndex ([c] ++ cells) := by
    rw [hchain.1]
    exact hchain
  obtain ⟨more, last, delta', hfold, hpieces⟩ :=
    foldl_wrapCell width seqno [] hnew (List.cons_ne_nil _ _) hbehind
  have hwrap : line.wrap graphemes width seqno = more ++ [last] := by
    have hrun : (line.shown graphemes).foldl (wrapCell graphemes width seqno) ([], none) =
        ([] ++ more, some (last, delta')) := by
      rw [hcells]
      exact hfold
    have hsome : (line.shown graphemes).isEmpty = false := by
      rw [hcells]
      rfl
    unfold shown at hrun hsome
    unfold wrap
    dsimp only
    rw [hsome, hrun]
    rfl
  rw [hwrap, hcells]
  exact hpieces

/-! ## Joining -/

/-- The marks at the ends of all lines but the last are cleared. -/
def clearMarks (graphemes : Graphemes) (seqno : Nat) (lines : List Line) : List Line :=
  lines.dropLast.map (fun line => line.setLastCellWasWrapped graphemes false seqno) ++
    lines.getLast?.toList

/-- The lines are appended to the first one, in order. -/
def joinLines (graphemes : Graphemes) (seqno : Nat) : List Line → Line
  | [] => .new seqno
  | first :: rest => rest.foldl (fun line next => line.appendLine graphemes next seqno) first

/-- The lines hold the rows. -/
abbrev HoldAll (lines : List Line) (rows : List (List CellRef)) : Prop :=
  List.Forall₂ Line.Holds lines rows

theorem Pieces.ne_nil (h : Pieces lines rows) : lines ≠ [] ∧ rows ≠ [] := by
  cases h with
  | last => exact ⟨List.cons_ne_nil _ _, List.cons_ne_nil _ _⟩
  | cons => exact ⟨List.cons_ne_nil _ _, List.cons_ne_nil _ _⟩

theorem Pieces.flatten_ne_nil (h : Pieces lines rows) : rows.flatten ≠ [] := by
  cases h with
  | last hne => simpa using hne
  | cons hne => simp [hne]

theorem Segmented.setLastWrapped (h : Segmented graphemes row) (wrapped : Bool) :
    Segmented graphemes (setLastWrapped wrapped row) := by
  have htext : (Term.setLastWrapped wrapped row).map CellRef.text = row.map CellRef.text :=
    map_setLastWrapped CellRef.text fun _ _ => rfl
  unfold Segmented at *
  rw [List.flatMap_def, htext, ← List.flatMap_def, h]

theorem Pieces.len (h : Pieces lines rows) (hline : line ∈ lines) :
    ∃ row ∈ rows, line.len = columns row := by
  induction h with
  | @last l row _ h =>
    rw [List.mem_singleton.mp hline]
    exact ⟨row, List.mem_singleton.mpr rfl, h.len⟩
  | @cons l row lines rows _ h _ ih =>
    rcases List.mem_cons.mp hline with rfl | hline
    · refine ⟨row, List.mem_cons_self, ?_⟩
      rw [h.len]
      unfold columns
      rw [map_setLastWrapped CellRef.width fun _ _ => rfl]
    · obtain ⟨r, hr, hlen⟩ := ih hline
      exact ⟨r, List.mem_cons_of_mem _ hr, hlen⟩

theorem Pieces.marked (h : Pieces lines rows) (hseg : ∀ row ∈ rows, Segmented graphemes row)
    (hline : line ∈ lines.dropLast) : line.lastCellWasWrapped graphemes = true := by
  induction h with
  | last => cases hline
  | @cons l row lines rows hne h hrest ih =>
    rw [List.dropLast_cons_of_ne_nil hrest.ne_nil.1] at hline
    rcases List.mem_cons.mp hline with rfl | hline
    · rw [h.lastCellWasWrapped ((hseg row List.mem_cons_self).setLastWrapped true)]
      obtain ⟨front, c, rfl⟩ := (row_cases row).resolve_left hne
      rw [setLastWrapped_concat, List.getLast?_concat]
      rfl
    · exact ih (fun r hr => hseg r (List.mem_cons_of_mem _ hr)) hline

theorem Pieces.last_mark (h : Pieces lines rows) (hseg : ∀ row ∈ rows, Segmented graphemes row) :
    lines.getLast?.map (Line.lastCellWasWrapped graphemes) =
      rows.flatten.getLast?.map fun c => c.attrs.wrapped := by
  induction h with
  | @last l row hne h =>
    obtain ⟨front, c, rfl⟩ := (row_cases row).resolve_left hne
    show some (l.lastCellWasWrapped graphemes) = _
    rw [h.lastCellWasWrapped (hseg _ List.mem_cons_self), List.flatten_singleton,
      List.getLast?_concat]
    rfl
  | @cons l row lines rows hne h hrest ih =>
    rw [List.getLast?_cons_of_ne_nil hrest.ne_nil.1,
      ih fun r hr => hseg r (List.mem_cons_of_mem _ hr), List.flatten_cons,
      List.getLast?_append_of_ne_nil]
    exact hrest.flatten_ne_nil

theorem Pieces.clearMarks (h : Pieces lines rows) (graphemes : Graphemes) (seqno : Nat) :
    HoldAll (clearMarks graphemes seqno lines) (unmarkRows rows) := by
  induction h with
  | last _ h => exact .cons h .nil
  | @cons line row lines rows hne h hrest ih =>
    have hunmarked := h.mark graphemes (by
      obtain ⟨front, c, rfl⟩ := (row_cases row).resolve_left hne
      rw [setLastWrapped_concat]
      simp) false seqno
    rw [setLastWrapped_twice] at hunmarked
    have hcons := List.Forall₂.cons hunmarked ih
    unfold Term.clearMarks unmarkRows at hcons ⊢
    rw [List.dropLast_cons_of_ne_nil hrest.ne_nil.1, List.dropLast_cons_of_ne_nil hrest.ne_nil.2,
      List.getLast?_cons_of_ne_nil hrest.ne_nil.1, List.getLast?_cons_of_ne_nil hrest.ne_nil.2]
    exact hcons

theorem Line.Holds.congr {row' : List CellRef} (h : line.Holds row) (hsame : Same row row') :
    line.Holds row' := by
  obtain ⟨⟨cl, cells, hcl, hstores, hcells, hwidth⟩, hplain⟩ := h
  refine ⟨⟨cl, cells, hcl, hstores, hcells.trans hsame, ?_⟩, hplain⟩
  rw [hwidth, hsame.getLast? CellRef.width fun _ => rfl]

/-- **Joined lines** hold the rows one behind the other. -/
theorem holds_joinLines {first : Line} {rest : List Line} (hfirst : first.Holds row)
    (hrest : HoldAll rest rows) (hseg : ∀ r ∈ rows, Segmented graphemes r)
    (hclean : ∀ r ∈ rows, ∀ c ∈ r, defang c.text = c.text) (seqno : Nat) :
    (joinLines graphemes seqno (first :: rest)).Holds (row ++ rows.flatten) := by
  show (rest.foldl _ first).Holds _
  induction hrest generalizing first row with
  | nil =>
    rw [List.flatten_nil, List.append_nil]
    exact hfirst
  | @cons next r rest rows hnext _ ih =>
    have hsame := (hnext.visibleCells (hseg r List.mem_cons_self)).1
    have hclean' : ∀ c ∈ next.visibleCells graphemes, defang c.text = c.text := by
      intro c hc
      have htext : c.text ∈ (next.visibleCells graphemes).map CellRef.text := List.mem_map_of_mem hc
      rw [hsame.map_eq CellRef.text fun _ => rfl] at htext
      obtain ⟨d, hd, hdtext⟩ := List.mem_map.mp htext
      rw [← hdtext]
      exact hclean r List.mem_cons_self d hd
    have hjoined := (hfirst.appendLine hclean' seqno).congr ((Same.refl row).append hsame)
    have hmore := ih hjoined (fun r hr => hseg r (List.mem_cons_of_mem _ hr))
      (fun r hr => hclean r (List.mem_cons_of_mem _ hr))
    rw [List.flatten_cons, ← List.append_assoc]
    exact hmore

theorem Pieces.holds_join (h : Pieces lines rows) (hseg : ∀ row ∈ rows, Segmented graphemes row)
    (hclean : ∀ row ∈ rows.tail, ∀ c ∈ row, defang c.text = c.text) (seqno : Nat) :
    (joinLines graphemes seqno (Term.clearMarks graphemes seqno lines)).Holds
      (unmarkRows rows).flatten := by
  have hall := h.clearMarks graphemes seqno
  have hseg' := forall_unmarkRows (fun _ hr => hr.setLastWrapped false) hseg
  have hclean' : ∀ row ∈ (unmarkRows rows).tail, ∀ c ∈ row, defang c.text = c.text := by
    rw [tail_unmarkRows]
    refine forall_unmarkRows ?_ hclean
    intro row hrow c hc
    have htext : c.text ∈ (setLastWrapped false row).map CellRef.text := List.mem_map_of_mem hc
    rw [map_setLastWrapped CellRef.text fun _ _ => rfl] at htext
    obtain ⟨d, hd, hdtext⟩ := List.mem_map.mp htext
    rw [← hdtext]
    exact hrow d hd
  generalize Term.clearMarks graphemes seqno lines = cleared at hall ⊢
  generalize unmarkRows rows = unmarked at hall hseg' hclean' ⊢
  cases hall with
  | nil => exact holds_new seqno
  | @cons first row rest rows hfirst hrest =>
    exact holds_joinLines hfirst hrest (fun r hr => hseg' r (List.mem_cons_of_mem _ hr)) hclean'
      seqno

end Wrap

end Wakterm.Term
