import Wakterm.Term.Logic.Line

/-!
# What a line of runs stores

`Stores` relates the text, the runs, the wide columns and the length of a `ClusteredLine` to the
cells that were put there.
-/

namespace Wakterm.Term

theorem columns_append (a b : List CellRef) : columns (a ++ b) = columns a + columns b := by
  unfold columns
  rw [List.map_append, List.sum_append]

theorem chain_append {idx : Nat} {a b : List CellRef} :
    Chain idx (a ++ b) ↔ Chain idx a ∧ Chain (idx + columns a) b := by
  induction a generalizing idx with
  | nil => exact ⟨fun h => ⟨trivial, h⟩, fun h => h.2⟩
  | cons c a ih =>
    rw [List.cons_append, columns_cons, ← Nat.add_assoc]
    show (c.cellIndex = idx ∧ Chain (idx + c.width) (a ++ b)) ↔
      (c.cellIndex = idx ∧ Chain (idx + c.width) a) ∧ _
    rw [ih, and_assoc]

variable {a b clusters : List Cluster} {cells : List CellRef}

theorem Chain.cellIndex_add_le {idx : Nat} (h : Chain idx cells) {c : CellRef} (hc : c ∈ cells) :
    c.cellIndex + c.width ≤ idx + columns cells := by
  induction cells generalizing idx with
  | nil => exact absurd hc List.not_mem_nil
  | cons d cells ih =>
    rw [columns_cons]
    rcases List.mem_cons.mp hc with rfl | hc
    · have hidx := h.1
      omega
    · have hle := ih h.2 hc
      omega

theorem columns_pos (h : cells ≠ []) : 0 < columns cells := by
  cases cells with
  | nil => exact absurd rfl h
  | cons c cells =>
    have hpos := cellWidth_pos c.wide
    rw [columns_cons]
    show 0 < cellWidth c.wide + columns cells
    omega

/-- The runs are those of the cells: each is made of whole cells that all have its attributes. -/
inductive Runs : List Cluster → List CellRef → Prop
  | nil : Runs [] []
  | cons {attrs : CellAttributes} {run : List CellRef} {clusters : List Cluster}
      {cells : List CellRef} : run ≠ [] → (∀ c ∈ run, c.attrs = attrs) → Runs clusters cells →
      Runs (⟨columns run, attrs⟩ :: clusters) (run ++ cells)

theorem Runs.append {cells' : List CellRef} (h : Runs a cells) (h' : Runs b cells') :
    Runs (a ++ b) (cells ++ cells') := by
  induction h with
  | nil => exact h'
  | cons hne hattrs _ ih =>
    rw [List.append_assoc]
    exact .cons hne hattrs ih

theorem Runs.append_inv (h : Runs (a ++ b) cells) :
    ∃ front back, cells = front ++ back ∧ Runs a front ∧ Runs b back := by
  induction a generalizing cells with
  | nil => exact ⟨[], cells, rfl, .nil, h⟩
  | cons cluster a ih =>
    cases h with
    | @cons attrs run _ cells hne hattrs hrest =>
      obtain ⟨front, back, rfl, h1, h2⟩ := ih hrest
      refine ⟨run ++ front, back, ?_, .cons hne hattrs h1, h2⟩
      rw [List.append_assoc]

theorem Runs.single {run : List CellRef} {attrs : CellAttributes} (hne : run ≠ [])
    (hattrs : ∀ c ∈ run, c.attrs = attrs) : Runs [⟨columns run, attrs⟩] run := by
  have h := Runs.cons hne hattrs Runs.nil
  rwa [List.append_nil] at h

theorem Runs.last_inv (h : Runs clusters cells) {last : Cluster}
    (hlast : clusters.getLast? = some last) :
    ∃ front run, cells = front ++ run ∧ Runs clusters.dropLast front ∧ run ≠ [] ∧
      (∀ c ∈ run, c.attrs = last.attrs) ∧ last.cellWidth = columns run := by
  obtain ⟨ks, rfl⟩ := List.getLast?_eq_some_iff.mp hlast
  obtain ⟨front, run, rfl, hfront, hrun⟩ := h.append_inv
  rw [List.dropLast_concat]
  cases hrun with
  | @cons attrs run clusters cells hne hattrs hnil =>
    cases hnil
    rw [List.append_nil]
    exact ⟨front, run, rfl, hfront, hne, hattrs, rfl⟩

theorem Runs.eq_nil_iff (h : Runs clusters cells) : clusters = [] ↔ cells = [] := by
  cases h with
  | nil => exact ⟨fun _ => rfl, fun _ => rfl⟩
  | @cons attrs run clusters cells hne _ _ =>
    constructor
    · intro hnil
      cases hnil
    · intro hnil
      exact absurd (List.append_eq_nil_iff.mp hnil).1 hne

theorem Runs.appendRun (h : Runs clusters cells) (c : CellRef) :
    Runs (ClusteredLine.appendRun clusters c.width c.attrs) (cells ++ [c]) := by
  have hone : Runs [⟨c.width, c.attrs⟩] [c] := by
    have hsingle : Runs [⟨columns [c], c.attrs⟩] [c] := by
      refine .single (List.cons_ne_nil _ _) ?_
      intro d hd
      rw [List.mem_singleton.mp hd]
    have hwidth : columns [c] = c.width := by
      rw [columns_cons]
      rfl
    rwa [hwidth] at hsingle
  unfold ClusteredLine.appendRun
  split
  · next hnone =>
    rw [List.getLast?_eq_none_iff] at hnone
    rw [h.eq_nil_iff.mp hnone]
    exact hone
  · next last hlast =>
    split
    · exact h.append hone
    · next hgrows =>
      -- the last run grows by the cell
      obtain ⟨front, run, rfl, hfront, hne, hattrs, hwidth⟩ := h.last_inv hlast
      rw [not_or, not_not] at hgrows
      have hrun : Runs [⟨columns (run ++ [c]), last.attrs⟩] (run ++ [c]) := by
        refine .single (by simp) ?_
        intro d hd
        rcases List.mem_append.mp hd with hd | hd
        · exact hattrs d hd
        · rw [List.mem_singleton.mp hd, hgrows.1]
      have hcolumns : columns (run ++ [c]) = last.cellWidth + c.width := by
        rw [columns_append, columns_cons, hwidth]
        rfl
      rw [hcolumns] at hrun
      rw [List.append_assoc]
      exact hfront.append hrun

namespace ClusteredLine

variable {cells : List CellRef} {cl : ClusteredLine}

theorem iterFrom_run (wides : List Nat) {attrs : CellAttributes} {clusters : List Cluster}
    {run : List CellRef} {idx total w : Nat} (hne : run ≠ []) (hattrs : ∀ c ∈ run, c.attrs = attrs)
    (hw : total + columns run = w) (hchain : Chain idx run)
    (hwide : ∀ c ∈ run, wides.contains c.cellIndex = c.wide) :
    iterFrom wides ((run ++ cells).map CellRef.text) (⟨w, attrs⟩ :: clusters) idx total =
      run ++ iterFrom wides (cells.map CellRef.text) clusters (idx + columns run) 0 := by
  induction run generalizing idx total with
  | nil => exact absurd rfl hne
  | cons c run ih =>
    have hcontains : wides.contains idx = c.wide := by
      rw [← hchain.1]
      exact hwide c List.mem_cons_self
    have hcell : (⟨idx, c.text, c.wide, attrs⟩ : CellRef) = c := by
      rw [← hchain.1, ← hattrs c List.mem_cons_self]
    rw [columns_cons] at hw
    have hcw : cellWidth c.wide = c.width := rfl
    rw [List.cons_append, List.map_cons, iterFrom, hcontains, hcell]
    dsimp only
    rw [List.cons_append]
    refine congrArg (c :: ·) ?_
    by_cases hlast : run = []
    · subst hlast
      have hnone : columns [] = 0 := rfl
      rw [if_pos (show w ≤ total + cellWidth c.wide by omega), columns_cons, hnone, Nat.add_zero]
      rfl
    · have hpos := columns_pos hlast
      rw [if_neg (show ¬ w ≤ total + cellWidth c.wide by omega), columns_cons, ← Nat.add_assoc]
      exact ih hlast (fun d hd => hattrs d (List.mem_cons_of_mem _ hd)) (by omega) hchain.2
        fun d hd => hwide d (List.mem_cons_of_mem _ hd)

theorem iterFrom_runs (wides : List Nat) {clusters : List Cluster} (h : Runs clusters cells)
    {idx : Nat} (hchain : Chain idx cells)
    (hwide : ∀ c ∈ cells, wides.contains c.cellIndex = c.wide) :
    iterFrom wides (cells.map CellRef.text) clusters idx 0 = cells := by
  induction h generalizing idx with
  | nil => rfl
  | @cons attrs run clusters cells hne hattrs _ ih =>
    obtain ⟨hrun, hrest⟩ := chain_append.mp hchain
    rw [iterFrom_run wides hne hattrs (Nat.zero_add _) hrun
      fun c hc => hwide c (List.mem_append_left _ hc)]
    rw [ih hrest fun c hc => hwide c (List.mem_append_right _ hc)]

/-- The line stores the cells. -/
structure Stores (cl : ClusteredLine) (cells : List CellRef) : Prop where
  chain : Chain 0 cells
  text : cl.text = cells.flatMap CellRef.text
  wide : ∀ c ∈ cells, cl.isDoubleWide.contains c.cellIndex = c.wide
  within : ∀ i ∈ cl.isDoubleWide, i < cl.len
  len : cl.len = columns cells
  runs : Runs cl.clusters cells

/-- The line stores the cells, and its text falls into their graphemes. -/
structure Reads (graphemes : Graphemes) (cl : ClusteredLine) (cells : List CellRef) :
    Prop extends Stores cl cells where
  segments : graphemes cl.text = cells.map CellRef.text

theorem Reads.iter {graphemes : Graphemes} (h : Reads graphemes cl cells) :
    cl.iter graphemes = cells := by
  unfold ClusteredLine.iter
  rw [h.segments]
  exact iterFrom_runs cl.isDoubleWide h.runs h.chain h.wide

theorem stores_new : Stores new [] :=
  ⟨trivial, rfl, fun _ h => absurd h List.not_mem_nil, fun _ h => absurd h List.not_mem_nil, rfl,
    .nil⟩

/-- The cell that `append_grapheme` puts at the end. -/
def nextCell (cl : ClusteredLine) (text : Text) (wide : Bool) (attrs : CellAttributes) : CellRef :=
  ⟨cl.len, text, wide, attrs⟩

theorem Stores.appendGrapheme (h : Stores cl cells) (text : Text) (wide : Bool)
    (attrs : CellAttributes) :
    Stores (cl.appendGrapheme text wide attrs) (cells ++ [cl.nextCell text wide attrs]) := by
  have hpos := cellWidth_pos wide
  have hcolumns : columns [cl.nextCell text wide attrs] = cellWidth wide := by
    rw [columns_cons]
    rfl
  have hbelow : ∀ c ∈ cells, c.cellIndex < cl.len := by
    intro c hc
    have hle := h.chain.cellIndex_add_le hc
    have hcpos := cellWidth_pos c.wide
    have hlen := h.len
    have hcw : c.width = cellWidth c.wide := rfl
    omega
  refine ⟨?_, ?_, ?_, ?_, ?_, ?_⟩
  · refine chain_append.mpr ⟨h.chain, ?_, trivial⟩
    rw [Nat.zero_add, ← h.len]
    rfl
  · show cl.text ++ text = _
    rw [h.text, List.flatMap_append]
    simp [nextCell]
  · intro c hc
    show (if wide then cl.isDoubleWide ++ [cl.len] else cl.isDoubleWide).contains c.cellIndex = _
    rcases List.mem_append.mp hc with hc | hc
    · have hne := Nat.ne_of_lt (hbelow c hc)
      rw [← h.wide c hc]
      cases wide with
      | false => rfl
      | true => simp [hne]
    · rw [List.mem_singleton.mp hc]
      show _ = wide
      cases wide with
      | false =>
        show cl.isDoubleWide.contains cl.len = false
        rw [← Bool.not_eq_true, List.contains_iff_mem]
        intro hin
        exact Nat.lt_irrefl _ (h.within _ hin)
      | true => simp [nextCell]
  · intro i hi
    have hi : i ∈ (if wide then cl.isDoubleWide ++ [cl.len] else cl.isDoubleWide) := hi
    show i < cl.len + cellWidth wide
    cases wide with
    | false =>
      have hlt := h.within i hi
      omega
    | true =>
      rcases List.mem_append.mp hi with hi | hi
      · have hlt := h.within i hi
        omega
      · rw [List.mem_singleton.mp hi]
        omega
  · show cl.len + cellWidth wide = _
    rw [columns_append, hcolumns, h.len]
  · exact h.runs.appendRun (cl.nextCell text wide attrs)

theorem Stores.dropBlank {c : CellRef} (h : Stores cl (cells ++ [c])) (htext : c.text = space)
    (hwide : c.wide = false) {last : Cluster} (hlast : cl.clusters.getLast? = some last)
    (width : Option Nat) :
    Stores
      { cl with
        text := cl.text.dropLast
        clusters :=
          if last.cellWidth - 1 = 0 then cl.clusters.dropLast
          else cl.clusters.dropLast ++ [{ last with cellWidth := last.cellWidth - 1 }]
        len := cl.len - 1
        lastCellWidth := width }
      cells := by
  obtain ⟨hchain, hstep⟩ := chain_append.mp h.chain
  have hone : columns [c] = 1 := by
    rw [columns_cons]
    show cellWidth c.wide + 0 = 1
    rw [hwide]
    rfl
  have hlen : cl.len = columns cells + 1 := by
    rw [h.len, columns_append, hone]
  refine ⟨hchain, ?_, fun d hd => h.wide d (List.mem_append_left _ hd), ?_, ?_, ?_⟩
  · show cl.text.dropLast = _
    rw [h.text, List.flatMap_append, List.flatMap_cons, htext]
    exact List.dropLast_concat
  · intro i hi
    show i < cl.len - 1
    have hi : i ∈ cl.isDoubleWide := hi
    have hlt := h.within i hi
    have hne : i ≠ columns cells := by
      rintro rfl
      have hnot := h.wide c (List.mem_append_right _ (List.mem_singleton.mpr rfl))
      rw [hstep.1, Nat.zero_add, hwide, ← Bool.not_eq_true, List.contains_iff_mem] at hnot
      exact hnot hi
    omega
  · show cl.len - 1 = _
    omega
  · obtain ⟨front, run, hcells, hfront, hne, hattrs, hwidth⟩ := h.runs.last_inv hlast
    -- the cell is the last one of the last run
    obtain ⟨run, d, rfl⟩ := List.eq_nil_or_concat run |>.resolve_left hne
    rw [List.concat_eq_append, ← List.append_assoc] at hcells
    obtain ⟨rfl, hd⟩ := List.append_inj' hcells rfl
    obtain rfl : c = d := List.head_eq_of_cons_eq hd
    rw [List.concat_eq_append, columns_append, hone] at hwidth
    rw [hwidth, Nat.add_sub_cancel]
    show Runs (if columns run = 0 then cl.clusters.dropLast else _) _
    split
    · next hzero =>
      cases run with
      | nil =>
        rw [List.append_nil]
        exact hfront
      | cons e run => exact absurd hzero (Nat.ne_of_gt (columns_pos (List.cons_ne_nil _ _)))
    · next hsome =>
      refine hfront.append (.single ?_ ?_)
      · rintro rfl
        exact hsome rfl
      · intro e he
        exact hattrs e (by rw [List.concat_eq_append]; exact List.mem_append_left _ he)

theorem Stores.pruneLoop {front back : List CellRef} {b : Bool} (h : Stores cl (front ++ back))
    (hback : ∀ c ∈ back, c.text = space ∧ c.wide = false) : ∃ kept gone, back = kept ++ gone ∧
      Stores (ClusteredLine.pruneLoop back.length cl b).1 (front ++ kept) := by
  induction hn : back.length generalizing cl back b with
  | zero =>
    obtain rfl := List.eq_nil_of_length_eq_zero hn
    exact ⟨[], [], rfl, h⟩
  | succ n ih =>
    obtain ⟨back, c, rfl⟩ := (List.eq_nil_or_concat back).resolve_left (by
      rintro rfl
      cases hn)
    rw [List.concat_eq_append] at h hback hn
    rw [List.length_append, List.length_singleton, Nat.add_right_cancel_iff] at hn
    rw [List.concat_eq_append]
    unfold ClusteredLine.pruneLoop
    split
    · next hnone =>
      rw [List.getLast?_eq_none_iff] at hnone
      have hnil := h.runs.eq_nil_iff.mp hnone
      simp at hnil
    · next last hlast =>
      split
      · exact ⟨back ++ [c], [], (List.append_nil _).symm, h⟩
      · rw [← List.append_assoc] at h
        obtain ⟨htext, hwide⟩ := hback c (List.mem_append_right _ (List.mem_singleton.mpr rfl))
        obtain ⟨kept, gone, rfl, hkept⟩ := ih (b := true) (h.dropBlank htext hwide hlast none)
          (fun d hd => hback d (List.mem_append_left _ hd)) hn
        refine ⟨kept, gone ++ [c], ?_, hkept⟩
        rw [List.append_assoc]

end ClusteredLine

end Wakterm.Term
