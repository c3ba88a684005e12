import Wakterm.Term.Logic.Clusters

/-!
# Clusters of cells

`CellCluster` of `wakterm-surface`: visible cells that are shaped together, with the column and the
width of the cell that each byte of their text came from.
-/

namespace Wakterm.Term

inductive Presentation where
  | text | emoji
  deriving DecidableEq

/-- `text.len()`, in bytes. -/
def byteLen (text : Text) : Nat := (text.map Char.utf8Size).sum

structure CellCluster where
  attrs : CellAttributes
  text : Text
  width : Nat
  presentation : Presentation
  byteToCellIdxVec : List Nat
  byteToCellWidthVec : List Nat
  firstCellIdx : Nat

namespace CellCluster

def byteToCellIdx (cl : CellCluster) (byteIdx : Nat) : Option Nat :=
  if cl.byteToCellIdxVec.isEmpty then some (cl.firstCellIdx + byteIdx)
  else cl.byteToCellIdxVec[byteIdx]?

def byteToCellWidth (cl : CellCluster) (byteIdx : Nat) : Option Nat :=
  if cl.byteToCellWidthVec.isEmpty then some 1 else cl.byteToCellWidthVec[byteIdx]?

def new (presentation : Presentation) (attrs : CellAttributes) (text : Text) (cellIdx width : Nat) :
    CellCluster where
  attrs := attrs
  text := text
  width := width
  presentation := presentation
  byteToCellIdxVec := if 1 < byteLen text then List.replicate (byteLen text) cellIdx else []
  byteToCellWidthVec := if 1 < width then List.replicate (byteLen text) width else []
  firstCellIdx := cellIdx

def add (cl : CellCluster) (text : Text) (cellIdx width : Nat) : CellCluster :=
  { cl with
    width := cl.width + width
    byteToCellIdxVec :=
      if !cl.byteToCellIdxVec.isEmpty then
        cl.byteToCellIdxVec ++ List.replicate (byteLen text) cellIdx
      else if 1 < byteLen text then
        (List.range (byteLen cl.text)).map (fun n => n + cl.firstCellIdx) ++
          List.replicate (byteLen text) cellIdx
      else cl.byteToCellIdxVec
    byteToCellWidthVec :=
      if !cl.byteToCellWidthVec.isEmpty then
        cl.byteToCellWidthVec ++ List.replicate (byteLen text) width
      else if 1 < width then
        List.replicate (byteLen cl.text) 1 ++ List.replicate (byteLen text) width
      else cl.byteToCellWidthVec
    text := cl.text ++ text }

end CellCluster

section MakeCluster

variable (variationMap : Text → Option (Presentation × Presentation))
  (emojiPresentation : Char → Bool)

def Presentation.forGrapheme (text : Text) : Presentation × Option Presentation :=
  match variationMap text with
  | some (a, b) => (a, some b)
  | none => (if text.any emojiPresentation then .emoji else .text, none)

def CellRef.presentation (c : CellRef) : Presentation :=
  match Presentation.forGrapheme variationMap emojiPresentation c.text with
  | (_, some variation) => variation
  | (presentation, none) => presentation

/-- The attributes without the mark for a wrapped line. -/
def CellRef.normalizedAttr (c : CellRef) : CellAttributes :=
  if c.attrs.wrapped then c.attrs.setWrapped false else c.attrs

/-- What the loop knows of the spaces: how many there are in a row, and whether the cluster has
nothing else. -/
structure Whitespace where
  run : Nat
  only : Bool

namespace Whitespace

/-- A cluster begins. -/
def start (text : Text) : Whitespace := ⟨if text = space then 1 else 0, text = space⟩

/-- A cell goes on like those before: is it to begin a cluster nevertheless? -/
def next (bidiHint : Bool) (w : Whitespace) (text : Text) : Bool × Whitespace :=
  let wasWhitespace := 0 < w.run
  let run := if text = space then w.run + 1 else 0
  let only := if text = space then w.only else false
  let forceBreak := (!only && 2 < run) || (!only && !bidiHint && wasWhitespace)
  if forceBreak then (true, ⟨if 0 < run then 1 else run, text = space⟩) else (false, ⟨run, only⟩)

end Whitespace

/-- `CellCluster::new` for a cell. -/
def CellRef.newCluster (c : CellRef) : CellCluster :=
  .new (c.presentation variationMap emojiPresentation) c.normalizedAttr c.text c.cellIndex c.width

def CellCluster.differs (last : CellCluster) (c : CellRef) : Bool :=
  last.attrs ≠ c.normalizedAttr ∨
    last.presentation ≠ c.presentation variationMap emojiPresentation

/-- The loop of `make_cluster`, with the cluster that is pending. -/
def clusterFrom (bidiHint : Bool) : CellCluster → Whitespace → List CellRef → List CellCluster
  | last, _, [] => [last]
  | last, w, c :: cells =>
    if last.differs variationMap emojiPresentation c then
      last :: clusterFrom bidiHint (c.newCluster variationMap emojiPresentation)
        (.start c.text) cells
    else
      let (forceBreak, w) := w.next bidiHint c.text
      if forceBreak then
        last :: clusterFrom bidiHint (c.newCluster variationMap emojiPresentation) w cells
      else clusterFrom bidiHint (last.add c.text c.cellIndex c.width) w cells

def makeCluster : List CellRef → List CellCluster
  | [] => []
  | c :: cells =>
    clusterFrom variationMap emojiPresentation false
      (c.newCluster variationMap emojiPresentation) (.start c.text) cells

end MakeCluster

/-! ## What a cluster is made of -/

/-- The cells that the bytes of a text come from. -/
def bytesOf (cells : List CellRef) : List CellRef :=
  cells.flatMap fun c => List.replicate (byteLen c.text) c

def CellRef.oneByte (c : CellRef) : Bool := byteLen c.text ≤ 1

/-- The column that a cluster begins at. -/
def firstColumn (group : List CellRef) : Nat := (group.head?.map CellRef.cellIndex).getD 0

/-- The columns of the bytes as they are noted down: they are counted up to the first cell of more
than one byte, if there is one. -/
def idxMap (group : List CellRef) : List Nat :=
  if (group.dropWhile CellRef.oneByte).isEmpty then []
  else (List.range (byteLen ((group.takeWhile CellRef.oneByte).flatMap CellRef.text))).map
      (fun n => n + firstColumn group) ++
    (bytesOf (group.dropWhile CellRef.oneByte)).map CellRef.cellIndex

/-- The widths of the bytes as they are noted down, if there is a wide cell. -/
def widthMap (group : List CellRef) : List Nat :=
  if group.all fun c => !c.wide then [] else (bytesOf group).map CellRef.width

/-- The cluster is made of the cells. -/
structure Built (cl : CellCluster) (group : List CellRef) : Prop where
  text : cl.text = group.flatMap CellRef.text
  width : cl.width = columns group
  first : cl.firstCellIdx = firstColumn group
  idx : cl.byteToCellIdxVec = idxMap group
  widths : cl.byteToCellWidthVec = widthMap group

section Built

variable {cl : CellCluster} {group cells : List CellRef} {c : CellRef}

theorem byteLen_append (a b : Text) : byteLen (a ++ b) = byteLen a + byteLen b := by
  unfold byteLen
  rw [List.map_append, List.sum_append]

theorem byteLen_pos {text : Text} (h : text ≠ []) : 0 < byteLen text := by
  obtain ⟨c, rest, rfl⟩ := List.exists_cons_of_ne_nil h
  have hpos := c.utf8Size_pos
  unfold byteLen
  rw [List.map_cons, List.sum_cons]
  omega

theorem bytesOf_append (a b : List CellRef) : bytesOf (a ++ b) = bytesOf a ++ bytesOf b :=
  List.flatMap_append

theorem bytesOf_singleton (c : CellRef) : bytesOf [c] = List.replicate (byteLen c.text) c :=
  List.flatMap_singleton _ c

theorem length_bytesOf (cells : List CellRef) :
    (bytesOf cells).length = byteLen (cells.flatMap CellRef.text) := by
  induction cells with
  | nil => rfl
  | cons c cells ih =>
    unfold bytesOf at ih ⊢
    rw [List.flatMap_cons, List.flatMap_cons, List.length_append, List.length_replicate, ih,
      byteLen_append]

theorem mem_of_byte {n : Nat} (h : (bytesOf cells)[n]? = some c) : c ∈ cells := by
  obtain ⟨d, hd, hc⟩ := List.mem_flatMap.mp (List.mem_of_getElem? h)
  rw [(List.mem_replicate.mp hc).2]
  exact hd

theorem built_new (presentation : Presentation) (attrs : CellAttributes) (c : CellRef) :
    Built (.new presentation attrs c.text c.cellIndex c.width) [c] := by
  have hwidth : columns [c] = c.width := by
    rw [columns_cons]
    rfl
  refine ⟨List.append_nil c.text |>.symm, hwidth.symm, rfl, ?_, ?_⟩
  · show (if 1 < byteLen c.text then _ else _) = idxMap [c]
    unfold idxMap
    by_cases hone : byteLen c.text ≤ 1
    · have hc : c.oneByte = true := decide_eq_true hone
      rw [if_neg (Nat.not_lt.mpr hone)]
      simp [hc]
    · have hc : c.oneByte = false := decide_eq_false hone
      rw [if_pos (Nat.not_le.mp hone)]
      simp [hc, bytesOf_singleton, byteLen]
  · show (if 1 < c.width then _ else _) = widthMap [c]
    unfold widthMap CellRef.width
    cases hwide : c.wide with
    | false => simp [hwide, cellWidth]
    | true => simp [hwide, cellWidth, bytesOf_singleton]

theorem firstColumn_append (hne : group ≠ []) (c : CellRef) :
    firstColumn (group ++ [c]) = firstColumn group := by
  obtain ⟨d, rest, rfl⟩ := List.exists_cons_of_ne_nil hne
  rfl

theorem idxMap_of_short (h : group.dropWhile CellRef.oneByte = []) : idxMap group = [] := by
  unfold idxMap
  rw [h]
  rfl

theorem idxMap_of_long {d : CellRef} {rest : List CellRef}
    (h : group.dropWhile CellRef.oneByte = d :: rest) : idxMap group =
      (List.range (byteLen ((group.takeWhile CellRef.oneByte).flatMap CellRef.text))).map
          (fun n => n + firstColumn group) ++ (bytesOf (d :: rest)).map CellRef.cellIndex := by
  unfold idxMap
  rw [h]
  rfl

theorem idxMap_isEmpty {d : CellRef} {rest : List CellRef}
    (h : group.dropWhile CellRef.oneByte = d :: rest) : (idxMap group).isEmpty = false := by
  have hd : d.oneByte = false := by
    have hhead := List.head?_dropWhile_not CellRef.oneByte group
    rw [h] at hhead
    exact hhead
  have hlen : 1 < byteLen d.text := Nat.not_le.mp (of_decide_eq_false hd)
  rw [idxMap_of_long h, ← Bool.not_eq_true, List.isEmpty_iff, List.append_eq_nil_iff]
  rintro ⟨-, hnil⟩
  have hbytes := congrArg List.length hnil
  rw [List.length_map, length_bytesOf, List.flatMap_cons, byteLen_append, List.length_nil] at hbytes
  omega

theorem Built.idx_add (h : Built cl group) (hne : group ≠ []) (c : CellRef) :
    (cl.add c.text c.cellIndex c.width).byteToCellIdxVec = idxMap (group ++ [c]) := by
  show (if !cl.byteToCellIdxVec.isEmpty then _ else _) = _
  rw [h.idx]
  have hdrop : (group ++ [c]).dropWhile CellRef.oneByte =
      if (group.dropWhile CellRef.oneByte).isEmpty then [c].dropWhile CellRef.oneByte
      else group.dropWhile CellRef.oneByte ++ [c] := List.dropWhile_append
  cases hrest : group.dropWhile CellRef.oneByte with
  | nil =>
    have htake : group.takeWhile CellRef.oneByte = group := by
      have hsplit := List.takeWhile_append_dropWhile (p := CellRef.oneByte) (l := group)
      rw [hrest, List.append_nil] at hsplit
      exact hsplit
    rw [hrest, if_pos List.isEmpty_nil] at hdrop
    rw [idxMap_of_short hrest]
    by_cases hone : byteLen c.text ≤ 1
    · have hc : c.oneByte = true := decide_eq_true hone
      rw [List.dropWhile_cons_of_pos hc] at hdrop
      rw [idxMap_of_short hdrop, if_neg (by simp), if_neg (Nat.not_lt.mpr hone)]
    · have hc : c.oneByte = false := decide_eq_false hone
      rw [List.dropWhile_cons_of_neg (by simp [hc])] at hdrop
      rw [idxMap_of_long hdrop, firstColumn_append hne, List.takeWhile_append, htake, h.text,
        h.first, bytesOf_singleton]
      simp [hc, Nat.not_le.mp hone]
  | cons d rest =>
    -- there was a cell of more bytes, so the columns are noted down
    have hshort : (group.takeWhile CellRef.oneByte).length ≠ group.length := by
      have hsplit := congrArg List.length
        (List.takeWhile_append_dropWhile (p := CellRef.oneByte) (l := group))
      rw [hrest, List.length_append, List.length_cons] at hsplit
      omega
    rw [hrest, if_neg (by simp), List.cons_append] at hdrop
    rw [idxMap_isEmpty hrest, idxMap_of_long hrest, idxMap_of_long hdrop, firstColumn_append hne,
      List.takeWhile_append, if_neg hshort, ← List.cons_append, bytesOf_append, bytesOf_singleton]
    simp

theorem widthMap_of_narrow (h : ∀ d ∈ group, d.wide = false) : widthMap group = [] := by
  unfold widthMap
  rw [if_pos]
  simpa using h

theorem widthMap_of_wide {d : CellRef} (hd : d ∈ group) (hwide : d.wide = true) :
    widthMap group = (bytesOf group).map CellRef.width := by
  unfold widthMap
  rw [if_neg]
  simpa using ⟨d, hd, hwide⟩

theorem Built.widths_add (h : Built cl group) (htexts : ∀ d ∈ group, d.text ≠ []) (c : CellRef) :
    (cl.add c.text c.cellIndex c.width).byteToCellWidthVec = widthMap (group ++ [c]) := by
  show (if !cl.byteToCellWidthVec.isEmpty then _ else _) = _
  rw [h.widths]
  by_cases hwide : ∃ d ∈ group, d.wide = true
  · obtain ⟨d, hd, hdwide⟩ := hwide
    have hsome : ((bytesOf group).map CellRef.width).isEmpty = false := by
      obtain ⟨n, hn⟩ := Nat.exists_eq_succ_of_ne_zero (Nat.ne_of_gt (byteLen_pos (htexts d hd)))
      have hbyte : d ∈ bytesOf group :=
        List.mem_flatMap.mpr ⟨d, hd, by rw [hn]; exact List.mem_cons_self⟩
      rw [← Bool.not_eq_true, List.isEmpty_iff, List.map_eq_nil_iff]
      exact List.ne_nil_of_mem hbyte
    rw [widthMap_of_wide hd hdwide, widthMap_of_wide (List.mem_append_left [c] hd) hdwide, hsome,
      bytesOf_append, bytesOf_singleton]
    simp
  · have hnarrow : ∀ d ∈ group, d.wide = false :=
      fun d hd => Bool.eq_false_iff.mpr fun hdwide => hwide ⟨d, hd, hdwide⟩
    rw [widthMap_of_narrow hnarrow]
    cases hc : c.wide with
    | false =>
      have hall : ∀ d ∈ group ++ [c], d.wide = false := by
        intro d hd
        rcases List.mem_append.mp hd with hd | hd
        · exact hnarrow d hd
        · rw [List.mem_singleton.mp hd]
          exact hc
      rw [widthMap_of_narrow hall]
      simp [CellRef.width, hc, cellWidth]
    | true =>
      -- none was wide before, so each byte so far is that of a narrow cell
      have hones : (bytesOf group).map CellRef.width = List.replicate (byteLen cl.text) 1 := by
        rw [h.text, ← length_bytesOf]
        refine List.map_eq_replicate_iff.mpr fun d hd => ?_
        obtain ⟨n, hn⟩ := List.getElem?_of_mem hd
        unfold CellRef.width
        rw [hnarrow d (mem_of_byte hn)]
        rfl
      have htwo : 1 < c.width := by
        unfold CellRef.width
        rw [hc]
        decide
      rw [widthMap_of_wide (List.mem_append_right group (List.mem_singleton.mpr rfl)) hc,
        bytesOf_append, List.map_append, hones, bytesOf_singleton, List.map_replicate]
      simp [htwo]

theorem Built.add (h : Built cl group) (hne : group ≠ []) (htexts : ∀ d ∈ group, d.text ≠ [])
    (c : CellRef) : Built (cl.add c.text c.cellIndex c.width) (group ++ [c]) where
  text := by
    rw [List.flatMap_append, List.flatMap_singleton, ← h.text]
    rfl
  width := by
    rw [columns_append, ← h.width, columns_cons]
    rfl
  first := by
    rw [firstColumn_append hne, ← h.first]
    rfl
  idx := h.idx_add hne c
  widths := h.widths_add htexts c

end Built

/-! ## The cells of each cluster -/

section Groups

variable (variationMap : Text → Option (Presentation × Presentation))
  (emojiPresentation : Char → Bool)

/-- Has the cell other attributes than the first one, or is it presented in another way? -/
def CellRef.unlike (first c : CellRef) : Bool :=
  first.normalizedAttr ≠ c.normalizedAttr ∨
    first.presentation variationMap emojiPresentation ≠
      c.presentation variationMap emojiPresentation

/-- The cells of each cluster, with those of the cluster that is pending. -/
def groupFrom (bidiHint : Bool) :
    CellRef → List CellRef → Whitespace → List CellRef → List (List CellRef)
  | first, more, _, [] => [first :: more]
  | first, more, w, c :: cells =>
    if first.unlike variationMap emojiPresentation c then
      (first :: more) :: groupFrom bidiHint c [] (.start c.text) cells
    else if (w.next bidiHint c.text).1 then
      (first :: more) :: groupFrom bidiHint c [] (w.next bidiHint c.text).2 cells
    else groupFrom bidiHint first (more ++ [c]) (w.next bidiHint c.text).2 cells

/-- The cells of each cluster of a line. -/
def cellGroups : List CellRef → List (List CellRef)
  | [] => []
  | c :: cells => groupFrom variationMap emojiPresentation false c [] (.start c.text) cells

theorem flatten_groupFrom (bidiHint : Bool) (first : CellRef) (more : List CellRef)
    (w : Whitespace) (cells : List CellRef) :
    (groupFrom variationMap emojiPresentation bidiHint first more w cells).flatten =
      (first :: more) ++ cells := by
  induction cells generalizing first more w with
  | nil => simp [groupFrom]
  | cons c cells ih =>
    rw [groupFrom]
    split
    · rw [List.flatten_cons, ih]
      rfl
    · split
      · rw [List.flatten_cons, ih]
        rfl
      · rw [ih]
        simp

theorem flatten_cellGroups (cells : List CellRef) :
    (cellGroups variationMap emojiPresentation cells).flatten = cells := by
  cases cells with
  | nil => rfl
  | cons c cells => exact flatten_groupFrom variationMap emojiPresentation false c [] _ cells

theorem clusterFrom_cons (bidiHint : Bool) (last : CellCluster) (w : Whitespace) (c : CellRef)
    (cells : List CellRef) :
    clusterFrom variationMap emojiPresentation bidiHint last w (c :: cells) =
      if last.differs variationMap emojiPresentation c then
        last :: clusterFrom variationMap emojiPresentation bidiHint
          (c.newCluster variationMap emojiPresentation) (.start c.text) cells
      else if (w.next bidiHint c.text).1 then
        last :: clusterFrom variationMap emojiPresentation bidiHint
          (c.newCluster variationMap emojiPresentation) (w.next bidiHint c.text).2 cells
      else clusterFrom variationMap emojiPresentation bidiHint
        (last.add c.text c.cellIndex c.width) (w.next bidiHint c.text).2 cells := rfl

theorem clusterFrom_built (bidiHint : Bool) {last : CellCluster} {first : CellRef}
    {more cells : List CellRef} (w : Whitespace) (hlast : Built last (first :: more))
    (hattrs : last.attrs = first.normalizedAttr)
    (hpresentation : last.presentation = first.presentation variationMap emojiPresentation)
    (htexts : ∀ c ∈ (first :: more) ++ cells, c.text ≠ []) :
    List.Forall₂ Built (clusterFrom variationMap emojiPresentation bidiHint last w cells)
      (groupFrom variationMap emojiPresentation bidiHint first more w cells) := by
  induction cells generalizing last first more w with
  | nil => exact .cons hlast .nil
  | cons c cells ih =>
    have hdiffers : last.differs variationMap emojiPresentation c =
        first.unlike variationMap emojiPresentation c := by
      unfold CellCluster.differs CellRef.unlike
      rw [hattrs, hpresentation]
    -- another cluster begins with the cell
    have hbegin := fun w => ih w (built_new (c.presentation variationMap emojiPresentation)
      c.normalizedAttr c) rfl rfl fun d hd => htexts d (List.mem_append_right _ hd)
    rw [clusterFrom_cons, groupFrom, hdiffers]
    split
    · exact .cons hlast (hbegin _)
    · split
      · exact .cons hlast (hbegin _)
      · have hadd := hlast.add (List.cons_ne_nil _ _)
          (fun d hd => htexts d (List.mem_append_left _ hd)) c
        refine ih _ hadd hattrs hpresentation fun d hd => htexts d ?_
        simpa using hd

theorem makeCluster_built {cells : List CellRef} (htexts : ∀ c ∈ cells, c.text ≠ []) :
    List.Forall₂ Built (makeCluster variationMap emojiPresentation cells)
      (cellGroups variationMap emojiPresentation cells) := by
  cases cells with
  | nil => exact .nil
  | cons c cells =>
    exact clusterFrom_built variationMap emojiPresentation false (.start c.text)
      (built_new _ _ c) rfl rfl htexts

end Groups

/-! ## What the clusters say of their cells -/

/-- A cluster of these cells, with the column and the width of the cell that each byte came
from. -/
structure Describes (cl : CellCluster) (group : List CellRef) : Prop where
  text : cl.text = group.flatMap CellRef.text
  width : cl.width = columns group
  idx : ∀ n c, (bytesOf group)[n]? = some c → cl.byteToCellIdx n = some c.cellIndex
  widths : ∀ n c, (bytesOf group)[n]? = some c → cl.byteToCellWidth n = some c.width

/-- The clusters have the texts and the widths of the cells, each of which is in one of them, and
tell the columns and the widths of the bytes. -/
structure Exact (clusters : List CellCluster) (cells : List CellRef) : Prop where
  texts : clusters.flatMap CellCluster.text = cells.flatMap CellRef.text
  widths : (clusters.map CellCluster.width).sum = columns cells
  parts : ∃ groups, groups.flatten = cells ∧ List.Forall₂ Describes clusters groups

/-- Before the first cell of more than one byte, only the last cell may be a wide one. -/
def NarrowBefore (group : List CellRef) : Prop :=
  ∀ c ∈ (group.takeWhile CellRef.oneByte).dropLast, c.wide = false

section Describes

variable {cl : CellCluster} {group cells : List CellRef} {c : CellRef} {n : Nat}

theorem Chain.counted_iff {idx : Nat} (h : Chain idx cells) :
    (∀ n c, cells[n]? = some c → c.cellIndex = n + idx) ↔ ∀ c ∈ cells.dropLast, c.wide = false := by
  induction cells generalizing idx with
  | nil => simp
  | cons c cells ih =>
    cases cells with
    | nil =>
      refine iff_of_true (fun n d hd => ?_) (fun d hd => absurd hd List.not_mem_nil)
      obtain ⟨rfl, rfl⟩ : n = 0 ∧ c = d := by
        cases n with
        | zero => exact ⟨rfl, Option.some.inj hd⟩
        | succ n => simp at hd
      rw [h.1, Nat.zero_add]
    | cons d cells =>
      have hd : d.cellIndex = idx + c.width := h.2.1
      rw [List.dropLast_cons_cons, List.forall_mem_cons, ← ih h.2]
      constructor
      · intro hall
        have hnext := hall 1 d rfl
        have hnarrow : c.wide = false := by
          cases hwide : c.wide with
          | false => rfl
          | true =>
            have htwo : c.width = 2 := congrArg cellWidth hwide
            omega
        have hone : c.width = 1 := congrArg cellWidth hnarrow
        refine ⟨hnarrow, fun n e he => ?_⟩
        rw [hall (n + 1) e he, hone]
        omega
      · rintro ⟨hnarrow, hall⟩ n e he
        have hone : c.width = 1 := congrArg cellWidth hnarrow
        cases n with
        | zero =>
          obtain rfl : c = e := Option.some.inj he
          rw [h.1, Nat.zero_add]
        | succ n =>
          rw [hall n e he, hone]
          omega

theorem Chain.firstColumn {idx : Nat} (h : Chain idx group) : Chain (firstColumn group) group := by
  cases group with
  | nil => trivial
  | cons c group =>
    obtain ⟨rfl, hrest⟩ := h
    exact ⟨rfl, hrest⟩

theorem bytesOf_oneByte (hone : ∀ c ∈ cells, c.oneByte = true) (htexts : ∀ c ∈ cells, c.text ≠ []) :
    bytesOf cells = cells := by
  induction cells with
  | nil => rfl
  | cons c cells ih =>
    have hbytes : byteLen c.text = 1 :=
      Nat.le_antisymm (of_decide_eq_true (hone c List.mem_cons_self))
        (byteLen_pos (htexts c List.mem_cons_self))
    have hrest := ih (fun d hd => hone d (List.mem_cons_of_mem c hd))
      (fun d hd => htexts d (List.mem_cons_of_mem c hd))
    unfold bytesOf at hrest ⊢
    rw [List.flatMap_cons, hbytes, hrest]
    rfl

theorem bytesOf_split (htexts : ∀ c ∈ group, c.text ≠ []) :
    bytesOf (group.takeWhile CellRef.oneByte) = group.takeWhile CellRef.oneByte ∧ bytesOf group =
      group.takeWhile CellRef.oneByte ++ bytesOf (group.dropWhile CellRef.oneByte) := by
  have hshort : bytesOf (group.takeWhile CellRef.oneByte) = group.takeWhile CellRef.oneByte :=
    bytesOf_oneByte (List.all_eq_true.mp List.all_takeWhile)
      (fun c hc => htexts c ((List.takeWhile_prefix _).subset hc))
  refine ⟨hshort, ?_⟩
  conv_lhs => rw [← List.takeWhile_append_dropWhile (p := CellRef.oneByte) (l := group)]
  rw [bytesOf_append, hshort]

theorem Built.byteToCellWidth (h : Built cl group) (hn : (bytesOf group)[n]? = some c) :
    cl.byteToCellWidth n = some c.width := by
  unfold CellCluster.byteToCellWidth
  rw [h.widths]
  by_cases hwide : ∃ d ∈ group, d.wide = true
  · obtain ⟨d, hd, hdwide⟩ := hwide
    have hsome : ((bytesOf group).map CellRef.width).isEmpty = false := by
      rw [← Bool.not_eq_true, List.isEmpty_iff, List.map_eq_nil_iff]
      exact List.ne_nil_of_mem (List.mem_of_getElem? hn)
    rw [widthMap_of_wide hd hdwide, hsome, if_neg Bool.false_ne_true, List.getElem?_map, hn]
    rfl
  · have hnarrow : ∀ d ∈ group, d.wide = false :=
      fun d hd => Bool.eq_false_iff.mpr fun hdwide => hwide ⟨d, hd, hdwide⟩
    rw [widthMap_of_narrow hnarrow]
    unfold CellRef.width
    rw [hnarrow c (mem_of_byte hn)]
    rfl

theorem Built.byteToCellIdx_short (h : Built cl group) (htexts : ∀ c ∈ group, c.text ≠ [])
    (hn : (group.takeWhile CellRef.oneByte)[n]? = some c) :
    cl.byteToCellIdx n = some (n + firstColumn group) := by
  unfold CellCluster.byteToCellIdx
  rw [h.idx]
  cases hrest : group.dropWhile CellRef.oneByte with
  | nil =>
    rw [idxMap_of_short hrest, h.first, Nat.add_comm]
    rfl
  | cons d rest =>
    have hlt : n < byteLen ((group.takeWhile CellRef.oneByte).flatMap CellRef.text) := by
      rw [← length_bytesOf, (bytesOf_split htexts).1]
      exact (List.getElem?_eq_some_iff.mp hn).1
    rw [idxMap_isEmpty hrest, if_neg Bool.false_ne_true, idxMap_of_long hrest,
      List.getElem?_append_left (by simpa using hlt), List.getElem?_map,
      List.getElem?_range hlt]
    rfl

theorem Built.byteToCellIdx_long (h : Built cl group) (htexts : ∀ c ∈ group, c.text ≠ [])
    (hn : (bytesOf group)[n]? = some c) (hlong : (group.takeWhile CellRef.oneByte).length ≤ n) :
    cl.byteToCellIdx n = some c.cellIndex := by
  obtain ⟨hshort, hsplit⟩ := bytesOf_split htexts
  rw [hsplit, List.getElem?_append_right hlong] at hn
  unfold CellCluster.byteToCellIdx
  rw [h.idx]
  cases hrest : group.dropWhile CellRef.oneByte with
  | nil =>
    rw [hrest] at hn
    exact absurd (List.mem_of_getElem? hn) List.not_mem_nil
  | cons d rest =>
    have hlen : ((List.range (byteLen ((group.takeWhile CellRef.oneByte).flatMap
        CellRef.text))).map (fun n => n + Term.firstColumn group)).length =
          (group.takeWhile CellRef.oneByte).length := by
      rw [List.length_map, List.length_range, ← length_bytesOf, hshort]
    rw [idxMap_isEmpty hrest, if_neg Bool.false_ne_true, idxMap_of_long hrest,
      List.getElem?_append_right (by rw [hlen]; exact hlong), hlen, List.getElem?_map, ← hrest, hn]
    rfl

theorem Built.describes_iff (h : Built cl group) (htexts : ∀ c ∈ group, c.text ≠ [])
    (hchain : Chain (firstColumn group) group) : Describes cl group ↔ NarrowBefore group := by
  obtain ⟨-, hsplit⟩ := bytesOf_split htexts
  have hfront : Chain (firstColumn group) (group.takeWhile CellRef.oneByte) := by
    rw [← List.takeWhile_append_dropWhile (p := CellRef.oneByte) (l := group), chain_append]
      at hchain
    rw [List.takeWhile_append_dropWhile] at hchain
    exact hchain.1
  unfold NarrowBefore
  rw [← hfront.counted_iff]
  constructor
  · intro hdescribes n c hc
    have hbyte : (bytesOf group)[n]? = some c := by
      rw [hsplit, List.getElem?_append_left (List.getElem?_eq_some_iff.mp hc).1]
      exact hc
    have hsaid := hdescribes.idx n c hbyte
    rw [h.byteToCellIdx_short htexts hc] at hsaid
    exact (Option.some.inj hsaid).symm
  · intro hcounted
    refine ⟨h.text, h.width, fun n c hc => ?_, fun n c hc => h.byteToCellWidth hc⟩
    by_cases hn : n < (group.takeWhile CellRef.oneByte).length
    · have hcell := hc
      rw [hsplit, List.getElem?_append_left hn] at hcell
      rw [h.byteToCellIdx_short htexts hcell, hcounted n c hcell]
    · exact h.byteToCellIdx_long htexts hc (Nat.not_lt.mp hn)

end Describes

/-! ## Which cells are in which cluster -/

section Parts

variable {clusters : List CellCluster} {groups : List (List CellRef)} {cells : List CellRef}

theorem map_text_of_forall₂ {R : CellCluster → List CellRef → Prop}
    (hR : ∀ cl group, R cl group → cl.text = group.flatMap CellRef.text)
    (h : List.Forall₂ R clusters groups) :
    clusters.map CellCluster.text = groups.map (List.flatMap CellRef.text) := by
  induction h with
  | nil => rfl
  | cons hhead _ ih => rw [List.map_cons, List.map_cons, hR _ _ hhead, ih]

theorem map_width_of_built (h : List.Forall₂ Built clusters groups) :
    clusters.map CellCluster.width = groups.map columns := by
  induction h with
  | nil => rfl
  | cons hhead _ ih => rw [List.map_cons, List.map_cons, hhead.width, ih]

theorem columns_flatten (groups : List (List CellRef)) :
    columns groups.flatten = (groups.map columns).sum := by
  induction groups with
  | nil => rfl
  | cons group groups ih => rw [List.flatten_cons, columns_append, ih, List.map_cons, List.sum_cons]

theorem eq_nil_of_no_text (htexts : ∀ c ∈ cells, c.text ≠ [])
    (h : cells.flatMap CellRef.text = []) : cells = [] := by
  refine List.eq_nil_iff_forall_not_mem.mpr fun c hc => htexts c hc ?_
  exact List.flatMap_eq_nil_iff.mp h c hc

theorem parts_eq {groups' : List (List CellRef)} (htexts : ∀ c ∈ groups.flatten, c.text ≠ [])
    (hflat : groups.flatten = groups'.flatten)
    (h : groups.map (List.flatMap CellRef.text) = groups'.map (List.flatMap CellRef.text)) :
    groups = groups' := by
  induction groups generalizing groups' with
  | nil => exact (List.map_eq_nil_iff.mp h.symm).symm
  | cons group groups ih =>
    cases groups' with
    | nil => exact absurd h (List.cons_ne_nil _ _)
    | cons group' groups' =>
      rw [List.map_cons, List.map_cons] at h
      obtain ⟨htext, hrest⟩ := List.cons.inj h
      rw [List.flatten_cons] at htexts
      rw [List.flatten_cons, List.flatten_cons] at hflat
      -- cells that one of the two had more would have no text
      have hgroup : group = group' := by
        rcases List.append_eq_append_iff.mp hflat with ⟨more, rfl, hmore⟩ | ⟨more, rfl, hmore⟩
        · rw [List.flatMap_append, List.self_eq_append_right] at htext
          have hnil := eq_nil_of_no_text (fun c hc => htexts c (List.mem_append_right _ (by
            rw [hmore]
            exact List.mem_append_left _ hc))) htext
          rw [hnil, List.append_nil]
        · rw [List.flatMap_append, List.append_right_eq_self] at htext
          have hnil := eq_nil_of_no_text (fun c hc => htexts c (List.mem_append_left _
            (List.mem_append_right _ hc))) htext
          rw [hnil, List.append_nil]
      subst hgroup
      rw [ih (fun c hc => htexts c (List.mem_append_right _ hc))
        (List.append_cancel_left hflat) hrest]

theorem describes_all_iff (h : List.Forall₂ Built clusters groups) {idx : Nat}
    (htexts : ∀ c ∈ groups.flatten, c.text ≠ []) (hchain : Chain idx groups.flatten) :
    List.Forall₂ Describes clusters groups ↔ ∀ group ∈ groups, NarrowBefore group := by
  induction h generalizing idx with
  | nil => simp
  | @cons cl group clusters groups hhead _ ih =>
    rw [List.flatten_cons] at htexts hchain
    obtain ⟨hgroup, hgroups⟩ := chain_append.mp hchain
    rw [List.forall₂_cons, List.forall_mem_cons,
      hhead.describes_iff (fun c hc => htexts c (List.mem_append_left _ hc)) hgroup.firstColumn,
      ih (fun c hc => htexts c (List.mem_append_right _ hc)) hgroups]

theorem text_mem_of_visibleFrom (stored : List Cell) (covered : Bool) (idx : Nat) :
    ∀ c ∈ visibleFrom covered idx stored, ∃ cell ∈ stored, c.text = cell.text := by
  induction stored generalizing covered idx with
  | nil =>
    intro c hc
    cases covered <;> exact absurd hc List.not_mem_nil
  | cons cell stored ih =>
    intro c hc
    have hbehind : ∀ covered, c ∈ visibleFrom covered (idx + 1) stored →
        ∃ cell' ∈ cell :: stored, c.text = cell'.text := by
      intro covered hc
      obtain ⟨cell', hcell, htext⟩ := ih covered (idx + 1) c hc
      exact ⟨cell', List.mem_cons_of_mem cell hcell, htext⟩
    cases covered with
    | true => exact hbehind false hc
    | false =>
      rcases List.mem_cons.mp hc with rfl | hc
      · exact ⟨cell, List.mem_cons_self, rfl⟩
      · exact hbehind cell.wide hc

theorem text_mem_of_iterFrom (wides : List Nat) (texts : List Text) (runs : List Cluster)
    (idx total : Nat) :
    ∀ c ∈ ClusteredLine.iterFrom wides texts runs idx total, c.text ∈ texts := by
  induction texts generalizing runs idx total with
  | nil =>
    rw [ClusteredLine.iterFrom]
    exact fun c hc => absurd hc List.not_mem_nil
  | cons text texts ih =>
    cases runs with
    | nil =>
      rw [ClusteredLine.iterFrom]
      exact fun c hc => absurd hc List.not_mem_nil
    | cons run runs =>
      intro c hc
      rw [ClusteredLine.iterFrom] at hc
      rcases List.mem_cons.mp hc with rfl | hc
      · exact List.mem_cons_self
      · refine List.mem_cons_of_mem text ?_
        split at hc
        · exact ih _ _ _ c hc
        · exact ih _ _ _ c hc

theorem Line.text_ne_nil {graphemes : Graphemes} (hgraphemes : ∀ text, [] ∉ graphemes text)
    (line : Line) : ∀ c ∈ line.visibleCells graphemes, c.text ≠ [] := by
  obtain ⟨storage, seqno, bits⟩ := line
  intro c hc hnil
  cases storage with
  | V stored =>
    obtain ⟨cell, -, htext⟩ := text_mem_of_visibleFrom stored false 0 c hc
    have hclean := cell.clean
    rw [← htext, hnil] at hclean
    exact absurd hclean (by decide)
  | C cl =>
    have htext := text_mem_of_iterFrom _ _ _ _ _ c hc
    rw [hnil] at htext
    exact hgraphemes cl.text htext

/-- Every cell is in one cluster, which has its text, its width and the widths of its bytes. The
columns of the bytes are right if in each cluster the cells in front are narrow. -/
theorem exact_makeCluster_iff (variationMap : Text → Option (Presentation × Presentation))
    (emojiPresentation : Char → Bool) {idx : Nat} (htexts : ∀ c ∈ cells, c.text ≠ [])
    (hchain : Chain idx cells) : Exact (makeCluster variationMap emojiPresentation cells) cells ↔
      ∀ group ∈ cellGroups variationMap emojiPresentation cells, NarrowBefore group := by
  have hbuilt := makeCluster_built variationMap emojiPresentation htexts
  have hflat := flatten_cellGroups variationMap emojiPresentation cells
  have htext := map_text_of_forall₂ (fun _ _ h => Built.text h) hbuilt
  rw [← describes_all_iff hbuilt (by rwa [hflat]) (by rwa [hflat])]
  constructor
  · rintro ⟨-, -, groups, hgroups, hdescribes⟩
    have hsame : groups = cellGroups variationMap emojiPresentation cells := by
      refine parts_eq (by rwa [hgroups]) (hgroups.trans hflat.symm) ?_
      rw [← htext]
      exact (map_text_of_forall₂ (fun _ _ h => Describes.text h) hdescribes).symm
    rw [← hsame]
    exact hdescribes
  · intro hdescribes
    refine ⟨?_, ?_, _, hflat, hdescribes⟩
    · conv_rhs => rw [← hflat]
      rw [List.flatMap_def, htext, List.flatMap_def, List.map_flatten, List.flatten_flatten,
        List.map_map]
      rfl
    · conv_rhs => rw [← hflat]
      rw [map_width_of_built hbuilt, columns_flatten]

end Parts

end Wakterm.Term
