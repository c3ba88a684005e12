import Wakterm.Term.CellCluster
import Wakterm.Term.Logic.Wrap

/-!
# Lines, and what is made of them

A line is wrapped into lines that are no longer than the width, and joined from them again.
-/

namespace Wakterm.Theorems.Wrapping

open Wakterm.Term

/-- **Wrapping and joining.** The lines are never longer than the width. If the texts of each row
fall into the graphemes of its cells, all lines but the last are marked as wrapped, and the last is
as the last cell was. If those of all cells do, too, and there are no control characters in the rows
below the first, the lines without these marks are joined to the visible cells of the line, up to
the spaces at its end; marks that were at the ends of rows before are gone as well. -/
theorem wrap_join {graphemes : Graphemes} {line : Line} {width : Nat}
    (hsome : ∃ c ∈ line.visibleCells graphemes, c.text ≠ space)
    (hwidth : ∀ c ∈ line.visibleCells graphemes, c.width ≤ width) (seqno later : Nat) :
    (∀ piece ∈ line.wrap graphemes width seqno, piece.len ≤ width) ∧
    ((∀ row ∈ rowsOf width (line.shown graphemes), Segmented graphemes row) →
      (∀ piece ∈ (line.wrap graphemes width seqno).dropLast,
        piece.lastCellWasWrapped graphemes = true) ∧
      (line.wrap graphemes width seqno).getLast?.map (Line.lastCellWasWrapped graphemes) =
        (line.shown graphemes).getLast?.map (fun c => c.attrs.wrapped) ∧
      (Segmented graphemes (line.shown graphemes) →
        (∀ row ∈ (rowsOf width (line.shown graphemes)).tail, ∀ c ∈ row, defang c.text = c.text) →
        (joinLines graphemes later
          (clearMarks graphemes later (line.wrap graphemes width seqno))).visibleCells graphemes =
            (unmarkRows (rowsOf width (line.shown graphemes))).flatten ∧
        ((∀ row ∈ (rowsOf width (line.shown graphemes)).dropLast, ∀ c ∈ row.getLast?,
            c.attrs.wrapped = false) →
          (unmarkRows (rowsOf width (line.shown graphemes))).flatten = line.shown graphemes))) := by
  have hflat := flatten_rowsOf width (line.shown graphemes)
  have hpieces : Pieces (line.wrap graphemes width seqno) (rowsOf width (line.shown graphemes)) :=
    Line.wrap_pieces (Line.shown_ne_nil hsome)
  refine ⟨?_, fun hseg => ⟨fun piece => hpieces.marked hseg, ?_, fun hall hclean => ⟨?_, ?_⟩⟩⟩
  · intro piece hpiece
    obtain ⟨row, hrow, hlen⟩ := hpieces.len hpiece
    rw [hlen]
    exact rowsOf_fit (fun c hc => hwidth c (line.shown_subset graphemes hc)) hrow
  · rw [hpieces.last_mark hseg, hflat]
  · have hjoined := hpieces.holds_join hseg hclean later
    have htext := map_unmarkRows CellRef.text (fun _ _ => rfl) (rowsOf width (line.shown graphemes))
    have hplace := map_unmarkRows (fun c => (c.cellIndex, c.wide)) (fun _ _ => rfl)
      (rowsOf width (line.shown graphemes))
    rw [hflat] at htext hplace
    have hread : Segmented graphemes (unmarkRows (rowsOf width (line.shown graphemes))).flatten := by
      unfold Segmented at hall ⊢
      rw [List.flatMap_def, htext, ← List.flatMap_def, hall]
    obtain ⟨hsame, hchain⟩ := hjoined.visibleCells hread
    exact hsame.eq_of_chain hchain ((line.chain_shown graphemes).congr hplace.symm)
  · intro hunmarked
    rw [unmarkRows_of_unmarked hunmarked, hflat]

/-- A character by itself, but for a skin tone, which belongs to the character before it. -/
def withSkinTones : Graphemes where
  of := fun text => text.foldl (fun graphemes c =>
    if c = '🏽' then graphemes.dropLast ++ [graphemes.getLast?.getD [] ++ [c]]
    else graphemes ++ [[c]]) []
  wide := fun text => text.any fun c => 0x2E80 ≤ c.toNat

/-- A cell for each column. -/
def cellOf (c : Char) (wide : Bool) (wrapped : Bool) : List Cell :=
  .newGraphemeWithWidth [c] wide (CellAttributes.blank.setWrapped wrapped) ::
    if wide then [.blank] else []

/-- A wide character, a narrow one, and a space. -/
def wideLine : Line := ⟨.V (cellOf '字' true false ++ cellOf 'b' false false ++ [.blank]), 1, .none⟩

/-- The line is wrapped in two and joined. -/
theorem wrap_join_wide :
    ((wideLine.wrap withSkinTones 2 1).getLast?.map (Line.lastCellWasWrapped withSkinTones) =
      some false) ∧ (joinLines withSkinTones 2
      (clearMarks withSkinTones 2 (wideLine.wrap withSkinTones 2 1))).visibleCells withSkinTones =
        wideLine.shown withSkinTones := by
  have hsome : ∃ c ∈ wideLine.visibleCells withSkinTones, c.text ≠ space :=
    ⟨⟨2, ['b'], false, .blank⟩, by decide, by decide⟩
  have hwidth : ∀ c ∈ wideLine.visibleCells withSkinTones, c.width ≤ 2 := by decide
  obtain ⟨-, hjoin⟩ := wrap_join hsome hwidth 1 2
  obtain ⟨-, hlast, hjoined⟩ := hjoin (by unfold Segmented; decide)
  obtain ⟨hcells, hsame⟩ := hjoined (by unfold Segmented; decide) (by decide)
  exact ⟨hlast, hcells.trans (hsame (by decide))⟩

/-- A hand and a skin tone, in cells of their own, and a letter. -/
def handLine : Line :=
  ⟨.V (cellOf '👍' true false ++ cellOf '🏽' true false ++ cellOf 'b' false false), 1, .none⟩

/-- Two characters, the first of which is marked as wrapped. -/
def markedLine : Line := ⟨.V (cellOf 'a' false true ++ cellOf 'b' false false), 1, .none⟩

/-- A character, and a control character as it was put into runs. -/
def controlLine : Line :=
  ((Line.new 1).setCellGrapheme withSkinTones 0 ['a'] false .blank 1).setCellGrapheme withSkinTones
    1 ['\t'] false .blank 1

/-- What comes back of a line that is wrapped and joined. -/
def back (line : Line) (width : Nat) : List CellRef :=
  (joinLines withSkinTones 2
    (clearMarks withSkinTones 2 (line.wrap withSkinTones width 1))).visibleCells withSkinTones

/-- The hand and the skin tone become one cell, which is not marked; the mark is gone; the control
character is a space. -/
theorem cells_not_back : (back handLine 4 ≠ handLine.shown withSkinTones ∧
      (back handLine 4).map CellRef.text = [['👍', '🏽'], ['b']] ∧
      (handLine.wrap withSkinTones 4 1).map (Line.lastCellWasWrapped withSkinTones) =
        [false, false]) ∧ (back markedLine 1 ≠ markedLine.shown withSkinTones ∧
      (markedLine.shown withSkinTones).map (fun c => c.attrs.wrapped) = [true, false] ∧
      (back markedLine 1).map (fun c => c.attrs.wrapped) = [false, false]) ∧
    (back controlLine 1 ≠ controlLine.shown withSkinTones ∧
      (back controlLine 1).map CellRef.text = [['a'], space]) := by
  refine ⟨⟨?_, ?_, ?_⟩, ⟨?_, ?_, ?_⟩, ?_, ?_⟩ <;> decide

end Wakterm.Theorems.Wrapping

namespace Wakterm.Theorems.CellClusters

open Wakterm.Term

/-- **The maps of the bytes.** The clusters of a line have all its cells, with their texts and their
widths, and the maps of their bytes are right, if and only if in each cluster the cells in front of
the first one of more bytes are narrow but for the last of them. -/
theorem byte_maps_iff (variationMap : Text → Option (Presentation × Presentation))
    (emojiPresentation : Char → Bool) {graphemes : Graphemes}
    (hgraphemes : ∀ text, [] ∉ graphemes text) (line : Line) :
    Exact (makeCluster variationMap emojiPresentation (line.visibleCells graphemes))
        (line.visibleCells graphemes) ↔
      ∀ group ∈ cellGroups variationMap emojiPresentation (line.visibleCells graphemes),
        NarrowBefore group :=
  exact_makeCluster_iff variationMap emojiPresentation (line.text_ne_nil hgraphemes)
    (line.chain_visibleCells graphemes)

/-- A grapheme for each character. -/
def oneByOne : Graphemes := ⟨fun text => text.map fun c => [c], fun _ => false⟩

/-- A wide cell of more bytes, and a narrow one behind it. -/
def wideText : Line :=
  ⟨.V [.newGraphemeWithWidth ['字'] true .blank, .blank,
    .newGraphemeWithWidth ['b'] false .blank], 1, .none⟩

/-- The columns are noted down from the first cell on. -/
theorem byte_maps_wideText :
    Exact (makeCluster (fun _ => none) (fun _ => false) (wideText.visibleCells oneByOne))
      (wideText.visibleCells oneByOne) :=
  have hgraphemes : ∀ text, [] ∉ oneByOne text := fun text => by simp [oneByOne]
  (byte_maps_iff (fun _ => none) (fun _ => false) hgraphemes wideText).mpr
    (by unfold NarrowBefore; decide)

/-- A wide cell of one byte, and a narrow one behind it. -/
def wideLetter : Line :=
  ⟨.V [.newGraphemeWithWidth ['a'] true .blank, .blank,
    .newGraphemeWithWidth ['b'] false .blank], 1, .none⟩

/-- The second byte came from the column two, and the cluster says one. -/
theorem second_byte_off : (wideLetter.visibleCells oneByOne).map (fun c => (c.cellIndex, c.text)) =
      [(0, ['a']), (2, ['b'])] ∧
    (makeCluster (fun _ => none) (fun _ => false) (wideLetter.visibleCells oneByOne)).map
      (fun cl => (cl.text, cl.byteToCellIdx 1)) = [(['a', 'b'], some 1)] ∧
    ¬ Exact (makeCluster (fun _ => none) (fun _ => false) (wideLetter.visibleCells oneByOne))
      (wideLetter.visibleCells oneByOne) := by
  refine ⟨by decide, by decide, ?_⟩
  rw [exact_makeCluster_iff _ _ (wideLetter.text_ne_nil fun text => by simp [oneByOne])
    (wideLetter.chain_visibleCells oneByOne)]
  unfold NarrowBefore
  decide

end Wakterm.Theorems.CellClusters
