import Wakterm.Term.Logic.Edits
import Wakterm.Term.Logic.Frame
import Wakterm.Term.Logic.TwinState
import Wakterm.Term.Modes

/-!
# What a full reset leaves

The reset sets the fields of the state, but the lines it erases: the columns are filled with blanks,
line by line.
-/

namespace Wakterm.Term

open Wakterm.Machine

/-! ## Lines -/

namespace Line

variable {graphemes : Graphemes} {line line' : Line}

/-- What the line holds behind the columns, without the hyperlinks that were found in it. -/
def behind (graphemes : Graphemes) (cols : Nat) (line : Line) : List Cell :=
  ((line.invalidateImplicitHyperlinks graphemes 0).vec graphemes).drop cols

variable {k seqno seqno' : Nat}

theorem setCellVec_blank {cells : List Cell} (hk : k ≤ cells.length)
    (hblank : ∀ i, i < k → cells[i]? = some .blank) :
    (∀ i, i < k + 1 → (setCellVec cells k .blank true)[i]? = some .blank) ∧
      (∀ i, k < i → (setCellVec cells k .blank true)[i]? = cells[i]?) ∧
      k + 1 ≤ (setCellVec cells k .blank true).length := by
  have hwide : ∃ wide : List Cell,
      (if cells.length < k + Cell.width .blank then resizeCells cells (k + Cell.width .blank)
        else cells) = wide ∧ k < wide.length ∧ ∀ i, i ≠ k → wide[i]? = cells[i]? := by
    refine ⟨_, rfl, ?_, ?_⟩
    · split
      · rw [length_resizeCells]
        exact Nat.lt_succ_self k
      · next hlen =>
        exact Nat.lt_of_not_le fun hle => hlen (Nat.lt_succ_of_le hle)
    · intro i hi
      split
      · next hlen =>
        have hlen : cells.length < k + 1 := hlen
        rw [getElem?_resizeCells]
        by_cases hlt : i < k + 1
        · rw [if_pos (show i < k + Cell.width .blank from hlt), hblank i (by omega)]
          rfl
        · rw [if_neg (show ¬ i < k + Cell.width .blank from hlt),
            List.getElem?_eq_none (by omega)]
      · rfl
  obtain ⟨wide, hresized, hlt, hsame⟩ := hwide
  have hkept : invalidateVec wide k = wide := by
    cases k with
    | zero => rfl
    | succ j =>
      unfold invalidateVec
      dsimp only
      rw [hsame j (by omega), hblank j (by omega)]
      rfl
  have hset : setCellVec cells k .blank true = wide.set k .blank := by
    unfold setCellVec
    dsimp only
    rw [hresized, hkept]
    rfl
  rw [hset]
  refine ⟨?_, ?_, ?_⟩
  · intro i hi
    by_cases hik : i = k
    · subst hik
      exact List.getElem?_set_self hlt
    · rw [List.getElem?_set_ne (Ne.symm hik), hsame i hik]
      exact hblank i (by omega)
  · intro i hi
    rw [List.getElem?_set_ne (by omega), hsame i (by omega)]
  · rw [List.length_set]
    exact hlt

/-- Before column `k` the line is blank, from there on it holds what is given, and no hyperlinks
were looked for. -/
structure Erased (held : List Cell) (bits : LineBits) (k : Nat) (line : Line) : Prop where
  cells : ∃ cells, line.cells = .V cells ∧ k ≤ cells.length ∧
    (∀ i, i < k → cells[i]? = some .blank) ∧ ∀ i, k ≤ i → cells[i]? = held[i]?
  bits : line.bits.plain =
    { bits.plain with scannedImplicitHyperlinks := false, hasImplicitHyperlinks := false }

theorem Erased.next {held cells : List Cell} {bits : LineBits} {k : Nat} {l : Line}
    (hlen : k ≤ cells.length) (hblank : ∀ i, i < k → cells[i]? = some .blank)
    (hheld : ∀ i, k ≤ i → cells[i]? = held[i]?)
    (hcells : l.cells = .V (setCellVec cells k .blank true)) (hbits : l.bits.plain =
      { bits.plain with scannedImplicitHyperlinks := false, hasImplicitHyperlinks := false }) :
    l.Erased held bits (k + 1) := by
  obtain ⟨hbefore, hafter, hlong⟩ := setCellVec_blank hlen hblank
  refine ⟨⟨_, hcells, hlong, hbefore, ?_⟩, hbits⟩
  intro i hi
  rw [hafter i hi]
  exact hheld i (by omega)

theorem vec_invalidate_congr (line : Line) (seqno seqno' : Nat) :
    (line.invalidateImplicitHyperlinks graphemes seqno).vec graphemes =
      (line.invalidateImplicitHyperlinks graphemes seqno').vec graphemes :=
  ((Twin.refl line).invalidate seqno seqno').vec

theorem erased_first (hlen : line.len ≠ 0) (seqno : Nat) :
    (line.setCellImpl graphemes 0 .blank true seqno).Erased
      ((line.invalidateImplicitHyperlinks graphemes 0).vec graphemes) line.bits 1 := by
  have hbits := bits_invalidate graphemes line seqno
  have hcells : ∀ cl, (line.invalidateImplicitHyperlinks graphemes seqno).cells = .C cl →
      cl.len ≠ 0 := by
    intro cl hcl
    rcases cells_invalidate graphemes line seqno with hsame | hvec
    · rw [hsame] at hcl
      unfold len at hlen
      rw [hcl] at hlen
      exact hlen
    · rw [hvec] at hcl
      cases hcl
  rw [vec_invalidate_congr line 0 seqno]
  unfold setCellImpl
  generalize line.invalidateImplicitHyperlinks graphemes seqno = l at hbits hcells ⊢
  obtain ⟨cells, n, bits⟩ := l
  have hplain : bits.plain = { line.bits.plain with
      scannedImplicitHyperlinks := false, hasImplicitHyperlinks := false } :=
    congrArg LineBits.plain hbits
  have hnone : ∀ (cells : List Cell) (i : Nat), i < 0 → cells[i]? = some .blank :=
    fun _ _ hi => absurd hi (Nat.not_lt_zero _)
  cases cells with
  | V cells => exact Erased.next (Nat.zero_le _) (hnone cells) (fun _ _ => rfl) rfl hplain
  | C cl =>
    have hcl : cl.len ≠ 0 := hcells cl rfl
    dsimp only [updateLastChangeSeqno]
    rw [if_neg (fun h => Nat.not_lt_zero _ h.1)]
    have hfill : fillOut cl 0 = cl := by
      unfold fillOut
      rw [Nat.zero_sub]
      rfl
    rw [hfill, if_neg (Ne.symm hcl)]
    exact Erased.next (Nat.zero_le _) (hnone _) (fun _ _ => rfl) rfl hplain

theorem Erased.step {held : List Cell} {bits : LineBits} {k : Nat}
    (h : line.Erased held bits k) (seqno : Nat) :
    (line.setCellImpl graphemes k .blank true seqno).Erased held bits (k + 1) := by
  obtain ⟨⟨cells, hcells, hlen, hblank, hheld⟩, hbits⟩ := h
  have hscanned : line.bits.scannedImplicitHyperlinks = false := by
    have heq := congrArg LineBits.scannedImplicitHyperlinks hbits
    exact heq
  have hhas : line.bits.hasImplicitHyperlinks = false := by
    have heq := congrArg LineBits.hasImplicitHyperlinks hbits
    exact heq
  have hsame : line.invalidateImplicitHyperlinks graphemes seqno = line := by
    unfold invalidateImplicitHyperlinks
    rw [hscanned, hhas]
    rfl
  unfold setCellImpl
  rw [hsame]
  obtain ⟨storage, n, lineBits⟩ := line
  obtain rfl : storage = .V cells := hcells
  exact Erased.next hlen hblank hheld rfl hbits

theorem erased_fold (graphemes : Graphemes) (hlen : line.len ≠ 0) (n seqno : Nat) :
    ((List.range' 0 (n + 1)).foldl
      (fun line x => line.setCellImpl graphemes x .blank true seqno) line).Erased
        ((line.invalidateImplicitHyperlinks graphemes 0).vec graphemes) line.bits (n + 1) := by
  induction n with
  | zero => exact erased_first hlen seqno
  | succ n ih =>
    rw [List.range'_1_concat, List.foldl_append]
    show (setCellImpl graphemes _ (0 + (n + 1)) .blank true seqno).Erased _ _ _
    rw [Nat.zero_add]
    exact ih.step seqno

theorem Erased.cells_eq {held held' : List Cell} {bits bits' : LineBits}
    (h : line.Erased held bits k) (h' : line'.Erased held' bits' k)
    (hheld : held.drop k = held'.drop k) : line.cells = line'.cells := by
  obtain ⟨cells, hcells, -, hblank, hafter⟩ := h.cells
  obtain ⟨cells', hcells', -, hblank', hafter'⟩ := h'.cells
  rw [hcells, hcells']
  refine congrArg CellStorage.V (List.ext_getElem? fun i => ?_)
  by_cases hi : i < k
  · rw [hblank i hi, hblank' i hi]
  · have hat : held[i]? = held'[i]? := by
      have hdrop := congrArg (fun cells => cells[i - k]?) hheld
      rw [List.getElem?_drop, List.getElem?_drop, show k + (i - k) = i by omega] at hdrop
      exact hdrop
    rw [hafter i (by omega), hafter' i (by omega), hat]

/-- A row of `erase_in_display` after a reset: its columns are filled with blanks. -/
def erase (graphemes : Graphemes) (cols : Nat) (bidi : BidiMode) (seqno : Nat) (line : Line) :
    Line :=
  ((bidi.applyToLine line seqno).fillRange graphemes 0 cols .blank seqno).setSingleWidth seqno

/-- Erasing the columns leaves the same of both lines: both are empty, and in the same form of
storage, or neither is, and they hold the same behind the columns. -/
structure LeavesSame (graphemes : Graphemes) (cols : Nat) (line line' : Line) : Prop where
  empty : line.len = 0 ↔ line'.len = 0
  storage : line.len = 0 → line.cells = line'.cells ∧
    line.bits.scannedImplicitHyperlinks = line'.bits.scannedImplicitHyperlinks ∧
    line.bits.hasImplicitHyperlinks = line'.bits.hasImplicitHyperlinks
  behind : line.len ≠ 0 → line.behind graphemes cols = line'.behind graphemes cols

instance (graphemes : Graphemes) (cols : Nat) (line line' : Line) :
    Decidable (line.LeavesSame graphemes cols line') :=
  decidable_of_iff
    ((line.len = 0 ↔ line'.len = 0) ∧
      (line.len = 0 → line.cells = line'.cells ∧
        line.bits.scannedImplicitHyperlinks = line'.bits.scannedImplicitHyperlinks ∧
        line.bits.hasImplicitHyperlinks = line'.bits.hasImplicitHyperlinks) ∧
      (line.len ≠ 0 → line.behind graphemes cols = line'.behind graphemes cols))
    ⟨fun h => ⟨h.1, h.2.1, h.2.2⟩, fun h => ⟨h.empty, h.storage, h.behind⟩⟩

theorem vec_invalidate_of (hcells : line.cells = line'.cells)
    (hscanned : line.bits.scannedImplicitHyperlinks = line'.bits.scannedImplicitHyperlinks)
    (hhas : line.bits.hasImplicitHyperlinks = line'.bits.hasImplicitHyperlinks) :
    (line.invalidateImplicitHyperlinks graphemes seqno).vec graphemes =
      (line'.invalidateImplicitHyperlinks graphemes seqno').vec graphemes := by
  obtain ⟨cells, n, ⟨b1, scanned, has, b4, b5, b6, b7, b8, b9⟩⟩ := line
  obtain ⟨cells', n', ⟨c1, scanned', has', c4, c5, c6, c7, c8, c9⟩⟩ := line'
  obtain rfl : cells = cells' := hcells
  obtain rfl : scanned = scanned' := hscanned
  obtain rfl : has = has' := hhas
  cases scanned with
  | false =>
    cases has with
    | false => rfl
    | true => rfl
  | true =>
    cases has with
    | false => rfl
    | true => rfl

theorem bits_prune (line : Line) (seqno : Nat) : (line.pruneTrailingBlanks seqno).bits = line.bits := by
  unfold pruneTrailingBlanks
  split
  · dsimp only
    split
    · rfl
    · rfl
  · split
    · rfl
    · rfl

theorem cells_prune (h : line.cells = line'.cells) :
    (line.pruneTrailingBlanks seqno).cells = (line'.pruneTrailingBlanks seqno').cells := by
  obtain ⟨cells, n, bits⟩ := line
  obtain ⟨cells', n', bits'⟩ := line'
  obtain rfl : cells = cells' := h
  unfold pruneTrailingBlanks
  cases cells with
  | C cl =>
    dsimp only
    split
    · rfl
    · rfl
  | V cells =>
    dsimp only
    split
    · rfl
    · rfl

theorem cells_applyToLine (bidi : BidiMode) (line : Line) (seqno : Nat) :
    (bidi.applyToLine line seqno).cells = line.cells := by
  obtain ⟨enabled, hint⟩ := bidi
  cases hint with
  | leftToRight => rfl
  | rightToLeft => rfl
  | autoLeftToRight => rfl
  | autoRightToLeft => rfl

theorem bits_applyToLine (bidi : BidiMode) (line : Line) (scanned has : Bool) (seqno : Nat) :
    ({ (bidi.applyToLine line seqno).bits.plain with
      scannedImplicitHyperlinks := scanned, hasImplicitHyperlinks := has
      doubleWidth := false, doubleHeightTop := false, doubleHeightBottom := false } : LineBits) =
      { (bidi.applyToLine (.new 0) 0).bits with
        scannedImplicitHyperlinks := scanned, hasImplicitHyperlinks := has } := by
  obtain ⟨enabled, hint⟩ := bidi
  cases hint with
  | leftToRight => rfl
  | rightToLeft => rfl
  | autoLeftToRight => rfl
  | autoRightToLeft => rfl

theorem flags_applyToLine (bidi : BidiMode) (line : Line) (seqno : Nat) :
    (bidi.applyToLine line seqno).bits.scannedImplicitHyperlinks =
        line.bits.scannedImplicitHyperlinks ∧
      (bidi.applyToLine line seqno).bits.hasImplicitHyperlinks =
        line.bits.hasImplicitHyperlinks := by
  obtain ⟨enabled, hint⟩ := bidi
  cases hint with
  | leftToRight => exact ⟨rfl, rfl⟩
  | rightToLeft => exact ⟨rfl, rfl⟩
  | autoLeftToRight => exact ⟨rfl, rfl⟩
  | autoRightToLeft => exact ⟨rfl, rfl⟩

/-- **Lines that erasing leaves the same of are the same once they are erased.** -/
theorem LeavesSame.erase {cols : Nat} (h : line.LeavesSame graphemes cols line') (hcols : 0 < cols)
    (bidi : BidiMode) (seqno seqno' : Nat) :
    (line.erase graphemes cols bidi seqno).Twin (line'.erase graphemes cols bidi seqno') := by
  have hlen : ∀ (l : Line) (n : Nat), (bidi.applyToLine l n).len = l.len := by
    intro l n
    unfold len
    rw [cells_applyToLine]
  unfold Line.erase
  by_cases hempty : line.len = 0
  · obtain ⟨hcells, hscanned, hhas⟩ := h.storage hempty
    have hempty' := h.empty.mp hempty
    unfold fillRange
    rw [if_pos ⟨(hlen _ _).trans hempty, rfl⟩, if_pos ⟨(hlen _ _).trans hempty', rfl⟩]
    have hbits : ∀ (l : Line) (n : Nat), ((bidi.applyToLine l n).setSingleWidth n).bits.plain =
        { (bidi.applyToLine (.new 0) 0).bits with
          scannedImplicitHyperlinks := l.bits.scannedImplicitHyperlinks
          hasImplicitHyperlinks := l.bits.hasImplicitHyperlinks } := by
      intro l n
      obtain ⟨hscanned, hhas⟩ := flags_applyToLine bidi l n
      rw [← hscanned, ← hhas, ← bits_applyToLine bidi l _ _ n]
      rfl
    refine ⟨?_, ?_⟩
    · show (bidi.applyToLine line seqno).cells = (bidi.applyToLine line' seqno').cells
      rw [cells_applyToLine, cells_applyToLine]
      exact hcells
    · rw [hbits, hbits, hscanned, hhas]
  · have hempty' : line'.len ≠ 0 := fun hzero => hempty (h.empty.mpr hzero)
    obtain ⟨n, rfl⟩ : ∃ n, cols = n + 1 := ⟨cols - 1, by omega⟩
    have hsome : (bidi.applyToLine line seqno).len ≠ 0 := hlen line seqno ▸ hempty
    have hsome' : (bidi.applyToLine line' seqno').len ≠ 0 := hlen line' seqno' ▸ hempty'
    have hold := erased_fold graphemes hsome n seqno
    have hold' := erased_fold graphemes hsome' n seqno'
    have hheld : ∀ (l : Line) (m : Nat),
        ((bidi.applyToLine l m).invalidateImplicitHyperlinks graphemes 0).vec graphemes =
          (l.invalidateImplicitHyperlinks graphemes 0).vec graphemes := by
      intro l m
      obtain ⟨hscanned, hhas⟩ := flags_applyToLine bidi l m
      exact vec_invalidate_of (cells_applyToLine bidi l m) hscanned hhas
    rw [hheld] at hold hold'
    have hcells := hold.cells_eq hold' (h.behind hempty)
    unfold fillRange
    rw [if_neg fun hnone => hempty ((hlen _ _).symm.trans hnone.1),
      if_neg fun hnone => hempty' ((hlen _ _).symm.trans hnone.1)]
    refine ⟨cells_prune hcells, ?_⟩
    have hbits : ∀ l : Line, (l.setSingleWidth seqno).bits.plain = { l.bits.plain with
        doubleWidth := false, doubleHeightTop := false, doubleHeightBottom := false } := fun _ => rfl
    have hbits' : ∀ l : Line, (l.setSingleWidth seqno').bits.plain = { l.bits.plain with
        doubleWidth := false, doubleHeightTop := false, doubleHeightBottom := false } := fun _ => rfl
    rw [hbits, hbits', bits_prune, bits_prune, Nat.sub_zero, hold.bits, hold'.bits]
    exact (bits_applyToLine bidi line false false seqno).trans
      (bits_applyToLine bidi line' false false seqno').symm

end Line

/-! ## Screens -/

theorem Line.Twin.trans {a b c : Line} (h : a.Twin b) (h' : b.Twin c) : a.Twin c :=
  ⟨h.cells.trans h'.cells, h.bits.trans h'.bits⟩

theorem Line.Twin.symm {a b : Line} (h : a.Twin b) : b.Twin a := ⟨h.cells.symm, h.bits.symm⟩

namespace Screen

variable {graphemes : Graphemes} {s s' s'' : Screen} {seqno : Nat}

theorem Twin.trans (h : s.Twin s') (h' : s'.Twin s'') : s.Twin s'' := by
  refine ⟨?_, by rw [h'.frame, h.frame]⟩
  refine List.forall₂_iff_get.mpr ⟨h.lines.length_eq.trans h'.lines.length_eq, ?_⟩
  intro i hi hi''
  have hi' : i < s'.lines.length := h.lines.length_eq ▸ hi
  exact ((List.forall₂_iff_get.mp h.lines).2 i hi hi').trans
    ((List.forall₂_iff_get.mp h'.lines).2 i hi' hi'')

theorem touchRows_twin (seqno : Nat) {start n : Nat} (hfit : start + n ≤ s.lines.length) :
    ∃ s', rowsFrom start n (touch seqno) s = .ok s' ∧ s.Twin s' := by
  induction n generalizing start s with
  | zero => exact ⟨s, rfl, .refl s⟩
  | succ n ih =>
    have hlt : start < s.lines.length := by omega
    have htouch : s.touch seqno start = .ok { s with
        lines := s.lines.set start (s.lines[start].updateLastChangeSeqno seqno) } := by
      unfold touch modifyLine
      rw [List.getElem?_eq_getElem hlt]
      rfl
    have hold : s.Twin { s with
        lines := s.lines.set start (s.lines[start].updateLastChangeSeqno seqno) } := by
      refine ⟨?_, rfl⟩
      have hset := forall₂_set (Screen.Twin.refl s).lines
        (show s.lines[start].Twin (s.lines[start].updateLastChangeSeqno seqno) from ⟨rfl, rfl⟩)
        start
      rw [List.set_getElem_self] at hset
      exact hset
    have hrest : start + 1 + n ≤ (s.lines.set start
        (s.lines[start].updateLastChangeSeqno seqno)).length := by
      rw [List.length_set]
      omega
    obtain ⟨s', hs', htwin⟩ := ih (s := { s with
      lines := s.lines.set start (s.lines[start].updateLastChangeSeqno seqno) }) hrest
    refine ⟨s', ?_, hold.trans htwin⟩
    show s.touch seqno start >>= rowsFrom (start + 1) n (touch seqno) = _
    rw [htouch]
    exact hs'

end Screen

theorem ScreenOrAlt.Twin.refl (s : ScreenOrAlt) : s.Twin s := ⟨.refl _, .refl _, rfl, rfl, rfl⟩

variable {a b : ScreenOrAlt}

theorem ScreenOrAlt.Twin.trans {c : ScreenOrAlt} (h : a.Twin b) (h' : b.Twin c) : a.Twin c :=
  ⟨h.screen.trans h'.screen, h.altScreen.trans h'.altScreen, h'.saved.trans h.saved,
    h'.altSaved.trans h.altSaved, h'.shown.trans h.shown⟩

theorem Screen.Twin.symm {a b : Screen} (h : a.Twin b) : b.Twin a := by
  refine ⟨h.lines.flip.imp fun _ _ => Line.Twin.symm, ?_⟩
  rw [h.frame]

theorem ScreenOrAlt.Twin.symm (h : a.Twin b) : b.Twin a :=
  ⟨h.screen.symm, h.altScreen.symm, h.saved.symm, h.altSaved.symm, h.shown.symm⟩

/-! ## The reset -/

namespace TerminalState

variable {graphemes : Graphemes} {t t' : TerminalState}

variable {s : Screen} {front back : List Line}

theorem modifyLine_split {line : Line} {f : Line → Except Panic Line}
    (hlines : s.lines = front ++ line :: back) : s.modifyLine front.length f =
      (f line).map fun line => { s with lines := front ++ line :: back } := by
  unfold Screen.modifyLine
  have hget : s.lines[front.length]? = some line := by
    rw [hlines, List.getElem?_append_right (Nat.le_refl _), Nat.sub_self]
    rfl
  have hset : ∀ line', s.lines.set front.length line' = front ++ line' :: back := by
    intro line'
    rw [hlines, List.set_append_right _ _ (Nat.le_refl _), Nat.sub_self]
    rfl
  rw [hget]
  simp only [hset]

theorem eraseRow_eq {line : Line} (hlines : s.lines = front ++ line :: back)
    (hexact : s.lines.length = s.physicalRows) (hpen : t.pen = .blank) :
    t.eraseRow graphemes front.length s = .ok { s with
      lines := front ++
        line.erase graphemes t.active.physicalCols t.getBidiMode t.seqno :: back } := by
  have hlen : front.length < s.physicalRows := by
    rw [← hexact, hlines, List.length_append, List.length_cons]
    omega
  have hrow : ∀ lines : List Line, lines.length = s.lines.length →
      ({ s with lines := lines } : Screen).physRow (front.length : Nat) = front.length := by
    intro lines hsame
    unfold Screen.physRow
    dsimp only
    rw [hsame]
    omega
  unfold eraseRow Screen.clearLine
  rw [show s.physRow (front.length : Nat) = front.length from hrow s.lines rfl,
    modifyLine_split hlines, hpen]
  show Screen.modifyLine _ _ _ = _
  have hcleared : ∀ line' : Line, (front ++ line' :: back).length = s.lines.length := by
    intro line'
    rw [hlines, List.length_append, List.length_append, List.length_cons, List.length_cons]
  dsimp only
  rw [if_pos rfl, hrow _ (hcleared _), modifyLine_split rfl]
  rfl

theorem eraseRows_eq (hpen : t.pen = .blank) (hlines : s.lines = front ++ back)
    (hexact : s.lines.length = s.physicalRows) :
    rowsFrom front.length back.length (t.eraseRow graphemes) s = .ok { s with
      lines := front ++
        back.map (Line.erase graphemes t.active.physicalCols t.getBidiMode t.seqno) } := by
  induction back generalizing s front with
  | nil =>
    show Except.ok s = _
    rw [List.map_nil, ← hlines]
  | cons line back ih =>
    show t.eraseRow graphemes front.length s >>= rowsFrom (front.length + 1) back.length _ = _
    rw [eraseRow_eq hlines hexact hpen]
    have hfront : front ++
        line.erase graphemes t.active.physicalCols t.getBidiMode t.seqno :: back =
          (front ++ [line.erase graphemes t.active.physicalCols t.getBidiMode t.seqno]) ++
            back := by
      rw [List.append_assoc]
      rfl
    have hlength : (front ++
        line.erase graphemes t.active.physicalCols t.getBidiMode t.seqno :: back).length =
          s.physicalRows := by
      rw [← hexact, hlines, List.length_append, List.length_append, List.length_cons,
        List.length_cons]
    have hnext := ih (s := { s with
      lines := front ++
        line.erase graphemes t.active.physicalCols t.getBidiMode t.seqno :: back })
      hfront hlength
    rw [List.length_append, List.length_singleton, List.append_assoc] at hnext
    exact hnext

theorem eraseDisplay_eq (hpen : t.pen = .blank)
    (hexact : t.active.lines.length = t.active.physicalRows) :
    t.eraseInDisplay graphemes .display = .ok { t with screen := t.screen.setActive { t.active with
      lines := t.active.lines.map
        (Line.erase graphemes t.active.physicalCols t.getBidiMode t.seqno) } } := by
  have hrows : rowsFrom 0 t.active.lines.length (t.eraseRow graphemes) t.active = _ :=
    eraseRows_eq hpen (List.nil_append _).symm hexact
  unfold eraseInDisplay eraseRows TerminalState.onScreen
  rw [show ((t.active.physicalRows : Int) - 0).toNat = t.active.lines.length by omega]
  show (rowsFrom 0 t.active.lines.length (t.eraseRow graphemes) t.active).map _ = _
  rw [hrows]
  rfl

theorem setActive_active (s : ScreenOrAlt) : s.setActive s.active = s := by
  obtain ⟨screen, altScreen, saved, altSaved, alt⟩ := s
  cases alt with
  | true => rfl
  | false => rfl

theorem Twin.trans {a b c : TerminalState} (h : a.Twin b) (h' : b.Twin c) : a.Twin c := by
  obtain ⟨hs⟩ := h
  obtain ⟨hs'⟩ := h'
  exact .mk (hs.trans hs')

theorem Twin.refl (t : TerminalState) : t.Twin t := .mk (.refl _)

theorem activate_twin (alt : Bool)
    (hfit : t.screen.screen.physicalRows ≤ t.screen.screen.lines.length) :
    Both Twin (.ok { t with screen := { t.screen with altScreenIsActive := alt } })
      (t.activate alt) := by
  obtain ⟨s', hs', htwin⟩ := Screen.touchRows_twin t.seqno
    (show 0 + t.screen.screen.physicalRows ≤ t.screen.screen.lines.length by omega)
  have hshow : t.activate alt = .ok { t with
      screen := { t.screen with screen := s', altScreenIsActive := alt } } := by
    unfold TerminalState.activate ScreenOrAlt.activateAltScreen ScreenOrAlt.activatePrimaryScreen
      ScreenOrAlt.dirtyTopPhysRows
    cases alt with
    | true =>
      rw [if_pos rfl, hs']
      rfl
    | false =>
      rw [if_neg Bool.false_ne_true, hs']
      rfl
  rw [hshow]
  exact .ok (.mk ⟨htwin, .refl _, rfl, rfl, rfl⟩)

theorem makeAllLinesDirty_twin : t.Twin t.makeAllLinesDirty := by
  have hactive : t.active.Twin { t.active with
      lines := t.active.lines.map fun line => line.updateLastChangeSeqno t.seqno } := by
    refine ⟨?_, rfl⟩
    refine List.forall₂_map_right_iff.mpr (List.forall₂_same.mpr fun line _ => ⟨rfl, rfl⟩)
  have hset := (ScreenOrAlt.Twin.refl t.screen).setActive hactive
  rw [TerminalState.active, setActive_active] at hset
  exact .mk hset

theorem eraseScrollback_twin (hfit : t.active.physicalRows ≤ t.active.lines.length) :
    Both Twin (.ok { t with screen := t.screen.setActive { t.active with
        lines := t.active.lines.drop (t.active.lines.length - t.active.physicalRows) } })
      (t.eraseInDisplay graphemes .scrollback) := by
  unfold eraseInDisplay TerminalState.onScreen Screen.eraseScrollback
  dsimp only
  rw [if_neg (by omega)]
  refine .ok (.mk ((ScreenOrAlt.Twin.refl t.screen).setActive ⟨?_, rfl⟩))
  exact List.forall₂_same.mpr fun _ _ => .refl _

theorem Twin.viewport (h : t.Twin t') :
    Twin
      { t with screen := t.screen.setActive { t.active with
        lines := t.active.lines.drop (t.active.lines.length - t.active.physicalRows) } }
      { t' with screen := t'.screen.setActive { t'.active with
        lines := t'.active.lines.drop (t'.active.lines.length - t'.active.physicalRows) } } := by
  have hactive := h.active
  rw [hactive.length, h.rows]
  obtain ⟨hs⟩ := h
  exact .mk (hs.setActive (hactive.withLines _ _ (List.forall₂_drop _ hactive.lines)))

/-- The screens when the alternate one is erased, with the viewport of the primary one. -/
def viewports (graphemes : Graphemes) (t : TerminalState) : ScreenOrAlt :=
  { t.screen with
    screen := { t.screen.screen with
      lines := t.screen.screen.lines.drop
        (t.screen.screen.lines.length - t.screen.screen.physicalRows) }
    altScreen := { t.screen.altScreen with
      lines := t.screen.altScreen.lines.map
        (Line.erase graphemes t.screen.altScreen.physicalCols t.config.bidiMode t.seqno) }
    altScreenIsActive := false }

/-- What the reset leaves of the screens: the rows of the viewports, erased. -/
def resetScreens (graphemes : Graphemes) (t : TerminalState) : ScreenOrAlt :=
  { t.viewports graphemes with
    screen := { (t.viewports graphemes).screen with
      lines := (t.viewports graphemes).screen.lines.map
        (Line.erase graphemes t.screen.screen.physicalCols t.config.bidiMode t.seqno) } }

theorem Twin.show (h : t.Twin t') (alt : Bool) :
    Twin { t with screen := { t.screen with altScreenIsActive := alt } }
      { t' with screen := { t'.screen with altScreenIsActive := alt } } := by
  obtain ⟨hs⟩ := h
  exact .mk (hs.show alt)

/-- **What the full reset leaves.** -/
theorem fullReset_spec (hscreen : t.screen.screen.Fits) (halt : t.screen.altScreen.Fits)
    (hallow : t.screen.altScreen.allowScrollback = false) :
    Both Twin (.ok { t.fullResetState with screen := t.resetScreens graphemes })
      (t.fullReset graphemes) := by
  unfold TerminalState.fullReset
  refine (activate_twin (t := t.fullResetState) true hscreen.1).ok_bind fun t1 h1 => ?_
  -- the alternate screen has no scrollback, so its rows are its lines
  have herased : Both Twin _ (t1.eraseInDisplay graphemes .display) := h1.eraseInDisplay _
  rw [eraseDisplay_eq (t := { t.fullResetState with
    screen := { t.fullResetState.screen with altScreenIsActive := true } }) rfl
    (halt.2 hallow)] at herased
  refine herased.ok_bind fun t2 h2 => ?_
  have hfit2 : t2.screen.screen.physicalRows ≤ t2.screen.screen.lines.length := by
    rw [h2.screen.screen.rows, h2.screen.screen.length]
    exact hscreen.1
  refine (activate_twin (t := t2) false hfit2).ok_bind fun t3 h3 => ?_
  have hleft := (h2.show false).trans h3
  -- of the primary screen only the viewport is left when its rows are erased
  have hfit3 : t3.active.physicalRows ≤ t3.active.lines.length := by
    rw [hleft.rows, hleft.active.length]
    exact hscreen.1
  refine (eraseScrollback_twin hfit3).ok_bind fun t4 h4 => ?_
  have hviewport : Twin { t.fullResetState with screen := t.viewports graphemes } t4 :=
    hleft.viewport.trans h4
  have hprimary : Both Twin _ (t4.eraseInDisplay graphemes .display) := hviewport.eraseInDisplay _
  rw [eraseDisplay_eq (t := { t.fullResetState with screen := t.viewports graphemes }) rfl (by
      show (List.drop _ _).length = t.screen.screen.physicalRows
      have hrows : t.screen.screen.physicalRows ≤ _ := hscreen.1
      rw [List.length_drop]
      omega)] at hprimary
  refine hprimary.ok_bind fun t5 h5 => .ok ((Twin.trans ?_ h5).trans makeAllLinesDirty_twin)
  exact .refl _

/-! ## Two resets -/

theorem Twin.symm (h : t.Twin t') : t'.Twin t := by
  obtain @⟨screen', seqno', placements', hs⟩ := h
  exact .mk hs.symm

/-- The rows of the viewport of the primary screen. -/
def viewport (t : TerminalState) : List Line :=
  t.screen.screen.lines.drop (t.screen.screen.lines.length - t.screen.screen.physicalRows)

/-- What the reset does not forget is the same: what the saved cursors restore, and what erasing
leaves of the rows of both screens. -/
structure ResetsAlike (graphemes : Graphemes) (t t' : TerminalState) : Prop where
  saved : t'.screen.savedCursor.getD .home = t.screen.savedCursor.getD .home
  altSaved : t'.screen.altSavedCursor.getD .home = t.screen.altSavedCursor.getD .home
  primary : List.Forall₂ (Line.LeavesSame graphemes t.screen.screen.physicalCols)
    t.viewport t'.viewport
  alt : List.Forall₂ (Line.LeavesSame graphemes t.screen.altScreen.physicalCols)
    t.screen.altScreen.lines t'.screen.altScreen.lines

theorem erased_twin {cols : Nat} {lines lines' : List Line} {bidi : BidiMode} {seqno seqno' : Nat}
    (h : List.Forall₂ (Line.LeavesSame graphemes cols) lines lines') (hcols : 0 < cols) :
    List.Forall₂ Line.Twin (lines.map (Line.erase graphemes cols bidi seqno))
      (lines'.map (Line.erase graphemes cols bidi seqno')) :=
  List.rel_map (fun _ _ hline => hline.erase hcols bidi seqno seqno') h

theorem frame_of {s' s'' : Screen} (h : s.Keeps s') (h' : s.Keeps s'') :
    s'' = { s' with lines := s''.lines, stableRowIndexOffset := s''.stableRowIndexOffset } := by
  rw [h'.frame, h.frame]

/-- What both screens begin with: the same size, which is not empty, and a line for each row. -/
structure Begins (t : TerminalState) : Prop where
  screen : t.screen.screen.Fits
  altScreen : t.screen.altScreen.Fits
  allow : t.screen.altScreen.allowScrollback = false
  cols : 0 < t.screen.screen.physicalCols
  sameRows : t.screen.altScreen.physicalRows = t.screen.screen.physicalRows
  sameCols : t.screen.altScreen.physicalCols = t.screen.screen.physicalCols

theorem Begins.keeps (hbegins : t.Begins) (h : t.Keeps t') : t'.Begins := by
  have hscreen := h.screen.frame
  have halt := h.altScreen.frame
  refine ⟨h.screen.fits hbegins.screen, h.altScreen.fits hbegins.altScreen, ?_, ?_, ?_, ?_⟩
  · rw [halt]
    exact hbegins.allow
  · rw [hscreen]
    exact hbegins.cols
  · rw [hscreen, halt]
    exact hbegins.sameRows
  · rw [hscreen, halt]
    exact hbegins.sameCols

/-- **Terminals of one beginning that are reset alike are twins.** -/
theorem fullReset_twin {t0 : TerminalState} (hbegins : t0.Begins) (h : t0.Keeps t)
    (h' : t0.Keeps t') (halike : t.ResetsAlike graphemes t') :
    Both Twin (t.fullReset graphemes) (t'.fullReset graphemes) := by
  have hb := hbegins.keeps h
  have hb' := hbegins.keeps h'
  have hspec : Both Twin _ (t.fullReset graphemes) := fullReset_spec hb.screen hb.altScreen hb.allow
  have hspec' : Both Twin _ (t'.fullReset graphemes) :=
    fullReset_spec hb'.screen hb'.altScreen hb'.allow
  have hrows : t'.screen.screen.physicalRows = t.screen.screen.physicalRows := by
    rw [h.screen.frame, h'.screen.frame]
  have hcols : t'.screen.screen.physicalCols = t.screen.screen.physicalCols := by
    rw [h.screen.frame, h'.screen.frame]
  have hconfig : t'.config = t.config := h'.config.trans h.config.symm
  have hleft : Twin { t.fullResetState with screen := t.resetScreens graphemes }
      { t'.fullResetState with screen := t'.resetScreens graphemes } := by
    have hscreens : (t.resetScreens graphemes).Twin (t'.resetScreens graphemes) := by
      unfold resetScreens viewports
      rw [hconfig, hcols, hb'.sameCols, hcols, hb.sameCols]
      refine ⟨⟨erased_twin halike.primary hb.cols, ?_⟩, ⟨erased_twin ?_ hb.cols, ?_⟩,
        halike.saved, halike.altSaved, rfl⟩
      · rw [frame_of h.screen h'.screen]
      · have halt := halike.alt
        rw [hb.sameCols] at halt
        exact halt
      · rw [frame_of h.altScreen h'.altScreen]
    unfold fullResetState resetMargins
    dsimp only
    rw [active_rows hb.sameRows, active_rows hb'.sameRows, active_cols hb.sameCols,
      active_cols hb'.sameCols, hrows, hcols, hconfig, h'.quirks.trans h.quirks.symm]
    exact .mk hscreens
  generalize t.fullReset graphemes = x at hspec ⊢
  generalize t'.fullReset graphemes = y at hspec' ⊢
  cases hspec with
  | ok hx =>
    cases hspec' with
    | ok hy => exact .ok ((hx.symm.trans hleft).trans hy)

end TerminalState

/-! ## Runs -/

variable {host : Host}

theorem TerminalState.begins_new (size : TerminalSize) (config : TerminalConfig)
    (configuredScrollback : Nat) (quirks : Bool) :
    (Terminal.new size config configuredScrollback quirks).state.Begins := by
  have hfits : ∀ allow, (Screen.new size configuredScrollback allow 1 config.bidiMode).Fits := by
    intro allow
    have hlen : (Screen.new size configuredScrollback allow 1 config.bidiMode).lines.length =
        (Screen.new size configuredScrollback allow 1 config.bidiMode).physicalRows :=
      List.length_replicate
    exact ⟨Nat.le_of_eq hlen.symm, fun _ => hlen⟩
  exact ⟨hfits true, hfits false, rfl, Nat.lt_of_lt_of_le Nat.zero_lt_one (Nat.le_max_right _ _),
    rfl, rfl⟩

/-- The input is no image, and no soft reset. -/
def Input.Plain (input : Input) : Prop := input.toAction.Plain

namespace Emulator

variable {e e' : Emulator}

/-- Twins with the same modes. -/
structure Twin (e e' : Emulator) : Prop where
  performer : e.performer.Twin e'.performer
  modes : e'.modes = e.modes

theorem Twin.perform (h : e.Twin e') {input : Input} (hplain : input.Plain) :
    Both Twin (e.perform host input) (e'.perform host input) := by
  refine (h.performer.perform hplain).map fun p p' hp => ⟨hp, ?_⟩
  show e'.modes.after _ p'.state.screen.altScreenIsActive input = _
  rw [h.modes, hp.state.shown]

theorem Twin.performAll (h : e.Twin e') {inputs : List Input}
    (hplain : ∀ input ∈ inputs, input.Plain) :
    Both Twin (e.performAll host inputs) (e'.performAll host inputs) :=
  both_foldlM (fun input hinput _ _ he => he.perform (hplain input hinput)) h

theorem perform_fullReset {t : Terminal} (h : e.finish host = .ok t) :
    e.perform host (.action (.esc .fullReset)) =
      (t.state.fullReset host.unicode.graphemes).map fun state => ⟨⟨state, []⟩, .new⟩ := by
  obtain ⟨p, hp, rfl⟩ := map_eq_ok.mp h
  have hprint : p.print = [] := by
    unfold Performer.flushPrint at hp
    split at hp
    · next hnone =>
      cases hp
      exact hnone
    · obtain ⟨state, -, rfl⟩ := map_eq_ok.mp hp
      rfl
  have hperform : e.performer.perform host.unicode (.esc .fullReset) =
      e.performer.flushThen host.unicode fun t => t.fullReset host.unicode.graphemes := by
    unfold Performer.perform
    simp
    rfl
  unfold Emulator.perform
  show (e.performer.perform host.unicode (.esc .fullReset)).map _ = _
  rw [hperform]
  unfold Performer.flushThen
  rw [hp]
  show ((p.state.fullReset host.unicode.graphemes) >>= _).map _ = _
  cases p.state.fullReset host.unicode.graphemes with
  | error panic => rfl
  | ok state =>
    show (.ok ⟨⟨state, p.print⟩, _⟩ : Except Panic Emulator) = _
    rw [hprint]
    rfl

end Emulator

namespace Terminal

variable {t t' : Terminal}

/-- Twins with the same modes. -/
structure Twin (t t' : Terminal) : Prop where
  state : t.state.Twin t'.state
  modes : t'.modes = t.modes

theorem finish_twin {e e' : Emulator} (h : e.Twin e') :
    Both Twin (e.finish host) (e'.finish host) :=
  h.performer.flushPrint.map fun _ _ hp => ⟨hp.state, h.modes⟩

theorem Twin.performInputs (h : t.Twin t') {inputs : List Input}
    (hplain : ∀ input ∈ inputs, input.Plain) :
    Both Twin (t.performInputs host inputs) (t'.performInputs host inputs) := by
  have hstart : t.start.Twin t'.start := by
    obtain ⟨state, modes⟩ := t
    obtain ⟨state', modes'⟩ := t'
    obtain ⟨⟨hs⟩, hmodes⟩ := h
    exact ⟨⟨.mk hs, rfl⟩, hmodes⟩
  exact (hstart.performAll hplain).bind fun _ _ he => finish_twin he

theorem Twin.run (h : t.Twin t') {batches : List (List Input)}
    (hplain : ∀ inputs ∈ batches, ∀ input ∈ inputs, input.Plain) :
    Both Twin (t.run host batches) (t'.run host batches) :=
  both_foldlM (fun inputs hinputs _ _ ht => ht.performInputs (hplain inputs hinputs)) h

def Keeps (t t' : Terminal) : Prop := t.state.Keeps t'.state

instance : Std.Refl Terminal.Keeps := ⟨fun t => .refl t.state⟩

instance : IsTrans Terminal Terminal.Keeps := ⟨fun _ _ _ => TerminalState.Keeps.trans⟩

theorem keeps_run (t : Terminal) (batches : List (List Input)) :
    Ends Keeps t (t.run host batches) := by
  refine ends_foldlM fun inputs t t' h => ?_
  have hstate := performInputs_state host t inputs
  rw [h] at hstate
  exact TerminalState.keeps_performActions (inputs.map Input.toAction) t'.state hstate.symm

variable {before after : List Input}

theorem performInputs_fullReset (h : t.performInputs host before = .ok t') :
    t.performInputs host (before ++ .action (.esc .fullReset) :: after) =
      t'.state.fullReset host.unicode.graphemes >>= fun state =>
        (Emulator.mk ⟨state, []⟩ .new).performAll host after >>= Emulator.finish host := by
  obtain ⟨e, he, hfinish⟩ := bind_eq_ok.mp h
  unfold performInputs Emulator.performAll
  unfold Emulator.performAll at he
  rw [List.foldlM_append, he]
  show (e.perform host (.action (.esc .fullReset)) >>= fun e => after.foldlM _ e) >>= _ = _
  rw [Emulator.perform_fullReset hfinish]
  cases t'.state.fullReset host.unicode.graphemes with
  | error panic => rfl
  | ok state => rfl

/-- **What follows a full reset does not tell apart two terminals that are reset alike**, whatever
they have been through since they were made. -/
theorem run_fullReset {t0 t t' : Terminal} {bs bs' later : List (List Input)} {before' : List Input}
    (hbegins : t0.state.Begins) (h : t0.run host (bs ++ [before]) = .ok t)
    (h' : t0.run host (bs' ++ [before']) = .ok t')
    (halike : t.state.ResetsAlike host.unicode.graphemes t'.state)
    (hafter : ∀ input ∈ after, input.Plain)
    (hlater : ∀ inputs ∈ later, ∀ input ∈ inputs, input.Plain) : Both Twin
      (t0.run host (bs ++ (before ++ .action (.esc .fullReset) :: after) :: later))
      (t0.run host (bs' ++ (before' ++ .action (.esc .fullReset) :: after) :: later)) := by
  have hsplit : ∀ {bs : List (List Input)} {before : List Input} {t : Terminal},
      t0.run host (bs ++ [before]) = .ok t →
        t0.run host (bs ++ (before ++ Input.action (.esc .fullReset) :: after) :: later) =
          (t.state.fullReset host.unicode.graphemes >>= fun state =>
            (Emulator.mk ⟨state, []⟩ .new).performAll host after >>= Emulator.finish host) >>=
              fun t => t.run host later := by
    intro bs before t h
    unfold Terminal.run at h ⊢
    rw [List.foldlM_append] at h ⊢
    obtain ⟨t1, h1, h2⟩ := bind_eq_ok.mp h
    rw [h1]
    rw [List.foldlM_cons] at h2
    obtain ⟨t2, hbatch, hlast⟩ := bind_eq_ok.mp h2
    cases hlast
    show (t1.performInputs host _ >>= fun t => later.foldlM _ t) = _
    rw [performInputs_fullReset hbatch]
  rw [hsplit h, hsplit h']
  have hkeeps := keeps_run t0 _ t h
  have hkeeps' := keeps_run t0 _ t' h'
  refine Both.bind (R := Twin) ?_ fun _ _ ht => ht.run hlater
  refine (TerminalState.fullReset_twin hbegins hkeeps hkeeps' halike).bind fun s s' hs => ?_
  have hstart : (Emulator.mk ⟨s, []⟩ .new).Twin (.mk ⟨s', []⟩ .new) := ⟨⟨hs, rfl⟩, rfl⟩
  exact (hstart.performAll hafter).bind fun _ _ he => finish_twin he

end Terminal

end Wakterm.Term
