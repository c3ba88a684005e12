import Wakterm.Codec.SerializedLines
import Wakterm.Machine.Loop

/-!
# Lines come back from the wire

`SerializedLines::from` walks over every cell with one streak of equal links open, and pushes it
where it ends: at another link, at a cell without one, at the end of the line.
-/

namespace Wakterm.Theorems.SerializedLines

open Wakterm.Rangeset Wakterm.Term Wakterm.Codec

variable {graphemes : Graphemes} {part : Nat → ImagePart} {address : Nat → Nat → Nat}
  {orig : List (Int × Line)}

/-! ## What a record says -/

/-- How many cells a line has. -/
def lineLen (graphemes : Graphemes) (lines : List (Int × Line)) (i : Nat) : Nat :=
  (lines[i]?.map fun p => (p.2.vec graphemes).length).getD 0

def CoordCovers (c : CellCoordinates) (i x : Nat) : Prop :=
  c.lineIdx = i ∧ c.cols.start ≤ x ∧ x < c.cols.stop

/-- A record covers a cell. -/
def Covers (r : LineHyperlink) (i x : Nat) : Prop := ∃ c ∈ r.coords, CoordCovers c i x

/-- A record is right: its ranges are ranges of columns, and its link is the link of every cell
there. -/
structure Right (graphemes : Graphemes) (orig : List (Int × Line)) (link : Hyperlink)
    (c : CellCoordinates) : Prop where
  ordered : c.cols.start ≤ c.cols.stop
  inside : c.cols.stop ≤ lineLen graphemes orig c.lineIdx
  links : ∀ x, c.cols.start ≤ x → x < c.cols.stop → linkAt graphemes orig c.lineIdx x = some link

/-- The records are right, and cover the links of all lines before the `i`-th and of the first `b`
columns of that. -/
structure Recorded (graphemes : Graphemes) (orig : List (Int × Line))
    (hs : List LineHyperlink) (i b : Nat) : Prop where
  right : ∀ r ∈ hs, ∀ c ∈ r.coords, Right graphemes orig r.link c
  complete : ∀ j y l, j < i ∨ j = i ∧ y < b → linkAt graphemes orig j y = some l →
    ∃ r ∈ hs, Covers r j y

theorem Recorded.skip {hs : List LineHyperlink} {i b : Nat} (h : Recorded graphemes orig hs i b)
    (hnone : linkAt graphemes orig i b = none) : Recorded graphemes orig hs i (b + 1) := by
  refine ⟨h.right, ?_⟩
  intro j y l hdone hl
  refine h.complete j y l ?_ hl
  rcases hdone with hj | ⟨rfl, hy⟩
  · exact .inl hj
  · refine .inr ⟨rfl, ?_⟩
    rcases Nat.lt_or_ge y b with hlt | hge
    · exact hlt
    · obtain rfl : y = b := by omega
      rw [hnone] at hl
      cases hl

variable {b i x : Nat} {url : Hyperlink}

theorem Recorded.nextLine {hs : List LineHyperlink} (h : Recorded graphemes orig hs i b)
    (hb : lineLen graphemes orig i ≤ b) : Recorded graphemes orig hs (i + 1) 0 := by
  refine ⟨h.right, ?_⟩
  intro j y l hdone hl
  refine h.complete j y l ?_ hl
  rcases hdone with hj | ⟨_, hy⟩
  · rcases Nat.lt_or_ge j i with hlt | hge
    · exact .inl hlt
    · obtain rfl : j = i := by omega
      refine .inr ⟨rfl, Nat.lt_of_lt_of_le ?_ hb⟩
      -- there is a cell, so the column is one of the line's
      unfold linkAt at hl
      unfold lineLen
      cases hp : orig[j]? with
      | none =>
        rw [hp] at hl
        cases hl
      | some p =>
        rw [hp, Option.bind_some] at hl
        simp only [Option.map_some, Option.getD_some]
        rcases Nat.lt_or_ge y (p.2.vec graphemes).length with hlt | hlen
        · exact hlt
        · rw [List.getElem?_eq_none hlen] at hl
          cases hl
  · omega

theorem Recorded.push {hs : List LineHyperlink} {l : Hyperlink} (h : Recorded graphemes orig hs i b)
    (hb : b ≤ x) (hx : x ≤ lineLen graphemes orig i)
    (hlinks : ∀ y, b ≤ y → y < x → linkAt graphemes orig i y = some l) :
    Recorded graphemes orig (hs ++ [⟨l, [⟨i, ⟨b, x⟩⟩]⟩]) i x := by
  refine ⟨?_, ?_⟩
  · intro r hr c hc
    rcases List.mem_append.mp hr with hr | hr
    · exact h.right r hr c hc
    · obtain rfl := List.mem_singleton.mp hr
      obtain rfl := List.mem_singleton.mp hc
      exact ⟨hb, hx, hlinks⟩
  · intro j y l' hdone hl
    by_cases hnew : j = i ∧ b ≤ y
    · obtain ⟨rfl, hby⟩ := hnew
      have hyx : y < x := by omega
      exact ⟨_, List.mem_append_right _ (List.mem_singleton.mpr rfl), _,
        List.mem_singleton.mpr rfl, rfl, hby, hyx⟩
    · obtain ⟨r, hr, hcov⟩ := h.complete j y l' (by omega) hl
      exact ⟨r, List.mem_append_left _ hr, hcov⟩

/-! ## The walk over the cells -/

/-- After the cells before column `x` of line `i`: either everything is recorded, or a streak is
open that began at `b` and is recorded up to there. -/
def Scanned (graphemes : Graphemes) (address : Nat → Nat → Nat) (orig : List (Int × Line))
    (s : Scan) (i x : Nat) : Prop :=
  (s.currentLink = none ∧ Recorded graphemes orig s.hyperlinks i x) ∨
    ∃ b l, s.currentLink = some (address i b, l) ∧ s.currentRange = ⟨b, x⟩ ∧ b < x ∧
      Recorded graphemes orig s.hyperlinks i b ∧
      ∀ y, b ≤ y → y < x → linkAt graphemes orig i y = some l

/-- `Arcs.one_link` for the cells of one line. -/
def OneLinkPerAddress (graphemes : Graphemes) (address : Nat → Nat → Nat)
    (orig : List (Int × Line)) : Prop :=
  ∀ i x y l l', linkAt graphemes orig i x = some l → linkAt graphemes orig i y = some l' →
    address i x = address i y → l = l'

theorem rangeUnion_next (h : b < x) : rangeUnion (⟨b, x⟩ : Range Nat) ⟨x, x + 1⟩ = ⟨b, x + 1⟩ := by
  have hb : ¬ b = x := by omega
  have hx : ¬ x = x + 1 := by omega
  simp only [rangeUnion, rangeIsEmpty, hb, hx, decide_false, Bool.false_eq_true, if_false,
    Range.mk.injEq]
  omega

/-- The step of the walk at a cell: its link is recorded or begins, continues or ends a streak. -/
theorem scanned_link (harc : OneLinkPerAddress graphemes address orig) {s : Scan} {cell : Cell}
    (hlink : linkAt graphemes orig i x = cell.attrs.hyperlink) (hx : x < lineLen graphemes orig i)
    (h : Scanned graphemes address orig s i x) :
    Scanned graphemes address orig (s.link address i x cell).1 i (x + 1) := by
  unfold Scan.link
  cases hc : cell.attrs.hyperlink with
  | some l' =>
    rw [hc] at hlink
    have hone : ∀ y, x ≤ y → y < x + 1 → linkAt graphemes orig i y = some l' := by
      intro y h₁ h₂
      obtain rfl : y = x := by omega
      exact hlink
    rcases h with ⟨hcur, hrec⟩ | ⟨b, l, hcur, hrange, hb, hrec, hlinks⟩
    · -- a new streak
      simp only [hcur]
      exact .inr ⟨x, l', rfl, rfl, Nat.lt_succ_self x, hrec, hone⟩
    · simp only [hcur]
      split
      · -- the streak goes on
        rename_i hsame
        obtain rfl : l = l' := harc i b x l l' (hlinks b (Nat.le_refl b) hb) hlink hsame
        refine .inr ⟨b, l, rfl, ?_, Nat.lt_succ_of_lt hb, hrec, ?_⟩
        · show rangeUnion s.currentRange ⟨x, x + 1⟩ = _
          rw [hrange, rangeUnion_next hb]
        · intro y h₁ h₂
          rcases Nat.lt_or_ge y x with hlt | hge
          · exact hlinks y h₁ hlt
          · exact hone y hge h₂
      · -- another link
        refine .inr ⟨x, l', rfl, rfl, Nat.lt_succ_self x, ?_, hone⟩
        show Recorded graphemes orig (s.hyperlinks ++ [⟨l, [⟨i, s.currentRange⟩]⟩]) i x
        rw [hrange]
        exact hrec.push (Nat.le_of_lt hb) (Nat.le_of_lt hx) hlinks
  | none =>
    rw [hc] at hlink
    rcases h with ⟨hcur, hrec⟩ | ⟨b, l, hcur, hrange, hb, hrec, hlinks⟩
    · simp only [hcur]
      exact .inl ⟨hcur, hrec.skip hlink⟩
    · -- the streak ends
      simp only [hcur]
      refine .inl ⟨rfl, ?_⟩
      show Recorded graphemes orig (s.hyperlinks ++ [⟨l, [⟨i, s.currentRange⟩]⟩]) i (x + 1)
      rw [hrange]
      exact (hrec.push (Nat.le_of_lt hb) (Nat.le_of_lt hx) hlinks).skip hlink

/-- A cell without its link and images. -/
def bare (c : Cell) : Cell := (c.setHyperlink none).clearImages

/-- One entry for each image of each cell, with the row, and the columns counted from `x`. -/
def imagesFrom (part : Nat → ImagePart) (row : Int) (x : Nat) (cells : List Cell) :
    List SerializedImageCell :=
  (cells.zipIdx x).flatMap fun c => c.1.attrs.images.map fun im =>
    ⟨row, c.2, part im.image, im.zIndex, im.imageId, im.placementId⟩

theorem link_snd (s : Scan) (i x : Nat) (cell : Cell) :
    (s.link address i x cell).2 = cell.setHyperlink none ∧
      (s.link address i x cell).1.images = s.images := by
  have hnone : cell.attrs.hyperlink = none → cell = cell.setHyperlink none := by
    intro h
    unfold Cell.setHyperlink
    rw [← h]
  unfold Scan.link
  cases hc : cell.attrs.hyperlink with
  | some l =>
    cases hcur : s.currentLink with
    | none => exact ⟨rfl, rfl⟩
    | some current =>
      dsimp only
      split
      · exact ⟨rfl, rfl⟩
      · exact ⟨rfl, rfl⟩
  | none =>
    cases hcur : s.currentLink with
    | none => exact ⟨hnone hc, rfl⟩
    | some current => exact ⟨hnone hc, rfl⟩

theorem scan_cells (harc : OneLinkPerAddress graphemes address orig) {i : Nat} {row : Int} :
    ∀ (cells : List Cell) (x : Nat) (s : Scan),
    (∀ y, linkAt graphemes orig i (x + y) = cells[y]?.bind fun c => c.attrs.hyperlink) →
    x + cells.length = lineLen graphemes orig i → Scanned graphemes address orig s i x →
    (Scan.cells part address i row x cells s).2 = cells.map bare ∧
      (Scan.cells part address i row x cells s).1.images = s.images ++ imagesFrom part row x cells ∧
      Scanned graphemes address orig (Scan.cells part address i row x cells s).1 i
        (lineLen graphemes orig i) := by
  intro cells
  induction cells with
  | nil =>
    intro x s _ hlen h
    rw [← hlen]
    exact ⟨rfl, (List.append_nil _).symm, h⟩
  | cons c cs ih =>
    intro x s hlinks hlen h
    rw [List.length_cons] at hlen
    have hstep : Scanned graphemes address orig (s.link address i x c).1 i (x + 1) :=
      scanned_link harc (hlinks 0) (by omega) h
    obtain ⟨hcell, himages⟩ := @link_snd address s i x c
    have hnext := ih (x + 1) (s.cell part address i row x c).1 ?_ (by omega) hstep
    · obtain ⟨hcells, himgs, hscan⟩ := hnext
      refine ⟨?_, ?_, hscan⟩
      · show (s.link address i x c).2.clearImages :: _ = bare c :: _
        rw [hcell]
        exact congrArg (bare c :: ·) hcells
      · show (Scan.cells part address i row (x + 1) cs
          (s.cell part address i row x c).1).1.images = _
        rw [himgs]
        show (s.link address i x c).1.images ++ (s.link address i x c).2.attrs.images.map _ ++
          imagesFrom part row (x + 1) cs = _
        rw [hcell, himages, List.append_assoc]
        rfl
    · intro y
      have hy := hlinks (y + 1)
      rw [List.getElem?_cons_succ] at hy
      rw [← hy]
      exact congrArg _ (by omega)

theorem scan_line (harc : OneLinkPerAddress graphemes address orig) {i : Nat} {row : Int}
    {line : Line} (hline : orig[i]? = some (row, line)) {s : Scan}
    (h : Recorded graphemes orig s.hyperlinks i 0) : (s.line graphemes part address i row line).2 =
        line.setCells ((line.vec graphemes).map bare) ∧
      (s.line graphemes part address i row line).1.images =
        s.images ++ imagesFrom part row 0 (line.vec graphemes) ∧
      Recorded graphemes orig (s.line graphemes part address i row line).1.hyperlinks (i + 1) 0 := by
  have hlinks : ∀ y, linkAt graphemes orig i (0 + y) =
      (line.vec graphemes)[y]?.bind fun c => c.attrs.hyperlink := by
    intro y
    rw [Nat.zero_add, linkAt, hline]
    rfl
  have hlen : 0 + (line.vec graphemes).length = lineLen graphemes orig i := by
    rw [Nat.zero_add, lineLen, hline]
    rfl
  obtain ⟨hcells, himages, hscan⟩ := @scan_cells graphemes part address orig harc i row
    (line.vec graphemes) 0 { s with currentLink := none, currentRange := ⟨0, 0⟩ } hlinks hlen
    (.inl ⟨rfl, h⟩)
  unfold Scan.line
  dsimp only
  refine ⟨congrArg line.setCells hcells, ?_, ?_⟩
  · split
    · exact himages
    · exact himages
  · rcases hscan with ⟨hcur, hrec⟩ | ⟨b, l, hcur, hrange, hb, hrec, hstreak⟩
    · rw [hcur]
      exact hrec.nextLine (Nat.le_refl _)
    · -- the last streak
      rw [hcur]
      simp only [Scan.push, hrange]
      exact (hrec.push (Nat.le_of_lt hb) (Nat.le_refl _) hstreak).nextLine (Nat.le_refl _)

theorem scan_lines (harc : OneLinkPerAddress graphemes address orig) :
    ∀ (lines : List (Int × Line)) (i : Nat) (s : Scan),
    (∀ k, orig[i + k]? = lines[k]?) → Recorded graphemes orig s.hyperlinks i 0 →
    (Scan.lines graphemes part address i lines s).2 =
        lines.map (fun p => (p.1, p.2.setCells ((p.2.vec graphemes).map bare))) ∧
      (Scan.lines graphemes part address i lines s).1.images =
        s.images ++ lines.flatMap (fun p => imagesFrom part p.1 0 (p.2.vec graphemes)) ∧
      Recorded graphemes orig (Scan.lines graphemes part address i lines s).1.hyperlinks
        (i + lines.length) 0 := by
  intro lines
  induction lines with
  | nil =>
    intro i s _ h
    exact ⟨rfl, (List.append_nil _).symm, h⟩
  | cons p lines ih =>
    intro i s hlines h
    obtain ⟨row, line⟩ := p
    obtain ⟨hline, himages, hrec⟩ :=
      @scan_line graphemes part address orig harc i row line (hlines 0) s h
    have hrest : ∀ k, orig[i + 1 + k]? = lines[k]? := by
      intro k
      have hk := hlines (k + 1)
      rw [List.getElem?_cons_succ] at hk
      rw [← hk]
      exact congrArg _ (by omega)
    obtain ⟨hls, himgs, hall⟩ := ih (i + 1) (s.line graphemes part address i row line).1 hrest hrec
    refine ⟨?_, ?_, ?_⟩
    · show (row, (s.line graphemes part address i row line).2) :: _ = _ :: _
      rw [hline]
      exact congrArg (_ :: ·) hls
    · show (Scan.lines graphemes part address (i + 1) lines
        (s.line graphemes part address i row line).1).1.images = _
      rw [himgs, himages, List.append_assoc, List.flatMap_cons]
    · show Recorded graphemes orig (Scan.lines graphemes part address (i + 1) lines
        (s.line graphemes part address i row line).1).1.hyperlinks _ 0
      rw [List.length_cons, Nat.add_comm lines.length 1, ← Nat.add_assoc]
      exact hall

/-! ## Painting the records -/

/-- The lines without images, and with these links. -/
def dress (graphemes : Graphemes) (orig : List (Int × Line))
    (links : Nat → Nat → Option Hyperlink) : List (Int × Line) :=
  orig.mapIdx fun i p =>
    (p.1, p.2.setCells ((p.2.vec graphemes).mapIdx fun x c =>
      (c.setHyperlink (links i x)).clearImages))

theorem setRange_dressed {cols : Range Nat} {cells : List Cell} (links : Nat → Option Hyperlink)
    (hordered : cols.start ≤ cols.stop) (hinside : cols.stop ≤ cells.length) :
    setRange url cols (cells.mapIdx fun x c => (c.setHyperlink (links x)).clearImages) =
      cells.mapIdx fun x c => (c.setHyperlink
        (if cols.contains x then some url else links x)).clearImages := by
  unfold setRange
  rw [List.length_mapIdx, if_pos ⟨hordered, hinside⟩, List.mapIdx_mapIdx]
  congr 1
  funext x c
  dsimp only [Function.comp]
  split
  · rfl
  · rfl

theorem setLinks_dress {coord : CellCoordinates} (h : Right graphemes orig url coord)
    (links : Nat → Nat → Option Hyperlink) :
    setLinks graphemes url (dress graphemes orig links) coord = dress graphemes orig fun i x =>
        if i = coord.lineIdx ∧ coord.cols.contains x then some url else links i x := by
  unfold setLinks
  cases hline : orig[coord.lineIdx]? with
  | none =>
    have hnone : (dress graphemes orig links)[coord.lineIdx]? = none := by
      rw [dress, List.getElem?_mapIdx, hline]
      rfl
    rw [hnone]
    dsimp only
    unfold dress
    apply List.ext_getElem?
    intro i
    rw [List.getElem?_mapIdx, List.getElem?_mapIdx]
    by_cases hi : i = coord.lineIdx
    · rw [hi, hline]
      rfl
    · simp only [hi, false_and, if_false]
  | some p =>
    have hlen : lineLen graphemes orig coord.lineIdx = (p.2.vec graphemes).length := by
      rw [lineLen, hline]
      rfl
    have hsome : (dress graphemes orig links)[coord.lineIdx]? =
        some (p.1, p.2.setCells ((p.2.vec graphemes).mapIdx fun x c =>
          (c.setHyperlink (links coord.lineIdx x)).clearImages)) := by
      rw [dress, List.getElem?_mapIdx, hline]
      rfl
    rw [hsome]
    dsimp only
    apply List.ext_getElem?
    intro i
    rw [List.getElem?_set]
    by_cases hi : coord.lineIdx = i
    · obtain rfl := hi
      obtain ⟨hlt, hget⟩ := List.getElem?_eq_some_iff.mp hline
      have hlt' : coord.lineIdx < (dress graphemes orig links).length := by
        rw [dress, List.length_mapIdx]
        exact hlt
      rw [if_pos rfl, if_pos hlt', dress, List.getElem?_mapIdx, hline, Option.map_some]
      simp only [true_and]
      refine congrArg (fun cells => some (p.1, p.2.setCells cells)) ?_
      exact setRange_dressed (links coord.lineIdx) h.ordered (hlen ▸ h.inside)
    · have hi' : ¬ i = coord.lineIdx := fun h => hi h.symm
      rw [if_neg hi, dress, dress, List.getElem?_mapIdx, List.getElem?_mapIdx]
      simp only [hi', false_and, if_false]

theorem foldl_coords : ∀ (coords : List CellCoordinates) (links : Nat → Nat → Option Hyperlink),
    (∀ c ∈ coords, Right graphemes orig url c) →
    ∃ links', coords.foldl (setLinks graphemes url) (dress graphemes orig links) =
        dress graphemes orig links' ∧
      ∀ i x, links i x = linkAt graphemes orig i x ∨ (∃ c ∈ coords, CoordCovers c i x) →
        links' i x = linkAt graphemes orig i x := by
  intro coords
  induction coords with
  | nil =>
    intro links _
    refine ⟨links, rfl, ?_⟩
    rintro i x (h | ⟨c, hc, _⟩)
    · exact h
    · cases hc
  | cons c coords ih =>
    intro links hright
    have hc := hright c List.mem_cons_self
    obtain ⟨links', hfold, hlinks'⟩ := ih
      (fun i x => if i = c.lineIdx ∧ c.cols.contains x then some url else links i x)
      (fun c' hc' => hright c' (List.mem_cons_of_mem _ hc'))
    refine ⟨links', ?_, ?_⟩
    · rw [List.foldl_cons, setLinks_dress hc, hfold]
    · intro i x h
      apply hlinks'
      by_cases hcov : i = c.lineIdx ∧ c.cols.contains x
      · -- the coordinates in hand are right about the cell
        obtain ⟨rfl, hx⟩ := hcov
        simp only [Range.contains, Bool.and_eq_true, decide_eq_true_eq] at hx
        refine .inl ?_
        simp only [Range.contains, hx, decide_true, Bool.and_self, and_self, if_true]
        exact (hc.links x hx.1 hx.2).symm
      · rcases h with h | ⟨c', hc', hcov'⟩
        · refine .inl ?_
          rw [if_neg hcov]
          exact h
        · rcases List.mem_cons.mp hc' with rfl | hc'
          · refine absurd ⟨hcov'.1.symm, ?_⟩ hcov
            simp only [Range.contains, hcov'.2, decide_true, Bool.and_self]
          · exact .inr ⟨c', hc', hcov'⟩

theorem foldl_setLinks : ∀ (hs : List LineHyperlink) (links : Nat → Nat → Option Hyperlink),
    (∀ r ∈ hs, ∀ c ∈ r.coords, Right graphemes orig r.link c) →
    ∃ links', hs.foldl (fun lines link => link.coords.foldl (setLinks graphemes link.link) lines)
        (dress graphemes orig links) = dress graphemes orig links' ∧
      ∀ i x, links i x = linkAt graphemes orig i x ∨ (∃ r ∈ hs, Covers r i x) →
        links' i x = linkAt graphemes orig i x := by
  intro hs
  induction hs with
  | nil =>
    intro links _
    refine ⟨links, rfl, ?_⟩
    rintro i x (h | ⟨r, hr, _⟩)
    · exact h
    · cases hr
  | cons r hs ih =>
    intro links hright
    obtain ⟨links₁, hfold₁, hlinks₁⟩ := foldl_coords r.coords links (hright r List.mem_cons_self)
    obtain ⟨links₂, hfold₂, hlinks₂⟩ := ih links₁ fun r' hr' => hright r' (List.mem_cons_of_mem _ hr')
    refine ⟨links₂, ?_, ?_⟩
    · rw [List.foldl_cons, hfold₁, hfold₂]
    · intro i x h
      apply hlinks₂
      rcases h with h | ⟨r', hr', hcov⟩
      · exact .inl (hlinks₁ i x (.inl h))
      · rcases List.mem_cons.mp hr' with rfl | hr'
        · exact .inl (hlinks₁ i x (.inr hcov))
        · exact .inr ⟨r', hr', hcov⟩

/-- Bare lines are lines dressed with no link, and a line with all of its links back is what the
line was, but for its images. -/
theorem dress_none (orig : List (Int × Line)) : dress graphemes orig (fun _ _ => none) =
      orig.map fun p => (p.1, p.2.setCells ((p.2.vec graphemes).map bare)) := by
  unfold dress
  apply List.ext_getElem?
  intro i
  simp only [List.getElem?_mapIdx, List.getElem?_map]
  congr 1
  funext p
  congr 2
  exact List.mapIdx_eq_iff.mpr fun x => List.getElem?_map

theorem dress_linkAt {links : Nat → Nat → Option Hyperlink}
    (h : ∀ i x, links i x = linkAt graphemes orig i x) : dress graphemes orig links =
      orig.map fun p => (p.1, p.2.setCells ((p.2.vec graphemes).map Cell.clearImages)) := by
  unfold dress
  apply List.ext_getElem?
  intro i
  rw [List.getElem?_mapIdx, List.getElem?_map]
  cases hp : orig[i]? with
  | none => rfl
  | some p =>
    simp only [Option.map_some]
    refine congrArg (fun cells => some (p.1, p.2.setCells cells)) ?_
    apply List.ext_getElem?
    intro x
    rw [List.getElem?_mapIdx, List.getElem?_map]
    cases hc : (p.2.vec graphemes)[x]? with
    | none => rfl
    | some c =>
      have hlink : links i x = c.attrs.hyperlink := by
        rw [h, linkAt, hp, Option.bind_some, hc, Option.bind_some]
      rw [hlink]
      rfl

theorem extractData_fromLines (graphemes : Graphemes) (part : Nat → ImagePart)
    (lines : List (Int × Line)) (arcs : Arcs graphemes lines) :
    (SerializedLines.fromLines graphemes part lines arcs).extractData graphemes =
      (lines.map fun p => (p.1, p.2.setCells ((p.2.vec graphemes).map Cell.clearImages)),
        lines.flatMap fun p => imagesFrom part p.1 0 (p.2.vec graphemes)) := by
  have harc : OneLinkPerAddress graphemes arcs.address lines :=
    fun i x y l l' => arcs.one_link i x i y l l'
  have hstart : Recorded graphemes lines [] 0 0 := by
    refine ⟨fun r hr => absurd hr List.not_mem_nil, ?_⟩
    intro j y l hdone
    omega
  obtain ⟨hlines, himages, hrec⟩ := @scan_lines graphemes part arcs.address lines harc lines 0
    ⟨none, ⟨0, 0⟩, [], []⟩ (fun k => by rw [Nat.zero_add]) hstart
  rw [← dress_none] at hlines
  obtain ⟨links, hfold, hlinks⟩ := foldl_setLinks _ (fun _ _ => none) hrec.right
  -- a link is either recorded, or there is none to put back
  have hall : ∀ i x, links i x = linkAt graphemes lines i x := by
    intro i x
    apply hlinks
    cases hl : linkAt graphemes lines i x with
    | none => exact .inl rfl
    | some l =>
      refine .inr (hrec.complete i x l (.inl ?_) hl)
      rw [Nat.zero_add]
      rcases Nat.lt_or_ge i lines.length with hlt | hge
      · exact hlt
      · rw [linkAt, List.getElem?_eq_none hge] at hl
        cases hl
  have hpaint : ∀ hs : List LineHyperlink, (if hs.isEmpty then dress graphemes lines fun _ _ => none
      else hs.foldl (fun lines link => link.coords.foldl (setLinks graphemes link.link) lines)
        (dress graphemes lines fun _ _ => none)) =
      hs.foldl (fun lines link => link.coords.foldl (setLinks graphemes link.link) lines)
        (dress graphemes lines fun _ _ => none) := by
    intro hs
    cases hs <;> rfl
  unfold SerializedLines.fromLines SerializedLines.extractData
  dsimp only
  rw [hlines, himages, List.nil_append, hpaint, hfold, dress_linkAt hall]

/-! ## What comes back -/

/-- The cell without its images, and with all else that it had. -/
structure WithoutImages (c c' : Cell) : Prop where
  text : c'.text = c.text
  wide : c'.wide = c.wide
  hyperlink : c'.attrs.hyperlink = c.attrs.hyperlink
  images : c'.attrs.images = []
  wrapped : c'.attrs.wrapped = c.attrs.wrapped
  semanticType : c'.attrs.semanticType = c.attrs.semanticType
  decoration : c'.attrs.decoration = c.attrs.decoration
  style : c'.attrs.style = c.attrs.style

/-- The row with its line, of which every cell is there, in its column. -/
structure Returned (graphemes : Graphemes) (p p' : Int × Line) : Prop where
  row : p'.1 = p.1
  seqno : p'.2.seqno = p.2.seqno
  bits : p'.2.bits = p.2.bits
  cells : List.Forall₂ WithoutImages (p.2.vec graphemes) (p'.2.vec graphemes)

/-- **Lines come back from the wire.** After `extract_data` the rows are the same and every line has
its cells again, each with the text, link and attributes it had, without its images; and the list
of images has one entry for each image of each cell, in order, with the cell's row and column. -/
theorem extract_fromLines (graphemes : Graphemes) (part : Nat → ImagePart)
    (lines : List (Int × Line)) (arcs : Arcs graphemes lines) :
    List.Forall₂ (Returned graphemes) lines
        ((SerializedLines.fromLines graphemes part lines arcs).extractData graphemes).1 ∧
      ((SerializedLines.fromLines graphemes part lines arcs).extractData graphemes).2 =
        lines.flatMap fun p => imagesFrom part p.1 0 (p.2.vec graphemes) := by
  rw [extractData_fromLines]
  refine ⟨?_, rfl⟩
  rw [List.forall₂_map_right_iff, List.forall₂_same]
  intro p _
  refine ⟨rfl, rfl, rfl, ?_⟩
  show List.Forall₂ _ (p.2.vec graphemes) ((p.2.vec graphemes).map Cell.clearImages)
  rw [List.forall₂_map_right_iff, List.forall₂_same]
  exact fun c _ => ⟨rfl, rfl, rfl, rfl, rfl, rfl, rfl, rfl⟩

/-- Two links next to each other, and an image behind them. -/
def linkedLine : Line where
  cells := .V [⟨['a'], false, { CellAttributes.blank with hyperlink := some ⟨"a", false⟩ }, rfl⟩,
    ⟨['b'], false, { CellAttributes.blank with hyperlink := some ⟨"b", false⟩ }, rfl⟩,
    ⟨['c'], false, { CellAttributes.blank with images := [⟨0, 1, some 5, none⟩] }, rfl⟩]
  seqno := 1
  bits := .none

def letters : Graphemes := ⟨fun text => text.map fun c => [c], fun _ => false⟩

/-- The part of an image that is all of it. -/
def whole : ImagePart := ⟨⟨0, 0⟩, ⟨0x3f800000, 0x3f800000⟩, [], 0, 0, 0, 0⟩

/-- Row 7 on the wire. -/
def sent : SerializedLines :=
  .fromLines letters (fun _ => whole) [(7, linkedLine)] (.interned letters [(7, linkedLine)])

/-- Two records of links are sent, both come back, and the image is listed in column 2. -/
theorem extract_fromLines_linked : (sent.hyperlinks.map fun h => h.link.uri) = ["a", "b"] ∧
    List.Forall₂ (Returned letters) [(7, linkedLine)] (sent.extractData letters).1 ∧
      (sent.extractData letters).2 = [⟨7, 2, whole, 1, some 5, none⟩] :=
  ⟨by decide, extract_fromLines letters (fun _ => whole) [(7, linkedLine)]
    (.interned letters [(7, linkedLine)])⟩

end Wakterm.Theorems.SerializedLines
