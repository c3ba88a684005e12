import Wakterm.Bidi.Uax9

/-!
# The passes over the visual order

A cell is a place of the line: its level, which a control that is deleted takes from the place
before it, and the character that is there.
-/

namespace Wakterm.Bidi

open Machine

/-- A place of the line. -/
abbrev Cell : Type := Level × Option Nat

/-- Is there a character? -/
def Cell.kept (cell : Cell) : Bool := cell.2.isSome

/-- Is the place at the level or higher? -/
def Cell.atLeast (level : Int) (cell : Cell) : Bool := level ≤ cell.1.val

/-- The level in the vector of levels. -/
def Cell.raw (cell : Cell) : Level := if cell.2.isSome then cell.1 else noLevel

/-- A place without a character belongs to the one before it. -/
def Carried (level : Int) : Bool → List Cell → Prop
  | _, [] => True
  | prior, cell :: cells =>
    (if cell.2.isSome then cell.1.removedByX9 = false else Cell.atLeast level cell = prior) ∧
      Carried level (Cell.atLeast level cell) cells

theorem reverseSlice_append {α : Type} (done cur rest : List α) (h : cur ≠ []) :
    reverseSlice (done ++ (cur ++ rest)) done.length (done.length + cur.length - 1) =
      done ++ (cur.reverse ++ rest) := by
  have hpos := List.length_pos_iff.mpr h
  have hlast : done.length + cur.length - 1 + 1 = done.length + cur.length := by omega
  have htake : (done ++ (cur ++ rest)).take (done.length + cur.length) = done ++ cur := by
    rw [← List.append_assoc]
    exact List.take_left' (by simp)
  have hdrop : (done ++ (cur ++ rest)).drop (done.length + cur.length) = rest := by
    rw [← List.append_assoc]
    exact List.drop_left' (by simp)
  unfold reverseSlice
  rw [hlast, htake, hdrop, List.take_left, List.drop_left]

section Pass

variable {level : Int} {sig : Bool} {done : List (Option Nat)} {cur : List Cell}
  {cells : List (Cell × Cell)}

/-- The flags of a pass that has gone over a range. -/
def Scan.open (start : Nat) (cur : List Cell) (sig : Bool) : Scan :=
  ⟨true, sig, some start, if cur.length ≤ 1 then none else some (start + cur.length - 1)⟩

theorem reverseRange_open (rest : List (Option Nat)) (hcur : cur ≠ []) :
    (Scan.open done.length cur sig).reverseRange (done ++ (cur.map Prod.snd ++ rest)) =
      done ++ ((cur.map Prod.snd).reverse ++ rest) := by
  have hpos := List.length_pos_iff.mpr hcur
  unfold Scan.open Scan.reverseRange
  by_cases hone : cur.length ≤ 1
  · obtain ⟨cell, rfl⟩ := List.length_eq_one_iff.mp (Nat.le_antisymm hone hpos)
    rfl
  · simp only [if_neg hone]
    rw [if_pos (by omega)]
    have hslice := reverseSlice_append done (cur.map Prod.snd) rest (by simpa using hcur)
    rw [List.length_map] at hslice
    exact hslice

theorem turned_range (hcount : sig = false → cur.countP Cell.kept ≤ 1) :
    (if sig then cur.reverse else cur) = cur.reverse ∨
      (if sig then cur.reverse else cur) = cur ∧ cur.countP Cell.kept ≤ 1 := by
  cases sig with
  | true => exact .inl rfl
  | false => exact .inr ⟨rfl, hcount rfl⟩

theorem closeRange (sig : Bool) (done rest : List (Option Nat)) (hcur : cur ≠ []) :
    (if sig then (Scan.open done.length cur sig).reverseRange (done ++ (cur.map Prod.snd ++ rest))
      else done ++ (cur.map Prod.snd ++ rest)) =
      done ++ ((if sig then cur.reverse else cur).map Prod.snd ++ rest) := by
  cases sig with
  | true =>
    rw [if_pos rfl, if_pos rfl, reverseRange_open rest hcur, List.map_reverse]
  | false => rfl

/-- What a pass does from a place outside of a range. -/
def Outside (level : Int) (cells : List (Cell × Cell)) : Prop :=
  ∀ (done : List (Option Nat)) (sig : Bool), Carried level false (cells.map Prod.snd) →
    tally (Cell.atLeast level) Cell.kept 0 (cells.map Prod.fst) =
      tally (Cell.atLeast level) Cell.kept 0 (cells.map Prod.snd) →
    ∃ out, Turned (Cell.atLeast level) Cell.kept (cells.map Prod.fst) out ∧
      reversePass level done.length ⟨false, sig, none, none⟩ (cells.map fun cell => cell.2.raw)
        (done ++ cells.map fun cell => cell.1.2) = done ++ out.map Prod.snd

/-- What a pass does in a range, of which it has seen the cells `cur`. -/
def Inside (level : Int) (cells : List (Cell × Cell)) : Prop :=
  ∀ (done : List (Option Nat)) (sig : Bool) (cur : List Cell) (count : Nat), cur ≠ [] →
    (∀ cell ∈ cur, Cell.atLeast level cell = true) → (sig = false → count ≤ 1) →
    Carried level true (cells.map Prod.snd) →
    tally (Cell.atLeast level) Cell.kept (cur.countP Cell.kept) (cells.map Prod.fst) =
      tally (Cell.atLeast level) Cell.kept count (cells.map Prod.snd) →
    ∃ out, Turned (Cell.atLeast level) Cell.kept (cur ++ cells.map Prod.fst) out ∧
      reversePass level (done.length + cur.length) (Scan.open done.length cur sig)
        (cells.map fun cell => cell.2.raw)
        (done ++ (cur.map Prod.snd ++ cells.map fun cell => cell.1.2)) = done ++ out.map Prod.snd

theorem inside_nil : Inside level [] := by
  intro done sig cur count hcur hall hsig _ htally
  have hcount : cur.countP Cell.kept = count := (List.cons.inj htally).1
  refine ⟨(if sig then cur.reverse else cur) ++ [], .run hall (by simp)
    (turned_range fun h => hcount ▸ hsig h) .nil, ?_⟩
  have hclosed := closeRange sig done [] hcur
  rw [List.append_nil, List.append_nil] at hclosed
  rw [List.append_nil, ← hclosed]
  simp only [List.map_nil, reversePass, List.append_nil]
  rfl

variable {cell orig : Cell}

theorem outside_skip (hcell : Cell.atLeast level cell = false)
    (horig : Cell.atLeast level orig = false) (hpass : ∀ i sig rest visual,
      reversePass level i ⟨false, sig, none, none⟩ (orig.raw :: rest) visual =
        reversePass level (i + 1) ⟨false, sig, none, none⟩ rest visual)
    (hrest : Outside level cells) : Outside level ((cell, orig) :: cells) := by
  intro done sig hcarried htally
  have hcarried' := hcarried.2
  rw [horig] at hcarried'
  simp only [List.map_cons, tally, hcell, horig, Bool.false_eq_true, if_false] at htally
  obtain ⟨out, hturned, hrun⟩ := hrest (done ++ [cell.2]) sig hcarried' (List.cons.inj htally).2
  refine ⟨cell :: out, .skip hcell hturned, ?_⟩
  rw [List.length_append] at hrun
  simp only [List.map_cons, hpass]
  simpa using hrun

theorem outside_begin (hcell : Cell.atLeast level cell = true)
    (horig : Cell.atLeast level orig = true) (hkept : orig.2.isSome = true)
    (hrest : Inside level cells) : Outside level ((cell, orig) :: cells) := by
  intro done sig hcarried htally
  have hcarried' := hcarried.2
  rw [horig] at hcarried'
  simp only [List.map_cons, tally, hcell, horig, if_true, Nat.zero_add] at htally
  have hcount : (if Cell.kept orig then 1 else 0) ≤ 1 := by split <;> omega
  obtain ⟨out, hturned, hrun⟩ := hrest done sig [cell] _ (List.cons_ne_nil _ _) (by simpa using hcell)
    (fun _ => hcount) hcarried' (by simpa [List.countP_cons] using htally)
  refine ⟨out, hturned, ?_⟩
  have hraw : orig.raw = orig.1 := if_pos hkept
  have hle : level ≤ orig.1.val := by simpa [Cell.atLeast] using horig
  simp only [List.map_cons, hraw, reversePass, if_pos hle, Bool.not_false, if_true]
  exact hrun

theorem inside_continue (hcell : Cell.atLeast level cell = true)
    (horig : Cell.atLeast level orig = true) (more : Bool)
    (hcount : (if Cell.kept orig then 1 else 0) = 0 ∨ more = true)
    (hpass : ∀ start i sig last rest visual,
      reversePass level i ⟨true, sig, some start, last⟩ (orig.raw :: rest) visual =
        reversePass level (i + 1) ⟨true, sig || more, some start, some i⟩ rest visual)
    (hrest : Inside level cells) : Inside level ((cell, orig) :: cells) := by
  intro done sig cur count hcur hall hsig hcarried htally
  have hcarried' := hcarried.2
  rw [horig] at hcarried'
  simp only [List.map_cons, tally, hcell, horig, if_true] at htally
  have hpos := List.length_pos_iff.mpr hcur
  obtain ⟨out, hturned, hrun⟩ := hrest done (sig || more) (cur ++ [cell])
    (count + if Cell.kept orig then 1 else 0) (by simp)
    (fun other hother => by
      rcases List.mem_append.mp hother with hother | hother
      · exact hall other hother
      · exact List.mem_singleton.mp hother ▸ hcell)
    (fun h => by
      obtain ⟨hs, hm⟩ := Bool.or_eq_false_iff.mp h
      rcases hcount with hzero | hmore
      · rw [hzero]
        exact hsig hs
      · exact absurd (hm.symm.trans hmore) (by simp))
    hcarried' (by simpa [List.countP_append, List.countP_cons] using htally)
  refine ⟨out, ?_, ?_⟩
  · simpa using hturned
  · have hscan : Scan.open done.length (cur ++ [cell]) (sig || more) =
        ⟨true, sig || more, some done.length, some (done.length + cur.length)⟩ := by
      have hlen : (cur ++ [cell]).length = cur.length + 1 := by simp
      unfold Scan.open
      rw [hlen, if_neg (by omega)]
      congr 2
    rw [hscan] at hrun
    unfold Scan.open
    simp only [List.map_cons, hpass]
    simpa [Nat.add_assoc] using hrun

theorem inside_end (hcell : Cell.atLeast level cell = false)
    (horig : Cell.atLeast level orig = false) (hkept : orig.2.isSome = true)
    (hremoved : orig.1.removedByX9 = false)
    (hrest : Outside level cells) : Inside level ((cell, orig) :: cells) := by
  intro done sig cur count hcur hall hsig hcarried htally
  have hcarried' := hcarried.2
  rw [horig] at hcarried'
  simp only [List.map_cons, tally, hcell, horig, Bool.false_eq_true, if_false] at htally
  obtain ⟨hsame, htally⟩ := List.cons.inj htally
  let turned := if sig then cur.reverse else cur
  have hlength : turned.length = cur.length := by
    show (if sig then cur.reverse else cur).length = _
    split
    · exact List.length_reverse
    · rfl
  obtain ⟨out, hturned, hrun⟩ :=
    hrest (done ++ (turned.map Prod.snd ++ [cell.2])) sig hcarried' htally
  refine ⟨turned ++ cell :: out, .run hall (by simpa using hcell)
    (turned_range fun h => hsame ▸ hsig h) (.skip hcell hturned), ?_⟩
  have hraw : orig.raw = orig.1 := if_pos hkept
  have hlt : ¬level ≤ orig.1.val := by simpa [Cell.atLeast] using horig
  have hclosed := closeRange sig done (cell.2 :: cells.map fun c => c.1.2) hcur
  simp only [List.map_cons, hraw, reversePass, if_neg hlt, hremoved, Bool.false_eq_true, if_false]
  show reversePass level _ ⟨false, sig, none, none⟩ _ (if sig then _ else _) = _
  rw [hclosed]
  simpa [hlength, Nat.add_assoc] using hrun

theorem Carried.head {prior : Bool} {rest : List Cell} (h : Carried level prior (orig :: rest)) :
    if orig.2.isSome then orig.1.removedByX9 = false else Cell.atLeast level orig = prior :=
  h.1

theorem reversePass_kept (low : Bool) (hlow : Cell.atLeast level orig = !low)
    (hkept : orig.2.isSome = true) (hremoved : orig.1.removedByX9 = false) (i : Nat) (s : Scan)
    (rest : List Level) (visual : List (Option Nat)) :
    reversePass level i s (orig.raw :: rest) visual = if low then
        reversePass level (i + 1) { s with inRange := false, firstPos := none, lastPos := none } rest
          (if s.significantRange then s.reverseRange visual else visual)
      else if !s.inRange then
        reversePass level (i + 1) { s with inRange := true, firstPos := some i } rest visual
      else
        reversePass level (i + 1) { s with significantRange := true, lastPos := some i } rest
          visual := by
  have hraw : orig.raw = orig.1 := if_pos hkept
  rw [reversePass, hraw]
  cases low with
  | true =>
    have hlt : ¬level ≤ orig.1.val := by simpa [Cell.atLeast] using hlow
    rw [if_neg hlt, hremoved]
    rfl
  | false =>
    have hle : level ≤ orig.1.val := by simpa [Cell.atLeast] using hlow
    rw [if_pos hle]
    rfl

theorem reversePass_removed (hlevel : 0 ≤ level) (hkept : orig.2.isSome = false) (i : Nat)
    (s : Scan) (rest : List Level) (visual : List (Option Nat)) :
    reversePass level i s (orig.raw :: rest) visual =
      reversePass level (i + 1) (if s.inRange then { s with lastPos := some i } else s) rest
        visual := by
  have hraw : orig.raw = noLevel := if_neg (by simp [hkept])
  have hlt : ¬level ≤ noLevel.val := by
    show ¬level ≤ -1
    omega
  rw [reversePass, hraw, if_neg hlt]
  rfl

theorem reversePass_turned (hlevel : 0 ≤ level)
    (hsame : ∀ c ∈ cells, Cell.atLeast level c.1 = Cell.atLeast level c.2) :
    Outside level cells ∧ Inside level cells := by
  induction cells with
  | nil => exact ⟨fun done sig _ _ => ⟨[], .nil, rfl⟩, inside_nil⟩
  | cons first cells ih =>
    obtain ⟨cell, orig⟩ := first
    obtain ⟨hfirst, hrest⟩ := List.forall_mem_cons.mp hsame
    obtain ⟨houtside, hinside⟩ := ih hrest
    have hcell : ∀ {b : Bool}, Cell.atLeast level orig = b → Cell.atLeast level cell = b :=
      fun h => hfirst.trans h
    cases hkept : orig.2.isSome with
    | false =>
      have hpass := reversePass_removed hlevel hkept
      constructor
      · intro done sig hcarried
        have horig := hcarried.head
        rw [hkept, if_neg (by simp)] at horig
        exact outside_skip (hcell horig) horig (fun i sig rest visual => hpass i _ rest visual)
          houtside done sig hcarried
      · intro done sig cur count hcur hall hsig hcarried
        have horig := hcarried.head
        rw [hkept, if_neg (by simp)] at horig
        exact inside_continue (hcell horig) horig false
          (.inl (by simp [Cell.kept, hkept]))
          (fun start i sig last rest visual => by rw [hpass, Bool.or_false]; rfl)
          hinside done sig cur count hcur hall hsig hcarried
    | true =>
      cases horig : Cell.atLeast level orig with
      | true =>
        constructor
        · exact outside_begin (hcell horig) horig hkept hinside
        · intro done sig cur count hcur hall hsig hcarried
          have hremoved := hcarried.head
          rw [hkept, if_pos rfl] at hremoved
          have hpass := reversePass_kept false horig hkept hremoved
          exact inside_continue (hcell horig) horig true (.inr rfl)
            (fun start i sig last rest visual => by rw [hpass, Bool.or_true]; rfl)
            hinside done sig cur count hcur hall hsig hcarried
      | false =>
        constructor
        · intro done sig hcarried
          have hremoved := hcarried.head
          rw [hkept, if_pos rfl] at hremoved
          have hpass := reversePass_kept true horig hkept hremoved
          refine outside_skip (hcell horig) horig (fun i sig rest visual => ?_) houtside done
            sig hcarried
          rw [hpass, if_pos rfl]
          cases sig with
          | true => rfl
          | false => rfl
        · intro done sig cur count hcur hall hsig hcarried
          have hremoved := hcarried.head
          rw [hkept, if_pos rfl] at hremoved
          exact inside_end (hcell horig) horig hkept hremoved houtside done sig cur count hcur
            hall hsig hcarried

end Pass

/-! ## All passes -/

/-- What a level sees of a cell: is it at the level, and does it end a range if it is not? -/
def Cell.seen (level : Int) (cell : Cell) : Bool × Bool :=
  (Cell.atLeast level cell, Cell.atLeast level cell || Cell.kept cell)

/-- For a level the cells are still as they were. -/
structure SameFor (level : Int) (cells orig : List Cell) : Prop where
  seen : cells.map (Cell.seen level) = orig.map (Cell.seen level)
  tally : tally (Cell.atLeast level) Cell.kept 0 cells =
    tally (Cell.atLeast level) Cell.kept 0 orig

theorem SameFor.refl (level : Int) (cells : List Cell) : SameFor level cells cells := ⟨rfl, rfl⟩

variable {other level lowest : Int} {cells orig : List Cell}

theorem atLeast_of_lt (h : other ≤ level) {cell : Cell} (hcell : Cell.atLeast level cell = true) :
    Cell.atLeast other cell = true := by
  have hle : level ≤ cell.1.val := by simpa [Cell.atLeast] using hcell
  simpa [Cell.atLeast] using h.trans hle

theorem SameFor.turned {out : List Cell} (h : SameFor other cells orig) (hle : other ≤ level)
    (hturned : Turned (Cell.atLeast level) Cell.kept cells out) : SameFor other out orig := by
  refine ⟨(hturned.map_eq fun x y hx hy => ?_).trans h.seen,
    (hturned.tally_eq (fun x hx => atLeast_of_lt hle hx) 0).trans h.tally⟩
  unfold Cell.seen
  rw [atLeast_of_lt hle hx, atLeast_of_lt hle hy]
  rfl

/-- What ends a range is a character. -/
def EndsKept (level : Int) (cells : List Cell) : Prop :=
  cells.IsChain fun a b =>
    Cell.atLeast level a = true → Cell.atLeast level b = false → Cell.kept b = true

theorem endsKept_iff (cells : List Cell) :
    EndsKept level cells ↔ (cells.map (Cell.seen level)).IsChain fun a b =>
      a.1 = true → b.1 = false → b.2 = true := by
  rw [List.isChain_map]
  refine List.IsChain.iff fun a b => ?_
  unfold Cell.seen
  constructor
  · intro h ha hb
    simp only [h ha hb, Bool.or_true]
  · intro h ha hb
    have hkept := h ha hb
    rwa [hb, Bool.false_or] at hkept

theorem SameFor.endsKept (h : SameFor level cells orig) (horig : EndsKept level orig) :
    EndsKept level cells := by
  rw [endsKept_iff, h.seen, ← endsKept_iff]
  exact horig

theorem SameFor.length (h : SameFor level cells orig) : cells.length = orig.length := by
  simpa using congrArg List.length h.seen

theorem SameFor.atLeast (h : SameFor level cells orig) :
    ∀ c ∈ cells.zip orig, Cell.atLeast level c.1 = Cell.atLeast level c.2 := by
  intro c hc
  obtain ⟨i, hi⟩ := List.getElem?_of_mem hc
  obtain ⟨hcell, horig⟩ := List.getElem?_zip_eq_some.mp hi
  have hseen := congrArg (·[i]?) h.seen
  simp only [List.getElem?_map, hcell, horig, Option.map_some, Option.some.injEq] at hseen
  exact congrArg Prod.fst hseen

theorem reversePass_spec (hlevel : 0 ≤ level) (hsame : SameFor level cells orig)
    (hcarried : Carried level false orig) (hends : EndsKept level orig) :
    ∃ out, Turned (Cell.atLeast level) Cell.kept cells out ∧
      reversePass level 0 ⟨false, false, none, none⟩ (orig.map Cell.raw) (cells.map Prod.snd) =
        out.map Prod.snd ∧
      out.filter Cell.kept = reverseRuns (Cell.atLeast level) (cells.filter Cell.kept) := by
  have hfst : (cells.zip orig).map Prod.fst = cells := List.map_fst_zip hsame.length.le
  have hsnd : (cells.zip orig).map Prod.snd = orig := List.map_snd_zip hsame.length.ge
  obtain ⟨out, hturned, hrun⟩ := (reversePass_turned hlevel hsame.atLeast).1 [] false
    (by rw [hsnd]; exact hcarried) (by rw [hfst, hsnd]; exact hsame.tally)
  have hraw : ((cells.zip orig).map fun cell => cell.2.raw) = orig.map Cell.raw := by
    rw [← hsnd, List.map_map, hsnd]
    rfl
  have hchars : ((cells.zip orig).map fun cell => cell.1.2) = cells.map Prod.snd := by
    rw [← hfst, List.map_map, hfst]
    rfl
  rw [hfst] at hturned
  rw [hraw, hchars] at hrun
  exact ⟨out, hturned, hrun, hturned.filter_eq (hsame.endsKept hends)⟩

theorem passes_spec (hcarried : ∀ level, 0 ≤ level → Carried level false orig)
    (hends : ∀ level, EndsKept level orig) {levels : List Int} (hdown : levels.Pairwise (· > ·))
    (hpos : ∀ level ∈ levels, 0 ≤ level) (hsame : ∀ level ∈ levels, SameFor level cells orig) :
    ∃ out : List Cell, levels.foldl (fun visual level =>
        reversePass level 0 ⟨false, false, none, none⟩ (orig.map Cell.raw) visual)
        (cells.map Prod.snd) = out.map Prod.snd ∧
      out.filter Cell.kept = levels.foldl (fun cells level =>
        reverseRuns (Cell.atLeast level) cells) (cells.filter Cell.kept) := by
  induction levels generalizing cells with
  | nil => exact ⟨cells, rfl, rfl⟩
  | cons level levels ih =>
    obtain ⟨hlower, hdown⟩ := List.pairwise_cons.mp hdown
    obtain ⟨hlevel, hpos⟩ := List.forall_mem_cons.mp hpos
    obtain ⟨hfirst, hrest⟩ := List.forall_mem_cons.mp hsame
    obtain ⟨mid, hturned, hrun, hkept⟩ :=
      reversePass_spec hlevel hfirst (hcarried level hlevel) (hends level)
    obtain ⟨out, hout, hfilter⟩ := ih hdown hpos fun other hother =>
      (hrest other hother).turned (le_of_lt (hlower other hother)) hturned
    refine ⟨out, ?_, ?_⟩
    · rw [List.foldl_cons, hrun]
      exact hout
    · rw [List.foldl_cons, ← hkept]
      exact hfilter

/-! ## The cells of a line -/

/-- The cells of a line, with the level of the place before. -/
@[grind =] def cellsFrom : Level → List Level → Nat → List Cell
  | _, [], _ => []
  | prior, level :: levels, i =>
    if level.removedByX9 then (prior, none) :: cellsFrom prior levels (i + 1)
    else (level, some i) :: cellsFrom level levels (i + 1)

def cellsOf (levels : List Level) (start : Nat) : List Cell := cellsFrom noLevel levels start

section Cells

variable (prior : Level) (levels : List Level) (i : Nat)

theorem raw_cellsFrom : (cellsFrom prior levels i).map Cell.raw = levels := by
  induction levels generalizing prior i with
  | nil => rfl
  | cons level levels ih =>
    rw [cellsFrom]
    split
    · next hremoved =>
      rw [List.map_cons, ih]
      have heq : level = noLevel := by simpa [Level.removedByX9] using hremoved
      rw [heq]
      rfl
    · rw [List.map_cons, ih]
      rfl

theorem visual_cellsFrom (k first : Nat) : (cellsFrom prior levels (k + first)).map Prod.snd =
      (levels.zipIdx k).map fun place =>
        if place.1.removedByX9 then none else some (place.2 + first) := by
  induction levels generalizing prior k with
  | nil => rfl
  | cons level levels ih =>
    rw [cellsFrom, List.zipIdx_cons, List.map_cons]
    have hnext : k + first + 1 = k + 1 + first := by omega
    split
    · rw [List.map_cons, hnext, ih]
    · rw [List.map_cons, hnext, ih]

theorem carried_cellsFrom (level : Int) :
    Carried level (Cell.atLeast level (prior, none)) (cellsFrom prior levels i) := by
  induction levels generalizing prior i with
  | nil => trivial
  | cons first levels ih =>
    rw [cellsFrom]
    split
    · exact ⟨rfl, ih prior (i + 1)⟩
    · next hkept => exact ⟨by simpa using hkept, ih first (i + 1)⟩

theorem endsKept_cellsFrom (level : Int) (x : Option Nat) :
    EndsKept level ((prior, x) :: cellsFrom prior levels i) := by
  induction levels generalizing prior i x with
  | nil => exact .singleton _
  | cons first levels ih =>
    rw [cellsFrom]
    split
    · refine .cons_cons (fun ha hb => ?_) (ih prior (i + 1) none)
      exact absurd (ha.symm.trans hb) (by simp)
    · exact .cons_cons (fun _ _ => rfl) (ih first (i + 1) (some i))

theorem chars_cellsFrom :
    ((cellsFrom prior levels i).filter Cell.kept).map (fun cell => (cell.1, cell.2.getD 0)) =
      Uax9.lineChars levels i := by
  induction levels generalizing prior i with
  | nil => rfl
  | cons level levels ih =>
    unfold Uax9.lineChars
    rw [cellsFrom, List.zipIdx_cons]
    split
    · next hremoved =>
      rw [List.filter_cons_of_neg (by simp [Cell.kept]), List.filter_cons_of_neg (by simpa), ih]
      rfl
    · next hkept =>
      rw [List.filter_cons_of_pos (by simp [Cell.kept]),
        List.filter_cons_of_pos (by simpa using hkept), List.map_cons, ih]
      rfl

end Cells

/-! ## The order of the characters -/

theorem mem_levelsDown {highest : Int} :
    level ∈ levelsDown lowest highest ↔ lowest ≤ level ∧ level ≤ highest := by
  unfold levelsDown
  rw [List.mem_map]
  constructor
  · rintro ⟨k, hk, rfl⟩
    have hlt := List.mem_range.mp hk
    omega
  · rintro ⟨hlow, hhigh⟩
    refine ⟨(highest - level).toNat, List.mem_range.mpr ?_, ?_⟩
    · omega
    · omega

theorem pairwise_levelsDown (lowest highest : Int) :
    (levelsDown lowest highest).Pairwise (· > ·) := by
  unfold levelsDown
  rw [List.pairwise_map]
  refine List.pairwise_lt_range.imp fun {a b} h => ?_
  omega

theorem foldl_reverseLevel (levels : List Int) (cells : List Cell) :
    (levels.foldl (fun cells level => reverseRuns (Cell.atLeast level) cells) cells).map
        (fun cell => (cell.1, cell.2.getD 0)) =
      levels.foldl Uax9.reverseLevel (cells.map fun cell => (cell.1, cell.2.getD 0)) := by
  induction levels generalizing cells with
  | nil => rfl
  | cons level levels ih =>
    rw [List.foldl_cons, List.foldl_cons, ih]
    congr 1
    exact (reverseRuns_map (p := fun char : Level × Nat => decide (level ≤ char.1.val))
      (fun cell : Cell => (cell.1, cell.2.getD 0)) cells).symm

theorem filterMap_kept (cells : List Cell) : (cells.map Prod.snd).filterMap id =
      ((cells.filter Cell.kept).map fun cell => (cell.1, cell.2.getD 0)).map Prod.snd := by
  induction cells with
  | nil => rfl
  | cons cell cells ih =>
    obtain ⟨level, place⟩ := cell
    cases place with
    | none => exact ih
    | some i => exact congrArg (i :: ·) ih

theorem initialVisual_cells (start : Nat) (levels : List Level) :
    initialVisual start levels = (cellsOf levels start).map Prod.snd := by
  have hplaces := visual_cellsFrom noLevel levels 0 start
  rw [Nat.zero_add] at hplaces
  exact hplaces.symm

theorem filterMap_initialVisual (start : Nat) (levels : List Level) :
    (initialVisual start levels).filterMap id = (Uax9.lineChars levels start).map Prod.snd := by
  rw [initialVisual_cells, filterMap_kept]
  exact congrArg _ (chars_cellsFrom noLevel levels start)

theorem reversePasses_eq (start : Nat) (levels : List Level) (highest : Int) (hlow : 0 ≤ lowest) :
    (reversePasses lowest highest levels (initialVisual start levels)).filterMap id =
      ((levelsDown lowest highest).foldl Uax9.reverseLevel (Uax9.lineChars levels start)).map
        Prod.snd := by
  have hends : ∀ level, EndsKept level (cellsOf levels start) := fun level =>
    (endsKept_cellsFrom noLevel levels start level none).tail
  have hcarried : ∀ level, 0 ≤ level → Carried level false (cellsOf levels start) := by
    intro level hlevel
    have hprior : Cell.atLeast level (noLevel, none) = false := by
      have hlt : ¬level ≤ noLevel.val := by
        show ¬level ≤ -1
        omega
      exact decide_eq_false hlt
    exact hprior ▸ carried_cellsFrom noLevel levels start level
  obtain ⟨out, hrun, hkept⟩ := passes_spec hcarried hends (pairwise_levelsDown lowest highest)
    (fun level h => hlow.trans (mem_levelsDown.mp h).1) fun level _ => SameFor.refl level _
  have hraw : (cellsOf levels start).map Cell.raw = levels := raw_cellsFrom noLevel levels start
  rw [hraw] at hrun
  unfold reversePasses
  rw [initialVisual_cells, hrun, filterMap_kept, hkept, foldl_reverseLevel]
  congr 2
  exact chars_cellsFrom noLevel levels start

end Wakterm.Bidi
