import Wakterm.Mux.Logic.RemoveExact
import Wakterm.Mux.Logic.RemoveSizes
import Wakterm.Mux.Logic.Tiling

/-!
# Removing panes behind a zoomed one

`remove_pane_if` tells every pane it passes after the first removal the size of its place, the
zoomed one too.
-/

namespace Wakterm.Mux

open Wakterm.Machine Wakterm.Bintree

namespace TabInner

theorem zoomedRule (f : Nat → Pane → Bool) (rootSize cell : TerminalSize)
    (zoomedId : Option PaneId) (zoomed : Option Pane) :
    RemovalRule f rootSize cell zoomedId (fun s _ _ => s.zoomed = none ∨ s.zoomed = zoomed)
      (fun s _ _ => s.zoomed = none ∨ s.zoomed = zoomed)
      fun s _ => s.zoomed = none ∨ s.zoomed = zoomed := by
  have htake : ∀ {s : Removal} (x : Pane), s.zoomed = none ∨ s.zoomed = zoomed →
      (s.take zoomedId x).zoomed = none ∨ (s.take zoomedId x).zoomed = zoomed := by
    intro s x h
    by_cases hid : some x.paneId = zoomedId
    · exact .inl (if_pos hid)
    · rw [show (s.take zoomedId x).zoomed = s.zoomed from if_neg hid]
      exact h
  refine
    { empty := fun h => h
      node := fun h => h
      keep := fun h _ => h
      removeTop := fun h _ => htake _ h
      removeLeft := ?_
      removeRight := ?_
      cross := fun h => h
      up := fun h => h
      finish := fun h => h }
  · intro s x r d up h _
    cases r <;> exact htake x h
  · intro s x l d up h _
    cases l <;> exact htake x h

section TakenOut

variable (g : Pane → Bool) (z : Pane)

/-- The pane matches, and the walk comes to it: it is not the second of a pair
whose first pane matches too. -/
def TakenOut : PaneTree → Prop
  | .empty => False
  | .leaf x => x = z ∧ g x = true
  | .node l r _ =>
    TakenOut l ∨ TakenOut r ∧ ∀ a x, l = .leaf a → r = .leaf x → g a = false

/-- The walk has still to come to it. -/
def Ahead : Path Pane SplitDirectionAndSize → Prop
  | .top => False
  | .left r _ up => TakenOut g z r ∨ Ahead up
  | .right _ _ up => Ahead up

/-- The same on arrival at a subtree. -/
def AheadAt (t : PaneTree) : Path Pane SplitDirectionAndSize → Prop
  | .top => False
  | .left r _ up =>
    TakenOut g z r ∧ (∀ a x, t = .leaf a → r = .leaf x → g a = false) ∨ Ahead g z up
  | .right _ _ up => Ahead g z up

variable {g z}

theorem AheadAt.ahead {t : PaneTree} {p : Path Pane SplitDirectionAndSize}
    (h : AheadAt g z t p) : Ahead g z p := by
  cases p with
  | top => exact h
  | left r d up => exact h.imp_left And.left
  | right l d up => exact h

theorem TakenOut.node {l r : PaneTree} {d : Option SplitDirectionAndSize}
    (h : TakenOut g z (.node l r d)) (d' : Option SplitDirectionAndSize)
    (up : Path Pane SplitDirectionAndSize) : TakenOut g z l ∨ AheadAt g z l (.left r d' up) :=
  h.imp_right .inl

/-- What is kept of the walk: the zoom has ended, or it will. -/
def Ending (s : Removal) (p : Path Pane SplitDirectionAndSize) (t : PaneTree) (ahead : Prop) :
    Prop :=
  s.zoomed = none ∨ (p.plug t).Full ∧ ahead

theorem regrown_ending {s : Removal} {t : PaneTree} {up : Path Pane SplitDirectionAndSize}
    {size : TerminalSize} (h : s.zoomed = none ∨ (up.plug t).Full ∧
      (Ahead g z up ∨ TakenOut g z t ∧ ∀ x, t ≠ .leaf x)) :
    Regrown (fun s t p => Ending s p t (TakenOut g z t ∨ AheadAt g z t p))
      (fun s t p => Ending s p t (Ahead g z p)) (fun s _ => s.zoomed = none) s t up size := by
  rcases h with h | ⟨hfull, h⟩
  · cases t with
    | empty => exact h
    | leaf y => exact .inl h
    | node l r d => exact .inl h
  · cases t with
    | empty => exact ((up.full_plug _).mp hfull).1.elim
    | leaf y => exact .inr ⟨hfull, h.resolve_right fun h => h.2 y rfl⟩
    | node l r d =>
      refine .inr ⟨?_, ?_⟩
      · simpa only [Path.plug, Path.full_plug, BinTree.Full] using hfull
      · exact h.elim (fun h => .inr (.inr h)) fun h => h.1.node _ up

theorem takenOutRule (rootSize cell : TerminalSize) :
    RemovalRule (fun _ x => g x) rootSize cell (some z.paneId)
      (fun s t p => Ending s p t (TakenOut g z t ∨ AheadAt g z t p))
      (fun s t p => Ending s p t (Ahead g z p)) fun s _ => s.zoomed = none := by
  -- taking out a pane keeps the end of the zoom, taking out the pane brings it
  have htake : ∀ {s : Removal} (x : Pane), s.zoomed = none ∨ x = z →
      (s.take (some z.paneId) x).zoomed = none := by
    intro s x h
    by_cases hid : some x.paneId = some z.paneId
    · exact if_pos hid
    · rw [show (s.take (some z.paneId) x).zoomed = s.zoomed from if_neg hid]
      exact h.resolve_right fun h => hid (by rw [h])
  refine
    { empty := ?_, node := ?_, keep := ?_, removeTop := ?_, removeLeft := ?_,
      removeRight := ?_, cross := ?_, up := ?_, finish := ?_ }
  · rintro s p (h | ⟨hfull, -⟩)
    · exact h
    · exact ((p.full_plug _).mp hfull).1.elim
  · rintro s l r d p (h | ⟨hfull, h⟩)
    · exact .inl h
    · refine .inr ⟨?_, ?_⟩
      · simpa only [Path.plug, Path.full_plug, BinTree.Full] using hfull
      · exact h.elim (fun h => h.node _ p) fun h => .inr (.inr h.ahead)
  · rintro s x p (h | ⟨hfull, h⟩) hx
    · exact .inl h
    · refine .inr ⟨hfull, h.elim (fun h => ?_) AheadAt.ahead⟩
      rw [h.2] at hx
      cases hx
  · rintro s x (h | ⟨_, h | h⟩) hx
    · exact htake x (.inl h)
    · exact htake x (.inr h.1)
    · exact h.elim
  · rintro s x r d up (h | ⟨hfull, h | h⟩) hx
    · exact regrown_ending (.inl (htake x (.inl h)))
    · exact regrown_ending (.inl (htake x (.inr h.1)))
    · have hfull' : (up.plug r).Full := by
        rw [Path.full_plug] at hfull ⊢
        exact hfull.2
      refine regrown_ending (.inr ⟨hfull', h.elim (fun h => .inr ⟨h.1, ?_⟩) .inl⟩)
      rintro y rfl
      rw [h.2 x y rfl rfl] at hx
      cases hx
  · rintro s x l d up (h | ⟨hfull, h | h⟩) hx
    · exact regrown_ending (.inl (htake x (.inl h)))
    · exact regrown_ending (.inl (htake x (.inr h.1)))
    · have hfull' : (up.plug l).Full := by
        rw [Path.full_plug] at hfull ⊢
        exact hfull.2
      exact regrown_ending (.inr ⟨hfull', .inl h⟩)
  · rintro s t r d up (h | ⟨hfull, h⟩)
    · exact .inl h
    · exact .inr ⟨hfull, h⟩
  · rintro s t l d up (h | ⟨hfull, h⟩)
    · exact .inl h
    · exact .inr ⟨hfull, h⟩
  · rintro s t (h | ⟨_, h⟩)
    · exact h
    · exact h.elim

end TakenOut

section Undisturbed

variable (g : Pane → Bool) (z : Pane)

/-- A single pane, to be taken out. -/
def MatchingLeaf (t : PaneTree) : Prop :=
  ∃ x, t = .leaf x ∧ g x = true

/-- No split has the pane in its first child and a single matching pane for its
second: when that one goes, the first child is walked over again. -/
def SecondSafe : PaneTree → Prop
  | .empty => True
  | .leaf _ => True
  | .node l r _ => (z ∈ l.leaves → ¬ MatchingLeaf g r) ∧ SecondSafe l ∧ SecondSafe r

/-- The same of what is still to be walked along a path; `here` says that the
pane is at the end of it. -/
def PathSafe : Path Pane SplitDirectionAndSize → Prop → Prop
  | .top, _ => True
  | .left r _ up, here =>
    (here → ¬ MatchingLeaf g r) ∧ SecondSafe g z r ∧ PathSafe up (here ∨ z ∈ r.leaves)
  | .right l _ up, here => PathSafe up (here ∨ z ∈ l.leaves)

/-- Nothing that matches comes before the pane. -/
def Clear (rest : List Pane) : Prop :=
  ∃ ahead after, rest = ahead ++ z :: after ∧ (∀ x ∈ ahead, g x = false) ∧ z ∉ after

/-- The walk has not come to the pane and taken nothing out, or is past it. -/
def Apart (s : Removal) (before rest : List Pane) : Prop :=
  s.deadPanes = [] ∧ Clear g z rest ∨ z ∈ before ∧ z ∉ rest

/-- The walk arrives at a subtree. -/
structure UndisturbedAt (told : Option TerminalSize) (s : Removal) (t : PaneTree)
    (p : Path Pane SplitDirectionAndSize) : Prop where
  told : lastTold z s.calls = told
  safe : SecondSafe g z t
  path : PathSafe g z p (z ∈ t.leaves)
  second : ∀ l d up, p = .right l d up → z ∈ l.leaves → ¬ MatchingLeaf g t
  apart : Apart g z s p.leavesBefore (t.leaves ++ p.leavesAfter)

/-- The walk leaves a subtree. -/
structure UndisturbedAfter (told : Option TerminalSize) (s : Removal) (t : PaneTree)
    (p : Path Pane SplitDirectionAndSize) : Prop where
  told : lastTold z s.calls = told
  path : PathSafe g z p (z ∈ t.leaves)
  apart : Apart g z s (p.leavesBefore ++ t.leaves) p.leavesAfter

/-- The walk is over. -/
structure StillThere (told : Option TerminalSize) (s : Removal) (t : PaneTree) : Prop where
  told : lastTold z s.calls = told
  mem : z ∈ t.leaves

variable {g z}

theorem secondSafe_of_not_mem {t : PaneTree} (h : z ∉ t.leaves) : SecondSafe g z t := by
  induction t with
  | empty => trivial
  | leaf x => trivial
  | node l r d ihl ihr =>
    simp only [BinTree.leaves, List.mem_append, not_or] at h
    exact ⟨fun hl => absurd hl h.1, ihl h.1, ihr h.2⟩

theorem PathSafe.mono {p : Path Pane SplitDirectionAndSize} :
    ∀ {a b : Prop}, PathSafe g z p a → (b → a) → PathSafe g z p b := by
  induction p with
  | top => exact fun _ _ => trivial
  | left r d up ih =>
    exact fun h hba => ⟨fun hb => h.1 (hba hb), h.2.1, ih h.2.2 (Or.imp_left hba)⟩
  | right l d up ih => exact fun h hba => ih h (Or.imp_left hba)

variable {s : Removal} {before rest : List Pane}

theorem Apart.mem (h : Apart g z s before rest) : z ∈ before ++ rest := by
  rcases h with ⟨_, ahead, after, rfl, -⟩ | ⟨h, -⟩
  · simp
  · exact List.mem_append_left _ h

theorem Apart.past {x : Pane} (h : Apart g z s before (x :: rest)) (hz : g z = false)
    (hx : g x = true) : z ∈ before ∧ z ∉ rest := by
  rcases h with ⟨_, ahead, after, heq, hahead, -⟩ | ⟨h, hrest⟩
  · cases ahead with
    | nil =>
      obtain ⟨rfl, -⟩ := List.cons.inj heq
      exact absurd hx (by simp [hz])
    | cons y ahead =>
      obtain ⟨rfl, -⟩ := List.cons.inj heq
      exact absurd hx (by simp [hahead x List.mem_cons_self])
  · exact ⟨h, fun hmem => hrest (List.mem_cons_of_mem _ hmem)⟩

theorem Apart.keep {s' : Removal} {x : Pane} (h : Apart g z s before (x :: rest))
    (hdead : s'.deadPanes = s.deadPanes) : Apart g z s' (before ++ [x]) rest := by
  rcases h with ⟨hs, ahead, after, heq, hahead, hafter⟩ | ⟨h, hrest⟩
  · cases ahead with
    | nil =>
      obtain ⟨rfl, rfl⟩ := List.cons.inj heq
      exact .inr ⟨by simp, hafter⟩
    | cons y ahead =>
      obtain ⟨rfl, rfl⟩ := List.cons.inj heq
      refine .inl ⟨hdead.trans hs, ahead, after, rfl, ?_, hafter⟩
      exact fun w hw => hahead w (List.mem_cons_of_mem _ hw)
  · exact .inr ⟨List.mem_append_left _ h, fun hmem => hrest (List.mem_cons_of_mem _ hmem)⟩

theorem lastTold_tell_of_ne {cs : List PaneCall} {y : Pane} (h : y ≠ z) (size : TerminalSize) :
    lastTold z (cs ++ [.resize y size]) = lastTold z cs := by
  rw [lastTold_append]
  simp [lastTold, PaneCall.tells, h]

theorem Apart.told_keep {x : Pane} (h : Apart g z s before (x :: rest)) (size : TerminalSize) :
    lastTold z (s.keep x size).calls = lastTold z s.calls := by
  simp only [Removal.keep]
  split_ifs with hdead
  · rfl
  · rcases h with ⟨hs, -⟩ | ⟨_, hrest⟩
    · exact absurd (by simp [hs]) hdead
    · exact lastTold_tell_of_ne (fun hxz => hrest (by simp [hxz])) size

theorem regrown_undisturbed {told : Option TerminalSize} {s : Removal} {t : PaneTree}
    {up : Path Pane SplitDirectionAndSize} (htold : lastTold z s.calls = told)
    (hbefore : z ∈ up.leavesBefore) (ht : z ∉ t.leaves) (hafter : z ∉ up.leavesAfter)
    (hpath : PathSafe g z up False) (size : TerminalSize) :
    Regrown (UndisturbedAt g z told) (UndisturbedAfter g z told) (StillThere z told) s t up
      size := by
  cases t with
  | empty =>
    refine ⟨htold, ?_⟩
    rw [Path.leaves_plug]
    simp [hbefore]
  | leaf y =>
    have hne : y ≠ z := fun h => ht (by simp [BinTree.leaves, h])
    exact ⟨(lastTold_tell_of_ne hne size).trans htold, hpath.mono ht,
      .inr ⟨List.mem_append_left _ hbefore, hafter⟩⟩
  | node l r d =>
    simp only [BinTree.leaves, List.mem_append, not_or] at ht
    refine ⟨htold, secondSafe_of_not_mem ht.1, ⟨fun h => absurd h ht.1,
      secondSafe_of_not_mem ht.2, hpath.mono (Or.rec ht.1 ht.2)⟩, (fun l d up h => by cases h),
      .inr ⟨hbefore, ?_⟩⟩
    simp [Path.leavesAfter, ht, hafter]

theorem undisturbedRule (hz : g z = false) (told : Option TerminalSize)
    (rootSize cell : TerminalSize) (zoomedId : Option PaneId) :
    RemovalRule (fun _ x => g x) rootSize cell zoomedId (UndisturbedAt g z told)
      (UndisturbedAfter g z told) (StillThere z told) where
  empty := by
    rintro s p ⟨htold, -, -, -, hapart⟩
    refine ⟨htold, ?_⟩
    rw [Path.leaves_plug, List.append_assoc]
    exact hapart.mem
  node := by
    rintro s l r d p ⟨htold, ⟨hpair, hl, hr⟩, hpath, -, hapart⟩
    refine ⟨htold, hl, ⟨hpair, hr, hpath.mono ?_⟩, nofun, ?_⟩
    · simp only [BinTree.leaves, List.mem_append, imp_self]
    · simpa only [Path.leavesBefore, Path.leavesAfter, BinTree.leaves, List.append_assoc]
        using hapart
  keep := fun h _ => ⟨(h.apart.told_keep _).trans h.told, h.path, h.apart.keep rfl⟩
  removeTop := by
    rintro s x h hx
    exact absurd (h.apart.past hz hx).1 (by simp [Path.leavesBefore])
  removeLeft := by
    rintro s x r d up ⟨htold, -, hpath, -, hapart⟩ hx
    obtain ⟨hbefore, hrest⟩ := hapart.past hz hx
    have hrest' : z ∉ r.leaves ++ up.leavesAfter := hrest
    rw [List.mem_append, not_or] at hrest'
    exact @regrown_undisturbed _ _ _ (s.take zoomedId x) _ up htold hbefore hrest'.1 hrest'.2
      (hpath.2.2.mono False.elim) _
  removeRight := by
    rintro s x l d up ⟨htold, -, hpath, hsecond, hapart⟩ hx
    obtain ⟨hbefore, hrest⟩ := hapart.past hz hx
    have hl : z ∉ l.leaves := fun h => hsecond l _ up rfl h ⟨x, rfl, hx⟩
    have hup := (List.mem_append.mp hbefore).resolve_right hl
    exact @regrown_undisturbed _ _ _ (s.take zoomedId x) _ _ htold hup hl hrest
      (PathSafe.mono hpath False.elim) _
  cross := by
    rintro s t r d up ⟨htold, ⟨hpair, hr, hpath⟩, hapart⟩
    refine ⟨htold, hr, hpath.mono Or.symm, ?_, hapart⟩
    rintro l d' up' ⟨⟩ hmem
    exact hpair hmem
  up := by
    rintro s t l d up ⟨htold, hpath, hapart⟩
    refine ⟨htold, PathSafe.mono hpath ?_, ?_⟩
    · simp only [BinTree.leaves, List.mem_append]
      exact Or.symm
    · simpa only [Path.leavesBefore, Path.leavesAfter, BinTree.leaves, List.append_assoc]
        using hapart
  finish := fun h => ⟨h.told, by simpa [Path.leavesBefore, Path.leavesAfter] using h.apart.mem⟩

variable (g z)

/-- The pane stays, what matches comes after its last place, and no split is
left to its first child with the pane in it. -/
structure Undisturbed (root : PaneTree) : Prop where
  stays : g z = false
  clear : Clear g z root.leaves
  safe : SecondSafe g z root

variable {g z}

/-- **A pane that is not disturbed** stays in the tree and hears of no size. -/
theorem removeLoop_undisturbed {root : PaneTree} (h : Undisturbed g z root) {tab : TabInner}
    {rootSize cell : TerminalSize} {zoomedId : Option PaneId} {fuel : Nat} {t : PaneTree}
    (hrun : removeLoop (fun _ x => g x) rootSize cell zoomedId fuel (Removal.start tab)
      root.cursor = some (s, t)) : StillThere z (lastTold z tab.calls) s t :=
  (undisturbedRule h.stays _ rootSize cell zoomedId).post fuel _ root.cursor s t
    ⟨rfl, h.safe, trivial, nofun, .inl ⟨rfl, by
      simpa [BinTree.cursor, Path.leavesAfter] using h.clear⟩⟩ hrun

end Undisturbed

section LastOneLeft

/-- The pixels of a size are those of its cells. -/
def WholeCells (size : TerminalSize) : Prop :=
  umul (size.pixelWidth / size.cols) size.cols = size.pixelWidth ∧
    umul (size.pixelHeight / size.rows) size.rows = size.pixelHeight

instance decidableWholeCells (size : TerminalSize) : Decidable (WholeCells size) :=
  inferInstanceAs (Decidable (_ ∧ _))

theorem unsplitSize_cellOf {d : SplitDirectionAndSize} {size : TerminalSize}
    (h : d.Fits size) (hsize : ∀ ax, size.cells ax < 2 ^ 63) (hwhole : WholeCells size) :
    unsplitSize (cellOf size) d = size := by
  have hx := cells_unsplitSize h hsize (cellOf size) .x
  have hy := cells_unsplitSize h hsize (cellOf size) .y
  simp only [unsplitSize, TerminalSize.cells_x, TerminalSize.cells_y] at hx hy
  simp only [unsplitSize, hx, hy, cellOf, hwhole.1, hwhole.2]

/-- A pane that is left alone has been told the size of the tab. -/
def AloneTold (laid : TerminalSize) (s : Removal) (t : PaneTree) : Prop :=
  ∀ y, t = .leaf y → s.deadPanes ≠ [] → lastTold y s.calls = some laid

variable {laid : TerminalSize}

theorem regrown_alone (hlaid : ∀ ax, laid.cells ax < 2 ^ 63) (hwhole : WholeCells laid)
    {s : Removal} {t : PaneTree} {d : SplitDirectionAndSize} {up : Path Pane SplitDirectionAndSize}
    (hfits : d.Fits (holeSize laid up)) (ht : Pending 0 t (holeSize laid up))
    (h : Regrown (FilledAt 0 laid) (FilledAfter 0 laid) (fun _ t => t = .empty ∨ Filled 0 t laid)
      s t up (unsplitSize (cellOf laid) d)) : Regrown (FilledAt 0 laid)
      (fun s t p => FilledAfter 0 laid s t p ∧ (p = .top → AloneTold laid s t))
      (AloneTold laid) s t up (unsplitSize (cellOf laid) d) := by
  cases t with
  | empty => exact ht.elim fun _ h => h.1.elim
  | leaf y =>
    refine ⟨h, ?_⟩
    rintro rfl y' ⟨⟩ -
    have hsize : unsplitSize (cellOf laid) d = laid := unsplitSize_cellOf hfits hlaid hwhole
    simp [hsize, Removal.next, Removal.tell, lastTold_append, lastTold, PaneCall.tells]
  | node l r d' => exact h

theorem aloneRule (hlaid : ∀ ax, laid.cells ax < 2 ^ 63) (hwhole : WholeCells laid)
    (f : Nat → Pane → Bool) (rootSize : TerminalSize) (zoomedId : Option PaneId) :
    RemovalRule f rootSize (cellOf laid) zoomedId (FilledAt 0 laid)
      (fun s t p => FilledAfter 0 laid s t p ∧ (p = .top → AloneTold laid s t))
      (AloneTold laid) := by
  have rule := @filledRule 0 laid hlaid f rootSize (cellOf laid) zoomedId
  refine
    { empty := ?_, node := rule.node, keep := ?_, removeTop := ?_, removeLeft := ?_,
      removeRight := ?_, cross := fun h => rule.cross h.1, up := ?_,
      finish := fun h => h.2 rfl }
  · intro s p h
    exact (h.waiting.pending (h.around.holeSize_lt hlaid)).elim fun _ h => h.1.elim
  · intro s x p h hx
    exact ⟨rule.keep h hx, fun hp y _ hdead => absurd (h.top hp) hdead⟩
  · intro s x _ _ y hy
    cases hy
  · rintro s x r d up h hx
    obtain ⟨hfits, hr, hup⟩ := h.around
    have hlt := hup.holeSize_lt hlaid
    refine regrown_alone hlaid hwhole hfits ?_ (rule.removeLeft h hx)
    exact (hr.pending fun ax => (hfits.le ax).2.trans_lt (hlt ax)).mono
      fun ax => (hfits.le ax).2
  · rintro s x l d up h hx
    obtain ⟨hfits, hl, hup⟩ := h.around
    have hlt := hup.holeSize_lt hlaid
    refine regrown_alone hlaid hwhole hfits ?_ (rule.removeRight h hx)
    exact (hl.pending fun ax => (hfits.le ax).1.trans_lt (hlt ax)).mono
      fun ax => (hfits.le ax).1
  · rintro s t l d up ⟨h, -⟩
    exact ⟨rule.up h, nofun⟩

variable (g : Pane → Bool) (z : Pane)

/-- All the other panes go, and the tree was laid out for the tab. -/
structure LastOneLeft (root : PaneTree) (size : TerminalSize) : Prop where
  tree : SplitTree root
  walk : WalkOk g false root
  stays : root.leaves.filter (fun x => !g x) = [z]
  others : ∃ x ∈ root.leaves, g x = true
  consistent : Consistent root size
  small : ∀ ax, size.cells ax < 2 ^ 63
  whole : WholeCells size

variable {g z}

/-- **A pane that is left alone** is told the size of the tab. -/
theorem removeLoop_lastOneLeft {root : PaneTree} (h : LastOneLeft g z root laid) (tab : TabInner)
    (zoomedId : Option PaneId) {s : Removal} {t : PaneTree}
    (hrun : removeLoop (fun _ x => g x) laid (cellOf laid) zoomedId
      ((root.numNodes + 1) * (root.numNodes + 1)) (Removal.start tab) root.cursor =
        some (s, t)) : StillThere z (some laid) s t := by
  obtain ⟨x, hx, hgx⟩ := h.others
  have hfull : root.Full := h.tree.proper.resolve_left (by rintro rfl; cases hx)
  have hfilled := (filled_zero_iff root laid).mpr ⟨hfull, h.tree.hasData, h.consistent⟩
  obtain ⟨s', t', hrun', hleaves, hfound⟩ := removeLoop_exact h.tree h.walk tab laid
    (cellOf laid) zoomedId
  obtain ⟨rfl, rfl⟩ := Prod.mk.inj (Option.some.inj (hrun'.symm.trans hrun))
  have htold := (aloneRule h.small h.whole (fun _ x => g x) laid zoomedId).post _ _ root.cursor
    s' t' ⟨.inl hfilled, trivial, fun _ => rfl⟩ hrun
  have hfilled' := removeLoop_filled h.small (.inr hfilled) hrun
  rw [h.stays] at hleaves
  refine ⟨htold z ?_ ?_, by simp [hleaves]⟩
  · -- a tree without `empty` and with one leaf is that leaf
    rcases hfilled' with rfl | hfilled'
    · cases hleaves
    · have hfull' := ((filled_zero_iff t' laid).mp hfilled').1
      cases t' with
      | empty => cases hleaves
      | leaf y => rw [(List.cons.inj hleaves).1]
      | node l r d =>
        have hl := hfull'.1.numLeaves_pos
        have hr := hfull'.2.numLeaves_pos
        have hlen := congrArg List.length hleaves
        simp only [BinTree.length_leaves, BinTree.numLeaves, List.length_singleton] at hlen
        omega
  · rw [hfound.deadPanes]
    exact List.ne_nil_of_mem (List.mem_filter.mpr ⟨hx, hgx⟩)

end LastOneLeft

end TabInner

end Wakterm.Mux
