import Wakterm.Bintree.Walk

/-!
# The mirror image of a walk

`postorder_next` is `preorder_next` seen in a mirror: turning every node of the tree and every step
of the path around exchanges the two, and the loops over them (`Cursor.walk_postorderNext`).
-/

namespace Wakterm.Bintree

variable {L N S : Type}

/-- Left and right exchanged at every node. -/
@[simp] def BinTree.mirror : BinTree L N → BinTree L N
  | .empty => .empty
  | .leaf x => .leaf x
  | .node l r d => .node r.mirror l.mirror d

/-- Left and right exchanged at every ancestor. -/
def Path.mirror : Path L N → Path L N
  | .top => .top
  | .left r d up => .right r.mirror d up.mirror
  | .right l d up => .left l.mirror d up.mirror

/-- The same position of the mirrored tree. -/
def Cursor.mirror (c : Cursor L N) : Cursor L N := ⟨c.it.mirror, c.path.mirror⟩

/-- What a move answers, seen in the mirror. -/
def Cursor.mirrored : Except (Cursor L N) (Cursor L N) → Except (Cursor L N) (Cursor L N)
  | .ok c => .ok c.mirror
  | .error c => .error c.mirror

namespace BinTree

@[simp] theorem mirror_mirror (t : BinTree L N) : t.mirror.mirror = t := by
  induction t with
  | empty => rfl
  | leaf x => rfl
  | node l r d ihl ihr => simp [mirror, ihl, ihr]

@[simp] theorem numNodes_mirror (t : BinTree L N) : t.mirror.numNodes = t.numNodes := by
  induction t with
  | empty => rfl
  | leaf x => rfl
  | node l r d ihl ihr => simp [mirror, numNodes, ihl, ihr, Nat.add_comm]

@[simp] theorem leaves_mirror (t : BinTree L N) : t.mirror.leaves = t.leaves.reverse := by
  induction t with
  | empty => rfl
  | leaf x => rfl
  | node l r d ihl ihr => simp [mirror, leaves, ihl, ihr]

@[simp] theorem full_mirror (t : BinTree L N) : t.mirror.Full ↔ t.Full := by
  induction t with
  | empty => exact Iff.rfl
  | leaf x => exact Iff.rfl
  | node l r d ihl ihr => simp [mirror, Full, ihl, ihr, and_comm]

theorem mapLeaves_mirror {K : Type} (f : L → K) (t : BinTree L N) :
    t.mirror.mapLeaves f = (t.mapLeaves f).mirror := by
  induction t with
  | empty => rfl
  | leaf x => rfl
  | node l r d ihl ihr => simp [mirror, mapLeaves, ihl, ihr]

/-- What is left of a tree when the values of the leaves are forgotten: its
shape and the data of its nodes. -/
def shape (t : BinTree L N) : BinTree Unit N := t.mapLeaves fun _ => ()

theorem shape_mirror (t : BinTree L N) : t.mirror.shape = t.shape.mirror :=
  mapLeaves_mirror _ t

variable {t u : BinTree L N}

theorem numLeaves_of_shape (h : t.shape = u.shape) : t.numLeaves = u.numLeaves := by
  rw [← numLeaves_mapLeaves (fun _ => ()) t, ← numLeaves_mapLeaves (fun _ => ()) u]
  exact congrArg numLeaves h

theorem full_of_shape (h : t.shape = u.shape) (ht : t.Full) : u.Full := by
  rw [← full_mapLeaves (fun _ => ()) t] at ht
  rw [← full_mapLeaves (fun _ => ()) u]
  exact (congrArg Full h).mp ht

theorem ext_of_leaves (hshape : t.shape = u.shape) (hleaves : t.leaves = u.leaves) : t = u := by
  induction t generalizing u with
  | empty =>
    cases u with
    | empty => rfl
    | leaf x => cases hshape
    | node l r d => cases hshape
  | leaf x =>
    cases u with
    | empty => cases hshape
    | leaf y => rw [List.singleton_inj.mp hleaves]
    | node l r d => cases hshape
  | node l r d ihl ihr =>
    cases u with
    | empty => cases hshape
    | leaf x => cases hshape
    | node l' r' d' =>
      simp only [shape, mapLeaves, BinTree.node.injEq] at hshape
      obtain ⟨hl, hr, rfl⟩ := hshape
      have hlen : l.leaves.length = l'.leaves.length := by
        simpa only [length_leaves] using numLeaves_of_shape hl
      obtain ⟨hll, hrl⟩ := List.append_inj hleaves hlen
      rw [ihl hl hll, ihr hr hrl]

end BinTree

theorem Path.nextAfter_mirror (p : Path L N) (t : BinTree L N) :
    p.mirror.nextAfter t.mirror = Cursor.mirrored (p.nextBefore t) := by
  induction p generalizing t with
  | top => rfl
  | left r d up ih => exact ih (.node t r d)
  | right l d up _ => rfl

theorem Path.plug_mirror (p : Path L N) (t : BinTree L N) :
    p.mirror.plug t.mirror = (p.plug t).mirror := by
  induction p generalizing t with
  | top => rfl
  | left r d up ih => exact ih (.node t r d)
  | right l d up ih => exact ih (.node l t d)

theorem Cursor.tree_mirror (c : Cursor L N) : c.mirror.tree = c.tree.mirror := by
  rw [Cursor.tree_eq_plug, Cursor.tree_eq_plug]
  exact Path.plug_mirror c.path c.it

theorem Cursor.preorderNext_mirror (c : Cursor L N) :
    c.mirror.preorderNext = Cursor.mirrored c.postorderNext := by
  obtain ⟨t, p⟩ := c
  cases t with
  | empty => rfl
  | leaf x =>
    show Cursor.preorderNext ⟨.leaf x, p.mirror⟩ = _
    rw [Cursor.preorderNext_leaf, Cursor.postorderNext_leaf]
    exact Path.nextAfter_mirror p (.leaf x)
  | node l r d => rfl

/-- **A loop over `postorder_next` in the mirror.** -/
theorem Cursor.walk_postorderNext {visit : S → Cursor L N → S × Cursor L N}
    (hvisit : ∀ s c, visit s c.mirror = ((visit s c).1, (visit s c).2.mirror)) :
    ∀ (fuel : Nat) (s : S) (c : Cursor L N), Cursor.walk Cursor.postorderNext visit fuel s c =
      (Cursor.walk Cursor.preorderNext visit fuel s c.mirror).map
        fun out => (out.1, out.2.mirror) := by
  intro fuel
  induction fuel with
  | zero => exact fun _ _ => rfl
  | succ fuel ih =>
    intro s c
    rw [Cursor.walk, Cursor.walk, hvisit, Cursor.preorderNext_mirror]
    cases hnext : (visit s c).2.postorderNext with
    | ok c' => exact ih _ c'
    | error e =>
      show some ((visit s c).1, e.tree) = some ((visit s c).1, e.mirror.tree.mirror)
      rw [Cursor.tree_mirror, BinTree.mirror_mirror]

/-- Swap the value in hand with every leaf. -/
def carry : Visit L N L where
  node hand _ d := (hand, d)
  leaf hand _ x := (x, hand)

theorem carry_run_mirror (hand : L) (c : Cursor L N) : (carry : Visit L N L).run hand c.mirror =
      ((carry.run hand c).1, (carry.run hand c).2.mirror) := by
  obtain ⟨t, p⟩ := c
  cases t <;> rfl

theorem leaves_pass_carry (t : BinTree L N) (p : Path L N) (hand : L) :
    (carry.pass t p hand).2.leaves ++ [(carry.pass t p hand).1] = hand :: t.leaves := by
  induction t generalizing p hand with
  | empty => rfl
  | leaf x => rfl
  | node l r d ihl ihr =>
    show ((carry.pass l _ hand).2.leaves ++ (carry.pass r _ (carry.pass l _ hand).1).2.leaves) ++
      [(carry.pass r _ (carry.pass l _ hand).1).1] = hand :: (l.leaves ++ r.leaves)
    rw [List.append_assoc, ihr, ← List.singleton_append, ← List.append_assoc, ihl,
      List.cons_append]

theorem shape_pass_carry (t : BinTree L N) (p : Path L N) (hand : L) :
    (carry.pass t p hand).2.shape = t.shape := by
  induction t generalizing p hand with
  | empty => rfl
  | leaf x => rfl
  | node l r d ihl ihr =>
    show BinTree.node _ _ d = BinTree.node _ _ d
    exact congrArg₂ (fun l r => BinTree.node l r d) (ihl _ _) (ihr _ _)

theorem walk_preorderNext_carry {t : BinTree L N} (ht : t.Full) {xs : List L} {x : L}
    (hleaves : t.leaves = xs ++ [x]) :
    ∃ t', Cursor.walk Cursor.preorderNext carry.run t.numNodes x t.cursor = some (x, t') ∧
      t'.shape = t.shape ∧ t'.leaves = x :: xs := by
  have hpass := leaves_pass_carry t .top x
  rw [hleaves, ← List.cons_append] at hpass
  obtain ⟨hnew, hhand⟩ := List.append_inj' hpass rfl
  refine ⟨_, ?_, shape_pass_carry t .top x, hnew⟩
  rw [Visit.walk_cursor carry t (.inr ht)]
  exact congrArg some (Prod.ext (List.singleton_inj.mp hhand) rfl)

theorem walk_postorderNext_carry {t : BinTree L N} (ht : t.Full) {xs : List L} {x : L}
    (hleaves : t.leaves = x :: xs) :
    ∃ t', Cursor.walk Cursor.postorderNext carry.run t.numNodes x t.cursor = some (x, t') ∧
      t'.shape = t.shape ∧ t'.leaves = xs ++ [x] := by
  have hmirror : t.mirror.leaves = xs.reverse ++ [x] := by
    rw [BinTree.leaves_mirror, hleaves, List.reverse_cons]
  obtain ⟨u, hwalk, hshape, hnew⟩ :=
    walk_preorderNext_carry ((BinTree.full_mirror t).mpr ht) hmirror
  refine ⟨u.mirror, ?_, ?_, ?_⟩
  · rw [BinTree.numNodes_mirror] at hwalk
    rw [Cursor.walk_postorderNext carry_run_mirror]
    exact congrArg (Option.map fun out => (out.1, out.2.mirror)) hwalk
  · rw [BinTree.shape_mirror, hshape, BinTree.shape_mirror, BinTree.mirror_mirror]
  · rw [BinTree.leaves_mirror, hnew, List.reverse_cons, List.reverse_reverse]

end Wakterm.Bintree
