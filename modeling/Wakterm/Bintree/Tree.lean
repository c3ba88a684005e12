import Mathlib.Data.List.Basic

/-!
# The `bintree` crate: a binary tree and its zipper

`bintree/src/lib.rs`, constructor by constructor. A cursor represents the same tree as a focused
subtree with the path back to the root.
-/

namespace Wakterm.Bintree

variable {L N : Type}

/-- A (mostly) proper binary tree: a node has two children and optional data,
`empty` is meant for the tree without any leaf. -/
inductive BinTree (L N : Type) where
  | empty
  | node (left right : BinTree L N) (data : Option N)
  | leaf (value : L)
  deriving DecidableEq

/-- The way back from the current position to the root: which child we are,
and the parent's other child and data. -/
inductive Path (L N : Type) where
  | top
  | left (right : BinTree L N) (data : Option N) (up : Path L N)
  | right (left : BinTree L N) (data : Option N) (up : Path L N)

/-- A position in a tree. -/
structure Cursor (L N : Type) where
  it : BinTree L N
  path : Path L N

/-- Which child of its parent a position is. -/
inductive PathBranch where
  | isLeft
  | isRight
  deriving DecidableEq

namespace BinTree

def cursor (t : BinTree L N) : Cursor L N := ⟨t, .top⟩

@[grind =] def numLeaves : BinTree L N → Nat
  | .empty => 0
  | .leaf _ => 1
  | .node l r _ => l.numLeaves + r.numLeaves

/-- The leaves from left to right. -/
@[grind =] def leaves : BinTree L N → List L
  | .empty => []
  | .leaf x => [x]
  | .node l r _ => l.leaves ++ r.leaves

/-- How many positions the tree has. -/
@[grind =] def numNodes : BinTree L N → Nat
  | .empty => 1
  | .leaf _ => 1
  | .node l r _ => l.numNodes + r.numNodes + 1

/-- The length of the longest way down. -/
@[grind =] def height : BinTree L N → Nat
  | .empty => 0
  | .leaf _ => 0
  | .node l r _ => max l.height r.height + 1

/-- No `empty` anywhere. -/
@[grind =] def Full : BinTree L N → Prop
  | .empty => False
  | .leaf _ => True
  | .node l r _ => l.Full ∧ r.Full

/-- No `empty` below a node: the tree is `empty` itself, or has none. -/
def Proper (t : BinTree L N) : Prop := t = .empty ∨ t.Full

instance decidableFull : (t : BinTree L N) → Decidable t.Full
  | .empty => isFalse id
  | .leaf _ => isTrue trivial
  | .node l r _ =>
    match decidableFull l, decidableFull r with
    | isTrue hl, isTrue hr => isTrue ⟨hl, hr⟩
    | isFalse hl, _ => isFalse fun h => hl h.1
    | _, isFalse hr => isFalse fun h => hr h.2

@[simp] theorem length_leaves (t : BinTree L N) : t.leaves.length = t.numLeaves := by
  induction t with
  | empty => rfl
  | leaf x => rfl
  | node l r d ihl ihr => simp [leaves, numLeaves, ihl, ihr]

theorem numNodes_pos (t : BinTree L N) : 0 < t.numNodes := by
  cases t <;> simp [numNodes]

theorem Full.numLeaves_pos {t : BinTree L N} (h : t.Full) : 0 < t.numLeaves := by
  induction t with
  | empty => exact h.elim
  | leaf x => exact Nat.one_pos
  | node l r d ihl ihr => exact Nat.add_pos_left (ihl h.1) _

/-- Replace the data of every node. -/
@[grind =] def mapData {M : Type} (g : N → M) : BinTree L N → BinTree L M
  | .empty => .empty
  | .leaf x => .leaf x
  | .node l r d => .node (l.mapData g) (r.mapData g) (d.map g)

section MapData

variable {M : Type} (g : N → M)

@[simp] theorem height_mapData (t : BinTree L N) : (t.mapData g).height = t.height := by
  induction t with
  | empty => rfl
  | leaf x => rfl
  | node l r d ihl ihr => simp [mapData, height, ihl, ihr]

@[simp] theorem leaves_mapData (t : BinTree L N) : (t.mapData g).leaves = t.leaves := by
  induction t with
  | empty => rfl
  | leaf x => rfl
  | node l r d ihl ihr => simp [mapData, leaves, ihl, ihr]

@[simp] theorem full_mapData (t : BinTree L N) : (t.mapData g).Full ↔ t.Full := by
  induction t with
  | empty => exact Iff.rfl
  | leaf x => exact Iff.rfl
  | node l r d ihl ihr => simp [mapData, Full, ihl, ihr]

theorem mapData_mapData {K : Type} (h : M → K) (t : BinTree L N) :
    (t.mapData g).mapData h = t.mapData (h ∘ g) := by
  induction t with
  | empty => rfl
  | leaf x => rfl
  | node l r d ihl ihr => simp [mapData, ihl, ihr]

end MapData

/-- Replace the value of every leaf. -/
@[grind =] def mapLeaves {K : Type} (f : L → K) : BinTree L N → BinTree K N
  | .empty => .empty
  | .leaf x => .leaf (f x)
  | .node l r d => .node (l.mapLeaves f) (r.mapLeaves f) d

@[simp] theorem numLeaves_mapLeaves {K : Type} (f : L → K) (t : BinTree L N) :
    (t.mapLeaves f).numLeaves = t.numLeaves := by
  induction t with
  | empty => rfl
  | leaf x => rfl
  | node l r d ihl ihr => simp [mapLeaves, numLeaves, ihl, ihr]

@[simp] theorem full_mapLeaves {K : Type} (f : L → K) (t : BinTree L N) :
    (t.mapLeaves f).Full ↔ t.Full := by
  induction t with
  | empty => exact Iff.rfl
  | leaf x => exact Iff.rfl
  | node l r d ihl ihr => simp [mapLeaves, Full, ihl, ihr]

@[simp] theorem numLeaves_mapData {M : Type} (g : N → M) (t : BinTree L N) :
    (t.mapData g).numLeaves = t.numLeaves := by
  rw [← length_leaves, leaves_mapData, length_leaves]

theorem Proper.full_node {l r : BinTree L N} {d : Option N}
    (h : (BinTree.node l r d).Proper) : l.Full ∧ r.Full := by
  rcases h with h | h
  · cases h
  · exact h

end BinTree

namespace Path

/-- `Cursor::path_to_root`: the branch taken and the data of each ancestor,
nearest first. -/
@[grind =] def toRoot : Path L N → List (PathBranch × Option N)
  | .top => []
  | .left _ data up => (.isLeft, data) :: up.toRoot
  | .right _ data up => (.isRight, data) :: up.toRoot

/-- Put a subtree back at the end of the path. -/
@[grind =] def plug : Path L N → BinTree L N → BinTree L N
  | .top, t => t
  | .left r d up, t => up.plug (.node t r d)
  | .right l d up, t => up.plug (.node l t d)

/-- The branches from the root down to the position. -/
@[grind =] def address : Path L N → List PathBranch
  | .top => []
  | .left _ _ up => up.address ++ [.isLeft]
  | .right _ _ up => up.address ++ [.isRight]

end Path

namespace Cursor

def isLeaf (c : Cursor L N) : Bool :=
  match c.it with
  | .leaf _ => true
  | _ => false

def isLeft (c : Cursor L N) : Bool :=
  match c.path with
  | .left .. => true
  | _ => false

def isRight (c : Cursor L N) : Bool :=
  match c.path with
  | .right .. => true
  | _ => false

def isTop (c : Cursor L N) : Bool :=
  match c.path with
  | .top => true
  | _ => false

def assignTop (c : Cursor L N) (x : L) : Except (Cursor L N) (Cursor L N) :=
  match c.it, c.path with
  | .empty, .top => .ok ⟨.leaf x, c.path⟩
  | _, _ => .error c

/-- Read side of `Cursor::leaf_mut`. -/
def leaf? (c : Cursor L N) : Option L :=
  match c.it with
  | .leaf x => some x
  | _ => none

/-- Write side of `Cursor::leaf_mut`. -/
def setLeaf (c : Cursor L N) (x : L) : Cursor L N :=
  match c.it with
  | .leaf _ => { c with it := .leaf x }
  | _ => c

def assignNode (c : Cursor L N) (value : Option N) : Except (Cursor L N) (Cursor L N) :=
  match c.it with
  | .node l r _ => .ok { c with it := .node l r value }
  | _ => .error c

/-- `Cursor::unsplit_leaf`: a leaf below the root disappears together with its
parent; the cursor then stands on the sibling, in the parent's place. -/
def unsplitLeaf (c : Cursor L N) : Except (Cursor L N) (Cursor L N × L × Option N) :=
  match c.it, c.path with
  | .leaf x, .left r d up => .ok (⟨r, up⟩, x, d)
  | .leaf x, .right l d up => .ok (⟨l, up⟩, x, d)
  | _, _ => .error c

def splitNodeAndInsertLeft (c : Cursor L N) (x : L) :
    Except (Cursor L N) (Cursor L N) :=
  match c.it with
  | .node l r d => .ok { c with it := .node (.leaf x) (.node l r d) none }
  | _ => .error c

def splitNodeAndInsertRight (c : Cursor L N) (x : L) :
    Except (Cursor L N) (Cursor L N) :=
  match c.it with
  | .node l r d => .ok { c with it := .node (.node l r d) (.leaf x) none }
  | _ => .error c

def splitLeafAndInsertRight (c : Cursor L N) (x : L) :
    Except (Cursor L N) (Cursor L N) :=
  match c.it with
  | .leaf l => .ok { c with it := .node (.leaf l) (.leaf x) none }
  | _ => .error c

def goLeft (c : Cursor L N) : Except (Cursor L N) (Cursor L N) :=
  match c.it with
  | .node l r d => .ok ⟨l, .left r d c.path⟩
  | _ => .error c

def goRight (c : Cursor L N) : Except (Cursor L N) (Cursor L N) :=
  match c.it with
  | .node l r d => .ok ⟨r, .right l d c.path⟩
  | _ => .error c

def goUp (c : Cursor L N) : Except (Cursor L N) (Cursor L N) :=
  match c.path with
  | .top => .error c
  | .right l d up => .ok ⟨.node l c.it d, up⟩
  | .left r d up => .ok ⟨.node c.it r d, up⟩

/-- The `loop` of `preorder_next` and `postorder_next`: go up; at the top stop
with `Err`; at a `turn` child cross over to its sibling; else go up again. -/
def climb (turn : Cursor L N → Bool)
    (cross : Cursor L N → Except (Cursor L N) (Cursor L N)) :
    Path L N → BinTree L N → Except (Cursor L N) (Cursor L N)
  | .top, it => .error ⟨it, .top⟩
  | .left r d up, it =>
    let self : Cursor L N := ⟨.node it r d, up⟩
    if self.isTop then .error self
    else if turn self then self.goUp >>= cross
    else climb turn cross up self.it
  | .right l d up, it =>
    let self : Cursor L N := ⟨.node l it d, up⟩
    if self.isTop then .error self
    else if turn self then self.goUp >>= cross
    else climb turn cross up self.it

def preorderNext (c : Cursor L N) : Except (Cursor L N) (Cursor L N) :=
  if c.isLeaf then
    if c.isLeft then c.goUp >>= goRight
    else climb isLeft goRight c.path c.it
  else c.goLeft

def postorderNext (c : Cursor L N) : Except (Cursor L N) (Cursor L N) :=
  if c.isLeaf then
    if c.isRight then c.goUp >>= goLeft
    else climb isRight goLeft c.path c.it
  else c.goRight

def tree (c : Cursor L N) : BinTree L N :=
  go c.path c.it
where
  /-- The loop of `Cursor::tree`. -/
  go : Path L N → BinTree L N → BinTree L N
    | .top, it => it
    | .right l d up, it => go up (.node l it d)
    | .left r d up, it => go up (.node it r d)

/-- The search loops over `preorder_next`: stop on the `n`-th position from
here that is a `hit`; `none` when the fuel runs out, `Err` when the positions
do. -/
def seek (hit : Cursor L N → Bool) (n : Nat) :
    Nat → Nat → Cursor L N → Option (Except (Cursor L N) (Cursor L N))
  | 0, _, _ => none
  | fuel + 1, next, self =>
    if hit self then
      if next = n then some (.ok self)
      else
        match self.preorderNext with
        | .ok c => seek hit n fuel (next + 1) c
        | .error c => some (.error c)
    else
      match self.preorderNext with
      | .ok c => seek hit n fuel next c
      | .error c => some (.error c)

def goToNthLeaf (c : Cursor L N) (n : Nat) :
    Option (Except (Cursor L N) (Cursor L N)) :=
  seek isLeaf n c.tree.numNodes 0 c

/-- The loops that visit every position from here on and then give the tree
back: `visit` may change the state and the focused subtree. -/
def walk {S : Type} (next : Cursor L N → Except (Cursor L N) (Cursor L N))
    (visit : S → Cursor L N → S × Cursor L N) :
    Nat → S → Cursor L N → Option (S × BinTree L N)
  | 0, _, _ => none
  | fuel + 1, s, c =>
    match next (visit s c).2 with
    | .ok c' => walk next visit fuel (visit s c).1 c'
    | .error c' => some ((visit s c).1, c'.tree)

end Cursor

end Wakterm.Bintree
