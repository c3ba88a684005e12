import Wakterm.Bintree.Traversal

/-!
# Walks that edit the tree

The loops over `preorder_next` change the data of a node or the value of a leaf, never the shape.
-/

namespace Wakterm.Bintree

variable {L N S : Type}

/-- What a loop does at a node and at a leaf: the new state, and the new data
or value. -/
structure Visit (L N S : Type) where
  node : S → Path L N → Option N → S × Option N
  leaf : S → Path L N → L → S × L

namespace Visit

/-- The body of the loop. -/
def run (v : Visit L N S) (s : S) (c : Cursor L N) : S × Cursor L N :=
  match c.it with
  | .empty => (s, c)
  | .node l r d => ((v.node s c.path d).1, { c with it := .node l r (v.node s c.path d).2 })
  | .leaf x => ((v.leaf s c.path x).1, { c with it := .leaf (v.leaf s c.path x).2 })

/-- The visit of a whole subtree at the end of a path. -/
def pass (v : Visit L N S) : BinTree L N → Path L N → S → S × BinTree L N
  | .empty, _, s => (s, .empty)
  | .leaf x, p, s => ((v.leaf s p x).1, .leaf (v.leaf s p x).2)
  | .node l r d, p, s =>
    let (s, d) := v.node s p d
    let (s, l) := v.pass l (.left r d p) s
    let (s, r) := v.pass r (.right l d p) s
    (s, .node l r d)

/-- The rest of the walk once the subtree at the end of a path is done. -/
def passAfter (v : Visit L N S) : Path L N → BinTree L N → S → S × BinTree L N
  | .top, t, s => (s, t)
  | .left r d up, t, s =>
    let (s, r) := v.pass r (.right t d up) s
    v.passAfter up (.node t r d) s
  | .right l d up, t, s => v.passAfter up (.node l t d) s

end Visit

variable {next : Cursor L N → Except (Cursor L N) (Cursor L N)}
  {visit : S → Cursor L N → S × Cursor L N} {t : BinTree L N} {c : Cursor L N}

theorem Cursor.tree_of_walk (hnext : ∀ c, (Cursor.landed (next c)).tree = c.tree)
    (hvisit : ∀ s c, (visit s c).2 = c) :
    ∀ (fuel : Nat) (s : S) (c : Cursor L N) (s' : S) (t : BinTree L N),
    Cursor.walk next visit fuel s c = some (s', t) → t = c.tree := by
  intro fuel
  induction fuel with
  | zero =>
    intro s c s' t h
    cases h
  | succ fuel ih =>
    intro s c s' t h
    have hmove := hnext c
    rw [Cursor.walk, hvisit] at h
    cases hc : next c with
    | ok c' =>
      rw [hc] at h hmove
      exact (ih _ _ _ _ h).trans hmove
    | error e =>
      rw [hc] at h hmove
      simp only [Option.some.injEq, Prod.mk.injEq] at h
      exact h.2.symm.trans hmove

theorem Cursor.walk_keeps (hnext : ∀ c, (Cursor.landed (next c)).tree = c.tree)
    (hvisit : ∀ s c, (visit s c).2 = c) {root : BinTree L N} {Inv : S → Prop}
    (hkeep : ∀ s c, c.tree = root → Inv s → Inv (visit s c).1) :
    ∀ (fuel : Nat) (s : S) (c : Cursor L N) (s' : S) (t : BinTree L N), c.tree = root → Inv s →
    Cursor.walk next visit fuel s c = some (s', t) → Inv s' := by
  intro fuel
  induction fuel with
  | zero =>
    intro s c s' t _ _ h
    cases h
  | succ fuel ih =>
    intro s c s' t hc hs h
    have hmove := hnext c
    have hkept := hkeep s c hc hs
    rw [Cursor.walk, hvisit] at h
    cases hnc : next c with
    | ok c' =>
      rw [hnc] at h hmove
      exact ih _ c' s' t (hmove.trans hc) hkept h
    | error e =>
      rw [hnc] at h
      simp only [Option.some.injEq, Prod.mk.injEq] at h
      rw [← h.1]
      exact hkept

def Path.leavesBefore : Path L N → List L
  | .top => []
  | .left _ _ up => up.leavesBefore
  | .right l _ up => up.leavesBefore ++ l.leaves

def Path.leavesAfter : Path L N → List L
  | .top => []
  | .left r _ up => r.leaves ++ up.leavesAfter
  | .right _ _ up => up.leavesAfter

theorem Path.leaves_plug (p : Path L N) (t : BinTree L N) :
    (p.plug t).leaves = p.leavesBefore ++ t.leaves ++ p.leavesAfter := by
  induction p generalizing t with
  | top => simp [Path.plug, Path.leavesBefore, Path.leavesAfter]
  | left r d up ih =>
    simp [Path.plug, Path.leavesBefore, Path.leavesAfter, ih, BinTree.leaves]
  | right l d up ih =>
    simp [Path.plug, Path.leavesBefore, Path.leavesAfter, ih, BinTree.leaves]

theorem BinTree.length_leavesBefore (t : BinTree L N) : ∀ (p : Path L N) (i : Nat) (c : Cursor L N),
    ((t.preorderCursors p).filter Cursor.isLeaf)[i]? = some c →
    c.path.leavesBefore.length = p.leavesBefore.length + i := by
  induction t with
  | empty =>
    intro p i c hc
    simp [BinTree.preorderCursors, Cursor.isLeaf] at hc
  | leaf x =>
    intro p i c hc
    cases i with
    | zero =>
      cases hc
      rfl
    | succ i => exact absurd hc (by simp [BinTree.numLeaves])
  | node l r d ihl ihr =>
    intro p i c hc
    rw [BinTree.preorderCursors, List.filter_cons_of_neg (by simp [Cursor.isLeaf]),
      List.filter_append, List.getElem?_append, BinTree.length_leafCursors] at hc
    split_ifs at hc with hi
    · exact ihl (.left r d p) i c hc
    · have h := ihr _ _ _ hc
      simp only [Path.leavesBefore, List.length_append, BinTree.length_leaves] at h
      omega

theorem Path.leavesBefore_nextAfter (p : Path L N) (h : p.nextAfter t = .ok c) :
    c.path.leavesBefore = p.leavesBefore ++ t.leaves := by
  induction p generalizing t with
  | top => exact nomatch h
  | left r d up _ =>
    cases h
    rfl
  | right l d up ih =>
    rw [ih h]
    simp [Path.leavesBefore, BinTree.leaves]

theorem Cursor.leavesBefore_preorderNext {c' : Cursor L N} (h : c.preorderNext = .ok c') :
    c'.path.leavesBefore.length = c.path.leavesBefore.length + c.isLeaf.toNat := by
  obtain ⟨t, p⟩ := c
  cases t with
  | empty => exact nomatch h
  | leaf x =>
    rw [Cursor.preorderNext_leaf] at h
    rw [p.leavesBefore_nextAfter h, List.length_append]
    rfl
  | node l r d =>
    cases h
    rfl

theorem Cursor.length_leavesBefore_of_seek {n : Nat} : ∀ (fuel next : Nat) (c c' : Cursor L N),
    Cursor.seek Cursor.isLeaf n fuel next c = some (.ok c') →
    c'.path.leavesBefore.length + next = c.path.leavesBefore.length + n := by
  intro fuel
  induction fuel with
  | zero =>
    intro next c c' h
    cases h
  | succ fuel ih =>
    intro next c c' h
    rw [Cursor.seek] at h
    split_ifs at h with hleaf hn
    · cases h
      rw [hn]
    · cases hc : c.preorderNext with
      | error e =>
        rw [hc] at h
        cases h
      | ok c₁ =>
        rw [hc] at h
        have hnext := Cursor.leavesBefore_preorderNext hc
        rw [hleaf] at hnext
        have hrest := ih _ _ _ h
        simp only [Bool.toNat_true] at hnext
        omega
    · cases hc : c.preorderNext with
      | error e =>
        rw [hc] at h
        cases h
      | ok c₁ =>
        rw [hc] at h
        have hnext := Cursor.leavesBefore_preorderNext hc
        rw [Bool.eq_false_iff.mpr hleaf] at hnext
        have hrest := ih _ _ _ h
        simp only [Bool.toNat_false] at hnext
        omega

theorem BinTree.goToNthLeaf_ok {n : Nat} (h : t.cursor.goToNthLeaf n = some (.ok c)) :
    n < t.numLeaves ∧ ∃ x p, c = ⟨.leaf x, p⟩ ∧ p.plug (.leaf x) = t := by
  obtain ⟨htree, hhit⟩ := Cursor.tree_of_seek _ _ _ _ h
  have hlen := Cursor.length_leavesBefore_of_seek _ _ _ _ h
  have hleaf := hhit c rfl
  obtain ⟨u, p⟩ := c
  cases u with
  | empty => cases hleaf
  | node l r d => cases hleaf
  | leaf x =>
    have hplug : p.plug (.leaf x) = t := (Cursor.tree_eq_plug _).symm.trans htree
    refine ⟨?_, x, p, rfl, hplug⟩
    have hcount := congrArg List.length (Path.leaves_plug p (.leaf x))
    rw [hplug, BinTree.length_leaves] at hcount
    simp only [BinTree.leaves, BinTree.cursor, Path.leavesBefore, List.length_append,
      List.length_cons, List.length_nil] at hcount hlen
    omega

theorem Path.leafCursors_plug (p : Path L N) : ∀ (t : BinTree L N) (i : Nat), i < t.numLeaves →
    (((p.plug t).preorderCursors .top).filter Cursor.isLeaf)[p.leavesBefore.length + i]? =
      ((t.preorderCursors p).filter Cursor.isLeaf)[i]? := by
  induction p with
  | top =>
    intro t i _
    simp [Path.plug, Path.leavesBefore]
  | left r d up ih =>
    intro t i hi
    have h := ih (.node t r d) i (Nat.lt_add_right _ hi)
    rw [BinTree.preorderCursors, List.filter_cons_of_neg (by simp [Cursor.isLeaf]),
      List.filter_append, List.getElem?_append_left (by simpa using hi)] at h
    exact h
  | right l d up ih =>
    intro t i hi
    have h := ih (.node l t d) (l.numLeaves + i) (Nat.add_lt_add_left hi _)
    rw [BinTree.preorderCursors, List.filter_cons_of_neg (by simp [Cursor.isLeaf]),
      List.filter_append, List.getElem?_append_right (by simp),
      BinTree.length_leafCursors, Nat.add_sub_cancel_left, ← Nat.add_assoc] at h
    simpa [Path.plug, Path.leavesBefore] using h

/-- No `empty` among the siblings along a path. -/
def Path.Full : Path L N → Prop
  | .top => True
  | .left r _ up => r.Full ∧ up.Full
  | .right l _ up => l.Full ∧ up.Full

/-- How many positions come after the end of a path in preorder. -/
def Path.numAfter : Path L N → Nat
  | .top => 0
  | .left r _ up => r.numNodes + up.numAfter
  | .right _ _ up => up.numAfter

theorem Path.full_plug (p : Path L N) (t : BinTree L N) : (p.plug t).Full ↔ t.Full ∧ p.Full := by
  induction p generalizing t with
  | top => simp [Path.plug, Path.Full]
  | left r d up ih =>
    simp only [Path.plug, ih, BinTree.Full, Path.Full]
    tauto
  | right l d up ih =>
    simp only [Path.plug, ih, BinTree.Full, Path.Full]
    tauto

theorem Path.numNodes_add_numAfter_le (p : Path L N) (t : BinTree L N) :
    t.numNodes + p.numAfter ≤ (p.plug t).numNodes := by
  induction p generalizing t with
  | top => exact Nat.le_refl _
  | left r d up ih =>
    have h := ih (.node t r d)
    simp only [BinTree.numNodes] at h
    simp only [Path.plug, Path.numAfter]
    omega
  | right l d up ih =>
    have h := ih (.node l t d)
    simp only [BinTree.numNodes] at h
    simp only [Path.plug, Path.numAfter]
    omega

theorem BinTree.Full.numNodes_eq (h : t.Full) : t.numNodes + 1 = 2 * t.numLeaves := by
  induction t with
  | empty => exact h.elim
  | leaf x => rfl
  | node l r d ihl ihr =>
    have hl := ihl h.1
    have hr := ihr h.2
    simp only [BinTree.numNodes, BinTree.numLeaves]
    omega

theorem Path.nextAfter_ok (p : Path L N) (h : p.nextAfter t = .ok c) :
    c.path.plug c.it = p.plug t ∧ c.it.numNodes + c.path.numAfter = p.numAfter := by
  induction p generalizing t with
  | top => exact nomatch h
  | left r d up _ =>
    cases h
    exact ⟨rfl, rfl⟩
  | right l d up ih => exact ih h

namespace Visit

variable (v : Visit L N S)

/-- A walk continued from what `preorder_next` answered. -/
def resume (fuel : Nat) (s : S) :
    Except (Cursor L N) (Cursor L N) → Option (S × BinTree L N)
  | .ok c => Cursor.walk Cursor.preorderNext v.run fuel s c
  | .error c => some (s, c.tree)

theorem walk_eq_resume (t : BinTree L N) (ht : t.Full) :
    ∀ (p : Path L N) (s : S) (fuel : Nat), t.numNodes ≤ fuel →
    Cursor.walk Cursor.preorderNext v.run fuel s ⟨t, p⟩ =
      v.resume (fuel - t.numNodes) (v.pass t p s).1 (p.nextAfter (v.pass t p s).2) := by
  induction t with
  | empty => exact ht.elim
  | leaf x =>
    intro p s fuel hf
    obtain ⟨fuel, rfl⟩ : ∃ n, fuel = n + 1 := ⟨fuel - 1, by simp [BinTree.numNodes] at hf; omega⟩
    simp only [Cursor.walk, run, pass, Cursor.preorderNext_leaf, BinTree.numNodes,
      Nat.add_sub_cancel]
    cases p.nextAfter (.leaf (v.leaf s p x).2) <;> rfl
  | node l r d ihl ihr =>
    intro p s fuel hf
    simp only [BinTree.numNodes] at hf
    obtain ⟨fuel, rfl⟩ : ∃ n, fuel = n + 1 := ⟨fuel - 1, by omega⟩
    simp only [Cursor.walk, run, Cursor.preorderNext_node]
    rw [ihl ht.1 _ _ _ (by omega)]
    simp only [Path.nextAfter, resume]
    rw [ihr ht.2 _ _ _ (by omega)]
    simp only [Path.nextAfter, BinTree.numNodes, pass]
    congr 1
    omega

theorem resume_nextAfter (p : Path L N) (hp : p.Full) :
    ∀ (t : BinTree L N) (s : S) (fuel : Nat), p.numAfter ≤ fuel →
    v.resume fuel s (p.nextAfter t) = some (v.passAfter p t s) := by
  induction p with
  | top => exact fun _ _ _ _ => rfl
  | left r d up ih =>
    intro t s fuel hf
    simp only [Path.numAfter] at hf
    simp only [Path.nextAfter, resume]
    rw [walk_eq_resume v r hp.1 _ _ _ (by omega)]
    simp only [Path.nextAfter, passAfter]
    exact ih hp.2 _ _ _ (by omega)
  | right l d up ih =>
    intro t s fuel hf
    exact ih hp.2 _ _ _ hf

/-- **The loop from any position**: with fuel for the positions from there on,
it visits the subtree and then what follows. -/
theorem walk_eq (t : BinTree L N) (ht : t.Full) (p : Path L N) (hp : p.Full) (s : S)
    (fuel : Nat) (hf : t.numNodes + p.numAfter ≤ fuel) :
    Cursor.walk Cursor.preorderNext v.run fuel s ⟨t, p⟩ =
      some (v.passAfter p (v.pass t p s).2 (v.pass t p s).1) := by
  rw [walk_eq_resume v t ht p s fuel (by omega),
    resume_nextAfter v p hp _ _ _ (by omega)]

theorem walk_cursor (t : BinTree L N) (ht : t.Proper) (s : S) :
    Cursor.walk Cursor.preorderNext v.run t.numNodes s t.cursor = some (v.pass t .top s) := by
  rcases ht with rfl | ht
  · rfl
  · exact walk_eq v t ht .top trivial s _ (Nat.le_refl _)

end Visit

end Wakterm.Bintree
