import Mathlib.Data.List.Nodup
import Wakterm.Bintree.Tree

/-!
# The zipper visits every position once

The next-step functions keep no stack: at a leaf they climb the path until they find a child to
cross over from.
-/

namespace Wakterm.Bintree

variable {L N : Type}

/-- The cursor a move ends on, whether it reports `Ok` or `Err`. -/
def Cursor.landed : Except (Cursor L N) (Cursor L N) → Cursor L N
  | .ok c => c
  | .error c => c

theorem Cursor.tree_go_eq_plug (p : Path L N) (t : BinTree L N) :
    Cursor.tree.go p t = p.plug t := by
  induction p generalizing t with
  | top => rfl
  | left r d up ih => exact ih _
  | right l d up ih => exact ih _

theorem Cursor.tree_eq_plug (c : Cursor L N) : c.tree = c.path.plug c.it :=
  Cursor.tree_go_eq_plug c.path c.it

/-- Where a preorder walk goes once the subtree at the end of the path is done:
up to the nearest left child, then over to its sibling. -/
def Path.nextAfter : Path L N → BinTree L N → Except (Cursor L N) (Cursor L N)
  | .top, t => .error ⟨t, .top⟩
  | .left r d up, t => .ok ⟨r, .right t d up⟩
  | .right l d up, t => up.nextAfter (.node l t d)

/-- The mirror image of `nextAfter`, for the walk that visits right children
first. -/
def Path.nextBefore : Path L N → BinTree L N → Except (Cursor L N) (Cursor L N)
  | .top, t => .error ⟨t, .top⟩
  | .right l d up, t => .ok ⟨l, .left t d up⟩
  | .left r d up, t => up.nextBefore (.node t r d)

theorem Cursor.climb_isLeft_right (l : BinTree L N) (d : Option N) (up : Path L N)
    (t : BinTree L N) : Cursor.climb Cursor.isLeft Cursor.goRight (.right l d up) t =
      up.nextAfter (.node l t d) := by
  induction up generalizing l d t with
  | top => rfl
  | left r d' up' _ => rfl
  | right l' d' up' ih =>
    simp only [Cursor.climb, Cursor.isTop, Cursor.isLeft, Bool.false_eq_true,
      if_false, Path.nextAfter]
    exact ih l' d' (.node l t d)

theorem Cursor.climb_isRight_left (r : BinTree L N) (d : Option N) (up : Path L N)
    (t : BinTree L N) : Cursor.climb Cursor.isRight Cursor.goLeft (.left r d up) t =
      up.nextBefore (.node t r d) := by
  induction up generalizing r d t with
  | top => rfl
  | right l d' up' _ => rfl
  | left r' d' up' ih =>
    simp only [Cursor.climb, Cursor.isTop, Cursor.isRight, Bool.false_eq_true,
      if_false, Path.nextBefore]
    exact ih r' d' (.node t r d)

@[simp] theorem Cursor.preorderNext_leaf (x : L) (p : Path L N) :
    (⟨.leaf x, p⟩ : Cursor L N).preorderNext = p.nextAfter (.leaf x) := by
  cases p with
  | top => rfl
  | left r d up => rfl
  | right l d up => exact Cursor.climb_isLeft_right l d up (.leaf x)

@[simp] theorem Cursor.preorderNext_node (l r : BinTree L N) (d : Option N) (p : Path L N) :
    (⟨.node l r d, p⟩ : Cursor L N).preorderNext = .ok ⟨l, .left r d p⟩ := rfl

@[simp] theorem Cursor.postorderNext_leaf (x : L) (p : Path L N) :
    (⟨.leaf x, p⟩ : Cursor L N).postorderNext = p.nextBefore (.leaf x) := by
  cases p with
  | top => rfl
  | right l d up => rfl
  | left r d up => exact Cursor.climb_isRight_left r d up (.leaf x)

@[simp] theorem Cursor.postorderNext_node (l r : BinTree L N) (d : Option N) (p : Path L N) :
    (⟨.node l r d, p⟩ : Cursor L N).postorderNext = .ok ⟨r, .right l d p⟩ := rfl

theorem Path.tree_landed_nextAfter (p : Path L N) (t : BinTree L N) :
    (Cursor.landed (p.nextAfter t)).tree = p.plug t := by
  induction p generalizing t with
  | top => rfl
  | left r d up _ => exact Cursor.tree_eq_plug ⟨r, .right t d up⟩
  | right l d up ih => exact ih _

theorem Path.tree_landed_nextBefore (p : Path L N) (t : BinTree L N) :
    (Cursor.landed (p.nextBefore t)).tree = p.plug t := by
  induction p generalizing t with
  | top => rfl
  | right l d up _ => exact Cursor.tree_eq_plug ⟨l, .left t d up⟩
  | left r d up ih => exact ih _

/-- The moves a cursor offers. -/
inductive Move where
  | goLeft
  | goRight
  | goUp
  | preorderNext
  | postorderNext

def Move.run : Move → Cursor L N → Except (Cursor L N) (Cursor L N)
  | .goLeft => Cursor.goLeft
  | .goRight => Cursor.goRight
  | .goUp => Cursor.goUp
  | .preorderNext => Cursor.preorderNext
  | .postorderNext => Cursor.postorderNext

theorem Move.tree_landed (m : Move) (c : Cursor L N) : (Cursor.landed (m.run c)).tree = c.tree := by
  obtain ⟨t, p⟩ := c
  cases m with
  | goLeft => cases t <;> rfl
  | goRight => cases t <;> rfl
  | goUp => cases p <;> rfl
  | preorderNext =>
    cases t with
    | empty => rfl
    | node l r d => rfl
    | leaf x =>
      show (Cursor.landed (Cursor.preorderNext ⟨.leaf x, p⟩)).tree = _
      rw [Cursor.preorderNext_leaf, Path.tree_landed_nextAfter,
        Cursor.tree_eq_plug]
  | postorderNext =>
    cases t with
    | empty => rfl
    | node l r d => rfl
    | leaf x =>
      show (Cursor.landed (Cursor.postorderNext ⟨.leaf x, p⟩)).tree = _
      rw [Cursor.postorderNext_leaf, Path.tree_landed_nextBefore,
        Cursor.tree_eq_plug]

theorem Move.tree_run_list (ms : List Move) (c : Cursor L N) :
    (ms.foldl (fun c m => Cursor.landed (m.run c)) c).tree = c.tree := by
  induction ms generalizing c with
  | nil => rfl
  | cons m ms ih =>
    rw [List.foldl_cons, ih]
    exact Move.tree_landed m c

/-- The positions of the subtree at the end of a path: node, left, right. -/
@[grind =] def BinTree.preorderCursors : BinTree L N → Path L N → List (Cursor L N)
  | .empty, p => [⟨.empty, p⟩]
  | .leaf x, p => [⟨.leaf x, p⟩]
  | .node l r d, p =>
    ⟨.node l r d, p⟩ ::
      (l.preorderCursors (.left r d p) ++ r.preorderCursors (.right l d p))

/-- The positions of the subtree at the end of a path: node, right, left. -/
@[grind =] def BinTree.postorderCursors : BinTree L N → Path L N → List (Cursor L N)
  | .empty, p => [⟨.empty, p⟩]
  | .leaf x, p => [⟨.leaf x, p⟩]
  | .node l r d, p =>
    ⟨.node l r d, p⟩ ::
      (r.postorderCursors (.right l d p) ++ l.postorderCursors (.left r d p))

/-- `next`, started at a cursor and repeated until it answers `Err`, stands on
exactly these cursors, in this order. -/
inductive Visits (next : Cursor L N → Except (Cursor L N) (Cursor L N)) :
    Cursor L N → List (Cursor L N) → Prop
  | last {c e} : next c = .error e → Visits next c [c]
  | step {c c' cs} : next c = .ok c' → Visits next c' cs → Visits next c (c :: cs)

/-- Walking a subtree and then whatever follows it: `k` is the rest of the
walk, given for every position that leaves the subtree. -/
theorem visits_preorder_append (t : BinTree L N) (ht : t.Full) :
    ∀ (p : Path L N) (cs : List (Cursor L N)), (∀ c : Cursor L N, c.preorderNext = p.nextAfter t →
      Visits Cursor.preorderNext c (c :: cs)) →
    Visits Cursor.preorderNext ⟨t, p⟩ (t.preorderCursors p ++ cs) := by
  induction t with
  | empty => exact ht.elim
  | leaf x =>
    intro p cs k
    exact k ⟨.leaf x, p⟩ (Cursor.preorderNext_leaf x p)
  | node l r d ihl ihr =>
    intro p cs k
    rw [BinTree.preorderCursors, List.cons_append, List.append_assoc]
    refine .step (Cursor.preorderNext_node l r d p) ?_
    -- once `l` is done the walk crosses over to `r`, and after `r` it goes
    -- where it goes after the whole node
    refine ihl ht.1 (.left r d p) _ fun c hc => .step hc ?_
    exact ihr ht.2 (.right l d p) cs fun c' hc' => k c' hc'

theorem visits_postorder_append (t : BinTree L N) (ht : t.Full) :
    ∀ (p : Path L N) (cs : List (Cursor L N)), (∀ c : Cursor L N, c.postorderNext = p.nextBefore t →
      Visits Cursor.postorderNext c (c :: cs)) →
    Visits Cursor.postorderNext ⟨t, p⟩ (t.postorderCursors p ++ cs) := by
  induction t with
  | empty => exact ht.elim
  | leaf x =>
    intro p cs k
    exact k ⟨.leaf x, p⟩ (Cursor.postorderNext_leaf x p)
  | node l r d ihl ihr =>
    intro p cs k
    rw [BinTree.postorderCursors, List.cons_append, List.append_assoc]
    refine .step (Cursor.postorderNext_node l r d p) ?_
    refine ihr ht.2 (.right l d p) _ fun c hc => .step hc ?_
    exact ihl ht.1 (.left r d p) cs fun c' hc' => k c' hc'

theorem visits_preorder (t : BinTree L N) (ht : t.Proper) :
    Visits Cursor.preorderNext t.cursor (t.preorderCursors .top) := by
  rcases ht with rfl | ht
  · exact .last rfl
  · have h := visits_preorder_append t ht .top [] fun c hc => .last hc
    rwa [List.append_nil] at h

theorem visits_postorder (t : BinTree L N) (ht : t.Proper) :
    Visits Cursor.postorderNext t.cursor (t.postorderCursors .top) := by
  rcases ht with rfl | ht
  · exact .last rfl
  · have h := visits_postorder_append t ht .top [] fun c hc => .last hc
    rwa [List.append_nil] at h

/-- The subtree a list of branches leads to. -/
@[grind =] def BinTree.subtreeAt : BinTree L N → List PathBranch → Option (BinTree L N)
  | t, [] => some t
  | .node l _ _, .isLeft :: rest => l.subtreeAt rest
  | .node _ r _, .isRight :: rest => r.subtreeAt rest
  | _, _ :: _ => none

/-- The addresses of all positions: node, left, right. -/
@[grind =] def BinTree.preorderAddresses : BinTree L N → List (List PathBranch)
  | .node l r _ =>
    [] :: (l.preorderAddresses.map (.isLeft :: ·) ++
      r.preorderAddresses.map (.isRight :: ·))
  | _ => [[]]

/-- The addresses of all positions: node, right, left. -/
@[grind =] def BinTree.postorderAddresses : BinTree L N → List (List PathBranch)
  | .node l r _ =>
    [] :: (r.postorderAddresses.map (.isRight :: ·) ++
      l.postorderAddresses.map (.isLeft :: ·))
  | _ => [[]]

/-- The addresses of the leaves from left to right. -/
def BinTree.leafAddresses : BinTree L N → List (List PathBranch)
  | .empty => []
  | .leaf _ => [[]]
  | .node l r _ =>
    l.leafAddresses.map (.isLeft :: ·) ++ r.leafAddresses.map (.isRight :: ·)

theorem BinTree.mem_preorderAddresses (t : BinTree L N) (a : List PathBranch) :
    a ∈ t.preorderAddresses ↔ (t.subtreeAt a).isSome := by
  induction t generalizing a with
  | empty => cases a <;> simp [preorderAddresses, subtreeAt]
  | leaf x => cases a <;> simp [preorderAddresses, subtreeAt]
  | node l r d ihl ihr =>
    rcases a with _ | ⟨_ | _, a⟩ <;>
      simp [preorderAddresses, subtreeAt, ihl, ihr]

theorem BinTree.nodup_preorderAddresses (t : BinTree L N) : t.preorderAddresses.Nodup := by
  induction t with
  | empty => simp [preorderAddresses]
  | leaf x => simp [preorderAddresses]
  | node l r d ihl ihr =>
    have hl := List.Nodup.map (List.cons_injective (a := PathBranch.isLeft)) ihl
    have hr := List.Nodup.map (List.cons_injective (a := PathBranch.isRight)) ihr
    refine List.nodup_cons.mpr ⟨by simp, List.nodup_append.mpr ⟨hl, hr, ?_⟩⟩
    intro a ha b hb hab
    obtain ⟨_, _, rfl⟩ := List.mem_map.mp ha
    obtain ⟨_, _, rfl⟩ := List.mem_map.mp hb
    simp at hab

theorem BinTree.postorderAddresses_perm (t : BinTree L N) :
    t.postorderAddresses.Perm t.preorderAddresses := by
  induction t with
  | empty => exact .refl _
  | leaf x => exact .refl _
  | node l r d ihl ihr =>
    refine List.Perm.cons _ (List.perm_append_comm.trans ?_)
    exact (ihl.map _).append (ihr.map _)

theorem BinTree.map_address_preorderCursors (t : BinTree L N) (p : Path L N) :
    (t.preorderCursors p).map (·.path.address) = t.preorderAddresses.map (p.address ++ ·) := by
  induction t generalizing p with
  | empty => simp [preorderCursors, preorderAddresses]
  | leaf x => simp [preorderCursors, preorderAddresses]
  | node l r d ihl ihr =>
    simp [preorderCursors, preorderAddresses, ihl, ihr, Path.address, Function.comp_def]

theorem BinTree.map_address_postorderCursors (t : BinTree L N) (p : Path L N) :
    (t.postorderCursors p).map (·.path.address) = t.postorderAddresses.map (p.address ++ ·) := by
  induction t generalizing p with
  | empty => simp [postorderCursors, postorderAddresses]
  | leaf x => simp [postorderCursors, postorderAddresses]
  | node l r d ihl ihr =>
    simp [postorderCursors, postorderAddresses, ihl, ihr, Path.address, Function.comp_def]

theorem BinTree.subtreeAt_plug (p : Path L N) (t : BinTree L N) (rest : List PathBranch) :
    (p.plug t).subtreeAt (p.address ++ rest) = t.subtreeAt rest := by
  induction p generalizing t rest with
  | top => rfl
  | left r d up ih => simp [Path.plug, Path.address, ih, subtreeAt]
  | right l d up ih => simp [Path.plug, Path.address, ih, subtreeAt]

theorem Cursor.subtreeAt_address (c : Cursor L N) :
    c.tree.subtreeAt c.path.address = some c.it := by
  have h := BinTree.subtreeAt_plug c.path c.it []
  rw [List.append_nil] at h
  rw [Cursor.tree_eq_plug, h, BinTree.subtreeAt]

theorem BinTree.tree_of_mem_preorderCursors (t : BinTree L N) (p : Path L N) :
    ∀ c ∈ t.preorderCursors p, c.tree = p.plug t := by
  induction t generalizing p with
  | empty => simp [preorderCursors, Cursor.tree_eq_plug]
  | leaf x => simp [preorderCursors, Cursor.tree_eq_plug]
  | node l r d ihl ihr =>
    intro c hc
    rcases List.mem_cons.mp hc with rfl | hc
    · exact Cursor.tree_eq_plug _
    · rcases List.mem_append.mp hc with hc | hc
      · exact ihl _ c hc
      · exact ihr _ c hc

@[simp] theorem BinTree.length_preorderCursors (t : BinTree L N) (p : Path L N) :
    (t.preorderCursors p).length = t.numNodes := by
  induction t generalizing p with
  | empty => rfl
  | leaf x => rfl
  | node l r d ihl ihr => simp [preorderCursors, numNodes, ihl, ihr]

theorem BinTree.filter_isLeaf_preorderCursors (t : BinTree L N) (p : Path L N) :
    ((t.preorderCursors p).filter Cursor.isLeaf).map (·.it) = t.leaves.map .leaf := by
  induction t generalizing p with
  | empty => rfl
  | leaf x => rfl
  | node l r d ihl ihr =>
    rw [preorderCursors, List.filter_cons_of_neg (by simp [Cursor.isLeaf]),
      List.filter_append, List.map_append, ihl, ihr, leaves, List.map_append]

theorem BinTree.filterMap_leaf_preorderCursors (t : BinTree L N) (p : Path L N) :
    (t.preorderCursors p).filterMap Cursor.leaf? = t.leaves := by
  induction t generalizing p with
  | empty => rfl
  | leaf x => rfl
  | node l r d ihl ihr =>
    rw [preorderCursors, List.filterMap_cons_none rfl, List.filterMap_append, ihl, ihr,
      leaves]

@[simp] theorem BinTree.length_leafCursors (t : BinTree L N) (p : Path L N) :
    ((t.preorderCursors p).filter Cursor.isLeaf).length = t.numLeaves := by
  have h := congrArg List.length (filter_isLeaf_preorderCursors t p)
  simpa only [List.length_map, length_leaves] using h

theorem BinTree.map_address_leafCursors (t : BinTree L N) (p : Path L N) :
    ((t.preorderCursors p).filter Cursor.isLeaf).map (·.path.address) =
      t.leafAddresses.map (p.address ++ ·) := by
  induction t generalizing p with
  | empty => rfl
  | leaf x =>
    show [p.address] = [p.address ++ []]
    rw [List.append_nil]
  | node l r d ihl ihr =>
    rw [preorderCursors, List.filter_cons_of_neg (by simp [Cursor.isLeaf]),
      List.filter_append, List.map_append, ihl, ihr]
    simp [leafAddresses, Path.address, Function.comp_def]

theorem Cursor.seek_of_visits {hit : Cursor L N → Bool} {n : Nat}
    {c : Cursor L N} {cs : List (Cursor L N)}
    (h : Visits Cursor.preorderNext c cs) :
    ∀ fuel next, cs.length ≤ fuel → next ≤ n →
    match (cs.filter hit)[n - next]? with
    | some c' => Cursor.seek hit n fuel next c = some (.ok c')
    | none => ∃ e, Cursor.seek hit n fuel next c = some (.error e) ∧ e.tree = c.tree := by
  induction h with
  | @last c e he =>
    intro fuel next hf hn
    obtain ⟨fuel, rfl⟩ : ∃ f, fuel = f + 1 := ⟨fuel - 1, by simp at hf; omega⟩
    have htree : e.tree = c.tree := by
      have h := Move.tree_landed .preorderNext c
      simpa only [Move.run, he, Cursor.landed] using h
    by_cases hh : hit c = true
    · by_cases hnn : next = n
      · subst hnn
        simp [hh, Cursor.seek]
      · have hpos : n - next = (n - next - 1) + 1 := by omega
        rw [hpos]
        simp [hh, Cursor.seek, hnn, he, htree]
    · simp [hh, Cursor.seek, he, htree]
  | @step c c' cs hc _ ih =>
    intro fuel next hf hn
    obtain ⟨fuel, rfl⟩ : ∃ f, fuel = f + 1 := ⟨fuel - 1, by simp at hf; omega⟩
    have hf' : cs.length ≤ fuel := by simpa using hf
    have htree : c'.tree = c.tree := by
      have h := Move.tree_landed .preorderNext c
      simpa only [Move.run, hc, Cursor.landed] using h
    rw [← htree]
    by_cases hh : hit c = true
    · by_cases hnn : next = n
      · subst hnn
        simp [hh, Cursor.seek]
      · have hpos : n - next = (n - (next + 1)) + 1 := by omega
        rw [List.filter_cons_of_pos hh, hpos, List.getElem?_cons_succ]
        simpa [Cursor.seek, hh, hnn, hc] using ih fuel (next + 1) hf' (by omega)
    · rw [List.filter_cons_of_neg hh]
      simpa [Cursor.seek, hh, hc] using ih fuel next hf' hn

/-- Whatever a search answers, its cursor stands for the same tree, and on `Ok`
it stands on a hit. -/
theorem Cursor.tree_of_seek {hit : Cursor L N → Bool} {n : Nat} :
    ∀ (fuel next : Nat) (c : Cursor L N) (res : Except (Cursor L N) (Cursor L N)),
    Cursor.seek hit n fuel next c = some res →
    (Cursor.landed res).tree = c.tree ∧ ∀ c', res = .ok c' → hit c' = true := by
  intro fuel
  induction fuel with
  | zero =>
    intro next c res h
    cases h
  | succ fuel ih =>
    intro next c res h
    have hmove := Move.tree_landed .preorderNext c
    simp only [Move.run] at hmove
    -- after a move that succeeds the search goes on, else it is over
    have hgo : ∀ next', (match c.preorderNext with
        | .ok c => Cursor.seek hit n fuel next' c
        | .error c => some (.error c)) = some res →
        (Cursor.landed res).tree = c.tree ∧ ∀ c', res = .ok c' → hit c' = true := by
      intro next' h
      cases hc : c.preorderNext with
      | ok c₁ =>
        rw [hc] at h hmove
        obtain ⟨htree, hhit⟩ := ih next' c₁ res h
        exact ⟨htree.trans hmove, hhit⟩
      | error e =>
        rw [hc] at h hmove
        cases h
        exact ⟨hmove, nofun⟩
    rw [Cursor.seek] at h
    split_ifs at h with hh hn
    · cases h
      refine ⟨rfl, ?_⟩
      rintro c' ⟨⟩
      exact hh
    · exact hgo _ h
    · exact hgo _ h

theorem BinTree.goToNthLeaf_cursor (t : BinTree L N) (ht : t.Proper) (n : Nat) :
    match ((t.preorderCursors .top).filter Cursor.isLeaf)[n]? with
    | some c => t.cursor.goToNthLeaf n = some (.ok c)
    | none => ∃ e, t.cursor.goToNthLeaf n = some (.error e) ∧ e.tree = t :=
  Cursor.seek_of_visits (visits_preorder t ht) t.numNodes 0
    (Nat.le_of_eq (BinTree.length_preorderCursors t .top)) (Nat.zero_le n)

end Wakterm.Bintree
