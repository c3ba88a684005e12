import Mathlib.Data.List.Infix
import Wakterm.Termwiz.Input

/-!
# Looking up keys

`lookup` goes down the tree as far as the input does, and then back up to the last node with a
value.
-/

namespace Wakterm.Theorems.Input

open Wakterm.Escape Wakterm.Machine Wakterm.Termwiz Wakterm.Vtparse

/-! ## What the tree holds -/

section Tree

variable {V : Type}

/-- The node that a path leads to. -/
@[grind =] def walk : Node V → List UInt8 → Option (Node V)
  | node, [] => some node
  | node, b :: path => (Node.child b node.children).bind fun next => walk next path

/-- The value at the end of a path. -/
def valueAt (node : Node V) (path : List UInt8) : Option V := (walk node path).bind Node.value

/-- Paths that end in a leaf end in a value. -/
def LeavesHold (node : Node V) : Prop :=
  ∀ path leaf, walk node path = some leaf → leaf.children = [] → leaf.value ≠ none

def lastInserted (inserted : List (List UInt8 × V)) (key : List UInt8) : Option V :=
  inserted.foldl (fun found entry => if key = entry.1 then some entry.2 else found) none

/-- The map that the insertions build. -/
def keyMap (inserted : List (List UInt8 × V)) : KeyMap V :=
  inserted.foldl (fun map entry => map.insert entry.1 entry.2) .new

/-- An inserted key begins with these bytes. -/
def Begins (inserted : List (List UInt8 × V)) (bytes : List UInt8) : Prop :=
  ∃ entry ∈ inserted, bytes <+: entry.1

variable {node : Node V} {nodes : List (Node V)} {b c : UInt8} {key path : List UInt8} {v : V}

theorem child_modifyChild_self {f : Node V → Node V} (hf : ∀ n, (f n).label = n.label) :
    Node.child b (Node.modifyChild b f nodes) = some (f ((Node.child b nodes).getD (.new b))) := by
  have hself : ∀ n : Node V, n.label = b → ∀ rest, Node.child b (f n :: rest) = some (f n) := by
    intro n hn rest
    rw [Node.child, hf, hn, if_neg (by simp), if_pos rfl]
  induction nodes with
  | nil => exact hself (.new b) rfl []
  | cons first nodes ih =>
    rw [Node.modifyChild, Node.child]
    by_cases hlt : first.label < b
    · rw [if_pos hlt, if_pos hlt, Node.child, if_pos hlt, ih]
    rw [if_neg hlt, if_neg hlt]
    by_cases heq : first.label = b
    · rw [if_pos heq, if_pos heq]
      exact hself first heq nodes
    · rw [if_neg heq, if_neg heq]
      exact hself (.new b) rfl _

theorem child_modifyChild_ne {f : Node V → Node V} (hf : ∀ n, (f n).label = n.label)
    (h : c ≠ b) : Node.child c (Node.modifyChild b f nodes) = Node.child c nodes := by
  have hother : ∀ n : Node V, n.label = b → ∀ rest,
      Node.child c (f n :: rest) = if b < c then Node.child c rest else none := by
    intro n hn rest
    rw [Node.child, hf, hn, if_neg h.symm]
  induction nodes with
  | nil =>
    rw [Node.modifyChild, hother (.new b) rfl]
    split
    · rfl
    · rfl
  | cons first nodes ih =>
    rw [Node.modifyChild]
    by_cases hlt : first.label < b
    · rw [if_pos hlt, Node.child, Node.child, ih]
    rw [if_neg hlt]
    by_cases heq : first.label = b
    · rw [if_pos heq, hother first heq, Node.child, heq, if_neg h.symm]
    · rw [if_neg heq, hother (.new b) rfl]
      by_cases hbc : b < c
      · rw [if_pos hbc]
      · rw [if_neg hbc, Node.child, if_neg (by grind), if_neg (by grind)]

theorem label_insert (v : V) (key : List UInt8) (node : Node V) :
    (node.insert v key).label = node.label := by
  cases node
  cases key with
  | nil => rfl
  | cons b key => rfl

theorem walk_insert_cons (v : V) (key : List UInt8) (node : Node V) (path : List UInt8) :
    walk (node.insert v (b :: key)) (c :: path) =
      if c = b then walk (((Node.child b node.children).getD (.new b)).insert v key) path
      else walk node (c :: path) := by
  cases node with
  | mk label children old =>
    show ((Node.child c (Node.modifyChild b (Node.insert v key) children)).bind _) = _
    by_cases h : c = b
    · rw [if_pos h, h, child_modifyChild_self (label_insert v key)]
      rfl
    · rw [if_neg h, child_modifyChild_ne (label_insert v key) h]
      rfl

theorem walk_append (path path' : List UInt8) : ∀ node : Node V,
    walk node (path ++ path') = (walk node path).bind fun next => walk next path' := by
  induction path with
  | nil =>
    intro node
    rfl
  | cons b path ih =>
    intro node
    show ((Node.child b node.children).bind fun next => walk next (path ++ path')) = _
    rw [walk, Option.bind_assoc]
    exact congrArg _ (funext ih)

theorem walk_new (b : UInt8) (path : List UInt8) :
    walk (.new b : Node V) path = if path = [] then some (.new b) else none := by
  cases path with
  | nil => rfl
  | cons c path => rfl

theorem insert_spec (v : V) (key : List UInt8) : ∀ (node : Node V) (path : List UInt8),
    valueAt (node.insert v key) path = (if path = key then some v else valueAt node path) ∧
      ((walk (node.insert v key) path).isSome ↔ (walk node path).isSome ∨ path <+: key) := by
  induction key with
  | nil =>
    intro node path
    cases node
    cases path with
    | nil => exact ⟨rfl, by simp [walk]⟩
    | cons c path => exact ⟨rfl, by simp [walk, Node.insert, Node.children]⟩
  | cons b key ih =>
    intro node path
    cases path with
    | nil =>
      cases node
      exact ⟨rfl, by simp [walk]⟩
    | cons c path =>
      rw [valueAt, walk_insert_cons]
      by_cases h : c = b
      · obtain rfl := h
        obtain ⟨hvalue, hsome⟩ := ih ((Node.child c node.children).getD (.new c)) path
        rw [if_pos rfl]
        rw [valueAt] at hvalue
        rw [hvalue, hsome, List.cons_prefix_cons]
        cases hchild : Node.child c node.children with
        | none =>
          rw [Option.getD_none, valueAt, walk_new, valueAt, walk, hchild]
          by_cases hnil : path = []
          · simp [hnil, Node.new, Node.value]
          · simp [hnil]
        | some next => simp [valueAt, walk, hchild]
      · rw [if_neg h, if_neg (by simp [h])]
        exact ⟨rfl, by simp [List.cons_prefix_cons, h]⟩

/-! ## What a lookup finds -/

/-- The last value on the way of the input, and where it is. -/
@[grind =] def longest : List UInt8 → Node V → Option (Nat × V)
  | [], node => node.value.map fun v => (0, v)
  | b :: key, node =>
    (((Node.child b node.children).bind (longest key)).map fun found => (found.1 + 1, found.2)).or
      (node.value.map fun v => (0, v))

/-- The way of the input ends at a node with children, or is left at one without a value. -/
@[grind =] def goesBack : List UInt8 → Node V → Bool
  | [], node => !node.children.isEmpty
  | b :: key, node =>
    match Node.child b node.children with
    | some next => goesBack key next
    | none => node.value.isNone

/-- What is made of the last value. -/
def foundAt (maybeMore : Bool) (depth : Nat) (key : List UInt8) (node : Node V) : NodeFind V :=
  match longest key node with
  | some (len, v) =>
    if maybeMore && goesBack key node then .ambiguousMatch (depth + len) v
    else .exact (depth + len) v
  | none => .ambiguousBackTrack

theorem LeavesHold.child (h : LeavesHold node) {next : Node V}
    (hnext : Node.child b node.children = some next) : LeavesHold next :=
  fun path leaf hleaf => h (b :: path) leaf (by rw [walk, hnext]; exact hleaf)

theorem goesBack_of_longest (hleaves : LeavesHold node) (h : longest key node = none) :
    goesBack key node = true := by
  induction key generalizing node with
  | nil =>
    have hvalue : node.value = none := by simpa [longest] using h
    cases hchildren : node.children with
    | nil => exact absurd hvalue (hleaves [] node rfl hchildren)
    | cons first rest => simp [goesBack, hchildren]
  | cons b key ih =>
    obtain ⟨hbelow, hvalue⟩ := Option.or_eq_none_iff.mp h
    rw [goesBack]
    cases hchild : Node.child b node.children with
    | none => simpa using hvalue
    | some next =>
      refine ih (hleaves.child hchild) ?_
      simpa [hchild] using hbelow

/-- The induction is on the input; on the way back the value of a node counts if there was none
below it. -/
theorem lookup_foundAt (maybeMore : Bool) (key : List UInt8) :
    ∀ (depth : Nat) (node : Node V), depth ≠ 0 → LeavesHold node →
      node.lookup maybeMore key depth = some (foundAt maybeMore depth key node) := by
  induction key with
  | nil =>
    intro depth node _ hleaves
    rw [Node.lookup, foundAt, longest, goesBack]
    by_cases hleaf : node.children.isEmpty = true
    · rw [if_pos hleaf]
      cases hvalue : node.value with
      | none => exact absurd hvalue (hleaves [] node rfl (List.isEmpty_iff.mp hleaf))
      | some v => simp [hleaf]
    · rw [if_neg hleaf, Node.backTrack]
      cases node.value with
      | none => rfl
      | some v => simp [hleaf]
  | cons b key ih =>
    intro depth node hdepth hleaves
    rw [Node.lookup, foundAt, longest, goesBack]
    cases hchild : Node.child b node.children with
    | none =>
      show (if depth = 0 then _ else _) = _
      rw [if_neg hdepth]
      cases node.value with
      | none => rfl
      | some v => simp
    | some next =>
      show Option.map _ (next.lookup maybeMore key (depth + 1)) = _
      rw [ih (depth + 1) next (by omega) (hleaves.child hchild), foundAt, Option.bind_some]
      cases hlongest : longest key next with
      | none =>
        have hback := goesBack_of_longest (hleaves.child hchild) hlongest
        rw [Option.map_none, Option.none_or, Option.map_some, Node.backTrack]
        cases node.value with
        | none => rfl
        | some v => simp [hback]
      | some found =>
        have hplace : depth + 1 + found.1 = depth + (found.1 + 1) := by omega
        simp only [Option.map_some, Option.some_or]
        rw [hplace]
        by_cases hback : (maybeMore && goesBack key next) = true
        · rw [if_pos hback]
        · rw [if_neg hback]

theorem longest_eq (key : List UInt8) : ∀ node : Node V,
    (∀ len v, longest key node = some (len, v) → len ≤ key.length ∧
      valueAt node (key.take len) = some v ∧
      ∀ j, len < j → j ≤ key.length → valueAt node (key.take j) = none) ∧
    (longest key node = none → ∀ j ≤ key.length, valueAt node (key.take j) = none) := by
  induction key with
  | nil =>
    intro node
    constructor
    · intro len v h
      obtain ⟨v', hv, heq⟩ := Option.map_eq_some_iff.mp h
      obtain ⟨rfl, rfl⟩ := Prod.mk.inj heq
      exact ⟨Nat.le_refl 0, hv, fun j hlt hle => absurd hle (by simp; omega)⟩
    · intro h j hj
      simpa [valueAt, walk, longest] using h
  | cons b key ih =>
    intro node
    have hzero : valueAt node [] = node.value := rfl
    have hnext : ∀ j, valueAt node ((b :: key).take (j + 1)) =
        (Node.child b node.children).bind fun next => valueAt next (key.take j) := by
      intro j
      rw [List.take_succ_cons, valueAt, walk]
      cases Node.child b node.children with
      | none => rfl
      | some next => rfl
    have hbelow : (Node.child b node.children).bind (longest key) = none →
        ∀ j, 0 < j → j ≤ key.length + 1 → valueAt node ((b :: key).take j) = none := by
      intro hnone j hpos hj
      obtain ⟨j, rfl⟩ : ∃ i, j = i + 1 := ⟨j - 1, by omega⟩
      rw [hnext]
      cases hchild : Node.child b node.children with
      | none => rfl
      | some next =>
        rw [hchild] at hnone
        exact (ih next).2 hnone j (by omega)
    constructor
    · intro len v h
      rw [longest] at h
      cases hfound : (Node.child b node.children).bind (longest key) with
      | none =>
        rw [hfound, Option.map_none, Option.none_or] at h
        obtain ⟨v', hv, heq⟩ := Option.map_eq_some_iff.mp h
        obtain ⟨rfl, rfl⟩ := Prod.mk.inj heq
        exact ⟨Nat.zero_le _, hzero.trans hv, fun j hlt hle => hbelow hfound j hlt hle⟩
      | some found =>
        rw [hfound, Option.map_some, Option.some_or] at h
        obtain ⟨rfl, rfl⟩ := Prod.mk.inj (Option.some.inj h)
        obtain ⟨next, hchild, hlongest⟩ := Option.bind_eq_some_iff.mp hfound
        obtain ⟨hle, hvalue, hmax⟩ := (ih next).1 found.1 found.2 hlongest
        refine ⟨Nat.succ_le_succ hle, by rw [hnext, hchild]; exact hvalue, fun j hlt hj => ?_⟩
        obtain ⟨j, rfl⟩ : ∃ i, j = i + 1 := ⟨j - 1, by omega⟩
        rw [hnext, hchild]
        exact hmax j (by omega) (Nat.le_of_succ_le_succ hj)
    · intro h j hj
      obtain ⟨hnone, hvalue⟩ := Option.or_eq_none_iff.mp h
      cases j with
      | zero => simpa [hzero] using hvalue
      | succ j => exact hbelow (by simpa using hnone) (j + 1) (by omega) hj

theorem children_ne_nil_iff (node : Node V) : node.children ≠ [] ↔ ∃ c, (walk node [c]).isSome := by
  have hwalk : ∀ c, walk node [c] = Node.child c node.children := by
    intro c
    rw [walk]
    cases Node.child c node.children with
    | none => rfl
    | some next => rfl
  cases hchildren : node.children with
  | nil => simp [hwalk, hchildren, Node.child]
  | cons first rest =>
    refine iff_of_true (List.cons_ne_nil _ _) ⟨first.label, ?_⟩
    rw [hwalk, hchildren, Node.child, if_neg (by simp), if_pos rfl]
    rfl

/-- Going back is to end at a node with children, or to leave the tree where no key ends. -/
theorem goesBack_iff (key : List UInt8) : ∀ node : Node V, goesBack key node = true ↔
    (∃ c, (walk node (key ++ [c])).isSome) ∨ ∃ i < key.length, (walk node (key.take i)).isSome ∧
        walk node (key.take (i + 1)) = none ∧ valueAt node (key.take i) = none := by
  induction key with
  | nil =>
    intro node
    have hchildren := children_ne_nil_iff node
    simpa [goesBack] using hchildren
  | cons b key ih =>
    intro node
    rw [goesBack]
    cases hchild : Node.child b node.children with
    | none =>
      have hleft : ∀ path, walk node (b :: path) = none := fun path => by rw [walk, hchild]; rfl
      constructor
      · intro hvalue
        exact .inr ⟨0, Nat.succ_pos _, rfl, hleft [], Option.isNone_iff_eq_none.mp hvalue⟩
      · rintro (⟨c, hc⟩ | ⟨i, -, hsome, -, hnone⟩)
        · simp [hleft] at hc
        · cases i with
          | zero => exact Option.isNone_iff_eq_none.mpr hnone
          | succ i => simp [hleft] at hsome
    | some next =>
      have hnext : ∀ path, walk node (b :: path) = walk next path :=
        fun path => by rw [walk, hchild]; rfl
      show goesBack key next = true ↔ _
      rw [ih next]
      refine or_congr (by simp [hnext]) ?_
      constructor
      · rintro ⟨i, hi, h⟩
        exact ⟨i + 1, Nat.succ_lt_succ hi, by simpa [hnext, valueAt] using h⟩
      · rintro ⟨i, hi, h⟩
        cases i with
        | zero => simp [hnext, walk] at h
        | succ i => exact ⟨i, Nat.lt_of_succ_lt_succ hi, by simpa [hnext, valueAt] using h⟩

/-! ## The map that insertions build -/

variable {inserted : List (List UInt8 × V)} {input : List UInt8} {maybeMore : Bool}

theorem keyMap_spec (inserted : List (List UInt8 × V)) (path : List UInt8) :
    valueAt (keyMap inserted).root path = lastInserted inserted path ∧
      ((walk (keyMap inserted).root path).isSome ↔ path = [] ∨ Begins inserted path) := by
  induction inserted using List.reverseRecOn with
  | nil =>
    have hroot : (keyMap ([] : List (List UInt8 × V))).root = .new 0 := rfl
    rw [hroot, valueAt, walk_new]
    by_cases hnil : path = []
    · exact ⟨by rw [if_pos hnil]; rfl, by simp [hnil]⟩
    · exact ⟨by rw [if_neg hnil]; rfl, by simp [hnil, Begins]⟩
  | append_singleton inserted entry ih =>
    obtain ⟨hvalue, hsome⟩ := ih
    obtain ⟨hvalue', hsome'⟩ := insert_spec entry.2 entry.1 (keyMap inserted).root path
    have hmap : (keyMap (inserted ++ [entry])).root =
        (keyMap inserted).root.insert entry.2 entry.1 := by
      rw [keyMap, List.foldl_append]
      rfl
    rw [hmap]
    constructor
    · rw [hvalue', hvalue, lastInserted, lastInserted, List.foldl_append]
      rfl
    · rw [hsome', hsome, or_assoc]
      simp [Begins, or_and_right, exists_or]

theorem lastInserted_isSome {key : List UInt8} :
    (lastInserted inserted key).isSome ↔ ∃ entry ∈ inserted, entry.1 = key := by
  induction inserted using List.reverseRecOn with
  | nil => simp [lastInserted]
  | append_singleton inserted entry ih =>
    rw [lastInserted, List.foldl_append]
    show (if key = entry.1 then some entry.2 else lastInserted inserted key).isSome ↔ _
    by_cases h : key = entry.1
    · rw [if_pos h]
      simp [h]
    · rw [if_neg h, ih]
      simp [or_and_right, exists_or, Ne.symm h]

theorem Begins.of_prefix {bytes bytes' : List UInt8} (h : Begins inserted bytes)
    (hpre : bytes' <+: bytes) : Begins inserted bytes' :=
  h.imp fun _ hentry => ⟨hentry.1, hpre.trans hentry.2⟩

/-- Some inserted key is longer than the input and begins with the whole of it. -/
def Longer (inserted : List (List UInt8 × V)) (input : List UInt8) : Prop :=
  ∃ entry ∈ inserted, input <+: entry.1 ∧ input.length < entry.1.length

theorem longer_iff : Longer inserted input ↔ ∃ c, Begins inserted (input ++ [c]) := by
  constructor
  · rintro ⟨entry, hentry, ⟨rest, hrest⟩, hlt⟩
    cases rest with
    | nil => simp [← hrest] at hlt
    | cons c rest => exact ⟨c, entry, hentry, rest, by simp [← hrest]⟩
  · rintro ⟨c, entry, hentry, hpre⟩
    refine ⟨entry, hentry, (List.prefix_append input [c]).trans hpre, ?_⟩
    have hle := hpre.length_le
    rwa [List.length_append] at hle

/-- The longest part of the input that begins a key is neither nothing nor all of it, and no key. -/
def LeavesTree (inserted : List (List UInt8 × V)) (input : List UInt8) : Prop :=
  ∃ i, 0 < i ∧ i < input.length ∧ Begins inserted (input.take i) ∧
    ¬Begins inserted (input.take (i + 1)) ∧ ∀ entry ∈ inserted, entry.1 ≠ input.take i

/-- Some inserted key begins the input. -/
def Matches (inserted : List (List UInt8 × V)) (input : List UInt8) : Prop :=
  ∃ entry ∈ inserted, entry.1 <+: input

/-- What is found is the longest key, with the value that was inserted last, and that there may be
a longer one is said just when there may. -/
structure LongestMatch (inserted : List (List UInt8 × V)) (input : List UInt8) (maybeMore : Bool)
    (found : Found V) : Prop where
  matched : Matches inserted input → ∃ len v, (found = .exact len v ∨ found = .ambiguous len v) ∧
    len ≤ input.length ∧ lastInserted inserted (input.take len) = some v ∧
    ∀ entry ∈ inserted, entry.1 <+: input → entry.1.length ≤ len
  unmatched : ¬Matches inserted input → found = .none ∨ found = .needData
  longer : (∃ len v, found = .ambiguous len v) ∨ found = .needData → Longer inserted input
  more : ∀ len v, found = .ambiguous len v → maybeMore = true
  waits : maybeMore = true → Longer inserted input →
    (∃ len v, found = .ambiguous len v) ∨ found = .needData

theorem root_value (hkeys : ∀ entry ∈ inserted, entry.1 ≠ []) :
    (keyMap inserted).root.value = none := by
  have hvalue : (keyMap inserted).root.value = lastInserted inserted [] :=
    (keyMap_spec inserted []).1
  rw [hvalue, ← Option.not_isSome_iff_eq_none, lastInserted_isSome]
  rintro ⟨entry, hentry, hnil⟩
  exact hkeys entry hentry hnil

/-- Below the root every leaf ends a key. -/
theorem leavesHold {b : UInt8} {next : Node V}
    (hnext : Node.child b (keyMap inserted).root.children = some next) : LeavesHold next := by
  intro path leaf hleaf hchildren hvalue
  have hwalk : ∀ path, walk (keyMap inserted).root (b :: path) = walk next path :=
    fun path => by rw [walk, hnext]; rfl
  obtain ⟨hlast, hsome⟩ := keyMap_spec inserted (b :: path)
  rw [valueAt, hwalk, hleaf] at hlast
  rw [hwalk, hleaf] at hsome
  obtain ⟨entry, hentry, hpre⟩ := (hsome.mp rfl).resolve_left (List.cons_ne_nil _ _)
  by_cases hend : entry.1 = b :: path
  · have := lastInserted_isSome.mpr ⟨entry, hentry, hend⟩
    rw [← hlast] at this
    simp [hvalue] at this
  · -- the key goes on, and so does the tree
    have hlonger : Longer inserted (b :: path) :=
      ⟨entry, hentry, hpre, lt_of_le_of_ne hpre.length_le fun h =>
        hend (hpre.eq_of_length h).symm⟩
    obtain ⟨c, hc⟩ := longer_iff.mp hlonger
    have hstep := (keyMap_spec inserted (b :: path ++ [c])).2.mpr (.inr hc)
    rw [List.cons_append, hwalk, walk_append, hleaf] at hstep
    exact (children_ne_nil_iff leaf).mpr ⟨c, hstep⟩ hchildren

theorem lookup_keyMap (hkeys : ∀ entry ∈ inserted, entry.1 ≠ []) (b : UInt8) (key : List UInt8) :
    (keyMap inserted).lookup (b :: key) maybeMore = some
      (if Node.child b (keyMap inserted).root.children = none then .none
      else match longest (b :: key) (keyMap inserted).root with
        | some (len, v) =>
          if maybeMore && goesBack (b :: key) (keyMap inserted).root then .ambiguous len v
          else .exact len v
        | none => .needData) := by
  rw [KeyMap.lookup, Node.lookup, longest, root_value hkeys, goesBack]
  cases hchild : Node.child b (keyMap inserted).root.children with
  | none => rfl
  | some next =>
    show Option.map _ (Option.map _ (next.lookup maybeMore key 1)) = _
    rw [lookup_foundAt maybeMore key 1 next Nat.one_ne_zero (leavesHold hchild), foundAt,
      if_neg (Option.some_ne_none next), Option.bind_some]
    cases hlongest : longest key next with
    | none =>
      rw [Option.map_some, Option.map_some, Node.backTrack, root_value hkeys]
      rfl
    | some found =>
      simp only [Option.map_some, Option.some_or]
      rw [Nat.add_comm 1]
      by_cases hback : (maybeMore && goesBack key next) = true
      · rw [if_pos hback, if_pos hback]
      · rw [if_neg hback, if_neg hback]

theorem begins_of_matches (hkeys : ∀ entry ∈ inserted, entry.1 ≠ []) {b : UInt8}
    {key : List UInt8} (h : Matches inserted (b :: key)) : Begins inserted [b] := by
  obtain ⟨entry, hentry, hpre⟩ := h
  cases hentry' : entry.1 with
  | nil => exact absurd hentry' (hkeys entry hentry)
  | cons c rest =>
    rw [hentry', List.cons_prefix_cons] at hpre
    exact ⟨entry, hentry, by simp [hentry', hpre.1]⟩

theorem child_isSome_iff (b : UInt8) :
    Node.child b (keyMap inserted).root.children ≠ none ↔ Begins inserted [b] := by
  have hsome := (keyMap_spec inserted [b]).2
  have hwalk : walk (keyMap inserted).root [b] =
      Node.child b (keyMap inserted).root.children := by
    rw [walk]
    cases Node.child b (keyMap inserted).root.children with
    | none => rfl
    | some next => rfl
  rw [hwalk] at hsome
  simpa [← Option.isSome_iff_ne_none] using hsome

theorem longest_some {len : Nat} {v : V} (h : longest input (keyMap inserted).root = some (len, v)) :
    len ≤ input.length ∧ lastInserted inserted (input.take len) = some v ∧
      ∀ entry ∈ inserted, entry.1 <+: input → entry.1.length ≤ len := by
  obtain ⟨hle, hvalue, hmax⟩ := (longest_eq input (keyMap inserted).root).1 len v h
  rw [(keyMap_spec inserted _).1] at hvalue
  refine ⟨hle, hvalue, fun entry hentry hpre => Nat.le_of_not_lt fun hlt => ?_⟩
  have hnone := hmax entry.1.length hlt hpre.length_le
  rw [(keyMap_spec inserted _).1, ← List.prefix_iff_eq_take.mp hpre] at hnone
  have := lastInserted_isSome.mpr ⟨entry, hentry, rfl⟩
  simp [hnone] at this

theorem longest_none (h : longest input (keyMap inserted).root = none) :
    ¬Matches inserted input := by
  rintro ⟨entry, hentry, hpre⟩
  have hnone := (longest_eq input (keyMap inserted).root).2 h entry.1.length hpre.length_le
  rw [(keyMap_spec inserted _).1, ← List.prefix_iff_eq_take.mp hpre] at hnone
  have := lastInserted_isSome.mpr ⟨entry, hentry, rfl⟩
  simp [hnone] at this

theorem goesBack_keyMap {b : UInt8} {key : List UInt8} (hbegins : Begins inserted [b]) :
    goesBack (b :: key) (keyMap inserted).root = true ↔
      Longer inserted (b :: key) ∨ LeavesTree inserted (b :: key) := by
  rw [goesBack_iff, longer_iff]
  have hsome : ∀ c path, (walk (keyMap inserted).root (c :: path)).isSome ↔
      Begins inserted (c :: path) := by
    intro c path
    rw [(keyMap_spec inserted _).2]
    simp
  refine or_congr (exists_congr fun c => hsome b (key ++ [c])) (exists_congr fun i => ?_)
  have hvalue : valueAt (keyMap inserted).root ((b :: key).take i) = none ↔
      ∀ entry ∈ inserted, entry.1 ≠ (b :: key).take i := by
    rw [(keyMap_spec inserted _).1, ← Option.not_isSome_iff_eq_none, lastInserted_isSome]
    simp only [not_exists, not_and, ne_eq]
  rw [hvalue]
  cases i with
  | zero =>
    -- the first byte of the input begins a key
    refine iff_of_false ?_ fun h => absurd h.1 (Nat.lt_irrefl 0)
    rintro ⟨-, -, hleft, -⟩
    have hnone : walk (keyMap inserted).root [b] = none := hleft
    have := (hsome b []).mpr hbegins
    simp [hnone] at this
  | succ i =>
    rw [List.take_succ_cons, List.take_succ_cons, hsome, ← hsome b (key.take (i + 1)),
      Option.not_isSome_iff_eq_none]
    simp

theorem goesBack_keyMap_of_longest {b : UInt8} {key : List UInt8}
    (hbegins : Begins inserted [b]) (h : longest (b :: key) (keyMap inserted).root = none) :
    goesBack (b :: key) (keyMap inserted).root = true := by
  rw [longest, Option.or_eq_none_iff] at h
  rw [goesBack]
  cases hchild : Node.child b (keyMap inserted).root.children with
  | none => exact absurd hchild ((child_isSome_iff b).mpr hbegins)
  | some next =>
    refine goesBack_of_longest (leavesHold hchild) ?_
    simpa [hchild] using h.1

theorem Longer.begins (h : Longer inserted input) : Begins inserted input :=
  h.imp fun _ hentry => ⟨hentry.1, hentry.2.1⟩

theorem Longer.not_leavesTree (h : Longer inserted input) : ¬LeavesTree inserted input := by
  rintro ⟨i, -, -, -, hleft, -⟩
  exact hleft (h.begins.of_prefix (List.take_prefix _ _))

theorem lookup_longer (hkeys : ∀ entry ∈ inserted, entry.1 ≠ []) (hinput : input ≠ [])
    (h : Longer inserted input) : ∃ found, (keyMap inserted).lookup input true = some found ∧
      ((∃ len v, found = .ambiguous len v) ∨ found = .needData) := by
  cases input with
  | nil => exact absurd rfl hinput
  | cons b key =>
    have hbegins : Begins inserted [b] := h.begins.of_prefix (by simp)
    rw [lookup_keyMap hkeys, if_neg ((child_isSome_iff b).mpr hbegins),
      (goesBack_keyMap hbegins).mpr (.inl h)]
    cases longest (b :: key) (keyMap inserted).root with
    | none => exact ⟨_, rfl, .inr rfl⟩
    | some found => exact ⟨_, rfl, .inl ⟨_, _, rfl⟩⟩

theorem lookup_key {v : V} (hkeys : ∀ entry ∈ inserted, entry.1 ≠ [])
    (hkey : lastInserted inserted key = some v)
    (hlast : ∀ entry ∈ inserted, key <+: entry.1 → entry.1 = key) (rest : List UInt8) :
    (keyMap inserted).lookup (key ++ rest) maybeMore = some (.exact key.length v) := by
  obtain ⟨entry, hentry, heq⟩ := lastInserted_isSome.mp (Option.isSome_of_eq_some hkey)
  have hend : ∀ bytes, key <+: bytes → Begins inserted bytes → bytes = key := by
    rintro bytes hpre ⟨entry', hentry', hbytes⟩
    have := hlast entry' hentry' (hpre.trans hbytes)
    exact (this ▸ hbytes).eq_of_length_le hpre.length_le
  have hgone : ¬(Longer inserted (key ++ rest) ∨ LeavesTree inserted (key ++ rest)) := by
    rintro (⟨entry', hentry', hpre, hlt⟩ | ⟨i, -, hi, hbytes, hleft, hno⟩)
    · rw [hlast entry' hentry' ((List.prefix_append key rest).trans hpre)] at hlt
      exact absurd hlt (by simp)
    · rcases Nat.lt_trichotomy i key.length with hlt | hat | hgt
      · refine hleft ⟨entry, hentry, ?_⟩
        rw [heq, List.take_append_of_le_length hlt]
        exact List.take_prefix _ _
      · exact hno entry hentry (by rw [heq, hat, List.take_left])
      · have hpre : key <+: (key ++ rest).take i := by
          rw [List.take_append, List.take_of_length_le hgt.le]
          exact List.prefix_append _ _
        have hlong := hend _ hpre hbytes
        have := congrArg List.length hlong
        rw [List.length_take] at this
        omega
  have hlongest : longest (key ++ rest) (keyMap inserted).root = some (key.length, v) := by
    cases hfound : longest (key ++ rest) (keyMap inserted).root with
    | none => exact absurd ⟨entry, hentry, heq ▸ List.prefix_append _ _⟩ (longest_none hfound)
    | some found =>
      obtain ⟨hle, hvalue, hmax⟩ := longest_some hfound
      have hlen : key.length ≤ found.1 := heq ▸ hmax entry hentry (heq ▸ List.prefix_append _ _)
      obtain ⟨entry', hentry', heq'⟩ := lastInserted_isSome.mp (Option.isSome_of_eq_some hvalue)
      have hpre : key <+: (key ++ rest).take found.1 :=
        List.prefix_of_prefix_length_le (List.prefix_append key rest) (List.take_prefix _ _)
          (by rw [List.length_take]; omega)
      have hwhole := hend _ hpre ⟨entry', hentry', heq' ▸ List.prefix_rfl⟩
      rw [hwhole, hkey] at hvalue
      have := congrArg List.length hwhole
      rw [List.length_take, Nat.min_eq_left hle] at this
      rw [← this, Option.some.inj hvalue]
  cases hcons : key with
  | nil => exact absurd (heq.trans hcons) (hkeys entry hentry)
  | cons b more =>
    have hbegins : Begins inserted [b] := ⟨entry, hentry, by rw [heq, hcons]; simp⟩
    rw [hcons, List.cons_append] at hgone hlongest
    rw [List.cons_append, lookup_keyMap hkeys, if_neg ((child_isSome_iff b).mpr hbegins), hlongest,
      Bool.eq_false_iff.mpr (mt (goesBack_keyMap hbegins).mp hgone), Bool.and_false]
    rfl

/-- **A lookup finds the longest key, and knows whether there may be a longer one, unless the input
leaves the keys after some of it where no key ends**; with no more input to come and a shorter key
that matches it does not matter. -/
theorem longest_match_iff (inserted : List (List UInt8 × V)) (input : List UInt8) (maybeMore : Bool)
    (hkeys : ∀ entry ∈ inserted, entry.1 ≠ []) (hinput : input ≠ []) :
    (∃ found, (keyMap inserted).lookup input maybeMore = some found ∧
      LongestMatch inserted input maybeMore found) ↔
      (LeavesTree inserted input → maybeMore = false ∧ Matches inserted input) := by
  cases input with
  | nil => exact absurd rfl hinput
  | cons b key =>
    rw [lookup_keyMap hkeys]
    simp only [Option.some.injEq, exists_eq_left']
    by_cases hbegins : Begins inserted [b]
    · rw [if_neg ((child_isSome_iff b).mpr hbegins)]
      have hback : goesBack (b :: key) (keyMap inserted).root = true ↔ _ := goesBack_keyMap hbegins
      cases hlongest : longest (b :: key) (keyMap inserted).root with
      | none =>
        have hmatches := longest_none hlongest
        have hgone := hback.mp (goesBack_keyMap_of_longest hbegins hlongest)
        show LongestMatch inserted (b :: key) maybeMore .needData ↔ _
        constructor
        · intro h hleaves
          exact absurd hleaves (h.longer (.inr rfl)).not_leavesTree
        · intro h
          exact {
            matched := fun hm => absurd hm hmatches
            unmatched := fun _ => .inr rfl
            longer := fun _ => hgone.resolve_right fun hleaves => hmatches (h hleaves).2
            more := by simp
            waits := fun _ _ => .inr rfl }
      | some found =>
        obtain ⟨hle, hvalue, hmax⟩ := longest_some hlongest
        have hmatches : Matches inserted (b :: key) := by
          obtain ⟨entry, hentry, heq⟩ := lastInserted_isSome.mp (Option.isSome_of_eq_some hvalue)
          exact ⟨entry, hentry, heq ▸ List.take_prefix _ _⟩
        show LongestMatch inserted (b :: key) maybeMore (if _ then .ambiguous found.1 found.2
          else .exact found.1 found.2) ↔ _
        by_cases hgoes : (maybeMore && goesBack (b :: key) (keyMap inserted).root) = true
        · rw [if_pos hgoes]
          rw [Bool.and_eq_true, hback] at hgoes
          constructor
          · intro h hleaves
            exact absurd hleaves (h.longer (.inl ⟨_, _, rfl⟩)).not_leavesTree
          · intro h
            exact {
              matched := fun _ => ⟨_, _, .inr rfl, hle, hvalue, hmax⟩
              unmatched := fun hm => absurd hmatches hm
              longer := fun _ => hgoes.2.resolve_right fun hleaves =>
                Bool.false_ne_true ((h hleaves).1.symm.trans hgoes.1)
              more := fun _ _ _ => hgoes.1
              waits := fun _ _ => .inl ⟨_, _, rfl⟩ }
        · rw [if_neg hgoes]
          rw [Bool.and_eq_true, hback, not_and] at hgoes
          refine iff_of_true ?_ fun hleaves => ?_
          · exact {
              matched := fun _ => ⟨_, _, .inl rfl, hle, hvalue, hmax⟩
              unmatched := fun hm => absurd hmatches hm
              longer := by simp
              more := by simp
              waits := fun hmore hlonger => absurd (.inl hlonger) (hgoes hmore) }
          · exact ⟨Bool.eq_false_iff.mpr fun hmore => hgoes hmore (.inr hleaves), hmatches⟩
    · rw [if_pos (not_not.mp (mt (child_isSome_iff b).mp hbegins))]
      refine iff_of_true ?_ ?_
      · exact {
          matched := fun h => absurd (begins_of_matches hkeys h) hbegins
          unmatched := fun _ => .inl rfl
          longer := by simp
          more := by simp
          waits := fun _ h => absurd (h.begins.of_prefix (by simp)) hbegins }
      · rintro ⟨i, hpos, -, hbytes, -⟩
        cases i with
        | zero => exact absurd hpos (Nat.lt_irrefl 0)
        | succ i => exact absurd (hbytes.of_prefix (by simp)) hbegins

end Tree

/-- Two bytes of a key of three, of which the first is a key too. -/
theorem longest_match_partial :
    ∃ found, (keyMap [([97], 1), ([97, 98, 99], 2)]).lookup [97, 98] true = some found ∧
      LongestMatch [([97], 1), ([97, 98, 99], 2)] [97, 98] true found := by
  refine (longest_match_iff _ _ _ (by simp) (by simp)).mpr ?_
  rintro ⟨i, hpos, hlt, -, hleft, -⟩
  obtain rfl : i = 1 := Nat.le_antisymm (Nat.le_of_lt_succ hlt) hpos
  exact absurd ⟨_, List.mem_cons_of_mem _ (List.mem_singleton_self _), by simp⟩ hleft

/-- No key begins with `abx`, and yet a longer key than `a` is waited for. -/
theorem left_behind_a_key :
    ¬∃ found, (keyMap [([97], 1), ([97, 98, 99], 2)]).lookup [97, 98, 120] true = some found ∧
      LongestMatch [([97], 1), ([97, 98, 99], 2)] [97, 98, 120] true found := by
  rintro ⟨found, hfound, h⟩
  obtain rfl : Found.ambiguous 1 1 = found := Option.some.inj hfound
  obtain ⟨entry, hentry, hpre, -⟩ := h.longer (.inl ⟨1, 1, rfl⟩)
  revert hpre
  simp only [List.mem_cons, List.not_mem_nil, or_false] at hentry
  rcases hentry with rfl | rfl
  · decide
  · decide

end Wakterm.Theorems.Input
