import Mathlib.Data.List.Lex
import Mathlib.Data.List.Perm.Basic
import Mathlib.Order.Basic
import Mathlib.Order.Lattice

/-!
# Maps that are kept in the order of their keys

A `BTreeMap` as the list of its entries, from the lowest key to the highest: what a loop over the
map visits.
-/

namespace Wakterm.Machine

variable {κ ν : Type} [LinearOrder κ]

/-- Enter a value at its place, in the stead of what was there. -/
@[grind =] def insertSorted (key : κ) (value : ν) : List (κ × ν) → List (κ × ν)
  | [] => [(key, value)]
  | entry :: entries =>
    if key < entry.1 then (key, value) :: entry :: entries
    else if key = entry.1 then (key, value) :: entries
    else entry :: insertSorted key value entries

variable {entries : List (κ × ν)}

theorem mem_insertSorted {key : κ} {value : ν} {entry : κ × ν}
    (h : entry ∈ insertSorted key value entries) : entry = (key, value) ∨ entry ∈ entries := by
  induction entries with
  | nil => exact Or.inl (List.mem_singleton.mp h)
  | cons first entries ih =>
    rw [insertSorted] at h
    split at h
    · exact List.mem_cons.mp h
    · split at h
      · exact (List.mem_cons.mp h).imp_right (List.mem_cons_of_mem first)
      · rcases List.mem_cons.mp h with rfl | h
        · exact Or.inr List.mem_cons_self
        · exact (ih h).imp_right (List.mem_cons_of_mem first)

theorem pairwise_insertSorted (key : κ) (value : ν) (h : entries.Pairwise (·.1 < ·.1)) :
    (insertSorted key value entries).Pairwise (·.1 < ·.1) := by
  induction entries with
  | nil => exact List.pairwise_singleton _ _
  | cons first entries ih =>
    obtain ⟨hfirst, hrest⟩ := List.pairwise_cons.mp h
    rw [insertSorted]
    split
    · next hlt =>
      refine List.pairwise_cons.mpr ⟨fun entry hentry => ?_, h⟩
      rcases List.mem_cons.mp hentry with rfl | hentry
      · exact hlt
      · exact lt_trans hlt (hfirst entry hentry)
    · next hge =>
      split
      · next heq =>
        subst heq
        exact List.pairwise_cons.mpr ⟨hfirst, hrest⟩
      · next hne =>
        refine List.pairwise_cons.mpr ⟨fun entry hentry => ?_, ih hrest⟩
        rcases mem_insertSorted hentry with rfl | hentry
        · exact lt_of_le_of_ne (not_lt.mp hge) (Ne.symm hne)
        · exact hfirst entry hentry

theorem lookup_cons_entry (key : κ) (first : κ × ν) (entries : List (κ × ν)) :
    (first :: entries).lookup key = if key = first.1 then some first.2 else entries.lookup key := by
  rw [List.lookup_cons]
  by_cases h : key = first.1
  · rw [if_pos h, beq_iff_eq.mpr h]
  · rw [if_neg h, beq_eq_false_iff_ne.mpr h]

theorem lookup_insertSorted (key key' : κ) (value : ν) (entries : List (κ × ν)) :
    (insertSorted key value entries).lookup key' =
      if key' = key then some value else entries.lookup key' := by
  induction entries with
  | nil => exact lookup_cons_entry key' (key, value) []
  | cons first entries ih =>
    rw [insertSorted]
    split
    · exact lookup_cons_entry key' (key, value) _
    · split
      · next heq =>
        rw [lookup_cons_entry, lookup_cons_entry, ← heq]
        split
        · rfl
        · rfl
      · next hne =>
        rw [lookup_cons_entry, lookup_cons_entry, ih]
        by_cases h : key' = key
        · rw [h, if_neg hne, if_pos rfl, if_pos rfl]
        · rw [if_neg h, if_neg h]

theorem insertSorted_last {key : κ} {value : ν} (h : ∀ entry ∈ entries, entry.1 < key) :
    insertSorted key value entries = entries ++ [(key, value)] := by
  induction entries with
  | nil => rfl
  | cons first entries ih =>
    have hfirst := h first List.mem_cons_self
    rw [insertSorted, if_neg (not_lt_of_gt hfirst), if_neg (ne_of_gt hfirst),
      ih fun entry hentry => h entry (List.mem_cons_of_mem first hentry)]
    rfl

/-- A map, as its entries in the order of their keys. -/
@[ext]
structure KeyMap (κ ν : Type) [LinearOrder κ] where
  entries : List (κ × ν)
  sorted : entries.Pairwise (·.1 < ·.1)

namespace KeyMap

instance [DecidableEq ν] : DecidableEq (KeyMap κ ν) := fun m m' =>
  decidable_of_iff (m.entries = m'.entries) KeyMap.ext_iff.symm

def empty : KeyMap κ ν := ⟨[], List.Pairwise.nil⟩

def insert (m : KeyMap κ ν) (key : κ) (value : ν) : KeyMap κ ν :=
  ⟨insertSorted key value m.entries, pairwise_insertSorted key value m.sorted⟩

def get (m : KeyMap κ ν) (key : κ) : Option ν := m.entries.lookup key

/-- The map without one of its keys. -/
def erase (m : KeyMap κ ν) (key : κ) : KeyMap κ ν :=
  ⟨m.entries.filter (·.1 ≠ key), m.sorted.filter _⟩

@[simp] theorem get_empty (key : κ) : (empty : KeyMap κ ν).get key = none := rfl

@[simp] theorem get_insert (m : KeyMap κ ν) (key key' : κ) (value : ν) :
    (m.insert key value).get key' = if key' = key then some value else m.get key' :=
  lookup_insertSorted key key' value m.entries

theorem get_erase_of_ne (m : KeyMap κ ν) {key key' : κ} (h : key' ≠ key) :
    (m.erase key).get key' = m.get key' := by
  show (m.entries.filter (·.1 ≠ key)).lookup key' = m.entries.lookup key'
  induction m.entries with
  | nil => rfl
  | cons first entries ih =>
    rw [List.filter_cons, lookup_cons_entry]
    by_cases hfirst : first.1 = key
    · rw [if_neg (by simpa using hfirst), ih, hfirst, if_neg h]
    · rw [if_pos (by simpa using hfirst), lookup_cons_entry, ih]

@[simp] theorem get_erase_self (m : KeyMap κ ν) (key : κ) : (m.erase key).get key = none := by
  show (m.entries.filter (·.1 ≠ key)).lookup key = none
  rw [List.lookup_eq_none_iff]
  intro entry hentry
  have hne : entry.1 ≠ key := by simpa using (List.mem_filter.mp hentry).2
  exact bne_iff_ne.mpr hne.symm

theorem get_foldl_erase (keys : List κ) (m : KeyMap κ ν) (key : κ) :
    (keys.foldl erase m).get key = if key ∈ keys then none else m.get key := by
  induction keys generalizing m with
  | nil => simp
  | cons first keys ih =>
    rw [List.foldl_cons, ih]
    by_cases h : key = first
    · rw [h, get_erase_self, ite_self, if_pos List.mem_cons_self]
    · rw [get_erase_of_ne m h]
      simp only [List.mem_cons, h, false_or]

theorem entries_eq_nil_iff (m : KeyMap κ ν) : m.entries = [] ↔ ∀ key, m.get key = none := by
  constructor
  · intro h key
    unfold get
    rw [h]
    rfl
  · intro h
    cases hentries : m.entries with
    | nil => rfl
    | cons first entries =>
      have hfirst := h first.1
      unfold get at hfirst
      rw [hentries, lookup_cons_entry, if_pos rfl] at hfirst
      cases hfirst

/-- The map of a list of entries. -/
def ofEntries (entries : List (κ × ν)) : KeyMap κ ν :=
  entries.foldl (fun m entry => m.insert entry.1 entry.2) empty

/-- **Entering what a loop over the map visits gives the map again.** -/
theorem ofEntries_entries (m : KeyMap κ ν) : ofEntries m.entries = m := by
  -- Along the way, the map has the entries so far, all of them below those to come.
  have hrun : ∀ (entries : List (κ × ν)) (done : KeyMap κ ν),
      (done.entries ++ entries).Pairwise (·.1 < ·.1) →
      (entries.foldl (fun m entry => m.insert entry.1 entry.2) done).entries =
        done.entries ++ entries := by
    intro entries
    induction entries with
    | nil =>
      intro done _
      exact (List.append_nil _).symm
    | cons first entries ih =>
      intro done hsorted
      have hlast : (done.insert first.1 first.2).entries = done.entries ++ [first] :=
        insertSorted_last fun entry hentry =>
          (List.pairwise_append.mp hsorted).2.2 entry hentry first List.mem_cons_self
      rw [List.foldl_cons, ih _ (by rw [hlast, List.append_assoc]; exact hsorted), hlast,
        List.append_assoc]
      rfl
  exact KeyMap.ext (hrun m.entries empty m.sorted)

end KeyMap

end Wakterm.Machine

/-!
## The weight of a map

A count that is kept beside a map: the sum of the weights of its values.
-/

namespace Wakterm.Machine

variable {κ ν : Type}

def weightOf (w : ν → Nat) : List (κ × ν) → Nat
  | [] => 0
  | entry :: entries => w entry.2 + weightOf w entries

section Entries

variable {w : ν → Nat} {entries : List (κ × ν)}

@[simp] theorem weightOf_nil : weightOf w ([] : List (κ × ν)) = 0 := rfl

end Entries

section Sorted

variable [LinearOrder κ] {w : ν → Nat} {key : κ} {value : ν} {entries : List (κ × ν)}

end Sorted

namespace KeyMap

variable [LinearOrder κ]

/-- The weight of the values of a map. -/
def weight (w : ν → Nat) (m : KeyMap κ ν) : Nat := weightOf w m.entries

variable {w : ν → Nat} (m : KeyMap κ ν) (key : κ)

theorem nodup_keys : (m.entries.map (·.1)).Nodup := by
  have hsorted : (m.entries.map (·.1)).Pairwise (· < ·) := List.pairwise_map.mpr m.sorted
  exact hsorted.imp ne_of_lt

theorem get_ne_none {m : KeyMap κ ν} {key : κ} (h : key ∈ m.entries.map (·.1)) :
    m.get key ≠ none := by
  obtain ⟨entry, hentry, rfl⟩ := List.mem_map.mp h
  intro hnone
  exact bne_iff_ne.mp (List.lookup_eq_none_iff.mp hnone entry hentry) rfl

theorem mem_entries_iff {m : KeyMap κ ν} {key : κ} {value : ν} :
    (key, value) ∈ m.entries ↔ m.get key = some value := by
  unfold get
  have hnodup := m.nodup_keys
  generalize m.entries = entries at hnodup ⊢
  induction entries with
  | nil => simp
  | cons first entries ih =>
    obtain ⟨hfirst, hrest⟩ := List.nodup_cons.mp hnodup
    have hto := (ih hrest).mp
    have hback := (ih hrest).mpr
    rw [List.mem_cons, lookup_cons_entry]
    split
    · next heq =>
      constructor
      · rintro (rfl | hmem)
        · rfl
        · exact absurd (List.mem_map.mpr ⟨(key, value), hmem, heq⟩) hfirst
      · intro hvalue
        left
        rw [heq, ← Option.some.inj hvalue]
    · next hne =>
      constructor
      · rintro (heq | hmem)
        · exact absurd (congrArg (·.1) heq) hne
        · exact hto hmem
      · exact fun hvalue => .inr (hback hvalue)

theorem mem_keys {m : KeyMap κ ν} {key : κ} (h : m.get key ≠ none) : key ∈ m.entries.map (·.1) := by
  by_contra hnot
  refine h (List.lookup_eq_none_iff.mpr fun entry hentry => bne_iff_ne.mpr fun heq => ?_)
  exact hnot (List.mem_map.mpr ⟨entry, hentry, heq.symm⟩)

end KeyMap

end Wakterm.Machine
