import Wakterm.Term.State

/-!
# A bracketed paste is enclosed

What is sent for a paste has the start marker at its beginning and the end marker at its end.
-/

namespace Wakterm.Theorems.Paste

open Wakterm.Machine Wakterm.Term

/-- The pattern is at this place of the text, and at no other. -/
def OnlyAt (pattern text : List UInt8) (i : Nat) : Prop :=
  ∀ j, pattern <+: text.drop j ↔ j = i

/-- The start marker comes once, in front, and the end marker comes once, behind. -/
def Enclosed (sent : List UInt8) : Prop :=
  OnlyAt pasteStart sent 0 ∧ OnlyAt pasteEnd sent (sent.length - pasteEnd.length)

theorem esc_not_mem_start : esc ∉ pasteStartTail := by decide

theorem esc_not_mem_end : esc ∉ pasteEndTail := by decide

theorem prefix_drop_iff {tail : List UInt8} (htail : esc ∉ tail)
    (hlen : tail.length = pasteStartTail.length) (text : List UInt8) (j : Nat) :
    esc :: tail <+: (pasteStart ++ text ++ pasteEnd).drop j ↔ (j = 0 ∧ tail = pasteStartTail) ∨
      (pasteStart.length ≤ j ∧ esc :: tail <+: text.drop (j - pasteStart.length)) ∨
      (j = pasteStart.length + text.length ∧ tail = pasteEndTail) := by
  have hfront : esc :: tail <+: (pasteStart ++ text).drop j ↔ (j = 0 ∧ tail = pasteStartTail) ∨
      (pasteStart.length ≤ j ∧ esc :: tail <+: text.drop (j - pasteStart.length)) := by
    cases j with
    | zero =>
      show esc :: tail <+: esc :: (pasteStartTail ++ text) ↔ _
      rw [List.cons_prefix_cons]
      constructor
      · rintro ⟨-, hstarts⟩
        have hsame := List.prefix_of_prefix_length_le hstarts (List.prefix_append _ text)
          (Nat.le_of_eq hlen)
        exact .inl ⟨rfl, hsame.eq_of_length hlen⟩
      · rintro (⟨-, rfl⟩ | ⟨hlow, -⟩)
        · exact ⟨rfl, List.prefix_append _ _⟩
        · exact absurd hlow (by decide)
    | succ j =>
      show esc :: tail <+: (pasteStartTail ++ text).drop j ↔ _
      rw [prefix_drop_of_not_mem esc_not_mem_start]
      have hlength : pasteStart.length = pasteStartTail.length + 1 := rfl
      rw [hlength, Nat.add_sub_add_right, Nat.add_le_add_iff_right]
      constructor
      · exact .inr
      · rintro (⟨hzero, -⟩ | hin)
        · cases hzero
        · exact hin
  have hback : ∀ k, esc :: tail <+: (esc :: pasteEndTail).drop k ↔ k = 0 ∧ tail = pasteEndTail := by
    intro k
    cases k with
    | zero =>
      show esc :: tail <+: esc :: pasteEndTail ↔ _
      rw [List.cons_prefix_cons]
      constructor
      · rintro ⟨-, hstarts⟩
        exact ⟨rfl, hstarts.eq_of_length hlen⟩
      · rintro ⟨-, rfl⟩
        exact ⟨rfl, List.prefix_rfl⟩
    | succ k =>
      show esc :: tail <+: pasteEndTail.drop k ↔ _
      rw [← List.append_nil pasteEndTail, prefix_drop_of_not_mem esc_not_mem_end]
      constructor
      · rintro ⟨-, hstarts⟩
        exact absurd hstarts (by simp)
      · rintro ⟨hzero, -⟩
        cases hzero
  show esc :: tail <+: ((pasteStart ++ text) ++ esc :: pasteEndTail).drop j ↔ _
  rw [prefix_drop_append htail, hfront, or_assoc]
  refine or_congr_right (or_congr_right ?_)
  rw [hback, List.length_append]
  constructor
  · rintro ⟨hlow, hzero, rfl⟩
    exact ⟨by omega, rfl⟩
  · rintro ⟨rfl, rfl⟩
    exact ⟨Nat.le_refl _, Nat.sub_self _, rfl⟩

theorem enclosed_iff (text : List UInt8) : Enclosed (pasteStart ++ text ++ pasteEnd) ↔
      ¬ (pasteStart <:+: text ∨ pasteEnd <:+: text) := by
  have hwithin : ∀ tail : List UInt8, esc :: tail <:+: text ↔ ∃ k, esc :: tail <+: text.drop k := by
    intro tail
    constructor
    · rintro ⟨x, y, rfl⟩
      refine ⟨x.length, ?_⟩
      rw [List.append_assoc, List.drop_left]
      exact List.prefix_append _ _
    · rintro ⟨k, hk⟩
      exact hk.isInfix.trans (List.drop_suffix k text).isInfix
  have hlast : (pasteStart ++ text ++ pasteEnd).length - pasteEnd.length =
      pasteStart.length + text.length := by
    rw [List.length_append, List.length_append, Nat.add_sub_cancel]
  have hsix : pasteStart.length = 6 := rfl
  unfold Enclosed OnlyAt
  rw [hlast, not_or]
  refine and_congr ?_ ?_
  · show (∀ j, esc :: pasteStartTail <+: _ ↔ j = 0) ↔ ¬ esc :: pasteStartTail <:+: text
    rw [hwithin]
    constructor
    · rintro h ⟨k, hk⟩
      have hzero := (h (pasteStart.length + k)).mp ((prefix_drop_iff esc_not_mem_start rfl _ _).mpr
        (.inr (.inl ⟨by omega, by rwa [Nat.add_sub_cancel_left]⟩)))
      omega
    · intro h j
      rw [prefix_drop_iff esc_not_mem_start rfl]
      constructor
      · rintro (⟨rfl, -⟩ | ⟨-, hstarts⟩ | ⟨-, hsame⟩)
        · rfl
        · exact absurd ⟨_, hstarts⟩ h
        · exact absurd hsame (by decide)
      · rintro rfl
        exact .inl ⟨rfl, rfl⟩
  · show (∀ j, esc :: pasteEndTail <+: _ ↔ j = _) ↔ ¬ esc :: pasteEndTail <:+: text
    rw [hwithin]
    constructor
    · rintro h ⟨k, hk⟩
      have hend := (h (pasteStart.length + k)).mp ((prefix_drop_iff esc_not_mem_end rfl _ _).mpr
        (.inr (.inl ⟨by omega, by rwa [Nat.add_sub_cancel_left]⟩)))
      have hk' : k = text.length := by omega
      rw [hk', List.drop_length] at hk
      exact absurd hk (by simp)
    · intro h j
      rw [prefix_drop_iff esc_not_mem_end rfl]
      constructor
      · rintro (⟨-, hsame⟩ | ⟨-, hstarts⟩ | ⟨rfl, -⟩)
        · exact absurd hsame (by decide)
        · exact absurd ⟨_, hstarts⟩ h
        · rfl
      · rintro rfl
        exact .inr (.inr ⟨rfl, rfl⟩)

/-- **Pastes.** What is sent for a text has each marker once, in its place, if and only if the text
has no start marker with other markers between its characters, and no end marker with end markers
between its characters. -/
theorem paste_enclosed_iff (newlines : NewlineCanon) (text : List UInt8) :
    Enclosed (pasteBytes true newlines text) ↔ ¬ Nested esc pasteStartTail pasteEndTail text := by
  have hsent : pasteBytes true newlines text =
      pasteStart ++ remove pasteEnd (remove pasteStart text) ++ pasteEnd := rfl
  rw [hsent, enclosed_iff, not_iff_not]
  exact remove_remove_iff esc_not_mem_start esc_not_mem_end rfl (by decide) text

/-- `ESC[20`, an end marker, and `1~`. -/
def spliced : List UInt8 := [0x1b, 0x5b, 0x32, 0x30] ++ pasteEnd ++ [0x31, 0x7e]

/-- The end marker that is removed brings another one together. -/
theorem spliced_not_enclosed : ¬ Enclosed (pasteBytes true .none spliced) := by
  rintro ⟨-, hend⟩
  have hsix := (hend 6).mp (by decide)
  exact absurd hsix (by decide)

end Wakterm.Theorems.Paste
