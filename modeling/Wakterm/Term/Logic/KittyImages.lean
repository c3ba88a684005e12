import Wakterm.Machine.KeyMap
import Wakterm.Machine.Steps
import Wakterm.Term.KittyImages

/-!
# What the store of images knows

The bytes that are counted are those of the images, and a number stands for the image that was
transmitted with it last, until that is deleted.
-/

namespace Wakterm.Term.Kitty

open Machine

/-! ## What a number stands for -/

/-- The id and the image of the last transmission with the number, until its data is deleted. -/
def namedStep (number : ImageId) (known : Option (ImageId × ImageData)) :
    Entry → Option (ImageId × ImageData)
  | .allocated _ _ => known
  | .transmitted (some no) id image => if no = number then some (id, image) else known
  | .transmitted none _ _ => known
  | .deleted ids => known.filter fun x => x.1 ∉ ids

/-- What a number stands for after all that has happened. -/
def named (number : ImageId) (log : List Entry) : Option (ImageId × ImageData) :=
  log.foldl (namedStep number) none

@[simp] theorem named_concat (number : ImageId) (log : List Entry) (x : Entry) :
    named number (log ++ [x]) = namedStep number (named number log) x := by
  simp [named]

def KittyImageState.resolve (s : KittyImageState) (number : ImageId) : Option ImageData :=
  (s.numberToId number).bind s.idToData.get

/-- The store is right: the bytes add up, and each number resolves to what it stands for. -/
structure KittyImageState.Sound (s : KittyImageState) : Prop where
  memory : s.usedMemory = s.idToData.weight ImageData.len
  numbers : ∀ no, s.resolve no = (named no s.log).map (·.2)

/-- The request that a chunk completes, if its data fits together. -/
def request (s : KittyImageState) (chunk : Transmit) (outcome : Outcome) : Option Transmit :=
  if chunk.moreDataFollows ∨ outcome = .notJoined then none
  else
    match s.accumulator with
    | [] => some chunk
    | first :: _ => if (s.accumulateChunk chunk).2 then some first else none

/-- The id that a request without a number is for. -/
def Transmit.target (transmit : Transmit) : ImageId := transmit.imageId.getD 0

/-- A request with a number must have an id left, and succeed. Another that succeeds must not be for
the id zero while that has an image, nor for the id of a number, unless with the image it has. -/
def MeetsTransmit (s : KittyImageState) (transmit : Transmit) (outcome : Outcome) : Prop :=
  if transmit.imageNumber.isSome then
    transmit.imageId.isSome = false →
      s.maxImageId + 1 < 2 ^ 32 ∧ ∃ image, outcome = .stored image
  else
    ∀ image, outcome = .stored image →
      (transmit.target = 0 → (s.idToData.get 0).elim 0 ImageData.len = 0) ∧
      ∀ no, s.numberToId no = some transmit.target → (named no s.log).map (·.2) = some image

/-- The condition on a command. -/
def Meets (s : KittyImageState) : Command → Prop
  | .transmit chunk outcome _ _ => ∀ transmit, request s chunk outcome = some transmit →
      MeetsTransmit s transmit outcome
  | _ => True

/-! ## Pruning -/

namespace KittyImageState

/-- The parts of the store that the images are in. -/
structure Same (s s' : KittyImageState) : Prop where
  maxImageId : s'.maxImageId = s.maxImageId
  numberToId : s'.numberToId = s.numberToId
  idToData : s'.idToData = s.idToData
  usedMemory : s'.usedMemory = s.usedMemory
  log : s'.log = s.log

theorem Same.refl (s : KittyImageState) : Same s s := ⟨rfl, rfl, rfl, rfl, rfl⟩

variable {s u t s' t' : KittyImageState} {order : List (ImageId × ImageData)} {transmit : Transmit}
  {outcome : Outcome} {command : Command}

theorem Same.trans (h : Same s t) (h' : Same t u) : Same s u :=
  ⟨h'.1.trans h.1, h'.2.trans h.2, h'.3.trans h.3, h'.4.trans h.4, h'.5.trans h.5⟩

/-- What holds of the store between commands. -/
structure Consistent (s : KittyImageState) : Prop where
  memory : s.usedMemory = s.idToData.weight ImageData.len
  stored_le : ∀ id data, s.idToData.get id = some data → id ≤ s.maxImageId
  bound_le : ∀ no id, s.numberToId no = some id → 0 < id ∧ id ≤ s.maxImageId
  named : ∀ no id image, Kitty.named no s.log = some (id, image) →
    s.numberToId no = some id ∧ s.idToData.get id = some image
  unnamed : ∀ no, Kitty.named no s.log = none → s.resolve no = none

theorem Consistent.congr (h : Consistent s) (hsame : Same s s') : Consistent s' := by
  obtain ⟨hmax, hnumbers, hdata, hmemory, hlog⟩ := hsame
  refine ⟨?_, ?_, ?_, ?_, ?_⟩
  · rw [hmemory, hdata]
    exact h.memory
  · rw [hdata, hmax]
    exact h.stored_le
  · rw [hnumbers, hmax]
    exact h.bound_le
  · rw [hlog, hnumbers, hdata]
    exact h.named
  · unfold resolve
    rw [hlog, hnumbers, hdata]
    exact h.unnamed

theorem Consistent.sound (h : Consistent s) : s.Sound := by
  refine ⟨h.memory, fun no => ?_⟩
  cases hnamed : Kitty.named no s.log with
  | none => exact h.unnamed no hnamed
  | some x =>
    obtain ⟨id, image⟩ := x
    obtain ⟨hid, hdata⟩ := h.named no id image hnamed
    unfold resolve
    rw [hid]
    exact hdata

/-- Nothing has happened to the images; ids may have been used up. -/
structure Kept (s s' : KittyImageState) : Prop where
  maxImageId : s.maxImageId ≤ s'.maxImageId
  numberToId : s'.numberToId = s.numberToId
  idToData : s'.idToData = s.idToData
  usedMemory : s'.usedMemory = s.usedMemory
  log : s'.log = s.log

theorem Same.kept (h : Same s s') : Kept s s' :=
  ⟨h.maxImageId.ge, h.numberToId, h.idToData, h.usedMemory, h.log⟩

theorem Kept.trans (h : Kept s t) (h' : Kept t u) : Kept s u :=
  ⟨h.1.trans h'.1, h'.2.trans h.2, h'.3.trans h.3, h'.4.trans h.4, h'.5.trans h.5⟩

theorem Consistent.kept (h : Consistent s) (hkept : Kept s s') : Consistent s' := by
  obtain ⟨hmax, hnumbers, hdata, hmemory, hlog⟩ := hkept
  refine ⟨?_, fun id data hget => ?_, fun no id hno => ?_, ?_, ?_⟩
  · rw [hmemory, hdata]
    exact h.memory
  · rw [hdata] at hget
    exact (h.stored_le id data hget).trans hmax
  · rw [hnumbers] at hno
    obtain ⟨hpos, hle⟩ := h.bound_le no id hno
    exact ⟨hpos, hle.trans hmax⟩
  · rw [hlog, hnumbers, hdata]
    exact h.named
  · unfold resolve
    rw [hlog, hnumbers, hdata]
    exact h.unnamed

/-- An image has been recorded under an id, which a number may be bound to; other ids were pruned. -/
structure Recorded (s : KittyImageState) (number : Option ImageId) (id : ImageId)
    (image : ImageData) (ids : List ImageId) (s' : KittyImageState) : Prop where
  memory : s'.usedMemory = s'.idToData.weight ImageData.len
  maxImageId : s'.maxImageId = max s.maxImageId id
  numberToId : ∀ no, s'.numberToId no = if number = some no then some id else s.numberToId no
  get : ∀ key, s'.idToData.get key =
    if key = id then some image else if key ∈ ids then none else s.idToData.get key
  named : ∀ no, Kitty.named no s'.log =
    if number = some no then some (id, image)
    else (Kitty.named no s.log).filter fun x => x.1 ∉ ids
  pruned : id ≠ 0 → id ∉ ids
  pos : number.isSome → 0 < id
  clash : ∀ no, number ≠ some no → s.numberToId no = some id →
    (Kitty.named no s.log).map (·.2) = some image

section Recorded

variable {s s' : KittyImageState} {number : Option ImageId} {id : ImageId} {image : ImageData}
  {ids : List ImageId}

theorem Recorded.named_of_bound (h : Consistent s) (hrec : Recorded s number id image ids s')
    {no : ImageId} (hno : number ≠ some no) (hbound : s.numberToId no = some id) :
    Kitty.named no s'.log = some (id, image) := by
  have hnamed := hrec.named no
  have hclash := hrec.clash no hno hbound
  rw [if_neg hno] at hnamed
  obtain ⟨x, hx, himage⟩ := Option.map_eq_some_iff.mp hclash
  obtain ⟨hid, -⟩ := h.named no x.1 x.2 hx
  have heq : x = (id, image) := Prod.ext (Option.some.inj (hid.symm.trans hbound)) himage
  have hkept : id ∉ ids := hrec.pruned (h.bound_le no id hbound).1.ne'
  rw [hnamed, hx, heq]
  exact Option.filter_some_pos (by simpa using hkept)

theorem Recorded.named_of_ne (hrec : Recorded s number id image ids s') {no other : ImageId}
    (hno : number ≠ some no) {data : ImageData} (hnamed : Kitty.named no s'.log = some (other, data)) :
    Kitty.named no s.log = some (other, data) ∧ other ∉ ids := by
  have hafter := hrec.named no
  rw [if_neg hno, hnamed] at hafter
  obtain ⟨hbefore, hids⟩ := Option.filter_eq_some_iff.mp hafter.symm
  exact ⟨hbefore, by simpa using hids⟩

theorem Consistent.recorded (h : Consistent s) (hrec : Recorded s number id image ids s') :
    Consistent s' := by
  refine ⟨hrec.memory, fun key data hkey => ?_, fun no key hno => ?_,
    fun no key data hnamed => ?_, fun no hnamed => ?_⟩
  · rw [hrec.maxImageId]
    rw [hrec.get] at hkey
    split at hkey
    · next heq => exact heq ▸ Nat.le_max_right s.maxImageId id
    · split at hkey
      · exact absurd hkey (by simp)
      · exact (h.stored_le key data hkey).trans (Nat.le_max_left s.maxImageId id)
  · rw [hrec.maxImageId]
    rw [hrec.numberToId] at hno
    split at hno
    · next heq =>
      cases hno
      exact ⟨hrec.pos (by simp [heq]), Nat.le_max_right s.maxImageId id⟩
    · obtain ⟨hpos, hle⟩ := h.bound_le no key hno
      exact ⟨hpos, hle.trans (Nat.le_max_left s.maxImageId id)⟩
  · rw [hrec.numberToId, hrec.get]
    by_cases hno : number = some no
    · have hafter := hrec.named no
      rw [if_pos hno, hnamed] at hafter
      cases hafter
      rw [if_pos hno, if_pos rfl]
      exact ⟨rfl, rfl⟩
    · obtain ⟨hbefore, hids⟩ := hrec.named_of_ne hno hnamed
      obtain ⟨hbound, hdata⟩ := h.named no key data hbefore
      rw [if_neg hno]
      refine ⟨hbound, ?_⟩
      by_cases hkey : key = id
      · -- the new image is the one the number stands for
        have hsame := hrec.named_of_bound h hno (hkey ▸ hbound)
        rw [hnamed] at hsame
        rw [if_pos hkey, (Prod.mk.inj (Option.some.inj hsame)).2]
      · rw [if_neg hkey, if_neg hids]
        exact hdata
  · have hno : number ≠ some no := by
      intro hno
      have hafter := hrec.named no
      rw [if_pos hno, hnamed] at hafter
      exact absurd hafter (by simp)
    unfold resolve
    rw [hrec.numberToId, if_neg hno]
    cases hbound : s.numberToId no with
    | none => rfl
    | some key =>
      show s'.idToData.get key = none
      have hkey : key ≠ id := by
        intro hkey
        have hsame := hrec.named_of_bound h hno (hkey ▸ hbound)
        exact absurd (hnamed.symm.trans hsame) (by simp)
      rw [hrec.get, if_neg hkey]
      split
      · rfl
      · next hids =>
        cases hbefore : Kitty.named no s.log with
        | none =>
          have hnone := h.unnamed no hbefore
          unfold resolve at hnone
          rw [hbound] at hnone
          exact hnone
        | some x =>
          -- what it stood for was pruned, and it stood for the image of this id
          obtain ⟨hid, -⟩ := h.named no x.1 x.2 hbefore
          have hx : x.1 = key := Option.some.inj (hid.symm.trans hbound)
          have hafter := hrec.named no
          rw [if_neg hno, hbefore, hnamed, Option.filter_some_pos (by simpa [hx] using hids)]
            at hafter
          exact absurd hafter (by simp)

end Recorded

/-- What a step may do to the images: nothing, or to record one, under an id that is the next one if
it was allocated. -/
def Transmitted (s s' : KittyImageState) : Prop :=
  ∃ number id image ids more, Recorded s number id image ids s' ∧ s'.log = s.log ++ more ∧
    .transmitted number id image ∈ more ∧
    ∀ no key, .allocated no key ∈ more → key = s.maxImageId + 1 ∧ key < 2 ^ 32

theorem Transmitted.congr (h : Transmitted s t) (hsame : Same t t') : Transmitted s t' := by
  obtain ⟨number, id, image, ids, more, hrec, hlog, hmem, halloc⟩ := h
  refine ⟨number, id, image, ids, more, ?_, hsame.log.trans hlog, hmem, halloc⟩
  refine ⟨?_, hsame.maxImageId.trans hrec.maxImageId, fun no => ?_, fun key => ?_, fun no => ?_,
    hrec.pruned, hrec.pos, hrec.clash⟩
  · rw [hsame.usedMemory, hsame.idToData]
    exact hrec.memory
  · rw [hsame.numberToId]
    exact hrec.numberToId no
  · rw [hsame.idToData]
    exact hrec.get key
  · rw [hsame.log]
    exact hrec.named no

theorem Consistent.deleted (h : Consistent s) {ids : List ImageId}
    (hlog : s'.log = s.log ++ [.deleted ids])
    (hmemory : s'.usedMemory = s'.idToData.weight ImageData.len)
    (hmax : s'.maxImageId = s.maxImageId)
    (hget : ∀ key, s'.idToData.get key = if key ∈ ids then none else s.idToData.get key)
    (hnumbers : ∀ no id, s'.numberToId no = some id → s.numberToId no = some id)
    (hkept : ∀ no id, s.numberToId no = some id → id ∉ ids → s.idToData.get id ≠ none →
      s'.numberToId no = some id) : Consistent s' := by
  refine ⟨hmemory, fun key data hkey => ?_, fun no key hno => ?_, fun no key data hnamed => ?_,
    fun no hnamed => ?_⟩
  · rw [hget] at hkey
    split at hkey
    · exact absurd hkey (by simp)
    · exact hmax ▸ h.stored_le key data hkey
  · exact hmax ▸ h.bound_le no key (hnumbers no key hno)
  · rw [hlog, named_concat] at hnamed
    obtain ⟨hbefore, hids⟩ := Option.filter_eq_some_iff.mp hnamed
    have hid : key ∉ ids := by simpa using hids
    obtain ⟨hbound, hdata⟩ := h.named no key data hbefore
    refine ⟨hkept no key hbound hid (by simp [hdata]), ?_⟩
    rw [hget, if_neg hid]
    exact hdata
  · rw [hlog, named_concat] at hnamed
    unfold resolve
    cases hbound : s'.numberToId no with
    | none => rfl
    | some key =>
      show s'.idToData.get key = none
      rw [hget]
      split
      · rfl
      · next hid =>
        have hold := hnumbers no key hbound
        cases hbefore : Kitty.named no s.log with
        | none =>
          have hnone := h.unnamed no hbefore
          unfold resolve at hnone
          rw [hold] at hnone
          exact hnone
        | some x =>
          obtain ⟨hx, -⟩ := h.named no x.1 x.2 hbefore
          have hkey : x.1 = key := Option.some.inj (hx.symm.trans hold)
          rw [hbefore] at hnamed
          have hstays := Option.filter_some_pos (a := x) (p := fun x => decide (x.1 ∉ ids))
            (by simpa [hkey] using hid)
          exact absurd (hnamed.symm.trans hstays) (by simp)

end KittyImageState

end Wakterm.Term.Kitty
