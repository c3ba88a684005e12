import Wakterm.Client.Renderable
import Wakterm.Rangeset.Logic.Algebra

/-!
# What each step makes of the entries

For every call of the client: which entries there can be afterwards, and where they come from. All
that is proved about runs follows from these.
-/

namespace Wakterm.Client

open Wakterm.Machine Wakterm.Rangeset

variable {Line : Type} {ops : LineOps Line}

/-- When the fetch was started that an entry waits for. -/
def LineEntry.since : LineEntry Line → Option Nat
  | .fetching since => some since
  | .lineAndFetching _ since => some since
  | .line _ => none
  | .stale _ => none

def RenderableInner.entry (inner : RenderableInner Line) (row : Int) : Option (LineEntry Line) :=
  inner.lines.peek row

namespace RenderableInner

/-! ## Sets of rows -/

variable {row row' : Int} {inner inner' : RenderableInner Line}
  {state state' : RenderableInner Line × RangeSet Int × List Line} {entry : LineEntry Line}
  {rows : List Int} {now start : Nat} {request : Option (RangeSet Int)} {lag : Option (Line → Line)}

theorem add_spec {set set' : RangeSet Int} (hset : set.Proper) (h : set.add row = some set') :
    set'.Proper ∧ ∀ x, Covers set'.ranges x ↔ Covers set.ranges x ∨ x = row := by
  have hproper : (RangeSet.single row).Proper := by
    show row ≤ row + 1
    omega
  obtain ⟨set₁, hadd, hadded⟩ := RangeSet.addRange_added hset hproper
  obtain rfl : set₁ = set' := Option.some.inj (hadd.symm.trans h)
  refine ⟨hadded.proper, ?_⟩
  intro x
  rw [hadded.covers, Range.contains_iff]
  have hsingle : row ≤ x ∧ x < row + 1 ↔ x = row := by omega
  exact or_congr_right hsingle

theorem dirtyRows_covers {delta : Delta} {dirty : RangeSet Int}
    (h : inner.dirtyRows delta = some dirty) (hrow : Covers delta.dirtyLines row) :
    Covers dirty.ranges row := by
  unfold dirtyRows at h
  obtain ⟨listed, hlisted, h⟩ := Option.bind_eq_some_iff.mp h
  obtain ⟨set', hrun, hkeeps⟩ := RangeSet.foldlM_addRange_keeps delta.dirtyLines .new
  obtain rfl := Option.some.inj (hrun.symm.trans hlisted)
  have hin := hkeeps row (.inr hrow)
  split at h
  · obtain ⟨dirty₁, h1, h2⟩ := Option.bind_eq_some_iff.mp h
    obtain ⟨set₁, hadd₁, hkeeps₁⟩ := RangeSet.addRange_keeps set'
      (RangeSet.single inner.cursorPosition.y)
    obtain rfl := Option.some.inj (hadd₁.symm.trans h1)
    obtain ⟨set₂, hadd₂, hkeeps₂⟩ := RangeSet.addRange_keeps set₁
      (RangeSet.single delta.cursorPosition.y)
    obtain rfl := Option.some.inj (hadd₂.symm.trans h2)
    exact hkeeps₂ row (.inl (hkeeps₁ row (.inl hin)))
  · cases h
    exact hin

/-! ## Changes from the server -/

/-- The rows that are dirty by a delta, but for those that it has lines for. -/
def leftDirty (inner : RenderableInner Line) (delta : Delta) (bonus : List (Int × Line)) :
    Option (RangeSet Int) := do
  let dirty ← inner.dirtyRows delta
  bonus.foldlM (fun dirty e => dirty.remove e.1) dirty

theorem bonusLines_entry {bonus : List (Int × Line)}
    {state state' : RenderableInner Line × RangeSet Int}
    (h : bonus.foldlM (bonusLine ops) state = some state') :
    (∀ row entry, state'.1.entry row = some entry →
      (∃ line, (row, line) ∈ bonus ∧ entry = .line (ops.scanAndCreateHyperlinks line)) ∨
      (row ∉ bonus.map Prod.fst ∧ state.1.entry row = some entry)) ∧
    (∀ row, Covers state.2.ranges row → row ∉ bonus.map Prod.fst → Covers state'.2.ranges row) ∧
    bonus.foldlM (fun dirty e => dirty.remove e.1) state.2 = some state'.2 ∧
    state'.1.dead = state.1.dead := by
  induction bonus generalizing state with
  | nil =>
    cases h
    refine ⟨?_, fun row hrow _ => hrow, rfl, rfl⟩
    intro row entry hentry
    exact .inr ⟨List.not_mem_nil, hentry⟩
  | cons first bonus ih =>
    rw [List.foldlM_cons] at h
    obtain ⟨state₁, h1, h2⟩ := Option.bind_eq_some_iff.mp h
    obtain ⟨dirty, hdirty, h1⟩ := Option.bind_eq_some_iff.mp h1
    cases h1
    obtain ⟨hentries, hcovers, hleft, hdead⟩ := ih h2
    refine ⟨?_, ?_, ?_, hdead⟩
    · intro row entry hentry
      rcases hentries row entry hentry with ⟨line, hin, rfl⟩ | ⟨hnot, hprior⟩
      · exact .inl ⟨line, List.mem_cons_of_mem _ hin, rfl⟩
      · rcases Lru.peek_put_cases hprior with ⟨rfl, rfl⟩ | ⟨hne, hprior⟩
        · exact .inl ⟨first.2, List.mem_cons_self, rfl⟩
        · refine .inr ⟨?_, hprior⟩
          rw [List.map_cons, List.mem_cons, not_or]
          exact ⟨hne, hnot⟩
    · intro row hrow hnot
      rw [List.map_cons, List.mem_cons, not_or] at hnot
      refine hcovers row ?_ hnot.2
      obtain ⟨set', hremove, hkeeps⟩ := RangeSet.removeRange_keeps state.2
        (RangeSet.single first.1)
      cases hremove.symm.trans hdirty
      refine hkeeps row hrow ?_
      rw [Range.contains_iff]
      show ¬ (first.1 ≤ row ∧ row < first.1 + 1)
      have hne := hnot.1
      omega
    · rw [List.foldlM_cons, hdirty]
      exact hleft

theorem entry_erase {inner : RenderableInner Line} {row row' : Int} {entry : LineEntry Line}
    (h : (inner.lines.erase row).peek row' = some entry) :
    inner.entry row' = some entry ∧ row' ≠ row := by
  by_cases hne : row' = row
  · subst hne
    rw [Lru.peek_erase_self] at h
    cases h
  · rw [Lru.peek_erase_of_ne _ hne] at h
    exact ⟨h, hne⟩

theorem entry_makeStale (h : (inner.makeStale row).entry row' = some entry) :
    (row' = row ∧ ∃ line, entry = .stale line) ∨ (row' ≠ row ∧ inner.entry row' = some entry) := by
  have hput : ∀ old, ((inner.lines.erase row).put row (.stale old)).peek row' = some entry →
      (row' = row ∧ ∃ line, entry = .stale line) ∨
      (row' ≠ row ∧ inner.entry row' = some entry) := by
    intro old h
    rcases Lru.peek_put_cases h with ⟨rfl, rfl⟩ | ⟨hne, h⟩
    · exact .inl ⟨rfl, old, rfl⟩
    · rw [Lru.peek_erase_of_ne _ hne] at h
      exact .inr ⟨hne, h⟩
  unfold makeStale RenderableInner.entry at h
  dsimp only at h
  split at h
  · exact hput _ h
  · exact hput _ h
  · exact hput _ h
  · exact .inr (entry_erase h).symm
  · exact .inr (entry_erase h).symm

theorem dead_makeStale (inner : RenderableInner Line) (row : Int) :
    (inner.makeStale row).dead = inner.dead := by
  unfold makeStale
  dsimp only
  split <;> rfl

theorem entry_makeStale_all (h : (rows.foldl makeStale inner).entry row = some entry) :
    (row ∈ rows ∧ ∃ line, entry = .stale line) ∨ (row ∉ rows ∧ inner.entry row = some entry) := by
  induction rows generalizing inner with
  | nil => exact .inr ⟨List.not_mem_nil, h⟩
  | cons first rows ih =>
    rw [List.foldl_cons] at h
    rcases ih h with ⟨hin, hstale⟩ | ⟨hnot, hprior⟩
    · exact .inl ⟨List.mem_cons_of_mem _ hin, hstale⟩
    · rcases entry_makeStale hprior with ⟨rfl, hstale⟩ | ⟨hne, hprior⟩
      · exact .inl ⟨List.mem_cons_self, hstale⟩
      · refine .inr ⟨?_, hprior⟩
        rw [List.mem_cons, not_or]
        exact ⟨hne, hnot⟩

theorem since_refetch (now : Nat) (prior : Option (LineEntry Line)) :
    (refetch now prior).since = some now := by
  unfold refetch
  split <;> rfl

theorem dirtyRows_entry {physicalTop : Int} {state state' : RenderableInner Line × RangeSet Int}
    (h : rows.foldlM (dirtyRow now physicalTop) state = some state') (hset : state.2.Proper) :
    (∀ row entry, state'.1.entry row = some entry →
      (row ∈ rows ∧ physicalTop ≤ row ∧ entry.since = some now ∧ Covers state'.2.ranges row) ∨
      (row ∉ rows ∧ state.1.entry row = some entry)) ∧
    (∀ row, Covers state.2.ranges row → Covers state'.2.ranges row) ∧
    state'.1.dead = state.1.dead := by
  induction rows generalizing state with
  | nil =>
    cases h
    refine ⟨?_, fun _ hrow => hrow, rfl⟩
    intro row entry hentry
    exact .inr ⟨List.not_mem_nil, hentry⟩
  | cons first rows ih =>
    rw [List.foldlM_cons] at h
    obtain ⟨state₁, h1, h2⟩ := Option.bind_eq_some_iff.mp h
    unfold dirtyRow at h1
    dsimp only at h1
    split at h1
    · -- above the viewport: it is dropped
      cases h1
      obtain ⟨hentries, hcovers, hdead⟩ := ih h2 hset
      refine ⟨?_, hcovers, hdead.trans (dead_makeStale _ _)⟩
      intro row entry hentry
      rcases hentries row entry hentry with ⟨hin, hnew⟩ | ⟨hnot, hprior⟩
      · exact .inl ⟨List.mem_cons_of_mem _ hin, hnew⟩
      · have hgone : makeStale { state.1 with lines := state.1.lines.erase first } first =
            { state.1 with lines := (state.1.lines.erase first).erase first } := by
          unfold makeStale
          dsimp only
          rw [Lru.peek_erase_self]
        rw [hgone] at hprior
        obtain ⟨hprior, hne⟩ := @entry_erase _ { state.1 with lines := state.1.lines.erase first }
          _ _ _ hprior
        obtain ⟨hprior, -⟩ := @entry_erase _ state.1 _ _ _ hprior
        refine .inr ⟨?_, hprior⟩
        rw [List.mem_cons, not_or]
        exact ⟨hne, hnot⟩
    · next hbelow =>
      obtain ⟨toFetch, hadd, h1⟩ := Option.bind_eq_some_iff.mp h1
      cases h1
      obtain ⟨hproper, hadded⟩ := add_spec hset hadd
      obtain ⟨hentries, hcovers, hdead⟩ := ih h2 hproper
      refine ⟨?_, fun row hrow => hcovers row ((hadded row).mpr (.inl hrow)), hdead⟩
      intro row entry hentry
      rcases hentries row entry hentry with ⟨hin, hnew⟩ | ⟨hnot, hprior⟩
      · exact .inl ⟨List.mem_cons_of_mem _ hin, hnew⟩
      · rcases Lru.peek_put_cases hprior with ⟨rfl, rfl⟩ | ⟨hne, hprior⟩
        · exact .inl ⟨List.mem_cons_self, Int.not_lt.mp hbelow, since_refetch _ _,
            hcovers row ((hadded row).mpr (.inr rfl))⟩
        · rw [Lru.peek_erase_of_ne _ hne] at hprior
          refine .inr ⟨?_, hprior⟩
          rw [List.mem_cons, not_or]
          exact ⟨hne, hnot⟩

/-- **A delta.** A row has a bonus line of the delta, or is marked by it and asked for unless the
pane is dead, or is stale, or has the entry it had and is not reported. -/
theorem applyChanges_entry {delta : Delta} {bonus : List (Int × Line)} {admitted : Bool}
    (h : inner.applyChangesToSurface ops now delta bonus admitted = some (inner', request))
    (hentry : inner'.entry row = some entry) :
    (∃ line, (row, line) ∈ bonus ∧ entry = .line (ops.scanAndCreateHyperlinks line)) ∨
    (entry.since = some now ∧ admitted = true ∧
      (∃ dirty, inner.leftDirty delta bonus = some dirty ∧ Covers dirty.ranges row) ∧
      delta.dimensions.physicalTop ≤ row ∧
      (inner.dead = false → ∃ rows, request = some rows ∧ Covers rows.ranges row)) ∨
    (∃ line, entry = .stale line) ∨
    (inner.entry row = some entry ∧ ¬ Covers delta.dirtyLines row ∧ row ∉ bonus.map Prod.fst) := by
  unfold applyChangesToSurface at h
  obtain ⟨dirty, hdirty, h⟩ := Option.bind_eq_some_iff.mp h
  obtain ⟨⟨inner₁, dirty₁⟩, hbonus, h⟩ := Option.bind_eq_some_iff.mp h
  obtain ⟨⟨inner₂, toFetch⟩, hrows, h⟩ := Option.bind_eq_some_iff.mp h
  obtain ⟨hentries₁, hcovers₁, hleft, hdead₁⟩ := bonusLines_entry hbonus
  have hleft : inner.leftDirty delta bonus = some dirty₁ := by
    unfold leftDirty
    rw [hdirty]
    exact hleft
  obtain ⟨hentries₂, -, hdead₂⟩ := dirtyRows_entry hrows RangeSet.proper_new
  dsimp only at hentries₁ hcovers₁ hdead₁ hentries₂ hdead₂ h
  -- a row that is not among the dirty ones has what it had after the bonus lines
  have hkept : row ∉ dirty₁.iterValues → inner₁.entry row = some entry →
      (∃ line, (row, line) ∈ bonus ∧ entry = .line (ops.scanAndCreateHyperlinks line)) ∨
      (inner.entry row = some entry ∧ ¬ Covers delta.dirtyLines row ∧
        row ∉ bonus.map Prod.fst) := by
    intro hclean hprior
    rcases hentries₁ row entry hprior with hline | ⟨hnot, hprior⟩
    · exact .inl hline
    · refine .inr ⟨hprior, ?_, hnot⟩
      intro hlisted
      exact hclean (RangeSet.mem_iterValues.mpr
        (hcovers₁ row (dirtyRows_covers hdirty hlisted) hnot))
  split at h
  · next hempty =>
    cases h
    rcases hentries₂ row entry hentry with ⟨-, -, -, hcovers⟩ | ⟨hclean, hprior⟩
    · rw [List.isEmpty_iff.mp hempty] at hcovers
      exact absurd hcovers covers_nil
    · rcases hkept hclean hprior with hline | hsame
      · exact .inl hline
      · exact .inr (.inr (.inr hsame))
  · next hsome =>
    split at h
    · next hadmitted =>
      obtain ⟨rfl, rfl⟩ := Prod.mk.inj (Option.some.inj h)
      rcases hentries₂ row entry hentry with ⟨hin, htop, hsince, hcovers⟩ | ⟨hclean, hprior⟩
      · refine .inr (.inl ⟨hsince, hadmitted, ⟨dirty₁, hleft, RangeSet.mem_iterValues.mp hin⟩,
          htop, ?_⟩)
        intro hdead
        refine ⟨toFetch, ?_, hcovers⟩
        have hdead : inner₂.dead = false := (hdead₂.trans hdead₁).trans hdead
        unfold scheduleFetchLines
        rw [hdead, Bool.or_false, if_neg hsome]
      · rcases hkept hclean hprior with hline | hsame
        · exact .inl hline
        · exact .inr (.inr (.inr hsame))
    · cases h
      rcases entry_makeStale_all hentry with ⟨-, hstale⟩ | ⟨hnot, hprior⟩
      · exact .inr (.inr (.inl hstale))
      · rcases hentries₂ row entry hprior with ⟨-, -, -, hcovers⟩ | ⟨hclean, hprior⟩
        · exact absurd (RangeSet.mem_iterValues.mpr hcovers) hnot
        · rcases hkept hclean hprior with hline | hsame
          · exact .inl hline
          · exact .inr (.inr (.inr hsame))

/-! ## Answers -/

theorem entry_putBack {old : LineEntry Line} (hold : inner.entry row = some old)
    (hsince : old.since ≠ some start)
    (h : ((inner.lines.erase row).put row old).peek row' = some entry) :
    inner.entry row' = some entry ∧ (row' = row → entry.since ≠ some start) := by
  rcases Lru.peek_put_cases h with ⟨rfl, rfl⟩ | ⟨hne, h⟩
  · exact ⟨hold, fun _ => hsince⟩
  · rw [Lru.peek_erase_of_ne _ hne] at h
    exact ⟨h, fun heq => absurd heq hne⟩

theorem putLine_entry {line : Line}
    (h : (inner.putLine ops row line (some start)).entry row' = some entry) :
    (row' = row ∧ (∃ seqno, entry =
        .line (ops.updateLastChangeSeqno (ops.scanAndCreateHyperlinks line) seqno)) ∧
      ∃ old, inner.entry row = some old ∧ old.since = some start) ∨
    (inner.entry row' = some entry ∧ (row' = row → entry.since ≠ some start)) := by
  -- the entry was taken out, and comes back as it was, or is done
  have hdone : ∀ old, inner.entry row = some old → old.since = some start →
      ((inner.lines.erase row).put row (.line (ops.updateLastChangeSeqno
        (ops.scanAndCreateHyperlinks line) inner.seqno))).peek row' = some entry →
      (row' = row ∧ (∃ seqno, entry =
          .line (ops.updateLastChangeSeqno (ops.scanAndCreateHyperlinks line) seqno)) ∧
        ∃ old, inner.entry row = some old ∧ old.since = some start) ∨
      (inner.entry row' = some entry ∧ (row' = row → entry.since ≠ some start)) := by
    intro old hold hsince h
    rcases Lru.peek_put_cases h with ⟨rfl, rfl⟩ | ⟨hne, h⟩
    · exact .inl ⟨rfl, ⟨inner.seqno, rfl⟩, old, hold, hsince⟩
    · rw [Lru.peek_erase_of_ne _ hne] at h
      exact .inr ⟨h, fun heq => absurd heq hne⟩
  unfold putLine RenderableInner.entry at h
  dsimp only at h
  split at h
  · next old since hold =>
    split at h
    · next hstart =>
      subst hstart
      exact hdone _ hold rfl h
    · next hstart =>
      exact .inr (entry_putBack hold (fun hsince => hstart (Option.some.inj hsince).symm) h)
  · next since hold =>
    split at h
    · next hstart =>
      subst hstart
      exact hdone _ hold rfl h
    · next hstart =>
      exact .inr (entry_putBack hold (fun hsince => hstart (Option.some.inj hsince).symm) h)
  · next old hnot1 hnot2 hold =>
    refine .inr (entry_putBack hold ?_ h)
    cases old with
    | line _ => simp [LineEntry.since]
    | stale _ => simp [LineEntry.since]
    | fetching since => exact absurd rfl (hnot2 since)
    | lineAndFetching old since => exact absurd rfl (hnot1 old since)
  · exact .inr ((entry_erase h).imp_right fun hne heq => absurd heq hne)

/-- **A fetch that is answered.** A row has a line of the answer, and was marked by the fetch, or
has the entry it had; if that is still marked by the fetch, the answer says nothing of the row. -/
theorem answered_entry {lines : List (Int × Line)}
    (h : (lines.foldl (fun inner e => inner.putLine ops e.1 e.2 (some start)) inner).entry row =
      some entry) : (∃ line seqno old, (row, line) ∈ lines ∧ entry =
        .line (ops.updateLastChangeSeqno (ops.scanAndCreateHyperlinks line) seqno) ∧
      inner.entry row = some old ∧ old.since = some start) ∨
    (inner.entry row = some entry ∧ (row ∈ lines.map Prod.fst → entry.since ≠ some start)) := by
  induction lines generalizing inner with
  | nil => exact .inr ⟨h, fun hin => absurd hin List.not_mem_nil⟩
  | cons first lines ih =>
    rw [List.foldl_cons] at h
    rcases ih h with ⟨line, seqno, old, hin, rfl, hold, hsince⟩ | ⟨hprior, hlater⟩
    · rcases putLine_entry hold with ⟨-, ⟨seqno', rfl⟩, -⟩ | ⟨hold, -⟩
      · cases hsince
      · exact .inl ⟨line, seqno, old, List.mem_cons_of_mem _ hin, rfl, hold, hsince⟩
    · rcases putLine_entry hprior with ⟨rfl, ⟨seqno, rfl⟩, old, hold, hsince⟩ | ⟨hprior, hnow⟩
      · exact .inl ⟨first.2, seqno, old, List.mem_cons_self, rfl, hold, hsince⟩
      · refine .inr ⟨hprior, ?_⟩
        intro hin
        rcases List.mem_cons.mp hin with rfl | hin
        · exact hnow rfl
        · exact hlater hin

theorem revertRow_entry (h : (revertRow start inner row).entry row' = some entry) :
    (row' = row ∧ ∃ line, entry = .line line ∧
      inner.entry row = some (.lineAndFetching line start)) ∨
    (inner.entry row' = some entry ∧ (row' = row → entry.since ≠ some start)) := by
  unfold revertRow RenderableInner.entry at h
  dsimp only at h
  split at h
  · next since hold =>
    split at h
    · exact .inr ((entry_erase h).imp_right fun hne heq => absurd heq hne)
    · next hstart => exact .inr (entry_putBack hold (fun hsince => hstart (Option.some.inj hsince)) h)
  · next line since hold =>
    split at h
    · next hstart =>
      subst hstart
      rcases Lru.peek_put_cases h with ⟨rfl, rfl⟩ | ⟨hne, h⟩
      · exact .inl ⟨rfl, line, rfl, hold⟩
      · rw [Lru.peek_erase_of_ne _ hne] at h
        exact .inr ⟨h, fun heq => absurd heq hne⟩
    · next hstart => exact .inr (entry_putBack hold (fun hsince => hstart (Option.some.inj hsince)) h)
  · next old hnot1 hnot2 hold =>
    refine .inr (entry_putBack hold ?_ h)
    cases old with
    | line _ => simp [LineEntry.since]
    | stale _ => simp [LineEntry.since]
    | fetching since => exact absurd rfl (hnot1 since)
    | lineAndFetching old since => exact absurd rfl (hnot2 old since)
  · exact .inr ((entry_erase h).imp_right fun hne heq => absurd heq hne)

/-- **A fetch that has failed.** A row has the line back that it had while it was fetched, or the
entry it had; if that is still marked by the fetch, the fetch was not for this row. -/
theorem failed_entry (h : (rows.foldl (revertRow start) inner).entry row = some entry) :
    (row ∈ rows ∧ ∃ line, entry = .line line ∧
      inner.entry row = some (.lineAndFetching line start)) ∨
    (inner.entry row = some entry ∧ (row ∈ rows → entry.since ≠ some start)) := by
  induction rows generalizing inner with
  | nil => exact .inr ⟨h, fun hin => absurd hin List.not_mem_nil⟩
  | cons first rows ih =>
    rw [List.foldl_cons] at h
    rcases ih h with ⟨hin, line, rfl, hold⟩ | ⟨hprior, hlater⟩
    · rcases revertRow_entry hold with ⟨-, line', hline, -⟩ | ⟨hold, -⟩
      · cases hline
      · exact .inl ⟨List.mem_cons_of_mem _ hin, line, rfl, hold⟩
    · rcases revertRow_entry hprior with ⟨rfl, line, rfl, hold⟩ | ⟨hprior, hnow⟩
      · exact .inl ⟨List.mem_cons_self, line, rfl, hold⟩
      · refine .inr ⟨hprior, ?_⟩
        intro hin
        rcases List.mem_cons.mp hin with rfl | hin
        · exact hnow rfl
        · exact hlater hin

/-! ## Rendering -/

theorem renderEntry_cases (ops : LineOps Line) (now seqno cols : Nat)
    (prior : Option (LineEntry Line)) : prior = some (renderEntry ops now seqno cols prior).1 ∨
    (∃ line, (renderEntry ops now seqno cols prior).1 = .stale line) ∨
    ((renderEntry ops now seqno cols prior).1.since = some now ∧
      (renderEntry ops now seqno cols prior).2.2 = true ∧
      (prior = none ∨ ∃ line, prior = some (.stale line))) := by
  unfold renderEntry
  split
  · split
    · exact .inr (.inl ⟨_, rfl⟩)
    · exact .inl rfl
  · exact .inl rfl
  · exact .inl rfl
  · next line => exact .inr (.inr ⟨rfl, rfl, .inr ⟨line, rfl⟩⟩)
  · exact .inr (.inr ⟨rfl, rfl, .inl rfl⟩)

theorem renderRows_entry (h : rows.foldlM (renderRow ops now lag) state = some state')
    (hset : state.2.1.Proper) : (∀ row entry, state'.1.entry row = some entry →
      (state.1.entry row = some entry) ∨ (∃ line, entry = .stale line) ∨
      (entry.since = some now ∧ row ∈ rows ∧ Covers state'.2.1.ranges row)) ∧
    (∀ row, Covers state.2.1.ranges row → Covers state'.2.1.ranges row) ∧
    state'.1.dead = state.1.dead := by
  induction rows generalizing state with
  | nil =>
    cases h
    exact ⟨fun row entry hentry => .inl hentry, fun _ hrow => hrow, rfl⟩
  | cons first rows ih =>
    rw [List.foldlM_cons] at h
    obtain ⟨state₁, h1, h2⟩ := Option.bind_eq_some_iff.mp h
    obtain ⟨inner, toFetch, result⟩ := state
    unfold renderRow at h1
    dsimp only at h1
    have hcases := renderEntry_cases ops now inner.seqno inner.dimensions.cols
      (inner.lines.peek first)
    generalize renderEntry ops now inner.seqno inner.dimensions.cols (inner.lines.peek first) =
      rendered at h1 hcases
    obtain ⟨new, line, fetch⟩ := rendered
    dsimp only at h1 hcases
    obtain ⟨toFetch₁, hadd, h1⟩ := Option.bind_eq_some_iff.mp h1
    cases h1
    have hset₁ : toFetch₁.Proper ∧
        (∀ row, Covers toFetch.ranges row → Covers toFetch₁.ranges row) ∧
        (fetch = true → Covers toFetch₁.ranges first) := by
      cases fetch with
      | false =>
        cases hadd
        exact ⟨hset, fun _ hrow => hrow, fun hfetch => Bool.noConfusion hfetch⟩
      | true =>
        obtain ⟨hproper, hadded⟩ := add_spec hset hadd
        exact ⟨hproper, fun row hrow => (hadded row).mpr (.inl hrow),
          fun _ => (hadded first).mpr (.inr rfl)⟩
    obtain ⟨hproper, hmore, hfirst⟩ := hset₁
    obtain ⟨hentries, hcovers, hdead⟩ := ih h2 hproper
    refine ⟨?_, fun row hrow => hcovers row (hmore row hrow), hdead⟩
    intro row entry hentry
    rcases hentries row entry hentry with hprior | hstale | ⟨hsince, hin, hrow⟩
    · rcases Lru.peek_put_cases hprior with ⟨rfl, rfl⟩ | ⟨hne, hprior⟩
      · rcases hcases with hsame | hstale | ⟨hsince, hfetch, -⟩
        · exact .inl hsame
        · exact .inr (.inl hstale)
        · exact .inr (.inr ⟨hsince, List.mem_cons_self, hcovers row (hfirst hfetch)⟩)
      · rw [Lru.peek_erase_of_ne _ hne] at hprior
        exact .inl hprior
    · exact .inr (.inl hstale)
    · exact .inr (.inr ⟨hsince, List.mem_cons_of_mem _ hin, hrow⟩)

theorem renderRows_unmarked (h : rows.foldlM (renderRow ops now lag) state = some state')
    (hnodup : rows.Nodup)
    (hrows : ∀ row ∈ rows, ∃ entry, state.1.entry row = some entry ∧ ∀ line, entry ≠ .stale line)
    (hentry : state'.1.entry row = some entry) :
    state.1.entry row = some entry ∨ ∃ line, entry = .stale line := by
  induction rows generalizing state with
  | nil =>
    cases h
    exact .inl hentry
  | cons first rows ih =>
    rw [List.foldlM_cons] at h
    obtain ⟨state₁, h1, h2⟩ := Option.bind_eq_some_iff.mp h
    obtain ⟨inner, toFetch, result⟩ := state
    unfold renderRow at h1
    dsimp only at h1 hrows ⊢
    obtain ⟨old, hold, hfresh⟩ := hrows first List.mem_cons_self
    have hold : inner.lines.peek first = some old := hold
    have hcases := renderEntry_cases ops now inner.seqno inner.dimensions.cols
      (inner.lines.peek first)
    generalize renderEntry ops now inner.seqno inner.dimensions.cols (inner.lines.peek first) =
      rendered at h1 hcases
    obtain ⟨new, line, fetch⟩ := rendered
    dsimp only at h1 hcases
    obtain ⟨toFetch₁, -, h1⟩ := Option.bind_eq_some_iff.mp h1
    cases h1
    obtain ⟨hfirst, hnodup⟩ := List.nodup_cons.mp hnodup
    -- the other rows keep their entries, as the row had one before
    have hothers : ∀ row' ∈ rows, ∃ entry, RenderableInner.entry
        { inner with lines := (inner.lines.erase first).put first new } row' = some entry ∧
        ∀ line, entry ≠ .stale line := by
      intro row' hin
      have hne : row' ≠ first := fun heq => hfirst (heq ▸ hin)
      obtain ⟨entry', hentry', hnot⟩ := hrows row' (List.mem_cons_of_mem _ hin)
      exact ⟨entry', (Lru.peek_replace hold hne).trans hentry', hnot⟩
    rcases ih h2 hnodup hothers with hprior | hstale
    · rcases Lru.peek_put_cases hprior with ⟨rfl, rfl⟩ | ⟨hne, hprior⟩
      · rcases hcases with hsame | hstale | ⟨-, -, hnone | ⟨line', hstale⟩⟩
        · exact .inl hsame
        · exact .inr hstale
        · rw [hold] at hnone
          cases hnone
        · rw [hold] at hstale
          exact absurd (Option.some.inj hstale) (hfresh line')
      · rw [Lru.peek_erase_of_ne _ hne] at hprior
        exact .inl hprior
    · exact .inr hstale

/-- **Rendering.** A row has the entry it had, or is stale, or is marked and asked for unless the
pane is dead. -/
theorem getLines_entry {lines : Range Int} {shown : List Line}
    (h : inner.getLines ops now lines lag = some (inner', request, shown))
    (hentry : inner'.entry row = some entry) :
    inner.entry row = some entry ∨ (∃ line, entry = .stale line) ∨ (entry.since = some now ∧
      (inner.dead = false → ∃ rows, request = some rows ∧ Covers rows.ranges row)) := by
  unfold getLines at h
  obtain ⟨⟨inner₁, toFetch, result⟩, hrows, h⟩ := Option.bind_eq_some_iff.mp h
  dsimp only at h
  obtain ⟨rfl, hrest⟩ := Prod.mk.inj (Option.some.inj h)
  obtain ⟨rfl, rfl⟩ := Prod.mk.inj hrest
  obtain ⟨hentries, -, hdead⟩ := renderRows_entry hrows RangeSet.proper_new
  rcases hentries row entry hentry with hsame | hstale | ⟨hsince, -, hcovers⟩
  · exact .inl hsame
  · exact .inr (.inl hstale)
  · refine .inr (.inr ⟨hsince, ?_⟩)
    intro hlive
    refine ⟨toFetch, ?_, hcovers⟩
    have hlive : inner₁.dead = false := hdead.trans hlive
    have hsome : ¬ toFetch.isEmpty = true := by
      intro hempty
      dsimp only at hcovers
      rw [List.isEmpty_iff.mp hempty] at hcovers
      exact covers_nil hcovers
    unfold scheduleFetchLines
    rw [hlive, Bool.or_false, if_neg hsome]

theorem getChangedSince_entry {lines : Range Int} {seqno : Nat} {late : Bool} {rows : RangeSet Int}
    (h : inner.getChangedSince ops lines seqno late = some (inner', rows))
    (hentry : inner'.entry row = some entry) : inner.entry row = some entry := by
  have hloop : ∀ (l : List Int) (state state' : RenderableInner Line × RangeSet Int),
      l.foldlM (changedRow ops seqno) state = some state' →
      state'.1.entry row = some entry → state.1.entry row = some entry := by
    intro l
    induction l with
    | nil =>
      intro state state' h hentry
      cases h
      exact hentry
    | cons first l ih =>
      intro state state' h hentry
      rw [List.foldlM_cons] at h
      obtain ⟨state₁, h1, h2⟩ := Option.bind_eq_some_iff.mp h
      have hprior := ih state₁ state' h2 hentry
      obtain ⟨set, -, h1⟩ := Option.bind_eq_some_iff.mp h1
      cases h1
      exact Lru.peek_touch hprior
  unfold getChangedSince at h
  obtain ⟨⟨inner₁, rows₁⟩, hrows, h⟩ := Option.bind_eq_some_iff.mp h
  obtain ⟨rows₂, -, h⟩ := Option.bind_eq_some_iff.mp h
  cases h
  exact hloop _ _ _ hrows hentry

theorem makeAllStale_entry (h : inner.makeAllStale.entry row = some entry) :
    (∃ line, entry = .stale line) ∨ inner.entry row = some entry := by
  have hloop : ∀ l : List (Int × LineEntry Line),
      (l.foldr (fun e lines => Lru.put lines e.1 (allStale e.2)) .unbounded).peek row =
        some entry → ∃ old, (row, old) ∈ l ∧ entry = allStale old := by
    intro l
    induction l with
    | nil =>
      intro h
      cases h
    | cons first l ih =>
      intro h
      rw [List.foldr_cons] at h
      rcases Lru.peek_put_cases h with ⟨rfl, rfl⟩ | ⟨-, h⟩
      · exact ⟨first.2, List.mem_cons_self, rfl⟩
      · obtain ⟨old, hin, rfl⟩ := ih h
        exact ⟨old, List.mem_cons_of_mem _ hin, rfl⟩
  obtain ⟨old, hin, rfl⟩ := hloop _ h
  cases old with
  | line old => exact .inl ⟨old, rfl⟩
  | stale old => exact .inl ⟨old, rfl⟩
  | fetching since => exact .inr (Lru.peek_eq_some.mpr hin)
  | lineAndFetching old since => exact .inr (Lru.peek_eq_some.mpr hin)

theorem resize_entry {cols rows pixelWidth pixelHeight : Nat}
    (h : (inner.resize cols rows pixelWidth pixelHeight).entry row = some entry) :
    (∃ line, entry = .stale line) ∨ inner.entry row = some entry := by
  unfold resize at h
  dsimp only at h
  split at h
  · exact .inr h
  · exact makeAllStale_entry h

end RenderableInner

end Wakterm.Client
