import Wakterm.MuxServer.Logic.PaneChanges
import Wakterm.MuxServer.Logic.RenderScheduler

/-!
# The render scheduler loses no refresh

Over every interleaving of calls of `schedule`, tasks and completions. A refresh can end
without a collect in one way only: the mux no longer has its pane.
-/

namespace Wakterm.Theorems.RenderScheduler

open Wakterm.Machine Wakterm.MuxServer
open Wakterm.MuxServer.Session (Collects Takes)

/-- **No refresh is lost.** At most one refresh is outstanding; an inactive scheduler has
nothing queued; the set holds the panes of the queue, which has each of them once. And for each
call of `schedule` that returned, at position `m` of the log: a refresh of its pane is queued or
not yet started, or one started after the call and found the mux without the pane, or a collect
for the pane ran after the call and a collect since the call noted its serial, at position `c`,
took a serial at least as large. -/
theorem refresh_not_lost {actions : List Action} {s : Session}
    (h : Session.new.run actions = some s) :
    s.outstanding.length ≤ 1 ∧ (s.state.active = false → s.state.dirty = []) ∧
      s.state.dirtyIds = s.state.dirty.toFinset ∧ s.state.dirty.Nodup ∧
      ∀ c m pane serial, At s.log c (.called pane serial) → At s.log m (.marked c) →
        s.Waiting pane ∨ After s.log m (· = .missing pane) ∨
          After s.log m (Collects pane) ∧ After s.log c (Takes pane serial) := by
  obtain ⟨hb, ha⟩ := Session.run_invariants actions Session.balanced_new Session.accounted_new h
  refine ⟨?_, hb.idle, hb.consistent.ids, hb.consistent.nodup, ?_⟩
  · rw [hb.single]
    split <;> simp
  · intro c m pane serial hc hm
    rcases ha.waits m c pane serial hm hc with hw | ⟨j, e, hj, hat, rfl | hcollects⟩
    · exact .inl hw
    · exact .inr (.inl ⟨j, _, hj, hat, rfl⟩)
    · refine .inr (.inr ⟨⟨j, e, hj, hat, hcollects⟩, ?_⟩)
      -- the call returned after it had noted its serial, so the collect came after that too
      obtain ⟨hcm, -⟩ := ha.marked m c hm
      rcases ha.noted c pane serial hc with ⟨-, hnone⟩ | htaken
      · exact absurd ⟨j, e, by omega, hat, hcollects⟩ hnone
      · exact htaken

/-- Two calls for one pane, the second while the refresh of the first is under way. -/
theorem refresh_not_lost_twice :
    ∃ s, Session.new.run [.call 7 (some 3), .mark 0, .call 7 (some 5), .mark 0,
        .compute 0 true false, .send 0 true, .complete 0, .compute 0 true true, .complete 0] = some s ∧
      At s.log 0 (.called 7 (some 3)) ∧ At s.log 1 (.marked 0) ∧
      (s.Waiting 7 ∨ After s.log 1 (· = .missing 7) ∨
        After s.log 1 (Collects 7) ∧ After s.log 0 (Takes 7 (some 3))) := by
  have hsome : (Session.new.run [.call 7 (some 3), .mark 0, .call 7 (some 5), .mark 0,
      .compute 0 true false, .send 0 true, .complete 0, .compute 0 true true,
      .complete 0]).isSome := by rfl
  have hrun := (Option.some_get hsome).symm
  obtain ⟨-, -, -, -, hcalls⟩ := refresh_not_lost hrun
  exact ⟨_, hrun, rfl, rfl, hcalls 0 1 7 (some 3) rfl rfl⟩

/-- A refresh whose pane is gone ends without a collect: nothing waits, and no collect for the
pane ever ran. -/
theorem missing_pane_not_collected :
    ∃ s, Session.new.run [.call 7 (some 3), .mark 0, .compute 0 false true, .complete 0] = some s ∧
      At s.log 0 (.called 7 (some 3)) ∧ At s.log 1 (.marked 0) ∧
      ¬ (s.Waiting 7 ∨ After s.log 0 (Takes 7 (some 3))) := by
  have hsome : (Session.new.run [.call 7 (some 3), .mark 0, .compute 0 false true,
      .complete 0]).isSome := by rfl
  refine ⟨_, (Option.some_get hsome).symm, rfl, rfl, ?_⟩
  rintro ((hw | hw) | ⟨j, e, hj, hat, taken, rfl, -⟩)
  · exact absurd hw (List.not_mem_nil (a := 7))
  · exact absurd hw List.not_mem_nil
  · have hlog : (Option.get _ hsome).log =
        [.called 7 (some 3), .marked 0, .missing 7] := rfl
    rw [hlog] at hat
    have hmem := List.mem_of_getElem? hat
    simp at hmem

end Wakterm.Theorems.RenderScheduler

/-!
## No row is lost between two responses

`compute_changes` reads the dimensions before it reads the sequence number.
-/

namespace Wakterm.Theorems.PaneChanges

open Wakterm.MuxServer Wakterm.Rangeset

variable {Line : Type}

/-- Every row above the bottom of a call that was changed before the call
started is listed by a response computed after the change. -/
def RowsReported (rounds : List (Round Line)) : Prop :=
  ∀ earlier round later, rounds = earlier ++ round :: later →
    ∀ row, 0 ≤ row → row < round.reads.dimensions.dimensions.bottom →
      0 < round.start.lastChanged row →
      Reported (earlier ++ [round]) row (round.start.lastChanged row)

/-- Every bonus line was read no earlier than the sequence number says. -/
def LinesFresh (compressForScrollback : Line → Line) (rounds : List (Round Line)) : Prop :=
  ∀ round ∈ rounds, ∀ changes, round.response = some changes →
    ∀ row line, (row, line) ∈ changes.bonusLines →
      LineRead compressForScrollback round.reads changes.seqno row line

theorem rowsReported_append {rounds : List (Round Line)} {round : Round Line}
    (h : RowsReported rounds)
    (hround : ∀ row, 0 ≤ row → row < round.reads.dimensions.dimensions.bottom →
      0 < round.start.lastChanged row →
      Reported (rounds ++ [round]) row (round.start.lastChanged row)) :
    RowsReported (rounds ++ [round]) := by
  intro earlier x later hsplit
  rcases List.eq_nil_or_concat later with rfl | ⟨later, last, rfl⟩
  · obtain ⟨rfl, hlast⟩ := List.append_inj' hsplit rfl
    obtain rfl := (List.cons.inj hlast).1
    exact hround
  · rw [List.concat_eq_append, ← List.cons_append, ← List.append_assoc] at hsplit
    exact h earlier x later (List.append_inj' hsplit rfl).1

/-- **Steady calls report every row**, whatever changes between and during
them. -/
theorem reported_of_steady {compressForScrollback : Line → Line} {first pane : PaneView Line}
    {perPane : PerPane} {rounds : List (Round Line)}
    (h : Rounds compressForScrollback first rounds pane perPane)
    (hsteady : ∀ round ∈ rounds, round.Steady) :
    RowsReported rounds ∧ LinesFresh compressForScrollback rounds := by
  induction h with
  | none =>
    constructor
    · intro earlier round later hsplit
      exact absurd hsplit (by simp)
    · intro round hround
      exact absurd hround (by simp)
  | @next rounds pane perPane perPane' start reads response serial hrounds hlater horder
      hcompute ih =>
      have hbefore : ∀ round ∈ rounds, round.Steady := fun round hround =>
        hsteady round (List.mem_append_left _ hround)
      obtain ⟨hrows, hlines⟩ := ih hbefore
      have hstart := (accounted_of_steady hrounds hbefore).later hlater
      constructor
      · refine rowsReported_append hrows ?_
        intro row hzero hbottom hpos
        have htaken : Accounted rounds start { perPane with pendingInputSerial := none } :=
          ⟨hstart.seqno_le, hstart.rows⟩
        exact htaken.reported horder hcompute hzero hpos hbottom
      · intro round hround changes hresponse row line hmem
        rcases List.mem_append.mp hround with hround | hround
        · exact hlines round hround changes hresponse row line hmem
        · obtain rfl := List.mem_singleton.mp hround
          obtain rfl : response = some changes := hresponse
          exact lineRead_of_mem horder hcompute hmem

/-! ### A scroll in the middle of a call -/

/-- The mutation that changed the row last: it has written the rows that came to the screen. -/
def scrolledRow (scrolled : Nat) (row : Int) : Nat :=
  if 24 ≤ row ∧ row < 24 + scrolled then 1 else 0

/-- The rows that have changed since. -/
def scrolledSince (scrolled : Nat) (rows : Range Int) (seqno : Nat) : RangeSet Int :=
  if seqno = 0 ∧ max rows.start 24 < min rows.stop (24 + scrolled) then
    ⟨[⟨max rows.start 24, min rows.stop (24 + scrolled)⟩], false⟩
  else .new

theorem scrolledRow_le (scrolled : Nat) (row : Int) :
    scrolledRow scrolled row ≤ if scrolled = 0 then 0 else 1 := by
  unfold scrolledRow
  split_ifs <;> omega

theorem proper_scrolledSince (scrolled : Nat) (rows : Range Int) (seqno : Nat) :
    (scrolledSince scrolled rows seqno).Proper := by
  unfold scrolledSince
  split_ifs with h
  · intro r hr
    obtain rfl := List.mem_singleton.mp hr
    exact Int.le_of_lt h.2
  · exact RangeSet.proper_new

theorem contains_scrolledSince (scrolled : Nat) (rows : Range Int) (seqno : Nat) (row : Int) :
    (scrolledSince scrolled rows seqno).contains row = true ↔
      rows.start ≤ row ∧ row < rows.stop ∧ seqno < scrolledRow scrolled row := by
  unfold scrolledSince scrolledRow
  by_cases h : seqno = 0 ∧ max rows.start 24 < min rows.stop (24 + scrolled)
  · rw [if_pos h]
    simp only [RangeSet.contains, Range.contains, List.any_cons, List.any_nil,
      Bool.or_false, Bool.and_eq_true, decide_eq_true_eq]
    split_ifs <;> omega
  · rw [if_neg h]
    simp only [RangeSet.contains, RangeSet.new, List.any_nil, Bool.false_eq_true, false_iff]
    split_ifs <;> omega

/-- A pane of 24 rows after the output of one mutation has scrolled it up by
`scrolled` rows. Lines are their row numbers. -/
def scrolledPane (scrolled : Nat) : PaneView Int where
  isMouseGrabbed := false
  isAltScreenActive := false
  dimensions := ⟨80, 24, 24 + scrolled, scrolled, 0, 96, 640, 480, false⟩
  cursorPosition := ⟨0, 23 + scrolled, 0⟩
  title := "shell"
  workingDir := none
  currentSeqno := if scrolled = 0 then 0 else 1
  lastChanged := scrolledRow scrolled
  changedSince := scrolledSince scrolled
  getLines rows := (rows.start, RangeSet.numRange rows.start rows.stop)
  lastChanged_le := scrolledRow_le scrolled
  proper := proper_scrolledSince scrolled
  contains_changedSince := contains_scrolledSince scrolled

/-- Output scrolls the pane between its first calls and the rest. -/
def scrolledBetween : PaneReads Int where
  mouseGrabbed := scrolledPane 0
  altScreenActive := scrolledPane 0
  dimensions := scrolledPane 0
  cursorPosition := scrolledPane 0
  title := scrolledPane 0
  workingDir := scrolledPane 0
  seqno := scrolledPane 2
  changed := scrolledPane 2
  lines := scrolledPane 2
  cursorLine := scrolledPane 2

/-- Nothing happens between the calls. -/
def undisturbed (pane : PaneView Line) : PaneReads Line :=
  ⟨pane, pane, pane, pane, pane, pane, pane, pane, pane, pane⟩

theorem inOrder_undisturbed (pane : PaneView Line) : (undisturbed pane).InOrder pane :=
  ⟨.refl, .refl, .refl, .refl, .refl, .refl, .refl, .refl, .refl, .refl⟩

theorem later_scrolled : Later (scrolledPane 0) (scrolledPane 2) := by
  refine .single ⟨by decide, ?_⟩
  intro row
  by_cases hrow : 24 ≤ row ∧ row < 24 + ((2 : Nat) : Int)
  · exact .inr (if_pos hrow)
  · refine .inl ((if_neg hrow).trans (if_neg ?_).symm)
    omega

theorem inOrder_scrolledBetween : scrolledBetween.InOrder (scrolledPane 0) where
  mouseGrabbed := .refl
  altScreenActive := .refl
  dimensions := .refl
  cursorPosition := .refl
  title := .refl
  workingDir := .refl
  seqno := later_scrolled
  changed := .refl
  lines := .refl
  cursorLine := .refl

/-- Output before the call and none during it is reported. -/
theorem reported_after_output :
    ∃ rounds pane perPane, Rounds id (scrolledPane 0) rounds pane perPane ∧
      rounds ≠ [] ∧ RowsReported rounds ∧ LinesFresh id rounds := by
  have hnew : Rounds id (scrolledPane 0) [] (scrolledPane 0) .default := .none
  have hrun := hnew.next none later_scrolled (inOrder_undisturbed (scrolledPane 2)) rfl
  refine ⟨_, _, _, hrun, by simp, reported_of_steady hrun ?_⟩
  intro round hround
  obtain rfl := List.mem_singleton.mp hround
  intro row hzero hchanged
  show row < 26
  by_contra hrow
  have hnone : (scrolledPane 2).lastChanged row = 0 := if_neg (by omega)
  exact Nat.not_lt_zero _ (hnone ▸ hchanged)

/-- The first of two rows that scroll in between is never listed. -/
theorem row_never_listed : ¬ ∀ (rounds : List (Round Int)) pane perPane,
      Rounds id (scrolledPane 0) rounds pane perPane → RowsReported rounds := by
  intro hall
  have hnew : Rounds id (scrolledPane 0) [] (scrolledPane 0) .default := .none
  have hone := hnew.next none .refl inOrder_scrolledBetween rfl
  have htwo := hone.next none .refl (inOrder_undisturbed (scrolledPane 2)) rfl
  obtain ⟨round, hmem, changes, hresponse, hlists, _⟩ :=
    hall _ _ _ htwo [_] _ [] rfl 24 (by decide) (by decide) (by decide)
  simp only [List.nil_append, List.cons_append, List.mem_cons, List.not_mem_nil,
    or_false] at hmem
  rcases hmem with rfl | rfl
  · cases hresponse
    rcases hlists with ⟨r, hr, _⟩ | ⟨line, hline⟩
    · cases hr
    · have hrow : (24 : Int) = 23 := congrArg Prod.fst (List.mem_singleton.mp hline)
      exact absurd hrow (by decide)
  · cases hresponse
    rcases hlists with ⟨r, hr, _⟩ | ⟨line, hline⟩
    · cases hr
    · have hrow : (24 : Int) = 25 := congrArg Prod.fst (List.mem_singleton.mp hline)
      exact absurd hrow (by decide)

end Wakterm.Theorems.PaneChanges
