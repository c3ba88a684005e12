import Wakterm.Client.Logic.Coalesce
import Wakterm.Client.Logic.Outbox
import Wakterm.Client.Logic.Runs
import Wakterm.Term.Line

/-!
# The rows a client keeps

For every run of a client: deltas, renders, answers in any order, throttling, and the pane being
dead for a while.
-/

namespace Wakterm.Theorems.RowCache

open Wakterm.Machine Wakterm.Rangeset Wakterm.Client

/-- **Coherence.** A line that is up to date for the client was received by the delta that has
reported its row last, or from a fetch started by it or later, if no fetch that has failed gave back
a line of which this was not true. -/
theorem cached_line_fresh {Line : Type} {ops : LineOps Line} {capacity : Nat}
    {dimensions : RenderableDimensions} {events : List (Event Line)} {w : World Line}
    (hrun : (World.new capacity dimensions).run ops events = some w)
    (hinstants : DistinctInstants events)
    (hreverts : EachStep ops (RevertsFresh ops) [] (World.new capacity dimensions) events)
    {row : Int} {line : Line} (hline : w.inner.entry row = some (.line line)) :
    Fresh ops events row line := by
  have hcoherent := (coherent_new capacity dimensions).run hrun hinstants hreverts
  exact hcoherent.fresh row line hline

/-- What a client does with lines, without rules for links. -/
def plainLines : LineOps Term.Line where
  scanAndCreateHyperlinks := id
  updateLastChangeSeqno := Term.Line.updateLastChangeSeqno
  changedSince := Term.Line.changedSince
  withWidth := fun cols => .withWidthAndCell cols .blank 0

/-- A client with a viewport of one row. -/
def oneRow : World Term.Line := .new 0 ⟨2, 1, 0, 0, 0⟩

/-- A delta that lists rows. -/
def delta (dirty : List (Range Int)) (seqno : Nat) : Delta :=
  ⟨dirty, ⟨0, 0, 0⟩, ⟨2, 1, 0, 0, 0⟩, none, seqno⟩

/-- The row comes with a delta, is reported as dirty by the next one, and the answer to the request
for it comes. -/
def answered (result : Option (List (Int × Term.Line))) : List (Event Term.Line) :=
  [.delta 1 (delta [] 5) [(0, .new 5)] true, .delta 2 (delta [⟨0, 1⟩] 6) [] true,
    .complete 1 result]

theorem answered_instants (result : Option (List (Int × Term.Line))) :
    DistinctInstants (answered result) := by
  unfold DistinctInstants answered
  simp [Event.now]

/-- The line of the answer is fresh. -/
theorem cached_line_fresh_answered :
    ∃ w, oneRow.run plainLines (answered (some [(0, .new 6)])) = some w ∧
      w.inner.entry 0 = some (.line (.new 6)) ∧
      Fresh plainLines (answered (some [(0, .new 6)])) 0 (.new 6) := by
  have hentry : (oneRow.run plainLines (answered (some [(0, .new 6)]))).map
      (fun w => w.inner.entry 0) = some (some (.line (.new 6))) := by decide
  obtain ⟨w, hrun, hw⟩ := Option.map_eq_some_iff.mp hentry
  refine ⟨w, hrun, hw, cached_line_fresh hrun (answered_instants _) ?_ hw⟩
  -- no fetch fails
  refine ⟨?_, fun _ _ => ⟨?_, fun _ _ => ⟨?_, fun _ _ => trivial⟩⟩⟩
  · intro id request row line he
    cases he
  · intro id request row line he
    cases he
  · intro id request row line he
    cases he

/-- When the fetch has failed, the line from before the last delta is up to date again. -/
theorem failed_fetch_reverts :
    ∃ w, oneRow.run plainLines (answered none) = some w ∧ DistinctInstants (answered none) ∧
      w.inner.entry 0 = some (.line (.new 5)) ∧ ¬ Fresh plainLines (answered none) 0 (.new 5) := by
  have hentry : (oneRow.run plainLines (answered none)).map (fun w => w.inner.entry 0) =
      some (some (.line (.new 5))) := by decide
  obtain ⟨w, hrun, hw⟩ := Option.map_eq_some_iff.mp hentry
  refine ⟨w, hrun, answered_instants none, hw, ?_⟩
  rintro ⟨p, hreceived, hlast⟩
  -- the second delta reports the row, and neither it nor what follows brings a line
  have hreports : (answered none)[1]? = some (.delta 2 (delta [⟨0, 1⟩] 6) [] true) := rfl
  have hp : 1 ≤ p := hlast 1 _ hreports (.inl ⟨⟨0, 1⟩, List.mem_cons_self, by decide⟩)
  rcases hreceived with ⟨now, changes, bonus, admitted, received, hget, hin, -⟩ |
    ⟨c, lines, received, seqno, hget, -⟩
  · have hlt : p < 3 := (List.getElem?_eq_some_iff.mp hget).1
    obtain rfl | rfl : p = 1 ∨ p = 2 := by omega
    · obtain ⟨-, -, rfl, -⟩ := Event.delta.inj (Option.some.inj hget)
      exact List.not_mem_nil hin
    · cases hget
  · have hlt : c < 3 := (List.getElem?_eq_some_iff.mp hget).1
    obtain rfl | rfl | rfl : c = 0 ∨ c = 1 ∨ c = 2 := by omega
    · cases hget
    · cases hget
    · cases hget

/-- **No row is stuck.** A row that waits for a fetch waits for a request that was started then,
covers the row and has not been completed, if the rows that are marked are asked for, and answers
have a line for every row that still waits for them. -/
theorem fetching_row_requested {Line : Type} {ops : LineOps Line} {capacity : Nat}
    {dimensions : RenderableDimensions} {events : List (Event Line)} {w : World Line}
    (hrun : (World.new capacity dimensions).run ops events = some w)
    (hattends : EachStep ops (fun _ => Attends) [] (World.new capacity dimensions) events) :
    Awaited w :=
  ((waiting_new capacity dimensions).run hrun hattends).awaited

/-- A row is rendered, the fetch of it fails, and it is rendered again. -/
def renderedTwice : List (Event Term.Line) :=
  [.getLines 1 ⟨0, 1⟩ none, .complete 0 none, .getLines 2 ⟨0, 1⟩ none]

/-- The row waits for the second request. -/
theorem fetching_row_requested_twice :
    ∃ w, oneRow.run plainLines renderedTwice = some w ∧ w.inner.entry 0 = some (.fetching 2) ∧
      Awaited w := by
  have hentry : (oneRow.run plainLines renderedTwice).map (fun w => w.inner.entry 0) =
      some (some (.fetching 2)) := by decide
  obtain ⟨w, hrun, hw⟩ := Option.map_eq_some_iff.mp hentry
  refine ⟨w, hrun, hw, fetching_row_requested hrun ?_⟩
  refine ⟨?_, fun w₁ h1 => ⟨trivial, fun w₂ h2 => ⟨?_, fun _ _ => trivial⟩⟩⟩
  · intro hdead
    cases hdead
  · have hlive : (oneRow.run plainLines (renderedTwice.take 2)).map (fun w => w.inner.dead) =
        some false := by decide
    have hsame : oneRow.run plainLines (renderedTwice.take 2) = some w₂ := by
      show (oneRow.step plainLines _ >>= fun w => w.step plainLines _ >>= some) = some w₂
      have h1 : oneRow.step plainLines (.getLines 1 ⟨0, 1⟩ none) = some w₁ := h1
      rw [h1]
      show (w₁.step plainLines _ >>= some) = some w₂
      rw [h2]
      rfl
    rw [hsame] at hlive
    intro hdead
    exact absurd (hdead.symm.trans (Option.some.inj hlive)) (by decide)

def renderedDead : List (Event Term.Line) := [.setDead true, .getLines 1 ⟨0, 1⟩ none, .setDead false]

/-- Two rows are rendered, and the answer has one of them. -/
def answeredPartly : List (Event Term.Line) :=
  [.getLines 1 ⟨0, 2⟩ none, .complete 0 (some [(0, .new 5)])]

/-- A row that was rendered while the pane was dead, or was left out of an answer, waits though
there is no request. -/
theorem row_waits_for_nothing : (∃ w, oneRow.run plainLines renderedDead = some w ∧ ¬ Awaited w) ∧
      ∃ w, oneRow.run plainLines answeredPartly = some w ∧ ¬ Awaited w := by
  have hwaits : ∀ (events : List (Event Term.Line)) (row : Int),
      (oneRow.run plainLines events).map (fun w => (w.inner.entry row, w.requests)) =
        some (some (.fetching 1), []) →
      ∃ w, oneRow.run plainLines events = some w ∧ ¬ Awaited w := by
    intro events row h
    obtain ⟨w, hrun, hw⟩ := Option.map_eq_some_iff.mp h
    obtain ⟨hentry, hnone⟩ := Prod.mk.inj hw
    refine ⟨w, hrun, ?_⟩
    intro hawaited
    obtain ⟨r, hr, -⟩ := hawaited row _ 1 hentry rfl
    rw [hnone] at hr
    exact List.not_mem_nil hr
  refine ⟨hwaits renderedDead 0 ?_, hwaits answeredPartly 1 ?_⟩
  · decide
  · decide

end Wakterm.Theorems.RowCache

/-!
## A request that finds another one at work

Between the test of the mark and the flag that is given up, and on the way of an error, a mark is
left that nobody finds.
-/

namespace Wakterm.Client.Theorems.Coalesce

open Machine Coalescing Coalescing.Coalesce

/-- **No request is lost**, in the resync and in the refresh of the status, if whoever gives up its
work finds no mark and nobody is about to leave one. -/
theorem no_request_lost (s : Coalesce) : (Steps (step advanceResync) MeetsResync idle s → s.Sound) ∧
      (Steps (step advanceRefresh) MeetsRefresh idle s → s.Sound) := by
  constructor
  · intro h
    have hinv : s.Inv := h.invariant Inv idle_inv fun _ _ _ hs hmeets hstep =>
      stepResync_inv hs hmeets hstep
    exact hinv.sound
  · intro h
    have hinv : s.Inv ∧ s.NoneMarks := h.invariant (fun s => s.Inv ∧ s.NoneMarks)
      ⟨idle_inv, by simp [NoneMarks, idle]⟩ fun _ _ _ hs hmeets hstep =>
        stepRefresh_inv hs hmeets hstep
    exact hinv.1.sound

/-- Two calls; the second finds the first at work before its flag is given up. -/
def tooLate : List Coalescing.Event :=
  [.call, .call, .advance 0 true, .advance 0 true, .advance 0 true, .advance 0 true,
    .advance 0 true, .advance 1 true, .advance 1 true, .advance 0 true]

/-- Two calls; the second finds the first at work, whose run then fails. -/
def failing : List Coalescing.Event :=
  [.call, .call, .advance 0 true, .advance 0 true, .advance 0 true, .advance 1 true,
    .advance 1 true, .advance 0 false, .advance 0 true]

/-- The same, where one step enters and leaves the mark. -/
def failingRefresh : List Coalescing.Event :=
  [.call, .call, .advance 0 true, .advance 0 true, .advance 1 true, .advance 0 false,
    .advance 0 true]

/-- Two calls that are served: the first runs once more. -/
def served : List Coalescing.Event :=
  [.call, .call, .advance 0 true, .advance 0 true, .advance 0 true, .advance 1 true,
    .advance 1 true, .advance 0 true, .advance 0 true, .advance 0 true, .advance 0 true,
    .advance 0 true, .advance 0 true, .advance 0 true]

/-- The request of the second call is served. -/
theorem no_request_lost_served : ∃ s, Steps (step advanceResync) MeetsResync idle s ∧
      s.log = [.started 0, .coalesced 1, .ran 0, .started 0, .ran 0] ∧ s.Served := by
  have hrun : Runs (step advanceResync) MeetsResync idle served
      ⟨false, false, [.done, .done], [.started 0, .coalesced 1, .ran 0, .started 0, .ran 0]⟩ :=
    Runs.of_checked (by decide)
  refine ⟨_, hrun.steps, rfl, ((no_request_lost _).1 hrun.steps).served ?_⟩
  simp [AtRest]

theorem not_sound {s : Coalesce} (hrest : s.AtRest) {p : Nat} (hp : At s.log p (.coalesced 1))
    (hlast : ∀ q j, p < q → ¬ At s.log q (.started j)) : ¬ s.Sound := by
  intro h
  obtain ⟨q, j, hq, hat, -⟩ := h.served hrest p 1 hp
  exact hlast q j hq hat

/-- In each of the three runs the second call has returned, nobody is under way, and no run has begun
since. -/
theorem mark_not_found : (∃ s, runSteps (step advanceResync) idle tooLate = some s ∧ ¬ s.Sound) ∧
      (∃ s, runSteps (step advanceResync) idle failing = some s ∧ ¬ s.Sound) ∧
      ∃ s, runSteps (step advanceRefresh) idle failingRefresh = some s ∧ ¬ s.Sound := by
  refine ⟨⟨⟨false, true, [.done, .done], [.started 0, .ran 0, .coalesced 1]⟩, by decide, ?_⟩,
    ⟨⟨false, true, [.done, .done], [.started 0, .coalesced 1, .returned 0]⟩, by decide, ?_⟩,
    ⟨false, false, [.done, .done], [.started 0, .coalesced 1, .returned 0]⟩, by decide, ?_⟩
  · refine not_sound (p := 2) (by simp [AtRest]) rfl fun q j hq hat => ?_
    have hlt := hat.lt
    simp only [List.length_cons, List.length_nil] at hlt
    omega
  · refine not_sound (p := 1) (by simp [AtRest]) rfl fun q j hq hat => ?_
    have hlt := hat.lt
    simp only [List.length_cons, List.length_nil] at hlt
    obtain rfl : q = 2 := by omega
    simp [At] at hat
  · refine not_sound (p := 1) (by simp [AtRest]) rfl fun q j hq hat => ?_
    have hlt := hat.lt
    simp only [List.length_cons, List.length_nil] at hlt
    obtain rfl : q = 2 := by omega
    simp [At] at hat

end Wakterm.Client.Theorems.Coalesce

/-!
## The last choice is sent, and shown

Whatever the order of what the user chooses, of the requests and of the snapshots.
-/

namespace Wakterm.Client.Theorems.Outbox

open Machine Wakterm.Client.Outbox

/-- **The latest intent wins**: one loop at a time sends the intents of a window in their order and
ends with the last, and a snapshot is overridden until it shows the choice made last, whose request
has been acknowledged. -/
theorem latest_intent_wins : (∀ (α : Type) (s : Flush α), Steps step (fun _ _ => True) (start α) s →
      ∀ w, Flushed s.loops s.log w) ∧
    (∀ s, Steps ActiveFlush.step (fun _ _ => True) ActiveFlush.start s →
      ∀ w, Flushed s.loops s.log w) ∧
    ∀ s, Steps ActiveFlush.step ActiveFlush.Meets ActiveFlush.start s → ∀ w tabId paneId,
      (s.outbox.reconcile w tabId paneId).2 = answer (wanted w s.log) tabId paneId := by
  refine ⟨fun α s h w => ?_, fun s h w => ?_, fun s h w tabId paneId => ?_⟩
  · have hstart : Flow (inFlightOf (start α).windows) (pendingOf (start α).windows)
        (start α).loops (start α).log := flow_start
    have hflow : Flow (inFlightOf s.windows) (pendingOf s.windows) s.loops s.log :=
      h.invariant (fun s => Flow (inFlightOf s.windows) (pendingOf s.windows) s.loops s.log)
        hstart fun _ _ _ hs _ hstep => step_flow hs hstep
    exact hflow.flushed w
  · have hflow : ActiveFlush.Flows s :=
      h.invariant ActiveFlush.Flows flow_start fun _ _ _ hs _ hstep =>
        ActiveFlush.step_flows hs hstep
    exact hflow.flushed w
  · have hboth : ActiveFlush.Flows s ∧ ActiveFlush.DesiresOf s w :=
      h.invariant (fun s => ActiveFlush.Flows s ∧ ActiveFlush.DesiresOf s w)
        ⟨flow_start, ActiveFlush.start_desires w⟩ fun _ _ _ hs hmeets hstep =>
          ⟨ActiveFlush.step_flows hs.1 hstep, ActiveFlush.step_desires hs.2 hs.1 hmeets hstep⟩
    exact hboth.2.reconcile tabId paneId

/-- Two orders of tabs, of which the first is superseded, and its loop. -/
def superseded : List (Outbox.Event (List TabId)) :=
  [.queue 0 [1, 2], .queue 0 [2, 1], .advance 0, .advance 0, .advance 0]

/-- A tab is chosen, and its request sent and acknowledged. -/
def chosen : List ActiveEvent :=
  [.queue 0 1 1, .advance 0, .advance 0, .advance 0, .advance 0]

/-- The second order alone is sent, and the chosen tab is shown although a snapshot has another. -/
theorem latest_intent_wins_runs :
    (∃ s, Steps step (fun _ _ => True) (start (List TabId)) s ∧ Flushed s.loops s.log 0 ∧
      s.log = [.queued 0 [1, 2], .queued 0 [2, 1], .sent 0 [2, 1]]) ∧
    ∃ s, Steps ActiveFlush.step ActiveFlush.Meets ActiveFlush.start s ∧ Flushed s.loops s.log 0 ∧
      s.log = [.queued 0 (1, 1), .sent 0 (1, 1), .acknowledged 0] ∧
      (s.outbox.reconcile 0 2 none).2 = (1, some 1) := by
  constructor
  · have hrun : ∃ s, runSteps step (start (List TabId)) superseded = some s ∧
        s.log = [.queued 0 [1, 2], .queued 0 [2, 1], .sent 0 [2, 1]] := ⟨_, rfl, rfl⟩
    obtain ⟨s, hrun, hlog⟩ := hrun
    have hsteps : Steps step (fun _ _ => True) (start (List TabId)) s :=
      (Runs.of_run hrun fun _ _ => trivial).steps
    exact ⟨s, hsteps, latest_intent_wins.1 _ s hsteps 0, hlog⟩
  · have hrun : ∃ s, runSteps (fun s e => if s.log.length < 2 ^ 64 then ActiveFlush.step s e
        else none) ActiveFlush.start chosen = some s ∧
        s.log = [.queued 0 (1, 1), .sent 0 (1, 1), .acknowledged 0] := ⟨_, rfl, rfl⟩
    obtain ⟨s, hrun, hlog⟩ := hrun
    have hsteps : Steps ActiveFlush.step ActiveFlush.Meets ActiveFlush.start s :=
      Steps.mono (Runs.of_checked hrun).steps fun _ e hshort =>
        ActiveFlush.meets_of_short hshort e
    refine ⟨s, hsteps, latest_intent_wins.2.1 s (hsteps.mono fun _ _ _ => trivial) 0, hlog, ?_⟩
    rw [latest_intent_wins.2.2 s hsteps, hlog]
    rfl

/-! ### When the number comes round -/

theorem queue_again {s : ActiveFlush} {first : ActiveTabIntent}
    (hloops : s.loops = [⟨0, .sending first⟩]) (hflag : s.outbox.inFlight 0 = true) :
    ∃ s', s.step (.queue 0 2 2) = some s' ∧
      s'.outbox.generation = (s.outbox.generation + 1) % 2 ^ 64 ∧ s'.outbox.inFlight 0 = true ∧
      s'.outbox.desired 0 = some ⟨(s.outbox.generation + 1) % 2 ^ 64, 2, 2, false⟩ ∧
      s'.loops = [⟨0, .sending first⟩] ∧ wanted 0 s'.log = some ⟨(2, 2), false, false⟩ := by
  obtain ⟨hgeneration, hstart, hspec⟩ := s.outbox.queue_spec 0 2 2
  obtain ⟨hin, -, hdesired⟩ := hspec 0
  refine ⟨_, rfl, hgeneration, ?_, ?_, ?_, ?_⟩
  · exact hin
  · exact hdesired
  · show (if (s.outbox.queue 0 2 2).2 = true then s.loops ++ [⟨0, .take⟩] else s.loops) = _
    rw [hstart, hflag, hloops]
    rfl
  · show wanted 0 (s.log ++ [Entry.queued 0 (2, 2)]) = _
    simp [wantedStep]

theorem queue_many (n : Nat) : ∃ s, Steps ActiveFlush.step (fun _ _ => True) ActiveFlush.start s ∧
    s.outbox.generation = (n + 2) % 2 ^ 64 ∧ s.outbox.inFlight 0 = true ∧
    s.outbox.desired 0 = some ⟨(n + 2) % 2 ^ 64, 2, 2, false⟩ ∧
    s.loops = [⟨0, .sending ⟨1, 1, 1, false⟩⟩] ∧ wanted 0 s.log = some ⟨(2, 2), false, false⟩ := by
  induction n with
  | zero =>
    have hrun : ∃ s, runSteps ActiveFlush.step ActiveFlush.start
        [.queue 0 1 1, .advance 0, .queue 0 2 2] = some s ∧ s.outbox.generation = 2 ∧
        s.outbox.inFlight 0 = true ∧ s.outbox.desired 0 = some ⟨2, 2, 2, false⟩ ∧
        s.loops = [⟨0, .sending ⟨1, 1, 1, false⟩⟩] ∧
        wanted 0 s.log = some ⟨(2, 2), false, false⟩ :=
      ⟨_, rfl, rfl, rfl, rfl, rfl, rfl⟩
    obtain ⟨s, hrun, hrest⟩ := hrun
    exact ⟨s, (Runs.of_run hrun fun _ _ => trivial).steps, hrest⟩
  | succ n ih =>
    obtain ⟨s, hsteps, hgeneration, hflag, -, hloops, -⟩ := ih
    obtain ⟨s', hstep, hgeneration', hflag', hdesired', hloops', hwanted'⟩ :=
      queue_again hloops hflag
    have hnext : (s.outbox.generation + 1) % 2 ^ 64 = (n + 1 + 2) % 2 ^ 64 := by
      rw [hgeneration]
      omega
    rw [hnext] at hgeneration' hdesired'
    exact ⟨s', hsteps.tail trivial hstep, hgeneration', hflag', hdesired', hloops', hwanted'⟩

/-- After `2 ^ 64` choices of a second tab the acknowledgement of the first is taken for theirs: a
snapshot that shows the tab ends what was wanted, before any of their requests is sent. -/
theorem stale_acknowledgement : ∃ s, Steps ActiveFlush.step (fun _ _ => True) ActiveFlush.start s ∧
      (s.outbox.reconcile 0 3 none).2 ≠ answer (wanted 0 s.log) 3 none := by
  obtain ⟨s, hsteps, -, -, hdesired, hloops, hwanted⟩ := queue_many (2 ^ 64 - 1)
  have hsame : (2 ^ 64 - 1 + 2) % 2 ^ 64 = 1 := rfl
  rw [hsame] at hdesired
  -- the request succeeds, and is acknowledged
  let s₁ : ActiveFlush := ⟨s.outbox, [⟨0, .acknowledge ⟨1, 1, 1, false⟩⟩], s.log⟩
  have hstep₁ : s.step (.advance 0) = some s₁ := by
    simp [ActiveFlush.step, ActiveFlush.advance, hloops, s₁]
  let s₂ : ActiveFlush := ⟨s.outbox.acknowledge 0 1, [⟨0, .take⟩], s.log ++ [Entry.acknowledged 0]⟩
  have hstep₂ : s₁.step (.advance 0) = some s₂ := rfl
  let s₃ : ActiveFlush := ⟨((s.outbox.acknowledge 0 1).reconcile 0 2 (some 2)).1, [⟨0, .take⟩],
    s.log ++ [Entry.acknowledged 0] ++ [Entry.snapshot 0 2 (some 2)]⟩
  have hstep₃ : s₂.step (.snapshot 0 2 (some 2)) = some s₃ := rfl
  refine ⟨s₃, ((hsteps.tail trivial hstep₁).tail trivial hstep₂).tail trivial hstep₃, ?_⟩
  have hacknowledged : (s.outbox.acknowledge 0 1).desired 0 = some ⟨1, 2, 2, true⟩ := by
    obtain ⟨-, hspec⟩ := s.outbox.acknowledge_spec 0 1
    rw [(hspec 0).2.2, if_pos rfl, hdesired]
    rfl
  have hdropped : s₃.outbox.desired 0 = none := by
    obtain ⟨-, -, hspec⟩ := (s.outbox.acknowledge 0 1).reconcile_spec 0 2 (some 2)
    rw [show s₃.outbox.desired 0 = _ from (hspec 0).2.2, if_pos rfl, hacknowledged]
    rfl
  have hwanted₃ : wanted 0 s₃.log = some ⟨(2, 2), false, false⟩ := by
    show wanted 0 (s.log ++ [Entry.acknowledged 0] ++ [Entry.snapshot 0 2 (some 2)]) = _
    rw [wanted_concat, wanted_concat, hwanted]
    rfl
  obtain ⟨-, hanswer, -⟩ := s₃.outbox.reconcile_spec 0 3 none
  rw [hanswer, hdropped, hwanted₃]
  simp [answer]

end Wakterm.Client.Theorems.Outbox
