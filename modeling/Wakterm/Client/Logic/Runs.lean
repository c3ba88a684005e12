import Mathlib.Data.List.Pairwise
import Wakterm.Client.Logic.Entries

/-!
# Runs of the client

What is kept along every run: the lines that are shown as up to date were received since the row was
last reported, and a row that waits for an answer waits for one that is still to come.
-/

namespace Wakterm.Client

open Wakterm.Machine Wakterm.Rangeset

variable {Line : Type} (ops : LineOps Line)

/-- Every step of a run meets a condition, which may depend on the steps before. -/
def EachStep (meets : List (Event Line) → World Line → Event Line → Prop)
    (past : List (Event Line)) (w : World Line) : List (Event Line) → Prop
  | [] => True
  | e :: events =>
    meets past w e ∧ ∀ w', w.step ops e = some w' → EachStep meets (past ++ [e]) w' events

/-- The instant that an event has read. -/
def Event.now : Event Line → Option Nat
  | .delta now _ _ _ => some now
  | .getLines now _ _ => some now
  | _ => none

/-- The event is a delta that reports the row: it lists it as dirty, or has a line for it. -/
def Event.Reports (row : Int) : Event Line → Prop
  | .delta _ changes bonusLines _ => Covers changes.dirtyLines row ∨ row ∈ bonusLines.map Prod.fst
  | _ => False

/-- No two events have read the same instant. -/
def DistinctInstants (events : List (Event Line)) : Prop :=
  events.Pairwise fun a b => ∀ now, a.now = some now → b.now ≠ some now

/-- No step after the `p`-th one reports the row. -/
def LastReport (events : List (Event Line)) (row : Int) (p : Nat) : Prop :=
  ∀ d e, events[d]? = some e → e.Reports row → d ≤ p

/-- The line was received as a bonus line of the `p`-th step, or from a fetch that the `p`-th step
has started. -/
def ReceivedAt (events : List (Event Line)) (row : Int) (line : Line) (p : Nat) : Prop :=
  (∃ now delta bonusLines admitted received,
    events[p]? = some (.delta now delta bonusLines admitted) ∧ (row, received) ∈ bonusLines ∧
      line = ops.scanAndCreateHyperlinks received) ∨
  (∃ (c : Nat) (lines : List (Int × Line)) (received : Line) (seqno : Nat), events[c]? = some (.complete p (some lines)) ∧
    (row, received) ∈ lines ∧
    line = ops.updateLastChangeSeqno (ops.scanAndCreateHyperlinks received) seqno)

/-- The line was received by the delta that has reported the row last, or from a fetch that was
started by it or after it. -/
def Fresh (events : List (Event Line)) (row : Int) (line : Line) : Prop :=
  ∃ p, ReceivedAt ops events row line p ∧ LastReport events row p

/-- A fetch was started at this instant, not before the row was last reported. -/
def Asked (events : List (Event Line)) (row : Int) (now : Nat) : Prop :=
  ∃ p e, events[p]? = some e ∧ e.now = some now ∧ LastReport events row p

/-! ## One more event -/

section Past

variable {ops} {past : List (Event Line)} {e : Event Line} {row : Int}

theorem past_get {p : Nat} {a : Event Line} (h : past[p]? = some a) : (past ++ [e])[p]? = some a := by
  obtain ⟨hlt, -⟩ := List.getElem?_eq_some_iff.mp h
  rw [List.getElem?_append_left hlt]
  exact h

theorem past_last : (past ++ [e])[past.length]? = some e := by
  rw [List.getElem?_append_right (Nat.le_refl _), Nat.sub_self]
  rfl

theorem lastReport_last : LastReport (past ++ [e]) row past.length := by
  intro d a hd _
  obtain ⟨hlt, -⟩ := List.getElem?_eq_some_iff.mp hd
  rw [List.length_append] at hlt
  have hone : [e].length = 1 := rfl
  omega

theorem LastReport.snoc {p : Nat} (h : LastReport past row p) (hnot : ¬ e.Reports row) :
    LastReport (past ++ [e]) row p := by
  intro d a hd hreports
  by_cases hlt : d < past.length
  · rw [List.getElem?_append_left hlt] at hd
    exact h d a hd hreports
  · have hlast : d = past.length := by
      obtain ⟨hlt', -⟩ := List.getElem?_eq_some_iff.mp hd
      rw [List.length_append] at hlt'
      have hone : [e].length = 1 := rfl
      omega
    subst hlast
    rw [past_last] at hd
    cases hd
    exact absurd hreports hnot

theorem Fresh.snoc {line : Line} (h : Fresh ops past row line) (hnot : ¬ e.Reports row) :
    Fresh ops (past ++ [e]) row line := by
  obtain ⟨p, hreceived, hlast⟩ := h
  refine ⟨p, ?_, hlast.snoc hnot⟩
  rcases hreceived with ⟨now, delta, bonus, admitted, received, hp, hin, rfl⟩ |
    ⟨c, lines, received, seqno, hc, hin, rfl⟩
  · exact .inl ⟨now, delta, bonus, admitted, received, past_get hp, hin, rfl⟩
  · exact .inr ⟨c, lines, received, seqno, past_get hc, hin, rfl⟩

theorem Asked.snoc {now : Nat} (h : Asked past row now) (hnot : ¬ e.Reports row) :
    Asked (past ++ [e]) row now := by
  obtain ⟨p, a, hp, hnow, hlast⟩ := h
  exact ⟨p, a, past_get hp, hnow, hlast.snoc hnot⟩

theorem DistinctInstants.unique {events : List (Event Line)} (h : DistinctInstants events)
    {i j now : Nat} {a b : Event Line} (hi : events[i]? = some a) (hj : events[j]? = some b)
    (ha : a.now = some now) (hb : b.now = some now) : i = j := by
  obtain ⟨hli, rfl⟩ := List.getElem?_eq_some_iff.mp hi
  obtain ⟨hlj, rfl⟩ := List.getElem?_eq_some_iff.mp hj
  have hpairs := List.pairwise_iff_getElem.mp h
  rcases Nat.lt_trichotomy i j with hlt | heq | hlt
  · exact absurd hb (hpairs i j hli hlj hlt now ha)
  · exact heq
  · exact absurd ha (hpairs j i hlj hli hlt now hb)

end Past

/-! ## Lines are up to date -/

/-- What is known of the client after the events. -/
structure Coherent (past : List (Event Line)) (w : World Line) : Prop where
  steps : w.steps = past.length
  requests : ∀ r ∈ w.requests, ∃ e, past[r.id]? = some e ∧ e.now = some r.start
  asked : ∀ row entry now, w.inner.entry row = some entry → entry.since = some now →
    Asked past row now
  fresh : ∀ row line, w.inner.entry row = some (.line line) → Fresh ops past row line

/-- A fetch that fails gives back only lines that were received since the row was last
reported. -/
def RevertsFresh (past : List (Event Line)) (w : World Line) (e : Event Line) : Prop :=
  ∀ id request row line, e = .complete id none →
    w.requests.find? (fun r => r.id = id) = some request → Covers request.rows.ranges row →
    w.inner.entry row = some (.lineAndFetching line request.start) → Fresh ops past row line

section Coherent

variable {ops} {past : List (Event Line)} {w w' : World Line}

theorem coherent_new (capacity : Nat) (dimensions : RenderableDimensions) :
    Coherent ops [] (World.new capacity dimensions) := by
  refine ⟨rfl, fun r hr => absurd hr List.not_mem_nil, ?_, ?_⟩
  · intro row entry now hentry
    cases hentry
  · intro row line hentry
    cases hentry

variable {inner : RenderableInner Line}

/-- The requests are the same, and every entry is an old one of a row that is not reported, or is
stale. -/
theorem Coherent.quiet (h : Coherent ops past w) {e : Event Line} {requests : List Request}
    (hrequests : ∀ r ∈ requests, r ∈ w.requests) (hnot : ∀ row, ¬ e.Reports row)
    (hentry : ∀ row entry, inner.entry row = some entry →
      (∃ line, entry = .stale line) ∨ w.inner.entry row = some entry) :
    Coherent ops (past ++ [e]) ⟨inner, requests, w.steps + 1⟩ := by
  refine ⟨?_, ?_, ?_, ?_⟩
  · rw [h.steps, List.length_append]
    rfl
  · intro r hr
    obtain ⟨a, ha, hnow⟩ := h.requests r (hrequests r hr)
    exact ⟨a, past_get ha, hnow⟩
  · intro row entry now hrow hsince
    rcases hentry row entry hrow with ⟨line, rfl⟩ | hprior
    · cases hsince
    · exact (h.asked row entry now hprior hsince).snoc (hnot row)
  · intro row line hrow
    rcases hentry row _ hrow with ⟨line', hstale⟩ | hprior
    · cases hstale
    · exact (h.fresh row line hprior).snoc (hnot row)

theorem Coherent.send (h : Coherent ops past w) {e : Event Line} {now : Nat}
    (hnow : e.now = some now) {request : Option (RangeSet Int)}
    (hentry : ∀ row entry, inner.entry row = some entry →
      (∃ line, entry = .line line ∧ Fresh ops (past ++ [e]) row line) ∨
      entry.since = some now ∨ (∃ line, entry = .stale line) ∨
      (w.inner.entry row = some entry ∧ ¬ e.Reports row)) :
    Coherent ops (past ++ [e]) (w.send inner now request) := by
  have hlength : (past ++ [e]).length = past.length + 1 := List.length_append
  have hsame : (w.send inner now request).inner = inner ∧
      (w.send inner now request).steps = w.steps + 1 := by
    unfold World.send
    cases request with
    | none => exact ⟨rfl, rfl⟩
    | some rows => exact ⟨rfl, rfl⟩
  refine ⟨?_, ?_, ?_, ?_⟩
  · rw [hsame.2, h.steps, hlength]
  · intro r hr
    have hold : r ∈ w.requests → ∃ a, (past ++ [e])[r.id]? = some a ∧ a.now = some r.start := by
      intro hin
      obtain ⟨a, ha, hstart⟩ := h.requests r hin
      exact ⟨a, past_get ha, hstart⟩
    cases request with
    | none => exact hold hr
    | some rows =>
      rcases List.mem_cons.mp hr with rfl | hr
      · refine ⟨e, ?_, hnow⟩
        show (past ++ [e])[w.steps]? = some e
        rw [h.steps]
        exact past_last
      · exact hold hr
  · rw [hsame.1]
    intro row entry since hrow hsince
    rcases hentry row entry hrow with ⟨line, rfl, -⟩ | hmarked | ⟨line, rfl⟩ | ⟨hprior, hnot⟩
    · cases hsince
    · cases hsince.symm.trans hmarked
      exact ⟨past.length, e, past_last, hnow, lastReport_last⟩
    · cases hsince
    · exact (h.asked row entry since hprior hsince).snoc hnot
  · rw [hsame.1]
    intro row line hrow
    rcases hentry row _ hrow with ⟨line', hline, hfresh⟩ | hmarked | ⟨line', hstale⟩ |
      ⟨hprior, hnot⟩
    · obtain rfl := LineEntry.line.inj hline
      exact hfresh
    · cases hmarked
    · cases hstale
    · exact (h.fresh row line hprior).snoc hnot

/-- **One step** keeps the lines up to date, if a failed fetch gives back no line that is not. -/
theorem Coherent.step (h : Coherent ops past w) {e : Event Line} (hstep : w.step ops e = some w')
    (hinstants : DistinctInstants (past ++ [e])) (hreverts : RevertsFresh ops past w e) :
    Coherent ops (past ++ [e]) w' := by
  cases e with
  | delta now delta bonusLines admitted =>
    obtain ⟨⟨inner, request⟩, happly, hw⟩ := Option.bind_eq_some_iff.mp hstep
    cases hw
    refine h.send rfl ?_
    intro row entry hrow
    rcases RenderableInner.applyChanges_entry happly hrow with
      ⟨line, hin, rfl⟩ | ⟨hsince, -⟩ | hstale | ⟨hprior, hclean, hnot⟩
    · refine .inl ⟨_, rfl, past.length, .inl ⟨now, delta, bonusLines, admitted, line, past_last,
        hin, rfl⟩, lastReport_last⟩
    · exact .inr (.inl hsince)
    · exact .inr (.inr (.inl hstale))
    · refine .inr (.inr (.inr ⟨hprior, ?_⟩))
      rintro (hlisted | hbonus)
      · exact hclean hlisted
      · exact hnot hbonus
  | getLines now lines lag =>
    obtain ⟨⟨inner, request, shown⟩, hget, hw⟩ := Option.bind_eq_some_iff.mp hstep
    cases hw
    refine h.send rfl ?_
    intro row entry hrow
    rcases RenderableInner.getLines_entry hget hrow with hprior | hstale | ⟨hsince, -⟩
    · exact .inr (.inr (.inr ⟨hprior, not_false⟩))
    · exact .inr (.inr (.inl hstale))
    · exact .inr (.inl hsince)
  | getChangedSince lines seqno late =>
    obtain ⟨⟨inner, rows⟩, hget, hw⟩ := Option.bind_eq_some_iff.mp hstep
    cases hw
    refine h.quiet (fun _ hr => hr) (fun _ => not_false) ?_
    intro row entry hrow
    exact .inr (RenderableInner.getChangedSince_entry hget hrow)
  | complete id result =>
    obtain ⟨request, hfind, hw⟩ := Option.bind_eq_some_iff.mp hstep
    cases hw
    obtain ⟨a, ha, hstart⟩ := h.requests request (List.mem_of_find?_eq_some hfind)
    have hid : request.id = id := by simpa using List.find?_some hfind
    have hfewer : ∀ r ∈ w.requests.filter (fun r => r.id ≠ id), r ∈ w.requests :=
      fun r hr => (List.mem_filter.mp hr).1
    have hlength : (past ++ [Event.complete id result]).length = past.length + 1 :=
      List.length_append
    -- what the answer puts there, and what it leaves
    have hcases : ∀ row entry, (w.inner.applyLines ops result request.rows request.start).entry
        row = some entry → (∃ line, entry = .line line ∧
          Fresh ops (past ++ [Event.complete id result]) row line) ∨
        w.inner.entry row = some entry := by
      intro row entry hrow
      cases result with
      | some lines =>
        rcases RenderableInner.answered_entry hrow with
          ⟨line, seqno, old, hin, rfl, hold, hsince⟩ | ⟨hprior, -⟩
        · obtain ⟨p, b, hp, hnow, hlast⟩ := h.asked row old request.start hold hsince
          -- the fetch that is answered is the one that has marked the row
          have hsame : p = id := by
            rw [← hid]
            exact hinstants.unique (past_get hp) (past_get ha) hnow hstart
          subst hsame
          exact .inl ⟨_, rfl, p, .inr ⟨past.length, lines, line, seqno, past_last, hin, rfl⟩,
            hlast.snoc not_false⟩
        · exact .inr hprior
      | none =>
        rcases RenderableInner.failed_entry hrow with ⟨hin, line, rfl, hold⟩ | ⟨hprior, -⟩
        · refine .inl ⟨line, rfl, ?_⟩
          exact (hreverts id request row line rfl hfind (RangeSet.mem_iterValues.mp hin)
            hold).snoc not_false
        · exact .inr hprior
    refine ⟨?_, ?_, ?_, ?_⟩
    · show w.steps + 1 = _
      rw [h.steps, hlength]
    · intro r hr
      obtain ⟨b, hb, hnow⟩ := h.requests r (hfewer r hr)
      exact ⟨b, past_get hb, hnow⟩
    · intro row entry now hrow hsince
      rcases hcases row entry hrow with ⟨line, rfl, -⟩ | hprior
      · cases hsince
      · exact (h.asked row entry now hprior hsince).snoc not_false
    · intro row line hrow
      rcases hcases row _ hrow with ⟨line', hline, hfresh⟩ | hprior
      · obtain rfl := LineEntry.line.inj hline
        exact hfresh
      · exact (h.fresh row line hprior).snoc not_false
  | makeAllStale =>
    cases hstep
    exact h.quiet (fun _ hr => hr) (fun _ => not_false) fun row entry hrow =>
      RenderableInner.makeAllStale_entry hrow
  | resize cols rows pixelWidth pixelHeight =>
    cases hstep
    exact h.quiet (fun _ hr => hr) (fun _ => not_false) fun row entry hrow =>
      RenderableInner.resize_entry hrow
  | setDead dead =>
    cases hstep
    exact h.quiet (fun _ hr => hr) (fun _ => not_false) fun row entry hrow => .inr hrow
  | keyPress inputSerial =>
    cases hstep
    exact h.quiet (fun _ hr => hr) (fun _ => not_false) fun row entry hrow => .inr hrow

/-- **A run** keeps the lines up to date. -/
theorem Coherent.run {events : List (Event Line)} (h : Coherent ops past w)
    (hrun : w.run ops events = some w') (hinstants : DistinctInstants (past ++ events))
    (hreverts : EachStep ops (RevertsFresh ops) past w events) :
    Coherent ops (past ++ events) w' := by
  induction events generalizing past w with
  | nil =>
    cases hrun
    rw [List.append_nil]
    exact h
  | cons e events ih =>
    unfold World.run at hrun
    rw [List.foldlM_cons] at hrun
    obtain ⟨w₁, hstep, hrest⟩ := Option.bind_eq_some_iff.mp hrun
    obtain ⟨hfirst, hlater⟩ := hreverts
    have happend : past ++ e :: events = past ++ [e] ++ events := by
      rw [List.append_assoc]
      rfl
    rw [happend] at hinstants ⊢
    have hprefix : DistinctInstants (past ++ [e]) :=
      List.Pairwise.sublist (List.sublist_append_left _ _) hinstants
    exact ih (h.step hstep hprefix hfirst) hrest hinstants (hlater w₁ hstep)

end Coherent

/-! ## No row waits for nothing -/

/-- A row that waits for a fetch waits for a request that was started then, covers the row and is
not completed. -/
def Awaited (w : World Line) : Prop :=
  ∀ row entry now, w.inner.entry row = some entry → entry.since = some now →
    ∃ r ∈ w.requests, r.start = now ∧ Covers r.rows.ranges row

/-- The rows that a step marks are asked for, and those that an answer leaves out are not marked.
While the pane is dead, no row of the viewport is left dirty by a delta that the rate limiter
admits, and no row is rendered that has no entry or a stale one. An answer has a line for every row
of its request that still waits for it. -/
def Attends (w : World Line) : Event Line → Prop
  | .delta _ changes bonusLines admitted => w.inner.dead = true → admitted = true →
      ∀ dirty row, w.inner.leftDirty changes bonusLines = some dirty → Covers dirty.ranges row →
        row < changes.dimensions.physicalTop
  | .getLines _ lines _ => w.inner.dead = true → ∀ row, lines.start ≤ row → row < lines.stop →
      ∃ entry, w.inner.entry row = some entry ∧ ∀ line, entry ≠ .stale line
  | .complete id (some lines) => ∀ request row entry,
      w.requests.find? (fun r => r.id = id) = some request → Covers request.rows.ranges row →
      w.inner.entry row = some entry → entry.since = some request.start →
      row ∈ lines.map Prod.fst
  | _ => True

/-- The requests are told apart by their numbers, and no row waits for nothing. -/
structure Waiting (w : World Line) : Prop where
  earlier : ∀ r ∈ w.requests, r.id < w.steps
  distinct : w.requests.Pairwise fun a b => a.id ≠ b.id
  awaited : Awaited w

section Waiting

variable {ops} {w w' : World Line}

theorem waiting_new (capacity : Nat) (dimensions : RenderableDimensions) :
    Waiting (World.new capacity dimensions : World Line) := by
  refine ⟨fun r hr => absurd hr List.not_mem_nil, List.Pairwise.nil, ?_⟩
  intro row entry now hentry
  cases hentry

theorem Waiting.unique (h : Waiting w) {id : Nat} {request r : Request}
    (hfind : w.requests.find? (fun r => r.id = id) = some request) (hr : r ∈ w.requests)
    (hid : r.id = id) : r = request := by
  have hsame : request.id = id := by simpa using List.find?_some hfind
  by_contra hne
  have hsymm : Std.Symm fun a b : Request => a.id ≠ b.id := ⟨fun _ _ h => Ne.symm h⟩
  exact h.distinct.forall hr (List.mem_of_find?_eq_some hfind) hne (hid.trans hsame.symm)

variable {inner : RenderableInner Line}

theorem Waiting.quiet (h : Waiting w) (hentry : ∀ row entry, inner.entry row = some entry →
      (∃ line, entry = .stale line) ∨ w.inner.entry row = some entry) :
    Waiting (⟨inner, w.requests, w.steps + 1⟩ : World Line) := by
  refine ⟨fun r hr => Nat.lt_succ_of_lt (h.earlier r hr), h.distinct, ?_⟩
  intro row entry now hrow hsince
  rcases hentry row entry hrow with ⟨line, rfl⟩ | hprior
  · cases hsince
  · exact h.awaited row entry now hprior hsince

theorem Waiting.send (h : Waiting w) {now : Nat} {request : Option (RangeSet Int)}
    (hentry : ∀ row entry, inner.entry row = some entry → entry.since = none ∨
      (entry.since = some now ∧ ∃ rows, request = some rows ∧ Covers rows.ranges row) ∨
      w.inner.entry row = some entry) : Waiting (w.send inner now request) := by
  cases request with
  | none =>
    refine ⟨fun r hr => Nat.lt_succ_of_lt (h.earlier r hr), h.distinct, ?_⟩
    intro row entry since hrow hsince
    rcases hentry row entry hrow with hnone | ⟨-, rows, hrows, -⟩ | hprior
    · rw [hnone] at hsince
      cases hsince
    · cases hrows
    · exact h.awaited row entry since hprior hsince
  | some rows =>
    refine ⟨?_, ?_, ?_⟩
    · intro r hr
      rcases List.mem_cons.mp hr with rfl | hr
      · exact Nat.lt_succ_self _
      · exact Nat.lt_succ_of_lt (h.earlier r hr)
    · refine List.pairwise_cons.mpr ⟨?_, h.distinct⟩
      intro r hr
      exact Nat.ne_of_gt (h.earlier r hr)
    · intro row entry since hrow hsince
      rcases hentry row entry hrow with hnone | ⟨hmarked, rows', hrows, hcovers⟩ | hprior
      · rw [hnone] at hsince
        cases hsince
      · cases hrows
        cases hsince.symm.trans hmarked
        exact ⟨_, List.mem_cons_self, rfl, hcovers⟩
      · obtain ⟨r, hr, hstart, hcovers⟩ := h.awaited row entry since hprior hsince
        exact ⟨r, List.mem_cons_of_mem _ hr, hstart, hcovers⟩

theorem Waiting.completed (h : Waiting w) {id : Nat} {request : Request}
    (hfind : w.requests.find? (fun r => r.id = id) = some request)
    (hentry : ∀ row entry, inner.entry row = some entry → (∃ line, entry = .line line) ∨
      (w.inner.entry row = some entry ∧
        (Covers request.rows.ranges row → entry.since ≠ some request.start))) :
    Waiting (⟨inner, w.requests.filter (fun r => r.id ≠ id), w.steps + 1⟩ : World Line) := by
  refine ⟨?_, h.distinct.filter _, ?_⟩
  · intro r hr
    exact Nat.lt_succ_of_lt (h.earlier r (List.mem_filter.mp hr).1)
  · intro row entry now hrow hsince
    rcases hentry row entry hrow with ⟨line, rfl⟩ | ⟨hprior, hdone⟩
    · cases hsince
    · obtain ⟨r, hr, hstart, hcovers⟩ := h.awaited row entry now hprior hsince
      refine ⟨r, List.mem_filter.mpr ⟨hr, ?_⟩, hstart, hcovers⟩
      rw [decide_eq_true_iff]
      intro hid
      obtain rfl := h.unique hfind hr hid
      exact hdone hcovers (hstart ▸ hsince)

/-- **One step** leaves no row waiting for nothing, if it attends to what it marks. -/
theorem Waiting.step (h : Waiting w) {e : Event Line} (hstep : w.step ops e = some w')
    (hattends : Attends w e) : Waiting w' := by
  cases e with
  | delta now delta bonusLines admitted =>
    obtain ⟨⟨inner, request⟩, happly, hw⟩ := Option.bind_eq_some_iff.mp hstep
    cases hw
    refine h.send ?_
    intro row entry hrow
    rcases RenderableInner.applyChanges_entry happly hrow with ⟨line, -, rfl⟩ |
      ⟨hsince, hadmitted, ⟨dirty, hdirty, hcovers⟩, htop, hlive⟩ | ⟨line, rfl⟩ | ⟨hprior, -⟩
    · exact .inl rfl
    · cases hdead : w.inner.dead with
      | false => exact .inr (.inl ⟨hsince, hlive hdead⟩)
      | true =>
        have habove := hattends hdead hadmitted dirty row hdirty hcovers
        omega
    · exact .inl rfl
    · exact .inr (.inr hprior)
  | getLines now lines lag =>
    obtain ⟨⟨inner, request, shown⟩, hget, hw⟩ := Option.bind_eq_some_iff.mp hstep
    cases hw
    refine h.send ?_
    intro row entry hrow
    cases hdead : w.inner.dead with
    | false =>
      rcases RenderableInner.getLines_entry hget hrow with hprior | ⟨line, rfl⟩ |
        ⟨hsince, hlive⟩
      · exact .inr (.inr hprior)
      · exact .inl rfl
      · exact .inr (.inl ⟨hsince, hlive hdead⟩)
    | true =>
      -- nothing is marked
      obtain ⟨⟨inner₁, toFetch, result⟩, hrows, h1⟩ := Option.bind_eq_some_iff.mp hget
      obtain ⟨rfl, -⟩ := Prod.mk.inj (Option.some.inj h1)
      have hnodup := RangeSet.numRange_nodup lines.start lines.stop
      have hentries := RenderableInner.renderRows_unmarked hrows hnodup ?_ hrow
      · rcases hentries with hprior | ⟨line, rfl⟩
        · exact .inr (.inr hprior)
        · exact .inl rfl
      · intro row' hin
        obtain ⟨hlow, hhigh⟩ := RangeSet.mem_numRange.mp hin
        exact hattends hdead row' hlow hhigh
  | getChangedSince lines seqno late =>
    obtain ⟨⟨inner, rows⟩, hget, hw⟩ := Option.bind_eq_some_iff.mp hstep
    cases hw
    exact h.quiet fun row entry hrow =>
      .inr (RenderableInner.getChangedSince_entry hget hrow)
  | complete id result =>
    obtain ⟨request, hfind, hw⟩ := Option.bind_eq_some_iff.mp hstep
    cases hw
    refine h.completed hfind ?_
    intro row entry hrow
    cases result with
    | some lines =>
      rcases RenderableInner.answered_entry hrow with
        ⟨line, seqno, old, -, rfl, -⟩ | ⟨hprior, hdone⟩
      · exact .inl ⟨_, rfl⟩
      · refine .inr ⟨hprior, ?_⟩
        intro hcovers hsince
        exact hdone (hattends request row entry hfind hcovers hprior hsince) hsince
    | none =>
      rcases RenderableInner.failed_entry hrow with ⟨-, line, rfl, -⟩ | ⟨hprior, hdone⟩
      · exact .inl ⟨_, rfl⟩
      · exact .inr ⟨hprior, fun hcovers => hdone (RangeSet.mem_iterValues.mpr hcovers)⟩
  | makeAllStale =>
    cases hstep
    exact h.quiet fun row entry hrow => RenderableInner.makeAllStale_entry hrow
  | resize cols rows pixelWidth pixelHeight =>
    cases hstep
    exact h.quiet fun row entry hrow => RenderableInner.resize_entry hrow
  | setDead dead =>
    cases hstep
    exact h.quiet fun row entry hrow => .inr hrow
  | keyPress inputSerial =>
    cases hstep
    exact h.quiet fun row entry hrow => .inr hrow

/-- **A run** leaves no row waiting for nothing. -/
theorem Waiting.run {past events : List (Event Line)} (h : Waiting w)
    (hrun : w.run ops events = some w')
    (hattends : EachStep ops (fun _ => Attends) past w events) : Waiting w' := by
  induction events generalizing past w with
  | nil =>
    cases hrun
    exact h
  | cons e events ih =>
    unfold World.run at hrun
    rw [List.foldlM_cons] at hrun
    obtain ⟨w₁, hstep, hrest⟩ := Option.bind_eq_some_iff.mp hrun
    exact ih (h.step hstep hattends.1) hrest (hattends.2 w₁ hstep)

end Waiting

end Wakterm.Client
