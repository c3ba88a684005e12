import Wakterm.Agent.Logic.Schedule
import Wakterm.Machine.Steps

/-!
# Turns in the events of a provider

`Bracketed` is what a consumer of the events relies on: a `TurnFinal` names the turn that was
started last, and no turn is ended more often than it was started.
-/

namespace Wakterm.Agent

open Wakterm.Machine

/-- The event starts the turn. -/
def Begins (turn : String) (e : PendingEvent) : Prop :=
  e.kind = .turnStarted ∧ e.turnId = some turn

/-- The event ends the turn. -/
def Ends (turn : String) (e : PendingEvent) : Prop :=
  e.kind = .turnFinal ∧ e.turnId = some turn

instance (turn : String) (e : PendingEvent) : Decidable (Begins turn e) :=
  inferInstanceAs (Decidable (_ ∧ _))

instance (turn : String) (e : PendingEvent) : Decidable (Ends turn e) :=
  inferInstanceAs (Decidable (_ ∧ _))

/-- How often the turn is started, and how often it is ended. -/
def starts (turn : String) (events : List PendingEvent) : Nat :=
  events.countP fun e => decide (Begins turn e)

def finals (turn : String) (events : List PendingEvent) : Nat :=
  events.countP fun e => decide (Ends turn e)

/-- Each end names a turn that was started earlier, with no other start in between, and no turn
has more ends than starts. -/
structure Bracketed (events : List PendingEvent) : Prop where
  begun : ∀ i e, At events i e → e.kind = .turnFinal → ∃ turn, Ends turn e ∧
    ∃ j s, j < i ∧ At events j s ∧ Begins turn s ∧
      ∀ k x, j < k → k < i → At events k x → x.kind ≠ .turnStarted
  balanced : ∀ turn, finals turn events ≤ starts turn events

theorem Bracketed.named {events : List PendingEvent} (h : Bracketed events) {e : PendingEvent}
    (he : e ∈ events) (hkind : e.kind = .turnFinal) : e.turnId ≠ none := by
  obtain ⟨i, hi⟩ := List.mem_iff_getElem?.mp he
  obtain ⟨turn, hends, -⟩ := h.begun i e hi hkind
  rw [hends.2]
  simp

/-- The turn was started, nothing was started since, and it is owed an end. -/
structure Owed (turn : String) (events : List PendingEvent) : Prop where
  latest : ∃ j s, At events j s ∧ Begins turn s ∧
    ∀ k x, j < k → At events k x → x.kind ≠ .turnStarted
  unended : finals turn events < starts turn events

/-- Bracketed so far, and the open turn is owed its end. -/
structure Turns (openTurn : Option String) (events : List PendingEvent) : Prop where
  bracketed : Bracketed events
  owed : ∀ turn, openTurn = some turn → Owed turn events

variable {events : List PendingEvent} {openTurn : Option String} {e : PendingEvent}

theorem turns_nil : Turns none [] := by
  refine ⟨⟨?_, ?_⟩, ?_⟩
  · intro i e h
    exact absurd h at_nil
  · intro turn
    exact Nat.le_refl 0
  · intro turn h
    cases h

/-- An event that neither starts nor ends a turn. -/
def Quiet (e : PendingEvent) : Prop := e.kind ≠ .turnStarted ∧ e.kind ≠ .turnFinal

theorem starts_concat (turn : String) :
    starts turn (events ++ [e]) = starts turn events + if Begins turn e then 1 else 0 := by
  simp [starts, List.countP_append, List.countP_cons]

theorem finals_concat (turn : String) :
    finals turn (events ++ [e]) = finals turn events + if Ends turn e then 1 else 0 := by
  simp [finals, List.countP_append, List.countP_cons]

theorem Bracketed.begun_concat (h : Bracketed events) {i : Nat} {f : PendingEvent}
    (hf : At events i f) (hkind : f.kind = .turnFinal) (e : PendingEvent) :
    ∃ turn, Ends turn f ∧ ∃ j s, j < i ∧ At (events ++ [e]) j s ∧ Begins turn s ∧
      ∀ k x, j < k → k < i → At (events ++ [e]) k x → x.kind ≠ .turnStarted := by
  obtain ⟨turn, hends, j, s, hj, hs, hbegins, hbetween⟩ := h.begun i f hf hkind
  refine ⟨turn, hends, j, s, hj, hs.concat e, hbegins, ?_⟩
  intro k x hjk hki hx
  rcases at_concat.mp hx with hx | ⟨rfl, -⟩
  · exact hbetween k x hjk hki hx
  · exact absurd hf.lt (by omega)

variable {turn : String} {more : List PendingEvent}

theorem Owed.concat (h : Owed turn events) (hstart : e.kind ≠ .turnStarted) (hend : ¬ Ends turn e) :
    Owed turn (events ++ [e]) := by
  obtain ⟨j, s, hs, hbegins, hafter⟩ := h.latest
  refine ⟨⟨j, s, hs.concat e, hbegins, ?_⟩, ?_⟩
  · intro k x hk hx
    rcases at_concat.mp hx with hx | ⟨-, rfl⟩
    · exact hafter k x hk hx
    · exact hstart
  · rw [starts_concat, finals_concat, if_neg hend]
    have := h.unended
    omega

theorem Turns.quiet (h : Turns openTurn events) (he : Quiet e) :
    Turns openTurn (events ++ [e]) := by
  have hends : ∀ turn, ¬ Ends turn e := fun turn hends => he.2 hends.1
  refine ⟨⟨?_, ?_⟩, ?_⟩
  · intro i f hf hkind
    rcases at_concat.mp hf with hf | ⟨-, rfl⟩
    · exact h.bracketed.begun_concat hf hkind e
    · exact absurd hkind he.2
  · intro turn
    rw [starts_concat, finals_concat, if_neg (hends turn)]
    have := h.bracketed.balanced turn
    omega
  · intro turn hopen
    exact (h.owed turn hopen).concat he.1 (hends turn)

theorem Turns.quiets (h : Turns openTurn events) (hmore : ∀ e ∈ more, Quiet e) :
    Turns openTurn (events ++ more) := by
  induction more generalizing events with
  | nil =>
    rw [List.append_nil]
    exact h
  | cons e more ih =>
    rw [List.append_cons]
    exact ih (h.quiet (hmore e List.mem_cons_self)) fun x hx => hmore x (List.mem_cons_of_mem _ hx)

theorem Turns.start (h : Turns openTurn events) (he : Begins turn e) :
    Turns (some turn) (events ++ [e]) := by
  have hkind : e.kind ≠ .turnFinal := by
    rw [he.1]
    simp
  have hends : ∀ turn, ¬ Ends turn e := fun turn hends => hkind hends.1
  refine ⟨⟨?_, ?_⟩, ?_⟩
  · intro i f hf hfinal
    rcases at_concat.mp hf with hf | ⟨-, rfl⟩
    · exact h.bracketed.begun_concat hf hfinal e
    · exact absurd hfinal hkind
  · intro t
    rw [starts_concat, finals_concat, if_neg (hends t)]
    have := h.bracketed.balanced t
    omega
  · intro t ht
    cases ht
    refine ⟨⟨events.length, e, at_concat.mpr (.inr ⟨rfl, rfl⟩), he, ?_⟩, ?_⟩
    · intro k x hk hx
      have := hx.lt
      simp at this
      omega
    · rw [starts_concat, finals_concat, if_neg (hends turn), if_pos he]
      have := h.bracketed.balanced turn
      omega

theorem Turns.finish (h : Turns (some turn) events) (he : Ends turn e) :
    Turns none (events ++ [e]) := by
  have hkind : e.kind ≠ .turnStarted := by
    rw [he.1]
    simp
  have howed := h.owed turn rfl
  refine ⟨⟨?_, ?_⟩, ?_⟩
  · intro i f hf hfinal
    rcases at_concat.mp hf with hf | ⟨rfl, rfl⟩
    · exact h.bracketed.begun_concat hf hfinal e
    · -- the end that is added: its turn was started last
      obtain ⟨j, s, hs, hbegins, hafter⟩ := howed.latest
      refine ⟨turn, he, j, s, hs.lt, hs.concat f, hbegins, ?_⟩
      intro k x hjk hki hx
      rcases at_concat.mp hx with hx | ⟨rfl, -⟩
      · exact hafter k x hjk hx
      · exact absurd hki (Nat.lt_irrefl _)
  · intro t
    rw [starts_concat, finals_concat]
    by_cases ht : Ends t e
    · obtain rfl : turn = t := Option.some.inj (he.2.symm.trans ht.2)
      have := howed.unended
      rw [if_pos he]
      omega
    · rw [if_neg ht]
      have := h.bracketed.balanced t
      omega
  · intro t ht
    cases ht

/-- The visitor over records, each with the time it is read at and its offset. -/
def Visitor.run (visit : Visitor) (c : JsonlCursor) :
    List (DateTime × Nat × Json) → JsonlCursor × List PendingEvent
  | [] => (c, [])
  | (now, offset, record) :: records =>
    let (c, events) := visit now offset record c
    let (c, more) := Visitor.run visit c records
    (c, events ++ more)

theorem Turns.run {visit : Visitor} {records : List (DateTime × Nat × Json)} {c : JsonlCursor}
    (Meets : JsonlCursor → List (DateTime × Nat × Json) → Prop)
    (hnext : ∀ c now offset record rest, Meets c ((now, offset, record) :: rest) →
      Meets (visit now offset record c).1 rest)
    (hstep : ∀ c events now offset record rest, Meets c ((now, offset, record) :: rest) →
      Turns c.openTurn events →
      Turns (visit now offset record c).1.openTurn (events ++ (visit now offset record c).2))
    (hmeets : Meets c records) (h : Turns c.openTurn events) :
    Turns (visit.run c records).1.openTurn (events ++ (visit.run c records).2) := by
  induction records generalizing c events with
  | nil =>
    rw [Visitor.run, List.append_nil]
    exact h
  | cons r records ih =>
    obtain ⟨now, offset, record⟩ := r
    rw [Visitor.run]
    dsimp only
    rw [← List.append_assoc]
    exact ih (hnext c now offset record records hmeets)
      (hstep c events now offset record records hmeets h)

theorem openTurn_of_closed {c : JsonlCursor} (h : c.turnOpen = false) : c.openTurn = none := by
  unfold JsonlCursor.openTurn
  rw [h]
  cases c.currentTurnId <;> rfl

theorem quiet_observerFailure (key : String) (time : DateTime) (turn : Option String)
    (detail : String) : Quiet (observerFailure key time turn detail) := by
  constructor <;> simp [observerFailure, PendingEvent.new]

theorem quiet_inputAccepted (key : String) (time : DateTime) (turn : Option String)
    (sha256 : String) : Quiet (inputAccepted key time turn sha256) := by
  constructor <;> simp [inputAccepted, PendingEvent.new]

theorem quiet_turnState (key : String) (time : DateTime) (turn : Option String) (state : String) :
    Quiet (turnState key time turn state) := by
  constructor <;> simp [turnState, PendingEvent.new]

theorem quiet_assistantMessage (key : String) (time : DateTime) (turn : Option String)
    (text : String) : Quiet (assistantMessage key time turn text) := by
  constructor <;> simp [assistantMessage, PendingEvent.new]

theorem Turns.opening (h : Turns openTurn events) (key : String) (time : DateTime) (turn : String)
    (sha256 : Option String) (hmore : ∀ e ∈ more, Quiet e) :
    Turns (some turn) (events ++ turnStarted key time turn sha256 :: more) := by
  rw [List.append_cons]
  exact (h.start ⟨rfl, rfl⟩).quiets hmore

theorem Turns.closing (h : Turns (some turn) events) (key : String) (time : DateTime)
    (completed : Bool) (text : Option String) (hmore : ∀ e ∈ more, Quiet e) :
    Turns none (events ++ turnFinal key time (some turn) completed text :: more) := by
  rw [List.append_cons]
  exact (h.finish ⟨rfl, rfl⟩).quiets hmore

section Agy

variable (env : Env)

theorem turns_agyUserInput (key : String) (time : DateTime) (record : Json) (c : JsonlCursor)
    (h : Turns c.openTurn events) : Turns (agyUserInput env key time record c).1.openTurn
      (events ++ (agyUserInput env key time record c).2) := by
  unfold agyUserInput
  cases agyTurnId c.sourceId record with
  | none => exact h.quiet (quiet_observerFailure _ _ _ _)
  | some turn =>
    refine h.opening key time turn _ ?_
    intro e he
    rcases List.mem_append.mp he with he | he
    · obtain ⟨sha256, -, rfl⟩ := Option.map_eq_some_iff.mp (Option.mem_toList.mp he)
      exact quiet_inputAccepted _ _ _ _
    · obtain rfl := List.mem_singleton.mp he
      exact quiet_turnState _ _ _ _

theorem turns_agyPlannerResponse (key : String) (time : DateTime) (record : Json)
    (c : JsonlCursor) (h : Turns c.openTurn events) :
    Turns (agyPlannerResponse key time record c).1.openTurn
      (events ++ (agyPlannerResponse key time record c).2) := by
  unfold agyPlannerResponse
  split
  · next turn text hturn _ =>
    dsimp only
    split
    · next hends =>
      rw [Bool.and_eq_true] at hends
      have hopen : c.openTurn = some turn := by
        rw [JsonlCursor.openTurn, hturn, hends.2]
        rfl
      rw [hopen] at h
      have hclosed : ({ c with lastAssistantText := some text, turnOpen := false } :
          JsonlCursor).openTurn = none := openTurn_of_closed rfl
      rw [hclosed, List.append_cons]
      refine (h.quiet (quiet_assistantMessage _ _ _ _)).closing key time true _ ?_
      intro e he
      obtain rfl := List.mem_singleton.mp he
      exact quiet_turnState _ _ _ _
    · exact h.quiet (quiet_assistantMessage _ _ _ _)
  · rw [List.append_nil]
    exact h

theorem turns_agyVisit (c : JsonlCursor) (now : DateTime) (offset : Nat) (record : Json)
    (h : Turns c.openTurn events) : Turns (agyVisit env now offset record c).1.openTurn
      (events ++ (agyVisit env now offset record c).2) := by
  unfold agyVisit
  dsimp only
  split_ifs
  · exact turns_agyUserInput env _ _ record c h
  · exact turns_agyPlannerResponse _ _ record c h
  · rw [List.append_nil]
    exact h

end Agy

section Muse

variable (env : Env) (approvable : Bool)

/-- The run that a record is the end of. -/
def Muse.Record.terminated : Muse.Record → Option String
  | .terminal runId _ => some runId
  | _ => none

/-- The end of a run that was steered into a turn, read when that turn is closed and nothing
waits in the queue. -/
def StrayTerminal (c : JsonlCursor) (record : Json) : Prop :=
  ∃ runId ∈ (Muse.parse record).bind Muse.Record.terminated,
    c.openTurn = none ∧ runId ∈ c.steerRuns ∧ c.queuedSteers = []

instance (c : JsonlCursor) (record : Json) : Decidable (StrayTerminal c record) :=
  inferInstanceAs (Decidable (∃ runId ∈ (Muse.parse record).bind Muse.Record.terminated,
    c.openTurn = none ∧ runId ∈ c.steerRuns ∧ c.queuedSteers = []))

/-- No such end is among the records. -/
def NoStray (c : JsonlCursor) : List (DateTime × Nat × Json) → Prop
  | [] => True
  | (now, offset, record) :: records =>
    ¬ StrayTerminal c record ∧ NoStray (museVisit env approvable now offset record c).1 records

/-- Whether records hold such an end can be computed. -/
def NoStray.decide : ∀ (records : List (DateTime × Nat × Json)) (c : JsonlCursor),
    Decidable (NoStray env approvable c records)
  | [], _ => isTrue trivial
  | (now, offset, record) :: records, c =>
    have := NoStray.decide records (museVisit env approvable now offset record c).1
    inferInstanceAs (Decidable (¬ StrayTerminal c record ∧
      NoStray env approvable (museVisit env approvable now offset record c).1 records))

instance (c : JsonlCursor) (records : List (DateTime × Nat × Json)) :
    Decidable (NoStray env approvable c records) := NoStray.decide env approvable records c

theorem turns_museRecord (c : JsonlCursor) (key : String) (time : DateTime) (parsed : Muse.Record)
    (hstray : ∀ runId completed, parsed = .terminal runId completed → c.openTurn = none →
      runId ∈ c.steerRuns → c.queuedSteers ≠ []) (h : Turns c.openTurn events) :
    Turns (museRecord env approvable key time c parsed).1.openTurn
      (events ++ (museRecord env approvable key time c parsed).2) := by
  have hsame : Turns c.openTurn (events ++ []) := by
    rw [List.append_nil]
    exact h
  cases parsed with
  | input intentId text =>
    rw [museRecord]
    cases hopen : c.openTurn with
    | some turn =>
      dsimp only
      rw [hopen] at h ⊢
      exact h.quiet (quiet_inputAccepted _ _ _ _)
    | none =>
      refine h.opening key time intentId _ ?_
      intro e he
      rcases List.mem_cons.mp he with rfl | he
      · exact quiet_inputAccepted _ _ _ _
      · obtain rfl := List.mem_singleton.mp he
        exact quiet_turnState _ _ _ _
  | assistant runId text =>
    rw [museRecord]
    split_ifs
    · exact hsame
    · exact h.quiet (quiet_assistantMessage _ _ _ _)
    · exact hsame
  | terminal runId completed =>
    rw [museRecord]
    split
    · next hends =>
      rw [Bool.and_eq_true, List.isEmpty_iff] at hends
      cases hopen : c.openTurn with
      | none =>
        -- the run is owned by no open turn, so it was steered
        have howns := hends.1
        rw [JsonlCursor.owns, hopen] at howns
        have hmem : runId ∈ c.steerRuns := by simpa using howns
        exact absurd hends.2 (hstray runId completed rfl hopen hmem)
      | some turn =>
        rw [hopen] at h
        have hclosed : ({ c with turnOpen := false } : JsonlCursor).openTurn = none :=
          openTurn_of_closed rfl
        rw [hclosed]
        refine h.closing key time completed _ ?_
        intro e he
        obtain rfl := List.mem_singleton.mp he
        exact quiet_turnState _ _ _ _
    · exact hsame
  | steerQueued runId itemId =>
    rw [museRecord]
    split_ifs
    · exact hsame
    · exact hsame
  | steerDrained runId itemId =>
    rw [museRecord]
    split
    · exact hsame
    · exact hsame
  | approvalRequested runId actionId command =>
    cases command with
    | none => exact hsame
    | some command =>
      rw [museRecord]
      split_ifs
      · exact h.quiet ⟨by simp [PendingEvent.new], by simp [PendingEvent.new]⟩
      · exact hsame
  | approvalDecided runId actionId => exact hsame

theorem turns_museVisit (c : JsonlCursor) (now : DateTime) (offset : Nat) (record : Json)
    (hstray : ¬ StrayTerminal c record) (h : Turns c.openTurn events) :
    Turns (museVisit env approvable now offset record c).1.openTurn
      (events ++ (museVisit env approvable now offset record c).2) := by
  unfold museVisit
  cases hparse : Muse.parse record with
  | none =>
    dsimp only
    rw [List.append_nil]
    exact h
  | some parsed =>
    refine turns_museRecord env approvable c _ _ parsed ?_ h
    rintro runId completed rfl hopen hmem hempty
    refine hstray ⟨runId, ?_, hopen, hmem, hempty⟩
    rw [hparse]
    rfl

theorem museVisit_stray {c : JsonlCursor} {record : Json} (h : StrayTerminal c record)
    (now : DateTime) (offset : Nat) :
    ∃ e ∈ (museVisit env approvable now offset record c).2, e.kind = .turnFinal ∧
      e.turnId = none := by
  obtain ⟨runId, hended, hopen, hmem, hempty⟩ := h
  obtain ⟨parsed, hparse, hended⟩ := Option.bind_eq_some_iff.mp hended
  obtain ⟨completed, rfl⟩ : ∃ completed, parsed = .terminal runId completed := by
    cases parsed with
    | terminal run completed => exact ⟨completed, by rw [← Option.some.inj hended]⟩
    | _ => cases hended
  have howns : c.owns runId = true := by
    rw [JsonlCursor.owns, Bool.or_eq_true]
    exact .inr (by simpa using hmem)
  unfold museVisit
  rw [hparse]
  dsimp only
  rw [museRecord, howns, hempty, hopen]
  exact ⟨_, List.mem_cons_self, rfl, rfl⟩

theorem noStray_of_named {records : List (DateTime × Nat × Json)} {c : JsonlCursor}
    (h : ∀ e ∈ ((museVisit env approvable).run c records).2, e.kind = .turnFinal →
      e.turnId ≠ none) : NoStray env approvable c records := by
  induction records generalizing c with
  | nil => exact trivial
  | cons r records ih =>
    obtain ⟨now, offset, record⟩ := r
    rw [Visitor.run] at h
    dsimp only at h
    refine ⟨?_, ih fun e he => h e (List.mem_append_right _ he)⟩
    intro hstray
    obtain ⟨e, he, hkind, hnone⟩ := museVisit_stray env approvable hstray now offset
    exact h e (List.mem_append_left _ he) hkind hnone

end Muse

/-! ## The read loop -/

section ReadLoop

variable (env : Env)

/-- The cursor with what the read loop keeps in it. -/
def JsonlCursor.moved (c : JsonlCursor) (offset : Nat) (last : Option DateTime) : JsonlCursor :=
  { c with offset, lastRecordAt := last, armedAt := none }

/-- A visitor neither reads nor changes what the loop keeps. -/
def Visitor.Blind (visit : Visitor) : Prop := ∀ now start record c offset last,
  visit now start record (c.moved offset last) =
    ((visit now start record c).1.moved offset last, (visit now start record c).2)

theorem Provider.visit_blind (p : Provider) : (p.visit env).Blind := by
  intro now start record c offset last
  cases p with
  | codex =>
    simp only [visit, codexVisit, codexTaskStarted, codexTurnEnd, codexMessage, codexUserMessage,
      codexAssistantMessage, startTurn, JsonlCursor.moved]
    repeat' split
    all_goals rfl
  | agy =>
    simp only [visit, agyVisit, agyUserInput, agyPlannerResponse, JsonlCursor.moved]
    repeat' split
    all_goals grind
  | muse approvable =>
    have hopen : (c.moved offset last).openTurn = c.openTurn := rfl
    have howns : ∀ runId, (c.moved offset last).owns runId = c.owns runId := fun _ => rfl
    have hqueue : (c.moved offset last).queuedSteers = c.queuedSteers := rfl
    simp only [visit, museVisit, museRecord, hopen, howns, hqueue]
    repeat' split
    all_goals rfl

/-- The record of a line that is read whole. -/
def recordOf (line : List UInt8) : Option Json :=
  if maxProviderRecordBytes < line.length then none else env.fromSlice line

/-- The records of lines, with the time each is read at and its offset. -/
def recordsOf (clock : Nat → DateTime) : Nat → List (List UInt8) → List (DateTime × Nat × Json)
  | _, [] => []
  | offset, line :: lines =>
    ((recordOf env line).map fun record => (clock offset, offset, record)).toList ++
      recordsOf clock (offset + line.length) lines

theorem readLines_run {visit : Visitor} (hblind : visit.Blind) (clock : Nat → DateTime)
    {lines : List (List UInt8)} (hlines : ∀ line ∈ lines, recordOf env line ≠ none)
    (c : JsonlCursor) (offset : Nat) (last : Option DateTime) :
    (readLines env visit clock (c.moved offset last) lines).2 =
      (visit.run c (recordsOf env clock offset lines)).2 := by
  induction lines generalizing c offset last with
  | nil => rfl
  | cons line lines ih =>
    obtain ⟨hline, hlines⟩ := List.forall_mem_cons.mp hlines
    obtain ⟨record, hrecord⟩ := Option.ne_none_iff_exists'.mp hline
    rw [recordsOf, hrecord]
    unfold recordOf at hrecord
    split at hrecord
    · cases hrecord
    · next hlong =>
      have hvisit : visit (clock offset) offset record
          { c.moved offset last with offset := offset + line.length } = _ :=
        hblind (clock offset) offset record c (offset + line.length) last
      have hread : ∃ last', readRecord env visit (clock offset) (c.moved offset last) line =
          ((visit (clock offset) offset record c).1.moved (offset + line.length) last',
            (visit (clock offset) offset record c).2) := by
        unfold readRecord
        rw [hrecord]
        dsimp only [JsonlCursor.moved] at hvisit ⊢
        rw [hvisit]
        exact ⟨_, rfl⟩
      obtain ⟨last', hread⟩ := hread
      rw [readLines, readLine, if_neg hlong]
      dsimp only [JsonlCursor.moved] at hread ⊢
      rw [hread]
      exact congrArg (_ ++ ·) (ih hlines _ _ last')

/-- **The read loop reports the visitor's run.** Where no time is armed and every line holds a
record, the events are those the visitor makes of the records, one after the other. -/
theorem Provider.readNewJsonl_run (p : Provider) {clock : Nat → DateTime} {file : List UInt8}
    {c c' : JsonlCursor} {events : List PendingEvent} (harmed : c.armedAt = none)
    (hlines : ∀ line ∈ newLines file c.offset, recordOf env line ≠ none)
    (h : readNewJsonl env (p.visit env) clock file c = some (c', events)) : events =
      ((p.visit env).run c (recordsOf env clock c.offset (newLines file c.offset))).2 := by
  have hc : c.moved c.offset c.lastRecordAt = c := by
    rw [JsonlCursor.moved, ← harmed]
  have hrun := readLines_run env (p.visit_blind env) clock hlines c c.offset c.lastRecordAt
  unfold readNewJsonl at h
  split at h
  · cases h
  · dsimp only at h
    rw [readRecords_eq env (p.visit env) clock (Nat.lt_succ_self _) c, ← hc] at h
    cases h
    exact hrun

end ReadLoop

end Wakterm.Agent
