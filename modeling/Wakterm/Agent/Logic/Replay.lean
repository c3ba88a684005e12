import Wakterm.Agent.Providers

/-!
# A log read in pieces

An observation reads the file's complete lines past the cursor (`readRecords_eq`), however they were
cut when they were seen before.
-/

namespace Wakterm.Agent

open Wakterm.Machine

variable (env : Env)

/-! ## Lines -/

def readLine (visit : Visitor) (now : DateTime) (c : JsonlCursor) (line : List UInt8) :
    JsonlCursor × List PendingEvent :=
  if maxProviderRecordBytes < line.length then skipOversized now c line.length
  else readRecord env visit now c line

/-- Complete lines, one after the other. -/
def readLines (visit : Visitor) (clock : Nat → DateTime) :
    JsonlCursor → List (List UInt8) → JsonlCursor × List PendingEvent
  | c, [] => (c, [])
  | c, line :: lines =>
    let (c, read) := readLine env visit (clock c.offset) c line
    let (c, events) := readLines visit clock c lines
    (c, read ++ events)

variable {line rest : List UInt8} {s s' : PendingTurnStart}

theorem drain_line {fuel : Nat} (h : IsLine line) (more : List UInt8) (consumed : Nat)
    (hfuel : line.length ≤ fuel) :
    drain fuel (line ++ more) consumed = some (consumed + line.length) := by
  induction fuel generalizing line consumed with
  | zero =>
    have hpos := List.length_pos_iff.mpr h.ne_nil
    omega
  | succ fuel ih =>
    have hpos := List.length_pos_iff.mpr h.ne_nil
    rw [drain]
    rw [readUntil_line h]
    have hne : (line.take (64 * 1024)).isEmpty = false := by
      rw [List.isEmpty_eq_false_iff, ← List.length_pos_iff, List.length_take]
      omega
    rw [if_neg (by rw [hne]; decide), endsLine_take h]
    by_cases hlast : line.length ≤ 64 * 1024
    · rw [if_pos (decide_eq_true hlast), List.take_of_length_le hlast]
    · -- a further piece of the record
      rw [if_neg (by simpa using hlast), List.length_take_of_le (by omega),
        List.drop_append_of_le_length (by omega),
        ih (h.drop (by omega)) _ (by rw [List.length_drop]; omega), List.length_drop]
      exact congrArg some (by omega)

theorem drain_tail {fuel : Nat} (h : newline ∉ rest) (consumed : Nat) :
    drain fuel rest consumed = none := by
  induction fuel generalizing rest consumed with
  | zero => rfl
  | succ fuel ih =>
    rw [drain]
    rw [readUntil_of_not_mem h,
      endsLine_of_not_mem fun hmem => h (List.mem_of_mem_take hmem)]
    split
    · rfl
    · rw [if_neg (by decide)]
      exact ih (fun hmem => h (List.mem_of_mem_drop hmem)) _

theorem readRecords_tail (visit : Visitor) (clock : Nat → DateTime) (fuel : Nat)
    (h : newline ∉ rest) (c : JsonlCursor) : readRecords env visit clock fuel rest c = (c, []) := by
  cases fuel with
  | zero => rfl
  | succ fuel =>
    rw [readRecords]
    dsimp only
    rw [readUntil_of_not_mem h,
      endsLine_of_not_mem fun hmem => h (List.mem_of_mem_take hmem)]
    split
    · rfl
    · split
      · rw [if_neg (by decide), drain_tail fun hmem => h (List.mem_of_mem_drop hmem)]
      · rw [if_pos (by decide)]

theorem readRecords_line (visit : Visitor) (clock : Nat → DateTime) (fuel : Nat) (h : IsLine line)
    (more : List UInt8) (c : JsonlCursor) (hfuel : line.length ≤ fuel) :
    readRecords env visit clock (fuel + 1) (line ++ more) c =
      ((readRecords env visit clock fuel more (readLine env visit (clock c.offset) c line).1).1,
        (readLine env visit (clock c.offset) c line).2 ++ (readRecords env visit clock fuel more
            (readLine env visit (clock c.offset) c line).1).2) := by
  have hpos := List.length_pos_iff.mpr h.ne_nil
  have hne : (line.take (maxProviderRecordBytes + 1)).isEmpty = false := by
    rw [List.isEmpty_eq_false_iff, ← List.length_pos_iff, List.length_take]
    omega
  rw [readRecords]
  dsimp only
  rw [readUntil_line h, if_neg (by rw [hne]; decide), endsLine_take h]
  unfold readLine
  by_cases hlong : maxProviderRecordBytes < line.length
  · rw [if_pos (by rw [List.length_take]; omega), if_pos hlong]
    -- the whole of the record is consumed, whether the first read had its newline or not
    have hcomplete : (if decide (line.length ≤ maxProviderRecordBytes + 1) = true then
          some (line.take (maxProviderRecordBytes + 1)).length
        else drain fuel ((line ++ more).drop (line.take (maxProviderRecordBytes + 1)).length)
          (line.take (maxProviderRecordBytes + 1)).length) = some line.length := by
      by_cases hlast : line.length ≤ maxProviderRecordBytes + 1
      · rw [if_pos (decide_eq_true hlast), List.take_of_length_le hlast]
      · rw [if_neg (by simpa using hlast), List.length_take_of_le (by omega),
          List.drop_append_of_le_length (by omega),
          drain_line (h.drop (by omega)) more _ (by rw [List.length_drop]; omega),
          List.length_drop]
        exact congrArg some (by omega)
    rw [hcomplete]
    dsimp only
    rw [List.drop_left]
  · have hle : line.length ≤ maxProviderRecordBytes + 1 := by omega
    rw [List.take_of_length_le hle, if_neg hlong, if_neg hlong, decide_eq_true hle,
      if_neg (by decide), List.drop_left]

/-- **What an observation reads.** The complete lines past the cursor, whatever their lengths. -/
theorem readRecords_eq (visit : Visitor) (clock : Nat → DateTime) {fuel : Nat}
    (hfuel : rest.length < fuel) (c : JsonlCursor) : readRecords env visit clock fuel rest c =
      readLines env visit clock c (splitLines rest).1 := by
  induction fuel generalizing rest c with
  | zero => omega
  | succ fuel ih =>
    by_cases hmem : newline ∈ rest
    · obtain ⟨line, more, hline, rfl⟩ := exists_line hmem
      have hpos := List.length_pos_iff.mpr hline.ne_nil
      rw [List.length_append] at hfuel
      rw [readRecords_line env visit clock fuel hline more c (by omega),
        ih (by omega), splitLines_line hline]
      rfl
    · rw [readRecords_tail env visit clock _ hmem, splitLines_of_not_mem hmem]
      rfl

theorem readLines_append (visit : Visitor) (clock : Nat → DateTime) (c : JsonlCursor)
    (lines more : List (List UInt8)) : readLines env visit clock c (lines ++ more) =
      ((readLines env visit clock (readLines env visit clock c lines).1 more).1,
        (readLines env visit clock c lines).2 ++
          (readLines env visit clock (readLines env visit clock c lines).1 more).2) := by
  induction lines generalizing c with
  | nil => rfl
  | cons line lines ih =>
    rw [List.cons_append, readLines, readLines]
    dsimp only
    rw [ih, List.append_assoc]

/-! ## Times -/

def PendingEvent.timeless (e : PendingEvent) : PendingEvent := { e with observedAt := 0 }

def PendingTurnStart.timeless (s : PendingTurnStart) : PendingTurnStart := { s with observedAt := 0 }

/-- A cursor but for the time of its waiting turn start. -/
def JsonlCursor.timeless (c : JsonlCursor) : JsonlCursor :=
  { c with pendingTurnStart := c.pendingTurnStart.map PendingTurnStart.timeless }

theorem PendingTurnStart.turnId_of_timeless (h : s.timeless = s'.timeless) : s.turnId = s'.turnId :=
  show s.timeless.turnId = s'.timeless.turnId by rw [h]

theorem PendingTurnStart.events_timeless (h : s.timeless = s'.timeless)
    (inputSha256 : Option String) : (s.events inputSha256).map PendingEvent.timeless =
      (s'.events inputSha256).map PendingEvent.timeless := by
  obtain ⟨key, turnId, t⟩ := s
  obtain ⟨key', turnId', t'⟩ := s'
  unfold PendingTurnStart.timeless at h
  injection h with hkey hturn
  subst hkey
  subst hturn
  rfl

/-- Two cursors that a record is read with alike: the checkpoint is no concern of it, and the
waiting turn starts are the same in the sense of `same`. -/
def Alike (same : PendingTurnStart → PendingTurnStart → Prop) (c c' : JsonlCursor) : Prop :=
  ∃ k s, c' = { c with checkpointSha256 := k, pendingTurnStart := s } ∧
    Option.Rel same c.pendingTurnStart s

/-- Cursors that are alike, and the same events but for their times. -/
def AlikeRead (same : PendingTurnStart → PendingTurnStart → Prop)
    (r r' : JsonlCursor × List PendingEvent) : Prop :=
  Alike same r.1 r'.1 ∧ r.2.map PendingEvent.timeless = r'.2.map PendingEvent.timeless

section Alike

variable {env} {same : PendingTurnStart → PendingTurnStart → Prop} {c c' : JsonlCursor}

theorem Alike.refl (hrefl : ∀ s, same s s) (c : JsonlCursor) : Alike same c c := by
  refine ⟨c.checkpointSha256, c.pendingTurnStart, rfl, ?_⟩
  cases c.pendingTurnStart with
  | none => exact .none
  | some start => exact .some (hrefl start)

section

variable (h : Alike same c c')
include h

theorem Alike.sourceId : c'.sourceId = c.sourceId := by
  obtain ⟨k, s, rfl, -⟩ := h
  rfl

theorem Alike.offset : c'.offset = c.offset := by
  obtain ⟨k, s, rfl, -⟩ := h
  rfl

theorem Alike.checked (k : String) : Alike same { c with checkpointSha256 := k } c' := by
  obtain ⟨k', s, rfl, hs⟩ := h
  exact ⟨k', s, rfl, hs⟩

/-- A visitor that treats alike cursors alike, at whatever time, on the records of `R`. -/
def Visitor.Respects (visit : Visitor) (same : PendingTurnStart → PendingTurnStart → Prop)
    (R : Json → Prop) : Prop :=
  ∀ record, R record → ∀ now now' offset c c', Alike same c c' →
    AlikeRead same (visit now offset record c) (visit now' offset record c')

theorem Alike.gap (n : Nat) {e e' : PendingEvent}
    (he : e.timeless = e'.timeless) :
    AlikeRead same ({ c.suspendTurnAtGap with offset := c.offset + n }, [e])
      ({ c'.suspendTurnAtGap with offset := c'.offset + n }, [e']) := by
  obtain ⟨k, s, rfl, hs⟩ := h
  refine ⟨⟨k, s, rfl, hs⟩, ?_⟩
  show [e.timeless] = [e'.timeless]
  rw [he]

variable {visit : Visitor} {R : Json → Prop}

theorem Alike.readRecord (hvisit : visit.Respects same R) (now now' : DateTime)
    {line : List UInt8} (hline : ∀ record, env.fromSlice line = some record → R record) :
    AlikeRead same (readRecord env visit now c line) (readRecord env visit now' c' line) := by
  unfold Agent.readRecord
  split
  · refine h.gap line.length ?_
    rw [h.sourceId, h.offset]
    rfl
  · next record hrecord =>
    dsimp only
    have hread : Alike same { c with offset := c.offset + line.length }
        { c' with offset := c'.offset + line.length } := by
      obtain ⟨k, s, rfl, hs⟩ := h
      exact ⟨k, s, rfl, hs⟩
    have hvisited := hvisit record (hline record hrecord) now now' c.offset _ _ hread
    rw [h.offset] at hvisited ⊢
    revert hvisited
    generalize visit now c.offset record { c with offset := c.offset + line.length } = r
    generalize visit now' c.offset record { c' with offset := c.offset + line.length } = r'
    obtain ⟨c1, events⟩ := r
    obtain ⟨c1', events'⟩ := r'
    rintro ⟨⟨k, s, hc, hs⟩, hevents⟩
    dsimp only at hc hs hevents ⊢
    subst hc
    refine ⟨⟨k, s, rfl, hs⟩, ?_⟩
    dsimp only
    split
    · rfl
    · exact hevents

theorem Alike.readLine (hvisit : visit.Respects same R) (now now' : DateTime)
    {line : List UInt8} (hline : ∀ record, env.fromSlice line = some record → R record) :
    AlikeRead same (readLine env visit now c line) (readLine env visit now' c' line) := by
  unfold Agent.readLine
  split
  · refine h.gap line.length ?_
    rw [h.sourceId, h.offset]
    rfl
  · exact h.readRecord hvisit now now' hline

theorem Alike.readLines (hvisit : visit.Respects same R) {lines : List (List UInt8)}
    (hlines : ∀ line ∈ lines, ∀ record, env.fromSlice line = some record → R record)
    (clock clock' : Nat → DateTime) :
    AlikeRead same (readLines env visit clock c lines) (readLines env visit clock' c' lines) := by
  induction lines generalizing c c' with
  | nil => exact ⟨h, rfl⟩
  | cons line lines ih =>
    obtain ⟨hc, hread⟩ := h.readLine hvisit (clock c.offset) (clock' c'.offset)
      (hlines line List.mem_cons_self)
    obtain ⟨hc, hevents⟩ := ih hc fun l hl => hlines l (List.mem_cons_of_mem _ hl)
    refine ⟨hc, ?_⟩
    rw [Agent.readLines, Agent.readLines]
    dsimp only
    rw [List.map_append, List.map_append, hread, hevents]

/-! ## The providers' records -/

theorem Alike.silent : AlikeRead same (c, []) (c', []) := ⟨h, rfl⟩

theorem Alike.missingTurn (key detail : String) (t t' : DateTime) :
    AlikeRead same (c, missingTurn key t detail) (c', missingTurn key t' detail) := ⟨h, rfl⟩

variable (hsame : ∀ s s', same s s' → s.timeless = s'.timeless)
include hsame

theorem Alike.startTurn (turnId : String) :
    AlikeRead same (startTurn c turnId) (startTurn c' turnId) := by
  obtain ⟨k, s, rfl, hs⟩ := h
  unfold Agent.startTurn
  generalize hpending : c.pendingTurnStart = pending at hs
  cases hs with
  | none => exact ⟨⟨k, none, rfl, by rw [hpending]; exact .none⟩, rfl⟩
  | @some a b hab =>
    have hturn := PendingTurnStart.turnId_of_timeless (hsame _ _ hab)
    dsimp only
    rw [hturn]
    split
    · exact ⟨⟨k, none, rfl, .none⟩, PendingTurnStart.events_timeless (hsame _ _ hab) none⟩
    · exact ⟨⟨k, some b, rfl, by rw [hpending]; exact .some hab⟩, rfl⟩

theorem Alike.codexTaskStarted (key : String) {t t' : DateTime} (turnId : Option String)
    (htime : ∀ id, same ⟨key, id, t⟩ ⟨key, id, t'⟩) :
    AlikeRead same (codexTaskStarted key t turnId c) (codexTaskStarted key t' turnId c') := by
  cases turnId with
  | none => exact h.missingTurn _ _ _ _
  | some turnId =>
    obtain ⟨k, s, rfl, hs⟩ := h
    refine ⟨⟨k, some ⟨key, turnId, t'⟩, rfl, .some (htime turnId)⟩, ?_⟩
    show (c.pendingTurnStart.elim [] _).map _ = (s.elim [] _).map _
    generalize c.pendingTurnStart = pending at hs
    cases hs with
    | none => rfl
    | some hab => exact PendingTurnStart.events_timeless (hsame _ _ hab) none

theorem Alike.codexTurnEnd (key : String) (t t' : DateTime) (turnId : Option String)
    (payload : Json) :
    AlikeRead same (codexTurnEnd key t turnId payload c) (codexTurnEnd key t' turnId payload c') := by
  have hcurrent : c'.currentTurnId = c.currentTurnId := by
    obtain ⟨k, s, rfl, -⟩ := h
    rfl
  unfold Agent.codexTurnEnd
  rw [hcurrent]
  split
  · exact h.missingTurn _ _ _ _
  · next turnId _ =>
    have hstart := h.startTurn hsame turnId
    dsimp only
    revert hstart
    generalize Agent.startTurn c turnId = r
    generalize Agent.startTurn c' turnId = r'
    rintro ⟨⟨k, s, hc, hs⟩, hevents⟩
    rw [hc]
    refine ⟨⟨k, s, rfl, hs⟩, ?_⟩
    rw [List.map_append, List.map_append, hevents]
    rfl

theorem Alike.codexUserMessage (key : String) (t t' : DateTime) (turnId : Option String)
    (message : String) : AlikeRead same (codexUserMessage env key t turnId message c)
      (codexUserMessage env key t' turnId message c') := by
  obtain ⟨k, s, rfl, hs⟩ := h
  unfold Agent.codexUserMessage
  generalize hpending : c.pendingTurnStart = pending at hs
  cases hs with
  | none => exact ⟨⟨k, none, rfl, by rw [hpending]; exact .none⟩, rfl⟩
  | @some a b hab =>
    have hturn := PendingTurnStart.turnId_of_timeless (hsame _ _ hab)
    refine ⟨⟨k, none, rfl, .none⟩, ?_⟩
    dsimp only
    rw [List.map_append, List.map_append,
      PendingTurnStart.events_timeless (hsame _ _ hab), hturn]
    rfl

theorem Alike.codexAssistantMessage (key : String) (t t' : DateTime) (turnId : Option String)
    (text : String) : AlikeRead same (codexAssistantMessage key t turnId text c)
      (codexAssistantMessage key t' turnId text c') := by
  have hcurrent : c'.currentTurnId = c.currentTurnId := by
    obtain ⟨k, s, rfl, -⟩ := h
    rfl
  unfold Agent.codexAssistantMessage
  rw [hcurrent]
  split
  · exact h.missingTurn _ _ _ _
  · next turnId _ =>
    have hstart := h.startTurn hsame turnId
    dsimp only
    revert hstart
    generalize Agent.startTurn c turnId = r
    generalize Agent.startTurn c' turnId = r'
    rintro ⟨⟨k, s, hc, hs⟩, hevents⟩
    rw [hc]
    refine ⟨⟨k, s, rfl, hs⟩, ?_⟩
    rw [List.map_append, List.map_append, hevents]
    rfl

theorem Alike.codexMessage (key : String) (t t' : DateTime) (turnId : Option String)
    (payload : Json) : AlikeRead same (codexMessage env key t turnId payload c)
      (codexMessage env key t' turnId payload c') := by
  unfold Agent.codexMessage
  split
  · split
    · exact h.silent
    · split
      · exact h.silent
      · exact h.codexUserMessage hsame key t t' turnId _
  · split
    · split
      · exact h.silent
      · exact h.codexAssistantMessage hsame key t t' turnId _
    · exact h.silent

def startsTask (record : Json) : Prop :=
  record.getStr "type" = some "event_msg" ∧
    ((record.get "payload").getD .null).getStr "type" = some "task_started"

end

theorem codexVisit_respects (hsame : ∀ s s', same s s' → s.timeless = s'.timeless) :
    (codexVisit env).Respects same fun record => startsTask record → ∀ now now' key id,
      same ⟨key, id, eventTime env now record⟩ ⟨key, id, eventTime env now' record⟩ := by
  intro record hrecord now now' offset c c' h
  have hnext : Alike same { c with currentTurnId := (codexTurnId record).or c.currentTurnId }
      { c' with currentTurnId := (codexTurnId record).or c'.currentTurnId } := by
    obtain ⟨k, s, rfl, hs⟩ := h
    exact ⟨k, s, rfl, hs⟩
  unfold codexVisit
  dsimp only
  rw [h.sourceId] at hnext ⊢
  split
  · next htype =>
    split
    · next hpayload =>
      exact hnext.codexTaskStarted hsame _ _ (hrecord ⟨htype, hpayload⟩ now now' _)
    · split
      · exact hnext.codexTurnEnd hsame _ _ _ _ _
      · exact hnext.silent
  · split
    · split
      · exact hnext.codexMessage hsame _ _ _ _ _
      · exact hnext.silent
    · exact hnext.silent

theorem agyVisit_respects : (agyVisit env).Respects same fun _ => True := by
  intro record _ now now' offset c c' h
  obtain ⟨k, s, rfl, hs⟩ := h
  unfold agyVisit
  dsimp only
  split
  · unfold agyUserInput
    dsimp only
    split
    · exact ⟨⟨k, s, rfl, hs⟩, rfl⟩
    · refine ⟨⟨k, s, rfl, hs⟩, ?_⟩
      dsimp only
      rw [List.map_append, List.map_append, List.map_append, List.map_append]
      cases ((record.getStr "content").bind agyUserRequest).map (messageSha256 env.digest) with
      | none => rfl
      | some sha256 => rfl
  · split
    · unfold agyPlannerResponse
      dsimp only
      split
      · split
        · exact ⟨⟨k, s, rfl, hs⟩, rfl⟩
        · exact ⟨⟨k, s, rfl, hs⟩, rfl⟩
      · exact ⟨⟨k, s, rfl, hs⟩, rfl⟩
    · exact ⟨⟨k, s, rfl, hs⟩, rfl⟩

theorem museVisit_respects (approvable : Bool) :
    (museVisit env approvable).Respects same fun _ => True := by
  intro record _ now now' offset c c' h
  obtain ⟨k, s, rfl, hs⟩ := h
  unfold museVisit
  dsimp only
  split
  · exact ⟨⟨k, s, rfl, hs⟩, rfl⟩
  · next parsed _ =>
    -- neither the open turn nor the owner of a run depends on what the cursors differ in
    have hopen : JsonlCursor.openTurn { c with checkpointSha256 := k, pendingTurnStart := s } =
      c.openTurn := rfl
    have howns : ∀ run, JsonlCursor.owns { c with checkpointSha256 := k, pendingTurnStart := s }
      run = c.owns run := fun _ => rfl
    cases parsed with
    | input intentId text =>
      simp only [museRecord, hopen]
      split <;> exact ⟨⟨k, s, rfl, hs⟩, rfl⟩
    | steerQueued run item =>
      simp only [museRecord, howns]
      split <;> exact ⟨⟨k, s, rfl, hs⟩, rfl⟩
    | steerDrained run item =>
      simp only [museRecord, howns]
      split <;> exact ⟨⟨k, s, rfl, hs⟩, rfl⟩
    | approvalRequested run action command =>
      cases command with
      | none => exact ⟨⟨k, s, rfl, hs⟩, rfl⟩
      | some command =>
        simp only [museRecord, howns, hopen]
        split <;> exact ⟨⟨k, s, rfl, hs⟩, rfl⟩
    | approvalDecided run action => exact ⟨⟨k, s, rfl, hs⟩, rfl⟩
    | assistant run text =>
      simp only [museRecord, howns, hopen]
      split
      · split <;> exact ⟨⟨k, s, rfl, hs⟩, rfl⟩
      · exact ⟨⟨k, s, rfl, hs⟩, rfl⟩
    | terminal run completed =>
      simp only [museRecord, howns, hopen]
      split <;> exact ⟨⟨k, s, rfl, hs⟩, rfl⟩

end Alike

/-- But for the time of a waiting start, no cursor depends on the time of an observation. -/
theorem Provider.respects_timeless (p : Provider) :
    (p.visit env).Respects (fun s s' => s.timeless = s'.timeless) fun _ => True := by
  cases p with
  | codex =>
    intro record _
    exact codexVisit_respects (fun _ _ h => h) record fun _ _ _ _ _ => rfl
  | agy => exact agyVisit_respects
  | muse approvable => exact museVisit_respects approvable

theorem Provider.respects_eq (p : Provider) : (p.visit env).Respects Eq fun record =>
      p = .codex → startsTask record → (recordTime env record).isSome := by
  cases p with
  | codex =>
    intro record htimed
    refine codexVisit_respects (fun _ _ h => by rw [h]) record ?_
    intro hstarts now now' key id
    obtain ⟨time, htime⟩ := Option.isSome_iff_exists.mp (htimed rfl hstarts)
    rw [eventTime, eventTime, htime]
    rfl
  | agy =>
    intro record _
    exact agyVisit_respects record trivial
  | muse approvable =>
    intro record _
    exact museVisit_respects approvable record trivial

/-! ## What records leave alone -/

/-- A visitor moves neither the session nor the offset. -/
def Visitor.Steady (visit : Visitor) : Prop :=
  ∀ now offset record c, (visit now offset record c).1.sourceId = c.sourceId ∧
    (visit now offset record c).1.offset = c.offset

theorem startTurn_steady (c : JsonlCursor) (turnId : String) :
    (startTurn c turnId).1.sourceId = c.sourceId ∧ (startTurn c turnId).1.offset = c.offset := by
  unfold startTurn
  split
  · exact ⟨rfl, rfl⟩
  · split <;> exact ⟨rfl, rfl⟩

theorem codexVisit_steady : (codexVisit env).Steady := by
  intro now offset record c
  unfold codexVisit
  dsimp only
  split
  · split
    · unfold codexTaskStarted
      split <;> exact ⟨rfl, rfl⟩
    · split
      · unfold codexTurnEnd
        split
        · exact ⟨rfl, rfl⟩
        · exact startTurn_steady _ _
      · exact ⟨rfl, rfl⟩
  · split
    · split
      · unfold codexMessage
        split
        · split
          · exact ⟨rfl, rfl⟩
          · split
            · exact ⟨rfl, rfl⟩
            · unfold codexUserMessage
              dsimp only
              split <;> exact ⟨rfl, rfl⟩
        · split
          · split
            · exact ⟨rfl, rfl⟩
            · unfold codexAssistantMessage
              split
              · exact ⟨rfl, rfl⟩
              · exact startTurn_steady _ _
          · exact ⟨rfl, rfl⟩
      · exact ⟨rfl, rfl⟩
    · exact ⟨rfl, rfl⟩

theorem agyVisit_steady : (agyVisit env).Steady := by
  intro now offset record c
  unfold agyVisit
  dsimp only
  split
  · unfold agyUserInput
    split <;> exact ⟨rfl, rfl⟩
  · split
    · unfold agyPlannerResponse
      split
      · dsimp only
        split <;> exact ⟨rfl, rfl⟩
      · exact ⟨rfl, rfl⟩
    · exact ⟨rfl, rfl⟩

theorem museVisit_steady (approvable : Bool) : (museVisit env approvable).Steady := by
  intro now offset record c
  unfold museVisit
  dsimp only
  split
  · exact ⟨rfl, rfl⟩
  · unfold museRecord
    split
    · dsimp only
      split <;> exact ⟨rfl, rfl⟩
    · split <;> exact ⟨rfl, rfl⟩
    · split <;> exact ⟨rfl, rfl⟩
    · split <;> exact ⟨rfl, rfl⟩
    · exact ⟨rfl, rfl⟩
    · exact ⟨rfl, rfl⟩
    · split
      · split <;> exact ⟨rfl, rfl⟩
      · exact ⟨rfl, rfl⟩
    · split <;> exact ⟨rfl, rfl⟩

theorem Provider.visit_steady (p : Provider) : (p.visit env).Steady := by
  cases p with
  | codex => exact codexVisit_steady env
  | agy => exact agyVisit_steady env
  | muse approvable => exact museVisit_steady env approvable

theorem readLine_steady {visit : Visitor} (hvisit : visit.Steady) (now : DateTime)
    (c : JsonlCursor) (line : List UInt8) :
    (readLine env visit now c line).1.sourceId = c.sourceId ∧
      (readLine env visit now c line).1.offset = c.offset + line.length := by
  unfold readLine
  split
  · exact ⟨rfl, rfl⟩
  · unfold readRecord
    split
    · exact ⟨rfl, rfl⟩
    · exact hvisit _ _ _ _

theorem readLines_steady {visit : Visitor} (hvisit : visit.Steady) (clock : Nat → DateTime)
    (c : JsonlCursor) (lines : List (List UInt8)) :
    (readLines env visit clock c lines).1.sourceId = c.sourceId ∧
      (readLines env visit clock c lines).1.offset = c.offset + lines.flatten.length := by
  induction lines generalizing c with
  | nil => exact ⟨rfl, rfl⟩
  | cons line lines ih =>
    obtain ⟨hid, hoffset⟩ := readLine_steady env hvisit (clock c.offset) c line
    obtain ⟨hid', hoffset'⟩ := ih (readLine env visit (clock c.offset) c line).1
    refine ⟨hid'.trans hid, hoffset'.trans ?_⟩
    rw [hoffset, List.flatten_cons, List.length_append]
    omega

end Wakterm.Agent
