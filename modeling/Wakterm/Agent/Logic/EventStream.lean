import Wakterm.Agent.EventStore

/-!
# Following the event stream

A consumer reads pages and follows their `next_after_sequence`, while writer transactions insert and
prune.
-/

namespace Wakterm.Agent

open Wakterm.Machine

/-- What happens to the database and its consumer, one transaction at a time. -/
inductive StreamOp where
  /-- A writer inserts events, and applies retention unless it is one that does not. -/
  | commit (insertions : List Insertion) (retentionLimit : Option Nat)
  /-- The consumer reads the page past its cursor. -/
  | read (limit : Nat)

/-- The database, every event that was ever committed, and the consumer. A consumer has no
cursor after a page that gave it none. -/
structure Stream where
  store : AgentEventStore
  committed : List AgentEvent
  cursor : Option Nat
  pages : List AgentEventPage

namespace Stream

/-- A new database, and a consumer that starts from `start`. -/
def start (start : Nat) : Stream where
  store := .empty
  committed := []
  cursor := some start
  pages := []

/-- The events of the pages with status ok. -/
def delivered (w : Stream) : List AgentEvent :=
  (w.pages.filter fun page => page.status = .ok).flatMap AgentEventPage.events

/-- The events that the table still holds. -/
def available (w : Stream) : List AgentEvent := w.store.rows.map EventRow.record

/-- One insertion, and the event it commits. -/
def insert (sha256 : String → String) (w : Stream) (ins : Insertion) : Option Stream :=
  (w.store.insertEvent sha256 ins).map fun store =>
    { w with
      store := store
      committed :=
        if w.store.hasKey ins.eventKey then w.committed
        else w.committed ++ [ins.event sha256] }

/-- The insertions of a transaction, in order. -/
def insertAll (sha256 : String → String) (w : Stream) : List Insertion → Option Stream
  | [] => some w
  | ins :: rest => (w.insert sha256 ins).bind fun w => w.insertAll sha256 rest

/-- The end of a writer transaction. -/
def retain (w : Stream) : Option Nat → Option Stream
  | none => some w
  | some limit => (w.store.applyRetention limit).map fun store => { w with store := store }

/-- The consumer takes a page. -/
def receive (w : Stream) (page : AgentEventPage) : Stream :=
  { w with cursor := page.nextAfterSequence, pages := w.pages ++ [page] }

/-- One transaction. A consumer without a cursor reads no more. -/
def apply (sha256 : String → String) (w : Stream) : StreamOp → Option Stream
  | .commit insertions retentionLimit =>
    (w.insertAll sha256 insertions).bind fun w => w.retain retentionLimit
  | .read limit => w.cursor.map fun cursor => w.receive (w.store.readPage cursor limit)

/-- Transactions one after another. -/
def run (sha256 : String → String) (w : Stream) : List StreamOp → Option Stream
  | [] => some w
  | op :: ops => (w.apply sha256 op).bind fun w => w.run sha256 ops

/-- How far the consumer is: at `cursor`, having received all that was committed past its
start up to there. A cursor that moved is a sequence that was given out. -/
structure ReadUpTo (start : Nat) (w : Stream) (cursor : Nat) : Prop where
  start_le : start ≤ cursor
  moved : cursor = start ∨ cursor ≤ w.store.lastSequence
  delivered_eq : w.delivered = window AgentEvent.sequence w.committed start cursor

/-- A consumer that was told that its cursor is too old: its last page said so, and an
event past that cursor was pruned. -/
structure ToldTooOld (w : Stream) (cursor : Nat) : Prop where
  last_page : ∃ page, w.pages.getLast? = some page ∧ page.status = .cursorTooOld ∧
    page.requestedAfterSequence = cursor
  pruned : ∃ event ∈ w.committed, cursor < event.sequence ∧
    event.sequence ≤ w.store.prunedThrough

/-- The consumer's side, with or without a cursor. -/
def Consumer (start : Nat) (w : Stream) : Prop :=
  match w.cursor with
  | some cursor => ReadUpTo start w cursor
  | none => ∃ cursor, ReadUpTo start w cursor ∧ ToldTooOld w cursor

/-- What every run keeps. -/
structure Inv (start : Nat) (w : Stream) : Prop where
  increasing : Increasing AgentEvent.sequence w.committed
  le_last : ∀ event ∈ w.committed, event.sequence ≤ w.store.lastSequence
  /-- The table is what was committed past the pruning mark. -/
  available_eq : w.available = past AgentEvent.sequence w.committed w.store.prunedThrough
  /-- The pruning mark is the sequence of an event, if it is one. -/
  pruned : w.store.prunedThrough = 0 ∨
    ∃ event ∈ w.committed, event.sequence = w.store.prunedThrough
  consumer : Consumer start w

theorem inv_start (n : Nat) : Inv n (Stream.start n) where
  increasing := List.Pairwise.nil
  le_last := by simp [Stream.start]
  available_eq := rfl
  pruned := .inl rfl
  consumer := ⟨Nat.le_refl n, .inl rfl, rfl⟩

variable {start cursor : Nat} {w w' : Stream} {sha256 : String → String} {ins : Insertion}
  {insertions : List Insertion} {limit : Option Nat} {event : AgentEvent}

/-- What a writer may do to the consumer's side: the window it has received stays the same
one, and a mark that is past an event stays past it. -/
theorem consumer_of_grows (hpages : w'.pages = w.pages) (hcursor : w'.cursor = w.cursor)
    (hlast : w.store.lastSequence ≤ w'.store.lastSequence)
    (hpruned : w.store.prunedThrough ≤ w'.store.prunedThrough)
    (hmem : ∀ event ∈ w.committed, event ∈ w'.committed)
    (hwindow : ∀ cursor, cursor = start ∨ cursor ≤ w.store.lastSequence →
      window AgentEvent.sequence w'.committed start cursor =
        window AgentEvent.sequence w.committed start cursor) (h : Consumer start w) :
    Consumer start w' := by
  have hread : ∀ cursor, ReadUpTo start w cursor → ReadUpTo start w' cursor := by
    intro cursor hr
    refine ⟨hr.start_le, hr.moved.imp_right fun hle => Nat.le_trans hle hlast, ?_⟩
    rw [hwindow cursor hr.moved, ← hr.delivered_eq]
    unfold delivered
    rw [hpages]
  unfold Consumer at h ⊢
  rw [hcursor]
  cases hc : w.cursor with
  | some cursor =>
    rw [hc] at h
    exact hread cursor h
  | none =>
    rw [hc] at h
    obtain ⟨cursor, hr, hold⟩ := h
    obtain ⟨event, hevent, hlt, hle⟩ := hold.pruned
    refine ⟨cursor, hread cursor hr, ?_, event, hmem event hevent, hlt, by omega⟩
    rw [hpages]
    exact hold.last_page

theorem insert_cases (h : w.insert sha256 ins = some w') : w' = w ∨
      (w.store.lastSequence < ins.rowid ∧ w'.committed = w.committed ++ [ins.event sha256] ∧
        w'.available = w.available ++ [ins.event sha256] ∧ w'.store.lastSequence = ins.rowid ∧
        w'.store.prunedThrough = w.store.prunedThrough ∧
        w'.cursor = w.cursor ∧ w'.pages = w.pages) := by
  unfold insert AgentEventStore.insertEvent at h
  by_cases hkey : w.store.hasKey ins.eventKey = true
  · left
    simpa [hkey] using h.symm
  · simp only [if_neg hkey] at h
    by_cases hlt : w.store.lastSequence < ins.rowid
    · rw [dif_pos hlt, Option.map_some] at h
      cases h
      right
      refine ⟨hlt, rfl, ?_, rfl, rfl, rfl, rfl⟩
      simp [available]
    · rw [dif_neg hlt] at h
      cases h

theorem Inv.insert (hinv : Inv start w) (h : w.insert sha256 ins = some w') : Inv start w' := by
  rcases insert_cases h with rfl | ⟨hlt, hcommitted, havail, hlast, hpruned, hcursor, hpages⟩
  · exact hinv
  have hseq : (ins.event sha256).sequence = ins.rowid := rfl
  have hmark : w.store.prunedThrough ≤ w.store.lastSequence := by
    rcases hinv.pruned with h0 | ⟨event, hmem, heq⟩
    · omega
    · have := hinv.le_last event hmem
      omega
  refine ⟨?_, ?_, ?_, ?_, ?_⟩
  · rw [hcommitted]
    apply hinv.increasing.concat
    intro event hmem
    have := hinv.le_last event hmem
    omega
  · intro event hmem
    rw [hcommitted, List.mem_append, List.mem_singleton] at hmem
    rcases hmem with hmem | rfl
    · have := hinv.le_last event hmem
      omega
    · omega
  · rw [havail, hcommitted, hpruned, past_concat_of_lt (by omega), hinv.available_eq]
  · rw [hpruned, hcommitted]
    refine hinv.pruned.imp_right ?_
    rintro ⟨event, hmem, heq⟩
    exact ⟨event, List.mem_append_left _ hmem, heq⟩
  · refine consumer_of_grows hpages hcursor (by omega) (by omega) ?_ ?_ hinv.consumer
    · intro event hmem
      rw [hcommitted]
      exact List.mem_append_left _ hmem
    · intro cursor hmoved
      rw [hcommitted]
      apply window_concat_of_not
      omega

theorem Inv.insertAll (hinv : Inv start w) (h : w.insertAll sha256 insertions = some w') :
    Inv start w' := by
  induction insertions generalizing w with
  | nil =>
    cases h
    exact hinv
  | cons ins rest ih =>
    obtain ⟨v, hv, hrest⟩ := Option.bind_eq_some_iff.mp h
    exact ih (hinv.insert hv) hrest

theorem prunedThrough_deleteThrough (store : AgentEventStore) (cutoff : Nat) :
    (store.deleteThrough cutoff).prunedThrough = max store.prunedThrough cutoff := by
  unfold AgentEventStore.deleteThrough AgentEventStore.prunedThrough
  cases store.prunedThroughSequence with
  | none => simp
  | some value => rfl

theorem retain_cases (h : w.retain limit = some w') : w' = w ∨ ∃ row ∈ w.store.rows,
      w' = { w with store := w.store.deleteThrough row.sequence } := by
  cases limit with
  | none => exact .inl (Option.some.inj h).symm
  | some limit =>
    obtain ⟨store, hstore, rfl⟩ := Option.map_eq_some_iff.mp h
    unfold AgentEventStore.applyRetention at hstore
    simp only at hstore
    split at hstore
    · cases hstore
      exact .inl rfl
    · split at hstore
      · cases hstore
      · rename_i row hrow
        cases hstore
        exact .inr ⟨row, List.mem_of_getElem? hrow, rfl⟩

theorem map_record_past (rows : List EventRow) (cutoff : Nat) :
    (past EventRow.sequence rows cutoff).map EventRow.record =
      past AgentEvent.sequence (rows.map EventRow.record) cutoff := by
  unfold past
  rw [List.filter_map]
  rfl

theorem Inv.retain (hinv : Inv start w) (h : w.retain limit = some w') : Inv start w' := by
  rcases retain_cases h with rfl | ⟨row, hrow, rfl⟩
  · exact hinv
  -- The row that decides the cutoff is an event that was committed past the old mark.
  have hevent : row.record ∈ past AgentEvent.sequence w.committed w.store.prunedThrough := by
    rw [← hinv.available_eq]
    exact List.mem_map_of_mem hrow
  obtain ⟨hmem, hlt⟩ := mem_past.mp hevent
  have hmark : (w.store.deleteThrough row.sequence).prunedThrough = row.sequence := by
    rw [prunedThrough_deleteThrough]
    exact Nat.max_eq_right (Nat.le_of_lt hlt)
  refine ⟨hinv.increasing, hinv.le_last, ?_, ?_, ?_⟩
  · show (past EventRow.sequence w.store.rows row.sequence).map EventRow.record = _
    rw [map_record_past]
    show past AgentEvent.sequence w.available row.sequence = past _ w.committed
      (w.store.deleteThrough row.sequence).prunedThrough
    rw [hinv.available_eq, hmark]
    exact past_past (Nat.le_of_lt hlt)
  · right
    exact ⟨row.record, hmem, hmark.symm⟩
  · refine consumer_of_grows (w := w) rfl rfl (Nat.le_refl _) ?_ (fun _ h => h)
      (fun _ _ => rfl) hinv.consumer
    show w.store.prunedThrough ≤ (w.store.deleteThrough row.sequence).prunedThrough
    rw [hmark]
    exact Nat.le_of_lt hlt

theorem readPage_tooOld {store : AgentEventStore} (h : cursor < store.prunedThrough) (limit : Nat) :
    (store.readPage cursor limit).status = .cursorTooOld ∧
      (store.readPage cursor limit).requestedAfterSequence = cursor ∧
      (store.readPage cursor limit).nextAfterSequence = none := by
  unfold AgentEventStore.readPage
  rw [if_pos h]
  exact ⟨rfl, rfl, rfl⟩

theorem Inv.readPage_ok (hinv : Inv start w) (h : w.store.prunedThrough ≤ cursor) (limit : Nat) :
    ∃ size, 0 < size ∧ ∃ events, events = (past AgentEvent.sequence w.committed cursor).take size ∧
      (w.store.readPage cursor limit).status = .ok ∧
      (w.store.readPage cursor limit).events = events ∧
      (w.store.readPage cursor limit).nextAfterSequence =
        some (nextCursor AgentEvent.sequence events cursor) := by
  refine ⟨min (max limit 1) 1000, by omega, _, rfl, ?_⟩
  have hevents : ((past EventRow.sequence w.store.rows cursor).take (min (max limit 1) 1000)).map
      EventRow.record =
      (past AgentEvent.sequence w.committed cursor).take (min (max limit 1) 1000) := by
    rw [List.map_take, map_record_past]
    show (past _ w.available cursor).take _ = _
    rw [hinv.available_eq, past_past h]
  unfold AgentEventStore.readPage
  rw [if_neg (by omega)]
  refine ⟨rfl, hevents, ?_⟩
  show some (nextCursor _ _ _) = _
  rw [hevents]

theorem delivered_receive_ok (w : Stream) {page : AgentEventPage} (h : page.status = .ok) :
    (w.receive page).delivered = w.delivered ++ page.events := by
  unfold receive delivered
  rw [List.filter_append, List.flatMap_append]
  simp [h]

theorem delivered_receive_tooOld (w : Stream) {page : AgentEventPage}
    (h : page.status = .cursorTooOld) : (w.receive page).delivered = w.delivered := by
  unfold receive delivered
  rw [List.filter_append, List.flatMap_append]
  simp [h]

theorem Inv.read {limit : Nat} (hinv : Inv start w) (h : w.apply sha256 (.read limit) = some w') :
    Inv start w' := by
  obtain ⟨cursor, hcursor, rfl⟩ := Option.map_eq_some_iff.mp h
  have hread : ReadUpTo start w cursor := by
    have := hinv.consumer
    unfold Consumer at this
    rw [hcursor] at this
    exact this
  refine ⟨hinv.increasing, hinv.le_last, hinv.available_eq, hinv.pruned, ?_⟩
  by_cases hold : cursor < w.store.prunedThrough
  · obtain ⟨hstatus, hreq, hnext⟩ := readPage_tooOld hold limit
    unfold Consumer
    rw [show (w.receive _).cursor = none from hnext]
    refine ⟨cursor, ⟨hread.start_le, hread.moved, ?_⟩, ⟨_, ?_, hstatus, hreq⟩, ?_⟩
    · rw [delivered_receive_tooOld w hstatus]
      exact hread.delivered_eq
    · exact List.getLast?_concat
    · rcases hinv.pruned with h0 | ⟨event, hmem, heq⟩
      · omega
      · exact ⟨event, hmem, by omega, Nat.le_of_eq heq⟩
  · obtain ⟨size, _, events, hevents, hstatus, hpage, hnext⟩ :=
      hinv.readPage_ok (Nat.le_of_not_lt hold) limit
    have hle := le_nextCursor AgentEvent.sequence w.committed cursor size
    subst hevents
    unfold Consumer
    rw [show (w.receive _).cursor = some _ from hnext]
    refine ⟨Nat.le_trans hread.start_le hle, ?_, ?_⟩
    · rcases nextCursor_eq_or_mem AgentEvent.sequence w.committed cursor size with
        heq | ⟨event, hmem, heq⟩
      · rw [heq]
        exact hread.moved
      · rw [heq]
        exact .inr (hinv.le_last event hmem)
    · rw [delivered_receive_ok w hstatus, hpage, hread.delivered_eq]
      conv_lhs => rw [page_eq_window hinv.increasing]
      exact window_append_window hinv.increasing hread.start_le hle

theorem Inv.apply {op : StreamOp} (hinv : Inv start w) (h : w.apply sha256 op = some w') :
    Inv start w' := by
  cases op with
  | commit insertions retentionLimit =>
    obtain ⟨v, hv, hretain⟩ := Option.bind_eq_some_iff.mp h
    exact (hinv.insertAll hv).retain hretain
  | read limit => exact hinv.read h

theorem Inv.run {start : Nat} {sha256 : String → String} {ops : List StreamOp} {w w' : Stream}
    (hinv : Inv start w) (h : w.run sha256 ops = some w') : Inv start w' := by
  induction ops generalizing w with
  | nil =>
    cases h
    exact hinv
  | cons op ops ih =>
    obtain ⟨v, hv, hrest⟩ := Option.bind_eq_some_iff.mp h
    exact ih (hinv.apply hv) hrest

/-- The number of pages that the consumer reads. -/
def reads (ops : List StreamOp) : Nat :=
  ops.countP fun
    | .read _ => true
    | .commit _ _ => false

/-- How many events are ahead of the consumer, up to `event`. -/
def ahead (w : Stream) (event : AgentEvent) : Nat :=
  match w.cursor with
  | some cursor => (window AgentEvent.sequence w.committed cursor event.sequence).length
  | none => 0

/-- What a writer leaves to the consumer: its cursor and its pages, and in front of an event
that was committed before the same events. -/
structure Extends (w w' : Stream) : Prop where
  cursor_eq : w'.cursor = w.cursor
  pages_eq : w'.pages = w.pages
  mem : ∀ event ∈ w.committed, event ∈ w'.committed
  window_eq : ∀ event ∈ w.committed, ∀ cursor,
    window AgentEvent.sequence w'.committed cursor event.sequence =
      window AgentEvent.sequence w.committed cursor event.sequence

theorem Extends.refl (w : Stream) : Extends w w :=
  ⟨rfl, rfl, fun _ h => h, fun _ _ _ => rfl⟩

theorem Extends.trans {u v : Stream} (h₁ : Extends u v) (h₂ : Extends v w) : Extends u w where
  cursor_eq := h₂.cursor_eq.trans h₁.cursor_eq
  pages_eq := h₂.pages_eq.trans h₁.pages_eq
  mem := fun event h => h₂.mem event (h₁.mem event h)
  window_eq := fun event h cursor =>
    (h₂.window_eq event (h₁.mem event h) cursor).trans (h₁.window_eq event h cursor)

theorem Inv.extends_insert (hinv : Inv start w) (h : w.insert sha256 ins = some w') :
    Extends w w' := by
  rcases insert_cases h with rfl | ⟨hlt, hcommitted, _, _, _, hcursor, hpages⟩
  · exact Extends.refl w'
  refine ⟨hcursor, hpages, ?_, ?_⟩
  · intro event hmem
    rw [hcommitted]
    exact List.mem_append_left _ hmem
  · intro event hmem cursor
    rw [hcommitted]
    apply window_concat_of_not
    have hle := hinv.le_last event hmem
    have hseq : (ins.event sha256).sequence = ins.rowid := rfl
    omega

theorem Inv.extends_insertAll (hinv : Inv start w) (h : w.insertAll sha256 insertions = some w') :
    Extends w w' := by
  induction insertions generalizing w with
  | nil =>
    cases h
    exact Extends.refl _
  | cons ins rest ih =>
    obtain ⟨v, hv, hrest⟩ := Option.bind_eq_some_iff.mp h
    exact (hinv.extends_insert hv).trans (ih (hinv.insert hv) hrest)

theorem extends_retain (h : w.retain limit = some w') : Extends w w' := by
  rcases retain_cases h with rfl | ⟨row, _, rfl⟩
  · exact Extends.refl w'
  · exact ⟨rfl, rfl, fun _ h => h, fun _ _ _ => rfl⟩

theorem Inv.extends_commit (hinv : Inv start w)
    (h : w.apply sha256 (.commit insertions limit) = some w') : Extends w w' := by
  obtain ⟨v, hv, hretain⟩ := Option.bind_eq_some_iff.mp h
  exact (hinv.extends_insertAll hv).trans (extends_retain hretain)

theorem Extends.ahead_eq (h : Extends w w') (hmem : event ∈ w.committed) :
    w'.ahead event = w.ahead event := by
  unfold ahead
  rw [h.cursor_eq]
  cases w.cursor with
  | none => rfl
  | some cursor => exact congrArg List.length (h.window_eq event hmem cursor)

theorem Inv.ahead_read {limit : Nat} (hinv : Inv start w)
    (h : w.apply sha256 (.read limit) = some w') (hmem : event ∈ w.committed) :
    w'.cursor = none ∨ w'.ahead event ≤ w.ahead event - 1 := by
  obtain ⟨cursor, hcursor, rfl⟩ := Option.map_eq_some_iff.mp h
  by_cases hold : cursor < w.store.prunedThrough
  · exact .inl (readPage_tooOld hold limit).2.2
  right
  obtain ⟨size, hsize, events, rfl, _, _, hnext⟩ := hinv.readPage_ok (Nat.le_of_not_lt hold) limit
  have hnext' : (w.receive (w.store.readPage cursor limit)).cursor = some _ := hnext
  unfold ahead
  rw [hnext', hcursor]
  show (window _ w.committed _ event.sequence).length ≤
    (window _ w.committed cursor event.sequence).length - 1
  by_cases hpast : nextCursor AgentEvent.sequence
      ((past AgentEvent.sequence w.committed cursor).take size) cursor < event.sequence
  · have hle := le_nextCursor AgentEvent.sequence w.committed cursor size
    have hlt := length_window_nextCursor_lt hinv.increasing hmem (a := cursor) (n := size)
      (by omega) hsize hpast
    omega
  · -- The page reached the event: nothing is ahead of it any more.
    have hnil : window AgentEvent.sequence w.committed
        (nextCursor AgentEvent.sequence
          ((past AgentEvent.sequence w.committed cursor).take size) cursor)
        event.sequence = [] := by
      rw [List.eq_nil_iff_forall_not_mem]
      intro x hx
      have := (mem_window.mp hx).2
      omega
    rw [hnil]
    exact Nat.zero_le _

theorem Inv.run_of_cursor_none {ops : List StreamOp} (hinv : Inv start w)
    (hcursor : w.cursor = none) (h : w.run sha256 ops = some w') :
    w'.cursor = none ∧ w'.delivered = w.delivered := by
  induction ops generalizing w with
  | nil =>
    cases h
    exact ⟨hcursor, rfl⟩
  | cons op ops ih =>
    obtain ⟨v, hv, hrest⟩ := Option.bind_eq_some_iff.mp h
    cases op with
    | read limit =>
      unfold Stream.apply at hv
      rw [hcursor] at hv
      cases hv
    | commit insertions limit =>
      have hext := hinv.extends_commit hv
      obtain ⟨hnone, heq⟩ := ih (hinv.apply hv) (hext.cursor_eq.trans hcursor) hrest
      refine ⟨hnone, heq.trans ?_⟩
      unfold delivered
      rw [hext.pages_eq]

theorem Inv.ahead_run {ops : List StreamOp} (hinv : Inv start w) (h : w.run sha256 ops = some w')
    (hmem : event ∈ w.committed) :
    w'.cursor = none ∨ (event ∈ w'.committed ∧ w'.ahead event ≤ w.ahead event - reads ops) := by
  induction ops generalizing w with
  | nil =>
    cases h
    exact .inr ⟨hmem, Nat.le_refl _⟩
  | cons op ops ih =>
    obtain ⟨v, hv, hrest⟩ := Option.bind_eq_some_iff.mp h
    cases op with
    | commit insertions limit =>
      have hext := hinv.extends_commit hv
      refine (ih (hinv.apply hv) hrest (hext.mem event hmem)).imp_right ?_
      rw [hext.ahead_eq hmem]
      exact id
    | read limit =>
      rcases hinv.ahead_read hv hmem with hnone | hle
      · exact .inl ((hinv.apply hv).run_of_cursor_none hnone hrest).1
      · have hmem' : event ∈ v.committed := by
          obtain ⟨cursor, _, rfl⟩ := Option.map_eq_some_iff.mp hv
          exact hmem
        refine (ih (hinv.apply hv) hrest hmem').imp_right ?_
        intro ⟨hin, hahead⟩
        have hreads : reads (.read limit :: ops) = reads ops + 1 := by
          simp [reads]
        exact ⟨hin, by omega⟩

theorem ReadUpTo.count_eq_one (hinv : Inv start w) (hread : ReadUpTo start w cursor)
    (hmem : event ∈ w.committed) (hlt : start < event.sequence) (hle : event.sequence ≤ cursor) :
    w.delivered.count event = 1 := by
  rw [hread.delivered_eq]
  have hin := mem_window.mpr ⟨hmem, hlt, hle⟩
  exact List.count_eq_one_of_mem (hinv.increasing.window start cursor).nodup hin

theorem ReadUpTo.count_eq_zero (hread : ReadUpTo start w cursor) (hlt : cursor < event.sequence) :
    w.delivered.count event = 0 := by
  rw [hread.delivered_eq]
  apply List.count_eq_zero_of_not_mem
  intro hmem
  have := (mem_window.mp hmem).2
  omega

theorem Inv.tooOld_of_pruned (hinv : Inv start w) (hmem : event ∈ w.committed)
    (hlt : cursor < event.sequence) (hgone : event ∉ w.available) (limit : Nat) :
    (w.store.readPage cursor limit).status = .cursorTooOld := by
  have hmark : event.sequence ≤ w.store.prunedThrough := by
    rw [hinv.available_eq, mem_past] at hgone
    by_contra hpast
    exact hgone ⟨hmem, Nat.lt_of_not_le hpast⟩
  exact (readPage_tooOld (Nat.lt_of_lt_of_le hlt hmark) limit).1

end Stream

end Wakterm.Agent
