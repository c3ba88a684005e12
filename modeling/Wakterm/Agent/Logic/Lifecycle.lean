import Wakterm.Agent.Providers

/-!
# Lifecycle events and the projection

The lifecycle of an agent is kept as the events stored for its incarnation, and in its projection.
-/

namespace Wakterm.Agent

open Wakterm.Machine

variable {Cursor : Type} {sha256 : String → String} {gap : Nat → Nat}

/-! ## What an observation changes -/

/-- An event that is not about the lifecycle. -/
def PendingEvent.Other (event : PendingEvent) : Prop := event.kind ≠ .agentLifecycle

theorem noteProvider_other (sha256 : String → String) (state : ProjectionState Cursor) (current : String)
    (obs : Observation Cursor) :
    (noteProvider sha256 state current obs).1.incarnationId = state.incarnationId ∧
      (noteProvider sha256 state current obs).1.lifecycle = state.lifecycle ∧
      ∀ p ∈ (noteProvider sha256 state current obs).2, p.2.Other := by
  unfold noteProvider
  cases obs.provider with
  | none => exact ⟨rfl, rfl, by simp⟩
  | some project =>
    dsimp only
    split
    · exact ⟨rfl, rfl, by simp⟩
    · cases project state.cursor with
      | ok projected =>
        refine ⟨rfl, rfl, ?_⟩
        intro p hp
        obtain ⟨event, hevent, rfl⟩ := List.mem_map.mp hp
        exact projected.not_lifecycle event hevent
      | error err =>
        refine ⟨rfl, rfl, ?_⟩
        intro p hp
        dsimp only at hp
        split at hp
        · obtain rfl := List.mem_singleton.mp hp
          simp [PendingEvent.Other, observerFailure, PendingEvent.new]
        · cases hp

theorem noteObserverError_other (sha256 : String → String) (state : ProjectionState Cursor) (current : String)
    (obs : Observation Cursor) :
    (noteObserverError sha256 state current obs).1.incarnationId = state.incarnationId ∧
      (noteObserverError sha256 state current obs).1.lifecycle = state.lifecycle ∧
      ∀ p ∈ (noteObserverError sha256 state current obs).2, p.2.Other := by
  unfold noteObserverError
  cases obs.observerError with
  | none =>
    dsimp only
    split <;> exact ⟨rfl, rfl, by simp⟩
  | some detail =>
    refine ⟨rfl, rfl, ?_⟩
    intro p hp
    dsimp only at hp
    split at hp
    · obtain rfl := List.mem_singleton.mp hp
      simp [PendingEvent.Other, observerFailure, PendingEvent.new]
    · cases hp

/-- The lifecycle of `current` is already what the observation finds. -/
def Unchanged (loaded : ProjectionState Cursor) (current : String) (alive : Bool) : Prop :=
  loaded.incarnationId = current ∧ loaded.lifecycle = some (observedLifecycle alive)

instance (loaded : ProjectionState Cursor) (current : String) (alive : Bool) :
    Decidable (Unchanged loaded current alive) := inferInstanceAs (Decidable (_ ∧ _))

/-- The generation that the next lifecycle event of `current` is numbered after. -/
def generationBefore (loaded : ProjectionState Cursor) (current : String) : Nat :=
  if loaded.incarnationId ≠ "" ∧ loaded.incarnationId ≠ current then 0
  else loaded.lifecycleGeneration

/-- The lifecycle event that an observation records for `current`, where it changed. -/
def changeEvent (loaded : ProjectionState Cursor) (current : String) (alive : Bool)
    (observedAt : DateTime) : PendingEvent :=
  lifecycleEvent current (generationBefore loaded current + 1) (observedLifecycle alive) observedAt
    (observedLifecycle alive) (if alive then none else some "process_exited")

variable {loaded : ProjectionState Cursor}

theorem noteLifecycle_spec (hdefault : loaded.incarnationId = "" → loaded.lifecycle = none)
    (current : String) (alive : Bool) (observedAt : DateTime) :
    let replaced := replaceIncarnation loaded current observedAt
    let noted := noteLifecycle { replaced.1 with incarnationId := current } current alive observedAt
    noted.1.incarnationId = current ∧ noted.1.lifecycle = some (observedLifecycle alive) ∧
      noted.2 = (if Unchanged loaded current alive then []
        else [(current, changeEvent loaded current alive observedAt)]) ∧
      ∀ p ∈ replaced.2, p.1 ≠ current ∧ ∃ key, p.2.sourceKey = key ++ "unavailable:replaced" := by
  unfold replaceIncarnation
  by_cases hrep : loaded.incarnationId ≠ "" ∧ loaded.incarnationId ≠ current
  · -- the projection starts over, so the lifecycle is a new one
    have hchanged : ¬ Unchanged loaded current alive := fun h => hrep.2 h.1
    rw [if_pos hrep, if_neg hchanged]
    have hnew : (none : Option String) ≠ some (observedLifecycle alive) := by simp
    dsimp only [noteLifecycle, ProjectionState.default]
    rw [if_pos hnew]
    refine ⟨rfl, rfl, ?_, ?_⟩
    · rw [changeEvent, generationBefore, if_pos hrep]
    · intro p hp
      obtain rfl := List.mem_singleton.mp hp
      exact ⟨hrep.2, _, rfl⟩
  · rw [if_neg hrep]
    dsimp only [noteLifecycle]
    by_cases hsame : loaded.lifecycle = some (observedLifecycle alive)
    · have hcurrent : loaded.incarnationId = current := by
        by_contra hne
        refine hrep ⟨?_, hne⟩
        intro hempty
        rw [hdefault hempty] at hsame
        cases hsame
      rw [if_neg (not_not.mpr hsame), if_pos ⟨hcurrent, hsame⟩]
      exact ⟨rfl, hsame, rfl, by simp⟩
    · have hchanged : ¬ Unchanged loaded current alive := fun h => hsame h.2
      rw [if_pos hsame, if_neg hchanged]
      refine ⟨rfl, rfl, ?_, by simp⟩
      rw [changeEvent, generationBefore, if_neg hrep]

theorem observe_spec (sha256 : String → String)
    (hdefault : loaded.incarnationId = "" → loaded.lifecycle = none) (current : String)
    (obs : Observation Cursor) : (observe sha256 loaded current obs).1.incarnationId = current ∧
      (observe sha256 loaded current obs).1.lifecycle = some (observedLifecycle obs.alive) ∧
      ∃ replaced others, (observe sha256 loaded current obs).2 = replaced ++
          (if Unchanged loaded current obs.alive then []
            else [(current, changeEvent loaded current obs.alive obs.observedAt)]) ++ others ∧
        (∀ p ∈ replaced, p.1 ≠ current ∧ ∃ key, p.2.sourceKey = key ++ "unavailable:replaced") ∧
        ∀ p ∈ others, p.2.Other := by
  obtain ⟨hid, hlife, hevents, hreplaced⟩ :=
    noteLifecycle_spec hdefault current obs.alive obs.observedAt
  unfold observe
  dsimp only at hid hlife hevents hreplaced ⊢
  generalize hnoted : noteLifecycle _ current obs.alive obs.observedAt = noted at *
  obtain ⟨hid₁, hlife₁, hother₁⟩ := noteProvider_other sha256 noted.1 current obs
  generalize noteProvider sha256 noted.1 current obs = provided at *
  obtain ⟨hid₂, hlife₂, hother₂⟩ := noteObserverError_other sha256 provided.1 current obs
  refine ⟨hid₂.trans (hid₁.trans hid), hlife₂.trans (hlife₁.trans hlife), _,
    provided.2 ++ (noteObserverError sha256 provided.1 current obs).2, ?_, hreplaced, ?_⟩
  · rw [← hevents, List.append_assoc, List.append_assoc]
  · intro p hp
    rcases List.mem_append.mp hp with hp | hp
    · exact hother₁ p hp
    · exact hother₂ p hp

/-! ## The stored lifecycle -/

namespace AgentEventDb

variable {db db' : AgentEventDb Cursor}

/-- The lifecycle events stored for an incarnation, oldest first. -/
def lifecycles (db : AgentEventDb Cursor) (agentId incarnation : String) : List AgentEvent :=
  (db.events.rows.map EventRow.record).filter fun event =>
    event.kind = .agentLifecycle ∧ event.agentId = agentId ∧ event.incarnationId = incarnation

/-- The key under which `insert_event` stores an event. -/
def eventKey (agentId incarnation : String) (pending : PendingEvent) : String :=
  agentId ++ "\x00" ++ incarnation ++ "\x00" ++ pending.sourceKey

/-- The events of the agent are all still there. -/
def Unpruned (db : AgentEventDb Cursor) (agentId : String) : Prop :=
  ∀ row ∈ db.removed, row.record.agentId ≠ agentId

instance (db : AgentEventDb Cursor) (agentId : String) : Decidable (db.Unpruned agentId) :=
  inferInstanceAs (Decidable (∀ row ∈ db.removed, row.record.agentId ≠ agentId))

/-- The event stored latest for the current incarnation says what the projection says. -/
def Agrees (db : AgentEventDb Cursor) (agentId : String) (state : ProjectionState Cursor) : Prop :=
  ∃ event, (db.lifecycles agentId state.incarnationId).getLast? = some event ∧
    event.lifecycle = state.lifecycle

/-- The projection of the agent, if it has one, is of an incarnation and agrees with the stored
events, unless those were pruned. -/
def Tracks (db : AgentEventDb Cursor) (agentId : String) : Prop :=
  ∀ state, db.projections.lookup agentId = some state →
    state.incarnationId ≠ "" ∧ (db.Unpruned agentId → db.Agrees agentId state)

theorem tracks_empty (agentId : String) : Tracks (empty : AgentEventDb Cursor) agentId := by
  intro state h
  cases h

variable {incarnation agentId inc a key current : String} {pending : PendingEvent}
  {state : ProjectionState Cursor} {now : DateTime}
  {entries : List (Sigma fun _ : String => ProjectionState Cursor)}

theorem insert_cases (h : db.insert sha256 gap agentId incarnation pending = some db') :
    db' = db ∧ db.events.hasKey (eventKey agentId incarnation pending) = true ∨
      db.events.hasKey (eventKey agentId incarnation pending) = false ∧
        db'.projections = db.projections ∧ db'.removed = db.removed ∧
        ∃ rowid, db'.events.rows = db.events.rows ++ [⟨eventKey agentId incarnation pending,
            Insertion.event sha256 ⟨agentId, incarnation, pending, rowid⟩⟩] := by
  obtain ⟨events, hevents, rfl⟩ := Option.map_eq_some_iff.mp h
  unfold AgentEventStore.insertEvent at hevents
  cases hkey : db.events.hasKey (eventKey agentId incarnation pending) with
  | true =>
    cases (if_pos hkey).symm.trans hevents
    exact .inl ⟨rfl, rfl⟩
  | false =>
    replace hevents := (if_neg (by
      show ¬ db.events.hasKey (eventKey agentId incarnation pending) = true
      simp [hkey])).symm.trans hevents
    split at hevents
    · cases hevents
      exact .inr ⟨rfl, rfl, rfl, _, rfl⟩
    · cases hevents

theorem insert_frame (h : db.insert sha256 gap agentId incarnation pending = some db') :
    db'.projections = db.projections ∧ db'.removed = db.removed := by
  rcases insert_cases h with ⟨rfl, -⟩ | ⟨-, hproj, hrem, -⟩
  · exact ⟨rfl, rfl⟩
  · exact ⟨hproj, hrem⟩

theorem lifecycles_insert_of_ne (h : db.insert sha256 gap agentId incarnation pending = some db')
    (hne : pending.Other ∨ agentId ≠ a ∨ incarnation ≠ inc) :
    db'.lifecycles a inc = db.lifecycles a inc := by
  rcases insert_cases h with ⟨rfl, -⟩ | ⟨-, -, -, rowid, hrows⟩
  · rfl
  · unfold lifecycles
    rw [hrows, List.map_append, List.filter_append, List.map_singleton,
      List.filter_cons_of_neg, List.filter_nil, List.append_nil]
    rw [decide_eq_true_eq]
    rintro ⟨hkind, hagent, hinc⟩
    rcases hne with hne | hne | hne
    · exact hne hkind
    · exact hne hagent
    · exact hne hinc

theorem lifecycles_insert_new (h : db.insert sha256 gap agentId incarnation pending = some db')
    (hkind : pending.kind = .agentLifecycle)
    (hnew : db.events.hasKey (eventKey agentId incarnation pending) = false) :
    ∃ event, (db'.lifecycles agentId incarnation).getLast? = some event ∧
      event.lifecycle = pending.lifecycle := by
  rcases insert_cases h with ⟨-, hkey⟩ | ⟨-, -, -, rowid, hrows⟩
  · rw [hnew] at hkey
    cases hkey
  · refine ⟨Insertion.event sha256 ⟨agentId, incarnation, pending, rowid⟩, ?_, rfl⟩
    unfold lifecycles
    rw [hrows, List.map_append, List.filter_append, List.map_singleton,
      List.filter_cons_of_pos, List.filter_nil, List.getLast?_concat]
    rw [decide_eq_true_eq]
    exact ⟨hkind, rfl, rfl⟩

theorem hasKey_insert (h : db.insert sha256 gap agentId incarnation pending = some db')
    (hkey : db.events.hasKey key = false) (hne : eventKey agentId incarnation pending ≠ key) :
    db'.events.hasKey key = false := by
  rcases insert_cases h with ⟨rfl, -⟩ | ⟨-, -, -, rowid, hrows⟩
  · exact hkey
  · unfold AgentEventStore.hasKey at hkey ⊢
    rw [hrows, List.any_append, hkey]
    simpa using hne

theorem applyRetention_rows {store store' : AgentEventStore} {limit : Nat}
    (h : store.applyRetention limit = some store') :
    ∃ kept : EventRow → Bool, store'.rows = store.rows.filter kept := by
  unfold AgentEventStore.applyRetention at h
  dsimp only at h
  split at h
  · cases h
    exact ⟨fun _ => true, (List.filter_true _).symm⟩
  · split at h
    · cases h
    · cases h
      exact ⟨_, rfl⟩

theorem retain_spec {limit : Nat} (h : db.retain limit = some db') :
    db'.projections = db.projections ∧
      ∀ a, db'.Unpruned a → db.Unpruned a ∧ ∀ inc, db'.lifecycles a inc = db.lifecycles a inc := by
  obtain ⟨events, hevents, rfl⟩ := Option.map_eq_some_iff.mp h
  obtain ⟨kept, hkept⟩ := applyRetention_rows hevents
  refine ⟨rfl, ?_⟩
  intro a hun
  refine ⟨fun row hrow => hun row (List.mem_append_left _ hrow), ?_⟩
  intro inc
  show (events.rows.map EventRow.record).filter _ = (db.events.rows.map EventRow.record).filter _
  rw [hkept, List.filter_map, List.filter_map, List.filter_filter]
  congr 1
  apply List.filter_congr
  intro row hrow
  -- a row of the agent was not removed
  cases hrowKept : kept row with
  | true => exact Bool.and_true _
  | false =>
    have hgone : row ∈ db.events.rows.filter (fun row => row ∉ events.rows) := by
      rw [List.mem_filter, decide_eq_true_eq, hkept, List.mem_filter]
      exact ⟨hrow, fun hmem => by simp [hrowKept] at hmem⟩
    have hother := hun row (List.mem_append_right _ hgone)
    rw [Bool.and_false]
    symm
    rw [Function.comp_apply, decide_eq_false_iff_not]
    exact fun hlife => hother hlife.2.1

/-! ## Several insertions -/

theorem insertAll_append (xs ys : List (String × PendingEvent)) (db : AgentEventDb Cursor)
    (agentId : String) : db.insertAll sha256 gap agentId (xs ++ ys) =
      (db.insertAll sha256 gap agentId xs).bind fun db => db.insertAll sha256 gap agentId ys := by
  induction xs generalizing db with
  | nil => rfl
  | cons x xs ih =>
    show (db.insert sha256 gap agentId x.1 x.2).bind
        (fun db => db.insertAll sha256 gap agentId (xs ++ ys)) =
      ((db.insert sha256 gap agentId x.1 x.2).bind
        fun db => db.insertAll sha256 gap agentId xs).bind _
    rw [Option.bind_assoc]
    congr 1
    funext db
    exact ih db

theorem insertAll_frame {pending : List (String × PendingEvent)}
    (h : db.insertAll sha256 gap agentId pending = some db') :
    db'.projections = db.projections ∧ db'.removed = db.removed := by
  induction pending generalizing db with
  | nil =>
    cases h
    exact ⟨rfl, rfl⟩
  | cons x rest ih =>
    obtain ⟨db₁, hx, hrest⟩ := Option.bind_eq_some_iff.mp h
    obtain ⟨hproj, hrem⟩ := insert_frame hx
    obtain ⟨hproj', hrem'⟩ := ih hrest
    exact ⟨hproj'.trans hproj, hrem'.trans hrem⟩

theorem lifecycles_insertAll_of_ne {pending : List (String × PendingEvent)}
    (h : db.insertAll sha256 gap agentId pending = some db')
    (hne : ∀ p ∈ pending, p.2.Other ∨ agentId ≠ a ∨ p.1 ≠ inc) :
    db'.lifecycles a inc = db.lifecycles a inc := by
  induction pending generalizing db with
  | nil =>
    cases h
    rfl
  | cons x rest ih =>
    obtain ⟨db₁, hx, hrest⟩ := Option.bind_eq_some_iff.mp h
    rw [ih hrest fun p hp => hne p (List.mem_cons_of_mem _ hp)]
    exact lifecycles_insert_of_ne hx (hne x List.mem_cons_self)

theorem hasKey_insertAll {pending : List (String × PendingEvent)}
    (h : db.insertAll sha256 gap agentId pending = some db') (hkey : db.events.hasKey key = false)
    (hne : ∀ p ∈ pending, eventKey agentId p.1 p.2 ≠ key) : db'.events.hasKey key = false := by
  induction pending generalizing db with
  | nil =>
    cases h
    exact hkey
  | cons x rest ih =>
    obtain ⟨db₁, hx, hrest⟩ := Option.bind_eq_some_iff.mp h
    exact ih hrest (hasKey_insert hx hkey (hne x List.mem_cons_self))
      fun p hp => hne p (List.mem_cons_of_mem _ hp)

theorem getLast?_toList_append (s : String) {t : String} {c : Char}
    (h : t.toList.getLast? = some c) : (s ++ t).toList.getLast? = some c := by
  rw [String.toList_append, List.getLast?_append, h]
  rfl

theorem eventKey_replaced_ne {replaced : PendingEvent}
    (hreplaced : replaced.sourceKey = key ++ "unavailable:replaced")
    (loaded : ProjectionState Cursor) (alive : Bool) (observedAt : DateTime) :
    eventKey agentId inc replaced ≠
      eventKey agentId current (changeEvent loaded current alive observedAt) := by
  intro heq
  -- one ends in "replaced", the other in "available"
  have hd : (eventKey agentId inc replaced).toList.getLast? = some 'd' := by
    unfold eventKey
    apply getLast?_toList_append
    rw [hreplaced]
    exact getLast?_toList_append _ rfl
  have he : (eventKey agentId current (changeEvent loaded current alive observedAt)).toList.getLast? =
      some 'e' := by
    apply getLast?_toList_append
    apply getLast?_toList_append
    cases alive <;> rfl
  rw [heq, he] at hd
  exact absurd hd (by decide)

/-! ## When a call keeps the two in step -/

variable (sha256) in
/-- The key of the lifecycle event that a call records for the incarnation of the agent that is
current after it. -/
def recordedKey (db : AgentEventDb Cursor) (agentId : String) : Op Cursor → Option String
  | .observeAgent obs =>
    if obs.metadata.agentId ≠ agentId then none
    else (incarnationId sha256 obs.metadata).bind fun current =>
      if Unchanged (db.load agentId) current obs.alive then none
      else some (eventKey agentId current
        (changeEvent (db.load agentId) current obs.alive obs.observedAt))
  | .recordUnavailable metadata observedAt reason =>
    if metadata.agentId ≠ agentId then none
    else (incarnationId sha256 metadata).bind fun incarnation =>
      if (db.load agentId).incarnationId = incarnation ∧
          (db.load agentId).lifecycle ≠ some "unavailable" then
        some (eventKey agentId incarnation
          (unavailableEvent (db.load agentId) incarnation reason observedAt))
      else none
  | .startRuntimeEpoch now =>
    (db.projections.lookup agentId).bind fun state =>
      if stranded state then
        some (eventKey agentId state.incarnationId
          (restartEvent db.events.latestSequence now state))
      else none

/-- The keys that a call records for the other agents. -/
def otherKeys (db : AgentEventDb Cursor) (agentId : String) : Op Cursor → List String
  | .startRuntimeEpoch now =>
    (db.projections.entries.filter fun entry => entry.1 ≠ agentId).map fun entry =>
      eventKey entry.1 entry.2.incarnationId (restartEvent db.events.latestSequence now entry.2)
  | _ => []

variable (sha256) in
/-- The lifecycle event that a call records for the current incarnation of the agent is stored:
its key is a new one. -/
def NewKey (db : AgentEventDb Cursor) (agentId : String) (op : Op Cursor) : Prop :=
  ∀ key ∈ db.recordedKey sha256 agentId op,
    db.events.hasKey key = false ∧ key ∉ db.otherKeys agentId op

theorem Tracks.default_of_empty (h : db.Tracks agentId)
    (hempty : (db.load agentId).incarnationId = "") : db.projections.lookup agentId = none := by
  cases hlook : db.projections.lookup agentId with
  | none => rfl
  | some state =>
    rw [load, hlook] at hempty
    exact absurd hempty (h state hlook).1

theorem load_of_lookup_none (h : db.projections.lookup agentId = none) :
    db.load agentId = .default := by
  rw [load, h]
  rfl

theorem Tracks.frame (h : db.Tracks a) (hlook : db'.projections.lookup a = db.projections.lookup a)
    (hpruned : db'.Unpruned a → db.Unpruned a)
    (hlife : db'.Unpruned a → ∀ inc, db'.lifecycles a inc = db.lifecycles a inc) :
    db'.Tracks a := by
  intro state hstate
  rw [hlook] at hstate
  obtain ⟨hne, hagrees⟩ := h state hstate
  refine ⟨hne, ?_⟩
  intro hun
  obtain ⟨event, hlast, heq⟩ := hagrees (hpruned hun)
  refine ⟨event, ?_, heq⟩
  rw [hlife hun]
  exact hlast

theorem Tracks.retain {limit : Nat} (h : db.Tracks a) (hret : db.retain limit = some db') :
    db'.Tracks a := by
  obtain ⟨hproj, hspec⟩ := retain_spec hret
  exact h.frame (by rw [hproj]) (fun hun => (hspec a hun).1) fun hun => (hspec a hun).2

theorem tracks_save (hne : state.incarnationId ≠ "") (hagrees : db.Unpruned a → db.Agrees a state) :
    (db.save a state).Tracks a := by
  intro state' hstate
  cases (AList.lookup_insert _).symm.trans hstate
  exact ⟨hne, hagrees⟩

theorem lookup_save_of_ne (hne : a ≠ agentId) (state : ProjectionState Cursor) :
    (db.save agentId state).projections.lookup a = db.projections.lookup a :=
  AList.lookup_insert_ne hne

variable {limit : Nat}

theorem incarnationId_ne (hsha : ∀ text, sha256 text ≠ "") {metadata : AgentMetadata}
    (h : incarnationId sha256 metadata = some current) : current ≠ "" := by
  unfold incarnationId at h
  split at h
  · exact Option.some.inj h ▸ hsha _
  · simp only [Option.bind_eq_bind, Option.bind_eq_some_iff] at h
    obtain ⟨pid, -, startTime, -, h⟩ := h
    exact Option.some.inj h ▸ hsha _

theorem agrees_observe {obs : Observation Cursor}
    (hdefault : (db.load agentId).incarnationId = "" → (db.load agentId).lifecycle = none)
    (hinsert : db.insertAll sha256 gap agentId
      (observe sha256 (db.load agentId) current obs).2 = some db')
    (hbefore : Unchanged (db.load agentId) current obs.alive → db.Agrees agentId (db.load agentId))
    (hkey : ¬ Unchanged (db.load agentId) current obs.alive →
      db.events.hasKey (eventKey agentId current
        (changeEvent (db.load agentId) current obs.alive obs.observedAt)) = false) :
    db'.Agrees agentId (observe sha256 (db.load agentId) current obs).1 := by
  obtain ⟨hid, hlife, replaced, others, hpending, hreplaced, hothers⟩ :=
    observe_spec sha256 hdefault current obs
  rw [hpending, insertAll_append] at hinsert
  obtain ⟨db₂, hinsert, hothers'⟩ := Option.bind_eq_some_iff.mp hinsert
  rw [insertAll_append] at hinsert
  obtain ⟨db₁, hreplaced', hchange⟩ := Option.bind_eq_some_iff.mp hinsert
  rw [Agrees, hid, hlife,
    lifecycles_insertAll_of_ne hothers' fun p hp => .inl (hothers p hp)]
  by_cases hsame : Unchanged (db.load agentId) current obs.alive
  · -- no lifecycle event: the one stored before is still the latest
    rw [if_pos hsame] at hchange
    cases hchange
    obtain ⟨event, hlast, heq⟩ := hbefore hsame
    rw [hsame.1] at hlast
    rw [hsame.2] at heq
    rw [lifecycles_insertAll_of_ne hreplaced' fun p hp => .inr (.inr (hreplaced p hp).1)]
    exact ⟨event, hlast, heq⟩
  · rw [if_neg hsame] at hchange
    obtain ⟨db₃, hone, hnil⟩ := Option.bind_eq_some_iff.mp hchange
    cases hnil
    refine lifecycles_insert_new hone rfl (hasKey_insertAll hreplaced' (hkey hsame) ?_)
    intro p hp
    obtain ⟨-, key, hp⟩ := hreplaced p hp
    exact eventKey_replaced_ne hp _ _ _

theorem Tracks.agrees_load (h : db.Tracks a) (hun : db.Unpruned a)
    (hlife : (db.load a).lifecycle ≠ none) : db.Agrees a (db.load a) := by
  cases hlook : db.projections.lookup a with
  | none =>
    rw [load_of_lookup_none hlook] at hlife
    exact absurd rfl hlife
  | some state =>
    have hload : db.load a = state := by
      rw [load, hlook]
      rfl
    rw [hload]
    exact (h state hlook).2 hun

theorem Tracks.observeAgent [DecidableEq Cursor] (hsha : ∀ text, sha256 text ≠ "") (h : db.Tracks a)
    {obs : Observation Cursor} (hnew : db.NewKey sha256 a (.observeAgent obs))
    (hop : db.observeAgent sha256 gap limit obs = some db') : db'.Tracks a := by
  unfold AgentEventDb.observeAgent at hop
  dsimp only at hop
  cases hinc : incarnationId sha256 obs.metadata with
  | none =>
    rw [hinc] at hop
    exact Option.some.inj hop ▸ h
  | some current =>
    rw [hinc] at hop
    dsimp only at hop
    split at hop
    · exact Option.some.inj hop ▸ h
    obtain ⟨db₁, hinsert, hret⟩ := Option.bind_eq_some_iff.mp hop
    obtain ⟨hproj, hrem⟩ := insertAll_frame hinsert
    refine Tracks.retain ?_ hret
    by_cases hagent : obs.metadata.agentId = a
    · subst hagent
      have hdefault : (db.load obs.metadata.agentId).incarnationId = "" →
          (db.load obs.metadata.agentId).lifecycle = none := by
        intro hempty
        rw [load_of_lookup_none (h.default_of_empty hempty)]
        rfl
      refine tracks_save ?_ ?_
      · rw [(observe_spec sha256 hdefault current obs).1]
        exact incarnationId_ne hsha hinc
      · intro hun
        have hun₀ : db.Unpruned obs.metadata.agentId := fun row hrow => hun row (hrem.symm ▸ hrow)
        refine agrees_observe hdefault hinsert ?_ ?_
        · intro hsame
          exact h.agrees_load hun₀ (by simp [hsame.2])
        · intro hchanged
          exact (hnew _ (by simp [recordedKey, hinc, hchanged])).1
    · -- another agent was observed
      refine h.frame ?_ ?_ ?_
      · rw [lookup_save_of_ne (Ne.symm hagent), hproj]
      · intro hun row hrow
        exact hun row (hrem.symm ▸ hrow)
      · intro _ inc
        show db₁.lifecycles a inc = db.lifecycles a inc
        exact lifecycles_insertAll_of_ne hinsert fun _ _ => .inr (.inl hagent)

theorem tracks_withdrawn (hne : state.incarnationId ≠ "") (hkind : pending.kind = .agentLifecycle)
    (hlife : pending.lifecycle = some "unavailable")
    (hnew : db.events.hasKey (eventKey a state.incarnationId pending) = false)
    (hinsert : db.insert sha256 gap a state.incarnationId pending = some db') :
    (db'.save a (withdrawn state)).Tracks a := by
  refine tracks_save hne ?_
  intro _
  obtain ⟨event, hlast, heq⟩ := lifecycles_insert_new hinsert hkind hnew
  exact ⟨event, hlast, heq.trans hlife⟩

theorem Tracks.recordUnavailable (hsha : ∀ text, sha256 text ≠ "") (h : db.Tracks a)
    {metadata : AgentMetadata} {observedAt : DateTime} {reason : String}
    (hnew : db.NewKey sha256 a (.recordUnavailable metadata observedAt reason))
    (hop : db.recordUnavailable sha256 gap limit metadata observedAt reason = some db') :
    db'.Tracks a := by
  unfold AgentEventDb.recordUnavailable at hop
  dsimp only at hop
  cases hinc : incarnationId sha256 metadata with
  | none =>
    rw [hinc] at hop
    exact Option.some.inj hop ▸ h
  | some incarnation =>
    rw [hinc] at hop
    dsimp only at hop
    split at hop
    · next hcond =>
      obtain ⟨db₁, hinsert, hret⟩ := Option.bind_eq_some_iff.mp hop
      obtain ⟨hproj, hrem⟩ := insert_frame hinsert
      refine Tracks.retain ?_ hret
      by_cases hagent : metadata.agentId = a
      · subst hagent
        have hkey := (hnew (eventKey metadata.agentId incarnation
          (unavailableEvent (db.load metadata.agentId) incarnation reason observedAt))
          (by simp [recordedKey, hinc, hcond])).1
        obtain ⟨rfl, -⟩ := hcond
        exact tracks_withdrawn (incarnationId_ne hsha hinc) rfl rfl hkey hinsert
      · refine h.frame ?_ ?_ ?_
        · rw [lookup_save_of_ne (Ne.symm hagent), hproj]
        · intro hun row hrow
          exact hun row (hrem.symm ▸ hrow)
        · intro _ inc
          show db₁.lifecycles a inc = db.lifecycles a inc
          exact lifecycles_insert_of_ne hinsert (.inr (.inl hagent))
    · exact Option.some.inj hop ▸ h

theorem restartAll_of_not_mem {previousLatest : Nat} (hmem : a ∉ entries.keys)
    (h : restartAll sha256 gap previousLatest now db entries = some db') :
    db'.projections.lookup a = db.projections.lookup a ∧ db'.removed = db.removed ∧
      ∀ inc, db'.lifecycles a inc = db.lifecycles a inc := by
  induction entries generalizing db with
  | nil =>
    cases h
    exact ⟨rfl, rfl, fun _ => rfl⟩
  | cons entry entries ih =>
    obtain ⟨agentId, state⟩ := entry
    rw [List.keys_cons, List.mem_cons, not_or] at hmem
    unfold restartAll at h
    split at h
    · obtain ⟨db₁, hinsert, hrest⟩ := Option.bind_eq_some_iff.mp h
      obtain ⟨hlook, hrem, hlife⟩ := ih hmem.2 hrest
      obtain ⟨hproj₁, hrem₁⟩ := insert_frame hinsert
      refine ⟨?_, hrem.trans hrem₁, ?_⟩
      · rw [hlook, lookup_save_of_ne hmem.1, hproj₁]
      · intro inc
        refine (hlife inc).trans ?_
        show db₁.lifecycles a inc = db.lifecycles a inc
        exact lifecycles_insert_of_ne hinsert (.inr (.inl (Ne.symm hmem.1)))
    · exact ih hmem.2 h

theorem Tracks.restartAll {previousLatest : Nat} (htracks : db.Tracks a)
    (hnodup : entries.NodupKeys)
    (hmem : (⟨a, state⟩ : Sigma fun _ : String => ProjectionState Cursor) ∈ entries)
    (hlook : db.projections.lookup a = some state) (hnew : stranded state = true →
      db.events.hasKey (eventKey a state.incarnationId (restartEvent previousLatest now state)) =
          false ∧ ∀ entry ∈ entries, entry.1 ≠ a →
          eventKey entry.1 entry.2.incarnationId (restartEvent previousLatest now entry.2) ≠
            eventKey a state.incarnationId (restartEvent previousLatest now state))
    (h : AgentEventDb.restartAll sha256 gap previousLatest now db entries = some db') :
    db'.Tracks a := by
  induction entries generalizing db with
  | nil => cases hmem
  | cons entry entries ih =>
    obtain ⟨agentId, other⟩ := entry
    rw [List.nodupKeys_cons] at hnodup
    unfold AgentEventDb.restartAll at h
    by_cases hagent : agentId = a
    · -- the agent's own turn; it does not come again
      subst hagent
      have hstate : other = state := by
        rcases List.mem_cons.mp hmem with heq | hmem
        · obtain ⟨-, heq⟩ := Sigma.mk.inj heq
          exact (eq_of_heq heq).symm
        · exact absurd (List.mem_keys_of_mem hmem) hnodup.1
      subst hstate
      split at h
      · next hstranded =>
        obtain ⟨db₁, hinsert, hrest⟩ := Option.bind_eq_some_iff.mp h
        obtain ⟨hlook', hrem', hlife'⟩ := restartAll_of_not_mem hnodup.1 hrest
        have hne := (htracks other hlook).1
        refine (tracks_withdrawn hne rfl rfl (hnew hstranded).1 hinsert).frame hlook' ?_
          fun _ => hlife'
        intro hun row hrow
        exact hun row (hrem'.symm ▸ hrow)
      · obtain ⟨hlook', hrem', hlife'⟩ := restartAll_of_not_mem hnodup.1 h
        refine htracks.frame hlook' ?_ fun _ => hlife'
        intro hun row hrow
        exact hun row (hrem'.symm ▸ hrow)
    · have hmem' : (⟨a, state⟩ : Sigma fun _ : String => ProjectionState Cursor) ∈ entries := by
        rcases List.mem_cons.mp hmem with heq | hmem
        · exact absurd (Sigma.mk.inj heq).1.symm hagent
        · exact hmem
      split at h
      · obtain ⟨db₁, hinsert, hrest⟩ := Option.bind_eq_some_iff.mp h
        obtain ⟨hproj₁, hrem₁⟩ := insert_frame hinsert
        have hlook₁ : (db₁.save agentId (withdrawn other)).projections.lookup a =
            db.projections.lookup a := by
          rw [lookup_save_of_ne (Ne.symm hagent), hproj₁]
        refine ih ?_ hnodup.2 hmem' (hlook₁.trans hlook) ?_ hrest
        · refine htracks.frame hlook₁ ?_ ?_
          · intro hun row hrow
            exact hun row (hrem₁.symm ▸ hrow)
          · intro _ inc
            show db₁.lifecycles a inc = db.lifecycles a inc
            exact lifecycles_insert_of_ne hinsert (.inr (.inl hagent))
        · intro hstranded
          obtain ⟨hkey, hothers⟩ := hnew hstranded
          have hother := hothers ⟨agentId, other⟩ List.mem_cons_self hagent
          have hkey₁ := hasKey_insert hinsert hkey hother
          exact ⟨hkey₁, fun entry hentry => hothers entry (List.mem_cons_of_mem _ hentry)⟩
      · refine ih htracks hnodup.2 hmem' hlook ?_ h
        intro hstranded
        obtain ⟨hkey, hothers⟩ := hnew hstranded
        exact ⟨hkey, fun entry hentry => hothers entry (List.mem_cons_of_mem _ hentry)⟩

theorem Tracks.startRuntimeEpoch (h : db.Tracks a)
    (hnew : db.NewKey sha256 a (.startRuntimeEpoch now))
    (hop : db.startRuntimeEpoch sha256 gap limit now = some db') : db'.Tracks a := by
  obtain ⟨db₁, hloop, hret⟩ := Option.bind_eq_some_iff.mp hop
  refine Tracks.retain ?_ hret
  cases hlook : db.projections.lookup a with
  | none =>
    have hmem : a ∉ db.projections.entries.keys := AList.lookup_eq_none.mp hlook
    obtain ⟨hlook', hrem', hlife'⟩ := restartAll_of_not_mem hmem hloop
    refine h.frame hlook' ?_ fun _ => hlife'
    intro hun row hrow
    exact hun row (hrem'.symm ▸ hrow)
  | some state =>
    refine h.restartAll db.projections.nodupKeys (AList.mem_lookup_iff.mp hlook) hlook ?_ hloop
    intro hstranded
    obtain ⟨hkey, hothers⟩ := hnew (eventKey a state.incarnationId
      (restartEvent db.events.latestSequence now state)) (by simp [recordedKey, hlook, hstranded])
    refine ⟨hkey, ?_⟩
    intro entry hentry hne heq
    apply hothers
    rw [← heq]
    exact List.mem_map_of_mem (List.mem_filter.mpr ⟨hentry, by simpa using hne⟩)

/-! ## Runs -/

variable [DecidableEq Cursor]

theorem Tracks.apply (hsha : ∀ text, sha256 text ≠ "") (h : db.Tracks a) {op : Op Cursor}
    (hnew : db.NewKey sha256 a op) (hop : db.apply sha256 gap limit op = some db') :
    db'.Tracks a := by
  cases op with
  | observeAgent obs => exact h.observeAgent hsha hnew hop
  | recordUnavailable metadata observedAt reason => exact h.recordUnavailable hsha hnew hop
  | startRuntimeEpoch now => exact h.startRuntimeEpoch hnew hop

variable (sha256 gap limit) in
/-- Every call of a run records lifecycle events of the agent under new keys. -/
def NewKeys (agentId : String) (db : AgentEventDb Cursor) : List (Op Cursor) → Prop
  | [] => True
  | op :: ops => db.NewKey sha256 agentId op ∧
      ∀ db' ∈ db.apply sha256 gap limit op, NewKeys agentId db' ops

instance (agentId : String) (op : Op Cursor) (db : AgentEventDb Cursor) :
    Decidable (db.NewKey sha256 agentId op) :=
  inferInstanceAs (Decidable (∀ key ∈ db.recordedKey sha256 agentId op,
    db.events.hasKey key = false ∧ key ∉ db.otherKeys agentId op))

variable (sha256 gap limit) in
/-- Whether a run meets the condition can be computed. -/
def NewKeys.decide (agentId : String) : ∀ (ops : List (Op Cursor)) (db : AgentEventDb Cursor),
    Decidable (NewKeys sha256 gap limit agentId db ops)
  | [], _ => isTrue trivial
  | op :: ops, db =>
    have := NewKeys.decide agentId ops
    inferInstanceAs (Decidable (db.NewKey sha256 agentId op ∧
      ∀ db' ∈ db.apply sha256 gap limit op, NewKeys sha256 gap limit agentId db' ops))

instance (agentId : String) (ops : List (Op Cursor)) (db : AgentEventDb Cursor) :
    Decidable (NewKeys sha256 gap limit agentId db ops) :=
  NewKeys.decide sha256 gap limit agentId ops db

theorem Tracks.run (hsha : ∀ text, sha256 text ≠ "") {a : String} {ops : List (Op Cursor)}
    (h : db.Tracks a) (hnew : NewKeys sha256 gap limit a db ops)
    (hrun : db.run sha256 gap limit ops = some db') : db'.Tracks a := by
  induction ops generalizing db with
  | nil => exact Option.some.inj hrun ▸ h
  | cons op ops ih =>
    obtain ⟨db₁, hop, hrun⟩ := Option.bind_eq_some_iff.mp hrun
    exact ih (h.apply hsha hnew.1 hop) (hnew.2 db₁ hop) hrun

end AgentEventDb

/-! ## What the providers report -/

/-- None of the events is about the lifecycle. -/
def Others (events : List PendingEvent) : Prop := ∀ event ∈ events, event.kind ≠ .agentLifecycle

theorem Provider.others_visit (env : Env) (p : Provider) (now : DateTime) (offset : Nat)
    (record : Json) (c : JsonlCursor) : Others (p.visit env now offset record c).2 := by
  unfold Others
  cases p with
  | codex =>
    simp only [visit, codexVisit, codexTaskStarted, codexTurnEnd, codexMessage, codexUserMessage,
      codexAssistantMessage, missingTurn]
    cases c.pendingTurnStart
    all_goals
      repeat' split
      all_goals grind [startTurn, PendingTurnStart.events, observerFailure, inputAccepted,
        turnFinal, turnState, assistantMessage, PendingEvent.new]
  | agy =>
    simp only [visit, agyVisit, agyUserInput, agyPlannerResponse, missingTurn]
    cases (record.getStr "content").bind agyUserRequest
    all_goals
      repeat' split
      all_goals simp [observerFailure, inputAccepted, turnStarted, turnFinal, turnState,
        assistantMessage, PendingEvent.new]
  | muse approvable =>
    simp only [visit, museVisit]
    split
    · simp
    · unfold museRecord
      split
      all_goals grind [inputAccepted, turnStarted, turnFinal, turnState, assistantMessage,
        PendingEvent.new]

/-- What is read of a session file, as it is projected. -/
theorem others_readRecords (env : Env) (p : Provider) (clock : Nat → DateTime) (fuel : Nat)
    (rest : List UInt8) (c : JsonlCursor) :
    Others (readRecords env (p.visit env) clock fuel rest c).2 := by
  have hvisit := p.others_visit env
  unfold Others at hvisit ⊢
  have hrecord : ∀ now c line, ∀ event ∈ (readRecord env (p.visit env) now c line).2,
      event.kind ≠ .agentLifecycle := by
    intro now c line
    grind [readRecord, skipInvalid, observerFailure, PendingEvent.new]
  induction fuel generalizing rest c with
  | zero => simp [readRecords]
  | succ fuel ih =>
    unfold readRecords
    grind [skipOversized, observerFailure, PendingEvent.new]

/-- **What an observation of a session file yields can be projected**: no provider reports the
lifecycle of its agent. -/
theorem projectedEvents_of_project {env : Env} {p : Provider} {pathId : String} {now : DateTime}
    {clock : Nat → DateTime} {file : List UInt8} {cursor : Option (Provider × JsonlCursor)}
    {c : JsonlCursor} {events : List PendingEvent}
    (h : project env p pathId now clock file cursor = some (c, events)) :
    ∃ projected : ProjectedEvents JsonlCursor, projected.cursor = c ∧ projected.events = events := by
  refine ⟨⟨c, events, ?_⟩, rfl, rfl⟩
  have hrecords := others_readRecords env p
  have hreset : ∀ sourceId previous c events,
      resetJsonlProjection env p now sourceId file previous = some (c, events) → Others events := by
    intro sourceId previous c events hreset
    obtain ⟨c, -, hreset⟩ := Option.bind_eq_some_iff.mp hreset
    cases hreset
    simp [Others, observerFailure, PendingEvent.new]
  have hreadOn : ∀ sourceId c c' events,
      readOn env p now clock sourceId file c = some (c', events) → Others events := by
    intro sourceId c c' events hread
    grind [readOn, readNewJsonl]
  obtain ⟨sourceId, -, h⟩ := Option.bind_eq_some_iff.mp h
  cases cursor with
  | none =>
    obtain ⟨start, -, heq⟩ := Option.map_eq_some_iff.mp h
    cases heq
    simp
  | some previous =>
    dsimp only at h
    split at h
    · exact hreadOn _ _ _ _ h
    · obtain ⟨⟨c1, first⟩, hfirst, h⟩ := Option.bind_eq_some_iff.mp h
      obtain ⟨⟨c2, more⟩, hmore, h⟩ := Option.bind_eq_some_iff.mp h
      cases h
      exact List.forall_mem_append.mpr ⟨hreset _ _ _ _ hfirst, hreadOn _ _ _ _ hmore⟩

end Wakterm.Agent
