import Wakterm.Agent.Logic.Replay

/-!
# Observations of a growing session file

The file is observed between the writes of its provider: `observeAll` hands each observation the
cursor of the one before, and `Follows` is what holds of it there.
-/

namespace Wakterm.Agent

open Wakterm.Machine

variable (env : Env)

/-- What was appended since the last observation, and the times of this one. -/
structure Glance where
  appended : List UInt8
  now : DateTime
  clock : Nat → DateTime

/-- All that was appended. -/
def appended (glances : List Glance) : List UInt8 := (glances.map Glance.appended).flatten

/-- The observations, each with the cursor that the one before has left. -/
def observeAll (p : Provider) (pathId : String) :
    List UInt8 → JsonlCursor → List Glance → Option (JsonlCursor × List PendingEvent)
  | _, c, [] => some (c, [])
  | file, c, glance :: glances => do
      let file := file ++ glance.appended
      let (c, events) ← project env p pathId glance.now glance.clock file (some (p, c))
      let (c, more) ← observeAll p pathId file c glances
      some (c, events ++ more)

/-- At every observation the file names the session that the cursor is of. -/
def KeepsSession (p : Provider) (pathId : String) (file : List UInt8) (c : JsonlCursor)
    (glances : List Glance) : Prop :=
  ∀ seen, seen <+: glances → p.sourceId env pathId (file ++ appended seen) = some c.sourceId

/-- The complete lines past a cursor. -/
def newLines (file : List UInt8) (offset : Nat) : List (List UInt8) :=
  (splitLines (file.drop offset)).1

/-- The cursor stands behind the last complete line, at a checkpoint of the file. -/
structure Follows (file : List UInt8) (c : JsonlCursor) : Prop where
  inside : c.offset ≤ file.length
  checkpoint : c.checkpointSha256 = checkpointSha256 env file c.offset
  tail : newline ∉ file.drop c.offset

variable {env}

variable {file : List UInt8}

theorem checkpointSha256_append {offset : Nat} (h : offset ≤ file.length) (more : List UInt8) :
    checkpointSha256 env (file ++ more) offset = checkpointSha256 env file offset := by
  unfold checkpointSha256
  rw [List.take_append_of_le_length h]

theorem drop_newLines (file : List UInt8) (offset : Nat) :
    file.drop (offset + (newLines file offset).flatten.length) =
      (splitLines (file.drop offset)).2 := by
  rw [← List.drop_drop]
  conv_lhs => rw [← flatten_splitLines (file.drop offset)]
  exact List.drop_left

theorem length_newLines {offset : Nat} (h : offset ≤ file.length) :
    offset + (newLines file offset).flatten.length ≤ file.length := by
  have hlength := congrArg List.length (flatten_splitLines (file.drop offset))
  rw [List.length_append, List.length_drop] at hlength
  unfold newLines
  omega

theorem newLines_append {offset : Nat} (h : offset ≤ file.length) (more : List UInt8) :
    newLines (file ++ more) offset = newLines file offset ++
      newLines (file ++ more) (offset + (newLines file offset).flatten.length) := by
  have htail : (file ++ more).drop (offset + (newLines file offset).flatten.length) =
      (splitLines (file.drop offset)).2 ++ more := by
    rw [List.drop_append_of_le_length (length_newLines h), drop_newLines]
  have hrest : newLines (file ++ more) (offset + (newLines file offset).flatten.length) =
      (splitLines ((splitLines (file.drop offset)).2 ++ more)).1 := by
    show (splitLines ((file ++ more).drop _)).1 = _
    rw [htail]
  rw [hrest]
  unfold newLines
  rw [List.drop_append_of_le_length h, splitLines_append]

section Observe

variable {p : Provider} {pathId : String} {file : List UInt8} {c c' : JsonlCursor}

theorem project_kept (hid : p.sourceId env pathId file = some c.sourceId)
    (hinside : c.offset ≤ file.length)
    (hcheck : c.checkpointSha256 = checkpointSha256 env file c.offset) (now : DateTime)
    (clock : Nat → DateTime) :
    project env p pathId now clock file (some (p, c)) =
      some ({ (readLines env (p.visit env) clock c (newLines file c.offset)).1 with
          checkpointSha256 := checkpointSha256 env file
            (readLines env (p.visit env) clock c (newLines file c.offset)).1.offset },
        (readLines env (p.visit env) clock c (newLines file c.offset)).2) := by
  have hread : readNewJsonl env (p.visit env) clock file c =
      some ({ (readLines env (p.visit env) clock c (newLines file c.offset)).1 with
          checkpointSha256 := checkpointSha256 env file
            (readLines env (p.visit env) clock c (newLines file c.offset)).1.offset },
        (readLines env (p.visit env) clock c (newLines file c.offset)).2) := by
    unfold readNewJsonl
    rw [if_neg (by rw [not_or, not_lt, not_not]; exact ⟨hinside, hcheck.symm⟩)]
    dsimp only
    rw [readRecords_eq env (p.visit env) clock (Nat.lt_succ_self _) c]
    rfl
  unfold project
  rw [hid]
  show (if p.name = p.name ∧ c.sourceId = c.sourceId then _ else _) = _
  rw [if_pos ⟨rfl, rfl⟩, readOn, hread]

theorem follows_project (hinside : c.offset ≤ file.length) (clock : Nat → DateTime) :
    Follows env file { (readLines env (p.visit env) clock c (newLines file c.offset)).1 with
      checkpointSha256 := checkpointSha256 env file
        (readLines env (p.visit env) clock c (newLines file c.offset)).1.offset } := by
  have hoffset := (readLines_steady env (p.visit_steady env) clock c (newLines file c.offset)).2
  refine ⟨?_, rfl, ?_⟩
  · show (readLines env (p.visit env) clock c (newLines file c.offset)).1.offset ≤ _
    rw [hoffset]
    exact length_newLines hinside
  · show newline ∉ file.drop (readLines env (p.visit env) clock c (newLines file c.offset)).1.offset
    rw [hoffset, drop_newLines]
    exact (isLine_splitLines _).2

variable {same : PendingTurnStart → PendingTurnStart → Prop}

/-- **Observations in pieces.** From a cursor that follows the file, they read what the lines
that were appended give at once. -/
theorem observeAll_alike {R : Json → Prop} (hvisit : (p.visit env).Respects same R)
    {glances : List Glance} (hfollows : Follows env file c)
    (hkeeps : KeepsSession env p pathId file c glances)
    (hlines : ∀ line ∈ newLines (file ++ appended glances) c.offset, ∀ record,
      env.fromSlice line = some record → R record) (halike : Alike same c c')
    (clock : Nat → DateTime) : ∃ r, observeAll env p pathId file c glances = some r ∧
      Follows env (file ++ appended glances) r.1 ∧ AlikeRead same r
        (readLines env (p.visit env) clock c' (newLines (file ++ appended glances) c.offset)) := by
  induction glances generalizing file c c' with
  | nil =>
    have hnone : newLines (file ++ appended []) c.offset = [] := by
      show (splitLines ((file ++ []).drop c.offset)).1 = []
      rw [List.append_nil, splitLines_of_not_mem hfollows.tail]
    refine ⟨(c, []), rfl, ?_, ?_⟩
    · show Follows env (file ++ []) c
      rw [List.append_nil]
      exact hfollows
    · rw [hnone]
      exact halike.silent
  | cons glance glances ih =>
    have hwhole : file ++ appended (glance :: glances) =
        (file ++ glance.appended) ++ appended glances := by
      rw [List.append_assoc]
      rfl
    have hinside : c.offset ≤ (file ++ glance.appended).length := by
      rw [List.length_append]
      exact Nat.le_trans hfollows.inside (Nat.le_add_right _ _)
    have hcheck : c.checkpointSha256 =
        checkpointSha256 env (file ++ glance.appended) c.offset := by
      rw [checkpointSha256_append hfollows.inside]
      exact hfollows.checkpoint
    have hid : p.sourceId env pathId (file ++ glance.appended) = some c.sourceId := by
      have h := hkeeps [glance] (by simp)
      rwa [show appended [glance] = glance.appended from List.append_nil _] at h
    rw [hwhole] at hlines ⊢
    -- the lines of this observation, and those behind it
    rw [newLines_append hinside] at hlines ⊢
    have hsteady := readLines_steady env (p.visit_steady env) glance.clock c
      (newLines (file ++ glance.appended) c.offset)
    have hnow := halike.readLines hvisit
      (fun line hline => hlines line (List.mem_append_left _ hline)) glance.clock clock
    have hlater : ∀ line ∈ newLines (file ++ glance.appended ++ appended glances)
        (c.offset + (newLines (file ++ glance.appended) c.offset).flatten.length), ∀ record,
        env.fromSlice line = some record → R record := fun line hline =>
      hlines line (List.mem_append_right _ hline)
    rw [← hsteady.2] at hlater ⊢
    have hkeeps' : ∀ k, KeepsSession env p pathId (file ++ glance.appended)
        { (readLines env (p.visit env) glance.clock c
            (newLines (file ++ glance.appended) c.offset)).1 with checkpointSha256 := k }
        glances := by
      intro k seen hseen
      have h := hkeeps (glance :: seen) (by simpa using hseen)
      show p.sourceId env pathId _ = some _
      rw [hsteady.1, ← h, List.append_assoc]
      rfl
    obtain ⟨r, hr, hfollows', hread⟩ := ih (follows_project hinside glance.clock)
      (hkeeps' _) hlater (hnow.1.checked _)
    refine ⟨(r.1, (readLines env (p.visit env) glance.clock c
      (newLines (file ++ glance.appended) c.offset)).2 ++ r.2), ?_, hfollows', ?_⟩
    · rw [observeAll]
      dsimp only
      rw [project_kept hid hinside hcheck]
      simp only [Option.bind_eq_bind, Option.bind_some]
      rw [hr]
      rfl
    · rw [readLines_append]
      refine ⟨hread.1, ?_⟩
      dsimp only
      rw [List.map_append, List.map_append, hnow.2, hread.2]

theorem Follows.start_of_alike (hfollows : Follows env file c) (h : Alike same c c') :
    ∃ s, { c' with checkpointSha256 := checkpointSha256 env file c'.offset } =
        { c with pendingTurnStart := s } ∧ Option.Rel same c.pendingTurnStart s := by
  obtain ⟨k, s, rfl, hs⟩ := h
  refine ⟨s, ?_, hs⟩
  dsimp only
  rw [← hfollows.checkpoint]

theorem Follows.timeless_eq (hfollows : Follows env file c)
    (h : Alike (fun s s' => s.timeless = s'.timeless) c c') : c.timeless = JsonlCursor.timeless
      { c' with checkpointSha256 := checkpointSha256 env file c'.offset } := by
  obtain ⟨s, hc, hs⟩ := hfollows.start_of_alike h
  have hstart : c.pendingTurnStart.map PendingTurnStart.timeless =
      s.map PendingTurnStart.timeless := by
    generalize c.pendingTurnStart = pending at hs
    cases hs with
    | none => rfl
    | some hab => exact congrArg some hab
  rw [hc]
  unfold JsonlCursor.timeless
  rw [hstart]

theorem Follows.eq (hfollows : Follows env file c) (h : Alike Eq c c') :
    c = { c' with checkpointSha256 := checkpointSha256 env file c'.offset } := by
  obtain ⟨s, hc, hs⟩ := hfollows.start_of_alike h
  have hstart : c.pendingTurnStart = s := by
    generalize c.pendingTurnStart = pending at hs
    cases hs with
    | none => rfl
    | some hab => exact congrArg some hab
  rw [hc, ← hstart]

theorem follows_initial {sourceId : String} (h : initialJsonlCursor env p sourceId file = some c) :
    Follows env file c ∧ c.sourceId = sourceId := by
  unfold initialJsonlCursor at h
  simp only [Option.bind_eq_bind, Option.bind_eq_some_iff, Option.some.injEq] at h
  obtain ⟨turn, -, rfl⟩ := h
  refine ⟨⟨?_, rfl, ?_⟩, rfl⟩
  · show completeJsonlTail file ≤ _
    unfold completeJsonlTail
    split
    · exact Nat.le_refl _
    · have hlength := congrArg List.length (flatten_splitLines file)
      rw [List.length_append] at hlength
      omega
  · show newline ∉ file.drop (completeJsonlTail file)
    unfold completeJsonlTail
    split
    · rw [List.drop_length]
      exact List.not_mem_nil
    · have htail := drop_newLines file 0
      rw [Nat.zero_add] at htail
      show newline ∉ file.drop (newLines file 0).flatten.length
      rw [htail]
      exact (isLine_splitLines _).2

theorem follows_project_none {now : DateTime} {clock : Nat → DateTime}
    {events : List PendingEvent} (h : project env p pathId now clock file none = some (c, events)) :
    Follows env file c ∧ p.sourceId env pathId file = some c.sourceId := by
  unfold project at h
  simp only [Option.bind_eq_bind, Option.bind_eq_some_iff, Option.map_eq_some_iff,
    Prod.mk.injEq] at h
  obtain ⟨sourceId, hid, c1, hc1, rfl, -⟩ := h
  obtain ⟨hfollows, rfl⟩ := follows_initial hc1
  exact ⟨hfollows, hid⟩

/-! ## A file that keeps its session -/

theorem findSourceId_append {lines : List (List UInt8)} {id : String}
    (h : findSourceId env lines = some id) (more : List (List UInt8)) :
    findSourceId env (lines ++ more) = some id := by
  induction lines with
  | nil => cases h
  | cons line lines ih =>
    rw [List.cons_append, findSourceId]
    rw [findSourceId] at h
    split at h
    · cases h
    · next hutf =>
      rw [if_neg hutf]
      split at h
      · exact h
      · exact ih h

theorem sourceId_append {id : String} (htail : (splitLines file).2 = [])
    (h : p.sourceId env pathId file = some id) (more : List UInt8) :
    p.sourceId env pathId (file ++ more) = some id := by
  cases p with
  | codex =>
    have hlines : ∃ later, fileLines (file ++ more) = fileLines file ++ later := by
      unfold fileLines
      rw [splitLines_append, htail, List.map_append, List.append_assoc]
      show ∃ later, _ = (_ ++ []) ++ later
      rw [List.append_nil]
      exact ⟨_, rfl⟩
    obtain ⟨later, hlater⟩ := hlines
    show findSourceId env ((fileLines (file ++ more)).take 32) = some id
    rw [hlater, List.take_append]
    exact findSourceId_append h _
  | agy => exact h
  | muse approvable => exact h

theorem keepsSession_of_lines (htail : (splitLines file).2 = [])
    (h : p.sourceId env pathId file = some c.sourceId) (glances : List Glance) :
    KeepsSession env p pathId file c glances :=
  fun seen _ => sourceId_append htail h (appended seen)

end Observe

end Wakterm.Agent
