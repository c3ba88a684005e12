import Wakterm.Agent.Admission

/-!
# Histories of the admission store

What one call does to the row of one request ID (`rowStep`), and what any sequence of calls does.
-/

namespace Wakterm.Agent

/-- A call on the admission store. -/
inductive AdmissionOp where
  | claim (request : AgentPromptAdmissionRequest)
  | finish (receipt : AgentAdmissionReceipt)
  | releaseUnwritten (requestId : String)
  /-- The database is closed and opened again. -/
  | reopen

namespace AgentAdmissionStore

variable (sha256 : List UInt8 → String)

/-- The store after a call. A `finish` that fails changes nothing. -/
def apply (store : AgentAdmissionStore) : AdmissionOp → AgentAdmissionStore
  | .claim request => (store.claim sha256 request).2
  | .finish receipt => (store.finish receipt).getD store
  | .releaseUnwritten requestId => store.releaseUnwritten requestId
  | .reopen => store

/-- The store after a sequence of calls. -/
def run (store : AgentAdmissionStore) (ops : List AdmissionOp) : AgentAdmissionStore :=
  ops.foldl (apply sha256) store

theorem row_insert (store : AgentAdmissionStore) (requestId id : String) (row : AdmissionRow) :
    (AgentAdmissionStore.mk (store.rows.insert requestId row)).row id =
      if id = requestId then some row else store.row id := by
  unfold AgentAdmissionStore.row
  by_cases h : id = requestId
  · subst h
    rw [if_pos rfl]
    exact AList.lookup_insert _
  · rw [if_neg h]
    exact AList.lookup_insert_ne h

theorem row_erase (store : AgentAdmissionStore) (requestId id : String) :
    (AgentAdmissionStore.mk (store.rows.erase requestId)).row id =
      if id = requestId then none else store.row id := by
  unfold AgentAdmissionStore.row
  by_cases h : id = requestId
  · subst h
    rw [if_pos rfl]
    exact AList.lookup_erase _ _
  · rw [if_neg h]
    exact AList.lookup_erase_ne h

/-- What a call does to the row of `id`. -/
inductive RowStep (id : String) : AdmissionOp → Option AdmissionRow → Option AdmissionRow → Prop
  | same (op : AdmissionOp) (row : Option AdmissionRow) : RowStep id op row row
  /-- A first claim prepares the row. -/
  | prepare (request : AgentPromptAdmissionRequest) (row : AdmissionRow)
      (hid : request.requestId = id) (hprepared : row.record.state = .prepared)
      (hfingerprint : row.fingerprint = admissionFingerprint sha256 request) :
      RowStep id (.claim request) none (some row)
  /-- A repeated claim of a prepared row gives it up. -/
  | giveUp (request : AgentPromptAdmissionRequest) (row : AdmissionRow)
      (record : StoredOneWayAdmission) (hid : request.requestId = id)
      (hprepared : row.record.state = .prepared) (hstate : record.state = .indeterminate) :
      RowStep id (.claim request) (some row) (some { row with record := record })
  | finish (receipt : AgentAdmissionReceipt) (row : AdmissionRow)
      (record : StoredOneWayAdmission) (hid : receipt.requestId = id)
      (hstate : record.state ≠ .prepared) (hreceipt : record.receipt = receipt) :
      RowStep id (.finish receipt) (some row) (some { row with record := record })
  | release (row : AdmissionRow) (hprepared : row.record.state = .prepared) :
      RowStep id (.releaseUnwritten id) (some row) none

variable {store : AgentAdmissionStore}

theorem row_finish {store' : AgentAdmissionStore} {receipt : AgentAdmissionReceipt}
    (h : store.finish receipt = some store') :
    ∃ row record, store.row receipt.requestId = some row ∧ record.state ≠ .prepared ∧
      record.receipt = receipt ∧ ∀ id, store'.row id =
        if id = receipt.requestId then some { row with record := record } else store.row id := by
  obtain ⟨row, hrow, rfl⟩ := Option.map_eq_some_iff.mp h
  refine ⟨row, _, hrow, ?_, rfl, fun id => row_insert store _ id _⟩
  by_cases haccepted : receipt.status = .accepted <;> simp [haccepted]

theorem rowStep_claim (store : AgentAdmissionStore) (request : AgentPromptAdmissionRequest)
    (id : String) :
    RowStep sha256 id (.claim request) (store.row id) ((store.claim sha256 request).2.row id) := by
  unfold claim
  cases hrow : store.row request.requestId with
  | none =>
    dsimp only
    rw [row_insert]
    by_cases hid : id = request.requestId
    · subst hid
      rw [if_pos rfl, hrow]
      exact .prepare request _ rfl rfl rfl
    · rw [if_neg hid]
      exact .same _ _
  | some row =>
    dsimp only
    split
    · exact .same _ _
    · split
      · rename_i hprepared
        rw [update, row_insert]
        by_cases hid : id = request.requestId
        · subst hid
          rw [if_pos rfl, hrow]
          exact .giveUp request row _ rfl hprepared rfl
        · rw [if_neg hid]
          exact .same _ _
      · exact .same _ _

theorem rowStep_finish (store : AgentAdmissionStore) (receipt : AgentAdmissionReceipt)
    (id : String) : RowStep sha256 id (.finish receipt) (store.row id)
      (((store.finish receipt).getD store).row id) := by
  cases hfinish : store.finish receipt with
  | none => exact .same _ _
  | some store' =>
    obtain ⟨row, record, hrow, hstate, hreceipt, hrows⟩ := row_finish hfinish
    rw [Option.getD_some, hrows]
    by_cases hid : id = receipt.requestId
    · subst hid
      rw [if_pos rfl, hrow]
      exact .finish receipt row record rfl hstate hreceipt
    · rw [if_neg hid]
      exact .same _ _

theorem rowStep_release (store : AgentAdmissionStore) (requestId id : String) :
    RowStep sha256 id (.releaseUnwritten requestId) (store.row id)
      ((store.releaseUnwritten requestId).row id) := by
  unfold releaseUnwritten
  cases hrow : store.row requestId with
  | none => exact .same _ _
  | some row =>
    dsimp only
    split
    · rename_i hprepared
      rw [row_erase]
      by_cases hid : id = requestId
      · subst hid
        rw [if_pos rfl, hrow]
        exact .release row hprepared
      · rw [if_neg hid]
        exact .same _ _
    · exact .same _ _

/-- What an operation does to a row. -/
theorem rowStep (store : AgentAdmissionStore) (op : AdmissionOp) (id : String) :
    RowStep sha256 id op (store.row id) ((store.apply sha256 op).row id) := by
  cases op with
  | claim request => exact rowStep_claim sha256 store request id
  | finish receipt => exact rowStep_finish sha256 store receipt id
  | releaseUnwritten requestId => exact rowStep_release sha256 store requestId id
  | reopen => exact .same _ _

/-- A claim is new where there is no row. -/
theorem claim_eq_new_iff (store : AgentAdmissionStore) (request : AgentPromptAdmissionRequest) :
    (store.claim sha256 request).1 = .new ↔ store.row request.requestId = none := by
  unfold claim
  cases store.row request.requestId with
  | none => simp
  | some row =>
    dsimp only
    split
    · simp
    · split <;> simp

theorem claim_of_finished {request : AgentPromptAdmissionRequest} {row : AdmissionRow}
    (hrow : store.row request.requestId = some row) (hstate : row.record.state ≠ .prepared) :
    (store.claim sha256 request).1 = if admissionFingerprint sha256 request = row.fingerprint then
        .existing row.record.receipt else .conflict := by
  unfold claim
  rw [hrow]
  dsimp only
  by_cases hfp : row.fingerprint = admissionFingerprint sha256 request
  · rw [if_neg (not_not.mpr hfp), if_neg hstate, if_pos hfp.symm]
  · rw [if_pos hfp, if_neg (Ne.symm hfp)]

/-- A row that is finished stays as it is. -/
theorem row_run_of_finished {row : AdmissionRow} (hstate : row.record.state ≠ .prepared)
    {id : String} {ops : List AdmissionOp}
    (hops : ∀ receipt, .finish receipt ∈ ops → receipt.requestId ≠ id)
    (hrow : store.row id = some row) : (store.run sha256 ops).row id = some row := by
  induction ops generalizing store with
  | nil => exact hrow
  | cons op ops ih =>
    have hnext : (store.apply sha256 op).row id = some row := by
      have hstep := rowStep sha256 store op id
      rw [hrow] at hstep
      generalize (store.apply sha256 op).row id = next at hstep
      cases hstep with
      | same => rfl
      | giveUp _ _ _ _ hprepared => exact absurd hprepared hstate
      | release _ hprepared => exact absurd hprepared hstate
      | finish receipt _ _ hid => exact absurd hid (hops receipt (List.mem_cons_self ..))
    exact ih (fun receipt hmem => hops receipt (List.mem_cons_of_mem _ hmem)) hnext

theorem released_of_row_none {id : String} {ops : List AdmissionOp} (hsome : (store.row id).isSome)
    (hnone : (store.run sha256 ops).row id = none) :
    ∃ before after row, ops = before ++ .releaseUnwritten id :: after ∧
      (store.run sha256 before).row id = some row ∧ row.record.state = .prepared := by
  induction ops generalizing store with
  | nil =>
    rw [show store.row id = none from hnone] at hsome
    cases hsome
  | cons op ops ih =>
    cases hnext : (store.apply sha256 op).row id with
    | some next =>
      have hsome' : ((store.apply sha256 op).row id).isSome := by
        rw [hnext]
        rfl
      obtain ⟨before, after, row, hops, hrow, hprepared⟩ := ih hsome' hnone
      exact ⟨op :: before, after, row, by rw [hops]; rfl, hrow, hprepared⟩
    | none =>
      have hstep := rowStep sha256 store op id
      rw [hnext] at hstep
      cases hrow : store.row id with
      | none =>
        rw [hrow] at hsome
        cases hsome
      | some row =>
        rw [hrow] at hstep
        cases hstep with
        | release _ hprepared => exact ⟨[], ops, row, rfl, hrow, hprepared⟩

end AgentAdmissionStore

end Wakterm.Agent
