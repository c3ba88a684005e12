import Wakterm.Agent.Logic.Admission
import Wakterm.Agent.Logic.Request

/-!
# The admission store as a state machine

Over every history of calls, re-opens included: a claim is new exactly when there is no
record; a record that is finished answers every claim with the receipt it was last
finished with, or with a conflict; and only the release of a prepared record makes its
request ID new again.
-/

namespace Wakterm.Theorems.AdmissionStore

open Wakterm.Agent

/-- **The admission store's histories.** `before` is any history from a new database and
`after` any continuation. -/
theorem admission_history (sha256 : List UInt8 → String) (before : List AdmissionOp) :
    let store := AgentAdmissionStore.empty.run sha256 before
    -- A claim is new exactly when there is no record.
    (∀ request : AgentPromptAdmissionRequest,
      (store.claim sha256 request).1 = .new ↔ store.row request.requestId = none) ∧
    -- A finished receipt is what every later claim gets, until the next finish.
    (∀ receipt store', store.finish receipt = some store' →
      ∃ row, store.row receipt.requestId = some row ∧
        ∀ after : List AdmissionOp,
          (∀ other, .finish other ∈ after → other.requestId ≠ receipt.requestId) →
          ∀ request : AgentPromptAdmissionRequest, request.requestId = receipt.requestId →
            ((store'.run sha256 after).claim sha256 request).1 =
              if admissionFingerprint sha256 request = row.fingerprint then .existing receipt
              else .conflict) ∧
    -- A prepared record is never claimed anew.
    (∀ (request : AgentPromptAdmissionRequest) row, store.row request.requestId = some row →
      row.record.state = .prepared → (store.claim sha256 request).1 ≠ .new) ∧
    -- Only the release of a prepared record makes its request ID new again.
    ∀ (request : AgentPromptAdmissionRequest) (after : List AdmissionOp),
      (store.row request.requestId).isSome →
      ((store.run sha256 after).claim sha256 request).1 = .new →
      ∃ ops rest row, after = ops ++ .releaseUnwritten request.requestId :: rest ∧
        (store.run sha256 ops).row request.requestId = some row ∧
        row.record.state = .prepared := by
  intro store
  refine ⟨?_, ?_, ?_, ?_⟩
  · intro request
    exact AgentAdmissionStore.claim_eq_new_iff sha256 store request
  · intro receipt store' hfinish
    obtain ⟨row, record, hrow, hstate, hreceipt, hrows⟩ := AgentAdmissionStore.row_finish hfinish
    refine ⟨row, hrow, ?_⟩
    intro after hafter request hid
    have hrow' := hrows receipt.requestId
    rw [if_pos rfl] at hrow'
    have hlater : (store'.run sha256 after).row receipt.requestId =
        some { row with record := record } :=
      AgentAdmissionStore.row_run_of_finished sha256 hstate hafter hrow'
    rw [← hid] at hlater
    rw [AgentAdmissionStore.claim_of_finished sha256 hlater hstate]
    show (if _ then OneWayAdmissionClaim.existing record.receipt else _) = _
    rw [hreceipt]
  · intro request row hrow _ hnew
    rw [AgentAdmissionStore.claim_eq_new_iff, hrow] at hnew
    cases hnew
  · intro request after hsome hnew
    rw [AgentAdmissionStore.claim_eq_new_iff] at hnew
    exact AgentAdmissionStore.released_of_row_none sha256 hsome hnew

/-- A prompt for agent `a`. -/
def hello : AgentPromptAdmissionRequest where
  requestId := "r"
  agentId := "a"
  incarnationId := "i"
  prompt := "hello"
  paste := false
  returnFinal := false
  timeoutMs := 0

/-- After a claim, its receipt answers the claim's repetition. -/
theorem admission_history_hello :
    ∃ store', (AgentAdmissionStore.empty.run (fun _ => "") [.claim hello]).finish
        (.accepted hello none) = some store' ∧
      ((store'.run (fun _ => "") [.releaseUnwritten "r", .reopen]).claim (fun _ => "") hello).1 =
        .existing (.accepted hello none) := by
  obtain ⟨_, hfinish, _, _⟩ := admission_history (fun _ => "") [.claim hello]
  obtain ⟨row, hrow, hlater⟩ := hfinish (.accepted hello none) _ rfl
  refine ⟨_, rfl, ?_⟩
  rw [hlater [.releaseUnwritten "r", .reopen] (by simp) hello rfl]
  cases hrow
  rfl

/-- A second `finish` replaces the receipt of the first: the claim after both gets the
second one. -/
theorem finish_replaced :
    ∃ store₁ store₂ store₃ : AgentAdmissionStore, ∃ first second : AgentAdmissionReceipt,
      store₁ = (AgentAdmissionStore.empty.claim (fun _ => "") hello).2 ∧
      store₁.finish first = some store₂ ∧ store₂.finish second = some store₃ ∧
      (store₃.claim (fun _ => "") hello).1 = .existing second ∧ first ≠ second := by
  refine ⟨_, _, _, .indeterminate hello none "prompt delivery may have been partial",
    .accepted hello none, rfl, rfl, rfl, rfl, ?_⟩
  intro h
  exact absurd (congrArg AgentAdmissionReceipt.definitive h) (by decide)

end Wakterm.Theorems.AdmissionStore

/-!
## The answer belongs to the prompt

Whatever order submission and the two reconcilers come in, a request that is completed holds the
answer of a turn that its own prompt started.
-/

namespace Wakterm.Theorems.AgentRequest

open Wakterm.Agent Wakterm.Agent.AgentRequest

/-- A request as one of the two constructors made it. -/
def Created (sha256 : String → String) (r : AgentRequest) : Prop :=
  ∃ reg now, AgentRequest.new sha256 reg now = .ok r ∨
    AgentRequest.newManagedCodex sha256 reg now = .ok r

theorem Created.fresh {sha256 : String → String} {r : AgentRequest} (h : Created sha256 r) :
    r.state = .registered ∧ r.providerTurnId = none := by
  obtain ⟨reg, now, hnew | hnew⟩ := h
  · unfold AgentRequest.new at hnew
    cases hv : validateBaseline reg.metadata reg.runtime reg.eventStreamLive with
    | error text =>
      rw [hv] at hnew
      cases hnew
    | ok u =>
      rw [hv] at hnew
      cases hnew
      exact ⟨rfl, rfl⟩
  · unfold AgentRequest.newManagedCodex at hnew
    cases hv : validateManagedBaseline reg.metadata reg.runtime reg.eventStreamLive with
    | error text =>
      rw [hv] at hnew
      cases hnew
    | ok u =>
      rw [hv] at hnew
      cases hnew
      exact ⟨rfl, rfl⟩

/-- **The state machine of a request.** After any operations, the target is as it was at
registration; the reconcilers change nothing in a settled or registered request; and a completed
request was submitted, and what was looked at since then ends with the completed final of the
bound turn, after the start of that turn by the request's prompt. -/
theorem completed_is_own (sha256 : String → String) (r₀ : AgentRequest)
    (hr : Created sha256 r₀) (ops : List RequestOp) : SameTarget r₀ (r₀.run ops) ∧
    ((r₀.run ops).state.isTerminal = true ∨ (r₀.run ops).state = .registered →
      ∀ more, (∀ op ∈ more, op.Reconciles) → (r₀.run ops).run more = r₀.run ops) ∧
    ((r₀.run ops).state = .completed →
      ∃ before now after, ops = before ++ .markSubmitted now :: after ∧
        (∀ op ∈ before, op.Reconciles) ∧
        (r₀.run ops).Answered (((r₀.run before).markSubmitted now).processed after)) := by
  obtain ⟨hreg, hturn⟩ := hr.fresh
  refine ⟨sameTarget_run r₀ ops, fun hleft more hmore => run_of_left hleft hmore, ?_⟩
  intro hdone
  rcases RequestOp.split_submission ops with hall | ⟨before, now, after, rfl, hbefore⟩
  · -- never submitted, so never changed
    rw [run_of_left (.inr hreg) hall, hreg] at hdone
    cases hdone
  refine ⟨before, now, after, rfl, hbefore, ?_⟩
  have hstart : r₀.run before = r₀ := run_of_left (.inr hreg) hbefore
  have hfresh : Correlated (r₀.markSubmitted now) [] := by
    constructor
    · intro turn hbound
      rw [show (r₀.markSubmitted now).providerTurnId = none from hturn] at hbound
      cases hbound
    · intro hc
      cases hc
  have hrun := correlated_run hfresh after
  rw [List.nil_append] at hrun
  rw [run_append, hstart] at hdone ⊢
  exact hrun.completed hdone

/-- The digest of the prompt used below. -/
def doWorkSha256 (_ : String) : String :=
  "64d6f071c16a0984c4d1331002dd6f6a2ec7a503d23b38648fa52069af7330e7"

/-- A registration for an idle Codex agent. -/
def doWork : Registration where
  requestId := "request-pty"
  metadata := ⟨"agent-1", "zola", some 42, some 99, none⟩
  paneId := 7
  runtime := ⟨.codex, .observedPty, .waitingOnUser, true, none, some "/sessions/exact.jsonl"⟩
  targetIncarnationId := "incarnation-pty"
  baselineEventSequence := 10
  eventStreamLive := true
  prompt := "do work"
  submissionPaste := true
  timeoutMs := 0
  deadlineAt := some 1000

def doWorkRequest : AgentRequest :=
  doWork.request doWorkSha256 0 .providerEvents 42 99 "/sessions/exact.jsonl"

theorem doWorkRequest_created : Created doWorkSha256 doWorkRequest :=
  ⟨doWork, 0, .inl rfl⟩

def turnEvent (sequence : Nat) (kind : AgentEventKind) (text outcome input : Option String) :
    AgentEvent where
  sequence := sequence
  eventId := ""
  kind := kind
  agentId := "agent-1"
  incarnationId := "incarnation-pty"
  observedAt := 20
  turnId := some "turn-2"
  lifecycle := none
  reason := none
  turnState := none
  text := text
  outcome := outcome
  recoverable := none
  detail := none
  inputSha256 := input

/-- Submission, the start of the turn, its final. -/
def doWorkRun : List RequestOp :=
  [.markSubmitted 5,
   .reconcileEventPage
     ⟨.ok, 10, 1, 11, some 11, [turnEvent 11 .turnStarted none none (some (doWorkSha256 ""))], none⟩
     15,
   .reconcile none none 16,
   .reconcileEventPage
     ⟨.ok, 11, 1, 12, some 12, [turnEvent 12 .turnFinal (some "done") (some "completed") none], none⟩
     25]

theorem completed_is_own_doWork : (doWorkRequest.run doWorkRun).finalMessage = some "done" ∧
    (doWorkRequest.run doWorkRun).state = .completed ∧
      ∃ before now after, doWorkRun = before ++ .markSubmitted now :: after ∧
        (∀ op ∈ before, op.Reconciles) ∧ (doWorkRequest.run doWorkRun).Answered
          (((doWorkRequest.run before).markSubmitted now).processed after) :=
  ⟨by decide, by decide,
    (completed_is_own doWorkSha256 doWorkRequest doWorkRequest_created doWorkRun).2.2 (by decide)⟩

/-- **A settled request does not stay as it is when it is submitted again**: timed out, it is
reopened by `mark_submitted`, and the next `reconcile` settles it anew. -/
theorem settled_reopened : ¬ ∀ (sha256 : String → String) (r₀ : AgentRequest), Created sha256 r₀ →
      ∀ (ops more : List RequestOp) (op : RequestOp), (r₀.run ops).state.isTerminal = true →
        op.Reconciles → (r₀.run (ops ++ more)).apply op = r₀.run (ops ++ more) := by
  intro h
  have hstays := h doWorkSha256 doWorkRequest doWorkRequest_created
    [.markSubmitted 5, .reconcile none none 1000] [.markSubmitted 1001]
    (.reconcile none none 1002) (by decide) True.intro
  revert hstays
  decide

/-- **Paging does not matter.** An ordered list of events that comes in consecutive pages leaves
the request as it would be had the list come as one page: every field of it, whatever the request
and wherever the pages end. -/
theorem paging_irrelevant (r : AgentRequest) (now : DateTime) (after : Nat)
    (events : List AgentEvent) (hord : OrderedFrom after events) (pages : List AgentEventPage)
    (hsplit : Splits after events pages) (whole : AgentEventPage)
    (hwhole : whole.Carries after events) :
    r.run (pages.map fun page => .reconcileEventPage page now) =
      r.reconcileEventPage whole now := by
  induction hsplit generalizing r whole with
  | @last after events page hpage =>
    show r.reconcileEventPage page now = r.reconcileEventPage whole now
    by_cases hskip : r.Skips
    · simp only [reconcileEventPage_of_skips hskip]
    · rw [reconcileEventPage_of_carries hskip hpage, reconcileEventPage_of_carries hskip hwhole]
  | @more after events rest page pages hpage _ ih =>
    -- the pages after this one do what one page with the rest does
    let next : AgentEventPage :=
      { page with
        events := rest
        nextAfterSequence := some (cursorAfter (cursorAfter after events) rest) }
    have hnext : next.Carries (cursorAfter after events) rest := ⟨hpage.status, rfl, rfl⟩
    show (r.reconcileEventPage page now).run
      (pages.map fun page => .reconcileEventPage page now) = r.reconcileEventPage whole now
    rw [ih (r.reconcileEventPage page now) hord.drop next hnext]
    exact reconcileEventPage_append hord hpage hnext hwhole

/-- The start of the turn in one page, its final and a newer turn in the next. -/
theorem paging_irrelevant_doWork :
    let start := turnEvent 11 .turnStarted none none (some (doWorkSha256 ""))
    let final := turnEvent 12 .turnFinal (some "done") (some "completed") none
    let newer := { turnEvent 13 .turnStarted none none none with turnId := some "turn-3" }
    let r := doWorkRequest.markSubmitted 5
    r.run [.reconcileEventPage ⟨.ok, 10, 1, 13, some 11, [start], none⟩ 15,
        .reconcileEventPage ⟨.ok, 11, 1, 13, some 13, [final, newer], none⟩ 15] =
      r.reconcileEventPage ⟨.ok, 10, 1, 13, some 13, [start, final, newer], none⟩ 15 := by
  intro start final newer r
  have hord : OrderedFrom 10 [start, final, newer] := by
    show List.Pairwise (· ≤ ·) [10, 11, 12, 13]
    decide
  exact paging_irrelevant r 15 10 [start, final, newer] hord
    [⟨.ok, 10, 1, 13, some 11, [start], none⟩, ⟨.ok, 11, 1, 13, some 13, [final, newer], none⟩]
    (@Splits.more 10 [start] _ _ _ ⟨rfl, rfl, rfl⟩ (.last ⟨rfl, rfl, rfl⟩))
    ⟨.ok, 10, 1, 13, some 13, [start, final, newer], none⟩ ⟨rfl, rfl, rfl⟩

end Wakterm.Theorems.AgentRequest
