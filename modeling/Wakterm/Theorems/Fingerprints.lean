import Mathlib.Data.List.Basic
import Wakterm.Agent.Admit
import Wakterm.Agent.Logic.Admission
import Wakterm.Machine.Decimal
import Wakterm.Machine.Utf8

/-!
# What a fingerprint says of a request

A request ID that comes again is taken for a repetition when the fingerprint is the same. Both
fingerprints hash fields that are joined with NUL characters.
-/

namespace Wakterm.Theorems.Fingerprints

open Wakterm.Agent Wakterm.Machine

/-- What a request asks for: all of it but its ID. -/
def content (a : AgentPromptAdmissionRequest) : String × String × String × Bool × Bool × Nat :=
  (a.agentId, a.incarnationId, a.prompt, a.paste, a.returnFinal, a.timeoutMs)

/-- The timeout is a `u64`. -/
def Typed (a : AgentPromptAdmissionRequest) : Prop := a.timeoutMs < 2 ^ 64

/-- The character between two fields. -/
def nul : Char := '\x00'

/-- Digests are written in lower-case hexadecimal. -/
def HexDigest (sha256 : List UInt8 → String) : Prop :=
  ∀ bytes, sha256 bytes ≠ "" ∧
    ∀ c ∈ (sha256 bytes).toList, c ∈ "0123456789abcdef".toList

/-! ## The admission's fingerprint -/

structure NulFree (a : AgentPromptAdmissionRequest) : Prop where
  agentId : nul ∉ a.agentId.toList
  incarnationId : nul ∉ a.incarnationId.toList
  prompt : nul ∉ a.prompt.toList

/-- The three texts, joined. -/
def joined (a : AgentPromptAdmissionRequest) : List Char :=
  a.agentId.toList ++ nul :: (a.incarnationId.toList ++ nul :: a.prompt.toList)

def admissionBytes (a : AgentPromptAdmissionRequest) : List UInt8 :=
  encodeText (agentApiSchema.toList ++ nul :: joined a) ++
    ([a.paste.toUInt8, a.returnFinal.toUInt8] ++ toLeBytes a.timeoutMs)

theorem encodeText_nul (text : List Char) : encodeText (nul :: text) = 0 :: encodeText text := by
  rw [encodeText_cons, encode_ascii (by decide)]
  rfl

theorem admissionFingerprint_eq (sha256 : List UInt8 → String) (a : AgentPromptAdmissionRequest) :
    admissionFingerprint sha256 a = sha256 (admissionBytes a) := by
  unfold admissionFingerprint admissionBytes joined
  simp only [toList_toUTF8, encodeText_append, encodeText_nul, List.append_assoc,
    List.cons_append, List.nil_append]

theorem cut_at {α : Type} [DecidableEq α] {sep : α} {front back front' back' : List α}
    (h : sep ∉ front) (h' : sep ∉ front') (heq : front ++ sep :: back = front' ++ sep :: back') :
    front = front' ∧ back = back' := by
  have hsplit := congrArg (splitOnce sep) heq
  rw [splitOnce_append h, splitOnce_append h'] at hsplit
  simpa using hsplit

theorem fields_of_joined {α : Type} [DecidableEq α] {sep : α} {xs ys zs xs' ys' zs' : List α}
    (hx : sep ∉ xs) (hy : sep ∉ ys) (hz : sep ∉ zs)
    (h : xs ++ sep :: (ys ++ sep :: zs) = xs' ++ sep :: (ys' ++ sep :: zs')) :
    xs = xs' ∧ ys = ys' ∧ zs = zs' := by
  -- the join has two separators, so the other three fields have none
  have hcount := congrArg (List.count sep) h
  simp only [List.count_append, List.count_cons_self, List.count_eq_zero_of_not_mem hx,
    List.count_eq_zero_of_not_mem hy, List.count_eq_zero_of_not_mem hz] at hcount
  have hx' : sep ∉ xs' := List.count_eq_zero.mp (by omega)
  have hy' : sep ∉ ys' := List.count_eq_zero.mp (by omega)
  obtain ⟨hxs, hrest⟩ := cut_at hx hx' h
  obtain ⟨hys, hzs⟩ := cut_at hy hy' hrest
  exact ⟨hxs, hys, hzs⟩

theorem mod_pow_eq_of_digits {b n m w : Nat} (h : ∀ i < w, n / b ^ i % b = m / b ^ i % b) :
    n % b ^ w = m % b ^ w := by
  induction w with
  | zero => simp [Nat.mod_one]
  | succ w ih =>
    have hlow := ih fun i hi => h i (Nat.lt_succ_of_lt hi)
    have hhigh := h w (Nat.lt_succ_self w)
    rw [Nat.mod_pow_succ, Nat.mod_pow_succ, hlow, hhigh]

theorem toLeBytes_injective {n m : Nat} (hn : n < 2 ^ 64) (hm : m < 2 ^ 64)
    (h : toLeBytes n = toLeBytes m) : n = m := by
  have hbyte : ∀ i < 8, n / 256 ^ i % 256 = m / 256 ^ i % 256 := by
    intro i hi
    have hat := congrArg (fun bytes => (bytes.map UInt8.toNat)[i]?) h
    simp only [toLeBytes, List.map_map, List.getElem?_map, List.getElem?_range hi,
      Option.map_some, Option.some.injEq, Function.comp_apply] at hat
    rwa [byte_toNat (Nat.mod_lt _ (by decide)), byte_toNat (Nat.mod_lt _ (by decide))] at hat
  have hmod := mod_pow_eq_of_digits hbyte
  rwa [show 256 ^ 8 = 2 ^ 64 from rfl, Nat.mod_eq_of_lt hn, Nat.mod_eq_of_lt hm] at hmod

variable {a b : AgentPromptAdmissionRequest} {sha256 : List UInt8 → String} {r r' : AgentRequest}

/-- The bytes tell what is told apart by the joined texts. -/
theorem admissionBytes_inj_iff (ha : Typed a) (hb : Typed b) : admissionBytes a = admissionBytes b ↔
      joined a = joined b ∧ a.paste = b.paste ∧ a.returnFinal = b.returnFinal ∧
        a.timeoutMs = b.timeoutMs := by
  unfold admissionBytes
  constructor
  · intro h
    obtain ⟨htext, htail⟩ := List.append_inj' h (by simp [toLeBytes])
    have hjoined := encodeText_injective htext
    simp only [List.append_cancel_left_eq, List.cons.injEq, true_and] at hjoined
    simp only [List.cons_append, List.nil_append, List.cons.injEq] at htail
    obtain ⟨hpaste, hfinal, htimeout⟩ := htail
    have hflag : ∀ p q : Bool, p.toUInt8 = q.toUInt8 → p = q := by decide
    exact ⟨hjoined, hflag _ _ hpaste, hflag _ _ hfinal, toLeBytes_injective ha hb htimeout⟩
  · rintro ⟨hjoined, hpaste, hfinal, htimeout⟩
    rw [hjoined, hpaste, hfinal, htimeout]

/-- A NUL can be moved from one text to another. -/
theorem other_of_nul (ha : ¬ NulFree a) : ∃ agentId incarnationId prompt : String,
      joined { a with agentId := agentId, incarnationId := incarnationId, prompt := prompt } =
        joined a ∧
      (agentId ≠ a.agentId ∨ incarnationId ≠ a.incarnationId ∨ prompt ≠ a.prompt) := by
  have hshorter : ∀ {text : String} {front back : List Char},
      text.toList = front ++ nul :: back → String.ofList front ≠ text := by
    intro text front back htext hsame
    have hlen := congrArg List.length htext
    rw [← hsame, String.toList_ofList] at hlen
    simp at hlen
  by_cases hagent : nul ∈ a.agentId.toList
  · obtain ⟨front, back, htext⟩ := List.append_of_mem hagent
    refine ⟨.ofList front, .ofList back, a.incarnationId ++ String.ofList [nul] ++ a.prompt, ?_,
      .inl (hshorter htext)⟩
    simp [joined, htext]
  by_cases hinc : nul ∈ a.incarnationId.toList
  · obtain ⟨front, back, htext⟩ := List.append_of_mem hinc
    refine ⟨a.agentId, .ofList front, .ofList back ++ String.ofList [nul] ++ a.prompt, ?_,
      .inr (.inl (hshorter htext))⟩
    simp [joined, htext]
  by_cases hprompt : nul ∈ a.prompt.toList
  · obtain ⟨front, back, htext⟩ := List.append_of_mem hprompt
    refine ⟨a.agentId, a.incarnationId ++ String.ofList [nul] ++ String.ofList front, .ofList back,
      ?_, .inr (.inl ?_)⟩
    · simp [joined, htext]
    · intro hsame
      have hlen := congrArg (fun s : String => s.toList.length) hsame
      simp at hlen
  exact absurd ⟨hagent, hinc, hprompt⟩ ha

/-- Equal fingerprints have equal contents, where no text has a NUL. -/
theorem content_of_fingerprint (hsha : Function.Injective sha256) (ha : Typed a) (hb : Typed b)
    (hnul : NulFree a) (h : admissionFingerprint sha256 b = admissionFingerprint sha256 a) :
    content b = content a := by
  rw [admissionFingerprint_eq, admissionFingerprint_eq] at h
  obtain ⟨hjoined, hpaste, hfinal, htimeout⟩ := (admissionBytes_inj_iff hb ha).mp (hsha h)
  obtain ⟨hagent, hinc, hprompt⟩ :=
    fields_of_joined hnul.agentId hnul.incarnationId hnul.prompt hjoined.symm
  simp only [content, Prod.mk.injEq]
  exact ⟨String.ext hagent.symm, String.ext hinc.symm, String.ext hprompt.symm, hpaste,
    hfinal, htimeout⟩

theorem confused_of_nul (sha256 : List UInt8 → String) (ha : Typed a) (hnul : ¬ NulFree a) :
    ∃ b, Typed b ∧ b.requestId = a.requestId ∧
      admissionFingerprint sha256 b = admissionFingerprint sha256 a ∧ content b ≠ content a := by
  obtain ⟨agentId, incarnationId, prompt, hjoined, hother⟩ := other_of_nul hnul
  let b : AgentPromptAdmissionRequest :=
    { a with agentId := agentId, incarnationId := incarnationId, prompt := prompt }
  have hb : Typed b := ha
  refine ⟨b, hb, rfl, ?_, ?_⟩
  · rw [admissionFingerprint_eq, admissionFingerprint_eq,
      (admissionBytes_inj_iff hb ha).mpr ⟨hjoined, rfl, rfl, rfl⟩]
  · intro hcontent
    simp only [content, Prod.mk.injEq] at hcontent
    obtain ⟨hagent, hinc, hprompt, -⟩ := hcontent
    rcases hother with hne | hne | hne
    · exact hne hagent
    · exact hne hinc
    · exact hne hprompt

theorem claim_conflict_iff (sha256 : List UInt8 → String) {store : AgentAdmissionStore}
    {row : AdmissionRow} (hrow : store.row b.requestId = some row) :
    (store.claim sha256 b).1 = .conflict ↔ row.fingerprint ≠ admissionFingerprint sha256 b := by
  unfold AgentAdmissionStore.claim
  rw [hrow]
  by_cases hfp : row.fingerprint = admissionFingerprint sha256 b
  · by_cases hprepared : row.record.state = .prepared
    · simp [hfp, hprepared]
    · simp [hfp, hprepared]
  · simp [hfp]

/-! ## The return-final request's fingerprint -/

/-- The server registers `r` for the admission `a`, whose target it found by its ID. -/
def Proposes (sha256 : List UInt8 → String) (a : AgentPromptAdmissionRequest)
    (r : AgentRequest) : Prop :=
  ∃ (candidate : AgentAdmissionCandidate) (now registeredAt : DateTime),
    candidate.metadata.agentId = a.agentId ∧
      candidate.proposedReturnRequest sha256 a now registeredAt = .ok (some r)

/-- The registration for the admission of `a`. -/
def registration (candidate : AgentAdmissionCandidate) (a : AgentPromptAdmissionRequest)
    (now : DateTime) : Registration where
  requestId := a.requestId
  metadata := candidate.metadata
  paneId := candidate.paneId
  runtime := candidate.runtime
  targetIncarnationId := a.incarnationId
  baselineEventSequence := candidate.eventSequence
  eventStreamLive := candidate.eventStreamLive
  prompt := a.prompt
  submissionPaste := a.paste
  timeoutMs := a.timeoutMs
  deadlineAt :=
    if a.timeoutMs ≠ 0 then some (now + Int.bmod a.timeoutMs (2 ^ 64) * 1000000) else none

theorem proposed_eq_some_iff {candidate : AgentAdmissionCandidate} {now registeredAt : DateTime} :
    candidate.proposedReturnRequest sha256 a now registeredAt = .ok (some r) ↔
      a.returnFinal = true ∧ ((candidate.runtime.transport = .codexAppServerTui ∧
            validateManagedBaseline candidate.metadata candidate.runtime
              candidate.eventStreamLive = .ok () ∧
            r = (registration candidate a now).request (textSha256 sha256) registeredAt
              .codexAppServerEvents 0 0
              ((candidate.metadata.codexAppServer.map managedSessionIdentity).getD "")) ∨
          (candidate.runtime.transport ≠ .codexAppServerTui ∧
            validateBaseline candidate.metadata candidate.runtime candidate.eventStreamLive =
              .ok () ∧ r = (registration candidate a now).request (textSha256 sha256) registeredAt
              .providerEvents (candidate.metadata.adoptedPid.getD 0)
              (candidate.metadata.adoptedStartTime.getD 0)
              (candidate.runtime.sessionPath.getD ""))) := by
  unfold AgentAdmissionCandidate.proposedReturnRequest
  by_cases hfinal : a.returnFinal = true
  · by_cases hmanaged : candidate.runtime.transport = .codexAppServerTui
    · cases hv : validateManagedBaseline candidate.metadata candidate.runtime
        candidate.eventStreamLive with
      | error err =>
        simp only [hfinal, hmanaged, AgentRequest.newManagedCodex, hv]
        simp [bind, Except.bind]
      | ok u =>
        simp only [hfinal, hmanaged, AgentRequest.newManagedCodex, hv]
        simp [bind, Except.bind, pure, Except.pure, registration, @eq_comm _ r]
    · cases hv : validateBaseline candidate.metadata candidate.runtime
        candidate.eventStreamLive with
      | error err =>
        simp only [hfinal, hmanaged, AgentRequest.new, hv]
        simp [bind, Except.bind]
      | ok u =>
        simp only [hfinal, hmanaged, AgentRequest.new, hv]
        simp [bind, Except.bind, pure, Except.pure, registration, hmanaged, @eq_comm _ r]
  · simp [hfinal]

theorem Proposes.fields (h : Proposes sha256 a r) :
    a.returnFinal = true ∧ r.targetAgentId = a.agentId ∧
      r.submissionSha256 = textSha256 sha256 a.prompt ∧ r.submissionPaste = a.paste ∧
      r.timeoutMs = a.timeoutMs := by
  obtain ⟨candidate, now, registeredAt, hagent, hok⟩ := h
  obtain ⟨hfinal, ⟨-, -, rfl⟩ | ⟨-, -, rfl⟩⟩ := proposed_eq_some_iff.mp hok
  · exact ⟨hfinal, hagent, rfl, rfl, rfl⟩
  · exact ⟨hfinal, hagent, rfl, rfl, rfl⟩

theorem Proposes.incarnation (h : Proposes sha256 a r) (incarnationId : String) :
    Proposes sha256 { a with incarnationId := incarnationId }
      { r with targetIncarnationId := incarnationId } := by
  obtain ⟨candidate, now, registeredAt, hagent, hok⟩ := h
  refine ⟨candidate, now, registeredAt, hagent, proposed_eq_some_iff.mpr ?_⟩
  obtain ⟨hfinal, ⟨hmanaged, hv, rfl⟩ | ⟨hmanaged, hv, rfl⟩⟩ := proposed_eq_some_iff.mp hok
  · exact ⟨hfinal, .inl ⟨hmanaged, hv, rfl⟩⟩
  · exact ⟨hfinal, .inr ⟨hmanaged, hv, rfl⟩⟩

theorem Proposes.agent (h : Proposes sha256 a r) (agentId : String) :
    Proposes sha256 { a with agentId := agentId } { r with targetAgentId := agentId } := by
  obtain ⟨candidate, now, registeredAt, -, hok⟩ := h
  let other : AgentAdmissionCandidate :=
    { candidate with metadata := { candidate.metadata with agentId := agentId } }
  refine ⟨other, now, registeredAt, rfl, proposed_eq_some_iff.mpr ?_⟩
  obtain ⟨hfinal, ⟨hmanaged, hv, rfl⟩ | ⟨hmanaged, hv, rfl⟩⟩ := proposed_eq_some_iff.mp hok
  · exact ⟨hfinal, .inl ⟨hmanaged, hv, rfl⟩⟩
  · exact ⟨hfinal, .inr ⟨hmanaged, hv, rfl⟩⟩

/-- The digest of the prompt that the fingerprint takes. -/
def submissionHash (r : AgentRequest) : String :=
  if r.submissionSha256 = "" then r.promptSha256 else r.submissionSha256

/-- The six fields, joined. -/
def requestText (r : AgentRequest) : List Char :=
  r.targetAgentId.toList ++ nul :: (r.targetSessionPath.toList ++ nul ::
    (printNat r.baselineCursor ++ nul :: ((submissionHash r).toList ++ nul ::
      ((toString r.submissionPaste).toList ++ nul :: printNat r.timeoutMs))))

/-- What `message_sha256` hashes of a text. -/
def normalised (text : List Char) : List Char :=
  (trim (.ofList text)).toList.flatMap fun c => if c = '\t' then [' ', ' ', ' ', ' '] else [c]

theorem requestFingerprint_eq (sha256 : String → String) (r : AgentRequest) :
    requestFingerprint sha256 r = sha256 (.ofList (normalised (requestText r))) := by
  have htext : r.targetAgentId ++ "\x00" ++ r.targetSessionPath ++ "\x00" ++
      toString r.baselineCursor ++ "\x00" ++ submissionHash r ++ "\x00" ++
      toString r.submissionPaste ++ "\x00" ++ toString r.timeoutMs =
        .ofList (requestText r) := by
    apply String.ext
    simp [requestText, printNat, nul, toString, Nat.repr]
  unfold requestFingerprint promptSha256 messageSha256 normalised
  rw [← htext]
  rfl

theorem normalised_spaces {spaces : List Char} (h : ∀ c ∈ spaces, isWhitespace c = true)
    (text : List Char) : normalised (spaces ++ text) = normalised text := by
  unfold normalised trim
  simp only [String.toList_ofList, List.dropWhile_append_of_pos h]

theorem dropWhile_of_head {text : List Char} (h : ∀ c ∈ text.head?, isWhitespace c = false) :
    text.dropWhile isWhitespace = text := by
  cases text with
  | nil => rfl
  | cons c text => simp [h c (by simp)]

theorem normalised_of_plain {text : List Char} (hfirst : ∀ c ∈ text.head?, isWhitespace c = false)
    (hlast : ∀ c ∈ text.getLast?, isWhitespace c = false) (htab : '\t' ∉ text) :
    normalised text = text := by
  have htrim : trim (.ofList text) = .ofList text := by
    unfold trim
    have hback : ∀ c ∈ text.reverse.head?, isWhitespace c = false := by
      rw [List.head?_reverse]
      exact hlast
    rw [String.toList_ofList, dropWhile_of_head hfirst, dropWhile_of_head hback,
      List.reverse_reverse]
  have hkeep : ∀ c ∈ text, (if c = '\t' then [' ', ' ', ' ', ' '] else [c]) = [c] := by
    intro c hc
    rw [if_neg]
    rintro rfl
    exact htab hc
  unfold normalised
  rw [htrim, String.toList_ofList, List.flatMap_congr hkeep, List.flatMap_singleton']

/-- Neither NULs nor tabs in the agent's ID and in the session, and no space before the agent's
ID. -/
structure Plain (r : AgentRequest) : Prop where
  agent : nul ∉ r.targetAgentId.toList ∧ '\t' ∉ r.targetAgentId.toList
  session : nul ∉ r.targetSessionPath.toList ∧ '\t' ∉ r.targetSessionPath.toList
  start : ∀ c ∈ r.targetAgentId.toList.head?, isWhitespace c = false

theorem digit_not_mem {c : Char} (h : c.isDigit = false) (n : Nat) : c ∉ printNat n := by
  intro hc
  rw [isDigit_of_mem_printNat hc] at h
  cases h

theorem printNat_injective : Function.Injective printNat := by
  intro n m h
  have hread := congrArg digits h
  rw [digits_printNat, digits_printNat] at hread
  exact Option.some.inj hread

theorem not_mem_bool {c : Char} (h : c ∉ "truefalse".toList) (flag : Bool) :
    c ∉ (toString flag).toList := by
  cases flag <;> simp_all [toString]

theorem isDigit_not_white {c : Char} (h : c.isDigit = true) : isWhitespace c = false := by
  have hrange : 48 ≤ c.toNat ∧ c.toNat ≤ 57 := by
    rw [Char.isDigit, Bool.and_eq_true, decide_eq_true_eq, decide_eq_true_eq] at h
    exact ⟨UInt32.le_iff_toNat_le.mp h.1, UInt32.le_iff_toNat_le.mp h.2⟩
  simp only [isWhitespace, Bool.or_eq_false_iff, Bool.and_eq_false_iff, decide_eq_false_iff_not,
    beq_eq_false_iff_ne]
  omega

theorem normalised_requestText (h : Plain r) (hhash : '\t' ∉ (submissionHash r).toList) :
    normalised (requestText r) = requestText r := by
  apply normalised_of_plain
  · intro c hc
    unfold requestText at hc
    cases hagent : r.targetAgentId.toList with
    | nil =>
      rw [hagent] at hc
      cases hc
      decide
    | cons d agent =>
      rw [hagent] at hc
      exact h.start c (by rw [hagent]; exact hc)
  · -- the last character is a digit of the timeout
    intro c hc
    obtain ⟨front, hfront⟩ : ∃ front, requestText r = front ++ printNat r.timeoutMs :=
      ⟨r.targetAgentId.toList ++ nul :: (r.targetSessionPath.toList ++ nul ::
        (printNat r.baselineCursor ++ nul :: ((submissionHash r).toList ++ nul ::
          ((toString r.submissionPaste).toList ++ [nul])))), by simp [requestText]⟩
    obtain ⟨d, digits, hdigits, -⟩ := printNat_head r.timeoutMs
    rw [hfront, List.getLast?_append_of_ne_nil _ (by rw [hdigits]; exact List.cons_ne_nil d digits)]
      at hc
    exact isDigit_not_white (isDigit_of_mem_printNat (List.mem_of_getLast? hc))
  · have hcursor : '\t' ∉ printNat r.baselineCursor := digit_not_mem (by decide) _
    have htimeout : '\t' ∉ printNat r.timeoutMs := digit_not_mem (by decide) _
    have hpaste : '\t' ∉ (toString r.submissionPaste).toList := not_mem_bool (by decide) _
    have hsep : '\t' ≠ nul := by decide
    simp only [requestText, List.mem_append, List.mem_cons, not_or]
    exact ⟨h.agent.2, hsep, h.session.2, hsep, hcursor, hsep, hhash, hsep, hpaste, hsep, htimeout⟩

/-- A plain request is read back from its text. -/
theorem requestText_injective (h : Plain r) (h' : Plain r') (heq : requestText r = requestText r') :
    r.targetAgentId = r'.targetAgentId ∧ submissionHash r = submissionHash r' ∧
      r.submissionPaste = r'.submissionPaste ∧ r.timeoutMs = r'.timeoutMs := by
  obtain ⟨hagent, hafter⟩ := cut_at h.agent.1 h'.agent.1 heq
  obtain ⟨-, hafter⟩ := cut_at h.session.1 h'.session.1 hafter
  obtain ⟨-, hafter⟩ := cut_at (digit_not_mem (by decide) _) (digit_not_mem (by decide) _) hafter
  have hback := congrArg List.reverse hafter
  simp only [List.reverse_append, List.reverse_cons, List.append_assoc, List.singleton_append]
    at hback
  have hdigits : ∀ n, nul ∉ (printNat n).reverse := by
    intro n
    rw [List.mem_reverse]
    exact digit_not_mem (by decide) n
  have hflag : ∀ flag : Bool, nul ∉ (toString flag).toList.reverse := by
    intro flag
    rw [List.mem_reverse]
    exact not_mem_bool (by decide) flag
  obtain ⟨htimeout, hback⟩ := cut_at (hdigits _) (hdigits _) hback
  obtain ⟨hpaste, hhash⟩ := cut_at (hflag _) (hflag _) hback
  have hbool : ∀ p q : Bool, (toString p).toList = (toString q).toList → p = q := by decide
  exact ⟨String.ext hagent, String.ext (List.reverse_injective hhash),
    hbool _ _ (List.reverse_injective hpaste),
    printNat_injective (List.reverse_injective htimeout)⟩

/-! ## What the fingerprints say -/

/-- Some proposal for `b` has the fingerprint of the request `r`. -/
def Twin (sha256 : List UInt8 → String) (r : AgentRequest) (b : AgentPromptAdmissionRequest) :
    Prop :=
  ∃ r', Proposes sha256 b r' ∧
    requestFingerprint (textSha256 sha256) r' = requestFingerprint (textSha256 sha256) r

theorem twin_incarnation (h : Proposes sha256 a r) (incarnationId : String) :
    Twin sha256 r { a with incarnationId := incarnationId } :=
  -- the incarnation is not hashed
  ⟨_, h.incarnation incarnationId, rfl⟩

theorem twin_agent (h : Proposes sha256 a r) {spaces : String}
    (hspaces : ∀ c ∈ spaces.toList, isWhitespace c = true) :
    Twin sha256 r { a with agentId := spaces ++ a.agentId } := by
  obtain ⟨-, hagent, -⟩ := h.fields
  refine ⟨_, h.agent (spaces ++ a.agentId), ?_⟩
  have htext : requestText { r with targetAgentId := spaces ++ a.agentId } =
      spaces.toList ++ requestText r := by
    simp [requestText, hagent, submissionHash]
  rw [requestFingerprint_eq, requestFingerprint_eq, htext, normalised_spaces hspaces]

theorem plain_identifies (hsha : Function.Injective sha256) (hhex : HexDigest sha256)
    (ha : Proposes sha256 a r) (hb : Proposes sha256 b r') (hr : Plain r) (hr' : Plain r')
    (h : requestFingerprint (textSha256 sha256) r' = requestFingerprint (textSha256 sha256) r) :
    content b = content { a with incarnationId := b.incarnationId } := by
  obtain ⟨hfinal, hagent, hsub, hpaste, htimeout⟩ := ha.fields
  obtain ⟨hfinal', hagent', hsub', hpaste', htimeout'⟩ := hb.fields
  have htextSha : Function.Injective (textSha256 sha256) := by
    intro s t hst
    have hbytes : s.toUTF8.toList = t.toUTF8.toList := hsha hst
    rw [toList_toUTF8, toList_toUTF8] at hbytes
    exact String.ext (encodeText_injective hbytes)
  -- the digest of a prompt is there, so it is the one that is hashed
  have hhash : ∀ {s : AgentRequest} {prompt : String},
      s.submissionSha256 = textSha256 sha256 prompt →
        submissionHash s = textSha256 sha256 prompt := by
    intro s prompt hs
    unfold submissionHash
    rw [if_neg (by rw [hs]; exact (hhex _).1), hs]
  have htab : ∀ {s : AgentRequest} {prompt : String},
      s.submissionSha256 = textSha256 sha256 prompt → '\t' ∉ (submissionHash s).toList := by
    intro s prompt hs hmem
    rw [hhash hs] at hmem
    exact absurd ((hhex _).2 '\t' hmem) (by decide)
  rw [requestFingerprint_eq, requestFingerprint_eq, normalised_requestText hr (htab hsub),
    normalised_requestText hr' (htab hsub')] at h
  obtain ⟨hsameAgent, hsameHash, hsamePaste, hsameTimeout⟩ :=
    requestText_injective hr' hr (String.ofList_injective (htextSha h))
  rw [hhash hsub', hhash hsub] at hsameHash
  simp only [content, Prod.mk.injEq, true_and]
  refine ⟨?_, htextSha hsameHash, ?_, hfinal'.trans hfinal.symm, ?_⟩
  · rw [← hagent', ← hagent, hsameAgent]
  · rw [← hpaste', ← hpaste, hsamePaste]
  · rw [← htimeout', ← htimeout, hsameTimeout]

/-- **What equal fingerprints say.** An admission's fingerprint, and the conflict that rests on
it, tell the request from all others exactly when its three texts have no NUL. The fingerprint of
a return-final request never does: others have it with any other incarnation, and with spaces
before the agent's ID. Among plain requests it tells everything but the incarnation. -/
theorem fingerprint_identifies_iff (sha256 : List UInt8 → String)
    (hsha : Function.Injective sha256) (hhex : HexDigest sha256) :
    (∀ a, Typed a →
      ((∀ b, Typed b → admissionFingerprint sha256 b = admissionFingerprint sha256 a →
        content b = content a) ↔ NulFree a) ∧
      ∀ (store : AgentAdmissionStore) row, store.row a.requestId = some row →
        row.fingerprint = admissionFingerprint sha256 a →
        ((∀ b, Typed b → b.requestId = a.requestId → content b ≠ content a →
          (store.claim sha256 b).1 = .conflict) ↔ NulFree a)) ∧
    (∀ a r, Proposes sha256 a r →
      (¬ ∀ b, Twin sha256 r b → content b = content a) ∧
      (∀ incarnationId, Twin sha256 r { a with incarnationId := incarnationId }) ∧
      ∀ spaces : String, (∀ c ∈ spaces.toList, isWhitespace c = true) →
        Twin sha256 r { a with agentId := spaces ++ a.agentId }) ∧
    ∀ a b r r', Proposes sha256 a r → Proposes sha256 b r' → Plain r → Plain r' →
      requestFingerprint (textSha256 sha256) r' = requestFingerprint (textSha256 sha256) r →
      content b = content { a with incarnationId := b.incarnationId } := by
  refine ⟨fun a ha => ⟨⟨?_, ?_⟩, fun store row hrow hfp => ⟨?_, ?_⟩⟩, fun a r har => ⟨?_, ?_, ?_⟩,
    fun a b r r' => plain_identifies hsha hhex⟩
  · intro h
    by_contra hnul
    obtain ⟨b, hb, -, hsame, hother⟩ := confused_of_nul sha256 ha hnul
    exact hother (h b hb hsame)
  · intro hnul b hb hsame
    exact content_of_fingerprint hsha ha hb hnul hsame
  · intro h
    by_contra hnul
    obtain ⟨b, hb, hid, hsame, hother⟩ := confused_of_nul sha256 ha hnul
    rw [← hid] at hrow
    exact (claim_conflict_iff sha256 hrow).mp (h b hb hid hother) (hfp.trans hsame.symm)
  · intro hnul b hb hid hother
    rw [← hid] at hrow
    rw [claim_conflict_iff sha256 hrow, hfp]
    exact fun hsame => hother (content_of_fingerprint hsha ha hb hnul hsame.symm)
  · intro h
    have hsame := h _ (twin_incarnation har (a.incarnationId ++ " "))
    simp only [content, Prod.mk.injEq] at hsame
    have hlen := congrArg (fun s : String => s.toList.length) hsame.2.1
    simp at hlen
  · intro incarnationId
    exact twin_incarnation har incarnationId
  · intro spaces hspaces
    exact twin_agent har hspaces

/-! ## A digest -/

/-- The bytes in hexadecimal, and a zero. -/
def hexWithZero (bytes : List UInt8) : List Char :=
  bytes.flatMap (fun byte => [Nat.digitChar (byte.toNat / 16), Nat.digitChar (byte.toNat % 16)]) ++
    ['0']

/-- A prompt for an agent. -/
def greeting : AgentPromptAdmissionRequest where
  requestId := "r"
  agentId := "agent-1"
  incarnationId := "incarnation-1"
  prompt := "hello"
  paste := true
  returnFinal := false
  timeoutMs := 0

/-- The digest of the greeting's bytes. -/
def greetingSha256 : String := "ba3159036d3a9b0709eb64520ee0bbfd171aa58dd04de6afeda88569a0235c81"

/-- A digest without collisions that is the real one on the greeting. -/
def digest (bytes : List UInt8) : String :=
  if bytes = admissionBytes greeting then greetingSha256 else .ofList (hexWithZero bytes)

theorem digitChar_hex : ∀ i < 16, Nat.digitChar i ∈ "0123456789abcdef".toList ∧
    ∀ j < 16, Nat.digitChar i = Nat.digitChar j → i = j := by
  decide

theorem hexWithZero_injective : Function.Injective hexWithZero := by
  intro xs ys h
  have hpairs := List.append_cancel_right h
  clear h
  induction xs generalizing ys with
  | nil =>
    cases ys with
    | nil => rfl
    | cons y ys => simp at hpairs
  | cons x xs ih =>
    cases ys with
    | nil => simp at hpairs
    | cons y ys =>
      simp only [List.flatMap_cons, List.cons_append, List.nil_append, List.cons.injEq]
        at hpairs
      obtain ⟨hhigh, hlow, hrest⟩ := hpairs
      have hx := x.toNat_lt
      have hy := y.toNat_lt
      have h1 := (digitChar_hex (x.toNat / 16) (by omega)).2 (y.toNat / 16) (by omega) hhigh
      have h2 := (digitChar_hex (x.toNat % 16) (by omega)).2 (y.toNat % 16) (by omega) hlow
      have hsame : x = y := UInt8.toNat_inj.mp (by omega)
      rw [hsame, ih hrest]

theorem length_hexWithZero (bytes : List UInt8) :
    (hexWithZero bytes).length = 2 * bytes.length + 1 := by
  unfold hexWithZero
  rw [List.length_append, List.length_flatMap]
  simp [Nat.mul_comm]

theorem hexWithZero_ne (bytes : List UInt8) :
    String.ofList (hexWithZero bytes) ≠ greetingSha256 := by
  intro h
  have hlen := congrArg (fun s : String => s.toList.length) h
  have hreal : greetingSha256.toList.length = 64 := by decide +kernel
  simp only [String.toList_ofList, length_hexWithZero, hreal] at hlen
  omega

theorem digest_injective : Function.Injective digest := by
  intro xs ys h
  unfold digest at h
  by_cases hx : xs = admissionBytes greeting
  · by_cases hy : ys = admissionBytes greeting
    · rw [hx, hy]
    · rw [if_pos hx, if_neg hy] at h
      exact absurd h.symm (hexWithZero_ne ys)
  · by_cases hy : ys = admissionBytes greeting
    · rw [if_neg hx, if_pos hy] at h
      exact absurd h (hexWithZero_ne xs)
    · rw [if_neg hx, if_neg hy] at h
      exact hexWithZero_injective (String.ofList_injective h)

theorem digest_hex : HexDigest digest := by
  intro bytes
  by_cases hb : bytes = admissionBytes greeting
  · rw [digest, if_pos hb]
    refine ⟨by decide, fun c hc => ?_⟩
    have hall : (greetingSha256.toList.all fun c => "0123456789abcdef".toList.elem c) = true := by
      decide +kernel
    exact List.mem_of_elem_eq_true (List.all_eq_true.mp hall c hc)
  · rw [digest, if_neg hb]
    constructor
    · intro h
      have hlen := congrArg (fun s : String => s.toList.length) h
      simp [length_hexWithZero] at hlen
    · intro c hc
      rw [String.toList_ofList, hexWithZero, List.mem_append, List.mem_flatMap] at hc
      rcases hc with ⟨byte, -, hc⟩ | hc
      · have hlt := byte.toNat_lt
        simp only [List.mem_cons, List.not_mem_nil, or_false] at hc
        rcases hc with rfl | rfl
        · exact (digitChar_hex (byte.toNat / 16) (by omega)).1
        · exact (digitChar_hex (byte.toNat % 16) (by omega)).1
      · rw [List.mem_singleton] at hc
        rw [hc]
        decide

/-- No other request has the greeting's fingerprint. -/
theorem fingerprint_identifies_iff_greeting :
    admissionFingerprint digest greeting = greetingSha256 ∧
      ∀ b, Typed b → admissionFingerprint digest b = greetingSha256 →
        content b = content greeting := by
  have hreal : admissionFingerprint digest greeting = greetingSha256 := by
    rw [admissionFingerprint_eq, digest, if_pos rfl]
  have hnul : NulFree greeting := ⟨by decide, by decide, by decide⟩
  have htyped : Typed greeting := by
    unfold Typed greeting
    decide
  refine ⟨hreal, ?_⟩
  rw [← hreal]
  exact (((fingerprint_identifies_iff digest digest_injective digest_hex).1 greeting htyped).1).mpr
    hnul

/-! ## A NUL moves the border between two fields -/

def nulInPrompt : AgentPromptAdmissionRequest :=
  { greeting with prompt := "one\x00two" }

/-- The NUL and what is before it moved to the incarnation. -/
def nulInIncarnation : AgentPromptAdmissionRequest :=
  { greeting with incarnationId := "incarnation-1\x00one", prompt := "two" }

/-- The two share their fingerprint, whatever the digest, so a claim with the ID of the first,
once it was accepted, gets its receipt and no conflict. -/
theorem nul_moves_between_fields : (∀ sha256 : List UInt8 → String,
      admissionFingerprint sha256 nulInIncarnation = admissionFingerprint sha256 nulInPrompt) ∧
    content nulInIncarnation ≠ content nulInPrompt ∧
    nulInIncarnation.requestId = nulInPrompt.requestId ∧ ∀ sha256 : List UInt8 → String,
      (((AgentAdmissionStore.empty.claim sha256 nulInPrompt).2.finish
        (.accepted nulInPrompt none)).map fun store => (store.claim sha256 nulInIncarnation).1) =
        some (.existing (.accepted nulInPrompt none)) := by
  have hsame : ∀ sha256 : List UInt8 → String,
      admissionFingerprint sha256 nulInIncarnation = admissionFingerprint sha256 nulInPrompt := by
    intro sha256
    have htyped : Typed nulInPrompt := by
      unfold Typed nulInPrompt greeting
      decide
    rw [admissionFingerprint_eq, admissionFingerprint_eq,
      (admissionBytes_inj_iff (a := nulInIncarnation) (b := nulInPrompt) htyped htyped).mpr
        ⟨by decide, rfl, rfl, rfl⟩]
  refine ⟨hsame, by decide, rfl, ?_⟩
  intro sha256
  obtain ⟨store, hfinish⟩ : ∃ store, (AgentAdmissionStore.empty.claim sha256 nulInPrompt).2.finish
      (.accepted nulInPrompt none) = some store := ⟨_, rfl⟩
  obtain ⟨row, record, hrow, hstate, hreceipt, hrows⟩ := AgentAdmissionStore.row_finish hfinish
  have hfp : row.fingerprint = admissionFingerprint sha256 nulInPrompt := by
    cases hrow
    rfl
  have hlater : store.row nulInIncarnation.requestId = some { row with record := record } := by
    rw [hrows nulInIncarnation.requestId]
    exact if_pos rfl
  have hclaim := AgentAdmissionStore.claim_of_finished sha256 hlater hstate
  rw [hfinish, Option.map_some, hclaim, if_pos ((hsame sha256).trans hfp.symm), ← hreceipt]

end Wakterm.Theorems.Fingerprints
