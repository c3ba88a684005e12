import Wakterm.Vtparse.Logic.Safety

/-!
# Parsers that cannot be told apart

What a parser has gathered is read in some states only: parameters and intermediates up to the final
byte of a sequence, an OSC string and an APC string while it lasts.
-/

namespace Wakterm.Vtparse

open Wakterm.Machine

/-! ## What is read -/

/-- The states in which parameters and intermediates are gathered. -/
def State.collects : State → Bool
  | .escape | .escapeIntermediate | .csiEntry | .csiParam | .csiIntermediate | .dcsEntry | .dcsParam
  | .dcsIntermediate => true
  | _ => false

/-- The actions on parameters and intermediates. -/
def Action.onSequence : Action → Bool
  | .collect | .param | .hook | .escDispatch | .csiDispatch => true
  | _ => false

def Action.onOsc : Action → Bool
  | .oscPut | .oscEnd => true
  | _ => false

def Action.onApc : Action → Bool
  | .apcPut | .apcEnd => true
  | _ => false

/-- An entry of a table acts on what its state reads. Where it leads to a state that reads more,
that is cleared on the way. -/
structure Reads (s : State) (r : Action × State) : Prop where
  keeps : r.1 ≠ .clear ∧ r.1 ≠ .oscStart ∧ r.1 ≠ .apcStart
  sequence : r.1.onSequence = true → s.collects = true
  osc : r.1.onOsc = true → s = .oscString
  apc : r.1.onApc = true → s = .apcString
  gathers : r.2.collects = true → r.2 ≠ s → s.collects = true ∨ lookupEntry r.2 = .clear
  hooks : r.2 = .dcsPassthrough → r.2 ≠ s → s.collects = true

instance (s : State) (r : Action × State) : Decidable (Reads s r) :=
  decidable_of_iff
    ((r.1 ≠ .clear ∧ r.1 ≠ .oscStart ∧ r.1 ≠ .apcStart) ∧
      (r.1.onSequence = true → s.collects = true) ∧ (r.1.onOsc = true → s = .oscString) ∧
      (r.1.onApc = true → s = .apcString) ∧
      (r.2.collects = true → r.2 ≠ s → s.collects = true ∨ lookupEntry r.2 = .clear) ∧
      (r.2 = .dcsPassthrough → r.2 ≠ s → s.collects = true))
    ⟨fun h => ⟨h.1, h.2.1, h.2.2.1, h.2.2.2.1, h.2.2.2.2.1, h.2.2.2.2.2⟩,
      fun h => ⟨h.keeps, h.sequence, h.osc, h.apc, h.gathers, h.hooks⟩⟩

theorem reads_lookup {s : State} {byte : UInt8} {act : Action} {state : State}
    (h : VTParser.lookup s byte = .ok (act, state)) : Reads s (act, state) := by
  have hall : ∀ table, transitions s = some table → ∀ i, i < 256 → Reads s (table i) := by
    intro table htable
    cases s with
    | anywhere => cases htable
    | utf8Sequence => cases htable
    | _ =>
      cases htable
      decide +kernel
  unfold VTParser.lookup at h
  split at h
  · next table htable =>
    obtain hr := Except.ok.inj h
    rw [← hr]
    exact hall table htable byte.toNat byte.toNat_lt
  · cases h

namespace VTParser

variable {σ : Type} {p q : VTParser σ}

/-! ## Actions -/

/-- What `p` has gathered of a sequence, with all else from `q`. -/
def aside (p q : VTParser σ) : VTParser σ :=
  { p with
    state := q.state
    osc := q.osc
    apcData := q.apcData
    apcDataTruncated := q.apcDataTruncated
    utf8ReturnState := q.utf8ReturnState }

/-- A step that neither reads nor changes what is set aside. -/
def Framed (f : VTParser σ → Except Fault (VTParser σ)) : Prop :=
  ∀ p q, f (p.aside q) = (f p).map (·.aside q)

variable {f : VTParser σ → Except Fault (VTParser σ)} {act : Action} {state : State}

theorem Framed.bind {g : VTParser σ → Except Fault (VTParser σ)} (hf : Framed f) (hg : Framed g) :
    Framed fun p => f p >>= g := by
  intro p q
  show f (p.aside q) >>= g = (f p >>= g).map _
  rw [hf p q]
  cases f p with
  | error e => rfl
  | ok p' => exact hg p' q

theorem framed_pushParam (param : CsiParam) : Framed (σ := σ) (·.pushParam param) := by
  intro p q
  show (store p.params p.numParams param >>= _) = (store p.params p.numParams param >>= _).map _
  cases store p.params p.numParams param with
  | error e => rfl
  | ok params => rfl

theorem framed_finishParam : Framed (σ := σ) (·.finishParam) := by
  intro p q
  show (p.aside q).finishParam = p.finishParam.map _
  unfold VTParser.finishParam
  have hcurrent : (p.aside q).currentParam = p.currentParam := rfl
  have hcount : (p.aside q).numParams = p.numParams := rfl
  rw [hcurrent]
  cases p.currentParam with
  | none => rfl
  | some val =>
    dsimp only
    rw [hcount]
    split
    · exact framed_pushParam val { p with currentParam := none } q
    · rfl

theorem framed_promote (bytes : List UInt8) : Framed (σ := σ) (promote bytes) := by
  induction bytes with
  | nil => exact fun p q => rfl
  | cons byte bytes ih =>
    intro p q
    unfold promote
    have hcount : (p.aside q).numParams = p.numParams := rfl
    rw [hcount]
    split
    · rfl
    · exact (framed_pushParam (.p byte)).bind ih p q

theorem framed_promoteIntermediatesToParams : Framed (σ := σ) (·.promoteIntermediatesToParams) := by
  intro p q
  show (p.aside q).promoteIntermediatesToParams = p.promoteIntermediatesToParams.map _
  unfold VTParser.promoteIntermediatesToParams
  have hcount : (p.aside q).numIntermediates = p.numIntermediates := rfl
  have hbytes : (p.aside q).intermediates = p.intermediates := rfl
  rw [hcount, hbytes]
  split
  · cases slice p.intermediates p.numIntermediates with
    | error e => rfl
    | ok bytes =>
      show (promote bytes (p.aside q) >>= _) = (promote bytes p >>= _).map _
      rw [framed_promote bytes p q]
      cases promote bytes p with
      | error e => rfl
      | ok p' => rfl
  · rfl

theorem framed_collect (byte : UInt8) : Framed (σ := σ) (·.collect byte) := by
  intro p q
  show (p.aside q).collect byte = (p.collect byte).map _
  unfold VTParser.collect
  have hcount : (p.aside q).numIntermediates = p.numIntermediates := rfl
  have hbytes : (p.aside q).intermediates = p.intermediates := rfl
  rw [hcount, hbytes]
  split
  · cases store p.intermediates p.numIntermediates byte with
    | error e => rfl
    | ok bytes => rfl
  · rfl

theorem framed_param (byte : UInt8) : Framed (σ := σ) (·.param byte) := by
  intro p q
  show (p.aside q).param byte = (p.param byte).map _
  unfold VTParser.param
  have hfull : (p.aside q).paramsFull = p.paramsFull := rfl
  rw [hfull]
  split
  · rfl
  · refine framed_promoteIntermediatesToParams.bind (fun p q => ?_) p q
    have hcurrent : (p.aside q).currentParam = p.currentParam := rfl
    split
    · dsimp only
      rw [hcurrent]
      cases p.currentParam with
      | none => rfl
      | some param =>
        cases param with
        | integer i => rfl
        | p byte => rfl
    · refine framed_finishParam.bind (fun p q => ?_) p q
      have hcount : (p.aside q).numParams = p.numParams := rfl
      rw [hcount]
      split
      · rfl
      · exact framed_pushParam (.p byte) p q

/-- Two parsers that agree in what is read: in a sequence, in an OSC string, or in an APC string. -/
structure Agree (sequence osc apc : Prop) (p q : VTParser σ) : Prop where
  params : q.params = p.params
  intermediates : q.intermediates = p.intermediates
  paramIndices : q.osc.paramIndices = p.osc.paramIndices
  utf8Parser : q.utf8Parser = p.utf8Parser
  counts : sequence → q.numIntermediates = p.numIntermediates ∧
    q.ignoredExcessIntermediates = p.ignoredExcessIntermediates ∧ q.numParams = p.numParams ∧
    q.paramsFull = p.paramsFull ∧ q.currentParam = p.currentParam
  string : osc → q.osc = p.osc
  data : apc → q.apcData = p.apcData ∧ q.apcDataTruncated = p.apcDataTruncated

variable {sequence osc apc : Prop}

theorem Agree.mono {sequence' osc' apc' : Prop} (h : Agree sequence osc apc p q)
    (hsequence : sequence' → sequence) (hosc : osc' → osc) (hapc : apc' → apc) :
    Agree sequence' osc' apc' p q :=
  ⟨h.params, h.intermediates, h.paramIndices, h.utf8Parser, fun hs => h.counts (hsequence hs),
    fun ho => h.string (hosc ho), fun ha => h.data (hapc ha)⟩

theorem Agree.refl (p : VTParser σ) : Agree sequence osc apc p p :=
  ⟨rfl, rfl, rfl, rfl, fun _ => ⟨rfl, rfl, rfl, rfl, rfl⟩, fun _ => rfl, fun _ => ⟨rfl, rfl⟩⟩

theorem Agree.eq_aside (h : Agree sequence osc apc p q) (hsequence : sequence) : q = p.aside q := by
  obtain ⟨hnum, hignored, hparams, hfull, hcurrent⟩ := h.counts hsequence
  have harrays := And.intro h.params h.intermediates
  have hutf8 := h.utf8Parser
  cases p
  cases q
  simp_all [aside]

theorem Agree.framed (h : Agree sequence osc apc p q) (hsequence : sequence) (hf : Framed f) :
    Both (Agree sequence osc apc) (f p) (f q) := by
  have hsame : f p = (f p).map (·.aside p) := hf p p
  rw [h.eq_aside hsequence, hf p q]
  cases hp : f p with
  | error e => exact .error e
  | ok p' =>
    rw [hp] at hsame
    have hkept : p' = p'.aside p := Except.ok.inj hsame
    refine .ok ⟨rfl, rfl, ?_, rfl, fun _ => ⟨rfl, rfl, rfl, rfl, rfl⟩, fun ho => ?_, fun ha => ?_⟩
    · rw [hkept]
      exact h.paramIndices
    · rw [hkept]
      exact h.string ho
    · rw [hkept]
      exact h.data ha

theorem Agree.dispatch (h : Agree sequence osc apc p q) (hsequence : sequence)
    (tell : List Int → List UInt8 → Bool → VTAction) :
    Both (Told (Agree sequence osc apc))
      (do
        let p ← p.finishParam
        let params ← p.asIntegerParams
        let intermediates ← slice p.intermediates p.numIntermediates
        .ok (p, [tell params intermediates p.ignoredExcessIntermediates]))
      (do
        let p ← q.finishParam
        let params ← p.asIntegerParams
        let intermediates ← slice p.intermediates p.numIntermediates
        .ok (p, [tell params intermediates p.ignoredExcessIntermediates])) := by
  refine (h.framed hsequence framed_finishParam).bind fun p q h => ?_
  have hparams : q.asIntegerParams = p.asIntegerParams := by
    rw [h.eq_aside hsequence]
    rfl
  obtain ⟨hnum, hignored, -⟩ := h.counts hsequence
  rw [hparams, h.intermediates, hnum, hignored]
  cases p.asIntegerParams with
  | error e => exact .error e
  | ok params =>
    cases hslice : slice p.intermediates p.numIntermediates with
    | error e => exact .error e
    | ok intermediates => exact both_told h _

/-- **What an action tells is the same where what it reads is**, if it clears nothing. -/
theorem Agree.action (h : Agree sequence osc apc p q)
    (hclears : act ≠ .clear ∧ act ≠ .oscStart ∧ act ≠ .apcStart)
    (hsequence : act.onSequence = true → sequence) (hosc : act.onOsc = true → osc)
    (hapc : act.onApc = true → apc) (byte : UInt8) :
    Both (Told (Agree sequence osc apc)) (p.action act byte) (q.action act byte) := by
  cases act with
  | clear => exact absurd rfl hclears.1
  | oscStart => exact absurd rfl hclears.2.1
  | apcStart => exact absurd rfl hclears.2.2
  | none => exact both_told h _
  | ignore => exact both_told h _
  | print => exact both_told h _
  | execute => exact both_told h _
  | put => exact both_told h _
  | unhook => exact both_told h _
  | utf8 => exact .error Fault.nested
  | collect =>
    exact (h.framed (hsequence rfl) (framed_collect byte)).bind fun _ _ hab => both_told hab []
  | param =>
    exact (h.framed (hsequence rfl) (framed_param byte)).bind fun _ _ hab => both_told hab []
  | hook =>
    exact h.dispatch (hsequence rfl) fun params bytes ignored => .dcsHook params bytes ignored byte
  | escDispatch =>
    exact h.dispatch (hsequence rfl) fun params bytes ignored =>
      .escDispatch params bytes ignored byte
  | csiDispatch =>
    refine (h.framed (hsequence rfl) framed_finishParam).bind fun p q h => ?_
    refine (h.framed (hsequence rfl) framed_promoteIntermediatesToParams).bind fun p q h => ?_
    obtain ⟨-, hignored, hnum, -⟩ := h.counts (hsequence rfl)
    rw [h.params, hnum, hignored]
    cases slice p.params p.numParams with
    | error e => exact .error e
    | ok params => exact both_told h _
  | oscPut =>
    show Both _ (p.osc.put _ >>= _) (q.osc.put _ >>= _)
    rw [h.string (hosc rfl)]
    cases p.osc.put (Char.ofNat byte.toNat) with
    | error e => exact .error e
    | ok o =>
      exact both_told ⟨h.params, h.intermediates, rfl, h.utf8Parser, h.counts, fun _ => rfl,
        h.data⟩ []
  | oscEnd =>
    show Both _ (p.osc.finish >>= _) (q.osc.finish >>= _)
    rw [h.string (hosc rfl)]
    cases p.osc.finish with
    | error e => exact .error e
    | ok out => exact both_told h out
  | apcPut =>
    obtain ⟨hdata, htruncated⟩ := h.data (hapc rfl)
    unfold VTParser.action
    dsimp only
    rw [hdata]
    split
    · exact both_told ⟨h.params, h.intermediates, h.paramIndices, h.utf8Parser, h.counts, h.string,
        fun _ => ⟨rfl, htruncated⟩⟩ []
    · exact both_told ⟨h.params, h.intermediates, h.paramIndices, h.utf8Parser, h.counts, h.string,
        fun _ => ⟨rfl, rfl⟩⟩ []
  | apcEnd =>
    obtain ⟨hdata, htruncated⟩ := h.data (hapc rfl)
    have hended : ∀ truncated, Agree sequence osc apc
        { p with apcData := [], apcDataTruncated := truncated }
        { q with apcData := [], apcDataTruncated := truncated } := fun _ =>
      ⟨h.params, h.intermediates, h.paramIndices, h.utf8Parser, h.counts, h.string,
        fun _ => ⟨rfl, rfl⟩⟩
    unfold VTParser.action
    dsimp only
    rw [htruncated]
    split
    · exact both_told (hended _) []
    · rw [hdata]
      exact both_told (hended _) _

theorem Agree.clear (h : Agree sequence osc apc p q) : Agree True True True p.clear q.clear where
  params := h.params
  intermediates := h.intermediates
  paramIndices := h.paramIndices
  utf8Parser := h.utf8Parser
  counts _ := ⟨rfl, rfl, rfl, rfl, rfl⟩
  string _ := by
    show q.osc.start = p.osc.start
    rw [OscState.start, OscState.start, h.paramIndices]
  data _ := ⟨rfl, rfl⟩

/-- What a state reads is cleared when it is entered, but for what was gathered already. -/
theorem Agree.entry (h : Agree sequence osc apc p q)
    (hgathers : state.collects = true → sequence ∨ lookupEntry state = .clear)
    (hhooks : state = .dcsPassthrough → sequence) (byte : UInt8) :
    Both (Told (Agree (state.collects = true) (state = .oscString) (state = .apcString)))
      (p.action (lookupEntry state) byte) (q.action (lookupEntry state) byte) := by
  have hcleared : Both (Told (Agree (state.collects = true) (state = .oscString)
      (state = .apcString))) (p.action .clear byte) (q.action .clear byte) :=
    both_told (h.clear.mono (fun _ => trivial) (fun _ => trivial) fun _ => trivial) []
  cases state with
  | escape => exact hcleared
  | csiEntry => exact hcleared
  | dcsEntry => exact hcleared
  | dcsPassthrough =>
    exact ((h.dispatch (hhooks rfl) fun params bytes ignored =>
      .dcsHook params bytes ignored byte)).mono fun _ _ hr =>
        ⟨hr.1, hr.2.mono (fun hs => by cases hs) (fun hs => by cases hs) fun hs => by cases hs⟩
  | oscString =>
    refine both_told ⟨h.params, h.intermediates, h.paramIndices, h.utf8Parser,
      fun hs => (by cases hs), fun _ => ?_, fun hs => (by cases hs)⟩ []
    show q.osc.start = p.osc.start
    rw [OscState.start, OscState.start, h.paramIndices]
  | apcString =>
    exact both_told ⟨h.params, h.intermediates, h.paramIndices, h.utf8Parser,
      fun hs => (by cases hs), fun hs => (by cases hs), fun _ => ⟨rfl, rfl⟩⟩ []
  | _ =>
    exact both_told (h.mono (fun hs => (hgathers hs).resolve_right (by decide))
      (fun hs => by cases hs) fun hs => by cases hs) []

/-! ## Bytes -/

/-- An OSC string lasts over the sequences of UTF-8 in it. -/
def InOsc (p : VTParser σ) : Prop :=
  p.state = .oscString ∨ p.state = .utf8Sequence ∧ p.utf8ReturnState = .oscString

/-- Two parsers that differ in what their state does not read. -/
structure Alike (p q : VTParser σ) : Prop where
  state : q.state = p.state
  returns : p.state = .utf8Sequence → q.utf8ReturnState = p.utf8ReturnState
  agree : Agree (p.state.collects = true) p.InOsc (p.state = .apcString) p q

theorem Agree.enter (h : Agree sequence osc apc p q)
    (hkeeps : act ≠ .clear ∧ act ≠ .oscStart ∧ act ≠ .apcStart)
    (hsequence : act.onSequence = true → sequence) (hosc : act.onOsc = true → osc)
    (hapc : act.onApc = true → apc) (hnot : state ≠ .utf8Sequence)
    (hgathers : state.collects = true → sequence ∨ lookupEntry state = .clear)
    (hhooks : state = .dcsPassthrough → sequence) (byte byte' : UInt8) : Both (Told Alike)
      (Machine.andThen (p.action act byte) fun p =>
        Machine.andThen (p.action (lookupEntry state) byte') fun p =>
        .ok ({ p with utf8ReturnState := p.state, state := state }, []))
      (Machine.andThen (q.action act byte) fun q =>
        Machine.andThen (q.action (lookupEntry state) byte') fun q =>
        .ok ({ q with utf8ReturnState := q.state, state := state }, [])) := by
  refine (h.action hkeeps hsequence hosc hapc byte).andThen fun p q h => ?_
  refine (h.entry hgathers hhooks byte').andThen fun p q h => both_told ⟨rfl, ?_, ?_⟩ []
  · intro hs
    exact absurd hs hnot
  · refine ⟨h.params, h.intermediates, h.paramIndices, h.utf8Parser, h.counts, fun ho => ?_, h.data⟩
    exact h.string (ho.resolve_right fun hs => hnot hs.1)

theorem Agree.move {s : State} (h : Agree (s.collects = true) (s = .oscString) (s = .apcString) p q)
    (hreads : Reads s (act, state)) (hnot : state ≠ .utf8Sequence)
    (hgathers : state.collects = true → s.collects = true ∨ lookupEntry state = .clear)
    (hhooks : state = .dcsPassthrough → s.collects = true) (byte byte' : UInt8) : Both (Told Alike)
      (Machine.andThen (p.action (lookupExit s) 0) fun p =>
        Machine.andThen (p.action act byte) fun p =>
        Machine.andThen (p.action (lookupEntry state) byte') fun p =>
        .ok ({ p with utf8ReturnState := p.state, state := state }, []))
      (Machine.andThen (q.action (lookupExit s) 0) fun q =>
        Machine.andThen (q.action act byte) fun q =>
        Machine.andThen (q.action (lookupEntry state) byte') fun q =>
        .ok ({ q with utf8ReturnState := q.state, state := state }, [])) := by
  have hexit : Both (Told (Agree (s.collects = true) (s = .oscString) (s = .apcString)))
      (p.action (lookupExit s) 0) (q.action (lookupExit s) 0) := by
    refine h.action ?_ ?_ ?_ ?_ 0
    all_goals cases s <;> decide
  exact hexit.andThen fun p q h =>
    h.enter hreads.keeps hreads.sequence hreads.osc hreads.apc hnot hgathers hhooks byte byte'

variable {utf8 : Utf8Parser σ}

theorem Agree.decoded (hready : p.utf8ReturnState = .ground ∨ p.utf8ReturnState = .oscString)
    (hreturns : q.utf8ReturnState = p.utf8ReturnState)
    (h : Agree False (p.utf8ReturnState = .oscString) False p q) (c : Char) :
    Both (Told Alike) (p.decoded c) (q.decoded c) := by
  have haccumulate : Both (Told Alike) (p.accumulate c) (q.accumulate c) := by
    unfold VTParser.accumulate
    rw [hreturns]
    rcases hready with hr | hr
    · rw [hr]
      exact both_told ⟨rfl, fun hs => (by cases hs), h.params, h.intermediates, h.paramIndices,
        h.utf8Parser, fun hs => (by cases hs), fun ho => (by rcases ho with hs | ⟨hs, -⟩ <;> cases hs),
        fun hs => (by cases hs)⟩ _
    · have hosc := h.string hr
      rw [hr]
      show Both _ (p.osc.put c >>= _) (q.osc.put c >>= _)
      rw [hosc]
      cases p.osc.put c with
      | error e => exact .error e
      | ok o =>
        exact both_told ⟨rfl, fun hs => (by cases hs), h.params, h.intermediates, rfl,
          h.utf8Parser, fun hs => (by cases hs), fun _ => rfl, fun hs => (by cases hs)⟩ _
  unfold VTParser.decoded
  rw [hreturns]
  split
  · dsimp only
    cases hlookup : lookup p.utf8ReturnState (UInt8.ofNat c.toNat) with
    | error e => exact .error e
    | ok r =>
      obtain ⟨act, state⟩ := r
      have hreads := reads_lookup hlookup
      have hplain : p.utf8ReturnState.collects = false ∧ p.utf8ReturnState ≠ .apcString ∧
          p.utf8ReturnState ≠ .dcsPassthrough ∧ p.utf8ReturnState ≠ .anywhere ∧
          p.utf8ReturnState ≠ .utf8Sequence := by
        rcases hready with hr | hr <;> rw [hr] <;> decide
      obtain ⟨hcollects, hapc, hpass, htable, hsequence⟩ := hplain
      rw [ok_bind, ok_bind]
      dsimp only
      split
      · next hcontrol =>
        obtain ⟨_, _, hlookup', htame⟩ := lookup_ok htable hsequence (UInt8.ofNat c.toNat)
        rw [hlookup] at hlookup'
        cases hlookup'
        have hnot : state ≠ .utf8Sequence := by
          intro hs
          rcases hcontrol with rfl | ⟨-, hne⟩
          · cases htame.utf8.mpr hs
          · exact hne hs
        refine (h.mono (fun hs => ?_) id fun ha => hapc ha).move hreads hnot (fun hs => ?_)
          (fun hs => ?_) _ _
        · rw [hcollects] at hs
          cases hs
        · refine hreads.gathers hs fun hsame => ?_
          rw [show state = p.utf8ReturnState from hsame, hcollects] at hs
          cases hs
        · exact hreads.hooks hs fun hsame => hpass (hsame.symm.trans hs)
      · exact haccumulate
  · exact haccumulate

theorem Alike.action (h : Alike p q) (hp : p.Sound) (hq : q.Sound)
    (hstate : p.state ≠ .utf8Sequence) (hact : act ≠ .utf8) (hreads : Reads p.state (act, state))
    (byte : UInt8) : Both (Told Alike) (p.action act byte) (q.action act byte) := by
  have hboth := h.agree.action hreads.keeps hreads.sequence (fun ho => Or.inl (hreads.osc ho))
    hreads.apc byte
  obtain ⟨p', out, hp', -, hsamep, -⟩ := hp.action hact byte
  obtain ⟨q', out', hq', -, hsameq, -⟩ := hq.action hact byte
  rw [hp', hq'] at hboth ⊢
  cases hboth with
  | ok hr =>
    obtain ⟨rfl, hagree⟩ := hr
    have hosc : p'.InOsc → p.InOsc := by
      unfold InOsc
      rw [hsamep.state, hsamep.utf8ReturnState]
      exact id
    refine .ok ⟨rfl, ?_, fun hs => absurd (hsamep.state.symm.trans hs) hstate, ?_⟩
    · rw [hsamep.state, hsameq.state, h.state]
    · show Agree (p'.state.collects = true) p'.InOsc (p'.state = .apcString) p' q'
      rw [hsamep.state]
      exact hagree.mono id hosc id

/-- **One byte.** -/
theorem Alike.parseByte (h : Alike p q) (hp : p.Ready utf8) (hq : q.Ready utf8)
    (hutf8 : utf8.Regular) (byte : UInt8) :
    Both (Told Alike) (p.parseByte utf8 byte) (q.parseByte utf8 byte) := by
  have hparser := h.agree.utf8Parser
  cases hp.byteCase hutf8 byte with
  | within hstate =>
    have hstateq := h.state.trans hstate
    have hreturns := h.returns hstate
    rw [VTParser.parseByte, VTParser.parseByte, if_pos hstate, if_pos hstateq]
    unfold VTParser.nextUtf8
    rw [hparser]
    cases utf8.advance p.utf8Parser byte with
    | mk s report =>
      cases report with
      | none =>
        exact both_told ⟨h.state, h.returns, h.agree.params, h.agree.intermediates,
          h.agree.paramIndices, rfl, h.agree.counts, h.agree.string, h.agree.data⟩ []
      | some report =>
        have hagree : Agree False (p.utf8ReturnState = .oscString) False
            { p with utf8Parser := s } { q with utf8Parser := s } :=
          ⟨h.agree.params, h.agree.intermediates, h.agree.paramIndices, rfl, False.elim,
            fun ho => h.agree.string (Or.inr ⟨hstate, ho⟩), False.elim⟩
        exact Agree.decoded (p := { p with utf8Parser := s })
          (q := { q with utf8Parser := s }) (hp.returns hstate) hreturns hagree _
  | begins hstate hfrom hlookup hnone =>
    have hbegins := parseByte_begins hstate hlookup hnone
    rw [← h.state] at hstate hlookup
    rw [← hparser] at hnone
    rw [hbegins, parseByte_begins hstate hlookup hnone]
    refine both_told ⟨rfl, fun _ => h.state, h.agree.params, h.agree.intermediates,
      h.agree.paramIndices, ?_, fun hs => (by cases hs), fun ho => ?_, fun hs => (by cases hs)⟩ []
    · exact congrArg (fun s => (utf8.advance s byte).1) hparser
    · rcases ho with hs | ⟨-, hs⟩
      · cases hs
      · exact h.agree.string (Or.inl hs)
  | shifts act state hstate hlookup htame hact hnot hmoves =>
    have hreads := reads_lookup hlookup
    have hshifts : p.parseByte utf8 byte = _ := parseByte_shifts hstate hlookup hact hnot hmoves
    have hagree : Agree (p.state.collects = true) (p.state = .oscString)
        (p.state = .apcString) p q := h.agree.mono id Or.inl id
    have hboth := hagree.move hreads hnot (fun hs => hreads.gathers hs hmoves)
      (fun hs => hreads.hooks hs hmoves) byte byte
    rw [hshifts]
    rw [← h.state] at hstate hlookup hmoves
    rw [parseByte_shifts hstate hlookup hact hnot hmoves, h.state]
    exact hboth
  | stays act hstate hlookup htame hact =>
    have hreads := reads_lookup hlookup
    have hboth := h.action hp.toSound hq.toSound hstate hact hreads byte
    rw [parseByte_stays hstate hlookup hact]
    rw [← h.state] at hstate hlookup
    rw [parseByte_stays hstate hlookup hact]
    exact hboth

/-- **Any number of bytes**: two parsers that are alike tell the same. -/
theorem Alike.parse (h : Alike p q) (hp : p.Ready utf8) (hq : q.Ready utf8)
    (hutf8 : utf8.Regular) (bytes : List UInt8) :
    Both (Told fun p q => Alike p q ∧ p.Ready utf8 ∧ q.Ready utf8) (p.parse utf8 bytes)
      (q.parse utf8 bytes) := by
  have hstep : ∀ p q byte, (Alike p q ∧ p.Ready utf8 ∧ q.Ready utf8) →
      Both (Told fun p q => Alike p q ∧ p.Ready utf8 ∧ q.Ready utf8)
        (VTParser.parseByte utf8 p byte) (VTParser.parseByte utf8 q byte) := by
    rintro p q byte ⟨h, hp, hq⟩
    have hboth := h.parseByte hp hq hutf8 byte
    obtain ⟨p', out, hp', hreadyp, -⟩ := hp.parseByte hutf8 byte
    obtain ⟨q', out', hq', hreadyq, -⟩ := hq.parseByte hutf8 byte
    rw [hp', hq'] at hboth ⊢
    cases hboth with
    | ok hr => exact .ok ⟨hr.1, hr.2, hreadyp, hreadyq⟩
  exact both_feed hstep ⟨h, hp, hq⟩ bytes

end VTParser

end Wakterm.Vtparse
