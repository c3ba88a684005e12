import Wakterm.Escape.Parser

/-!
# The two ways to the parser of tmux

The bytes of the control mode come to its parser through the state machine, in the call that enters
the mode, and straight in those that follow.
-/

namespace Wakterm.Escape

open Wakterm.Machine Wakterm.Vtparse

variable {σ γ ω ε τ : Type} {utf8 : Utf8Parser σ} {d : Decoders γ ω ε τ}

/-- A byte that a device control string puts through: ASCII but `CAN`, `SUB`, `ESC` and `DEL`. -/
def passes (byte : UInt8) : Bool :=
  byte ≤ 0x7e && byte != 0x18 && byte != 0x1a && byte != 0x1b

theorem dcsPassthrough_of_passes {byte : UInt8} (h : passes byte = true) :
    dcsPassthrough byte.toNat = (.put, .dcsPassthrough) := by
  simp only [passes, Bool.and_eq_true, decide_eq_true_eq, bne_iff_ne, ne_eq] at h
  obtain ⟨⟨⟨hle, h18⟩, h1a⟩, h1b⟩ := h
  have hle : byte.toNat ≤ 0x7e := hle
  have hne : ∀ n : UInt8, ¬ byte = n → byte.toNat ≠ n.toNat := fun n hn h =>
    hn (UInt8.toNat_inj.mp h)
  have h18 : byte.toNat ≠ 0x18 := hne _ h18
  have h1a : byte.toNat ≠ 0x1a := hne _ h1a
  have h1b : byte.toNat ≠ 0x1b := hne _ h1b
  have hput : Vtparse.control byte.toNat = true ∨ within 0x20 0x7e byte.toNat = true := by
    simp only [Vtparse.control, within, Bool.or_eq_true, Bool.and_eq_true, decide_eq_true_eq, beq_iff_eq]
    omega
  unfold dcsPassthrough
  rcases hput with hput | hput
  · rw [hput]
    rfl
  · rw [hput]
    simp

theorem parseByte_passes {m : VTParser σ} (hstate : m.state = .dcsPassthrough) {byte : UInt8}
    (h : passes byte = true) : m.parseByte utf8 byte = .ok (m, [.dcsPut byte]) := by
  have hlookup : VTParser.lookup .dcsPassthrough byte = .ok (.put, .dcsPassthrough) :=
    congrArg Except.ok (dcsPassthrough_of_passes h)
  unfold VTParser.parseByte
  rw [if_neg (by rw [hstate]; decide), hstate, hlookup]
  rfl

variable {bytes : List UInt8} {tmux' tmux : TmuxParser}

theorem parse_passes {m : VTParser σ} (hstate : m.state = .dcsPassthrough)
    (h : ∀ byte ∈ bytes, passes byte = true) : m.parse utf8 bytes = .ok (m, bytes.map .dcsPut) := by
  induction bytes with
  | nil => rfl
  | cons byte bytes ih =>
    have hrest := ih fun byte hbyte => h byte (List.mem_cons_of_mem _ hbyte)
    exact andThen_eq_ok (parseByte_passes hstate (h byte List.mem_cons_self)) hrest

/-- What is seen of the actions: the events of tmux one by one, and the other actions. -/
inductive Observed (γ ω ε τ : Type)
  | event (event : TmuxEvent τ)
  | action (action : Action γ ω ε τ)
deriving DecidableEq

def observe : Action γ ω ε τ → List (Observed γ ω ε τ)
  | .deviceControl (.tmuxEvents events) => events.map .event
  | action => [.action action]

/-- Nothing but tmux gets the bytes of a device control string. -/
structure ParseState.Handed (s : ParseState) : Prop where
  dcs : s.dcs = none
  sixel : s.sixel = none
  getTcap : s.getTcap = none

theorem dcsPut_ok {s : ParseState} (hs : s.Handed) (htmux : s.tmuxState = some tmux) {byte : UInt8}
    {event : Option (TmuxEvent τ)} (h : tmux.advanceByte d.tmuxLine byte = .ok (tmux', event)) :
    ∃ out, Performer.dcsPut d s byte = ({ s with tmuxState := some tmux' }, out) ∧
      out.flatMap observe = event.toList.map .event := by
  unfold Performer.dcsPut
  rw [hs.dcs, hs.sixel, hs.getTcap, htmux]
  dsimp only
  rw [h]
  cases event with
  | none => exact ⟨[], rfl, rfl⟩
  | some event => exact ⟨[.deviceControl (.tmuxEvents [event])], rfl, rfl⟩

theorem performAll_put {s : ParseState} (hs : s.Handed) (htmux : s.tmuxState = some tmux)
    {events : List (TmuxEvent τ)} (h : tmux.advanceBytes d.tmuxLine bytes = .ok (tmux', events)) :
    ∃ out, Performer.performAll d s (bytes.map .dcsPut) =
        ({ s with tmuxState := some tmux' }, out) ∧
      out.flatMap observe = events.map .event := by
  induction bytes generalizing s tmux events with
  | nil =>
    cases h
    refine ⟨[], ?_, rfl⟩
    rw [← htmux]
    rfl
  | cons byte bytes ih =>
    rw [TmuxParser.advanceBytes] at h
    cases hbyte : tmux.advanceByte d.tmuxLine byte with
    | error err =>
      rw [hbyte] at h
      cases h
    | ok r =>
      obtain ⟨tmux1, event⟩ := r
      rw [hbyte] at h
      cases hrest : tmux1.advanceBytes d.tmuxLine bytes with
      | error err =>
        dsimp only at h
        rw [hrest] at h
        cases h
      | ok r =>
        obtain ⟨tmux2, events2⟩ := r
        dsimp only at h
        rw [hrest] at h
        cases h
        obtain ⟨out1, hout1, hseen1⟩ := dcsPut_ok hs htmux hbyte
        obtain ⟨out2, hout2, hseen2⟩ := ih (s := { s with tmuxState := some tmux1 })
          ⟨hs.dcs, hs.sixel, hs.getTcap⟩ rfl hrest
        refine ⟨out1 ++ out2, ?_, ?_⟩
        · have hperform : Performer.perform d s (.dcsPut byte) = _ := hout1
          rw [List.map_cons, Performer.performAll, hperform]
          dsimp only
          rw [hout2]
        · rw [List.flatMap_append, hseen1, hseen2, List.map_append]

/-- The bytes are put through to tmux, which understands the lines that they complete. -/
structure Parser.Quiet (d : Decoders γ ω ε τ) (p : Parser σ) (tmux : TmuxParser)
    (bytes : List UInt8) : Prop where
  state : p.stateMachine.state = .dcsPassthrough
  handed : p.state.Handed
  passed : ∀ byte ∈ bytes, passes byte = true
  lines : (tmux.advanceBytes d.tmuxLine bytes).isOk = true

theorem seen_parse_quiet {p : Parser σ} (htmux : p.state.tmuxState = some tmux)
    (h : p.Quiet d tmux bytes) :
    seen observe (p.parse utf8 d bytes) = seen observe (p.throughMachine utf8 d bytes) := by
  obtain ⟨hstate, hhanded, hbytes, hlines⟩ := h
  cases hadvance : tmux.advanceBytes d.tmuxLine bytes with
  | error err =>
    rw [hadvance] at hlines
    cases hlines
  | ok r =>
    obtain ⟨tmux', events⟩ := r
    obtain ⟨out, hout, hseen⟩ := performAll_put hhanded htmux hadvance
    have hparse : p.parse utf8 d bytes =
        .ok ({ p with state := { p.state with tmuxState := some tmux' } },
          [.deviceControl (.tmuxEvents events)]) := by
      unfold Parser.parse
      rw [htmux]
      dsimp only
      rw [hadvance]
    have hmachine : p.throughMachine utf8 d bytes =
        .ok ({ p with state := { p.state with tmuxState := some tmux' } }, out) := by
      unfold Parser.throughMachine
      rw [parse_passes hstate hbytes]
      show Except.ok (_, _) = _
      rw [hout]
    rw [hparse, hmachine]
    show Except.ok (_, [_].flatMap observe) = Except.ok (_, out.flatMap observe)
    rw [hseen, List.flatMap_singleton]
    rfl

theorem seen_parse_nil {p : Parser σ} (htmux : p.state.tmuxState = some tmux) :
    seen observe (p.parse utf8 d []) = seen observe (p.throughMachine utf8 d []) := by
  unfold Parser.parse
  rw [htmux]
  show Except.ok (({ p with state := { p.state with tmuxState := some tmux } } : Parser σ), _) =
    Except.ok (p, _)
  rw [← htmux]
  rfl

theorem performAll_append (s : ParseState) (told told' : List VTAction) :
    Performer.performAll d s (told ++ told') =
      ((Performer.performAll d (Performer.performAll d s told).1 told').1,
        (Performer.performAll d s told).2 ++
          (Performer.performAll d (Performer.performAll d s told).1 told').2) := by
  induction told generalizing s with
  | nil => rfl
  | cons action told ih =>
    rcases hstep : Performer.perform d s action with ⟨s1, out1⟩
    have hcons : ∀ rest, Performer.performAll d s (action :: rest) =
        ((Performer.performAll d s1 rest).1, out1 ++ (Performer.performAll d s1 rest).2) := by
      intro rest
      rw [Performer.performAll, hstep]
    rw [List.cons_append, hcons, hcons, ih s1, List.append_assoc]

theorem throughMachine_append (p : Parser σ) (bytes bytes' : List UInt8) :
    p.throughMachine utf8 d (bytes ++ bytes') =
      andThen (p.throughMachine utf8 d bytes) fun p => p.throughMachine utf8 d bytes' := by
  unfold Parser.throughMachine VTParser.parse
  rw [feed_append]
  cases feed (fun p byte => VTParser.parseByte utf8 p byte) p.stateMachine bytes with
  | error e => rfl
  | ok r =>
    obtain ⟨m, told⟩ := r
    rw [andThen_ok]
    cases hrest : feed (fun p byte => VTParser.parseByte utf8 p byte) m bytes' with
    | error e => simp [ok_bind, andThen, hrest]; rfl
    | ok r =>
      obtain ⟨m', told'⟩ := r
      simp [ok_bind, andThen, hrest, performAll_append]

end Wakterm.Escape
