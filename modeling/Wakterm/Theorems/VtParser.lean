import Wakterm.Escape.Logic.Tmux
import Wakterm.Vtparse.Logic.OscText
import Wakterm.Vtparse.Logic.Safety

/-!
# The escape sequence parser is safe

Whatever bytes it is fed, in whatever chunks, the parser does not read its tables or arrays out of
bounds, does not panic, and tells its actor of device control strings in order.
-/

namespace Wakterm.Theorems.VtParser

open Wakterm.Machine Wakterm.Vtparse

/-- **Nothing fails on any input.** The arrays of parameters and intermediates are filled within
their lengths, the offsets of the fields of an OSC string are in order and within its buffer, the
buffers are within their limits, and hooks and unhooks of device control strings alternate, with
data only between them. -/
theorem parser_safe {σ : Type} (utf8 : Utf8Parser σ) (hutf8 : utf8.Regular)
    (chunks : List (List UInt8)) :
    ∃ p out, feed (fun p bytes => VTParser.parse utf8 p bytes) (.new utf8) chunks = .ok (p, out) ∧
      p.Sound ∧ dcsScan false out = some p.hooked := by
  obtain ⟨p, out, hrun, hready, hscan⟩ := (VTParser.ready_new utf8).parse hutf8 chunks.flatten
  exact ⟨p, out, (feed_flatten _ _ chunks).trans hrun, hready.toSound, hscan⟩

/-- Where a decoder of UTF-8 is: the tails that are still to come, and the range of the next one. -/
structure Utf8State where
  tails : Nat
  first : Nat
  last : Nat
  point : Nat

/-- Between two characters. -/
def Utf8State.ground : Utf8State := ⟨0, 0, 0, 0⟩

/-- A decoder of UTF-8: a character or an invalid sequence is reported with its last byte. -/
def advance (s : Utf8State) (byte : UInt8) : Utf8State × Option Utf8Report :=
  let b := byte.toNat
  if s.tails = 0 then
    if b ≤ 0x7f then (.ground, some (.codepoint (Char.ofNat b)))
    else if within 0xc2 0xdf b then (⟨1, 0x80, 0xbf, b - 0xc0⟩, none)
    else if b = 0xe0 then (⟨2, 0xa0, 0xbf, 0⟩, none)
    else if b = 0xed then (⟨2, 0x80, 0x9f, 0xd⟩, none)
    else if within 0xe1 0xef b then (⟨2, 0x80, 0xbf, b - 0xe0⟩, none)
    else if b = 0xf0 then (⟨3, 0x90, 0xbf, 0⟩, none)
    else if b = 0xf4 then (⟨3, 0x80, 0x8f, 4⟩, none)
    else if within 0xf1 0xf3 b then (⟨3, 0x80, 0xbf, b - 0xf0⟩, none)
    else (.ground, some .invalidSequence)
  else if within s.first s.last b then
    let point := s.point * 64 + (b - 0x80)
    if s.tails = 1 then (.ground, some (.codepoint (Char.ofNat point)))
    else (⟨s.tails - 1, 0x80, 0xbf, point⟩, none)
  else (.ground, some .invalidSequence)

/-- The decoder, from between two characters. -/
def decoder : Utf8Parser Utf8State := ⟨.ground, advance⟩

theorem regular_decoder : decoder.Regular where
  more := by
    intro byte hlead
    show (advance .ground byte).2 = none
    unfold advance
    simp only [lead, within, Bool.or_eq_true, Bool.and_eq_true, decide_eq_true_eq] at hlead
    simp only [within, Bool.and_eq_true, decide_eq_true_eq, Utf8State.ground, if_true]
    repeat' split
    all_goals first | rfl | omega
  anew := by
    intro s byte s' report h
    have h : advance s byte = (s', some report) := h
    unfold advance at h
    simp only at h
    repeat' split at h
    all_goals first | exact (Prod.mk.inj h).1.symm | cases (Prod.mk.inj h).2

/-- An OSC string with a character of three bytes, which is cut in two, and a device control
string. -/
theorem parser_safe_chunks : decoder.Regular ∧
    ∃ p out, feed (fun p bytes => VTParser.parse decoder p bytes) (.new decoder)
        [[0x1b, 0x5d, 0x30, 0x3b, 0xe5, 0xad], [0x97, 0x07, 0x1b, 0x50, 0x71], [0x61, 0x1b, 0x5c]] =
          .ok (p, out) ∧ p.Sound ∧ dcsScan false out = some p.hooked :=
  ⟨regular_decoder, parser_safe decoder regular_decoder _⟩

end Wakterm.Theorems.VtParser

/-!
## The fields of an OSC string

What is dispatched for an OSC string are its fields, cut at each semicolon.
-/

namespace Wakterm.Theorems.OscSplit

open Wakterm.Machine Wakterm.Vtparse

def fields (text : List Char) : List (List UInt8) := (text.splitOn ';').map encodeText

/-- What is to be told for a string: nothing for one that is too long, no fields for the empty one,
and else the first of its fields. -/
def expected (text : List Char) : List VTAction :=
  if maxOscBytes < (encodeText text).length then []
  else if text = [] then [.oscDispatch []]
  else [.oscDispatch ((fields text).take maxOsc)]

/-- A string that is too long, or does not begin with a semicolon, or has nothing but empty fields
up to the one behind the last that is told. -/
def Kept (text : List Char) : Prop :=
  maxOscBytes < (encodeText text).length ∨ text.head? ≠ some ';' ∨
    (fields text).take (maxOsc + 1) = List.replicate (maxOsc + 1) []

theorem take_cons_eq_take_iff {α : Type} (a : α) (n : Nat) (l : List α) :
    l.take n = (a :: l).take n ↔ l.take n = List.replicate n a := by
  induction n generalizing l with
  | zero => simp
  | succ n ih =>
    rw [List.take_succ_cons, List.replicate_succ]
    cases l with
    | nil =>
      rw [List.take_nil, List.take_nil]
      exact ⟨fun h => absurd h.symm (List.cons_ne_nil _ _),
        fun h => absurd h.symm (List.cons_ne_nil _ _)⟩
    | cons b l =>
      rw [List.take_succ_cons]
      constructor
      · intro h
        obtain ⟨rfl, hrest⟩ := List.cons.inj h
        rw [(ih l).mp hrest]
      · intro h
        obtain ⟨rfl, hrest⟩ := List.cons.inj h
        rw [(ih l).mpr hrest]

theorem dispatched_eq_expected_iff (text : List Char) :
    OscState.dispatched text = expected text ↔ Kept text := by
  unfold OscState.dispatched expected Kept
  by_cases hlong : maxOscBytes < (encodeText text).length
  · rw [if_pos hlong, if_pos hlong]
    exact ⟨fun _ => .inl hlong, fun _ => rfl⟩
  · rw [if_neg hlong, if_neg hlong, or_iff_right hlong]
    cases text with
    | nil =>
      rw [if_pos rfl]
      exact ⟨fun _ => .inl (by simp), fun _ => rfl⟩
    | cons c text =>
      rw [if_neg (List.cons_ne_nil _ _)]
      by_cases hc : c = ';'
      · subst hc
        have hfields : fields (';' :: text) = [] :: (text.splitOn ';').map encodeText := by
          unfold fields
          rw [List.splitOn_cons_eq_if_modifyHead, if_pos (BEq.refl _)]
          rfl
        have hcode : OscState.fieldsOf (';' :: text) = (text.splitOn ';').map encodeText := by
          show ((if ';' = ';' then text else ';' :: text).splitOn ';').map encodeText = _
          rw [if_pos rfl]
        have hsame := take_cons_eq_take_iff [] maxOsc ((text.splitOn ';').map encodeText)
        rw [hfields, hcode, List.take_succ_cons, List.replicate_succ]
        simp [hsame]
      · have hcode : OscState.fieldsOf (c :: text) = fields (c :: text) := by
          show ((if c = ';' then text else c :: text).splitOn ';').map encodeText = _
          rw [if_neg hc]
          rfl
        rw [hcode]
        simp [hc]

/-- **What is dispatched for a string is what it is cut into, and the parser is where it began**:
exactly if the string is too long, does not begin with a semicolon, or has only empty fields as far
as they count. -/
theorem osc_split_iff {σ : Type} {utf8 : Utf8Parser σ} (hutf8 : utf8.Regular) {p : VTParser σ}
    (hp : p.Ready utf8) (hground : p.state = .ground) {text : List Char}
    (htext : ∀ c ∈ text, Printable c) (hdecodes : ∀ c ∈ text, 0x80 ≤ c.toNat → utf8.Decodes c)
    {introducer : List UInt8} (hintroducer : introducer ∈ VTParser.oscIntroducers)
    {terminator : List UInt8} {told : List VTAction}
    (hterminator : (terminator, told) ∈ VTParser.oscTerminators) :
    (∃ p', p.parse utf8 (introducer ++ (encodeText text ++ terminator)) =
        .ok (p', expected text ++ told) ∧ p'.state = .ground) ↔ Kept text := by
  obtain ⟨p1, h1, hstate1, osc, hosc, hsize⟩ := hp.parse_introducer hground hintroducer
  obtain ⟨p2, h2, hstate2, hput⟩ := (hp.of_parse hutf8 h1).parse_text hutf8 hstate1 htext hdecodes
  rw [hosc] at hput
  obtain ⟨p3, h3, hstate3⟩ := VTParser.parse_terminator utf8 hstate2
    (OscState.finish_putText hsize hput) hterminator
  have hrun : p.parse utf8 (introducer ++ (encodeText text ++ terminator)) =
      .ok (p3, OscState.dispatched text ++ told) := by
    have hrest := andThen_eq_ok (f := fun p => p.parse utf8 terminator) h2 h3
    rw [← VTParser.parse_append] at hrest
    have hall := andThen_eq_ok (f := fun p => p.parse utf8 (encodeText text ++ terminator)) h1 hrest
    rw [← VTParser.parse_append] at hall
    exact hall
  rw [hrun, ← dispatched_eq_expected_iff]
  constructor
  · rintro ⟨p', hp', -⟩
    have hout := (Prod.mk.inj (Except.ok.inj hp')).2
    exact List.append_cancel_right hout
  · intro heq
    rw [heq]
    exact ⟨p3, rfl, hstate3⟩

/-- A title with a character of three bytes. -/
theorem osc_split_iff_title : (∃ p', (VTParser.new VtParser.decoder).parse VtParser.decoder
        ([0x1b, 0x5d] ++ (encodeText ['0', ';', '字'] ++ [0x07])) =
          .ok (p', expected ['0', ';', '字'] ++ []) ∧ p'.state = .ground) ↔ Kept ['0', ';', '字'] :=
  osc_split_iff VtParser.regular_decoder (VTParser.ready_new _) rfl
    (by
      have hall : ['0', ';', '字'].all (fun c => decide (Printable c)) = true := by decide
      exact fun c hc => of_decide_eq_true (List.all_eq_true.mp hall c hc))
    (by
      intro c hc hlatin
      have hone : c = '字' := by
        rcases List.mem_cons.mp hc with rfl | hc
        · exact absurd hlatin (by decide)
        · rcases List.mem_pair.mp hc with rfl | rfl
          · exact absurd hlatin (by decide)
          · rfl
      rw [hone]
      exact ⟨rfl, rfl, rfl⟩)
    (by decide) (by decide)

/-- A string with an empty first field: that field is lost. -/
theorem first_field_lost : ((VTParser.new VtParser.decoder).parse VtParser.decoder
        ([0x1b, 0x5d] ++ (encodeText [';', 'a'] ++ [0x07]))).map Prod.snd =
      .ok [.oscDispatch [[0x61]]] ∧ expected [';', 'a'] = [.oscDispatch [[], [0x61]]] ∧
    ¬ ∃ p', (VTParser.new VtParser.decoder).parse VtParser.decoder
        ([0x1b, 0x5d] ++ (encodeText [';', 'a'] ++ [0x07])) =
          .ok (p', expected [';', 'a'] ++ []) ∧ p'.state = .ground := by
  have hrun : ((VTParser.new VtParser.decoder).parse VtParser.decoder
      ([0x1b, 0x5d] ++ (encodeText [';', 'a'] ++ [0x07]))).map Prod.snd =
        .ok [.oscDispatch [[0x61]]] := rfl
  have hexpected : expected [';', 'a'] = [.oscDispatch [[], [0x61]]] := by decide
  refine ⟨hrun, hexpected, ?_⟩
  rintro ⟨p', hp', -⟩
  rw [hp', hexpected] at hrun
  have hout : [VTAction.oscDispatch [[], [0x61]]] ++ [] = [.oscDispatch [[0x61]]] := Except.ok.inj hrun
  revert hout
  decide

end Wakterm.Theorems.OscSplit

/-!
## Escape sequences that are read in parts

The bytes of a stream come in as many calls of the parser as it takes to read them.
-/

namespace Wakterm.Theorems.ReadBoundaries

open Wakterm.Machine Wakterm.Vtparse Wakterm.Escape

variable {σ γ ω ε τ : Type} (utf8 : Utf8Parser σ) (d : Decoders γ ω ε τ)

/-- The calls for the parts of a stream, one after the other. -/
def calls (p : Parser σ) (chunks : List (List UInt8)) :
    Except Fault (Parser σ × List (Action γ ω ε τ)) :=
  feed (fun p bytes => p.parse utf8 d bytes) p chunks

/-- A call that begins in the control mode has no bytes but such that the state machine puts
through, and no lines but such that tmux understands. -/
def Even (p : Parser σ) (bytes : List UInt8) : Prop :=
  ∀ tmux, p.state.tmuxState = some tmux → bytes = [] ∨ p.Quiet d tmux bytes

/-- All calls are such. -/
def AllEven (p : Parser σ) : List (List UInt8) → Prop
  | [] => True
  | bytes :: chunks =>
    Even d p bytes ∧ ∀ p' out, p.parse utf8 d bytes = .ok (p', out) → AllEven p' chunks

variable {utf8 d}

theorem seen_parse {p : Parser σ} {bytes : List UInt8} (h : Even d p bytes) :
    seen observe (p.parse utf8 d bytes) = seen observe (p.throughMachine utf8 d bytes) := by
  cases htmux : p.state.tmuxState with
  | none =>
    unfold Parser.parse
    rw [htmux]
  | some tmux =>
    rcases h tmux htmux with rfl | hquiet
    · exact seen_parse_nil htmux
    · exact seen_parse_quiet htmux hquiet

theorem seen_calls {p : Parser σ} {chunks : List (List UInt8)} (h : AllEven utf8 d p chunks) :
    seen observe (calls utf8 d p chunks) =
      seen observe (p.throughMachine utf8 d chunks.flatten) := by
  induction chunks generalizing p with
  | nil => rfl
  | cons bytes chunks ih =>
    obtain ⟨heven, hrest⟩ := h
    have hfirst : seen observe (p.parse utf8 d bytes) =
        seen observe (p.throughMachine utf8 d bytes) := seen_parse heven
    have hcalls : calls utf8 d p (bytes :: chunks) =
        andThen (p.parse utf8 d bytes) fun p => calls utf8 d p chunks := rfl
    rw [hcalls, List.flatten_cons, throughMachine_append, seen_andThen, seen_andThen, ← hfirst]
    cases hparse : p.parse utf8 d bytes with
    | error e => rfl
    | ok r =>
      obtain ⟨p', out⟩ := r
      show andThen (.ok (p', out.flatMap observe)) _ = andThen (.ok (p', out.flatMap observe)) _
      rw [andThen_ok, andThen_ok, ih (hrest p' out hparse)]

/-- **What is told of a stream does not depend on how it is cut into calls, as long as no call that
begins in the control mode of tmux has a byte that the state machine would not put through, or a
line that tmux does not understand.** -/
theorem read_boundaries {p : Parser σ} (hp : p.state.tmuxState = none)
    {chunks : List (List UInt8)} (h : AllEven utf8 d p chunks) :
    seen observe (calls utf8 d p chunks) = seen observe (p.parse utf8 d chunks.flatten) := by
  rw [seen_calls h]
  unfold Parser.parse
  rw [hp]

/-! ### The control string of tmux -/

/-- The sequences as they are, and the line `%exit` of tmux. -/
def asTheyAre : Decoders (List CsiParam × Bool × UInt8) (List (List UInt8)) (Option UInt8 × UInt8)
    (List UInt8) where
  csi params truncated byte := [(params, truncated, byte)]
  osc := id
  esc := Prod.mk
  tmuxLine line := if line = [0x25, 0x65, 0x78, 0x69, 0x74] then some (.other line) else none
  base64 := Base64.standard

/-- `ESC P 1000 p`. -/
def enter : List UInt8 := [0x1b, 0x50, 0x31, 0x30, 0x30, 0x30, 0x70]

/-- The parser after the bytes. -/
def after (bytes : List UInt8) : Parser VtParser.Utf8State :=
  match (Parser.new VtParser.decoder).parse VtParser.decoder asTheyAre bytes with
  | .ok (p, _) => p
  | .error _ => .new VtParser.decoder

theorem read_boundaries_exit : AllEven VtParser.decoder asTheyAre (.new VtParser.decoder)
      [enter, [0x25, 0x65, 0x78, 0x69, 0x74, 0x0a]] ∧
    seen observe (calls VtParser.decoder asTheyAre (.new VtParser.decoder)
      [enter, [0x25, 0x65, 0x78, 0x69, 0x74, 0x0a]]) =
      seen observe ((Parser.new VtParser.decoder).parse VtParser.decoder asTheyAre
        [enter, [0x25, 0x65, 0x78, 0x69, 0x74, 0x0a]].flatten) := by
  have heven : AllEven VtParser.decoder asTheyAre (.new VtParser.decoder)
      [enter, [0x25, 0x65, 0x78, 0x69, 0x74, 0x0a]] := by
    refine ⟨fun tmux h => (by cases h), fun p' out h => ⟨fun tmux htmux => Or.inr ?_,
      fun _ _ _ => trivial⟩⟩
    have hafter : p' = after enter := by
      unfold after
      rw [h]
    obtain ⟨hstate, hnone⟩ : (after enter).stateMachine.state = .dcsPassthrough ∧
        (after enter).state = ⟨none, none, false, none, some .new⟩ := by decide +kernel
    rw [hafter, hnone] at htmux
    cases htmux
    rw [hafter]
    exact ⟨hstate, by rw [hnone]; exact ⟨rfl, rfl, rfl⟩, List.all_eq_true.mp rfl, by decide⟩
  exact ⟨heven, read_boundaries rfl heven⟩

/-- The end of the control string is told in the call that entered it, and not in the next. -/
theorem control_string_end_lost : ¬ ∀ chunks : List (List UInt8),
      seen observe (calls VtParser.decoder asTheyAre (.new VtParser.decoder) chunks) =
        seen observe ((Parser.new VtParser.decoder).parse VtParser.decoder asTheyAre
          chunks.flatten) := by
  intro h
  have hcut := h [enter, [0x1b, 0x5c]]
  have hout := congrArg (Except.map Prod.snd) hcut
  revert hout
  decide +kernel

end Wakterm.Theorems.ReadBoundaries
