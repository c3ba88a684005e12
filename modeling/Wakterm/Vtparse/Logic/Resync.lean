import Wakterm.Vtparse.Logic.OscText

/-!
# ESC takes the parser out of everything

Behind ESC nothing is gathered, and that is so for as long as the parser is in the escape state. In
every state with a table ESC leads there.
-/

namespace Wakterm.Vtparse

open Wakterm.Machine

/-- Where the decoder is while it wants more. -/
inductive Utf8Parser.Unfinished {σ : Type} (utf8 : Utf8Parser σ) : σ → Prop
  | first (byte : UInt8) (hnone : (utf8.advance utf8.new byte).2 = none) :
      utf8.Unfinished (utf8.advance utf8.new byte).1
  | more (s : σ) (byte : UInt8) (h : utf8.Unfinished s) (hnone : (utf8.advance s byte).2 = none) :
      utf8.Unfinished (utf8.advance s byte).1

theorem escape_stays : ∀ i, i < 256 → (escape i).2 = .escape →
    (escape i).1 = .none ∨ (escape i).1 = .ignore ∨ (escape i).1 = .execute := by
  decide +kernel

namespace VTParser

variable {σ : Type} {utf8 : Utf8Parser σ} {p p' : VTParser σ}

/-- Nothing is gathered. -/
structure Cleared (p : VTParser σ) : Prop where
  intermediates : p.numIntermediates = 0
  ignored : p.ignoredExcessIntermediates = false
  params : p.numParams = 0
  current : p.currentParam = none

/-- What holds between two bytes, besides. -/
structure Steady (utf8 : Utf8Parser σ) (p : VTParser σ) : Prop where
  escape : p.state = .escape → p.Cleared
  sequence : p.state = .utf8Sequence → utf8.Unfinished p.utf8Parser

variable {out : List VTAction}

theorem steady_shift {x : Except Fault (VTParser σ × List VTAction)} {act : Action} {state : State}
    (hnot : state ≠ .utf8Sequence) {byte byte' : UInt8} (h : (andThen x fun p =>
      andThen (p.action act byte) fun p => andThen (p.action (lookupEntry state) byte') fun p =>
      .ok ({ p with utf8ReturnState := p.state, state := state }, [])) = .ok (p', out)) :
    p'.Steady utf8 := by
  obtain ⟨p1, _, _, -, h, -⟩ := andThen_ok_iff.mp h
  obtain ⟨p2, _, _, -, h, -⟩ := andThen_ok_iff.mp h
  obtain ⟨p3, _, _, hentry, h, -⟩ := andThen_ok_iff.mp h
  obtain ⟨rfl, -⟩ := Prod.mk.inj (Except.ok.inj h)
  constructor
  · intro hs
    obtain rfl : state = .escape := hs
    obtain ⟨rfl, -⟩ := Prod.mk.inj (Except.ok.inj hentry)
    exact ⟨rfl, rfl, rfl, rfl⟩
  · intro hs
    exact absurd hs hnot

theorem steady_accumulate {c : Char} (h : p.accumulate c = .ok (p', out)) : p'.Steady utf8 := by
  unfold VTParser.accumulate at h
  split at h
  · obtain ⟨rfl, -⟩ := Prod.mk.inj (Except.ok.inj h)
    exact ⟨fun hs => (by cases hs), fun hs => (by cases hs)⟩
  · cases hput : p.osc.put c with
    | error e =>
      rw [hput] at h
      cases h
    | ok osc =>
      rw [hput] at h
      obtain ⟨rfl, -⟩ := Prod.mk.inj (Except.ok.inj h)
      exact ⟨fun hs => (by cases hs), fun hs => (by cases hs)⟩
  · cases h

theorem steady_decoded (hreturn : p.utf8ReturnState = .ground ∨ p.utf8ReturnState = .oscString)
    {c : Char} (h : p.decoded c = .ok (p', out)) : p'.Steady utf8 := by
  unfold VTParser.decoded at h
  split at h
  · have hr : p.utf8ReturnState ≠ .anywhere ∧ p.utf8ReturnState ≠ .utf8Sequence := by
      rcases hreturn with hr | hr <;> rw [hr] <;> decide
    obtain ⟨act, state, hlookup, htame⟩ := lookup_ok hr.1 hr.2 (UInt8.ofNat c.toNat)
    dsimp only at h
    rw [hlookup, ok_bind] at h
    dsimp only at h
    split at h
    · next hcontrol =>
      refine steady_shift (fun hs => ?_) h
      rcases hcontrol with rfl | ⟨-, hne⟩
      · cases htame.utf8.mpr hs
      · exact hne hs
    · exact steady_accumulate h
  · exact steady_accumulate h

/-- **One byte.** -/
theorem Steady.parseByte (h : p.Steady utf8) (hp : p.Ready utf8) (hutf8 : utf8.Regular)
    {byte : UInt8} (hbyte : p.parseByte utf8 byte = .ok (p', out)) : p'.Steady utf8 := by
  cases hp.byteCase hutf8 byte with
  | within hstate =>
    rw [VTParser.parseByte, if_pos hstate] at hbyte
    cases hadvance : utf8.advance p.utf8Parser byte with
    | mk s report =>
      cases report with
      | none =>
        have hnone : (utf8.advance p.utf8Parser byte).2 = none := by rw [hadvance]
        rw [nextUtf8_more hnone] at hbyte
        obtain ⟨rfl, -⟩ := Prod.mk.inj (Except.ok.inj hbyte)
        refine ⟨fun hs => ?_, fun _ => .more _ byte (h.sequence hstate) hnone⟩
        rw [hstate] at hs
        cases hs
      | some report =>
        rw [nextUtf8_reports hadvance] at hbyte
        exact steady_decoded (p := { p with utf8Parser := s }) (hp.returns hstate) hbyte
  | begins hstate hfrom hlookup hnone =>
    rw [parseByte_begins hstate hlookup hnone] at hbyte
    obtain ⟨rfl, -⟩ := Prod.mk.inj (Except.ok.inj hbyte)
    rw [hp.idle hstate] at hnone
    refine ⟨fun hs => (by cases hs), fun _ => ?_⟩
    show utf8.Unfinished (utf8.advance p.utf8Parser byte).1
    rw [hp.idle hstate]
    exact .first byte hnone
  | shifts act state hstate hlookup htame hact hnot hmoves =>
    rw [parseByte_shifts hstate hlookup hact hnot hmoves] at hbyte
    exact steady_shift hnot hbyte
  | stays act hstate hlookup htame hact =>
    rw [parseByte_stays hstate hlookup hact] at hbyte
    obtain ⟨p1, out1, haction, -, hsame, -⟩ := hp.toSound.action hact byte
    obtain ⟨rfl, -⟩ := Prod.mk.inj (Except.ok.inj (haction.symm.trans hbyte))
    refine ⟨fun hs => ?_, fun hs => absurd (hsame.state.symm.trans hs) hstate⟩
    have hescape : p.state = .escape := hsame.state.symm.trans hs
    rw [hescape] at hlookup
    have htable : Vtparse.escape byte.toNat = (act, .escape) := Except.ok.inj hlookup
    have hkeeps := escape_stays byte.toNat byte.toNat_lt (by rw [htable])
    rw [htable] at hkeeps
    rcases hkeeps with rfl | rfl | rfl
    all_goals
      obtain ⟨rfl, -⟩ := Prod.mk.inj (Except.ok.inj haction)
      exact h.escape hescape

/-- **Every parser that has been fed** is ready and steady. -/
theorem steady_of_parse (hutf8 : utf8.Regular) {bytes : List UInt8}
    (hrun : (VTParser.new utf8).parse utf8 bytes = .ok (p, out)) :
    p.Ready utf8 ∧ p.Steady utf8 := by
  have hnew : (VTParser.new utf8).Ready utf8 ∧ (VTParser.new utf8).Steady utf8 :=
    ⟨ready_new utf8, fun hs => (by cases hs), fun hs => (by cases hs)⟩
  have hstep : ∀ (p : VTParser σ) (byte : UInt8), p.Ready utf8 ∧ p.Steady utf8 →
      ∃ p' out, p.parseByte utf8 byte = .ok (p', out) ∧ (p'.Ready utf8 ∧ p'.Steady utf8) ∧
        some () = some () := by
    rintro p byte ⟨hready, hsteady⟩
    obtain ⟨p', out, hbyte, hready', -⟩ := hready.parseByte hutf8 byte
    exact ⟨p', out, hbyte, ⟨hready', hsteady.parseByte hready hutf8 hbyte⟩, rfl⟩
  obtain ⟨p', out', hrun', hinv, -⟩ := feed_invariant
    (fun p : VTParser σ => p.Ready utf8 ∧ p.Steady utf8) (fun _ => ()) (fun _ _ => some ())
    (fun _ => rfl) (fun _ _ _ => rfl) hstep hnew bytes
  obtain ⟨rfl, -⟩ := Prod.mk.inj (Except.ok.inj (hrun'.symm.trans hrun))
  exact hinv

/-! ## ESC -/

theorem lookup_esc {s : State} (h : s ≠ .anywhere) (h' : s ≠ .utf8Sequence) :
    lookup s 0x1b = .ok (.none, .escape) := by
  cases s <;> first | exact absurd rfl h | exact absurd rfl h' | rfl

theorem Ready.parse_esc (h : p.Ready utf8) (hstate : p.state ≠ .utf8Sequence) :
    ∃ p' out, p.parseByte utf8 0x1b = .ok (p', out) ∧ p'.state = .escape := by
  have hlookup := lookup_esc h.tabled hstate
  by_cases hescape : p.state = .escape
  · rw [← hescape] at hlookup
    exact ⟨p, [], parseByte_stays hstate hlookup (by decide), hescape⟩
  · obtain ⟨p', out, hp', -, hstate', -⟩ :=
      h.toSound.shift p.state .escape (show Action.none ≠ .utf8 by decide) (by decide) (by decide)
        0x1b 0x1b
    have hshift : p.parseByte utf8 0x1b = _ :=
      parseByte_shifts hstate hlookup (by decide) (by decide)
        (Ne.symm hescape)
    exact ⟨p', out, hshift.trans hp', hstate'⟩

theorem Cleared.parse_final (h : p.Cleared) (hstate : p.state = .escape) :
    ∃ p', p.parseByte utf8 0x63 = .ok (p', [.escDispatch [] [] false 0x63]) ∧
      p'.state = .ground := by
  have hdispatch : p.action .escDispatch 0x63 = .ok (p, [.escDispatch [] [] false 0x63]) := by
    have hfinish : p.finishParam = .ok p := by
      unfold VTParser.finishParam
      rw [h.current]
    have hparams : p.asIntegerParams = .ok [] := by
      unfold VTParser.asIntegerParams
      rw [h.params, slice_ok (Nat.zero_le _), List.take_zero, ok_bind, integerParams, ok_bind,
        slice_ok (Nat.zero_le _), List.take_zero]
    have hslice : slice p.intermediates p.numIntermediates = .ok [] := by
      rw [h.intermediates, slice_ok (Nat.zero_le _), List.take_zero]
    unfold VTParser.action
    dsimp only
    rw [hfinish, ok_bind, hparams, ok_bind, hslice, ok_bind, h.ignored]
  exact ⟨_, parseByte_moves utf8 0x63 .escape .ground hstate rfl (by decide) rfl hdispatch rfl, rfl⟩

end VTParser

end Wakterm.Vtparse
