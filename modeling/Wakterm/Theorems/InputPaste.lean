import Mathlib.Tactic.IntervalCases
import Wakterm.Theorems.Input

/-!
# Pastes

What is pasted arrives as one event, however its bytes are cut into calls.
-/

namespace Wakterm.Theorems.Input

open Wakterm.Escape Wakterm.Machine Wakterm.Termwiz Wakterm.Vtparse

variable {buf : List UInt8}

section Pastes

variable {σ : Type} (utf8 : Utf8Parser σ) (base64 : Base64)

/-- Rounds of the loop, with more to come. -/
inductive Runs : InputParser → List InputEvent → InputParser → Prop
  | refl (p : InputParser) : Runs p [] p
  | next {p q r : InputParser} {events more : List InputEvent} (hbuf : p.buf ≠ [])
      (hround : p.round utf8 base64 true = some (.next q events)) (h : Runs q more r) :
      Runs p (events ++ more) r

/-- One call after the other, each with more to come. -/
def calls (p : InputParser) : List (List UInt8) → Option (InputParser × List InputEvent)
  | [] => some (p, [])
  | bytes :: rest => do
    let (p, events) ← p.parse utf8 base64 bytes true
    let (p, more) ← calls p rest
    return (p, events ++ more)

/-- The end of a paste comes after these bytes and not before. -/
def FirstEnds (pasted : List UInt8) : Prop :=
  ∀ i, endPaste <+: (pasted ++ endPaste).drop i → pasted.length ≤ i

/-- The paste comes in these pieces, and what comes after it with the last of its bytes. -/
structure Delivers (pasted rest : List UInt8) (init : List (List UInt8)) (last : List UInt8) :
    Prop where
  bytes : init.flatten ++ last = startPaste ++ pasted ++ endPaste ++ rest
  ends : rest.length < last.length

/-- The paste is one event, and what comes after it is read as it would be alone. -/
structure Pastes (pasted rest : List UInt8) (init : List (List UInt8)) (last : List UInt8) :
    Prop where
  framed : ∃ q, calls utf8 base64 .new init = some (q, []) ∧
    Runs utf8 base64 { q with buf := q.buf ++ last } [.paste (fromUtf8Lossy pasted)] ⟨rest, .normal⟩
  continues : calls utf8 base64 .new (init ++ [last]) =
    (InputParser.new.parse utf8 base64 rest true).map fun (q, events) =>
      (q, .paste (fromUtf8Lossy pasted) :: events)

theorem startPaste_eq : startPaste = [0x1b, 0x5b, 0x32, 0x30, 0x30, 0x7e] := by
  decide

set_option maxRecDepth 4000 in
theorem firstMouse_start (rest : List UInt8) :
    firstMouse utf8 base64 (startPaste ++ rest) = some none := by
  rw [startPaste_eq]
  rfl

theorem firstMouse_take (n : Nat) (h : n < 6) :
    firstMouse utf8 base64 (startPaste.take n) = some none := by
  rw [startPaste_eq]
  interval_cases n
  all_goals rfl

theorem spec_of_all {keys : List (List UInt8 × InputEvent)} (h : (keys.all fun entry =>
    entry.1 != [] && !entry.1.dropLast.contains 0x7e) = true) :
    ∀ entry ∈ keys, entry.1 ≠ [] ∧ 0x7e ∉ entry.1.dropLast := by
  simpa using h

theorem spec_append {body : List UInt8} {x : UInt8} (h : 0x7e ∉ body) :
    body ++ [x] ≠ [] ∧ 0x7e ∉ (body ++ [x]).dropLast := by
  simpa using h

-- The keys of ASCII are too many to be evaluated one by one.
theorem asciiKeys_spec : ∀ entry ∈ (List.range 0x80).flatMap asciiKeys,
    entry.1 ≠ [] ∧ 0x7e ∉ entry.1.dropLast := by
  intro entry hentry
  obtain ⟨c, hc, hentry⟩ := List.mem_flatMap.mp hentry
  obtain ⟨combo, hcombo, hentry⟩ := List.mem_flatMap.mp hentry
  have hcombos : ∀ combo ∈ modifierCombos, 0x7e ∉ ascii combo.1 := by decide +kernel
  have hdigits : ∀ c ∈ List.range 0x80, 0x7e ∉ decimal c := by decide +kernel
  have hfixed : ascii "u" = [0x75] ∧ ascii "~" = [0x7e] ∧ 0x7e ∉ ascii "\x1b[" ∧
      0x7e ∉ ascii "\x1b[27" ∧ 0x7e ∉ ascii ";" := by decide +kernel
  obtain ⟨hu, htilde, hlead, hother, hsep⟩ := hfixed
  rw [hu, htilde] at hentry
  rcases List.mem_cons.mp hentry with rfl | hentry
  · exact spec_append (by simp [hlead, hdigits c hc, hcombos combo hcombo])
  · split at hentry
    · cases hentry
    · obtain rfl := List.mem_singleton.mp hentry
      exact spec_append (by simp [hother, hsep, hdigits c hc, hcombos combo hcombo])

theorem basicKeys_spec : ∀ entry ∈ basicKeys, entry.1 ≠ [] ∧ 0x7e ∉ entry.1.dropLast := by
  intro entry hentry
  simp only [basicKeys, earlierKeys, List.mem_append] at hentry
  rcases hentry with (((((((((h | h) | h) | h) | h) | h) | h) | h) | h) | h) | h
  · exact spec_of_all (by decide +kernel) entry h
  · exact asciiKeys_spec entry h
  all_goals exact spec_of_all (by decide +kernel) entry h

theorem lastInserted_start :
    lastInserted basicKeys startPaste = some (.key ⟨.internalPasteStart, .none⟩) := by
  have hbracket : startPaste ≠ ascii "\x1b[" := by decide
  have hend : startPaste ≠ endPaste := by decide
  rw [basicKeys, lastInserted, List.foldl_append, List.foldl_cons, List.foldl_cons, List.foldl_cons,
    List.foldl_nil, if_neg hbracket, if_neg hend, if_pos rfl]

theorem start_last : ∀ entry ∈ basicKeys, startPaste <+: entry.1 → entry.1 = startPaste := by
  rintro entry hentry ⟨rest, hrest⟩
  cases rest with
  | nil => simpa using hrest.symm
  | cons c rest =>
    refine absurd ?_ (basicKeys_spec entry hentry).2
    rw [← hrest, startPaste_eq]
    simp [List.dropLast]

theorem lookup_start (rest : List UInt8) (maybeMore : Bool) :
    buildBasicKeyMap.lookup (startPaste ++ rest) maybeMore =
      some (.exact 6 (.key ⟨.internalPasteStart, .none⟩)) := by
  have hlength : startPaste.length = 6 := by rw [startPaste_eq]; rfl
  have h : (keyMap basicKeys).lookup (startPaste ++ rest) maybeMore = _ :=
    lookup_key (fun entry hentry => (basicKeys_spec entry hentry).1) lastInserted_start start_last
      rest
  rwa [hlength] at h

theorem lookup_take (n : Nat) (hpos : 0 < n) (h : n < 6) :
    ∃ found, buildBasicKeyMap.lookup (startPaste.take n) true = some found ∧
      ((∃ len v, found = .ambiguous len v) ∨ found = .needData) := by
  have hlength : startPaste.length = 6 := by rw [startPaste_eq]; rfl
  obtain ⟨entry, hentry, heq⟩ :=
    lastInserted_isSome.mp (Option.isSome_of_eq_some lastInserted_start)
  refine lookup_longer (fun entry hentry => (basicKeys_spec entry hentry).1) ?_
    ⟨entry, hentry, heq ▸ List.take_prefix _ _, ?_⟩
  · rw [← List.length_pos_iff, List.length_take]
    omega
  · rw [heq, List.length_take]
    omega

theorem length_startPaste : startPaste.length = 6 := by
  rw [startPaste_eq]
  rfl

theorem length_endPaste : endPaste.length = 6 := by
  decide

theorem findSubsequence_some {offset at' : Nat} (hle : offset ≤ at')
    (hat : endPaste <+: buf.drop at') (hfirst : ∀ i, endPaste <+: buf.drop i → at' ≤ i) :
    findSubsequence buf offset endPaste = some (some at') := by
  have hlen := hat.length_le
  rw [length_endPaste, List.length_drop] at hlen
  rw [findSubsequence, if_pos (by omega)]
  have hfound : (buf.drop offset).tails.findIdx? endPaste.isPrefixOf = some (at' - offset) := by
    refine List.findIdx?_eq_some_iff_getElem.mpr ⟨?_, ?_, fun j hj => ?_⟩
    · rw [List.length_tails, List.length_drop]
      omega
    · rw [List.getElem_tails, List.drop_drop, Nat.add_sub_cancel' hle]
      exact List.isPrefixOf_iff_prefix.mpr hat
    · rw [List.getElem_tails, List.drop_drop, List.isPrefixOf_iff_prefix]
      intro h
      have := hfirst _ h
      omega
  rw [hfound, Option.map_some, Nat.sub_add_cancel hle]

theorem findSubsequence_none {offset : Nat} (hle : offset ≤ buf.length)
    (hno : ∀ i, ¬endPaste <+: buf.drop i) : findSubsequence buf offset endPaste = some none := by
  rw [findSubsequence, if_pos hle]
  have hfound : (buf.drop offset).tails.findIdx? endPaste.isPrefixOf = none := by
    refine List.findIdx?_eq_none_iff.mpr fun tail htail => ?_
    obtain ⟨front, hfront⟩ := (List.mem_tails _ _).mp htail
    refine Bool.eq_false_iff.mpr fun h => hno (offset + front.length) ?_
    rw [← List.drop_drop, ← hfront, List.drop_left]
    exact List.isPrefixOf_iff_prefix.mp h
  rw [hfound, Option.map_none]

variable {pasted rest : List UInt8}

theorem round_escape (hescape : buf.head? = some 0x1b)
    (hmouse : firstMouse utf8 base64 buf = some none)
    (hpre : (ascii "\x1b[<").isPrefixOf buf = false) {found : Found InputEvent}
    (hfound : buildBasicKeyMap.lookup buf true = some found) :
    InputParser.round utf8 base64 ⟨buf, .normal⟩ true =
      InputParser.readKey ⟨buf, .normal⟩ true found := by
  show (if InputState.normal = .normal ∧ buf.head? = some 0x1b then
    InputParser.readEscape utf8 base64 ⟨buf, .normal⟩ true else _) = _
  rw [if_pos ⟨rfl, hescape⟩, InputParser.readEscape, hmouse]
  show (if true && (ascii "\x1b[<").isPrefixOf buf then _ else
    (buildBasicKeyMap.lookup buf true).bind _) = _
  rw [hpre, hfound]
  rfl

theorem ascii_mouse : ascii "\x1b[<" = [0x1b, 0x5b, 0x3c] := by
  decide

theorem round_start (more : List UInt8) :
    InputParser.round utf8 base64 ⟨startPaste ++ more, .normal⟩ true =
      some (.next ⟨more, .pasting 0⟩ []) := by
  have hpre : (ascii "\x1b[<").isPrefixOf (startPaste ++ more) = false := by
    rw [startPaste_eq, ascii_mouse]
    rfl
  rw [round_escape utf8 base64 (by rw [startPaste_eq]; rfl) (firstMouse_start utf8 base64 more)
    hpre (lookup_start more true), InputParser.readKey, if_neg (by simp)]
  show (InputParser.advance ⟨startPaste ++ more, .pasting 0⟩ 6).map (Round.next · []) = _
  have hdrop : (startPaste ++ more).drop 6 = more := by
    rw [← length_startPaste, List.drop_left]
  rw [InputParser.advance, if_pos (by simp [length_startPaste]), hdrop]
  rfl

theorem round_take (n : Nat) (hpos : 0 < n) (h : n < 6) :
    InputParser.round utf8 base64 ⟨startPaste.take n, .normal⟩ true =
      some (.stop ⟨startPaste.take n, .normal⟩) := by
  obtain ⟨found, hfound, hwait⟩ := lookup_take n hpos h
  have hpre : (ascii "\x1b[<").isPrefixOf (startPaste.take n) = false := by
    rw [startPaste_eq, ascii_mouse]
    interval_cases n
    all_goals rfl
  have hescape : (startPaste.take n).head? = some 0x1b := by
    rw [List.head?_take, if_neg hpos.ne', startPaste_eq]
    rfl
  rw [round_escape utf8 base64 hescape (firstMouse_take utf8 base64 n h) hpre hfound]
  rcases hwait with ⟨len, v, rfl⟩ | rfl
  · rfl
  · rfl

theorem round_pasting {offset : Nat} (hle : offset ≤ buf.length)
    (hno : ∀ i, ¬endPaste <+: buf.drop i) :
    InputParser.round utf8 base64 ⟨buf, .pasting offset⟩ true =
      some (.stop ⟨buf, .pasting (buf.length - 6)⟩) := by
  show InputParser.readPaste _ offset = _
  rw [InputParser.readPaste, findSubsequence_none hle hno, length_endPaste]
  rfl

variable (rest) in
theorem round_pasted {offset : Nat} (hfirst : FirstEnds pasted) (hle : offset ≤ pasted.length) :
    InputParser.round utf8 base64 ⟨pasted ++ endPaste ++ rest, .pasting offset⟩ true =
      (InputParser.advance ⟨pasted ++ endPaste ++ rest, .pasting offset⟩
        ((encodeText (fromUtf8Lossy pasted)).length + 6)).map fun p =>
          .next ⟨p.buf, .normal⟩ [.paste (fromUtf8Lossy pasted)] := by
  have hat : endPaste <+: (pasted ++ endPaste ++ rest).drop pasted.length := by
    rw [List.append_assoc, List.drop_left]
    exact List.prefix_append _ _
  have hbefore : ∀ i, endPaste <+: (pasted ++ endPaste ++ rest).drop i → pasted.length ≤ i := by
    intro i hi
    refine Nat.le_of_not_lt fun hlt => absurd (hfirst i ?_) (Nat.not_le.mpr hlt)
    rw [List.drop_append_of_le_length (by simp; omega)] at hi
    refine List.prefix_of_prefix_length_le hi (List.prefix_append _ _) ?_
    rw [List.length_drop, List.length_append]
    omega
  show InputParser.readPaste _ offset = _
  have htake : (pasted ++ endPaste ++ rest).take pasted.length = pasted := by
    rw [List.append_assoc, List.take_left]
  rw [InputParser.readPaste, findSubsequence_some hle hat hbefore, length_endPaste]
  simp only [Option.bind_eq_bind, Option.bind_some, htake]
  cases InputParser.advance ⟨pasted ++ endPaste ++ rest, .pasting offset⟩
    ((encodeText (fromUtf8Lossy pasted)).length + 6) with
  | none => rfl
  | some p => rfl

theorem processBytes_nil (maybeMore : Bool) (fuel : Nat) (state : InputState) :
    InputParser.processBytes utf8 base64 maybeMore fuel ⟨[], state⟩ = some (⟨[], state⟩, []) := by
  cases fuel with
  | zero => rfl
  | succ fuel => rfl

theorem processBytes_stop {p q : InputParser} {maybeMore : Bool} {fuel : Nat} (hbuf : p.buf ≠ [])
    (hround : p.round utf8 base64 maybeMore = some (.stop q)) :
    p.processBytes utf8 base64 maybeMore (fuel + 1) = some (q, []) := by
  rw [InputParser.processBytes, if_neg hbuf, hround]
  rfl

theorem processBytes_next {p q : InputParser} {events : List InputEvent} {maybeMore : Bool}
    {fuel : Nat} (hbuf : p.buf ≠ [])
    (hround : p.round utf8 base64 maybeMore = some (.next q events)) :
    p.processBytes utf8 base64 maybeMore (fuel + 1) =
      (q.processBytes utf8 base64 maybeMore fuel).map fun (r, more) => (r, events ++ more) := by
  rw [InputParser.processBytes, if_neg hbuf, hround]
  show (InputParser.processBytes utf8 base64 maybeMore fuel q).bind _ = _
  cases InputParser.processBytes utf8 base64 maybeMore fuel q with
  | none => rfl
  | some r => rfl

theorem lookup_pos {input : List UInt8} {maybeMore : Bool} {found : Found InputEvent}
    (hinput : input ≠ []) (h : buildBasicKeyMap.lookup input maybeMore = some found) {len : Nat}
    {event : InputEvent} (hfound : found = .exact len event ∨ found = .ambiguous len event) :
    0 < len := by
  have hkeys : ∀ entry ∈ basicKeys, entry.1 ≠ [] :=
    fun entry hentry => (basicKeys_spec entry hentry).1
  cases input with
  | nil => exact absurd rfl hinput
  | cons b key =>
    have hmap : (keyMap basicKeys).lookup (b :: key) maybeMore = some found := h
    rw [lookup_keyMap hkeys] at hmap
    obtain rfl := Option.some.inj hmap
    revert hfound
    split
    · simp
    cases hlongest : longest (b :: key) (keyMap basicKeys).root with
    | none => simp
    | some last =>
      obtain ⟨-, hvalue, -⟩ := longest_some hlongest
      obtain ⟨entry, hentry, heq⟩ := lastInserted_isSome.mp (Option.isSome_of_eq_some hvalue)
      have hpos : 0 < last.1 := by
        refine Nat.pos_of_ne_zero fun hzero => hkeys entry hentry ?_
        rw [heq, hzero, List.take_zero]
      intro hfound
      suffices hlen : len = last.1 by rwa [hlen]
      dsimp only at hfound
      split at hfound
      · have heq : last.1 = len ∧ last.2 = event := by simpa using hfound
        exact heq.1.symm
      · have heq : last.1 = len ∧ last.2 = event := by simpa using hfound
        exact heq.1.symm

theorem parseFirst_pos {bytes : List UInt8} : ∀ {parser : Parser σ} {idx : Nat} {action len},
    parseFirst utf8 base64 parser idx bytes = .ok (some (action, len)) → 0 < len := by
  induction bytes with
  | nil =>
    intro parser idx action len h
    cases h
  | cons b bytes ih =>
    intro parser idx action len h
    obtain ⟨⟨parser', actions⟩, -, h⟩ := bind_eq_ok.mp h
    dsimp only at h
    cases hhead : actions.head? with
    | some first =>
      rw [hhead] at h
      obtain ⟨-, rfl⟩ := Prod.mk.inj (Option.some.inj (Except.ok.inj h))
      exact Nat.succ_pos idx
    | none =>
      rw [hhead] at h
      exact ih h

theorem firstMouse_pos {bytes : List UInt8} {report : MouseReport} {len : Nat}
    (h : firstMouse utf8 base64 bytes = some (some (report, len))) : 0 < len := by
  rw [firstMouse] at h
  split at h
  · next hfirst =>
    obtain ⟨-, rfl⟩ := Prod.mk.inj (Option.some.inj (Option.some.inj h))
    exact parseFirst_pos utf8 base64 hfirst
  · cases h
  · cases h

section Shrinks

variable {p q : InputParser} {events : List InputEvent} {maybeMore : Bool} {len : Nat}
  {event : InputEvent}

theorem advance_lt (hpos : 0 < len) (h : p.advance len = some q) : q.buf.length < p.buf.length := by
  rw [InputParser.advance] at h
  split at h
  · next hle =>
    obtain rfl := Option.some.inj h
    show (p.buf.drop len).length < p.buf.length
    rw [List.length_drop]
    omega
  · cases h

theorem dispatchCallback_buf (p : InputParser) (event : InputEvent) :
    (p.dispatchCallback event).1.buf = p.buf := by
  unfold InputParser.dispatchCallback
  split
  all_goals rfl

theorem dispatch_lt (hpos : 0 < len) (h : p.dispatch len event = some (.next q events)) :
    q.buf.length < p.buf.length := by
  have hsome : ((p.dispatchCallback event).1.advance len).map
      (Round.next · (p.dispatchCallback event).2) = some (.next q events) := h
  obtain ⟨r, hr, heq⟩ := Option.map_eq_some_iff.mp hsome
  obtain ⟨rfl, -⟩ := Round.next.inj heq
  have := advance_lt hpos hr
  rwa [dispatchCallback_buf] at this

theorem readChar_lt (h : p.readChar = some (.next q events)) : q.buf.length < p.buf.length := by
  rw [InputParser.readChar] at h
  split at h
  · next c len hchar =>
    refine dispatch_lt ?_ h
    obtain ⟨len', hlen', hsome⟩ := List.exists_of_findSome?_eq_some hchar
    split at hsome
    · obtain ⟨-, rfl⟩ := Prod.mk.inj (Option.some.inj hsome)
      simp only [List.mem_cons, List.not_mem_nil, or_false] at hlen'
      omega
    · cases hsome
  · cases h

theorem readKey_lt {found : Found InputEvent} (hbuf : p.buf ≠ [])
    (hfound : buildBasicKeyMap.lookup p.buf maybeMore = some found)
    (h : p.readKey maybeMore found = some (.next q events)) : q.buf.length < p.buf.length := by
  have hpos : ∀ {len event}, found = .exact len event ∨ found = .ambiguous len event → 0 < len :=
    lookup_pos hbuf hfound
  revert h
  fun_cases InputParser.readKey p maybeMore found with
  | case1 len event hescape =>
    intro h
    obtain ⟨r, hr, heq⟩ := Option.map_eq_some_iff.mp h
    obtain ⟨rfl, -⟩ := Round.next.inj heq
    exact advance_lt (p := { p with state := .escapeMaybeAlt }) (hpos (.inl rfl)) hr
  | case2 len event hescape => exact dispatch_lt (hpos (.inl rfl))
  | case3 len event hmore =>
    intro h
    cases h
  | case4 len event hmore => exact dispatch_lt (hpos (.inr rfl))
  | case5 hmore =>
    intro h
    cases h
  | case6 hmore => exact readChar_lt
  | case7 => exact readChar_lt

theorem round_shrinks (hbuf : p.buf ≠ [])
    (h : p.round utf8 base64 maybeMore = some (.next q events)) : q.buf.length < p.buf.length := by
  have hkey : (buildBasicKeyMap.lookup p.buf maybeMore).bind (p.readKey maybeMore) =
      some (.next q events) → q.buf.length < p.buf.length := by
    intro hread
    obtain ⟨found, hfound, hread⟩ := Option.bind_eq_some_iff.mp hread
    exact readKey_lt hbuf hfound hread
  have hother : (if p.state = .normal ∧ p.buf.head? = some 0x1b then
      p.readEscape utf8 base64 maybeMore
      else (buildBasicKeyMap.lookup p.buf maybeMore).bind (p.readKey maybeMore)) =
      some (.next q events) → q.buf.length < p.buf.length := by
    intro hread
    split at hread
    · obtain ⟨mouse, hmouse, hread⟩ := Option.bind_eq_some_iff.mp hread
      cases mouse with
      | some found =>
        obtain ⟨r, hr, heq⟩ := Option.bind_eq_some_iff.mp hread
        obtain ⟨rfl, -⟩ := Round.next.inj (Option.some.inj heq)
        exact advance_lt (firstMouse_pos utf8 base64 hmouse) hr
      | none =>
        dsimp only at hread
        split at hread
        · cases hread
        · exact hkey hread
    · exact hkey hread
  obtain ⟨buf, state⟩ := p
  cases state with
  | normal => exact hother h
  | escapeMaybeAlt => exact hother h
  | pasting offset =>
    obtain ⟨found, -, h⟩ := Option.bind_eq_some_iff.mp h
    cases found with
    | none => cases h
    | some idx =>
      obtain ⟨r, hr, heq⟩ := Option.bind_eq_some_iff.mp h
      obtain ⟨rfl, -⟩ := Round.next.inj (Option.some.inj heq)
      rw [length_endPaste] at hr
      have hlt := advance_lt (Nat.succ_pos _) hr
      exact hlt

end Shrinks

theorem processBytes_fuel (maybeMore : Bool) : ∀ (n m : Nat) (p : InputParser),
    p.buf.length ≤ n → p.buf.length ≤ m →
      p.processBytes utf8 base64 maybeMore n = p.processBytes utf8 base64 maybeMore m := by
  intro n
  induction n with
  | zero =>
    rintro m ⟨buf, state⟩ hn -
    obtain rfl : buf = [] := List.eq_nil_of_length_eq_zero (Nat.le_zero.mp hn)
    rw [processBytes_nil, processBytes_nil]
  | succ n ih =>
    intro m p hn hm
    by_cases hbuf : p.buf = []
    · obtain ⟨buf, state⟩ := p
      obtain rfl : buf = [] := hbuf
      rw [processBytes_nil, processBytes_nil]
    · obtain ⟨m, rfl⟩ := Nat.exists_eq_succ_of_ne_zero
        (Nat.lt_of_lt_of_le (List.length_pos_iff.mpr hbuf) hm).ne'
      cases hround : p.round utf8 base64 maybeMore with
      | none =>
        rw [InputParser.processBytes, InputParser.processBytes, if_neg hbuf, if_neg hbuf, hround]
        rfl
      | some next =>
        cases next with
        | stop q => rw [processBytes_stop utf8 base64 hbuf hround,
            processBytes_stop utf8 base64 hbuf hround]
        | next q events =>
          have hlt := round_shrinks utf8 base64 hbuf hround
          rw [processBytes_next utf8 base64 hbuf hround, processBytes_next utf8 base64 hbuf hround,
            ih m q (by omega) (by omega)]

theorem Runs.length_le {p q : InputParser} {events : List InputEvent}
    (h : Runs utf8 base64 p events q) : q.buf.length ≤ p.buf.length := by
  induction h with
  | refl p => exact Nat.le_refl _
  | next hbuf hround _ ih => exact ih.trans (round_shrinks utf8 base64 hbuf hround).le

theorem Runs.processBytes {p q : InputParser} {events : List InputEvent}
    (h : Runs utf8 base64 p events q) :
    p.processBytes utf8 base64 true p.buf.length =
      (q.processBytes utf8 base64 true q.buf.length).map fun (r, more) => (r, events ++ more) := by
  induction h with
  | refl p =>
    cases InputParser.processBytes utf8 base64 true p.buf.length p with
    | none => rfl
    | some r => rfl
  | @next p q r events more hbuf hround _ ih =>
    have hlt := round_shrinks utf8 base64 hbuf hround
    obtain ⟨fuel, hfuel⟩ := Nat.exists_eq_succ_of_ne_zero (Nat.zero_lt_of_lt hlt).ne'
    rw [hfuel, processBytes_next utf8 base64 hbuf hround,
      processBytes_fuel utf8 base64 true fuel q.buf.length q (by omega) (Nat.le_refl _), ih]
    cases InputParser.processBytes utf8 base64 true r.buf.length r with
    | none => rfl
    | some t => simp

theorem no_end (hfirst : FirstEnds pasted) (hbuf : buf <+: pasted ++ endPaste)
    (hlt : buf.length < pasted.length + 6) (i : Nat) : ¬endPaste <+: buf.drop i := by
  intro h
  have hle := hfirst i (h.trans (hbuf.drop i))
  have hlen := h.length_le
  rw [length_endPaste, List.length_drop] at hlen
  omega

theorem process_pasting {offset fuel : Nat} (hfirst : FirstEnds pasted)
    (hbuf : buf <+: pasted ++ endPaste) (hlt : buf.length < pasted.length + 6)
    (hle : offset ≤ pasted.length) (hin : offset ≤ buf.length) (hfuel : buf.length ≤ fuel) :
    ∃ offset', InputParser.processBytes utf8 base64 true fuel ⟨buf, .pasting offset⟩ =
      some (⟨buf, .pasting offset'⟩, []) ∧ offset' ≤ pasted.length ∧ offset' ≤ buf.length := by
  cases buf with
  | nil => exact ⟨offset, processBytes_nil utf8 base64 true fuel _, hle, hin⟩
  | cons b more =>
    obtain ⟨fuel, rfl⟩ := Nat.exists_eq_succ_of_ne_zero (Nat.lt_of_lt_of_le
      (Nat.succ_pos more.length) hfuel).ne'
    refine ⟨(b :: more).length - 6, ?_, by omega, Nat.sub_le _ _⟩
    exact processBytes_stop utf8 base64 (List.cons_ne_nil b more)
      (round_pasting utf8 base64 hin (no_end hfirst hbuf hlt))

/-- The parser after the first bytes of a paste, its end not yet among them. -/
def Collecting (pasted received : List UInt8) (p : InputParser) : Prop :=
  if received.length < 6 then p = ⟨received, .normal⟩
  else ∃ offset, p = ⟨received.drop 6, .pasting offset⟩ ∧ offset ≤ pasted.length ∧
    offset ≤ received.length - 6

/-- These bytes are the first of a paste, and not all of them. -/
structure Begun (pasted received : List UInt8) : Prop where
  bytes : received <+: startPaste ++ (pasted ++ endPaste)
  short : received.length < pasted.length + 12

theorem Begun.take {received : List UInt8} (h : Begun pasted received) (hlt : received.length < 6) :
    received = startPaste.take received.length := by
  have hpre : received <+: startPaste :=
    List.prefix_of_prefix_length_le h.bytes (List.prefix_append _ _)
      (by rw [length_startPaste]; omega)
  exact List.prefix_iff_eq_take.mp hpre

theorem Begun.drop {received : List UInt8} (h : Begun pasted received) (hle : 6 ≤ received.length) :
    received = startPaste ++ received.drop 6 ∧ received.drop 6 <+: pasted ++ endPaste := by
  have hpre : startPaste <+: received :=
    List.prefix_of_prefix_length_le (List.prefix_append _ _) h.bytes
      (by rw [length_startPaste]; exact hle)
  obtain ⟨more, rfl⟩ := hpre
  have hdrop : (startPaste ++ more).drop 6 = more := by
    rw [← length_startPaste, List.drop_left]
  rw [hdrop]
  exact ⟨rfl, (List.prefix_append_right_inj _).mp h.bytes⟩

theorem parse_collecting {received bytes : List UInt8} {p : InputParser}
    (hfirst : FirstEnds pasted) (hp : Collecting pasted received p)
    (h : Begun pasted (received ++ bytes)) :
    ∃ q, p.parse utf8 base64 bytes true = some (q, []) ∧
      Collecting pasted (received ++ bytes) q := by
  have hshort := h.short
  rw [Collecting] at hp
  by_cases hstarted : 6 ≤ received.length
  · rw [if_neg (by omega)] at hp
    obtain ⟨offset, rfl, hle, hin⟩ := hp
    have hdrop : (received ++ bytes).drop 6 = received.drop 6 ++ bytes :=
      List.drop_append_of_le_length hstarted
    have hlonger : 6 ≤ (received ++ bytes).length := by
      rw [List.length_append]
      omega
    obtain ⟨-, hbuf⟩ := h.drop hlonger
    have hlen : ((received ++ bytes).drop 6).length = (received ++ bytes).length - 6 :=
      List.length_drop
    obtain ⟨offset', hrun, hle', hin'⟩ := process_pasting utf8 base64 hfirst hbuf (by omega) hle
      (by rw [hlen, List.length_append]; omega) (Nat.le_refl _)
    refine ⟨⟨(received ++ bytes).drop 6, .pasting offset'⟩, ?_, ?_⟩
    · rw [hdrop] at hrun ⊢
      exact hrun
    · rw [Collecting, if_neg (by omega)]
      exact ⟨offset', rfl, hle', by omega⟩
  · rw [if_pos (by omega)] at hp
    obtain rfl := hp
    show ∃ q, InputParser.processBytes utf8 base64 true (received ++ bytes).length
      ⟨received ++ bytes, .normal⟩ = _ ∧ _
    by_cases hnow : (received ++ bytes).length < 6
    · refine ⟨⟨received ++ bytes, .normal⟩, ?_, by rw [Collecting, if_pos hnow]⟩
      have htake := h.take hnow
      generalize received ++ bytes = buf at htake hnow
      cases hlen : buf.length with
      | zero =>
        obtain rfl := List.eq_nil_of_length_eq_zero hlen
        exact processBytes_nil utf8 base64 true _ _
      | succ n =>
        have hround := round_take utf8 base64 buf.length (by omega) hnow
        rw [← htake] at hround
        exact processBytes_stop utf8 base64 (List.ne_nil_of_length_eq_add_one hlen) hround
    · obtain ⟨hbuf, hpre⟩ := h.drop (by omega)
      generalize received ++ bytes = buf at hshort hnow hbuf hpre
      have hlen : (buf.drop 6).length = buf.length - 6 := List.length_drop
      obtain ⟨fuel, hfuel⟩ := Nat.exists_eq_succ_of_ne_zero (n := buf.length) (by omega)
      have hne : buf ≠ [] := List.ne_nil_of_length_eq_add_one hfuel
      have hround := round_start utf8 base64 (buf.drop 6)
      rw [← hbuf] at hround
      obtain ⟨offset, hrun, hle, hin⟩ := process_pasting utf8 base64 hfirst hpre (by omega)
        (Nat.zero_le _) (Nat.zero_le _) (show (buf.drop 6).length ≤ fuel by omega)
      refine ⟨⟨buf.drop 6, .pasting offset⟩, ?_, ?_⟩
      · rw [hfuel, processBytes_next utf8 base64 hne hround, hrun]
        rfl
      · rw [Collecting, if_neg hnow]
        exact ⟨offset, rfl, hle, by omega⟩

theorem calls_collecting (hfirst : FirstEnds pasted) (init : List (List UInt8)) :
    ∀ (received : List UInt8) (p : InputParser), Collecting pasted received p →
      Begun pasted (received ++ init.flatten) → ∃ q, calls utf8 base64 p init = some (q, []) ∧
        Collecting pasted (received ++ init.flatten) q := by
  induction init with
  | nil =>
    intro received p hp h
    exact ⟨p, rfl, by simpa using hp⟩
  | cons bytes init ih =>
    intro received p hp h
    rw [List.flatten_cons, ← List.append_assoc] at h ⊢
    obtain ⟨q, hq, hcollecting⟩ := parse_collecting utf8 base64 hfirst hp
      ⟨(List.prefix_append _ _).trans h.bytes,
        Nat.lt_of_le_of_lt (List.prefix_append _ _).length_le h.short⟩
    obtain ⟨r, hr, hrest⟩ := ih _ q hcollecting h
    refine ⟨r, ?_, hrest⟩
    rw [calls, hq]
    show (calls utf8 base64 q init).bind _ = _
    rw [hr]
    rfl

theorem calls_concat (last : List UInt8) (init : List (List UInt8)) :
    ∀ (p : InputParser) {q : InputParser} {events : List InputEvent},
      calls utf8 base64 p init = some (q, events) →
        calls utf8 base64 p (init ++ [last]) = (q.parse utf8 base64 last true).map
          fun (r, more) => (r, events ++ more) := by
  induction init with
  | nil =>
    intro p q events h
    obtain ⟨rfl, rfl⟩ := Prod.mk.inj (Option.some.inj h)
    show (InputParser.parse utf8 base64 p last true).bind _ = _
    cases InputParser.parse utf8 base64 p last true with
    | none => rfl
    | some r => simp [calls]
  | cons bytes init ih =>
    intro p q events h
    obtain ⟨⟨r, first⟩, hparse, h⟩ := Option.bind_eq_some_iff.mp h
    obtain ⟨⟨t, more⟩, hmore, h⟩ := Option.bind_eq_some_iff.mp h
    obtain ⟨rfl, rfl⟩ := Prod.mk.inj (Option.some.inj h)
    rw [List.cons_append, calls, hparse]
    show (calls utf8 base64 r (init ++ [last])).bind _ = _
    rw [ih r hmore]
    cases InputParser.parse utf8 base64 t last true with
    | none => rfl
    | some u => simp

theorem Delivers.begun {init : List (List UInt8)} {last : List UInt8}
    (h : Delivers pasted rest init last) : Begun pasted init.flatten := by
  have hlen := congrArg List.length h.bytes
  have hends := h.ends
  simp only [List.length_append, length_startPaste, length_endPaste] at hlen
  have hwhole : startPaste ++ (pasted ++ endPaste) <+: init.flatten ++ last := by
    rw [h.bytes]
    simp [List.append_assoc]
  refine ⟨List.prefix_of_prefix_length_le (List.prefix_append _ last) hwhole ?_, by omega⟩
  simp only [List.length_append, length_startPaste, length_endPaste]
  omega

variable {utf8 base64} in
theorem Runs.inv {p q : InputParser} {events : List InputEvent} (h : Runs utf8 base64 p events q) :
    (events = [] ∧ p = q) ∨ ∃ p' first more, p.buf ≠ [] ∧
      p.round utf8 base64 true = some (.next p' first) ∧ Runs utf8 base64 p' more q ∧
      events = first ++ more := by
  cases h with
  | refl => exact .inl ⟨rfl, rfl⟩
  | next hbuf hround h => exact .inr ⟨_, _, _, hbuf, hround, h, rfl⟩

variable (rest) in
theorem runs_pasted_iff {offset : Nat} (hfirst : FirstEnds pasted) (hle : offset ≤ pasted.length) :
    Runs utf8 base64 ⟨pasted ++ endPaste ++ rest, .pasting offset⟩
      [.paste (fromUtf8Lossy pasted)] ⟨rest, .normal⟩ ↔
        (encodeText (fromUtf8Lossy pasted)).length = pasted.length := by
  have hround := round_pasted utf8 base64 rest hfirst hle
  have hlossy := (length_fromUtf8Lossy pasted).1
  have hlen : (pasted ++ endPaste ++ rest).length = pasted.length + 6 + rest.length := by
    rw [List.length_append, List.length_append, length_endPaste]
  constructor
  · intro h
    obtain ⟨hnil, -⟩ | ⟨p', first, more, -, hfound, hmore, -⟩ := h.inv
    · cases hnil
    · rw [hround] at hfound
      obtain ⟨r, hr, heq⟩ := Option.map_eq_some_iff.mp hfound
      obtain ⟨rfl, -⟩ := Round.next.inj heq
      -- what comes after the paste is still there, so no more than the paste was taken
      have hrest : rest.length ≤ r.buf.length := hmore.length_le
      rw [InputParser.advance] at hr
      split at hr
      · next hfits =>
        obtain rfl := Option.some.inj hr
        have hdrop : ∀ n, ((pasted ++ endPaste ++ rest).drop n).length =
          pasted.length + 6 + rest.length - n := fun n => by rw [List.length_drop, hlen]
        dsimp only at hrest hfits
        rw [hdrop] at hrest
        rw [hlen] at hfits
        omega
      · cases hr
  · intro h
    have hdrop : (pasted ++ endPaste ++ rest).drop (pasted.length + 6) = rest := by
      rw [← length_endPaste, ← List.length_append, List.drop_left]
    rw [InputParser.advance, h, if_pos (by dsimp only; rw [hlen]; omega)] at hround
    dsimp only at hround
    rw [hdrop] at hround
    have hne : pasted ++ endPaste ++ rest ≠ [] := by
      rw [← List.length_pos_iff, hlen]
      omega
    exact .next hne hround (.refl _)

theorem runs_collecting_iff {init : List (List UInt8)} {last : List UInt8} {q : InputParser}
    (hfirst : FirstEnds pasted) (h : Delivers pasted rest init last)
    (hq : Collecting pasted init.flatten q) :
    Runs utf8 base64 { q with buf := q.buf ++ last } [.paste (fromUtf8Lossy pasted)]
      ⟨rest, .normal⟩ ↔ (encodeText (fromUtf8Lossy pasted)).length = pasted.length := by
  have hbytes : init.flatten ++ last = startPaste ++ (pasted ++ endPaste ++ rest) := by
    simpa [List.append_assoc] using h.bytes
  rw [Collecting] at hq
  split at hq
  · obtain rfl := hq
    rw [← runs_pasted_iff utf8 base64 rest hfirst (Nat.zero_le _)]
    have hround := round_start utf8 base64 (pasted ++ endPaste ++ rest)
    dsimp only
    rw [hbytes]
    constructor
    · intro hruns
      obtain ⟨hnil, -⟩ | ⟨p', first, more, -, hfound, hmore, heq⟩ := hruns.inv
      · cases hnil
      · rw [hround] at hfound
        obtain ⟨rfl, rfl⟩ := Round.next.inj (Option.some.inj hfound)
        rw [heq]
        exact hmore
    · intro hruns
      exact .next (by rw [startPaste_eq]; exact List.cons_ne_nil _ _) hround hruns
  · obtain ⟨offset, rfl, hle, -⟩ := hq
    rw [← runs_pasted_iff utf8 base64 rest hfirst hle]
    have hdrop : init.flatten.drop 6 ++ last = pasted ++ endPaste ++ rest := by
      have := congrArg (List.drop 6) hbytes
      rw [List.drop_append_of_le_length (by omega)] at this
      rw [this, ← length_startPaste, List.drop_left]
    dsimp only
    rw [hdrop]

/-- **A paste is read as one event, and what comes after it as if it came alone, in whatever pieces
it comes, if every part of it that is no character is three bytes long**, as what stands for it in
the text is. -/
theorem pasted_iff (hfirst : FirstEnds pasted) {init : List (List UInt8)} {last : List UInt8}
    (h : Delivers pasted rest init last) :
    Pastes utf8 base64 pasted rest init last ↔
      ∀ n ∈ replacedIn pasted.length pasted, n = 3 := by
  rw [← (length_fromUtf8Lossy pasted).2]
  obtain ⟨q, hcalls, hq⟩ := calls_collecting utf8 base64 hfirst init [] .new rfl h.begun
  have hruns := runs_collecting_iff utf8 base64 hfirst h hq
  constructor
  · rintro ⟨⟨q', hq', hframed⟩, -⟩
    rw [hcalls] at hq'
    obtain ⟨rfl, -⟩ := Prod.mk.inj (Option.some.inj hq')
    exact hruns.mp hframed
  · intro hlen
    have hframed := hruns.mpr hlen
    refine ⟨⟨q, hcalls, hframed⟩, ?_⟩
    rw [calls_concat utf8 base64 last init .new hcalls]
    show (InputParser.processBytes utf8 base64 true (q.buf ++ last).length
      { q with buf := q.buf ++ last }).map _ = _
    rw [hframed.processBytes]
    show _ = (InputParser.processBytes utf8 base64 true rest.length ⟨rest, .normal⟩).map _
    cases InputParser.processBytes utf8 base64 true rest.length ⟨rest, .normal⟩ with
    | none => rfl
    | some r => rfl

end Pastes

theorem endPaste_eq : endPaste = [0x1b, 0x5b, 0x32, 0x30, 0x31, 0x7e] := by
  decide

/-- A decoder of UTF-8 and one of base64, where there is nothing to decode. -/
def idle : Utf8Parser Unit := ⟨(), fun s _ => (s, none)⟩
def noBase64 : Base64 := ⟨fun _ => [], fun _ => none⟩

/-- `hi` is pasted in two pieces, and `a` is typed after it. -/
theorem pasted_hi : Pastes idle noBase64 [0x68, 0x69] [0x61] [[0x1b, 0x5b]]
    [0x32, 0x30, 0x30, 0x7e, 0x68, 0x69, 0x1b, 0x5b, 0x32, 0x30, 0x31, 0x7e, 0x61] := by
  refine (pasted_iff idle noBase64 (fun i hi => ?_) ⟨?_, by decide⟩).mpr (by decide)
  · rw [endPaste_eq] at hi
    by_contra hlt
    have hlt : i < 2 := Nat.lt_of_not_le hlt
    interval_cases i
    all_goals simp at hi
  · rw [startPaste_eq, endPaste_eq]
    rfl

/-- One byte that is no character becomes three, and there are not so many to take. -/
theorem invalid_byte_overruns : ¬Pastes idle noBase64 [0xff] [] []
    [0x1b, 0x5b, 0x32, 0x30, 0x30, 0x7e, 0xff, 0x1b, 0x5b, 0x32, 0x30, 0x31, 0x7e] := by
  have hfirst : FirstEnds [0xff] := by
    intro i hi
    rw [endPaste_eq] at hi
    by_contra hlt
    obtain rfl : i = 0 := Nat.lt_one_iff.mp (Nat.lt_of_not_le hlt)
    simp at hi
  have hdelivers : Delivers [0xff] [] []
      [0x1b, 0x5b, 0x32, 0x30, 0x30, 0x7e, 0xff, 0x1b, 0x5b, 0x32, 0x30, 0x31, 0x7e] :=
    ⟨by rw [startPaste_eq, endPaste_eq]; rfl, by decide⟩
  rintro ⟨⟨q, hq, hframed⟩, -⟩
  obtain ⟨rfl, -⟩ := Prod.mk.inj (Option.some.inj hq)
  have hlen := (runs_collecting_iff idle noBase64 hfirst hdelivers rfl).mp hframed
  exact absurd hlen (by decide)

end Wakterm.Theorems.Input

