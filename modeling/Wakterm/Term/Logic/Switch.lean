import Wakterm.Term.Logic.Damage
import Wakterm.Term.Performer

/-!
# Switching screens

Which rows are marked when the terminal goes from one screen to the other.
-/

namespace Wakterm.Term

open Wakterm.Machine

/-! ## Rows that are marked -/

/-- The rows are new, and nothing else has changed. -/
structure Marked (seen : Nat) (rows : Nat → Prop) (s s' : Screen) : Prop where
  frame : s' = { s with lines := s'.lines }
  length : s'.lines.length = s.lines.length
  new : ∀ i line, rows i → At s'.lines i line → seen < line.seqno
  same : ∀ i, ¬ rows i → s'.lines[i]? = s.lines[i]?

section Marked

variable {seen : Nat} {rows rows' : Nat → Prop} {s s' s'' : Screen}

theorem Marked.refl (s : Screen) : Marked seen (fun _ => False) s s :=
  ⟨rfl, rfl, fun _ _ h => h.elim, fun _ _ => rfl⟩

theorem Marked.of_false (s : Screen) (h : ∀ i, ¬ rows i) : Marked seen rows s s :=
  ⟨rfl, rfl, fun i _ hi => absurd hi (h i), fun _ _ => rfl⟩

theorem Marked.trans (h : Marked seen rows s s') (h' : Marked seen rows' s' s'') :
    Marked seen (fun i => rows i ∨ rows' i) s s'' := by
  refine ⟨by rw [h'.frame, h.frame], h'.length.trans h.length, ?_, ?_⟩
  · intro i line hrow hline
    by_cases hrow' : rows' i
    · exact h'.new i line hrow' hline
    · unfold At at hline
      rw [h'.same i hrow'] at hline
      exact h.new i line (hrow.resolve_right hrow') hline
  · intro i hrow
    rw [h'.same i fun h' => hrow (.inr h'), h.same i fun h => hrow (.inl h)]

theorem Marked.congr (h : Marked seen rows s s')
    (hrows : ∀ i, i < s.lines.length → (rows i ↔ rows' i)) : Marked seen rows' s s' := by
  refine ⟨h.frame, h.length, ?_, ?_⟩
  · intro i line hrow hline
    have hlt := hline.lt
    rw [h.length] at hlt
    exact h.new i line ((hrows i hlt).mpr hrow) hline
  · intro i hrow
    by_cases hlt : i < s.lines.length
    · exact h.same i fun h => hrow ((hrows i hlt).mp h)
    · have hlen := h.length
      rw [List.getElem?_eq_none (by omega), List.getElem?_eq_none (by omega)]

theorem Marked.keeps_new (h : Marked seen rows s s')
    (hnew : ∀ i line, At s.lines i line → seen < line.seqno) (i : Nat) (line : Line)
    (hline : At s'.lines i line) : seen < line.seqno := by
  by_cases hrow : rows i
  · exact h.new i line hrow hline
  · unfold At at hline
    rw [h.same i hrow] at hline
    exact hnew i line hline

theorem Marked.physRow (h : Marked seen rows s s') (y : Int) : s'.physRow y = s.physRow y := by
  unfold Screen.physRow
  rw [h.length, h.frame]

theorem Marked.stableRange (h : Marked seen rows s s') (range : Span Int) :
    s'.stableRange range = s.stableRange range := by
  have hphys : ∀ row, s'.stableRowToPhys row = s.stableRowToPhys row := by
    intro row
    unfold Screen.stableRowToPhys
    rw [h.length, h.frame]
  unfold Screen.stableRange
  rw [hphys, hphys, h.length]

theorem modifyLine_marked {idx : Nat} {f : Line → Except Panic Line}
    (h : s.modifyLine idx f = .ok s') (hf : ∀ line line', f line = .ok line' → seen < line'.seqno) :
    Marked seen (· = idx) s s' := by
  obtain ⟨hframe, hlen, old, new, -, hnew, hat, hothers⟩ := modifyLine_at h
  refine ⟨hframe, hlen, ?_, hothers⟩
  rintro i line rfl hline
  obtain rfl := hline.unique hat
  exact hf old line hnew

/-- A loop that marks one set of rows after the other. What a round marks may depend on how many
lines the screen has. -/
theorem rowsFrom_marked (seen : Nat) (row : Nat → Nat → Prop)
    {f : Nat → Screen → Except Panic Screen}
    (hf : ∀ i s1 s2, s1 = { s with lines := s1.lines } → s1.lines.length = s.lines.length →
      f i s1 = .ok s2 → Marked seen (row i) s1 s2) {a n : Nat}
    (h : rowsFrom a n f s = .ok s') :
    Marked seen (fun j => ∃ i, a ≤ i ∧ i < a + n ∧ row i j) s s' := by
  have hloop : ∀ n a s1, s1 = { s with lines := s1.lines } →
      s1.lines.length = s.lines.length → rowsFrom a n f s1 = .ok s' →
      Marked seen (fun j => ∃ i, a ≤ i ∧ i < a + n ∧ row i j) s1 s' := by
    intro n
    induction n with
    | zero =>
      intro a s1 _ _ h
      obtain rfl := Except.ok.inj h
      refine (Marked.refl s1).congr ?_
      intro j _
      constructor
      · exact False.elim
      · rintro ⟨i, hi, hi', -⟩
        omega
    | succ n ih =>
      intro a s1 hframe hlen h
      obtain ⟨s2, h1, h2⟩ := bind_eq_ok.mp h
      have hstep := hf a s1 s2 hframe hlen h1
      have hrest := ih (a + 1) s2 (by rw [hstep.frame, hframe]) (hstep.length.trans hlen) h2
      refine (hstep.trans hrest).congr ?_
      intro j _
      constructor
      · rintro (hrow | ⟨i, hi, hi', hrow⟩)
        · exact ⟨a, Nat.le_refl _, by omega, hrow⟩
        · exact ⟨i, by omega, by omega, hrow⟩
      · rintro ⟨i, hi, hi', hrow⟩
        by_cases hia : i = a
        · subst hia
          exact .inl hrow
        · exact .inr ⟨i, by omega, by omega, hrow⟩
  exact hloop n a s rfl rfl h

end Marked

/-! ## Handlers -/

/-- The rows of the two screens that are new after a handler, which changes nothing else of the
screens. -/
structure MarkedRows (seen : Nat) (primary alt : Nat → Prop) (t t' : TerminalState) : Prop where
  primary : Marked seen primary t.screen.screen t'.screen.screen
  alt : Marked seen alt t.screen.altScreen t'.screen.altScreen
  seqno : t'.seqno = t.seqno

section Handlers

variable {graphemes : Graphemes} {seen : Nat} {t t' t'' : TerminalState}

variable {primary alt : Nat → Prop} {f : Screen → Except Panic Screen}

theorem MarkedRows.trans {primary' alt' : Nat → Prop} (h : MarkedRows seen primary alt t t')
    (h' : MarkedRows seen primary' alt' t' t'') :
    MarkedRows seen (fun i => primary i ∨ primary' i) (fun i => alt i ∨ alt' i) t t'' :=
  ⟨h.primary.trans h'.primary, h.alt.trans h'.alt, h'.seqno.trans h.seqno⟩

theorem onScreen_eq_ok (h : t.onScreen f = .ok t') :
    ∃ s, f t.active = .ok s ∧ t' = { t with screen := t.screen.setActive s } := by
  obtain ⟨s, hs, rfl⟩ := map_eq_ok.mp h
  exact ⟨s, hs, rfl⟩

theorem onScreen_marked {rows : Nat → Prop} (h : t.onScreen f = .ok t')
    (hf : ∀ s, f t.active = .ok s → Marked seen rows t.active s) :
    MarkedRows seen (fun i => t.screen.altScreenIsActive = false ∧ rows i)
        (fun i => t.screen.altScreenIsActive = true ∧ rows i) t t' ∧
      t'.screen.altScreenIsActive = t.screen.altScreenIsActive ∧ t'.placements = t.placements := by
  obtain ⟨s, hs, rfl⟩ := onScreen_eq_ok h
  have hmarked := hf s hs
  unfold TerminalState.active ScreenOrAlt.active at hmarked
  unfold ScreenOrAlt.setActive
  cases hshown : t.screen.altScreenIsActive with
  | false =>
    rw [hshown, if_neg (by decide)] at hmarked
    refine ⟨⟨?_, ?_, rfl⟩, rfl, rfl⟩
    · exact hmarked.congr fun i _ => ⟨fun hi => ⟨rfl, hi⟩, fun hi => hi.2⟩
    · exact Marked.of_false _ fun i hi => Bool.false_ne_true hi.1
  | true =>
    rw [hshown, if_pos rfl] at hmarked
    refine ⟨⟨?_, ?_, rfl⟩, rfl, rfl⟩
    · exact Marked.of_false _ fun i hi => Bool.false_ne_true hi.1.symm
    · exact hmarked.congr fun i _ => ⟨fun hi => ⟨rfl, hi⟩, fun hi => hi.2⟩

/-- The cursor is set, or saved, or restored: this is nothing to the screens. -/
structure SameScreens (t t' : TerminalState) : Prop where
  screen : t'.screen.screen = t.screen.screen
  altScreen : t'.screen.altScreen = t.screen.altScreen
  shown : t'.screen.altScreenIsActive = t.screen.altScreenIsActive
  placements : t'.placements = t.placements
  seqno : t'.seqno = t.seqno

theorem SameScreens.active (h : SameScreens t t') : t'.active = t.active := by
  unfold TerminalState.active ScreenOrAlt.active
  rw [h.screen, h.altScreen, h.shown]

theorem MarkedRows.before (h : MarkedRows seen primary alt t' t'') (hsame : SameScreens t t') :
    MarkedRows seen primary alt t t'' :=
  ⟨hsame.screen ▸ h.primary, hsame.altScreen ▸ h.alt, h.seqno.trans hsame.seqno⟩

theorem MarkedRows.after (h : MarkedRows seen primary alt t t') (hsame : SameScreens t' t'') :
    MarkedRows seen primary alt t t'' :=
  ⟨hsame.screen ▸ h.primary, hsame.altScreen ▸ h.alt, hsame.seqno.trans h.seqno⟩

theorem setCursorPos_same (t : TerminalState) (x y : Position) : SameScreens t (t.setCursorPos x y) := by
  unfold TerminalState.setCursorPos TerminalState.setCursorPositionAbsolute
    TerminalState.clearSemanticAttributeDueToMovement
  dsimp only
  split
  · split <;> exact ⟨rfl, rfl, rfl, rfl, rfl⟩
  · exact ⟨rfl, rfl, rfl, rfl, rfl⟩

theorem setSavedCursor_same (t : TerminalState) (saved : Option SavedCursor) :
    SameScreens t { t with screen := t.screen.setSavedCursor saved } := by
  unfold ScreenOrAlt.setSavedCursor
  split <;> exact ⟨rfl, rfl, rfl, rfl, rfl⟩

theorem decRestoreCursor_same (t : TerminalState) : SameScreens t t.decRestoreCursor := by
  unfold TerminalState.decRestoreCursor
  generalize t.screen.activeSavedCursor.getD _ = saved
  have hset := setCursorPos_same { t with decOriginMode := false } (.absolute saved.position.x)
    (.absolute saved.position.y)
  exact ⟨hset.screen, hset.altScreen, hset.shown, hset.placements, hset.seqno⟩

theorem activate_marked {alt : Bool} (h : t.activate alt = .ok t') (hseen : seen < t.seqno) :
    MarkedRows seen (· < t.screen.screen.physicalRows) (fun _ => False) t t' ∧
      t'.screen.altScreenIsActive = alt ∧ t'.placements = t.placements := by
  have hdirty : ∃ s, rowsFrom 0 t.screen.screen.physicalRows (Screen.touch t.seqno)
      t.screen.screen = .ok s ∧
      t' = { t with screen := { t.screen with screen := s, altScreenIsActive := alt } } := by
    obtain ⟨screen, hscreen, rfl⟩ := map_eq_ok.mp h
    cases alt with
    | false =>
      obtain ⟨s, hs, rfl⟩ := map_eq_ok.mp hscreen
      exact ⟨s, hs, rfl⟩
    | true =>
      obtain ⟨s, hs, rfl⟩ := map_eq_ok.mp hscreen
      exact ⟨s, hs, rfl⟩
  obtain ⟨s, hs, rfl⟩ := hdirty
  refine ⟨⟨?_, Marked.refl _, rfl⟩, rfl, rfl⟩
  have hmarked := rowsFrom_marked seen (fun i j => j = i) ?_ hs
  · refine hmarked.congr ?_
    intro j _
    constructor
    · rintro ⟨i, -, hi, rfl⟩
      omega
    · intro hj
      exact ⟨j, Nat.zero_le _, by omega, rfl⟩
  · intro i s1 s2 _ _ htouch
    refine modifyLine_marked htouch ?_
    intro line line' hline
    cases hline
    exact Nat.lt_of_lt_of_le hseen (Nat.le_max_right _ _)

theorem eraseRow_marked {y : Nat} {s s' : Screen} (h : t.eraseRow graphemes y s = .ok s')
    (hseen : seen < t.seqno) : Marked seen (· = s.physRow y) s s' := by
  obtain ⟨s1, h1, h2⟩ := bind_eq_ok.mp h
  have hclear : Marked seen (· = s.physRow y) s s1 := by
    refine modifyLine_marked h1 ?_
    intro line line' hline
    cases hline
    dsimp only
    rw [if_pos rfl]
    refine Nat.lt_of_lt_of_le ?_ (Line.seqno_fillRange _ _ _ _ _ _)
    exact Nat.lt_of_lt_of_le hseen (Nat.le_max_right _ _)
  have hsingle : Marked seen (· = s1.physRow y) s1 s' := by
    refine modifyLine_marked h2 ?_
    intro line line' hline
    cases hline
    exact Nat.lt_of_lt_of_le hseen (Nat.le_max_right _ _)
  refine (hclear.trans hsingle).congr ?_
  intro j _
  rw [hclear.physRow, or_self]

theorem eraseDisplay_marked (h : t.eraseInDisplay graphemes .display = .ok t')
    (hseen : seen < t.seqno) : MarkedRows seen
        (fun i => t.screen.altScreenIsActive = false ∧ t.active.physRow 0 ≤ i)
        (fun i => t.screen.altScreenIsActive = true ∧ t.active.physRow 0 ≤ i) t t' ∧
      t'.screen.altScreenIsActive = t.screen.altScreenIsActive ∧ t'.placements = t.placements := by
  refine onScreen_marked h ?_
  intro s hs
  have hmarked := rowsFrom_marked seen (fun i j => j = t.active.physRow i) ?_ hs
  · refine hmarked.congr ?_
    intro j hj
    have htop : t.active.physRow 0 = t.active.lines.length - t.active.physicalRows := rfl
    have hphys : ∀ i : Nat, t.active.physRow i = (t.active.lines.length - t.active.physicalRows) +
      min i t.active.physicalRows := fun i => rfl
    constructor
    · rintro ⟨i, -, -, rfl⟩
      rw [hphys, htop]
      omega
    · intro hge
      refine ⟨j - t.active.physRow 0, by omega, by omega, ?_⟩
      rw [hphys]
      omega
  · intro i s1 s2 hframe hlen hstep
    refine (eraseRow_marked hstep hseen).congr ?_
    intro j _
    have hrow : s1.physRow i = t.active.physRow i := by
      unfold Screen.physRow
      rw [hlen, hframe]
    rw [hrow]

def Screen.HasPlacement (s : Screen) (p : Placement) (j : Nat) : Prop :=
  (s.stableRange ⟨p.firstRow, p.firstRow + p.rows⟩).start ≤ j ∧
    j < (s.stableRange ⟨p.firstRow, p.firstRow + p.rows⟩).stop

theorem removePlacement_marked {p : Placement}
    (h : t.removePlacement graphemes p = .ok t') (hseen : seen < t.seqno) : MarkedRows seen
        (fun i => t.screen.altScreenIsActive = false ∧ t.active.HasPlacement p i)
        (fun i => t.screen.altScreenIsActive = true ∧ t.active.HasPlacement p i) t t' ∧
      t'.screen.altScreenIsActive = t.screen.altScreenIsActive ∧ t'.placements = t.placements := by
  refine onScreen_marked h ?_
  intro s hs
  unfold Screen.HasPlacement
  dsimp only at hs
  generalize t.active.stableRange ⟨p.firstRow, p.firstRow + p.rows⟩ = range at hs ⊢
  have hmarked := rowsFrom_marked seen (fun i j => j = i) ?_ hs
  · refine hmarked.congr ?_
    intro j _
    constructor
    · rintro ⟨i, hi, hi', rfl⟩
      omega
    · rintro ⟨hj, hj'⟩
      exact ⟨j, hj, by omega, rfl⟩
  · intro i s1 s2 _ _ hstep
    refine modifyLine_marked hstep ?_
    intro line line' hline
    cases hline
    exact Nat.lt_of_lt_of_le hseen (Nat.le_max_right _ _)

theorem removePlacements_marked {placements : List Placement}
    (h : placements.foldlM (fun (t : TerminalState) p => t.removePlacement graphemes p) t = .ok t')
    (hseen : seen < t.seqno) (hshown : t.screen.altScreenIsActive = false) :
    MarkedRows seen (fun i => ∃ p ∈ placements, t.screen.screen.HasPlacement p i) (fun _ => False)
        t t' ∧ t'.screen.altScreenIsActive = false ∧ t'.placements = t.placements := by
  induction placements generalizing t with
  | nil =>
    cases h
    refine ⟨⟨Marked.of_false _ ?_, Marked.refl _, rfl⟩, hshown, rfl⟩
    rintro i ⟨p, hp, -⟩
    exact absurd hp List.not_mem_nil
  | cons p placements ih =>
    rw [List.foldlM_cons] at h
    obtain ⟨t1, h1, h2⟩ := bind_eq_ok.mp h
    obtain ⟨hmarked1, hshown1, hplacements1⟩ := removePlacement_marked h1 hseen
    have hactive : t.active = t.screen.screen := by
      show t.screen.active = _
      rw [ScreenOrAlt.active, hshown, if_neg (by decide)]
    rw [hshown, hactive] at hmarked1
    obtain ⟨hmarked2, hshown2, hplacements2⟩ := ih h2 (by rw [hmarked1.seqno]; exact hseen)
      (hshown1.trans hshown)
    refine ⟨?_, hshown2, hplacements2.trans hplacements1⟩
    have hboth := hmarked1.trans hmarked2
    refine ⟨hboth.primary.congr ?_, hboth.alt.congr ?_, hboth.seqno⟩
    · intro i _
      have hsame : ∀ q, t1.screen.screen.HasPlacement q i ↔ t.screen.screen.HasPlacement q i := by
        intro q
        unfold Screen.HasPlacement
        rw [hmarked1.primary.stableRange]
      constructor
      · rintro (⟨-, hi⟩ | ⟨q, hq, hi⟩)
        · exact ⟨p, List.mem_cons_self, hi⟩
        · exact ⟨q, List.mem_cons_of_mem _ hq, (hsame q).mp hi⟩
      · rintro ⟨q, hq, hi⟩
        rcases List.mem_cons.mp hq with rfl | hq
        · exact .inl ⟨rfl, hi⟩
        · exact .inr ⟨q, hq, (hsame q).mpr hi⟩
    · intro i _
      constructor
      · rintro (⟨hi, -⟩ | hi)
        · exact Bool.false_ne_true hi
        · exact hi
      · exact False.elim

end Handlers

/-! ## Actions that switch -/

/-- The actions that go from one screen to the other: the modes 47, 1047 and 1049, set or reset,
and the resets. -/
inductive Switch where
  | enableAlternateScreen (set : Bool)
  | optEnableAlternateScreen (set : Bool)
  | clearAndEnableAlternateScreen (set : Bool)
  | softReset
  | fullReset
  deriving DecidableEq

/-- One action. -/
def TerminalState.switch (graphemes : Graphemes) (t : TerminalState) :
    Switch → Except Panic TerminalState
  | .enableAlternateScreen set => t.performCsiMode graphemes set .enableAlternateScreen
  | .optEnableAlternateScreen set => t.performCsiMode graphemes set .optEnableAlternateScreen
  | .clearAndEnableAlternateScreen set =>
    t.performCsiMode graphemes set .clearAndEnableAlternateScreen
  | .softReset => t.softReset graphemes
  | .fullReset => t.fullReset graphemes

/-- Actions one after the other, each with its sequence number. -/
def TerminalState.switches (graphemes : Graphemes) :
    TerminalState → List (Switch × Nat) → Except Panic TerminalState
  | t, [] => .ok t
  | t, (action, seqno) :: actions =>
    { t with seqno := seqno }.switch graphemes action >>= fun t => t.switches graphemes actions

namespace Switch

/-- Is the alternate screen shown after the action? -/
def target : Switch → Bool
  | enableAlternateScreen set => set
  | optEnableAlternateScreen set => set
  | clearAndEnableAlternateScreen set => set
  | softReset => false
  | fullReset => false

/-- Does the action clear the alternate screen, if that is shown or not? -/
def clears (alt : Bool) : Switch → Bool
  | enableAlternateScreen _ => false
  | optEnableAlternateScreen set => alt && !set
  | clearAndEnableAlternateScreen set => !alt && set
  | softReset => false
  | fullReset => true

/-- Does the action mark the first rows of the primary screen? -/
def marks (alt : Bool) : Switch → Bool
  | softReset => true
  | fullReset => true
  | action => alt != action.target

end Switch

/-- What an action does to the two screens. -/
structure Switched (seen : Nat) (action : Switch) (t t' : TerminalState) : Prop where
  shown : t'.screen.altScreenIsActive = action.target
  placements : t'.placements = if action = .softReset then [] else t.placements
  alt : Marked seen (fun i => action.clears t.screen.altScreenIsActive = true ∧
      t.screen.altScreen.physRow 0 ≤ i) t.screen.altScreen t'.screen.altScreen
  reset : action = .fullReset → ∀ i line, At t'.screen.screen.lines i line → seen < line.seqno
  primary : action ≠ .fullReset →
    Marked seen (fun i => (action.marks t.screen.altScreenIsActive = true ∧
        i < t.screen.screen.physicalRows) ∨
      (action = .softReset ∧ ∃ p ∈ t.placements, t.screen.screen.HasPlacement p i))
      t.screen.screen t'.screen.screen

section Switched

variable {graphemes : Graphemes} {seen : Nat} {t t' : TerminalState} {action : Switch}

theorem Switched.stay (hshown : t.screen.altScreenIsActive = action.target)
    (hclears : action.clears t.screen.altScreenIsActive = false)
    (hmarks : action.marks t.screen.altScreenIsActive = false) (hsoft : action ≠ .softReset)
    (hfull : action ≠ .fullReset) : Switched seen action t t := by
  refine ⟨hshown, by rw [if_neg hsoft], ?_, fun h => absurd h hfull, fun _ => ?_⟩
  · refine Marked.of_false _ fun i hi => ?_
    rw [hclears] at hi
    exact Bool.false_ne_true hi.1
  · refine Marked.of_false _ fun i hi => ?_
    rcases hi with ⟨hi, -⟩ | ⟨hi, -⟩
    · rw [hmarks] at hi
      exact Bool.false_ne_true hi
    · exact hsoft hi

theorem Switched.other {alt : Nat → Prop} (hsoft : action ≠ .softReset)
    (hfull : action ≠ .fullReset) (hmarks : action.marks t.screen.altScreenIsActive = true)
    (hshown : t'.screen.altScreenIsActive = action.target)
    (hplacements : t'.placements = t.placements)
    (h : MarkedRows seen (· < t.screen.screen.physicalRows) alt t t')
    (halt : ∀ i, alt i ↔ action.clears t.screen.altScreenIsActive = true ∧
      t.screen.altScreen.physRow 0 ≤ i) : Switched seen action t t' := by
  refine ⟨hshown, ?_, h.alt.congr fun i _ => halt i, fun h => absurd h hfull, fun _ => ?_⟩
  · rw [if_neg hsoft]
    exact hplacements
  · refine h.primary.congr fun i _ => ⟨fun hi => .inl ⟨hmarks, hi⟩, ?_⟩
    rintro (⟨-, hi⟩ | ⟨hi, -⟩)
    · exact hi
    · exact absurd hi hsoft

theorem enableAlternateScreen_switched {set : Bool} (h : t.enableAlternateScreen set = .ok t')
    (hseen : seen < t.seqno) (hsoft : action ≠ .softReset) (hfull : action ≠ .fullReset)
    (htarget : action.target = set)
    (hmarks : action.marks t.screen.altScreenIsActive = (t.screen.altScreenIsActive != set))
    (hclears : action.clears t.screen.altScreenIsActive = false) : Switched seen action t t' := by
  unfold TerminalState.enableAlternateScreen at h
  split at h
  · next hsame =>
    cases h
    refine Switched.stay (hsame.trans htarget.symm) hclears ?_ hsoft hfull
    rw [hmarks, hsame, bne_self_eq_false]
  · next hother =>
    obtain ⟨t1, h1, rfl⟩ := map_eq_ok.mp h
    obtain ⟨hmarked, hshown, hplacements⟩ := activate_marked h1 hseen
    refine Switched.other hsoft hfull ?_ (hshown.trans htarget.symm) hplacements
      ⟨hmarked.primary, hmarked.alt, hmarked.seqno⟩ ?_
    · rw [hmarks]
      exact bne_iff_ne.mpr hother
    · intro i
      rw [hclears]
      exact ⟨False.elim, fun hi => Bool.false_ne_true hi.1⟩

theorem optEnableAlternateScreen_switched {set : Bool}
    (h : t.optEnableAlternateScreen graphemes set = .ok t') (hseen : seen < t.seqno) :
    Switched seen (.optEnableAlternateScreen set) t t' := by
  unfold TerminalState.optEnableAlternateScreen at h
  cases set with
  | true =>
    refine enableAlternateScreen_switched h hseen (by decide) (by decide) rfl rfl ?_
    exact Bool.and_false _
  | false =>
    rw [if_neg (by decide)] at h
    split at h
    · next halt =>
      obtain ⟨t1, h1, h2⟩ := bind_eq_ok.mp h
      obtain ⟨hmarked1, hshown1, hplacements1⟩ := eraseDisplay_marked h1 hseen
      obtain ⟨hmarked2, hshown2, hplacements2⟩ := activate_marked h2
        (by rw [hmarked1.seqno]; exact hseen)
      have hactive : TerminalState.active { t with pen := .blank } = t.screen.altScreen := by
        show t.screen.active = _
        rw [ScreenOrAlt.active, if_pos halt]
      have hrows : t1.screen.screen.physicalRows = t.screen.screen.physicalRows := by
        rw [hmarked1.primary.frame]
      have hboth := hmarked1.trans hmarked2
      rw [hactive] at hboth
      refine Switched.other (by decide) (by decide) ?_ hshown2
        (hplacements2.trans hplacements1) ⟨hboth.primary.congr ?_, hboth.alt, hboth.seqno⟩ ?_
      · rw [halt]
        rfl
      · intro i _
        rw [hrows]
        constructor
        · rintro (⟨hi, -⟩ | hi)
          · exact absurd (halt.symm.trans hi) (by decide)
          · exact hi
        · exact .inr
      · intro i
        rw [halt]
        constructor
        · rintro (⟨-, hi⟩ | hi)
          · exact ⟨rfl, hi⟩
          · exact hi.elim
        · intro hi
          exact .inl ⟨rfl, hi.2⟩
    · next hprimary =>
      cases h
      have hfalse := Bool.eq_false_iff.mpr hprimary
      refine Switched.stay hfalse ?_ ?_ (by decide) (by decide)
      · rw [hfalse]
        rfl
      · rw [hfalse]
        rfl

theorem clearAndEnableAlternateScreen_switched {set : Bool}
    (h : t.clearAndEnableAlternateScreen graphemes set = .ok t') (hseen : seen < t.seqno) :
    Switched seen (.clearAndEnableAlternateScreen set) t t' := by
  unfold TerminalState.clearAndEnableAlternateScreen at h
  split at h
  · next hsame =>
    cases h
    refine Switched.stay hsame ?_ ?_ (by simp) (by simp)
    · show (!t.screen.altScreenIsActive && set) = false
      rw [hsame, Bool.not_and_self]
    · show (t.screen.altScreenIsActive != set) = false
      rw [hsame, bne_self_eq_false]
  · next hother =>
    cases set with
    | true =>
      have hprimary : t.screen.altScreenIsActive = false := Bool.eq_false_iff.mpr hother
      rw [if_pos rfl] at h
      obtain ⟨t1, h1, h2⟩ := bind_eq_ok.mp h
      have hsaved : SameScreens t t.decSaveCursor := setSavedCursor_same t _
      obtain ⟨hmarked1, hshown1, hplacements1⟩ := activate_marked h1
        (show seen < t.decSaveCursor.seqno from hseen)
      have hmarked1 := hmarked1.before hsaved
      have hset := setCursorPos_same t1 (.absolute 0) (.absolute 0)
      have hset : SameScreens t1
          { t1.setCursorPos (.absolute 0) (.absolute 0) with pen := .blank } :=
        ⟨hset.screen, hset.altScreen, hset.shown, hset.placements, hset.seqno⟩
      generalize TerminalState.mk _ _ .blank _ _ _ _ _ _ _ _ _ _ _ _ _ _ _ _ _ _ _ _ _ _ _ _ _ _
        = t2 at h2 hset
      obtain ⟨hmarked2, hshown2, hplacements2⟩ := eraseDisplay_marked h2
        (by rw [hset.seqno, hmarked1.seqno]; exact hseen)
      have hmarked2 := hmarked2.before hset
      have halt : t1.active = t1.screen.altScreen := by
        show t1.screen.active = _
        rw [ScreenOrAlt.active, hshown1, if_pos rfl]
      rw [hset.active, hset.shown, hshown1, halt, hmarked1.alt.physRow] at hmarked2
      have hboth := hmarked1.trans hmarked2
      refine Switched.other (by decide) (by decide) ?_ ?_ ?_
        ⟨hboth.primary.congr ?_, hboth.alt, hboth.seqno⟩ ?_
      · rw [hprimary]
        rfl
      · rw [hshown2, hset.shown, hshown1]
        rfl
      · rw [hplacements2, hset.placements, hplacements1, hsaved.placements]
      · intro i _
        rw [hsaved.screen]
        constructor
        · rintro (hi | ⟨hi, -⟩)
          · exact hi
          · exact absurd hi (by decide)
        · exact .inl
      · intro i
        rw [hprimary]
        constructor
        · rintro (hi | ⟨-, hi⟩)
          · exact hi.elim
          · exact ⟨rfl, hi⟩
        · intro hi
          exact .inr ⟨rfl, hi.2⟩
    | false =>
      rw [if_neg (by decide)] at h
      obtain ⟨t1, h1, rfl⟩ := map_eq_ok.mp h
      obtain ⟨hmarked, hshown, hplacements⟩ := activate_marked h1 hseen
      have hsame := decRestoreCursor_same t1
      refine Switched.other (by decide) (by decide) ?_ (hsame.shown.trans hshown)
        (hsame.placements.trans hplacements) (hmarked.after hsame) ?_
      · exact bne_iff_ne.mpr hother
      · intro i
        refine ⟨False.elim, fun hi => ?_⟩
        have hclears : (!t.screen.altScreenIsActive && false) = true := hi.1
        rw [Bool.and_false] at hclears
        exact Bool.false_ne_true hclears

theorem softReset_switched (h : t.softReset graphemes = .ok t') (hseen : seen < t.seqno) :
    Switched seen .softReset t t' := by
  unfold TerminalState.softReset at h
  obtain ⟨t1, h1, h⟩ := bind_eq_ok.mp h
  obtain ⟨t2, h2, h⟩ := bind_eq_ok.mp h
  obtain ⟨t3, h3, h⟩ := bind_eq_ok.mp h
  cases h
  have hstate : SameScreens t t.softResetState := ⟨rfl, rfl, rfl, rfl, rfl⟩
  obtain ⟨hmarked1, hshown1, hplacements1⟩ := activate_marked h1
    (show seen < t.softResetState.seqno from hseen)
  have hmarked1 := hmarked1.before hstate
  have hdrop1 : SameScreens t1 t1.dropSavedCursor := setSavedCursor_same t1 none
  obtain ⟨hmarked2, hshown2, hplacements2⟩ := activate_marked h2
    (by rw [hdrop1.seqno, hmarked1.seqno]; exact hseen)
  have hmarked2 := hmarked2.before hdrop1
  have hdrop2 : SameScreens t2 t2.dropSavedCursor := setSavedCursor_same t2 none
  have hseen3 : seen < t2.dropSavedCursor.seqno := by
    rw [hdrop2.seqno, hmarked2.seqno, hmarked1.seqno]
    exact hseen
  obtain ⟨hmarked3, hshown3, hplacements3⟩ := removePlacements_marked h3 hseen3
    (hdrop2.shown.trans hshown2)
  have hmarked3 : MarkedRows seen _ _ t2 t3 :=
    ⟨hdrop2.screen ▸ hmarked3.primary, hdrop2.altScreen ▸ hmarked3.alt,
      hmarked3.seqno.trans hdrop2.seqno⟩
  have hrows1 : t1.dropSavedCursor.screen.screen.physicalRows = t.screen.screen.physicalRows := by
    rw [hdrop1.screen, hmarked1.primary.frame]
  have hplaced : t2.dropSavedCursor.placements = t.placements := by
    rw [hdrop2.placements, hplacements2, hdrop1.placements, hplacements1]
    rfl
  have hplacement : ∀ p i, t2.screen.screen.HasPlacement p i ↔
      t.screen.screen.HasPlacement p i := by
    intro p i
    unfold Screen.HasPlacement
    rw [hmarked2.primary.stableRange, hmarked1.primary.stableRange]
  have hall := (hmarked1.trans hmarked2).trans hmarked3
  refine ⟨hshown3, hplacements3, hall.alt.congr ?_, fun hfull => absurd hfull (by decide), fun _ =>
    hall.primary.congr ?_⟩
  · intro i _
    constructor
    · rintro ((hi | hi) | hi) <;> exact hi.elim
    · intro hi
      exact absurd hi.1 Bool.false_ne_true
  · intro i _
    rw [hrows1, hplaced]
    constructor
    · rintro ((hi | hi) | ⟨p, hp, hi⟩)
      · exact .inl ⟨rfl, hi⟩
      · exact .inl ⟨rfl, hi⟩
      · exact .inr ⟨rfl, p, hp, (hplacement p i).mp hi⟩
    · rintro (⟨-, hi⟩ | ⟨-, p, hp, hi⟩)
      · exact .inl (.inl hi)
      · exact .inr ⟨p, hp, (hplacement p i).mpr hi⟩

theorem fullReset_switched (h : t.fullReset graphemes = .ok t') (hseen : seen < t.seqno) :
    Switched seen .fullReset t t' := by
  unfold TerminalState.fullReset at h
  obtain ⟨t1, h1, h⟩ := bind_eq_ok.mp h
  obtain ⟨t2, h2, h⟩ := bind_eq_ok.mp h
  obtain ⟨t3, h3, h⟩ := bind_eq_ok.mp h
  obtain ⟨t4, h4, h⟩ := bind_eq_ok.mp h
  obtain ⟨t5, h5, h⟩ := bind_eq_ok.mp h
  cases h
  have hstate : SameScreens t t.fullResetState := ⟨rfl, rfl, rfl, rfl, rfl⟩
  obtain ⟨hmarked1, hshown1, hplacements1⟩ := activate_marked h1
    (show seen < t.fullResetState.seqno from hseen)
  have hmarked1 := hmarked1.before hstate
  obtain ⟨hmarked2, hshown2, hplacements2⟩ := eraseDisplay_marked h2
    (by rw [hmarked1.seqno]; exact hseen)
  obtain ⟨hmarked3, hshown3, hplacements3⟩ := activate_marked h3
    (by rw [hmarked2.seqno, hmarked1.seqno]; exact hseen)
  -- the scrollback that is erased is that of the primary screen
  obtain ⟨s4, -, rfl⟩ := onScreen_eq_ok h4
  have hseqno3 : seen < t3.seqno := by
    rw [hmarked3.seqno, hmarked2.seqno, hmarked1.seqno]
    exact hseen
  have hset4 : t3.screen.setActive s4 = { t3.screen with screen := s4 } := by
    unfold ScreenOrAlt.setActive
    rw [if_neg (by rw [hshown3]; decide)]
  rw [hset4] at h5
  obtain ⟨hmarked5, hshown5, hplacements5⟩ := eraseDisplay_marked h5 hseqno3
  have hshown5 : t5.screen.altScreenIsActive = false := hshown5.trans hshown3
  have hset5 : ∀ s, t5.screen.setActive s = { t5.screen with screen := s } := by
    intro s
    unfold ScreenOrAlt.setActive
    rw [if_neg (by rw [hshown5]; decide)]
  have halt : t1.active = t1.screen.altScreen := by
    show t1.screen.active = _
    rw [ScreenOrAlt.active, hshown1, if_pos rfl]
  refine ⟨?_, ?_, ?_, ?_, fun hfull => absurd rfl hfull⟩
  · show (t5.screen.setActive _).altScreenIsActive = false
    rw [hset5]
    exact hshown5
  · rw [if_neg (by decide)]
    show t5.placements = t.placements
    rw [hplacements5]
    show t3.placements = t.placements
    rw [hplacements3, hplacements2, hplacements1]
    rfl
  · show Marked seen _ _ (t5.screen.setActive _).altScreen
    rw [hset5]
    have hall := ((hmarked1.alt.trans hmarked2.alt).trans hmarked3.alt).trans hmarked5.alt
    refine hall.congr ?_
    intro i _
    rw [halt, hshown1, hmarked1.alt.physRow]
    constructor
    · rintro (((hi | ⟨-, hi⟩) | hi) | ⟨hi, -⟩)
      · exact hi.elim
      · exact ⟨rfl, hi⟩
      · exact hi.elim
      · exact absurd (hshown3.symm.trans hi) (by decide)
    · intro hi
      exact .inl (.inl (.inr ⟨rfl, hi.2⟩))
  · intro _ i line hline
    have hline : At (t5.screen.setActive _).screen.lines i line := hline
    rw [hset5] at hline
    obtain ⟨old, -, rfl⟩ := List.mem_map.mp (List.mem_of_getElem? hline)
    have hseqno5 : t5.seqno = t3.seqno := hmarked5.seqno
    show seen < max old.seqno t5.seqno
    omega

theorem switch_switched (h : t.switch graphemes action = .ok t') (hseen : seen < t.seqno) :
    Switched seen action t t' := by
  cases action with
  | enableAlternateScreen set =>
    exact enableAlternateScreen_switched h hseen (by simp) (by simp) rfl rfl rfl
  | optEnableAlternateScreen set => exact optEnableAlternateScreen_switched h hseen
  | clearAndEnableAlternateScreen set => exact clearAndEnableAlternateScreen_switched h hseen
  | softReset => exact softReset_switched h hseen
  | fullReset => exact fullReset_switched h hseen

end Switched

/-! ## Runs -/

namespace Switch

/-- Is the alternate screen shown after the actions? -/
def endsOnAlt (alt : Bool) : List (Switch × Nat) → Bool
  | [] => alt
  | (action, _) :: actions => endsOnAlt action.target actions

/-- Is the alternate screen cleared on the way? -/
def clearsAlt (alt : Bool) : List (Switch × Nat) → Bool
  | [] => false
  | (action, _) :: actions => action.clears alt || clearsAlt action.target actions

/-- Are the first rows of the primary screen marked on the way? -/
def marksPrimary (alt : Bool) : List (Switch × Nat) → Bool
  | [] => false
  | (action, _) :: actions => action.marks alt || marksPrimary action.target actions

/-- Is the action among these? -/
def isIn (action : Switch) (actions : List (Switch × Nat)) : Prop := action ∈ actions.map Prod.fst

instance (action : Switch) (actions : List (Switch × Nat)) : Decidable (action.isIn actions) :=
  inferInstanceAs (Decidable (action ∈ actions.map Prod.fst))

variable {actions : List (Switch × Nat)}

theorem isIn_cons {action first : Switch} {seqno : Nat} :
    action.isIn ((first, seqno) :: actions) ↔ action = first ∨ action.isIn actions := by
  unfold isIn
  rw [List.map_cons, List.mem_cons]

theorem marks_of_target {alt : Bool} {action : Switch} (h : action.target ≠ alt) :
    action.marks alt = true := by
  cases action with
  | softReset => rfl
  | fullReset => rfl
  | enableAlternateScreen set => exact bne_iff_ne.mpr (Ne.symm h)
  | optEnableAlternateScreen set => exact bne_iff_ne.mpr (Ne.symm h)
  | clearAndEnableAlternateScreen set => exact bne_iff_ne.mpr (Ne.symm h)

theorem marksPrimary_of_endsOnAlt {alt : Bool} (h : endsOnAlt alt actions ≠ alt) :
    marksPrimary alt actions = true := by
  induction actions generalizing alt with
  | nil => exact absurd rfl h
  | cons first actions ih =>
    show (first.1.marks alt || marksPrimary first.1.target actions) = true
    by_cases htarget : first.1.target = alt
    · have hrest : endsOnAlt first.1.target actions ≠ first.1.target := by
        intro hsame
        exact h (hsame.trans htarget)
      rw [ih hrest, Bool.or_true]
    · rw [marks_of_target htarget, Bool.true_or]

end Switch

/-- What actions one after the other do to the two screens. -/
structure SwitchedAll (seen : Nat) (actions : List (Switch × Nat)) (t t' : TerminalState) :
    Prop where
  shown : t'.screen.altScreenIsActive = Switch.endsOnAlt t.screen.altScreenIsActive actions
  alt : Marked seen (fun i => Switch.clearsAlt t.screen.altScreenIsActive actions = true ∧
      t.screen.altScreen.physRow 0 ≤ i) t.screen.altScreen t'.screen.altScreen
  reset : Switch.fullReset.isIn actions →
    ∀ i line, At t'.screen.screen.lines i line → seen < line.seqno
  primary : ¬ Switch.fullReset.isIn actions →
    Marked seen (fun i => (Switch.marksPrimary t.screen.altScreenIsActive actions = true ∧
        i < t.screen.screen.physicalRows) ∨
      (Switch.softReset.isIn actions ∧ ∃ p ∈ t.placements, t.screen.screen.HasPlacement p i))
      t.screen.screen t'.screen.screen

section Runs

variable {graphemes : Graphemes} {seen : Nat}

theorem SwitchedAll.cons {t t1 t' : TerminalState} {action : Switch} {seqno : Nat}
    {actions : List (Switch × Nat)} (h : Switched seen action t t1)
    (hrest : SwitchedAll seen actions t1 t') :
    SwitchedAll seen ((action, seqno) :: actions) t t' := by
  refine ⟨?_, ?_, ?_, ?_⟩
  · rw [hrest.shown, h.shown]
    rfl
  · refine (h.alt.trans hrest.alt).congr ?_
    intro i _
    show _ ↔ (action.clears t.screen.altScreenIsActive ||
      Switch.clearsAlt action.target actions) = true ∧ _
    rw [h.alt.physRow, h.shown, Bool.or_eq_true, or_and_right]
  · intro hreset
    by_cases hlater : Switch.fullReset.isIn actions
    · exact hrest.reset hlater
    · have hfirst := (Switch.isIn_cons.mp hreset).resolve_right hlater
      exact (hrest.primary hlater).keeps_new (h.reset hfirst.symm)
  · intro hnone
    have hfirst : action ≠ .fullReset := fun heq => hnone (Switch.isIn_cons.mpr (.inl heq.symm))
    have hlater : ¬ Switch.fullReset.isIn actions := fun hin =>
      hnone (Switch.isIn_cons.mpr (.inr hin))
    have hmarked := h.primary hfirst
    have hrows : t1.screen.screen.physicalRows = t.screen.screen.physicalRows := by
      rw [hmarked.frame]
    have hplacement : ∀ p i, t1.screen.screen.HasPlacement p i ↔
        t.screen.screen.HasPlacement p i := by
      intro p i
      unfold Screen.HasPlacement
      rw [hmarked.stableRange]
    refine (hmarked.trans (hrest.primary hlater)).congr ?_
    intro i _
    show _ ↔ ((action.marks t.screen.altScreenIsActive ||
      Switch.marksPrimary action.target actions) = true ∧ _) ∨ _
    rw [h.shown, hrows, Bool.or_eq_true, Switch.isIn_cons, h.placements]
    constructor
    · rintro ((⟨hmarks, hi⟩ | ⟨hsoft, hplaced⟩) | (⟨hmarks, hi⟩ | ⟨hsoft, p, hp, hi⟩))
      · exact .inl ⟨.inl hmarks, hi⟩
      · exact .inr ⟨.inl hsoft.symm, hplaced⟩
      · exact .inl ⟨.inr hmarks, hi⟩
      · -- the placements are still there only if there was no soft reset before
        split at hp
        · exact absurd hp List.not_mem_nil
        · exact .inr ⟨.inr hsoft, p, hp, (hplacement p i).mp hi⟩
    · rintro (⟨hmarks | hmarks, hi⟩ | ⟨hsoft, p, hp, hi⟩)
      · exact .inl (.inl ⟨hmarks, hi⟩)
      · exact .inr (.inl ⟨hmarks, hi⟩)
      · by_cases hnow : action = .softReset
        · exact .inl (.inr ⟨hnow, p, hp, hi⟩)
        · have hsoft := hsoft.resolve_left (Ne.symm hnow)
          rw [if_neg hnow]
          exact .inr (.inr ⟨hsoft, p, hp, (hplacement p i).mpr hi⟩)

theorem switches_switched {t t' : TerminalState} {actions : List (Switch × Nat)}
    (h : t.switches graphemes actions = .ok t') (hseen : ∀ action ∈ actions, seen < action.2) :
    SwitchedAll seen actions t t' := by
  induction actions generalizing t with
  | nil =>
    cases h
    refine ⟨rfl, Marked.of_false _ ?_, ?_, fun _ => Marked.of_false _ ?_⟩
    · intro i hi
      exact Bool.false_ne_true hi.1
    · intro hin
      exact absurd hin List.not_mem_nil
    · rintro i (⟨hi, -⟩ | ⟨hi, -⟩)
      · exact Bool.false_ne_true hi
      · exact List.not_mem_nil hi
  | cons first actions ih =>
    obtain ⟨t1, h1, h2⟩ := bind_eq_ok.mp h
    have hfirst : Switched seen first.1 { t with seqno := first.2 } t1 :=
      switch_switched h1 (hseen first List.mem_cons_self)
    have hfirst : Switched seen first.1 t t1 :=
      ⟨hfirst.shown, hfirst.placements, hfirst.alt, hfirst.reset, hfirst.primary⟩
    exact SwitchedAll.cons hfirst (ih h2 fun action hin => hseen action (List.mem_cons_of_mem _ hin))

end Runs

end Wakterm.Term
